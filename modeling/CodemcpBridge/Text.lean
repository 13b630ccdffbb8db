import Mathlib.Data.List.Basic

/-!
# Texts

The string methods that the program uses, on lists of characters so that they compute.  Case is
folded on ASCII letters only, which is all that commit hashes and digests hold.
-/

namespace CodemcpBridge

/-- Texts are members of a list in one way, whatever else is imported. -/
instance instLawfulBEqChars : LawfulBEq (List Char) := inferInstance

namespace Text

/-- The order of Python and of SQLite on texts: by code points. -/
def leChars : List Char → List Char → Bool
  | [], _ => true
  | _ :: _, [] => false
  | c :: cs, d :: ds => c.toNat < d.toNat || (c.toNat == d.toNat && leChars cs ds)

def le (s t : String) : Bool := leChars s.toList t.toList

theorem leChars_trans : ∀ {s t u : List Char}, leChars s t = true → leChars t u = true →
    leChars s u = true
  | [], _, _, _, _ => rfl
  | c :: cs, d :: ds, e :: es, h, h' => by
      simp only [leChars, Bool.or_eq_true, Bool.and_eq_true, decide_eq_true_eq,
        beq_iff_eq] at h h' ⊢
      rcases h with h | ⟨he, h⟩
      · rcases h' with h' | ⟨he', -⟩
        · exact .inl (by omega)
        · exact .inl (by omega)
      · rcases h' with h' | ⟨he', h'⟩
        · exact .inl (by omega)
        · exact .inr ⟨by omega, leChars_trans h h'⟩

theorem leChars_total : ∀ (s t : List Char), leChars s t = true ∨ leChars t s = true
  | [], _ => .inl rfl
  | _ :: _, [] => .inr rfl
  | c :: cs, d :: ds => by
      simp only [leChars, Bool.or_eq_true, Bool.and_eq_true, decide_eq_true_eq, beq_iff_eq]
      rcases Nat.lt_trichotomy c.toNat d.toNat with h | h | h
      · exact .inl (.inl h)
      · exact (leChars_total cs ds).imp (fun hl => .inr ⟨h, hl⟩) fun hl => .inr ⟨h.symm, hl⟩
      · exact .inr (.inl h)

/-- A member of `string.hexdigits`. -/
def isHexDigit (c : Char) : Bool :=
  ('0' ≤ c && c ≤ '9') || ('a' ≤ c && c ≤ 'f') || ('A' ≤ c && c ≤ 'F')

/-- `str.lower`. -/
def lower (s : String) : String := String.ofList (s.toList.map Char.toLower)

/-- A character that `str.strip` removes. -/
def isSpace (c : Char) : Bool :=
  c == ' ' || (9 ≤ c.toNat && c.toNat ≤ 13) || (0x1c ≤ c.toNat && c.toNat ≤ 0x1f) ||
    [0x85, 0xa0, 0x1680, 0x2028, 0x2029, 0x202f, 0x205f, 0x3000].contains c.toNat ||
    (0x2000 ≤ c.toNat && c.toNat ≤ 0x200a)

/-- `str.strip`. -/
def strip (s : String) : String :=
  String.ofList ((s.toList.dropWhile isSpace).reverse.dropWhile isSpace).reverse

/-- The pieces between separators: one more than there are separators. -/
def splitBy (sep : Char → Bool) : List Char → List (List Char)
  | [] => [[]]
  | c :: cs => if sep c then [] :: splitBy sep cs else match splitBy sep cs with
    | [] => [[c]]
    | p :: ps => (c :: p) :: ps

/-- `str.split` at a character. -/
def split (sep : Char) (s : String) : List String :=
  (splitBy (· == sep) s.toList).map String.ofList

/-- `str.split` at runs of space. -/
def words (s : String) : List String :=
  ((splitBy isSpace s.toList).filter (· ≠ [])).map String.ofList

/-- A line boundary of `str.splitlines`. -/
def isLineBreak (c : Char) : Bool :=
  c == '\n' || c == '\r' || c == '\x0b' || c == '\x0c' || c == '\x1c' || c == '\x1d' ||
    c == '\x1e' || c == '\u0085' || c == '\u2028' || c == '\u2029'

/-- `str.splitlines`: a final line break ends the last line and starts no other. -/
def linesOf : List Char → List Char → List (List Char)
  | acc, [] => if acc = [] then [] else [acc.reverse]
  | acc, '\r' :: '\n' :: cs => acc.reverse :: linesOf [] cs
  | acc, c :: cs => if isLineBreak c then acc.reverse :: linesOf [] cs else linesOf (c :: acc) cs

def splitlines (s : String) : List String := (linesOf [] s.toList).map String.ofList

/-- `str.startswith`. -/
def startsWith (s start : String) : Bool := start.toList.isPrefixOf s.toList

/-- `s[n:]`. -/
def drop (n : ℕ) (s : String) : String := String.ofList (s.toList.drop n)

/-- The path of the directory that holds a path. -/
def parent (path : String) : String :=
  String.ofList ((path.toList.reverse.dropWhile (· ≠ '/')).drop 1).reverse

/-- `root / path`. -/
def join (root path : String) : String := root ++ "/" ++ path

/-- The components of a relative path, as `PurePosixPath.parts` gives them. -/
def parts (path : String) : List String := (split '/' path).filter fun p => p ≠ "" ∧ p ≠ "."

/-- A match of `[A-Za-z0-9][A-Za-z0-9_.:-]{0,127}`. -/
def isIdentifier (s : String) : Bool :=
  match s.toList with
  | [] => false
  | c :: cs => c.isAlphanum && cs.all (fun d => d.isAlphanum || d == '_' || d == '.' || d == ':' ||
      d == '-') && cs.length ≤ 127

/-- `_is_git_head` of a string. -/
def isGitHead (s : String) : Bool :=
  (s.length == 40 || s.length == 64) && s.toList.all isHexDigit

/-- `sorted(set(…))`. -/
def insertUnique (x : String) : List String → List String
  | [] => [x]
  | y :: ys => if x = y then y :: ys else if le x y then x :: y :: ys else y :: insertUnique x ys

def sortedSet : List String → List String
  | [] => []
  | x :: xs => insertUnique x (sortedSet xs)

/-- `str.title` of ASCII text, from a position that follows a letter or not. -/
def titleFrom : Bool → List Char → List Char
  | _, [] => []
  | inWord, c :: cs => (if inWord then c.toLower else c.toUpper) :: titleFrom c.isAlpha cs

def title (s : String) : String := String.ofList (titleFrom false s.toList)

/-- `str.count`: occurrences that do not overlap, after skipping some characters. -/
def countFrom (pattern : List Char) : ℕ → List Char → ℕ
  | _, [] => if pattern = [] then 1 else 0
  | k + 1, _ :: cs => countFrom pattern k cs
  | 0, c :: cs => if pattern.isPrefixOf (c :: cs) then 1 + countFrom pattern (pattern.length - 1) cs
    else countFrom pattern 0 cs

def count (s pattern : String) : ℕ := countFrom pattern.toList 0 s.toList

/-- `str.replace(old, new, 1)`. -/
def replaceFirst (old new : List Char) : List Char → List Char
  | [] => if old = [] then new else []
  | c :: cs => if old.isPrefixOf (c :: cs) then new ++ (c :: cs).drop old.length
    else c :: replaceFirst old new cs

/-- The text with every line break as a line feed. -/
def normalizeBreaks : List Char → List Char
  | [] => []
  | '\r' :: '\n' :: cs => '\n' :: normalizeBreaks cs
  | '\r' :: cs => '\n' :: normalizeBreaks cs
  | c :: cs => c :: normalizeBreaks cs

/-! ## Bytes -/

/-- `raw.count(b"\r\n")`. -/
def countCrLf : List UInt8 → ℕ
  | [] => 0
  | b :: bs => (if b = 13 ∧ bs.head? = some 10 then 1 else 0) + countCrLf bs

/-- The longest prefix whose UTF-8 form takes at most `n` bytes. -/
def takeBytes : ℕ → List Char → List Char
  | _, [] => []
  | n, c :: cs => if c.utf8Size ≤ n then c :: takeBytes (n - c.utf8Size) cs else []

/-- `_truncate_text`: at most `n` bytes of a text, and whether some were left out. -/
def truncate (s : String) (n : ℕ) : String × Bool :=
  if s.utf8ByteSize ≤ n then (s, false) else (String.ofList (takeBytes n s.toList), true)

/-- The number of continuation bytes that a lead byte asks for, the bits it brings, and the range of
the first continuation byte. -/
def leadByte (b : ℕ) : Option (ℕ × ℕ × ℕ × ℕ) :=
  if 0xC2 ≤ b ∧ b ≤ 0xDF then some (1, b - 0xC0, 0x80, 0xBF)
  else if b = 0xE0 then some (2, 0, 0xA0, 0xBF)
  else if b = 0xED then some (2, 0xD, 0x80, 0x9F)
  else if 0xE1 ≤ b ∧ b ≤ 0xEF then some (2, b - 0xE0, 0x80, 0xBF)
  else if b = 0xF0 then some (3, 0, 0x90, 0xBF)
  else if b = 0xF4 then some (3, 4, 0x80, 0x8F)
  else if 0xF1 ≤ b ∧ b ≤ 0xF3 then some (3, b - 0xF0, 0x80, 0xBF)
  else none

/-- Read continuation bytes: the code point if all are there, and what follows the bytes read. -/
def continuation : ℕ → ℕ → ℕ → ℕ → List ℕ → Option ℕ × List ℕ
  | 0, bits, _, _, bs => (some bits, bs)
  | _ + 1, _, _, _, [] => (none, [])
  | n + 1, bits, lo, hi, b :: bs =>
    if lo ≤ b ∧ b ≤ hi then continuation n (bits * 64 + (b - 0x80)) 0x80 0xBF bs
    else (none, b :: bs)

/-- `bytes.decode`: each maximal ill-formed piece becomes what `bad` says. -/
def decodeFrom (bad : List Char) : ℕ → List ℕ → List Char
  | 0, _ => []
  | _, [] => []
  | n + 1, b :: bs =>
    if b < 0x80 then Char.ofNat b :: decodeFrom bad n bs
    else match leadByte b with
      | none => bad ++ decodeFrom bad n bs
      | some (k, bits, lo, hi) => match continuation k bits lo hi bs with
        | (some c, rest) => Char.ofNat c :: decodeFrom bad n rest
        | (none, rest) => bad ++ decodeFrom bad n rest

/-- `decode("utf-8", errors="replace")`. -/
def decodeReplace (b : ByteArray) : String :=
  String.ofList (decodeFrom ['\uFFFD'] b.size (b.data.toList.map UInt8.toNat))

/-- `decode("utf-8", errors="ignore")`. -/
def decodeIgnore (b : ByteArray) : String :=
  String.ofList (decodeFrom [] b.size (b.data.toList.map UInt8.toNat))

/-! ## Globs -/

/-- A piece of an `fnmatch` pattern. -/
inductive Glob
  | star
  | any
  | char (c : Char)
  | set (negated : Bool) (ranges : List (Char × Char))
  deriving DecidableEq

/-- The ranges between the brackets of a set. -/
def ranges : List Char → List (Char × Char)
  | a :: '-' :: b :: cs => (a, b) :: ranges cs
  | a :: cs => (a, a) :: ranges cs
  | [] => []

/-- The body of a set and what follows its closing bracket, if it has one. -/
def setBody (cs : List Char) : Option (List Char × List Char) :=
  let first := match cs with
    | '!' :: _ => 2
    | _ => 1
  match (cs.drop first).span (· ≠ ']') with
  | (_, []) => none
  | (body, _ :: rest) => some (cs.take first ++ body, rest)

/-- Read a pattern, at most `n` pieces of it. -/
def globs : ℕ → List Char → List Glob
  | 0, _ => []
  | _, [] => []
  | n + 1, '*' :: cs => .star :: globs n cs
  | n + 1, '?' :: cs => .any :: globs n cs
  | n + 1, '[' :: cs => match setBody cs with
    | none => .char '[' :: globs n cs
    | some ('!' :: body, rest) => .set true (ranges body) :: globs n rest
    | some (body, rest) => .set false (ranges body) :: globs n rest
  | n + 1, c :: cs => .char c :: globs n cs

def globMatches : List Glob → List Char → Bool
  | [], s => s.isEmpty
  | .star :: p, s => s.tails.any (globMatches p)
  | .any :: p, s => match s with
    | [] => false
    | _ :: cs => globMatches p cs
  | .char d :: p, s => match s with
    | [] => false
    | c :: cs => c == d && globMatches p cs
  | .set negated rs :: p, s => match s with
    | [] => false
    | c :: cs => (rs.any fun r => r.1 ≤ c && c ≤ r.2) != negated && globMatches p cs

/-- `fnmatch.fnmatchcase`. -/
def fnmatchcase (name pattern : String) : Bool :=
  globMatches (globs pattern.length pattern.toList) name.toList

end Text

end CodemcpBridge
