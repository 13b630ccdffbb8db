import Mathlib.Data.Fintype.Basic
import Mathlib.Data.List.Infix
import Mathlib.Tactic.FinCases

/-!
# Texts that hold other texts

Three ways to write a text into another one: behind a separator, in the quotes of JSON, and in the
pattern of an SQL `LIKE`.  Each is read back exactly, which is what a key or a digest made of it
rests on.
-/

namespace Encoding

/-! ## Behind a separator -/

/-- `str.partition`: what stands before the first separator, and what stands after it if there is
one. -/
def partition (sep : Char) : List Char → List Char × Option (List Char)
  | [] => ([], none)
  | c :: cs => if c = sep then ([], some cs) else
      let (before, after) := partition sep cs
      (c :: before, after)

variable {sep : Char}

theorem partition_of_notMem : ∀ {l : List Char}, sep ∉ l → partition sep l = (l, none)
  | [], _ => rfl
  | c :: cs, h => by
      rw [List.mem_cons, not_or] at h
      simp [partition, Ne.symm h.1, partition_of_notMem h.2]

theorem partition_append (r : List Char) :
    ∀ {l : List Char}, sep ∉ l → partition sep (l ++ sep :: r) = (l, some r)
  | [], _ => by simp [partition]
  | c :: cs, h => by
      rw [List.mem_cons, not_or] at h
      simp [partition, Ne.symm h.1, partition_append r h.2]

/-- A text is what stands before its separator, the separator and what stands after it. -/
theorem eq_of_partition_some : ∀ {l r : List Char}, (partition sep l).2 = some r →
    l = (partition sep l).1 ++ sep :: r
  | [], r, h => by cases h
  | c :: cs, r, h => by
      unfold partition at h ⊢
      split_ifs at h ⊢ with hc
      · cases h
        simp [hc]
      · exact congrArg (c :: ·) (eq_of_partition_some h)

theorem partition_subset : ∀ {l : List Char}, (∀ c ∈ (partition sep l).1, c ∈ l) ∧
    ∀ r, (partition sep l).2 = some r → ∀ c ∈ r, c ∈ l
  | [] => ⟨fun _ h => h, fun _ h => nomatch h⟩
  | d :: ds => by
      unfold partition
      split_ifs with hd
      · refine ⟨fun _ h => absurd h List.not_mem_nil, ?_⟩
        rintro r ⟨⟩ c hc
        exact List.mem_cons_of_mem d hc
      · obtain ⟨before, after⟩ := partition_subset (l := ds)
        refine ⟨fun c hc => ?_, fun r hr c hc => List.mem_cons_of_mem d (after r hr c hc)⟩
        rcases List.mem_cons.1 hc with rfl | hc
        · exact List.mem_cons_self
        · exact List.mem_cons_of_mem d (before c hc)

theorem notMem_partition_fst : ∀ {l : List Char}, sep ∉ (partition sep l).1
  | [] => List.not_mem_nil
  | c :: cs => by
      unfold partition
      split_ifs with hc
      · exact List.not_mem_nil
      · rw [List.mem_cons, not_or]
        exact ⟨Ne.symm hc, notMem_partition_fst⟩

theorem notMem_of_partition_none : ∀ {l : List Char}, (partition sep l).2 = none → sep ∉ l
  | [], _ => List.not_mem_nil
  | c :: cs, h => by
      unfold partition at h
      split_ifs at h with hc
      rw [List.mem_cons, not_or]
      exact ⟨Ne.symm hc, notMem_of_partition_none h⟩

/-! ## In the quotes of JSON -/

def hexDigit (n : ℕ) : Char := if n < 10 then Char.ofNat (48 + n) else Char.ofNat (87 + n)

def hexValue (c : Char) : ℕ := if c.toNat < 58 then c.toNat - 48 else c.toNat - 87

/-- How JSON writes a character in a string, where only the quote, the backslash and the control
characters are escaped. -/
def escapeChar (c : Char) : List Char :=
  if c = '"' ∨ c = '\\' then ['\\', c]
  else if c = '\n' then ['\\', 'n']
  else if c = '\r' then ['\\', 'r']
  else if c = '\t' then ['\\', 't']
  else if c = '\x0c' then ['\\', 'f']
  else if c = '\x08' then ['\\', 'b']
  else if c.toNat < 32 then
    ['\\', 'u', '0', '0', hexDigit (c.toNat / 16), hexDigit (c.toNat % 16)]
  else [c]

/-- Read one written character. -/
def unescape : List Char → Option (Char × List Char)
  | '\\' :: 'u' :: _ :: _ :: a :: b :: rest =>
    some (Char.ofNat (16 * hexValue a + hexValue b), rest)
  | '\\' :: 'n' :: rest => some ('\n', rest)
  | '\\' :: 'r' :: rest => some ('\r', rest)
  | '\\' :: 't' :: rest => some ('\t', rest)
  | '\\' :: 'f' :: rest => some ('\x0c', rest)
  | '\\' :: 'b' :: rest => some ('\x08', rest)
  | '\\' :: c :: rest => some (c, rest)
  | c :: rest => some (c, rest)
  | [] => none

theorem unescape_control (n : Fin 32) (rest : List Char) :
    unescape (escapeChar (Char.ofNat n) ++ rest) = some (Char.ofNat n, rest) := by
  fin_cases n <;> rfl

theorem escapeChar_of_le {c : Char} (h : 32 ≤ c.toNat) (hq : c ≠ '"') (hb : c ≠ '\\') :
    escapeChar c = [c] := by
  have control : ∀ d : Char, d.toNat < 32 → c ≠ d := fun d hd hcd => by
    subst hcd
    omega
  have h1 := control '\n' (by decide)
  have h2 := control '\r' (by decide)
  have h3 := control '\t' (by decide)
  have h4 := control '\x0c' (by decide)
  have h5 := control '\x08' (by decide)
  simp [escapeChar, hq, hb, h1, h2, h3, h4, h5, h]

theorem unescape_escapeChar (c : Char) (rest : List Char) :
    unescape (escapeChar c ++ rest) = some (c, rest) := by
  by_cases hcontrol : c.toNat < 32
  · simpa [Char.ofNat_toNat] using unescape_control ⟨c.toNat, hcontrol⟩ rest
  · by_cases hq : c = '"'
    · subst hq
      rfl
    · by_cases hb : c = '\\'
      · subst hb
        rfl
      · rw [escapeChar_of_le (by omega) hq hb]
        unfold unescape
        split <;> simp_all

/-- No written character begins with a quote. -/
theorem head_escapeChar (c : Char) : ∃ d ds, escapeChar c = d :: ds ∧ d ≠ '"' := by
  unfold escapeChar
  split_ifs with hq
  all_goals first | exact ⟨_, _, rfl, by decide⟩ | skip
  exact ⟨_, _, rfl, fun h => hq (.inl h)⟩

/-- A string in quotes. -/
def quote (s : List Char) : List Char := '"' :: (s.flatMap escapeChar ++ ['"'])

/-- A quoted string says where it ends. -/
theorem quote_cancel : ∀ {a b x y : List Char},
    a.flatMap escapeChar ++ '"' :: x = b.flatMap escapeChar ++ '"' :: y → a = b ∧ x = y
  | [], [], x, y, h => by simpa using h
  | [], d :: ds, x, y, h => by
      obtain ⟨e, es, he, hne⟩ := head_escapeChar d
      rw [List.flatMap_cons, he] at h
      exact absurd (List.cons.inj h).1.symm hne
  | c :: cs, [], x, y, h => by
      obtain ⟨e, es, he, hne⟩ := head_escapeChar c
      rw [List.flatMap_cons, he] at h
      exact absurd (List.cons.inj h).1 hne
  | c :: cs, d :: ds, x, y, h => by
      rw [List.flatMap_cons, List.flatMap_cons, List.append_assoc, List.append_assoc] at h
      have hread := congrArg unescape h
      rw [unescape_escapeChar, unescape_escapeChar] at hread
      obtain ⟨rfl, hrest⟩ := Prod.mk.inj (Option.some.inj hread)
      obtain ⟨rfl, rfl⟩ := quote_cancel hrest
      exact ⟨rfl, rfl⟩

/-- The elements of a list of strings and its closing bracket. -/
def elements : List (List Char) → List Char
  | [] => [']']
  | [s] => quote s ++ [']']
  | s :: ss => quote s ++ ',' :: elements ss

/-- `json.dumps` of a list of strings, without blanks and with every character as it is. -/
def dumps (ss : List (List Char)) : List Char := '[' :: elements ss

theorem elements_inj : ∀ {xs ys : List (List Char)}, elements xs = elements ys → xs = ys
  | [], [], _ => rfl
  | [], [y], h => by simp [elements, quote] at h
  | [], y :: y' :: ys, h => by simp [elements, quote] at h
  | [x], [], h => by simp [elements, quote] at h
  | x :: x' :: xs, [], h => by simp [elements, quote] at h
  | [x], [y], h => by
      simp only [elements, quote, List.cons_append, List.append_assoc, List.cons.injEq, true_and,
        List.nil_append] at h
      rw [(quote_cancel h).1]
  | [x], y :: y' :: ys, h => by
      simp only [elements, quote, List.cons_append, List.append_assoc, List.cons.injEq, true_and,
        List.nil_append] at h
      exact absurd (quote_cancel h).2 (by simp)
  | x :: x' :: xs, [y], h => by
      simp only [elements, quote, List.cons_append, List.append_assoc, List.cons.injEq, true_and,
        List.nil_append] at h
      exact absurd (quote_cancel h).2 (by simp)
  | x :: x' :: xs, y :: y' :: ys, h => by
      simp only [elements, quote, List.cons_append, List.append_assoc, List.cons.injEq, true_and,
        List.nil_append] at h
      obtain ⟨rfl, hrest⟩ := quote_cancel h
      rw [elements_inj (List.cons.inj hrest).2]

/-- The text of a list of strings determines the list. -/
theorem dumps_injective : Function.Injective dumps := fun _ _ h =>
  elements_inj (List.cons.inj h).2

/-! ## In the pattern of a `LIKE` -/

inductive Wildcard
  /-- `%` -/
  | any
  /-- `_` -/
  | one
  | char (c : Char)

/-- Read a pattern in which `esc` takes the meaning of the next character away. -/
def wildcards (esc : Char) : List Char → List Wildcard
  | [] => []
  | [c] => [plain c]
  | c :: d :: rest =>
    if c = esc then .char d :: wildcards esc rest else plain c :: wildcards esc (d :: rest)
where
  plain (c : Char) : Wildcard := if c = '%' then .any else if c = '_' then .one else .char c

theorem wildcards_cons {esc c : Char} (h : c ≠ esc) (s : List Char) :
    wildcards esc (c :: s) = wildcards.plain c :: wildcards esc s := by
  cases s with
  | nil => rfl
  | cons d ds => simp [wildcards, h]

/-- `LIKE`, which does not tell the cases of a Latin letter apart. -/
def like : List Wildcard → List Char → Bool
  | [], s => s.isEmpty
  | .any :: ps, s => s.tails.any (like ps)
  | .one :: ps, s => match s with
    | [] => false
    | _ :: s => like ps s
  | .char c :: ps, s => match s with
    | [] => false
    | d :: s => c.toLower == d.toLower && like ps s

theorem like_chars : ∀ s : List Char, like (s.map .char) s = true
  | [] => rfl
  | c :: cs => by simp [like, like_chars cs]

theorem like_any {ps : List Wildcard} {before s : List Char} (h : like ps s = true) :
    like (.any :: ps) (before ++ s) = true := by
  simp only [like, List.any_eq_true, List.mem_tails]
  exact ⟨s, List.suffix_append before s, h⟩

/-- `str.replace` of one character. -/
def replace (c : Char) (by_ : List Char) (s : List Char) : List Char :=
  s.flatMap fun d => if d = c then by_ else [d]

/-- A text as it is written into a pattern. -/
def escapeLike (s : List Char) : List Char :=
  replace '_' ['\\', '_'] (replace '%' ['\\', '%'] (replace '\\' ['\\', '\\'] s))

theorem escapeLike_cons (c : Char) (cs : List Char) : escapeLike (c :: cs) =
    (if c = '\\' ∨ c = '%' ∨ c = '_' then ['\\', c] else [c]) ++ escapeLike cs := by
  by_cases h1 : c = '\\'
  · subst h1
    simp [escapeLike, replace]
  · by_cases h2 : c = '%'
    · subst h2
      simp [escapeLike, replace]
    · by_cases h3 : c = '_' <;> simp [escapeLike, replace, h1, h2, h3]

/-- A text that was written into a pattern stands for itself there. -/
theorem wildcards_escapeLike : ∀ s : List Char, wildcards '\\' (escapeLike s) = s.map .char
  | [] => rfl
  | c :: cs => by
      have ih := wildcards_escapeLike cs
      rw [escapeLike_cons]
      split_ifs with hc
      · simp [wildcards, ih]
      · push Not at hc
        have hplain : wildcards.plain c = .char c := by simp [wildcards.plain, hc.2.1, hc.2.2]
        rw [List.singleton_append, wildcards_cons hc.1, hplain, ih, List.map_cons]

end Encoding
