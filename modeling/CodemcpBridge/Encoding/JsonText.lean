import Mathlib.Data.List.Infix
import Mathlib.Data.List.TakeWhile

/-!
# Reading JSON off bytes

`json.loads` of bytes: the encoding is guessed from the first bytes, and a scanner reads one value
off the text.  A text is a sequence of code points, as lone surrogates get into it by an escape or
by the `surrogatepass` of the decoders.  The interpreter takes no integer of too many digits and no
nesting that is too deep, which are errors of their own.
-/

namespace JsonText

/-- Code points, lone surrogates among them. -/
abbrev Codes := List ℕ

def codes (s : String) : Codes := s.toList.map Char.toNat

/-- What a JSON text stands for; of a number that is no integer nothing is kept. -/
inductive Value
  | null
  | bool (b : Bool)
  | int (n : ℤ)
  | float
  | str (s : Codes)
  | arr (xs : List Value)
  | obj (fields : List (Codes × Value))

/-- The last value under a key. -/
def Value.get? (fields : List (Codes × Value)) (key : Codes) : Option Value :=
  (fields.reverse.find? fun f => f.1 == key).map Prod.snd

inductive Fault
  /-- Bytes that are no text, or a text that is no JSON. -/
  | malformed
  /-- More digits in an integer, or more nesting, than the interpreter takes. -/
  | overrun
  deriving DecidableEq

structure Limits where
  digits : ℕ
  depth : ℕ

/-! ## Bytes -/

inductive Form
  | utf8
  | utf16 (big : Bool)
  | utf32 (big : Bool)
  deriving DecidableEq

/-- `detect_encoding`, and the length of the byte order mark. -/
def detectEncoding (bytes : List ℕ) : Form × ℕ :=
  if [0, 0, 0xFE, 0xFF].isPrefixOf bytes then (.utf32 true, 4)
  else if [0xFF, 0xFE, 0, 0].isPrefixOf bytes then (.utf32 false, 4)
  else if [0xFE, 0xFF].isPrefixOf bytes then (.utf16 true, 2)
  else if [0xFF, 0xFE].isPrefixOf bytes then (.utf16 false, 2)
  else if [0xEF, 0xBB, 0xBF].isPrefixOf bytes then (.utf8, 3)
  else match bytes with
    | a :: b :: c :: d :: _ =>
      if a = 0 then (if b ≠ 0 then .utf16 true else .utf32 true, 0)
      else if b = 0 then (if c ≠ 0 ∨ d ≠ 0 then .utf16 false else .utf32 false, 0)
      else (.utf8, 0)
    | [a, b] => (if a = 0 then .utf16 true else if b = 0 then .utf16 false else .utf8, 0)
    | _ => (.utf8, 0)

/-- The continuation bytes that are still to come, the bits so far, and the range of the next byte.
-/
structure Continuation where
  left : ℕ
  bits : ℕ
  lo : ℕ
  hi : ℕ

def leadByte (b : ℕ) : Option Continuation :=
  if 0xC2 ≤ b ∧ b ≤ 0xDF then some ⟨1, b - 0xC0, 0x80, 0xBF⟩
  else if b = 0xE0 then some ⟨2, 0, 0xA0, 0xBF⟩
  else if 0xE1 ≤ b ∧ b ≤ 0xEF then some ⟨2, b - 0xE0, 0x80, 0xBF⟩
  else if b = 0xF0 then some ⟨3, 0, 0x90, 0xBF⟩
  else if 0xF1 ≤ b ∧ b ≤ 0xF3 then some ⟨3, b - 0xF0, 0x80, 0xBF⟩
  else if b = 0xF4 then some ⟨3, 4, 0x80, 0x8F⟩
  else none

/-- UTF-8 in which the surrogates have their forms too. -/
def utf8 : Option Continuation → List ℕ → Option Codes
  | none, [] => some []
  | some _, [] => none
  | none, b :: bs =>
    if b < 0x80 then (utf8 none bs).map (b :: ·)
    else match leadByte b with
      | none => none
      | some x => utf8 (some x) bs
  | some x, b :: bs =>
    if x.lo ≤ b ∧ b ≤ x.hi then
      if x.left = 1 then (utf8 none bs).map ((x.bits * 64 + (b - 0x80)) :: ·)
      else utf8 (some ⟨x.left - 1, x.bits * 64 + (b - 0x80), 0x80, 0xBF⟩) bs
    else none

def isHigh (c : ℕ) : Bool := 0xD800 ≤ c && c ≤ 0xDBFF

def isLow (c : ℕ) : Bool := 0xDC00 ≤ c && c ≤ 0xDFFF

def joinSurrogates (high low : ℕ) : ℕ := 0x10000 + (high - 0xD800) * 1024 + (low - 0xDC00)

/-- Units of two bytes, put together where two of them are one character. -/
def utf16 (big : Bool) : Option ℕ → List ℕ → Option Codes
  | high, [] => some high.toList
  | _, [_] => none
  | high, a :: b :: bs =>
    let unit := if big then 256 * a + b else 256 * b + a
    match high with
    | some h =>
      if isLow unit then (utf16 big none bs).map (joinSurrogates h unit :: ·)
      else if isHigh unit then (utf16 big (some unit) bs).map (h :: ·)
      else (utf16 big none bs).map ([h, unit] ++ ·)
    | none =>
      if isHigh unit then utf16 big (some unit) bs else (utf16 big none bs).map (unit :: ·)

def utf32 (big : Bool) : List ℕ → Option Codes
  | [] => some []
  | a :: b :: c :: d :: bs =>
    let unit := if big then 16777216 * a + 65536 * b + 256 * c + d
      else 16777216 * d + 65536 * c + 256 * b + a
    if unit ≤ 0x10FFFF then (utf32 big bs).map (unit :: ·) else none
  | _ => none

/-- `s.decode(detect_encoding(s), "surrogatepass")`. -/
def decode (bytes : List ℕ) : Option Codes :=
  let (form, mark) := detectEncoding bytes
  match form with
  | .utf8 => utf8 none (bytes.drop mark)
  | .utf16 big => utf16 big none (bytes.drop mark)
  | .utf32 big => utf32 big (bytes.drop mark)

/-! ## Strings -/

def hexValue (c : ℕ) : Option ℕ :=
  if 48 ≤ c ∧ c ≤ 57 then some (c - 48)
  else if 97 ≤ c ∧ c ≤ 102 then some (c - 87)
  else if 65 ≤ c ∧ c ≤ 70 then some (c - 55)
  else none

/-- What a character stands for behind a backslash. -/
def escaped (c : ℕ) : Option ℕ :=
  ([('"', '"'), ('\\', '\\'), ('/', '/'), ('b', '\x08'), ('f', '\x0c'), ('n', '\n'), ('r', '\r'),
    ('t', '\t')].find? fun e => e.1.toNat == c).map fun e => e.2.toNat

inductive Mode
  | plain
  | escape
  /-- Hex digits that are still to come, and the value so far. -/
  | hex (left value : ℕ)

/-- Where in a string the scanner is, and the escaped surrogate that may begin a pair. -/
structure StringState where
  mode : Mode
  high : Option ℕ

namespace StringState

def start : StringState := ⟨.plain, none⟩

/-- An escape of four digits is there. -/
def unit (high : Option ℕ) (value : ℕ) : Codes × StringState :=
  match high with
  | some h =>
    if isLow value then ([joinSurrogates h value], start)
    else if isHigh value then ([h], ⟨.plain, some value⟩)
    else ([h, value], start)
  | none => if isHigh value then ([], ⟨.plain, some value⟩) else ([value], start)

/-- One character: what it adds, and the state that follows it, if the string goes on. -/
def step (x : StringState) (c : ℕ) : Option (Codes × Option StringState) :=
  match x.mode with
  | .plain =>
    if c = '"'.toNat then some (x.high.toList, none)
    else if c = '\\'.toNat then some ([], some ⟨.escape, x.high⟩)
    else if c < 32 then none
    else some (x.high.toList ++ [c], some start)
  | .escape =>
    if c = 'u'.toNat then some ([], some ⟨.hex 4 0, x.high⟩)
    else (escaped c).map fun d => (x.high.toList ++ [d], some start)
  | .hex left value => (hexValue c).map fun d =>
    if left ≤ 1 then
      let (out, y) := unit x.high (16 * value + d)
      (out, some y)
    else ([], some ⟨.hex (left - 1) (16 * value + d), x.high⟩)

end StringState

/-- A parser: the value at the front of a text, and the rest. -/
abbrev Scan (α : Type) := Codes → Except Fault (α × Codes)

/-- The rest of a string whose beginning was read. -/
def scanString : StringState → Scan Codes
  | _, [] => .error .malformed
  | x, c :: s => match x.step c with
    | none => .error .malformed
    | some (out, none) => .ok (out, s)
    | some (out, some y) => (scanString y s).map fun r => (out ++ r.1, r.2)

/-! ## Values -/

def isBlank (c : ℕ) : Bool := c == 32 || c == 9 || c == 10 || c == 13

def skipBlanks (s : Codes) : Codes := s.dropWhile isBlank

def isDigit (c : ℕ) : Bool := 48 ≤ c && c ≤ 57

/-- What stands behind a fraction. -/
def fraction : Codes → Option Codes
  | c :: d :: s => if c = '.'.toNat ∧ isDigit d then some (s.dropWhile isDigit) else none
  | _ => none

/-- What stands behind an exponent. -/
def exponent : Codes → Option Codes
  | [] => none
  | c :: s =>
    let unsigned := if s.head? = some '+'.toNat ∨ s.head? = some '-'.toNat then s.drop 1 else s
    if (c = 'e'.toNat ∨ c = 'E'.toNat) ∧ unsigned.head?.any isDigit then
      some (unsigned.dropWhile isDigit)
    else none

/-- The digits before a point, of which none follows a leading zero, and what stands behind them. -/
def whole (s : Codes) : Codes × Codes :=
  if s.head? = some '0'.toNat then (s.take 1, s.drop 1)
  else (s.takeWhile isDigit, s.dropWhile isDigit)

def valueOf (digits : Codes) : ℕ := digits.foldl (fun n c => 10 * n + (c - 48)) 0

/-- What stands behind a sign. -/
def unsigned (s : Codes) : Codes := if s.head? = some '-'.toNat then s.drop 1 else s

/-- What stands behind a fraction or an exponent or both, if there is one. -/
def floatEnd (s : Codes) : Option Codes :=
  match fraction s with
  | none => exponent s
  | some behind => some ((exponent behind).getD behind)

/-- `_match_number_unicode`. -/
def scanNumber (limit : ℕ) : Scan Value := fun s =>
  let (digits, rest) := whole (unsigned s)
  if digits = [] then .error .malformed
  else match floatEnd rest with
    | some behind => .ok (.float, behind)
    | none =>
      if limit < digits.length then .error .overrun
      else .ok (.int (if s.head? = some '-'.toNat then -valueOf digits else valueOf digits), rest)

def literals : List (String × Value) :=
  [("null", .null), ("true", .bool true), ("false", .bool false), ("NaN", .float),
    ("Infinity", .float), ("-Infinity", .float)]

/-- A value that holds no other. -/
def scanAtom (limit : ℕ) : Scan Value := fun s =>
  match literals.find? fun l => (codes l.1).isPrefixOf s with
  | some (name, value) => .ok (value, s.drop name.length)
  | none => scanNumber limit s

/-- The items up to a bracket, with commas between them, at most so many. -/
def items {α : Type} (close : Char) (item : Scan α) : ℕ → Scan (List α)
  | 0, _ => .error .malformed
  | n + 1, s => do
    let (x, s) ← item s
    match skipBlanks s with
    | [] => .error .malformed
    | c :: s =>
      if c = close.toNat then .ok ([x], s)
      else if c = ','.toNat then
        (items close item n (skipBlanks s)).map fun r => (x :: r.1, r.2)
      else .error .malformed

/-- What stands between brackets, behind the first of them. -/
def bracketed {α : Type} (close : Char) (item : Scan α) : Scan (List α) := fun s =>
  if (skipBlanks s).head? = some close.toNat then .ok ([], (skipBlanks s).drop 1)
  else items close item ((skipBlanks s).length + 1) (skipBlanks s)

/-- A key, its colon and the value under it. -/
def member (value : Scan Value) : Scan (Codes × Value)
  | [] => .error .malformed
  | c :: s =>
    if c = '"'.toNat then do
      let (key, s) ← scanString .start s
      match skipBlanks s with
      | [] => .error .malformed
      | c :: s =>
        if c = ':'.toNat then (value (skipBlanks s)).map fun r => ((key, r.1), r.2)
        else .error .malformed
    else .error .malformed

/-- `_parse_array_unicode`. -/
def scanArray (value : Scan Value) : Scan Value := fun s =>
  (bracketed ']' value s).map fun r => (.arr r.1, r.2)

/-- `_parse_object_unicode`. -/
def scanObject (value : Scan Value) : Scan Value := fun s =>
  (bracketed '}' (member value) s).map fun r => (.obj r.1, r.2)

/-- One value, with the scanner for the values inside it, if there is room for one. -/
def scanWith (limit : ℕ) (inner : Option (Scan Value)) : Scan Value
  | [] => .error .malformed
  | c :: s =>
    if c = '"'.toNat then (scanString .start s).map fun r => (.str r.1, r.2)
    else if c = '{'.toNat then match inner with
      | none => .error .overrun
      | some value => scanObject value s
    else if c = '['.toNat then match inner with
      | none => .error .overrun
      | some value => scanArray value s
    else scanAtom limit (c :: s)

/-- `scan_once`, with room for so many values in each other. -/
def scanOnce (limit : ℕ) : ℕ → Scan Value
  | 0 => scanWith limit none
  | depth + 1 => scanWith limit (some (scanOnce limit depth))

/-- `JSONDecoder.decode`. -/
def decodeText (limits : Limits) (text : Codes) : Except Fault Value := do
  let (value, rest) ← scanOnce limits.digits limits.depth (skipBlanks text)
  if skipBlanks rest = [] then .ok value else .error .malformed

/-- `json.loads`. -/
def loads (limits : Limits) (bytes : List ℕ) : Except Fault Value :=
  match decode bytes with
  | none => .error .malformed
  | some text => decodeText limits text

/-! ## What is read and what is left -/

theorem skipBlanks_suffix (s : Codes) : skipBlanks s <:+ s := List.dropWhile_suffix _

/-- What the scanner leaves of a text is an end of it. -/
def Leaves {α : Type} (p : Scan α) : Prop := ∀ s a r, p s = .ok (a, r) → r <:+ s

theorem map_eq_ok {α β : Type} {x : Except Fault α} {f : α → β} {b : β} :
    x.map f = .ok b ↔ ∃ a, x = .ok a ∧ f a = b := by
  cases x with
  | error e => simp [Except.map]
  | ok a => simp [Except.map]

theorem map_eq_error {α β : Type} {x : Except Fault α} {f : α → β} {e : Fault} :
    x.map f = .error e ↔ x = .error e := by
  cases x with
  | error e => simp [Except.map]
  | ok a => simp [Except.map]

theorem bind_eq_ok {α β : Type} {x : Except Fault α} {f : α → Except Fault β} {b : β} :
    x >>= f = .ok b ↔ ∃ a, x = .ok a ∧ f a = .ok b := by
  cases x with
  | error e => simp [bind, Except.bind]
  | ok a => simp [bind, Except.bind]

theorem bind_eq_error {α β : Type} {x : Except Fault α} {f : α → Except Fault β} {e : Fault} :
    x >>= f = .error e ↔ x = .error e ∨ ∃ a, x = .ok a ∧ f a = .error e := by
  cases x with
  | error e => simp [bind, Except.bind]
  | ok a => simp [bind, Except.bind]

theorem scanString_leaves : ∀ x, Leaves (scanString x) := by
  intro x s
  induction s generalizing x with
  | nil =>
    intro a r h
    cases h
  | cons c s ih =>
    intro a r h
    unfold scanString at h
    split at h
    · cases h
    · cases h
      exact List.suffix_cons c _
    · obtain ⟨⟨b, r'⟩, hb, hr⟩ := map_eq_ok.1 h
      cases hr
      exact (ih _ _ _ hb).trans (List.suffix_cons c s)

theorem whole_suffix (s : Codes) : (whole s).2 <:+ s := by
  unfold whole
  split_ifs
  · exact List.drop_suffix 1 s
  · exact List.dropWhile_suffix isDigit

theorem fraction_suffix {s r : Codes} (h : fraction s = some r) : r <:+ s := by
  unfold fraction at h
  split at h
  · split_ifs at h
    cases h
    exact (List.dropWhile_suffix isDigit).trans (List.suffix_append [_, _] _)
  · cases h

theorem exponent_suffix {s r : Codes} (h : exponent s = some r) : r <:+ s := by
  cases s with
  | nil => cases h
  | cons c s =>
    unfold exponent at h
    dsimp only at h
    split_ifs at h with sign digit digit
    · cases h
      exact ((List.dropWhile_suffix isDigit).trans (List.drop_suffix 1 s)).trans
        (List.suffix_cons c s)
    · cases h
      exact (List.dropWhile_suffix isDigit).trans (List.suffix_cons c s)

theorem unsigned_suffix (s : Codes) : unsigned s <:+ s := by
  unfold unsigned
  split_ifs
  · exact List.drop_suffix 1 s
  · exact List.suffix_refl s

theorem getD_suffix {o : Option Codes} {s : Codes} (h : ∀ r, o = some r → r <:+ s) :
    o.getD s <:+ s := by
  cases o with
  | none => exact List.suffix_refl s
  | some r => exact h r rfl

theorem floatEnd_suffix {s r : Codes} (h : floatEnd s = some r) : r <:+ s := by
  unfold floatEnd at h
  split at h
  · exact exponent_suffix h
  · next behind hb =>
    cases h
    exact (getD_suffix fun _ => exponent_suffix).trans (fraction_suffix hb)

theorem scanNumber_leaves (limit : ℕ) : Leaves (scanNumber limit) := by
  intro s a r h
  have rest : (whole (unsigned s)).2 <:+ s := (whole_suffix _).trans (unsigned_suffix s)
  unfold scanNumber at h
  dsimp only at h
  split at h
  · cases h
  · split at h
    · next behind hb =>
      cases h
      exact (floatEnd_suffix hb).trans rest
    · split at h
      · cases h
      · cases h
        exact rest

theorem scanAtom_leaves (limit : ℕ) : Leaves (scanAtom limit) := by
  intro s a r h
  unfold scanAtom at h
  split at h
  · cases h
    exact List.drop_suffix _ s
  · exact scanNumber_leaves limit s a r h

variable {α : Type} {close : Char} {item : Scan α} {value : Scan Value}

theorem items_leaves (hi : Leaves item) : ∀ n, Leaves (items close item n) := by
  intro n
  induction n with
  | zero =>
    intro s a r h
    cases h
  | succ n ih =>
    intro s a r h
    obtain ⟨⟨x, t⟩, hx, h⟩ := bind_eq_ok.1 h
    have first := (skipBlanks_suffix t).trans (hi s x t hx)
    dsimp only at h
    split at h
    · cases h
    · next c u hu =>
      rw [hu] at first
      have behind := (List.suffix_cons c u).trans first
      split_ifs at h
      · cases h
        exact behind
      · obtain ⟨⟨xs, r'⟩, hxs, hr⟩ := map_eq_ok.1 h
        cases hr
        exact ((ih _ _ _ hxs).trans (skipBlanks_suffix u)).trans behind

theorem bracketed_leaves (hi : Leaves item) : Leaves (bracketed close item) := by
  intro s a r h
  unfold bracketed at h
  split_ifs at h
  · cases h
    exact (List.drop_suffix 1 _).trans (skipBlanks_suffix s)
  · exact (items_leaves hi _ _ a r h).trans (skipBlanks_suffix s)

theorem member_leaves (hv : Leaves value) : Leaves (member value) := by
  intro s a r h
  cases s with
  | nil => cases h
  | cons c s =>
    unfold member at h
    dsimp only at h
    split_ifs at h
    obtain ⟨⟨key, t⟩, hkey, h⟩ := bind_eq_ok.1 h
    have first := (skipBlanks_suffix t).trans
      ((scanString_leaves _ s key t hkey).trans (List.suffix_cons c s))
    dsimp only at h
    split at h
    · cases h
    · next d u hu =>
      rw [hu] at first
      split_ifs at h
      obtain ⟨⟨x, r'⟩, hx, hr⟩ := map_eq_ok.1 h
      cases hr
      exact ((hv _ _ _ hx).trans (skipBlanks_suffix u)).trans ((List.suffix_cons d u).trans first)

theorem scanWith_leaves (limit : ℕ) (inner : Option (Scan Value))
    (hi : ∀ value, inner = some value → Leaves value) : Leaves (scanWith limit inner) := by
  intro s a r h
  cases s with
  | nil => cases h
  | cons c s =>
    unfold scanWith at h
    dsimp only at h
    split_ifs at h
    · obtain ⟨⟨b, r'⟩, hb, hr⟩ := map_eq_ok.1 h
      cases hr
      exact (scanString_leaves _ s b r' hb).trans (List.suffix_cons c s)
    · cases inner with
      | none => cases h
      | some value =>
        obtain ⟨⟨b, r'⟩, hb, hr⟩ := map_eq_ok.1 h
        cases hr
        exact (bracketed_leaves (member_leaves (hi value rfl)) s b r' hb).trans
          (List.suffix_cons c s)
    · cases inner with
      | none => cases h
      | some value =>
        obtain ⟨⟨b, r'⟩, hb, hr⟩ := map_eq_ok.1 h
        cases hr
        exact (bracketed_leaves (hi value rfl) s b r' hb).trans (List.suffix_cons c s)
    · exact scanAtom_leaves limit (c :: s) a r h

theorem scanOnce_leaves (limit : ℕ) : ∀ depth, Leaves (scanOnce limit depth)
  | 0 => scanWith_leaves limit none fun _ h => nomatch h
  | depth + 1 => scanWith_leaves limit _ fun _ h => Option.some.inj h ▸ scanOnce_leaves limit depth

/-! ## What is too much -/

/-- A piece of the text is a run of more digits than the limit. -/
def LongRun (limit : ℕ) (s : Codes) : Prop :=
  ∃ u, u <:+: s ∧ (∀ c ∈ u, isDigit c = true) ∧ limit < u.length

def isOpen (c : ℕ) : Bool := c = '['.toNat || c = '{'.toNat

/-- Where the scanner gives up, there is a long run of digits or many brackets are opened. -/
def GivesUp (limit depth : ℕ) (p : Scan α) : Prop :=
  ∀ s, p s = .error .overrun → LongRun limit s ∨ depth < s.countP isOpen

theorem longRun_of_suffix {limit : ℕ} {s t : Codes} (hs : s <:+ t) (h : LongRun limit s) :
    LongRun limit t := by
  obtain ⟨u, hu, rest⟩ := h
  exact ⟨u, hu.trans hs.isInfix, rest⟩

theorem excess_of_suffix {limit depth : ℕ} {s t : Codes} (hs : s <:+ t)
    (h : LongRun limit s ∨ depth < s.countP isOpen) :
    LongRun limit t ∨ depth < t.countP isOpen :=
  h.imp (longRun_of_suffix hs) fun h => h.trans_le (hs.sublist.countP_le)

theorem whole_prefix (s : Codes) : (whole s).1 <+: s ∧ ∀ c ∈ (whole s).1, isDigit c = true := by
  unfold whole
  split_ifs with zero
  · refine ⟨List.take_prefix 1 s, ?_⟩
    cases s with
    | nil => cases zero
    | cons d s =>
      intro c hc
      rw [List.take_succ_cons, List.take_zero, List.mem_singleton] at hc
      cases zero
      rw [hc]
      rfl
  · exact ⟨List.takeWhile_prefix isDigit, fun c => List.mem_takeWhile_imp⟩

theorem scanNumber_givesUp {limit : ℕ} {s : Codes} (h : scanNumber limit s = .error .overrun) :
    LongRun limit s := by
  unfold scanNumber at h
  dsimp only at h
  split at h
  · cases h
  · split at h
    · cases h
    · split at h
      · next long =>
        obtain ⟨front, digits⟩ := whole_prefix (unsigned s)
        exact ⟨_, front.isInfix.trans (unsigned_suffix s).isInfix, digits, long⟩
      · cases h

theorem scanString_fault : ∀ x s, scanString x s ≠ .error .overrun := by
  intro x s
  induction s generalizing x with
  | nil => exact fun h => nomatch h
  | cons c s ih =>
    intro h
    unfold scanString at h
    split at h
    · cases h
    · cases h
    · exact ih _ (map_eq_error.1 h)

theorem items_givesUp {limit depth : ℕ} (hi : Leaves item) (hg : GivesUp limit depth item) :
    ∀ n, GivesUp limit depth (items close item n) := by
  intro n
  induction n with
  | zero =>
    intro s h
    cases h
  | succ n ih =>
    intro s h
    rcases bind_eq_error.1 h with h | ⟨⟨x, t⟩, hx, h⟩
    · exact hg s h
    · have first := (skipBlanks_suffix t).trans (hi s x t hx)
      dsimp only at h
      split at h
      · cases h
      · next c u hu =>
        rw [hu] at first
        split_ifs at h
        · exact excess_of_suffix
            ((skipBlanks_suffix u).trans ((List.suffix_cons c u).trans first))
            (ih _ (map_eq_error.1 h))
        · cases h

theorem bracketed_givesUp {limit depth : ℕ} (hi : Leaves item) (hg : GivesUp limit depth item) :
    GivesUp limit depth (bracketed close item) := by
  intro s h
  unfold bracketed at h
  split_ifs at h
  exact excess_of_suffix (skipBlanks_suffix s) (items_givesUp hi hg _ _ h)

theorem member_givesUp {limit depth : ℕ} (hg : GivesUp limit depth value) :
    GivesUp limit depth (member value) := by
  intro s h
  cases s with
  | nil => cases h
  | cons c s =>
    unfold member at h
    dsimp only at h
    split_ifs at h
    · rcases bind_eq_error.1 h with h | ⟨⟨key, t⟩, hkey, h⟩
      · exact absurd h (scanString_fault _ s)
      · have first := (skipBlanks_suffix t).trans
          ((scanString_leaves _ s key t hkey).trans (List.suffix_cons c s))
        dsimp only at h
        split at h
        · cases h
        · next d u hu =>
          rw [hu] at first
          split_ifs at h
          · exact excess_of_suffix
              ((skipBlanks_suffix u).trans ((List.suffix_cons d u).trans first))
              (hg _ (map_eq_error.1 h))
          · cases h
    · cases h

/-- One more bracket is opened in front of what stands inside it. -/
theorem excess_cons {limit depth c : ℕ} {s : Codes} (hc : isOpen c = true)
    (h : LongRun limit s ∨ depth < s.countP isOpen) :
    LongRun limit (c :: s) ∨ depth + 1 < (c :: s).countP isOpen := by
  refine h.imp (longRun_of_suffix (List.suffix_cons c s)) fun h => ?_
  rw [List.countP_cons_of_pos hc]
  omega

theorem scanOnce_givesUp (limit : ℕ) : ∀ depth, GivesUp limit depth (scanOnce limit depth)
  | 0 => by
      intro s h
      cases s with
      | nil => cases h
      | cons c s =>
        unfold scanOnce scanWith at h
        dsimp only at h
        split_ifs at h with quote brace bracket
        · exact absurd (map_eq_error.1 h) (scanString_fault _ s)
        · right
          rw [List.countP_cons_of_pos (by simp [isOpen, brace])]
          omega
        · right
          rw [List.countP_cons_of_pos (by simp [isOpen, bracket])]
          omega
        · left
          unfold scanAtom at h
          split at h
          · cases h
          · exact scanNumber_givesUp h
  | depth + 1 => by
      intro s h
      have inner := scanOnce_leaves limit depth
      have ih := scanOnce_givesUp limit depth
      cases s with
      | nil => cases h
      | cons c s =>
        unfold scanOnce scanWith at h
        dsimp only at h
        split_ifs at h with quote brace bracket
        · exact absurd (map_eq_error.1 h) (scanString_fault _ s)
        · exact excess_cons (by simp [isOpen, brace])
            (bracketed_givesUp (member_leaves inner) (member_givesUp ih) s (map_eq_error.1 h))
        · exact excess_cons (by simp [isOpen, bracket])
            (bracketed_givesUp inner ih s (map_eq_error.1 h))
        · left
          unfold scanAtom at h
          split at h
          · cases h
          · exact scanNumber_givesUp h

/-- Bytes are too much for the interpreter only with a long run of digits, or with more brackets
opened than it takes of them in each other. -/
theorem excess_of_overrun {limits : Limits} {bytes : List ℕ}
    (h : loads limits bytes = .error .overrun) :
    ∃ text, decode bytes = some text ∧
      (LongRun limits.digits text ∨ limits.depth < text.countP isOpen) := by
  unfold loads at h
  cases hd : decode bytes with
  | none =>
    rw [hd] at h
    cases h
  | some text =>
    rw [hd] at h
    refine ⟨text, rfl, ?_⟩
    rcases bind_eq_error.1 h with h | ⟨⟨value, rest⟩, -, h⟩
    · exact excess_of_suffix (skipBlanks_suffix text) (scanOnce_givesUp _ _ _ h)
    · dsimp only at h
      split_ifs at h
      cases h

end JsonText
