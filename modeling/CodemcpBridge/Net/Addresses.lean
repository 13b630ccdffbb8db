import CodemcpBridge.Encoding.Texts
import Mathlib.Data.Fin.Basic

/-!
# Internet addresses

The text of an IPv4 or IPv6 address, as it is read and as it is written.  What is written is read
back as the address; the written text of an IPv6 address is its compressed form.
-/

namespace Net

/-! ## Numbers -/

/-- The value of a decimal or hexadecimal digit. -/
def digitValue (c : Char) : ℕ :=
  if c.isDigit then c.toNat - 48 else if c.isUpper then c.toNat - 55 else c.toNat - 87

def isHexDigit (c : Char) : Bool :=
  c.isDigit || ('a' ≤ c && c ≤ 'f') || ('A' ≤ c && c ≤ 'F')

/-- `int(text, base)` of digits. -/
def valueOf (base : ℕ) (text : List Char) : ℕ := text.foldl (fun n c => base * n + digitValue c) 0

theorem valueOf_concat (base : ℕ) (text : List Char) (c : Char) :
    valueOf base (text ++ [c]) = base * valueOf base text + digitValue c := by
  unfold valueOf
  rw [List.foldl_append, List.foldl_cons, List.foldl_nil]

theorem digitValue_digitChar : ∀ d < 16, digitValue d.digitChar = d := by decide

variable {base : ℕ}

/-- The digits of a number are read back. -/
theorem valueOf_toDigits (hb : 1 < base) (hb' : base ≤ 16) (n : ℕ) :
    valueOf base (Nat.toDigits base n) = n := by
  induction n using Nat.strong_induction_on with
  | _ n ih =>
  by_cases h : n < base
  · rw [Nat.toDigits_of_lt_base h]
    show base * 0 + digitValue n.digitChar = n
    rw [digitValue_digitChar n (by omega)]
    omega
  · have less : n / base < n := Nat.div_lt_self (by omega) hb
    have last : n % base < 16 := lt_of_lt_of_le (Nat.mod_lt n (by omega)) hb'
    rw [Nat.toDigits_of_base_le hb (by omega), valueOf_concat, ih _ less,
      digitValue_digitChar _ last]
    exact Nat.div_add_mod n base

theorem exists_of_mem_toDigits (hb : 1 < base) (hb' : base ≤ 16) (n : ℕ) :
    ∀ c ∈ Nat.toDigits base n, ∃ d < base, c = d.digitChar := by
  induction n using Nat.strong_induction_on with
  | _ n ih =>
  intro c hc
  by_cases h : n < base
  · rw [Nat.toDigits_of_lt_base h, List.mem_singleton] at hc
    exact ⟨n, h, hc⟩
  · rw [Nat.toDigits_of_base_le hb (by omega), List.mem_append, List.mem_singleton] at hc
    rcases hc with hc | hc
    · exact ih _ (Nat.div_lt_self (by omega) hb) c hc
    · exact ⟨n % base, Nat.mod_lt n (by omega), hc⟩

/-- A digit as it is written: a letter in it is a small one. -/
def isWrittenDigit (c : Char) : Bool := c.isDigit || ('a' ≤ c && c ≤ 'f')

theorem isWrittenDigit_digitChar : ∀ d < 16, isWrittenDigit d.digitChar = true := by decide

theorem isHexDigit_of_isWrittenDigit {c : Char} (h : isWrittenDigit c = true) :
    isHexDigit c = true := by
  unfold isWrittenDigit at h
  unfold isHexDigit
  rw [h, Bool.true_or]

/-! ## IPv4 -/

/-- An IPv4 address. -/
abbrev V4 := {octets : List (Fin 256) // octets.length = 4}

/-- `_parse_octet`. -/
def parseOctet (text : List Char) : Option (Fin 256) :=
  if text = [] ∨ ¬ text.all Char.isDigit ∨ 3 < text.length ∨ (text ≠ ['0'] ∧ text.head? = some '0')
  then none
  else if h : valueOf 10 text < 256 then some ⟨valueOf 10 text, h⟩ else none

/-- `IPv4Address(text)`. -/
def parseV4 (text : List Char) : Option V4 :=
  ((text.splitOn '.').mapM parseOctet).bind fun octets =>
    if h : octets.length = 4 then some ⟨octets, h⟩ else none

def octetText (octet : Fin 256) : List Char := Nat.toDigits 10 octet

def V4.text (a : V4) : List Char := ['.'].intercalate (a.1.map octetText)

/-! ## IPv6 -/

/-- An IPv6 address without its scope, from the highest hextet to the lowest. -/
abbrev V6 := {hextets : List (Fin 65536) // hextets.length = 8}

/-- `_parse_hextet`. -/
def parseHextet (text : List Char) : Option (Fin 65536) :=
  if text = [] ∨ ¬ text.all isHexDigit ∨ 4 < text.length then none
  else if h : valueOf 16 text < 65536 then some ⟨valueOf 16 text, h⟩ else none

def hextetText (hextet : Fin 65536) : List Char := Nat.toDigits 16 hextet

/-- The parts of a text between its colons, with an IPv4 address at the end put as two hextets. -/
def withoutV4 (parts : List (List Char)) : Option (List (List Char)) :=
  if '.' ∈ parts.getLastD [] then
    (parseV4 (parts.getLastD [])).map fun a =>
      let pair (i : ℕ) : List Char :=
        Nat.toDigits 16 (256 * (a.1.getD i 0 : ℕ) + (a.1.getD (i + 1) 0 : ℕ))
      parts.dropLast ++ [pair 0, pair 2]
  else some parts

/-- The parts before or after `::`, where an empty part at the outer end has to be the only one. -/
def outerParts (atEdge : Option (List Char)) (parts : List (List Char)) :
    Option (List (List Char)) :=
  if atEdge = some [] then if parts.length = 1 then some [] else none else some parts

/-- The hextets of an address with `::` between these parts. -/
def aroundRun (high low : List (List Char)) : Option (List (Fin 65536)) :=
  if 8 ≤ high.length + low.length then none
  else do
    let high' ← high.mapM parseHextet
    let low' ← low.mapM parseHextet
    some (high' ++ List.replicate (8 - (high.length + low.length)) 0 ++ low')

/-- `skip_index`, where there is an empty part other than the first and the last one. -/
def skipIndex (parts : List (List Char)) : ℕ := parts.tail.dropLast.idxOf [] + 1

/-- The hextets of an address, given by its parts. -/
def parseParts (parts : List (List Char)) : Option (List (Fin 65536)) :=
  match parts.tail.dropLast.count [] with
  | 0 => if parts.length = 8 then parts.mapM parseHextet else none
  | 1 => (outerParts parts.head? (parts.take (skipIndex parts))).bind fun high =>
      (outerParts parts.getLast? (parts.drop (skipIndex parts + 1))).bind fun low =>
        aroundRun high low
  | _ => none

/-- `IPv6Address._ip_int_from_string`. -/
def parseV6 (text : List Char) : Option V6 :=
  let parts := text.splitOn ':'
  if parts.length < 3 then none
  else do
    let parts ← withoutV4 parts
    if 9 < parts.length then none
    else
      let hextets ← parseParts parts
      if h : hextets.length = 8 then some ⟨hextets, h⟩ else none

/-- The first of the longest runs of zeros: where it starts and how long it is.  The run that is
being read comes with the best one so far. -/
def bestRun (zeros : List Bool) : ℕ × ℕ :=
  let (_, _, best) := zeros.foldl (fun (index, run, best) zero =>
    if zero then
      let run : ℕ × ℕ := if run.2 = 0 then (index, 1) else (run.1, run.2 + 1)
      (index + 1, run, if best.2 < run.2 then run else best)
    else (index + 1, (0, 0), best)) ((0, (0, 0), (0, 0)) : ℕ × (ℕ × ℕ) × (ℕ × ℕ))
  best

/-- `_compress_hextets`. -/
def V6.parts (a : V6) : List (List Char) :=
  let texts := a.1.map hextetText
  let (start, len) := bestRun (a.1.map (· == 0))
  if 1 < len then
    (if start = 0 then [[]] else []) ++ texts.take start ++ [[]] ++ texts.drop (start + len) ++
      (if start + len = 8 then [[]] else [])
  else texts

def V6.text (a : V6) : List Char := [':'].intercalate a.parts

/-! ## Addresses -/

/-- The scope of an IPv6 address. -/
abbrev Scope := {scope : List Char // scope ≠ [] ∧ '%' ∉ scope ∧ '/' ∉ scope}

/-- What `ip_address` returns. -/
inductive Address
  | v4 (a : V4)
  | v6 (a : V6) (scope : Option Scope)
  deriving DecidableEq

/-- `_split_scope_id` and the address before it. -/
def parseScoped (text : List Char) : Option (V6 × Option Scope) :=
  match Encoding.partition '%' text with
  | (address, none) => (parseV6 address).map (·, none)
  | (address, some scope) =>
    if h : scope ≠ [] ∧ '%' ∉ scope ∧ '/' ∉ scope then (parseV6 address).map (·, some ⟨scope, h⟩)
    else none

/-- `ip_address(text)`. -/
def ipAddress (text : List Char) : Option Address :=
  if '/' ∈ text then none
  else match parseV4 text with
    | some a => some (.v4 a)
    | none => (parseScoped text).map fun (a, scope) => .v6 a scope

/-- `str(address)`. -/
def Address.text : Address → List Char
  | .v4 a => a.text
  | .v6 a none => a.text
  | .v6 a (some scope) => a.text ++ '%' :: scope

example : ipAddress "::ffff:1.2.3.4%eth0".toList =
    some (.v6 ⟨[0, 0, 0, 0, 0, 0xffff, 0x102, 0x304], rfl⟩ (some ⟨"eth0".toList, by decide⟩)) := by
  decide +kernel

/-! ## Written addresses are read back -/

theorem mapM_map_of_forall {α β : Type} {f : α → β} {g : β → Option α} :
    ∀ {l : List α}, (∀ a ∈ l, g (f a) = some a) → (l.map f).mapM g = some l
  | [], _ => rfl
  | a :: l, h => by
    rw [List.map_cons, List.mapM_cons, h a List.mem_cons_self,
      mapM_map_of_forall fun b hb => h b (List.mem_cons_of_mem a hb)]
    rfl

theorem parseOctet_octetText : ∀ o : Fin 256, parseOctet (octetText o) = some o := by
  decide +kernel

theorem all_isDigit_octetText : ∀ o : Fin 256, (octetText o).all Char.isDigit = true := by
  decide +kernel

theorem isDigit_of_mem_octetText (o : Fin 256) : ∀ c ∈ octetText o, c.isDigit = true :=
  List.all_eq_true.1 (all_isDigit_octetText o)

theorem parseV4_text (a : V4) : parseV4 a.text = some a := by
  have dotless : ∀ l ∈ a.1.map octetText, '.' ∉ l := by
    intro l hl hd
    obtain ⟨o, -, rfl⟩ := List.mem_map.1 hl
    exact absurd (isDigit_of_mem_octetText o '.' hd) (by decide)
  have nonempty : a.1.map octetText ≠ [] := by
    apply List.ne_nil_of_length_pos
    rw [List.length_map, a.2]
    decide
  unfold parseV4 V4.text
  rw [List.splitOn_intercalate '.' dotless nonempty,
    mapM_map_of_forall fun o _ => parseOctet_octetText o, Option.bind_some, dif_pos a.2]

theorem isWrittenDigit_of_mem_hextetText (h : Fin 65536) :
    ∀ c ∈ hextetText h, isWrittenDigit c = true := by
  intro c hc
  obtain ⟨d, hd, rfl⟩ := exists_of_mem_toDigits (by decide) (by decide) h c hc
  exact isWrittenDigit_digitChar d hd

theorem parseHextet_hextetText (h : Fin 65536) : parseHextet (hextetText h) = some h := by
  have hex : (hextetText h).all isHexDigit = true :=
    List.all_eq_true.2 fun c hc =>
      isHexDigit_of_isWrittenDigit (isWrittenDigit_of_mem_hextetText h c hc)
  have short : (hextetText h).length ≤ 4 :=
    (Nat.length_toDigits_le_iff (by decide) (by decide)).2 h.isLt
  have value : valueOf 16 (hextetText h) = h := valueOf_toDigits (by decide) (by decide) h
  have nonempty : hextetText h ≠ [] := Nat.toDigits_ne_nil
  unfold parseHextet
  rw [if_neg, dif_pos]
  · exact congrArg some (Fin.ext value)
  · rw [value]
    exact h.isLt
  · rw [hex]
    simp only [nonempty, not_true_eq_false, false_or]
    omega

/-- The best run is a run of zeros. -/
theorem bestRun_zeros : ∀ b₀ b₁ b₂ b₃ b₄ b₅ b₆ b₇ : Bool,
    let zeros := [b₀, b₁, b₂, b₃, b₄, b₅, b₆, b₇]
    let (start, len) := bestRun zeros
    1 < len → start + len ≤ 8 ∧ (zeros.drop start).take len = List.replicate len true := by
  decide +kernel

theorem bestRun_of_length : ∀ {zeros : List Bool}, zeros.length = 8 → 1 < (bestRun zeros).2 →
    (bestRun zeros).1 + (bestRun zeros).2 ≤ 8 ∧
      (zeros.drop (bestRun zeros).1).take (bestRun zeros).2 = List.replicate (bestRun zeros).2 true
  | [b₀, b₁, b₂, b₃, b₄, b₅, b₆, b₇], _, h => bestRun_zeros b₀ b₁ b₂ b₃ b₄ b₅ b₆ b₇ h

/-- An address with its best run put between what stands before and after it. -/
theorem hextets_eq (a : V6) {start len : ℕ} (h : bestRun (a.1.map (· == 0)) = (start, len))
    (long : 1 < len) : start + len ≤ 8 ∧
      a.1 = a.1.take start ++ List.replicate len 0 ++ a.1.drop (start + len) := by
  have hl : (a.1.map (· == 0)).length = 8 := by rw [List.length_map, a.2]
  obtain ⟨fits, zeros⟩ := bestRun_of_length hl (by rw [h]; exact long)
  rw [h] at fits zeros
  refine ⟨fits, ?_⟩
  have run : (a.1.drop start).take len = List.replicate len 0 := by
    rw [← List.map_drop, ← List.map_take] at zeros
    refine List.eq_replicate_iff.2 ⟨?_, fun x hx => ?_⟩
    · rw [List.length_take, List.length_drop, a.2]
      dsimp only at fits
      omega
    · have := (List.eq_replicate_iff.1 zeros).2 (x == 0) (List.mem_map_of_mem hx)
      exact eq_of_beq this
  rw [← run, List.append_assoc, ← List.drop_drop, List.take_append_drop, List.take_append_drop]

/-- The parts of an address in which `::` stands between `high` and `low`. -/
theorem parseParts_run {high low : List (List Char)} (hh : [] ∉ high.tail) (hl : [] ∉ low.dropLast)
    (nh : high ≠ []) (nl : low ≠ []) :
    parseParts (high ++ [] :: low) = (outerParts high.head? high).bind fun high =>
      (outerParts low.getLast? low).bind fun low => aroundRun high low := by
  have inner : (high ++ [] :: low).tail.dropLast = high.tail ++ [] :: low.dropLast := by
    rw [List.tail_append_of_ne_nil nh, List.dropLast_append_of_ne_nil (List.cons_ne_nil _ _),
      List.dropLast_cons_of_ne_nil nl]
  have once : (high.tail ++ [] :: low.dropLast).count [] = 1 := by
    rw [List.count_append, List.count_cons_self, List.count_eq_zero.2 hh, List.count_eq_zero.2 hl]
  have skip : skipIndex (high ++ [] :: low) = high.length := by
    unfold skipIndex
    rw [inner, List.idxOf_append_of_notMem hh, List.idxOf_cons_self, List.length_tail]
    have := List.length_pos_iff.2 nh
    omega
  have head : (high ++ [] :: low).head? = high.head? := List.head?_append_of_ne_nil _ nh
  have last : (high ++ [] :: low).getLast? = low.getLast? := by
    rw [List.getLast?_append_cons, List.getLast?_cons_of_ne_nil nl]
  unfold parseParts
  rw [inner, once, skip, head, last, List.take_left, ← List.drop_drop, List.drop_left]
  rfl

theorem outerParts_of_ne {atEdge : Option (List Char)} (parts : List (List Char))
    (h : atEdge ≠ some []) : outerParts atEdge parts = some parts :=
  if_neg h

theorem mapM_hextetText (l : List (Fin 65536)) : (l.map hextetText).mapM parseHextet = some l :=
  mapM_map_of_forall fun h _ => parseHextet_hextetText h

theorem nil_notMem_texts (l : List (Fin 65536)) : [] ∉ l.map hextetText := by
  intro h
  obtain ⟨x, -, hx⟩ := List.mem_map.1 h
  exact Nat.toDigits_ne_nil hx

theorem aroundRun_texts {high low : List (Fin 65536)} {len : ℕ}
    (h : high.length + len + low.length = 8) (hl : 0 < len) :
    aroundRun (high.map hextetText) (low.map hextetText) =
      some (high ++ List.replicate len 0 ++ low) := by
  have count : 8 - (high.length + low.length) = len := by omega
  unfold aroundRun
  rw [List.length_map, List.length_map, if_neg (by omega), mapM_hextetText, mapM_hextetText, count]
  rfl

/-- The parts before a run: an empty one stands for none at all. -/
theorem outerParts_high (high : List (Fin 65536)) :
    let parts := (if high = [] then [[]] else []) ++ high.map hextetText
    parts ≠ [] ∧ [] ∉ parts.tail ∧ outerParts parts.head? parts = some (high.map hextetText) := by
  cases high with
  | nil => exact ⟨by simp, by simp, rfl⟩
  | cons h high =>
    refine ⟨by simp, ?_, outerParts_of_ne _ ?_⟩
    · rw [if_neg (List.cons_ne_nil _ _), List.nil_append]
      exact fun hm => nil_notMem_texts _ (List.mem_of_mem_tail hm)
    · rw [if_neg (List.cons_ne_nil _ _), List.nil_append]
      exact fun he => Nat.toDigits_ne_nil (Option.some.inj he)

theorem outerParts_low (low : List (Fin 65536)) :
    let parts := low.map hextetText ++ (if low = [] then [[]] else [])
    parts ≠ [] ∧ [] ∉ parts.dropLast ∧
      outerParts parts.getLast? parts = some (low.map hextetText) := by
  rcases List.eq_nil_or_concat low with rfl | ⟨rest, last, rfl⟩
  · exact ⟨by simp, by simp, rfl⟩
  · refine ⟨by simp, ?_, ?_⟩
    · rw [if_neg (by simp), List.append_nil]
      exact fun hm => nil_notMem_texts _ (List.mem_of_mem_dropLast hm)
    · rw [if_neg (by simp), List.append_nil]
      refine outerParts_of_ne _ ?_
      rw [List.concat_eq_append, List.map_append, List.map_singleton, List.getLast?_concat]
      exact fun he => Nat.toDigits_ne_nil (Option.some.inj he)

/-- The two ways in which an address is written. -/
theorem V6.parts_eq (a : V6) : a.parts = a.1.map hextetText ∨
    ∃ high low : List (Fin 65536), ∃ len, 1 < len ∧ high.length + len + low.length = 8 ∧
      a.1 = high ++ List.replicate len 0 ++ low ∧
      a.parts = ((if high = [] then [[]] else []) ++ high.map hextetText) ++
        [] :: (low.map hextetText ++ (if low = [] then [[]] else [])) := by
  obtain ⟨start, len, h⟩ : ∃ start len, bestRun (a.1.map (· == 0)) = (start, len) := ⟨_, _, rfl⟩
  unfold V6.parts
  rw [h]
  dsimp only
  by_cases long : 1 < len
  · right
    obtain ⟨fits, he⟩ := hextets_eq a h long
    have lengths : (a.1.take start).length = start ∧
        (a.1.drop (start + len)).length = 8 - (start + len) := by
      rw [List.length_take, List.length_drop, a.2]
      omega
    refine ⟨a.1.take start, a.1.drop (start + len), len, long, by omega, he, ?_⟩
    have first : (a.1.take start = []) = (start = 0) := by
      rw [← List.length_eq_zero_iff, lengths.1]
    have last : (a.1.drop (start + len) = []) = (start + len = 8) := by
      rw [← List.length_eq_zero_iff, lengths.2]
      exact propext ⟨fun _ => by omega, fun _ => by omega⟩
    rw [if_pos long, List.map_take, List.map_drop]
    simp only [first, last, List.append_assoc, List.cons_append, List.nil_append]
  · left
    rw [if_neg long]

theorem parseParts_parts (a : V6) : parseParts a.parts = some a.1 := by
  rcases a.parts_eq with h | ⟨high, low, len, long, lengths, he, h⟩
  · have none_ : (a.1.map hextetText).tail.dropLast.count [] = 0 := List.count_eq_zero.2 fun hm =>
      nil_notMem_texts _ (List.mem_of_mem_tail (List.mem_of_mem_dropLast hm))
    unfold parseParts
    rw [h, none_, List.length_map, if_pos a.2, mapM_hextetText]
    rfl
  · obtain ⟨nh, hh, oh⟩ := outerParts_high high
    obtain ⟨nl, hl, ol⟩ := outerParts_low low
    rw [h, parseParts_run hh hl nh nl, oh, Option.bind_some, ol, Option.bind_some,
      aroundRun_texts lengths (by omega), ← he]

/-- A written part holds digits only, and there are three to nine. -/
theorem V6.parts_spec (a : V6) : (∀ part ∈ a.parts, ∀ c ∈ part, isWrittenDigit c = true) ∧
    3 ≤ a.parts.length ∧ a.parts.length ≤ 9 := by
  have digits (l : List (Fin 65536)) : ∀ part ∈ l.map hextetText, ∀ c ∈ part,
      isWrittenDigit c = true := by
    intro part hp
    obtain ⟨h, -, rfl⟩ := List.mem_map.1 hp
    exact isWrittenDigit_of_mem_hextetText h
  rcases a.parts_eq with h | ⟨high, low, len, long, lengths, -, h⟩
  · rw [h, List.length_map, a.2]
    exact ⟨digits a.1, by decide, by decide⟩
  · rw [h]
    constructor
    · intro part hp c hc
      have empty {p : Prop} [Decidable p] (h : part ∈ if p then [[]] else []) : part = [] := by
        split at h
        · exact List.mem_singleton.1 h
        · exact absurd h List.not_mem_nil
      simp only [List.mem_append, List.mem_cons] at hp
      rcases hp with (hp | hp) | hp | hp | hp
      · exact absurd hc (empty hp ▸ List.not_mem_nil)
      · exact digits high part hp c hc
      · exact absurd hc (hp ▸ List.not_mem_nil)
      · exact digits low part hp c hc
      · exact absurd hc (empty hp ▸ List.not_mem_nil)
    · have edge (l : List (Fin 65536)) : (if l = [] then [([] : List Char)] else []).length =
          if l.length = 0 then 1 else 0 := by
        cases l <;> rfl
      simp only [List.length_append, List.length_cons, List.length_map, edge]
      split_ifs <;> omega

theorem parseV6_text (a : V6) : parseV6 a.text = some a := by
  obtain ⟨digits, least, most⟩ := a.parts_spec
  have noColon : ∀ part ∈ a.parts, ':' ∉ part := fun part hp hc =>
    absurd (digits part hp ':' hc) (by decide)
  have nonempty : a.parts ≠ [] := List.ne_nil_of_length_pos (by omega)
  have last : '.' ∉ a.parts.getLastD [] := by
    rw [List.getLastD_eq_getLast?, List.getLast?_eq_getLast_of_ne_nil nonempty, Option.getD_some]
    exact fun hc => absurd (digits _ (List.getLast_mem nonempty) '.' hc) (by decide)
  unfold parseV6 V6.text
  rw [List.splitOn_intercalate ':' noColon nonempty]
  dsimp only
  rw [if_neg (by omega)]
  unfold withoutV4
  rw [if_neg last]
  show (if 9 < a.parts.length then none else _) = some a
  rw [if_neg (by omega), parseParts_parts]
  exact dif_pos a.2

/-- The characters of a text put together. -/
theorem mem_intercalate {sep c : Char} : ∀ {pieces : List (List Char)},
    c ∈ [sep].intercalate pieces → c = sep ∨ ∃ piece ∈ pieces, c ∈ piece
  | [], h => absurd h List.not_mem_nil
  | [piece], h => by
    rw [List.intercalate_singleton] at h
    exact .inr ⟨piece, List.mem_singleton_self piece, h⟩
  | piece :: next :: pieces, h => by
    rw [List.intercalate_cons_cons, List.mem_append, List.mem_append, List.mem_singleton] at h
    rcases h with (h | h) | h
    · exact .inr ⟨piece, List.mem_cons_self, h⟩
    · exact .inl h
    · exact (mem_intercalate h).imp_right fun ⟨p, hp, hc⟩ => ⟨p, List.mem_cons_of_mem _ hp, hc⟩

theorem V6.digit_or_colon (a : V6) : ∀ c ∈ a.text, isWrittenDigit c = true ∨ c = ':' := by
  intro c hc
  rcases mem_intercalate hc with h | ⟨part, hp, h⟩
  · exact .inr h
  · exact .inl (a.parts_spec.1 part hp c h)

theorem V6.colon_mem (a : V6) : ':' ∈ a.text := by
  obtain ⟨-, least, -⟩ := a.parts_spec
  unfold V6.text
  match a.parts, least with
  | part :: next :: rest, _ =>
    rw [List.intercalate_cons_cons]
    simp

theorem exists_of_mapM {α β : Type} {f : α → Option β} : ∀ {l : List α} {l' : List β},
    l.mapM f = some l' → ∀ a ∈ l, ∃ b, f a = some b
  | [], _, _ => fun _ h => absurd h List.not_mem_nil
  | a :: l, l', h => by
    rw [List.mapM_cons] at h
    obtain ⟨b, hb, h⟩ := Option.bind_eq_some_iff.1 h
    obtain ⟨bs, hbs, -⟩ := Option.bind_eq_some_iff.1 h
    intro x hx
    rcases List.mem_cons.1 hx with rfl | hx
    · exact ⟨b, hb⟩
    · exact exists_of_mapM hbs x hx

/-- An IPv4 address is read from digits and dots. -/
theorem digit_or_dot_of_parseV4 {text : List Char} {a : V4} (h : parseV4 text = some a) :
    ∀ c ∈ text, c.isDigit = true ∨ c = '.' := by
  unfold parseV4 at h
  obtain ⟨octets, ho, -⟩ := Option.bind_eq_some_iff.1 h
  intro c hc
  have whole : ['.'].intercalate (text.splitOn '.') = text := List.intercalate_splitOn '.'
  rw [← whole] at hc
  rcases mem_intercalate hc with hc | ⟨piece, hp, hc⟩
  · exact .inr hc
  · obtain ⟨octet, ho⟩ := exists_of_mapM ho piece hp
    unfold parseOctet at ho
    split at ho
    · cases ho
    · rename_i hd
      rw [not_or, not_or, not_not] at hd
      exact .inl (List.all_eq_true.1 hd.2.1 c hc)

theorem parseV4_of_colon_mem {text : List Char} (h : ':' ∈ text) : parseV4 text = none := by
  by_contra hn
  obtain ⟨a, ha⟩ := Option.ne_none_iff_exists'.1 hn
  exact absurd (digit_or_dot_of_parseV4 ha ':' h) (by decide)

theorem parseV6_of_notMem {text : List Char} (h : ':' ∉ text) : parseV6 text = none := by
  unfold parseV6
  rw [List.splitOn_eq_singleton h]
  rfl

theorem V4.digit_or_dot (a : V4) : ∀ c ∈ a.text, c.isDigit = true ∨ c = '.' :=
  digit_or_dot_of_parseV4 (parseV4_text a)

theorem V6.notMem_text (a : V6) {c : Char} (hd : isWrittenDigit c = false) (hc : c ≠ ':') :
    c ∉ a.text := by
  intro h
  rcases a.digit_or_colon c h with h | h
  · rw [hd] at h
    cases h
  · exact hc h

/-- What is written of an address is read back. -/
theorem ipAddress_text (a : Address) : ipAddress a.text = some a := by
  unfold ipAddress
  cases a with
  | v4 a =>
    have slashless : '/' ∉ a.text := fun h => absurd (a.digit_or_dot '/' h) (by decide)
    show (if '/' ∈ a.text then none else _) = _
    rw [if_neg slashless]
    show (match parseV4 a.text with | some a => some (Address.v4 a) | none => _) = _
    rw [parseV4_text]
  | v6 a scope =>
    have slashless : '/' ∉ a.text := a.notMem_text (by decide) (by decide)
    have percentless : '%' ∉ a.text := a.notMem_text (by decide) (by decide)
    cases scope with
    | none =>
      show (if '/' ∈ a.text then none else match parseV4 a.text with | some a => _ | none => _) = _
      rw [if_neg slashless, parseV4_of_colon_mem a.colon_mem]
      show (parseScoped a.text).map _ = _
      unfold parseScoped
      rw [Encoding.partition_of_notMem percentless]
      dsimp only
      rw [parseV6_text]
      rfl
    | some scope =>
      have whole : '/' ∉ a.text ++ '%' :: scope.1 := by
        rw [List.mem_append, List.mem_cons]
        rintro (h | h | h)
        · exact slashless h
        · exact absurd h (by decide)
        · exact scope.2.2.2 h
      show (if '/' ∈ a.text ++ '%' :: scope.1 then none else
        match parseV4 (a.text ++ '%' :: scope.1) with | some a => _ | none => _) = _
      rw [if_neg whole, parseV4_of_colon_mem (List.mem_append_left _ a.colon_mem)]
      show (parseScoped (a.text ++ '%' :: scope.1)).map _ = _
      unfold parseScoped
      rw [Encoding.partition_append scope.1 percentless]
      dsimp only
      rw [dif_pos scope.2, parseV6_text]
      rfl

end Net
