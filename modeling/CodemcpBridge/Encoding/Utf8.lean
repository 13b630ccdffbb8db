import CodemcpBridge.Text
import Mathlib.Algebra.BigOperators.Group.List.Basic
import Mathlib.Tactic.Linarith
import Mathlib.Tactic.SplitIfs

/-!
# Decoding UTF-8

A stream of bytes is a sequence of characters and of ill-formed pieces.  What a decoder makes of a
stream is sized by its ill-formed pieces; the encoded form of a text has none and is decoded to that
text; and the characters of a stream that is cut are the first characters of the whole.
-/

namespace CodemcpBridge

namespace Text

variable {k bits lo hi n m : ℕ} {bs rest xs ys : List ℕ} {b c : ℕ}

/-! ## Code points -/

theorem utf8Size_of_toNat (c : Char) : c.utf8Size = if c.toNat < 0x80 then 1
    else if c.toNat < 0x800 then 2 else if c.toNat < 0x10000 then 3 else 4 := by
  unfold Char.utf8Size
  simp only [UInt32.le_iff_toNat_le]
  show (if c.toNat ≤ 127 then 1 else if c.toNat ≤ 2047 then 2 else
    if c.toNat ≤ 65535 then 3 else 4) = _
  split_ifs <;> omega
theorem continuation_tail (h : continuation n bits 0x80 0xBF bs = (some c, rest)) :
    bs.length = rest.length + n ∧ bits * 64 ^ n ≤ c ∧ c < (bits + 1) * 64 ^ n := by
  induction n generalizing bits bs with
  | zero =>
    cases h
    simp
  | succ n ih =>
    cases bs with
    | nil => cases h
    | cons b bs =>
      unfold continuation at h
      by_cases hb : 0x80 ≤ b ∧ b ≤ 0xBF
      · rw [if_pos hb] at h
        obtain ⟨hl, hlo, hhi⟩ := ih h
        rw [List.length_cons, pow_succ]
        have low : (bits * 64) * 64 ^ n ≤ (bits * 64 + (b - 0x80)) * 64 ^ n :=
          Nat.mul_le_mul_right _ (by omega)
        have high : (bits * 64 + (b - 0x80) + 1) * 64 ^ n ≤ ((bits + 1) * 64) * 64 ^ n :=
          Nat.mul_le_mul_right _ (by omega)
        refine ⟨by omega, ?_, ?_⟩
        · linarith
        · linarith
      · rw [if_neg hb] at h
        cases h

theorem leadByte_range (h : leadByte b = some (k, bits, lo, hi)) : 0x80 ≤ lo ∧ hi ≤ 0xBF ∧
    (k = 1 ∧ 0x80 ≤ (bits * 64 + (lo - 0x80)) ∧ bits * 64 + (hi - 0x80) < 0x800 ∨
      k = 2 ∧ 0x800 ≤ (bits * 64 + (lo - 0x80)) * 64 ∧ (bits * 64 + (hi - 0x80)) * 64 < 0x10000 ∧
        ((bits * 64 + (hi - 0x80)) * 64 + 64 ≤ 0xD800 ∨ 0xE000 ≤ (bits * 64 + (lo - 0x80)) * 64) ∨
      k = 3 ∧ 0x10000 ≤ (bits * 64 + (lo - 0x80)) * 4096 ∧
        (bits * 64 + (hi - 0x80)) * 4096 < 0x110000) := by
  unfold leadByte at h
  split_ifs at h with h₁ h₂ h₃ h₄ h₅ h₆ h₇
  all_goals
    simp only [Option.some.injEq, Prod.mk.injEq] at h
    obtain ⟨rfl, rfl, rfl, rfl⟩ := h
    omega

theorem toNat_ofNat (h : c.isValidChar) : (Char.ofNat c).toNat = c := by
  unfold Char.ofNat
  rw [dif_pos h]
  rfl

theorem lead_continuation (hl : leadByte b = some (k, bits, lo, hi))
    (h : continuation k bits lo hi bs = (some c, rest)) :
    bs.length = rest.length + k ∧ (Char.ofNat c).utf8Size = k + 1 := by
  obtain ⟨hlo, hhi, hk⟩ := leadByte_range hl
  obtain ⟨j, rfl⟩ : ∃ j, k = j + 1 := ⟨k - 1, by omega⟩
  cases bs with
  | nil => cases h
  | cons b' bs =>
    unfold continuation at h
    by_cases hb : lo ≤ b' ∧ b' ≤ hi
    swap
    · rw [if_neg hb] at h
      cases h
    rw [if_pos hb] at h
    obtain ⟨hlen, low, high⟩ := continuation_tail h
    refine ⟨by rw [List.length_cons]; omega, ?_⟩
    have valid : c.isValidChar := by
      unfold Nat.isValidChar
      rcases hk with ⟨hj, hk⟩ | ⟨hj, hk⟩ | ⟨hj, hk⟩
      all_goals
        obtain rfl : j = _ := Nat.succ.inj hj
        omega
    rw [utf8Size_of_toNat, toNat_ofNat valid]
    rcases hk with ⟨hj, hk⟩ | ⟨hj, hk⟩ | ⟨hj, hk⟩
    all_goals
      obtain rfl : j = _ := Nat.succ.inj hj
      split_ifs <;> omega

/-- An ill-formed piece lacks a continuation byte at least. -/
theorem continuation_none (h : continuation k bits lo hi bs = (none, rest)) :
    rest.length ≤ bs.length ∧ bs.length < rest.length + k := by
  induction k generalizing bits lo hi bs with
  | zero => cases h
  | succ k ih =>
    cases bs with
    | nil =>
      cases h
      simp
    | cons b bs =>
      unfold continuation at h
      by_cases hb : lo ≤ b ∧ b ≤ hi
      · rw [if_pos hb] at h
        have := ih h
        rw [List.length_cons]
        omega
      · rw [if_neg hb] at h
        cases h
        omega

theorem continuation_suffix (k bits lo hi : ℕ) (bs : List ℕ) :
    (continuation k bits lo hi bs).2 <:+ bs := by
  induction k generalizing bits lo hi bs with
  | zero => exact List.suffix_rfl
  | succ k ih =>
    cases bs with
    | nil => exact List.suffix_rfl
    | cons b bs =>
      unfold continuation
      by_cases hb : lo ≤ b ∧ b ≤ hi
      · rw [if_pos hb]
        exact (ih ..).trans (List.suffix_cons b bs)
      · exact if_neg hb ▸ List.suffix_rfl

/-- What follows bytes that are not at an end does not change how they are read. -/
theorem continuation_append (k bits lo hi : ℕ) (xs ys : List ℕ) :
    continuation k bits lo hi xs = (none, []) ∨ ∃ r rest,
      continuation k bits lo hi xs = (r, rest) ∧
        continuation k bits lo hi (xs ++ ys) = (r, rest ++ ys) := by
  induction k generalizing bits lo hi xs with
  | zero => exact .inr ⟨_, _, rfl, rfl⟩
  | succ k ih =>
    cases xs with
    | nil => exact .inl rfl
    | cons b xs =>
      unfold continuation
      rw [List.cons_append]
      dsimp only
      by_cases hb : lo ≤ b ∧ b ≤ hi
      · rw [if_pos hb, if_pos hb]
        exact ih _ _ _ xs
      · rw [if_neg hb, if_neg hb]
        exact .inr ⟨_, _, rfl, rfl⟩

/-! ## Sizes -/

/-- The lengths of the ill-formed pieces of a stream, in at most so many steps. -/
def illFormedFrom : ℕ → List ℕ → List ℕ
  | 0, _ => []
  | _, [] => []
  | n + 1, b :: bs =>
    if b < 0x80 then illFormedFrom n bs
    else match leadByte b with
      | none => 1 :: illFormedFrom n bs
      | some (k, bits, lo, hi) => match continuation k bits lo hi bs with
        | (some _, rest) => illFormedFrom n rest
        | (none, rest) => (bs.length + 1 - rest.length) :: illFormedFrom n rest

/-- The lengths of the ill-formed pieces of a stream. -/
def illFormed (b : ByteArray) : List ℕ := illFormedFrom b.size (b.data.toList.map UInt8.toNat)

theorem le_three_of_mem_illFormedFrom {l : ℕ} (h : l ∈ illFormedFrom n bs) : l ≤ 3 := by
  induction n generalizing bs with
  | zero => cases h
  | succ n ih =>
    cases bs with
    | nil => cases h
    | cons b bs =>
      unfold illFormedFrom at h
      by_cases hb : b < 0x80
      · rw [if_pos hb] at h
        exact ih h
      rw [if_neg hb] at h
      cases hlead : leadByte b with
      | none =>
        rw [hlead] at h
        rcases List.mem_cons.1 h with rfl | h
        · omega
        · exact ih h
      | some lead =>
        obtain ⟨k, bits, lo, hi⟩ := lead
        rw [hlead] at h
        dsimp only at h
        have three : k ≤ 3 := by
          have := leadByte_range hlead
          omega
        rcases hr : continuation k bits lo hi bs with ⟨- | c, rest⟩
        · rw [hr] at h
          have := continuation_none hr
          rcases List.mem_cons.1 h with rfl | h
          · omega
          · exact ih h
        · rw [hr] at h
          exact ih h

/-- The bytes of a text. -/
def byteSize (s : List Char) : ℕ := (s.map Char.utf8Size).sum

/-- A decoder keeps the characters of a stream, and puts `bad` in the place of an ill-formed piece.
-/
theorem size_decodeFrom (bad : List Char) (h : bs.length ≤ n) :
    byteSize (decodeFrom bad n bs) + (illFormedFrom n bs).sum =
      bs.length + (illFormedFrom n bs).length * byteSize bad := by
  induction n generalizing bs with
  | zero =>
    obtain rfl : bs = [] := List.length_eq_zero_iff.1 (Nat.le_zero.1 h)
    simp [byteSize, decodeFrom, illFormedFrom]
  | succ n ih =>
    cases bs with
    | nil => simp [byteSize, decodeFrom, illFormedFrom]
    | cons b bs =>
      rw [List.length_cons] at h
      unfold decodeFrom illFormedFrom
      by_cases hb : b < 0x80
      · rw [if_pos hb, if_pos hb]
        have size : (Char.ofNat b).utf8Size = 1 := by
          rw [utf8Size_of_toNat, toNat_ofNat (Or.inl (by omega)), if_pos hb]
        have := @ih bs (by omega)
        unfold byteSize at this ⊢
        rw [List.map_cons, List.sum_cons, size, List.length_cons]
        omega
      rw [if_neg hb, if_neg hb]
      cases hlead : leadByte b with
      | none =>
        have := @ih bs (by omega)
        dsimp only
        unfold byteSize at this ⊢
        rw [List.map_append, List.sum_append, List.sum_cons, List.length_cons, List.length_cons,
          Nat.succ_mul]
        omega
      | some lead =>
        obtain ⟨k, bits, lo, hi⟩ := lead
        dsimp only
        rcases hr : continuation k bits lo hi bs with ⟨- | c, rest⟩
        · have short := continuation_none hr
          have := @ih rest (by omega)
          dsimp only
          unfold byteSize at this ⊢
          rw [List.map_append, List.sum_append, List.sum_cons, List.length_cons, List.length_cons,
            Nat.succ_mul]
          omega
        · obtain ⟨hlen, size⟩ := lead_continuation hlead hr
          have := @ih rest (by omega)
          dsimp only
          unfold byteSize at this ⊢
          rw [List.map_cons, List.sum_cons, size, List.length_cons]
          omega

/-- An ASCII character of what is decoded is a byte of the stream or comes from `bad`. -/
theorem mem_decodeFrom {bad : List Char} {a : Char} (ha : a.toNat < 0x80)
    (h : a ∈ decodeFrom bad n bs) : a ∈ bad ∨ a.toNat ∈ bs := by
  induction n generalizing bs with
  | zero => cases h
  | succ n ih =>
    cases bs with
    | nil => cases h
    | cons b bs =>
      have later {rest : List ℕ} (hs : rest <:+ bs) (hr : a ∈ bad ∨ a.toNat ∈ rest) :
          a ∈ bad ∨ a.toNat ∈ b :: bs := hr.imp_right fun hm =>
            List.mem_cons_of_mem b (hs.subset hm)
      unfold decodeFrom at h
      by_cases hb : b < 0x80
      · rw [if_pos hb] at h
        rcases List.mem_cons.1 h with rfl | h
        · rw [toNat_ofNat (Or.inl (by omega))]
          exact .inr List.mem_cons_self
        · exact later List.suffix_rfl (ih h)
      rw [if_neg hb] at h
      cases hlead : leadByte b with
      | none =>
        rw [hlead] at h
        rcases List.mem_append.1 h with h | h
        · exact .inl h
        · exact later List.suffix_rfl (ih h)
      | some lead =>
        obtain ⟨k, bits, lo, hi⟩ := lead
        rw [hlead] at h
        dsimp only at h
        have hs := continuation_suffix k bits lo hi bs
        rcases hr : continuation k bits lo hi bs with ⟨- | c, rest⟩
        · rw [hr] at h hs
          rcases List.mem_append.1 h with h | h
          · exact .inl h
          · exact later hs (ih h)
        · rw [hr] at h hs
          rcases List.mem_cons.1 h with rfl | h
          · have size := (lead_continuation hlead hr).2
            rw [utf8Size_of_toNat, if_pos ha] at size
            have := leadByte_range hlead
            omega
          · exact later hs (ih h)

/-! ## Cut streams -/

/-- The fuel for a stream does not matter if there is enough of it. -/
theorem decodeFrom_fuel (bad : List Char) (hn : bs.length ≤ n) (hm : bs.length ≤ m) :
    decodeFrom bad n bs = decodeFrom bad m bs := by
  induction n generalizing bs m with
  | zero =>
    obtain rfl : bs = [] := List.length_eq_zero_iff.1 (Nat.le_zero.1 hn)
    cases m <;> simp [decodeFrom]
  | succ n ih =>
    cases bs with
    | nil => cases m <;> simp [decodeFrom]
    | cons b bs =>
      rw [List.length_cons] at hn hm
      obtain ⟨m, rfl⟩ : ∃ j, m = j + 1 := ⟨m - 1, by omega⟩
      unfold decodeFrom
      rw [ih (m := m) (by omega) (by omega)]
      by_cases hb : b < 0x80
      · rw [if_pos hb, if_pos hb]
      rw [if_neg hb, if_neg hb]
      cases hlead : leadByte b with
      | none => rfl
      | some lead =>
        obtain ⟨k, bits, lo, hi⟩ := lead
        dsimp only
        rcases hr : continuation k bits lo hi bs with ⟨- | c, rest⟩
        · have := continuation_none hr
          dsimp only
          rw [ih (m := m) (by omega) (by omega)]
        · have := (lead_continuation hlead hr).1
          dsimp only
          rw [ih (m := m) (by omega) (by omega)]

/-- The characters of the first bytes of a stream are the first characters of the stream. -/
theorem decodeFrom_isPrefix (n : ℕ) (xs ys : List ℕ) :
    decodeFrom [] n xs <+: decodeFrom [] n (xs ++ ys) := by
  induction n generalizing xs with
  | zero => exact List.nil_prefix
  | succ n ih =>
    cases xs with
    | nil => exact List.nil_prefix
    | cons b xs =>
      rw [List.cons_append]
      unfold decodeFrom
      by_cases hb : b < 0x80
      · rw [if_pos hb, if_pos hb]
        exact (List.prefix_cons_inj _).2 (ih xs)
      rw [if_neg hb, if_neg hb]
      cases leadByte b with
      | none => exact ih xs
      | some lead =>
        obtain ⟨k, bits, lo, hi⟩ := lead
        dsimp only
        rcases continuation_append k bits lo hi xs ys with hr | ⟨r, rest, hr, hr'⟩
        · rw [hr]
          cases n <;> exact List.nil_prefix
        · rw [hr, hr']
          cases r with
          | none => exact ih rest
          | some c => exact (List.prefix_cons_inj _).2 (ih rest)

/-- Fewer characters are in the first bytes of a stream than there are characters and ill-formed
pieces in the stream. -/
theorem length_decodeFrom_lt (y : ℕ) (ys : List ℕ) (hn : xs.length < n) :
    (decodeFrom [] n xs).length < (decodeFrom ['\uFFFD'] n (xs ++ y :: ys)).length := by
  induction n generalizing xs with
  | zero => omega
  | succ n ih =>
    have positive (z : ℕ) (zs : List ℕ) : 0 < (decodeFrom ['\uFFFD'] (n + 1) (z :: zs)).length := by
      unfold decodeFrom
      split_ifs
      · exact Nat.succ_pos _
      · split
        · exact Nat.succ_pos _
        · split <;> exact Nat.succ_pos _
    cases xs with
    | nil => exact positive y ys
    | cons b xs =>
      rw [List.length_cons] at hn
      rw [List.cons_append]
      by_cases hb : b < 0x80
      · unfold decodeFrom
        rw [if_pos hb, if_pos hb]
        exact Nat.succ_lt_succ (ih (by omega))
      cases hlead : leadByte b with
      | none =>
        unfold decodeFrom
        rw [if_neg hb, if_neg hb, hlead]
        have := @ih xs (by omega)
        simp only [List.nil_append, List.singleton_append, List.length_cons]
        omega
      | some lead =>
        obtain ⟨k, bits, lo, hi⟩ := lead
        rcases continuation_append k bits lo hi xs (y :: ys) with hr | ⟨r, rest, hr, hr'⟩
        · refine lt_of_eq_of_lt ?_ (positive b (xs ++ y :: ys))
          unfold decodeFrom
          rw [if_neg hb, hlead]
          dsimp only
          rw [hr]
          cases n <;> simp [decodeFrom]
        · unfold decodeFrom
          rw [if_neg hb, if_neg hb, hlead]
          dsimp only
          rw [hr, hr']
          cases r with
          | none =>
            have := continuation_none hr
            have := @ih rest (by omega)
            simp only [List.nil_append, List.singleton_append, List.length_cons]
            omega
          | some c =>
            have := (lead_continuation hlead hr).1
            exact Nat.succ_lt_succ (ih (by omega))

/-! ## Encoded texts -/

/-- The bytes of a character. -/
def utf8 (c : Char) : List ℕ := (String.utf8EncodeChar c).map UInt8.toNat

theorem leadByte_two : ∀ a < 30, leadByte (a + 0xC2) = some (1, a + 2, 0x80, 0xBF) := by
  decide

theorem leadByte_three : ∀ a < 16, leadByte (a + 0xE0) =
    some (2, a, if a = 0 then 0xA0 else 0x80, if a = 13 then 0x9F else 0xBF) := by
  decide

theorem leadByte_four : ∀ a < 5, leadByte (a + 0xF0) =
    some (3, a, if a = 0 then 0x90 else 0x80, if a = 4 then 0x8F else 0xBF) := by
  decide

theorem continuation_cons {d : ℕ} (h : lo ≤ d + 0x80 ∧ d + 0x80 ≤ hi) :
    continuation (k + 1) bits lo hi ((d + 0x80) :: bs) =
      continuation k (bits * 64 + d) 0x80 0xBF bs := by
  show (if lo ≤ d + 0x80 ∧ d + 0x80 ≤ hi then _ else _) = _
  rw [if_pos h, Nat.add_sub_cancel]

theorem decodeFrom_lead {bad : List Char} (hb : 0x80 ≤ b) (hl : leadByte b = some (k, bits, lo, hi))
    (h : continuation k bits lo hi bs = (some c, rest)) :
    decodeFrom bad (n + 1) (b :: bs) = Char.ofNat c :: decodeFrom bad n rest := by
  show (if b < 0x80 then _ else _) = _
  rw [if_neg (by omega), hl]
  dsimp only
  rw [h]

theorem utf8_eq (c : Char) : utf8 c = if c.toNat ≤ 0x7F then [c.toNat]
    else if c.toNat ≤ 0x7FF then [c.toNat / 64 + 0xC0, c.toNat % 64 + 0x80]
    else if c.toNat ≤ 0xFFFF then
      [c.toNat / 4096 + 0xE0, c.toNat / 64 % 64 + 0x80, c.toNat % 64 + 0x80]
    else [c.toNat / 262144 + 0xF0, c.toNat / 4096 % 64 + 0x80, c.toNat / 64 % 64 + 0x80,
      c.toNat % 64 + 0x80] := by
  have valid : c.toNat < 0xD800 ∨ 0xDFFF < c.toNat ∧ c.toNat < 0x110000 := c.valid
  unfold Char.toNat at valid ⊢
  unfold utf8 String.utf8EncodeChar
  dsimp only
  split_ifs <;>
    simp only [List.map_cons, List.map_nil, UInt8.toNat_ofNat', List.cons.injEq, and_true] <;>
    omega

/-- A character is read back from its bytes. -/
theorem decodeFrom_utf8 (bad : List Char) (n : ℕ) (c : Char) (rest : List ℕ) :
    decodeFrom bad (n + 1) (utf8 c ++ rest) = c :: decodeFrom bad n rest := by
  have valid : c.toNat < 0xD800 ∨ 0xDFFF < c.toNat ∧ c.toNat < 0x110000 := c.valid
  rw [utf8_eq]
  split_ifs with h₁ h₂ h₃ <;> simp only [List.cons_append, List.nil_append]
  · show (if c.toNat < 0x80 then _ else _) = _
    rw [if_pos (by omega), Char.ofNat_toNat]
  · have lead := leadByte_two (c.toNat / 64 - 2) (by omega)
    rw [show c.toNat / 64 - 2 + 0xC2 = c.toNat / 64 + 0xC0 by omega] at lead
    refine (decodeFrom_lead (by omega) lead ((continuation_cons (by omega)).trans rfl)).trans ?_
    rw [show (c.toNat / 64 - 2 + 2) * 64 + c.toNat % 64 = c.toNat by omega, Char.ofNat_toNat]
  · have lead := leadByte_three (c.toNat / 4096) (by omega)
    refine (decodeFrom_lead (by omega) lead ((continuation_cons ?_).trans
      ((continuation_cons (by omega)).trans rfl))).trans ?_
    · constructor <;> split_ifs <;> omega
    · rw [show (c.toNat / 4096 * 64 + c.toNat / 64 % 64) * 64 + c.toNat % 64 = c.toNat by omega,
        Char.ofNat_toNat]
  · have lead := leadByte_four (c.toNat / 262144) (by omega)
    refine (decodeFrom_lead (by omega) lead ((continuation_cons ?_).trans
      ((continuation_cons (by omega)).trans ((continuation_cons (by omega)).trans rfl)))).trans ?_
    · constructor <;> split_ifs <;> omega
    · rw [show ((c.toNat / 262144 * 64 + c.toNat / 4096 % 64) * 64 + c.toNat / 64 % 64) * 64 +
        c.toNat % 64 = c.toNat by omega, Char.ofNat_toNat]

/-- A byte below 128 of a character is the character. -/
theorem mem_utf8 {c : Char} (hb : b < 0x80) (h : b ∈ utf8 c) : c.toNat = b := by
  rw [utf8_eq] at h
  split_ifs at h <;> simp only [List.mem_cons, List.not_mem_nil, or_false] at h <;> omega

/-- A text is read back from its bytes, whatever is put in the place of ill-formed pieces. -/
theorem decodeFrom_flatMap (bad : List Char) {s : List Char} (h : s.length ≤ n) :
    decodeFrom bad n (s.flatMap utf8) = s := by
  induction s generalizing n with
  | nil => cases n <;> simp [decodeFrom]
  | cons c s ih =>
    rw [List.length_cons] at h
    obtain ⟨n, rfl⟩ : ∃ j, n = j + 1 := ⟨n - 1, by omega⟩
    rw [List.flatMap_cons, decodeFrom_utf8, ih (by omega)]

theorem toNat_toUTF8 (s : String) : s.toUTF8.data.toList.map UInt8.toNat =
    s.toList.flatMap utf8 := by
  rw [String.toUTF8, ← String.utf8Encode_toList, List.utf8Encode, List.toList_data_toByteArray,
    List.map_flatMap]
  rfl

theorem length_flatMap_utf8 (s : List Char) : (s.flatMap utf8).length = byteSize s := by
  induction s with
  | nil => rfl
  | cons c s ih =>
    rw [List.flatMap_cons, List.length_append, ih]
    unfold utf8
    rw [List.length_map, String.length_utf8EncodeChar]
    rfl

theorem length_le_byteSize (s : List Char) : s.length ≤ byteSize s := by
  induction s with
  | nil => exact Nat.zero_le _
  | cons c s ih =>
    have := c.utf8Size_pos
    show s.length + 1 ≤ c.utf8Size + byteSize s
    omega

theorem utf8ByteSize_eq (s : String) : s.utf8ByteSize = byteSize s.toList := by
  have h := congrArg List.length (toNat_toUTF8 s)
  rwa [length_flatMap_utf8, List.length_map, Array.length_toList] at h

theorem utf8ByteSize_ofList (s : List Char) : (String.ofList s).utf8ByteSize = byteSize s := by
  rw [utf8ByteSize_eq, String.toList_ofList]

theorem decodeReplace_toUTF8 (s : String) : decodeReplace s.toUTF8 = s := by
  have enough : s.toList.length ≤ s.toUTF8.size := by
    show _ ≤ s.utf8ByteSize
    rw [utf8ByteSize_eq]
    exact length_le_byteSize _
  unfold decodeReplace
  rw [toNat_toUTF8, decodeFrom_flatMap _ enough, String.ofList_toList]

/-! ## Byte strings -/

/-- The bytes that replacement characters take beyond the ill-formed pieces that they replace. -/
def growth (b : ByteArray) : ℕ := ((illFormed b).map (3 - ·)).sum

theorem length_toNat (b : ByteArray) : (b.data.toList.map UInt8.toNat).length = b.size := by
  rw [List.length_map, Array.length_toList]
  rfl

theorem sum_three_sub {l : List ℕ} (h : ∀ x ∈ l, x ≤ 3) :
    (l.map (3 - ·)).sum + l.sum = l.length * 3 := by
  induction l with
  | nil => rfl
  | cons x l ih =>
    have hx := h x List.mem_cons_self
    have := ih fun y hy => h y (List.mem_cons_of_mem x hy)
    rw [List.map_cons, List.sum_cons, List.sum_cons, List.length_cons]
    omega

theorem utf8ByteSize_decodeReplace (b : ByteArray) :
    (decodeReplace b).utf8ByteSize = b.size + growth b := by
  have size := size_decodeFrom ['\uFFFD'] (length_toNat b).le
  have pieces : growth b + (illFormed b).sum = (illFormed b).length * 3 :=
    sum_three_sub fun x hx => le_three_of_mem_illFormedFrom hx
  rw [length_toNat] at size
  unfold decodeReplace
  rw [utf8ByteSize_ofList]
  change byteSize (decodeFrom _ b.size _) + (illFormed b).sum =
    b.size + (illFormed b).length * 3 at size
  omega

theorem utf8ByteSize_decodeIgnore (b : ByteArray) :
    (decodeIgnore b).utf8ByteSize + (illFormed b).sum = b.size := by
  have size := size_decodeFrom [] (length_toNat b).le
  rw [length_toNat] at size
  unfold decodeIgnore
  rw [utf8ByteSize_ofList]
  exact size

theorem toNat_extract (b : ByteArray) (m : ℕ) :
    (b.extract 0 m).data.toList.map UInt8.toNat = (b.data.toList.map UInt8.toNat).take m := by
  rw [ByteArray.data_extract, Array.toList_extract, List.extract_eq_take_drop, List.drop_zero,
    Nat.sub_zero, List.map_take]

/-- The characters of a cut byte string are the first characters of the whole. -/
theorem decodeIgnore_extract_isPrefix (b : ByteArray) (m : ℕ) :
    (decodeIgnore (b.extract 0 m)).toList <+: (decodeIgnore b).toList := by
  have short : (b.extract 0 m).size ≤ b.size := by
    rw [ByteArray.size_extract]
    omega
  unfold decodeIgnore
  rw [String.toList_ofList, String.toList_ofList,
    decodeFrom_fuel [] (length_toNat _).le ((length_toNat _).le.trans short), toNat_extract]
  have := decodeFrom_isPrefix b.size ((b.data.toList.map UInt8.toNat).take m)
    ((b.data.toList.map UInt8.toNat).drop m)
  rwa [List.take_append_drop] at this

/-- A cut byte string shows less than the whole. -/
theorem decodeIgnore_extract_ne {b : ByteArray} {m : ℕ} (h : m < b.size) :
    decodeIgnore (b.extract 0 m) ≠ decodeReplace b := by
  have size : (b.extract 0 m).size = m := by
    rw [ByteArray.size_extract]
    omega
  have long : m < (b.data.toList.map UInt8.toNat).length := by rwa [length_toNat]
  have shorter : ((b.data.toList.map UInt8.toNat).take m).length < b.size := by
    rw [List.length_take]
    omega
  unfold decodeIgnore decodeReplace
  rw [decodeFrom_fuel [] (length_toNat _).le ((length_toNat _).le.trans (size.le.trans h.le)),
    toNat_extract]
  intro he
  have lt := length_decodeFrom_lt (b.data.toList.map UInt8.toNat)[m]
    ((b.data.toList.map UInt8.toNat).drop (m + 1)) shorter
  rw [← List.drop_eq_getElem_cons long, List.take_append_drop] at lt
  have := congrArg (fun s : String => s.toList.length) he
  simp only [String.toList_ofList] at this
  omega

end Text

end CodemcpBridge
