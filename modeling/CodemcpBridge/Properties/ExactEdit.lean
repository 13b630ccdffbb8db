import CodemcpBridge.Mutations
import CodemcpBridge.Parsing.Occurrences

/-!
# Exact edits

`replaceExactText` counts occurrences that do not overlap.  It is exact when a text that occurs
twice also occurs twice apart; a text that overlaps itself can be replaced although it has two
positions. The bytes around the replaced occurrence stay, and so do uniform line breaks.
-/

namespace CodemcpBridge

open Parsing Body

variable {raw updated : ByteArray} {path old new text : String} {p l : List Char} {k : ℕ}

/-! ## Counting and replacing -/

theorem Text.countFrom_skip (hp : p ≠ []) (k : ℕ) (l : List Char) :
    Text.countFrom p k l = Text.countFrom p 0 (l.drop k) := by
  induction l generalizing k with
  | nil => simp [Text.countFrom, hp]
  | cons c l ih =>
    cases k with
    | zero => rfl
    | succ k => exact ih k

/-- The count of a text that begins with an occurrence. -/
theorem Text.countFrom_of_prefix {c : Char} (h : p <+: c :: l) :
    Text.countFrom p 0 (c :: l) = 1 + Text.countFrom p 0 ((c :: l).drop (max 1 p.length)) := by
  rw [Text.countFrom, if_pos (List.isPrefixOf_iff_prefix.2 h)]
  by_cases hp : p = []
  · subst hp
    rfl
  · have : 0 < p.length := List.length_pos_iff.2 hp
    rw [Text.countFrom_skip hp, show max 1 p.length = p.length - 1 + 1 by omega,
      List.drop_succ_cons]

theorem Text.countFrom_of_not_prefix {c : Char} (h : ¬ p <+: c :: l) :
    Text.countFrom p 0 (c :: l) = Text.countFrom p 0 l := by
  rw [Text.countFrom, if_neg (by rwa [List.isPrefixOf_iff_prefix])]

theorem Text.countFrom_nil_of (hp : p ≠ []) : Text.countFrom p 0 [] = 0 := by
  simp [Text.countFrom, hp]

theorem Text.countFrom_pos : 0 < Text.countFrom p 0 l ↔ ∃ i, OccursAt p l i := by
  induction l with
  | nil =>
    by_cases hp : p = []
    · subst hp
      exact iff_of_true (by decide) ⟨0, occursAt_nil.2 ⟨rfl, rfl⟩⟩
    · rw [Text.countFrom_nil_of hp]
      exact iff_of_false (by omega) fun ⟨i, hi⟩ => hp (occursAt_nil.1 hi).2
  | cons c l ih =>
    by_cases h : p <+: c :: l
    · rw [Text.countFrom_of_prefix h]
      exact iff_of_true (by omega) ⟨0, occursAt_zero.2 h⟩
    · rw [Text.countFrom_of_not_prefix h, exists_occursAt_cons h, ih]

theorem Text.one_lt_countFrom : 1 < Text.countFrom p 0 l ↔ TwiceApart p l := by
  induction l with
  | nil =>
    refine iff_of_false ?_ ?_
    · by_cases hp : p = []
      · subst hp
        decide
      · rw [Text.countFrom_nil_of hp]
        omega
    · rintro ⟨i, j, hi, hj, hij, -⟩
      have := (occursAt_nil.1 hj).1
      omega
  | cons c l ih =>
    by_cases h : p <+: c :: l
    · have hk : max 1 p.length ≤ (c :: l).length := by
        have := h.length_le
        rw [List.length_cons] at this ⊢
        omega
      rw [Text.countFrom_of_prefix h, twiceApart_of_prefix h hk rfl, ← Text.countFrom_pos]
      omega
    · rw [Text.countFrom_of_not_prefix h, twiceApart_cons h, ih]

/-- The first occurrence is the one that is replaced. -/
theorem Text.replaceFirst_eq {q : List Char} {i : ℕ} (h : OccursAt p l i)
    (first : ∀ j, OccursAt p l j → i ≤ j) :
    Text.replaceFirst p q l = l.take i ++ (q ++ l.drop (i + p.length)) := by
  induction l generalizing i with
  | nil =>
    obtain ⟨rfl, rfl⟩ := occursAt_nil.1 h
    simp [Text.replaceFirst]
  | cons c l ih =>
    rw [Text.replaceFirst]
    by_cases hp : p <+: c :: l
    · have hz : i ≤ 0 := first 0 (occursAt_zero.2 hp)
      rw [if_pos (List.isPrefixOf_iff_prefix.2 hp), Nat.le_zero.1 hz]
      simp
    · rw [if_neg (by rwa [List.isPrefixOf_iff_prefix])]
      cases i with
      | zero => exact absurd (occursAt_zero.1 h) hp
      | succ i =>
        rw [ih (occursAt_cons.1 h) fun j hj =>
          Nat.le_of_succ_le_succ (first _ (occursAt_cons.2 hj))]
        simp [Nat.add_right_comm]

/-! ## Line breaks -/

/-- Every line feed ends a CRLF. -/
def NoLoneLf (bs : List UInt8) : Prop := bs.count 10 = Text.countCrLf bs

/-- Every carriage return begins a CRLF. -/
def NoLoneCr (bs : List UInt8) : Prop := bs.count 13 = Text.countCrLf bs

theorem Text.countCrLf_cons (b : UInt8) (bs : List UInt8) :
    Text.countCrLf (b :: bs) = (if b = 13 ∧ bs.head? = some 10 then 1 else 0) + Text.countCrLf bs :=
  rfl

theorem Text.countCrLf_le_lf (bs : List UInt8) :
    Text.countCrLf bs + (if bs.head? = some 10 then 1 else 0) ≤ bs.count 10 := by
  induction bs with
  | nil => exact Nat.le_refl 0
  | cons b bs ih =>
    rw [Text.countCrLf_cons, List.count_cons, List.head?_cons]
    by_cases hb : b = 10
    · subst hb
      simp only [show ¬ (10 : UInt8) = 13 by decide, false_and, if_false, if_true, beq_self_eq_true]
      omega
    · rw [if_neg (c := some b = some 10) (by simpa using hb)]
      by_cases h : b = 13 ∧ bs.head? = some 10
      · rw [if_pos h]
        rw [if_pos h.2] at ih
        omega
      · rw [if_neg h]
        omega

theorem Text.countCrLf_le_cr (bs : List UInt8) :
    Text.countCrLf bs + (if bs.getLast? = some 13 then 1 else 0) ≤ bs.count 13 := by
  induction bs with
  | nil => exact Nat.le_refl 0
  | cons b bs ih =>
    rw [Text.countCrLf_cons, List.count_cons]
    cases bs with
    | nil => by_cases hb : b = 13 <;> simp [hb, Text.countCrLf]
    | cons c bs =>
      rw [List.getLast?_cons_cons]
      by_cases h : b = 13 ∧ (c :: bs).head? = some 10
      · rw [if_pos h, if_pos (c := (b == 13) = true) (by rw [h.1]; rfl)]
        omega
      · rw [if_neg h]
        omega

theorem Text.countCrLf_append (bs cs : List UInt8) :
    Text.countCrLf (bs ++ cs) = Text.countCrLf bs + Text.countCrLf cs +
      if bs.getLast? = some 13 ∧ cs.head? = some 10 then 1 else 0 := by
  induction bs with
  | nil => simp [Text.countCrLf]
  | cons b bs ih =>
    rw [List.cons_append, Text.countCrLf_cons, Text.countCrLf_cons, ih]
    cases bs with
    | nil => simp [Text.countCrLf]; omega
    | cons d bs =>
      rw [List.getLast?_cons_cons, List.cons_append, List.head?_cons, List.head?_cons]
      omega

theorem noLoneLf_append {bs cs : List UInt8} (hb : NoLoneLf bs) (hc : NoLoneLf cs) :
    NoLoneLf (bs ++ cs) := by
  unfold NoLoneLf at *
  have := Text.countCrLf_le_lf (bs ++ cs)
  rw [Text.countCrLf_append, List.count_append] at *
  omega

theorem noLoneCr_append {bs cs : List UInt8} (hb : NoLoneCr bs) (hc : NoLoneCr cs) :
    NoLoneCr (bs ++ cs) := by
  unfold NoLoneCr at *
  have := Text.countCrLf_le_cr (bs ++ cs)
  rw [Text.countCrLf_append, List.count_append] at *
  omega

theorem NoLoneLf.head_ne {bs : List UInt8} (h : NoLoneLf bs) : bs.head? ≠ some 10 := by
  intro e
  have := Text.countCrLf_le_lf bs
  rw [if_pos e, ← h] at this
  omega

theorem NoLoneCr.getLast_ne {bs : List UInt8} (h : NoLoneCr bs) : bs.getLast? ≠ some 13 := by
  intro e
  have := Text.countCrLf_le_cr bs
  rw [if_pos e, ← h] at this
  omega

/-- Bytes between which no CRLF is cut add up. -/
theorem countCrLf_around {bs ms cs : List UInt8} (hf : NoLoneLf ms) (hr : NoLoneCr ms)
    (hm : ms ≠ []) :
    Text.countCrLf (bs ++ (ms ++ cs)) =
      Text.countCrLf bs + Text.countCrLf ms + Text.countCrLf cs := by
  have hh : (ms ++ cs).head? ≠ some 10 := by
    rw [List.head?_append_of_ne_nil _ hm]
    exact hf.head_ne
  rw [Text.countCrLf_append, if_neg fun h => hh h.2, Text.countCrLf_append,
    if_neg fun h => hr.getLast_ne h.1]
  omega

theorem NoLoneLf.around {bs ms cs : List UInt8} (h : NoLoneLf (bs ++ (ms ++ cs)))
    (hf : NoLoneLf ms) (hr : NoLoneCr ms) (hm : ms ≠ []) : NoLoneLf bs ∧ NoLoneLf cs := by
  unfold NoLoneLf at *
  rw [countCrLf_around hf hr hm, List.count_append, List.count_append] at h
  have := Text.countCrLf_le_lf bs
  have := Text.countCrLf_le_lf cs
  omega

theorem NoLoneCr.around {bs ms cs : List UInt8} (h : NoLoneCr (bs ++ (ms ++ cs)))
    (hf : NoLoneLf ms) (hr : NoLoneCr ms) (hm : ms ≠ []) : NoLoneCr bs ∧ NoLoneCr cs := by
  unfold NoLoneCr at *
  rw [countCrLf_around hf hr hm, List.count_append, List.count_append] at h
  have := Text.countCrLf_le_cr bs
  have := Text.countCrLf_le_cr cs
  omega

/-! ## The bytes of a text -/

/-- The bytes of a text. -/
def Text.bytes (l : List Char) : List UInt8 := l.flatMap String.utf8EncodeChar

theorem Text.bytes_append (l m : List Char) :
    Text.bytes (l ++ m) = Text.bytes l ++ Text.bytes m := List.flatMap_append

theorem Text.bytes_utf8Encode (l : List Char) : l.utf8Encode.data.toList = Text.bytes l := by
  simp [List.utf8Encode, Text.bytes]

theorem Text.eq_nil_of_bytes (h : Text.bytes l = []) : l = [] := by
  cases l with
  | nil => rfl
  | cons c l =>
    rw [Text.bytes, List.flatMap_cons] at h
    exact absurd (List.append_eq_nil_iff.1 h).1 String.utf8EncodeChar_ne_nil

/-- The bytes below 128 stand for themselves. -/
theorem eq_of_mem_utf8EncodeChar {c : Char} {b : UInt8} (hb : b.toNat < 128)
    (h : b ∈ String.utf8EncodeChar c) : c.toNat = b.toNat := by
  simp only [String.utf8EncodeChar] at h
  split_ifs at h <;>
    simp only [List.mem_cons, List.not_mem_nil, or_false] at h
  · subst h
    simp only [UInt8.toNat_ofNat', Char.toNat] at hb ⊢
    omega
  · obtain rfl | rfl := h <;> simp only [UInt8.toNat_ofNat'] at hb <;> omega
  · obtain rfl | rfl | rfl := h <;> simp only [UInt8.toNat_ofNat'] at hb <;> omega
  · obtain rfl | rfl | rfl | rfl := h <;> simp only [UInt8.toNat_ofNat'] at hb <;> omega

theorem noLone_bytes_char {c : Char} (hf : c ≠ '\n') (hr : c ≠ '\r') :
    NoLoneLf (String.utf8EncodeChar c) ∧ NoLoneCr (String.utf8EncodeChar c) := by
  have lf : (String.utf8EncodeChar c).count 10 = 0 := List.count_eq_zero.2 fun h =>
    hf (Char.toNat_inj.1 (eq_of_mem_utf8EncodeChar (by decide) h))
  have cr : (String.utf8EncodeChar c).count 13 = 0 := List.count_eq_zero.2 fun h =>
    hr (Char.toNat_inj.1 (eq_of_mem_utf8EncodeChar (by decide) h))
  have := Text.countCrLf_le_lf (String.utf8EncodeChar c)
  unfold NoLoneLf NoLoneCr
  omega

theorem Text.cr_notMem_normalizeBreaks (l : List Char) : '\r' ∉ Text.normalizeBreaks l := by
  fun_induction Text.normalizeBreaks l with
  | case1 => exact List.not_mem_nil
  | case2 cs ih => simpa using ih
  | case3 cs _ ih => simpa using ih
  | case4 c cs _ hc ih => exact List.not_mem_cons_of_ne_of_not_mem (fun h => hc h.symm) ih

/-- A text whose breaks are written as CRLF has no others. -/
theorem noLone_bytes_crLf {l : List Char} (h : '\r' ∉ l) :
    NoLoneLf (Text.bytes (l.flatMap fun c => if c = '\n' then ['\r', '\n'] else [c])) ∧
      NoLoneCr (Text.bytes (l.flatMap fun c => if c = '\n' then ['\r', '\n'] else [c])) := by
  induction l with
  | nil => exact ⟨rfl, rfl⟩
  | cons c l ih =>
    obtain ⟨hf, hr⟩ := ih fun hm => h (List.mem_cons_of_mem c hm)
    rw [List.flatMap_cons, Text.bytes_append]
    by_cases hc : c = '\n'
    · rw [if_pos hc]
      exact ⟨noLoneLf_append (by unfold NoLoneLf; decide) hf,
        noLoneCr_append (by unfold NoLoneCr; decide) hr⟩
    · have hc' : c ≠ '\r' := fun e => h (e ▸ List.mem_cons_self)
      have := noLone_bytes_char hc hc'
      rw [if_neg hc, show Text.bytes [c] = String.utf8EncodeChar c from List.flatMap_singleton ..]
      exact ⟨noLoneLf_append this.1 hf, noLoneCr_append this.2 hr⟩

theorem noLone_matchLineEndings (h : 0 < Text.countCrLf raw.data.toList)
    (hf : NoLoneLf raw.data.toList) (value : String) :
    NoLoneLf (Text.bytes (matchLineEndings raw value)) ∧
      NoLoneCr (Text.bytes (matchLineEndings raw value)) := by
  unfold matchLineEndings
  rw [if_pos ⟨h, hf⟩]
  exact noLone_bytes_crLf (Text.cr_notMem_normalizeBreaks _)

/-! ## The edit -/

/-- What replacing one occurrence of `old` makes of `raw`: the bytes before and after it stay. -/
structure Edited (raw updated : ByteArray) (text : String) (old new : List Char)
    (i : ℕ) : Prop where
  before : raw = (text.toList.take i).utf8Encode ++
    (old.utf8Encode ++ (text.toList.drop (i + old.length)).utf8Encode)
  after : updated = (text.toList.take i).utf8Encode ++
    (new.utf8Encode ++ (text.toList.drop (i + old.length)).utf8Encode)
  lineFeeds : 0 < Text.countCrLf raw.data.toList → NoLoneLf raw.data.toList →
    NoLoneLf updated.data.toList
  returns : 0 < Text.countCrLf raw.data.toList → NoLoneLf raw.data.toList →
    NoLoneCr raw.data.toList → NoLoneCr updated.data.toList

/-- An exact edit: one position only, and nothing but its span changed; else a conflict. -/
structure ExactEdit (raw : ByteArray) (path old new : String) : Prop where
  unique : ∀ updated, replaceExactText raw path old new = pure updated →
    ∃ text i, String.fromUTF8? raw = some text ∧
      OccursAt (matchLineEndings raw old) text.toList i ∧
      (∀ j, OccursAt (matchLineEndings raw old) text.toList j → j = i) ∧
      Edited raw updated text (matchLineEndings raw old) (matchLineEndings raw new) i
  conflict : ∀ text, String.fromUTF8? raw = some text →
    ((¬ ∃ i, OccursAt (matchLineEndings raw old) text.toList i) ∨
      Twice (matchLineEndings raw old) text.toList) →
    ∃ message details, replaceExactText raw path old new = reject .conflict message details

theorem toUTF8_of_fromUTF8? (h : String.fromUTF8? raw = some text) :
    raw = text.toList.utf8Encode := by
  unfold String.fromUTF8? at h
  split_ifs at h with hv
  · cases h
    rw [String.utf8Encode_toList]
    rfl

theorem pure_bind_body {α β : Type} (a : α) (f : α → Body β) : (pure a >>= f) = f a := rfl

/-- What the tool answers by the number of occurrences it counts. -/
theorem replaceExactText_eq (h : String.fromUTF8? raw = some text) :
    replaceExactText raw path old new =
      if Text.countFrom (matchLineEndings raw old) 0 text.toList = 0 then
        reject .conflict "old_string was not found in the file" [("path", .str path)]
      else if 1 < Text.countFrom (matchLineEndings raw old) 0 text.toList then
        reject .conflict "old_string must match exactly one occurrence" [("path", .str path),
          ("matches", .num (Text.countFrom (matchLineEndings raw old) 0 text.toList))]
      else pure (String.ofList (Text.replaceFirst (matchLineEndings raw old)
        (matchLineEndings raw new) text.toList)).toUTF8 := by
  unfold replaceExactText decodeText
  rw [h]
  simp only [pure_bind_body]
  by_cases h0 : Text.countFrom (matchLineEndings raw old) 0 text.toList = 0
  · simp only [h0, if_true]
    rfl
  · by_cases h1 : 1 < Text.countFrom (matchLineEndings raw old) 0 text.toList
    · simp only [h0, h1, if_true, if_false]
      rfl
    · simp only [h0, h1, if_false]

theorem reject_ne_pure {α : Type} {a : α} {code : ErrorCode} {message : String} {details : Dict} :
    (reject code message details : Body α) ≠ pure a := fun h => by cases h

/-- The tool replaces only what it counts once. -/
theorem countFrom_of_replaced (h : String.fromUTF8? raw = some text)
    (hu : replaceExactText raw path old new = pure updated) :
    Text.countFrom (matchLineEndings raw old) 0 text.toList = 1 ∧
      updated = (Text.replaceFirst (matchLineEndings raw old) (matchLineEndings raw new)
        text.toList).utf8Encode := by
  rw [replaceExactText_eq h] at hu
  by_cases h0 : Text.countFrom (matchLineEndings raw old) 0 text.toList = 0
  · rw [if_pos h0] at hu
    exact absurd hu reject_ne_pure
  · rw [if_neg h0] at hu
    by_cases h1 : 1 < Text.countFrom (matchLineEndings raw old) 0 text.toList
    · rw [if_pos h1] at hu
      exact absurd hu reject_ne_pure
    · rw [if_neg h1] at hu
      cases hu
      exact ⟨by omega, String.toByteArray_ofList⟩

/-- A file that is not UTF-8 is not edited. -/
theorem fromUTF8?_of_replaced (hu : replaceExactText raw path old new = pure updated) :
    ∃ text, String.fromUTF8? raw = some text := by
  unfold replaceExactText decodeText at hu
  cases h : String.fromUTF8? raw with
  | some text => exact ⟨text, rfl⟩
  | none =>
    rw [h] at hu
    cases hu

/-- Of two positions one comes first, so a text with a position has a first one. -/
theorem exists_first (h : ∃ i, OccursAt p l i) :
    ∃ i, OccursAt p l i ∧ ∀ j, OccursAt p l j → i ≤ j := by
  classical
  exact ⟨Nat.find h, Nat.find_spec h, fun j hj => Nat.find_min' h hj⟩

/-- Replacing the first occurrence leaves everything around it, line breaks included. -/
theorem edited_of_first {i : ℕ} (h : String.fromUTF8? raw = some text)
    (hi : OccursAt (matchLineEndings raw old) text.toList i)
    (first : ∀ j, OccursAt (matchLineEndings raw old) text.toList j → i ≤ j)
    (once : ¬ TwiceApart (matchLineEndings raw old) text.toList)
    (hu : updated = (Text.replaceFirst (matchLineEndings raw old) (matchLineEndings raw new)
      text.toList).utf8Encode) :
    Edited raw updated text (matchLineEndings raw old) (matchLineEndings raw new) i := by
  have before : raw = (text.toList.take i).utf8Encode ++ ((matchLineEndings raw old).utf8Encode ++
      (text.toList.drop (i + (matchLineEndings raw old).length)).utf8Encode) := by
    rw [← List.utf8Encode_append, ← List.utf8Encode_append, hi.split]
    exact toUTF8_of_fromUTF8? h
  have after : updated = (text.toList.take i).utf8Encode ++
      ((matchLineEndings raw new).utf8Encode ++
        (text.toList.drop (i + (matchLineEndings raw old).length)).utf8Encode) := by
    rw [hu, Text.replaceFirst_eq hi first, List.utf8Encode_append, List.utf8Encode_append]
  have rawBytes := congrArg (fun b : ByteArray => b.data.toList) before
  have newBytes := congrArg (fun b : ByteArray => b.data.toList) after
  simp only [ByteArray.data_append, Array.toList_append, Text.bytes_utf8Encode] at rawBytes newBytes
  -- an empty text occurs once in an empty file only, and that has no CRLF
  have nonempty (hc : 0 < Text.countCrLf raw.data.toList) :
      Text.bytes (matchLineEndings raw old) ≠ [] := fun he => by
    have ho := Text.eq_nil_of_bytes he
    rw [ho] at once
    have ht : text.toList = [] := by
      by_contra hne
      exact once (twiceApart_nil hne)
    rw [toUTF8_of_fromUTF8? h, ht] at hc
    exact absurd hc (by simp [Text.countCrLf])
  refine ⟨before, after, fun hc hf => ?_, fun hc hf hr => ?_⟩
  · obtain ⟨of, or⟩ := noLone_matchLineEndings hc hf old
    obtain ⟨nf, -⟩ := noLone_matchLineEndings hc hf new
    rw [rawBytes] at hf
    obtain ⟨bf, cf⟩ := hf.around of or (nonempty hc)
    rw [newBytes]
    exact noLoneLf_append bf (noLoneLf_append nf cf)
  · obtain ⟨of, or⟩ := noLone_matchLineEndings hc hf old
    obtain ⟨-, nr⟩ := noLone_matchLineEndings hc hf new
    rw [rawBytes] at hr
    obtain ⟨br, cr⟩ := hr.around of or (nonempty hc)
    rw [newBytes]
    exact noLoneCr_append br (noLoneCr_append nr cr)

/-- An edit is exact just where a text that has two positions occurs twice apart. -/
theorem exactEdit_iff (raw : ByteArray) (path old new : String) :
    ExactEdit raw path old new ↔ ∀ text, String.fromUTF8? raw = some text →
      Twice (matchLineEndings raw old) text.toList →
        TwiceApart (matchLineEndings raw old) text.toList := by
  constructor
  · intro exactly text h twice
    by_contra apart
    obtain ⟨message, details, he⟩ := exactly.conflict text h (.inr twice)
    obtain ⟨i, -, hi, -⟩ := twice
    have pos : 0 < Text.countFrom (matchLineEndings raw old) 0 text.toList :=
      Text.countFrom_pos.2 ⟨i, hi⟩
    rw [replaceExactText_eq h, if_neg (Nat.ne_of_gt pos),
      if_neg fun h => apart (Text.one_lt_countFrom.1 h)] at he
    exact reject_ne_pure he.symm
  · intro apart
    refine ⟨fun updated hu => ?_, fun text h none_or_twice => ?_⟩
    · obtain ⟨text, h⟩ := fromUTF8?_of_replaced hu
      obtain ⟨one, hu⟩ := countFrom_of_replaced h hu
      have pos : 0 < Text.countFrom (matchLineEndings raw old) 0 text.toList := by omega
      obtain ⟨i, hi, first⟩ := exists_first (Text.countFrom_pos.1 pos)
      have once : ¬ TwiceApart (matchLineEndings raw old) text.toList := fun ht => by
        have := Text.one_lt_countFrom.2 ht
        omega
      refine ⟨text, i, h, hi, fun j hj => ?_, edited_of_first h hi first once hu⟩
      by_contra hne
      have hij : i ≤ j := first j hj
      exact once (apart text h ⟨i, j, hi, hj, Nat.lt_of_le_of_ne hij (Ne.symm hne)⟩)
    · rw [replaceExactText_eq h]
      by_cases h0 : Text.countFrom (matchLineEndings raw old) 0 text.toList = 0
      · rw [if_pos h0]
        exact ⟨_, _, rfl⟩
      · have twice := none_or_twice.resolve_left fun hn =>
          hn (Text.countFrom_pos.1 (Nat.pos_of_ne_zero h0))
        rw [if_neg h0, if_pos (Text.one_lt_countFrom.2 (apart text h twice))]
        exact ⟨_, _, rfl⟩

theorem fromUTF8?_toUTF8 (s : String) : String.fromUTF8? s.toUTF8 = some s :=
  dif_pos s.isValidUTF8

/-- `aa` stands at two positions of `aaa`, and the edit is made. -/
theorem edit_of_overlapping : ¬ ExactEdit "aaa".toUTF8 "notes.txt" "aa" "b" := by
  intro exactly
  have old : matchLineEndings "aaa".toUTF8 "aa" = ['a', 'a'] := by decide
  have hu : replaceExactText "aaa".toUTF8 "notes.txt" "aa" "b" = pure
      (String.ofList (Text.replaceFirst ['a', 'a'] (matchLineEndings "aaa".toUTF8 "b")
        "aaa".toList)).toUTF8 := by
    rw [replaceExactText_eq (fromUTF8?_toUTF8 "aaa"), old, if_neg (by decide), if_neg (by decide)]
  obtain ⟨text, i, h, -, unique, -⟩ := exactly.unique _ hu
  cases (fromUTF8?_toUTF8 "aaa").symm.trans h
  rw [old] at unique
  have first : 0 = i := unique 0 ⟨by decide, by decide⟩
  have second : 1 = i := unique 1 ⟨by decide, by decide⟩
  omega

end CodemcpBridge
