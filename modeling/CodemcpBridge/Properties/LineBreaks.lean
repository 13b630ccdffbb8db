import CodemcpBridge.Properties.ExactEdit

/-!
# Edits of a text that occurs once

Before `replaceExactText` searches for a text it rewrites the text's line breaks as the file seems
to write them.  A text that stands once in the file can be edited when its breaks are the file's
already; else what is searched for is another text, and only where this one occurs once is an edit
made.
-/

namespace CodemcpBridge

open Parsing Body

variable {raw : ByteArray} {path old text : String} {p l : List Char} {i : ℕ}

/-! ## Breaks that are left alone -/

/-- The rule by which a file's line breaks are taken to be CRLF. -/
def UsesCrLf (raw : ByteArray) : Prop :=
  Text.countCrLf raw.data.toList > 0 ∧ raw.data.toList.count 10 = Text.countCrLf raw.data.toList

instance : Decidable (UsesCrLf raw) := inferInstanceAs (Decidable (_ ∧ _))

/-- Every line break of the text is a CRLF. -/
def crLfOnly : List Char → Bool
  | [] => true
  | '\r' :: '\n' :: cs => crLfOnly cs
  | c :: cs => c != '\r' && c != '\n' && crLfOnly cs

/-- The line breaks of the text are those that the file is taken to use. -/
def Fits (raw : ByteArray) (old : String) : Prop :=
  if UsesCrLf raw then crLfOnly old.toList = true else '\r' ∉ old.toList

theorem normalizeBreaks_eq_iff : Text.normalizeBreaks l = l ↔ '\r' ∉ l := by
  constructor
  · intro h
    rw [← h]
    exact Text.cr_notMem_normalizeBreaks l
  · intro h
    fun_induction Text.normalizeBreaks l with
    | case1 => rfl
    | case2 cs ih => exact absurd List.mem_cons_self h
    | case3 cs _ ih => exact absurd List.mem_cons_self h
    | case4 c cs _ _ ih => rw [ih fun hm => h (List.mem_cons_of_mem c hm)]

/-- A line break as a file with CRLF writes it. -/
def writeBreak (c : Char) : List Char := if c = '\n' then ['\r', '\n'] else [c]

theorem crLfOnly_of_written (h : '\r' ∉ l) : crLfOnly (l.flatMap writeBreak) = true := by
  induction l with
  | nil => rfl
  | cons c l ih =>
    have rest := ih fun hm => h (List.mem_cons_of_mem c hm)
    rw [List.flatMap_cons]
    unfold writeBreak
    by_cases hn : c = '\n'
    · rw [if_pos hn]
      exact rest
    · have hr : c ≠ '\r' := fun e => h (e ▸ List.mem_cons_self)
      rw [if_neg hn, List.singleton_append, crLfOnly]
      · simp only [bne_iff_ne, ne_eq, hr, hn, not_false_eq_true, Bool.and_eq_true, true_and]
        exact rest
      · intro cs he
        exact absurd he hr

theorem written_of_crLfOnly (h : crLfOnly l = true) :
    (Text.normalizeBreaks l).flatMap writeBreak = l := by
  fun_induction Text.normalizeBreaks l with
  | case1 => rfl
  | case2 cs ih =>
    rw [crLfOnly] at h
    rw [List.flatMap_cons, ih h]
    rfl
  | case3 cs hne ih =>
    rw [crLfOnly] at h
    · simp at h
    · rintro cs' - rfl
      exact hne cs' rfl
  | case4 c cs _ hc ih =>
    rw [crLfOnly] at h
    · simp only [bne_iff_ne, ne_eq, Bool.and_eq_true] at h
      rw [List.flatMap_cons, ih h.2]
      unfold writeBreak
      rw [if_neg h.1.2]
      rfl
    · intro cs' he
      exact absurd he hc

/-- A text is searched for as it stands just when its breaks are the file's. -/
theorem matchLineEndings_eq_iff : matchLineEndings raw old = old.toList ↔ Fits raw old := by
  have written : matchLineEndings raw old =
      if UsesCrLf raw then (Text.normalizeBreaks old.toList).flatMap writeBreak
      else Text.normalizeBreaks old.toList := rfl
  rw [written]
  unfold Fits
  by_cases crlf : UsesCrLf raw
  · rw [if_pos crlf, if_pos crlf]
    refine ⟨fun h => ?_, written_of_crLfOnly⟩
    rw [← h]
    exact crLfOnly_of_written (Text.cr_notMem_normalizeBreaks _)
  · rw [if_neg crlf, if_neg crlf]
    exact normalizeBreaks_eq_iff

/-! ## A text that occurs once -/

/-- There is an occurrence, and no two that are apart. -/
def Once (p l : List Char) : Prop := (∃ i, OccursAt p l i) ∧ ¬ TwiceApart p l

theorem countFrom_eq_one_iff : Text.countFrom p 0 l = 1 ↔ Once p l := by
  unfold Once
  rw [← Text.countFrom_pos, ← Text.one_lt_countFrom]
  omega

theorem once_of_unique (hi : OccursAt p l i) (only : ∀ j, OccursAt p l j → j = i) : Once p l := by
  refine ⟨⟨i, hi⟩, ?_⟩
  rintro ⟨j, k, hj, hk, hjk, -⟩
  rw [only j hj, only k hk] at hjk
  exact Nat.lt_irrefl i hjk

/-- A text that is replaced by itself leaves the list as it is. -/
theorem replaceFirst_self (h : ∃ i, OccursAt p l i) : Text.replaceFirst p p l = l := by
  obtain ⟨i, hi, first⟩ := exists_first h
  rw [Text.replaceFirst_eq hi first, hi.split]

/-- No edit of the text is a conflict, and replacing it by itself gives the file back. -/
def Editable (raw : ByteArray) (path old : String) : Prop :=
  (∀ new message details, replaceExactText raw path old new ≠ reject .conflict message details) ∧
    replaceExactText raw path old old = pure raw

/-- What is searched for can be edited just where it is counted once. -/
theorem editable_iff_once (h : String.fromUTF8? raw = some text) :
    Editable raw path old ↔ Once (matchLineEndings raw old) text.toList := by
  rw [← countFrom_eq_one_iff]
  unfold Editable
  constructor
  · rintro ⟨-, same⟩
    exact (countFrom_of_replaced h same).1
  · intro one
    have made (new : String) : replaceExactText raw path old new =
        pure (String.ofList (Text.replaceFirst (matchLineEndings raw old)
          (matchLineEndings raw new) text.toList)).toUTF8 := by
      rw [replaceExactText_eq h, if_neg (by omega), if_neg (by omega)]
    refine ⟨fun new message details conflict => ?_, ?_⟩
    · rw [made new] at conflict
      exact reject_ne_pure conflict.symm
    · rw [made old, replaceFirst_self (countFrom_eq_one_iff.1 one).1, String.ofList_toList]
      unfold String.fromUTF8? at h
      split_ifs at h
      cases h
      rfl

/-- A text that stands at exactly one position can be edited just when its breaks are the file's, or
the text that is searched for in its place occurs once. -/
theorem editable_iff_fits (raw : ByteArray) (path old text : String) (i : ℕ)
    (h : String.fromUTF8? raw = some text) (hi : OccursAt old.toList text.toList i)
    (only : ∀ j, OccursAt old.toList text.toList j → j = i) :
    Editable raw path old ↔ Fits raw old ∨ Once (matchLineEndings raw old) text.toList := by
  rw [editable_iff_once h]
  refine ⟨.inr, ?_⟩
  rintro (fits | once)
  · rw [matchLineEndings_eq_iff.2 fits]
    exact once_of_unique hi only
  · exact once

instance : Decidable (OccursAt p l i) := inferInstanceAs (Decidable (_ ∧ _))

/-- The last lines of a file with line feeds can be edited together. -/
theorem editable_secondLine : Editable "a\nb\nc".toUTF8 "notes.txt" "b\nc" ↔
    Fits "a\nb\nc".toUTF8 "b\nc" ∨
      Once (matchLineEndings "a\nb\nc".toUTF8 "b\nc") "a\nb\nc".toList := by
  refine editable_iff_fits _ _ _ "a\nb\nc" 2 (fromUTF8?_toUTF8 _) (by decide) fun j hj => ?_
  have bounded : ∀ j ≤ 5, OccursAt "b\nc".toList "a\nb\nc".toList j → j = 2 := by decide
  exact bounded j hj.1 hj

/-- A CRLF that the file holds once is not found, since the file has a line feed alone as well. -/
theorem crLf_not_editable : ¬ ∀ (raw : ByteArray) (path old text : String) (i : ℕ),
    String.fromUTF8? raw = some text → old ≠ "" → OccursAt old.toList text.toList i →
      (∀ j, OccursAt old.toList text.toList j → j = i) → Editable raw path old := by
  intro h
  have bounded : ∀ j ≤ 6, OccursAt "a\r\nb".toList "a\r\nb\nc".toList j → j = 0 := by decide
  have editable := h _ "notes.txt" "a\r\nb" "a\r\nb\nc" 0 (fromUTF8?_toUTF8 _) (by decide)
    (by decide) fun j hj => bounded j hj.1 hj
  rw [editable_iff_once (fromUTF8?_toUTF8 _), ← countFrom_eq_one_iff] at editable
  exact absurd editable (by decide +kernel)

end CodemcpBridge
