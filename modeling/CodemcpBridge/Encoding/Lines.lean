import CodemcpBridge.ProjectRegistry.Names
import CodemcpBridge.Text

/-!
# Lines

`str.splitlines` on a text that is put together from lines.
-/

namespace CodemcpBridge

namespace Text

theorem linesOf_nil (acc : List Char) :
    linesOf acc [] = if acc = [] then [] else [acc.reverse] := rfl

theorem linesOf_cons {acc cs : List Char} {c : Char} (h : c ≠ '\r') :
    linesOf acc (c :: cs) = if isLineBreak c then acc.reverse :: linesOf [] cs
      else linesOf (c :: acc) cs := by
  rw [linesOf.eq_def]
  split
  · rename_i heq
    cases heq
  · rename_i heq
    cases heq
    exact absurd rfl h
  · rename_i heq
    cases heq
    rfl

theorem linesOf_letter {acc cs : List Char} {c : Char} (h : isLineBreak c = false) :
    linesOf acc (c :: cs) = linesOf (c :: acc) cs := by
  have ne : c ≠ '\r' := fun e => by
    rw [e] at h
    exact absurd h (by decide)
  rw [linesOf_cons ne, if_neg (by rw [h]; exact Bool.false_ne_true)]

theorem linesOf_break {acc l rest : List Char} (h : ∀ c ∈ l, isLineBreak c = false) :
    linesOf acc (l ++ '\n' :: rest) = (acc.reverse ++ l) :: linesOf [] rest := by
  induction l generalizing acc with
  | nil => rw [List.nil_append, linesOf_cons (by decide), if_pos (by decide), List.append_nil]
  | cons c l ih =>
    rw [List.cons_append, linesOf_letter (h c List.mem_cons_self),
      ih fun d hd => h d (List.mem_cons_of_mem c hd)]
    simp

theorem linesOf_end {acc l : List Char} (h : ∀ c ∈ l, isLineBreak c = false)
    (hne : acc.reverse ++ l ≠ []) : linesOf acc l = [acc.reverse ++ l] := by
  induction l generalizing acc with
  | nil =>
    rw [linesOf_nil, if_neg (by simpa using hne), List.append_nil]
  | cons c l ih =>
    rw [linesOf_letter (h c List.mem_cons_self),
      ih (fun d hd => h d (List.mem_cons_of_mem c hd)) (by simp)]
    simp

theorem linesOf_append_pieces {w p : List Char} {ps : List (List Char)} (rest acc : List Char)
    (h : '\r' ∉ w) (hw : splitBy isLineBreak w = p :: ps) :
    linesOf acc (w ++ '\n' :: rest) = (acc.reverse ++ p) :: (ps ++ linesOf [] rest) := by
  induction w generalizing acc p ps with
  | nil =>
    cases hw
    exact linesOf_break (by simp)
  | cons c w ih =>
    have hc : c ≠ '\r' := fun e => h (e ▸ List.mem_cons_self)
    have hr : '\r' ∉ w := fun hm => h (List.mem_cons_of_mem c hm)
    obtain ⟨q, qs, hq⟩ := List.exists_cons_of_ne_nil (splitBy_ne_nil isLineBreak w)
    rw [List.cons_append, linesOf_cons hc]
    rw [splitBy, hq] at hw
    by_cases hb : isLineBreak c = true
    · rw [if_pos hb] at hw ⊢
      cases hw
      rw [ih [] hr hq]
      simp
    · rw [if_neg hb] at hw ⊢
      cases hw
      rw [ih (c :: acc) hr hq]
      simp

/-- A line feed ends the last of the pieces before it. -/
theorem linesOf_append {w : List Char} (rest : List Char) (h : '\r' ∉ w) :
    linesOf [] (w ++ '\n' :: rest) = splitBy isLineBreak w ++ linesOf [] rest := by
  obtain ⟨p, ps, hw⟩ := List.exists_cons_of_ne_nil (splitBy_ne_nil isLineBreak w)
  rw [linesOf_append_pieces rest [] h hw, hw]
  rfl

theorem linesOf_return {acc cs : List Char} {d : Char} (h : d ≠ '\n') :
    linesOf acc ('\r' :: d :: cs) = acc.reverse :: linesOf [] (d :: cs) := by
  rw [linesOf.eq_def]
  split
  · rename_i heq
    cases heq
  · rename_i heq
    cases heq
    exact absurd rfl h
  · rename_i heq
    cases heq
    rw [if_pos (by decide)]

/-- What follows a line feed and holds no line break is the last line. -/
theorem exists_linesOf_last {l : List Char} (h : ∀ c ∈ l, isLineBreak c = false) (hne : l ≠ []) :
    ∀ (x acc : List Char), ∃ lines, linesOf acc (x ++ '\n' :: l) = lines ++ [l]
  | [], acc => by
    refine ⟨[acc.reverse], ?_⟩
    rw [List.nil_append, linesOf_cons (by decide), if_pos (by decide),
      linesOf_end h (by simpa using hne)]
    rfl
  | c :: x, acc => by
    by_cases hc : c = '\r'
    · rw [hc]
      cases x with
      | nil =>
        refine ⟨[acc.reverse], ?_⟩
        show acc.reverse :: linesOf [] l = _
        rw [linesOf_end h (by simpa using hne)]
        rfl
      | cons d x =>
        by_cases hd : d = '\n'
        · obtain ⟨lines, hl⟩ := exists_linesOf_last h hne x []
          rw [hd]
          exact ⟨acc.reverse :: lines, congrArg (acc.reverse :: ·) hl⟩
        · obtain ⟨lines, hl⟩ := exists_linesOf_last h hne (d :: x) []
          refine ⟨acc.reverse :: lines, ?_⟩
          rw [List.cons_append] at hl
          rw [List.cons_append, List.cons_append, linesOf_return hd, hl]
          rfl
    · rw [List.cons_append, linesOf_cons hc]
      by_cases hb : isLineBreak c = true
      · rw [if_pos hb]
        obtain ⟨lines, hl⟩ := exists_linesOf_last h hne x []
        exact ⟨acc.reverse :: lines, congrArg (acc.reverse :: ·) hl⟩
      · rw [if_neg hb]
        exact exists_linesOf_last h hne x (c :: acc)

end Text

end CodemcpBridge
