import Mathlib.Data.List.Infix

/-!
# Occurrences of a list in a list

`OccursAt p l i` says that `p` stands in `l` from position `i` on.  The positions of an empty `p`
are all those of `l` and the one after its end.  Two occurrences are *apart* when the first ends
where the second begins or before, and when they are not one.
-/

namespace Parsing

variable {α : Type} {p l : List α} {i j k : ℕ} {a : α}

/-- `p` stands in `l` from position `i` on. -/
def OccursAt (p l : List α) (i : ℕ) : Prop := i ≤ l.length ∧ p <+: l.drop i

/-- There are two occurrences of `p` in `l`. -/
def Twice (p l : List α) : Prop := ∃ i j, OccursAt p l i ∧ OccursAt p l j ∧ i < j

/-- There are two occurrences of `p` in `l` that share no element. -/
def TwiceApart (p l : List α) : Prop :=
  ∃ i j, OccursAt p l i ∧ OccursAt p l j ∧ i < j ∧ i + p.length ≤ j

theorem TwiceApart.twice (h : TwiceApart p l) : Twice p l := by
  obtain ⟨i, j, hi, hj, hij, -⟩ := h
  exact ⟨i, j, hi, hj, hij⟩

theorem occursAt_zero : OccursAt p l 0 ↔ p <+: l := by simp [OccursAt]

theorem occursAt_nil : OccursAt p [] i ↔ i = 0 ∧ p = [] := by simp [OccursAt]

theorem occursAt_cons : OccursAt p (a :: l) (i + 1) ↔ OccursAt p l i := by simp [OccursAt]

theorem occursAt_drop (h : k ≤ l.length) : OccursAt p (l.drop k) i ↔ OccursAt p l (k + i) := by
  unfold OccursAt
  rw [List.length_drop, List.drop_drop]
  exact and_congr_left fun _ => by omega

/-- The empty list occurs twice in any other list. -/
theorem twiceApart_nil (h : l ≠ []) : TwiceApart [] l := by
  have : 0 < l.length := List.length_pos_iff.2 h
  exact ⟨0, 1, ⟨by omega, List.nil_prefix⟩, ⟨by omega, List.nil_prefix⟩, by omega, by simp⟩

/-- What stands before an occurrence, the occurrence, and what follows. -/
theorem OccursAt.split (h : OccursAt p l i) : l.take i ++ (p ++ l.drop (i + p.length)) = l := by
  obtain ⟨t, ht⟩ := h.2
  rw [← List.drop_drop, ← ht, List.drop_left, ht, List.take_append_drop]

/-- The occurrences in a list that does not begin with one are those of its tail. -/
theorem exists_occursAt_cons (h : ¬ p <+: a :: l) :
    (∃ i, OccursAt p (a :: l) i) ↔ ∃ i, OccursAt p l i := by
  constructor
  · rintro ⟨_ | i, hi⟩
    · exact absurd (occursAt_zero.1 hi) h
    · exact ⟨i, occursAt_cons.1 hi⟩
  · rintro ⟨i, hi⟩
    exact ⟨i + 1, occursAt_cons.2 hi⟩

theorem twiceApart_cons (h : ¬ p <+: a :: l) : TwiceApart p (a :: l) ↔ TwiceApart p l := by
  constructor
  · rintro ⟨_ | i, _ | j, hi, hj, hij, hp⟩
    · omega
    · exact absurd (occursAt_zero.1 hi) h
    · omega
    · exact ⟨i, j, occursAt_cons.1 hi, occursAt_cons.1 hj, by omega, by omega⟩
  · rintro ⟨i, j, hi, hj, hij, hp⟩
    exact ⟨i + 1, j + 1, occursAt_cons.2 hi, occursAt_cons.2 hj, by omega, by omega⟩

/-- A list that begins with an occurrence has two apart when one more follows the first. -/
theorem twiceApart_of_prefix (h : p <+: l) (hk : k ≤ l.length) (hp : k = max 1 p.length) :
    TwiceApart p l ↔ ∃ i, OccursAt p (l.drop k) i := by
  constructor
  · rintro ⟨i, j, -, hj, hij, hp'⟩
    refine ⟨j - k, (occursAt_drop hk).2 ?_⟩
    rwa [show k + (j - k) = j by omega]
  · rintro ⟨i, hi⟩
    exact ⟨0, k + i, occursAt_zero.2 h, (occursAt_drop hk).1 hi, by omega, by omega⟩

end Parsing
