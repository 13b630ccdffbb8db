import CodemcpBridge.Text

/-!
# Selecting in order

`ORDER BY` a decided order: insertion sort, which is stable and keeps every row.
-/

namespace CodemcpBridge

/-- `ORDER BY time, id`. -/
def timeIdLe (a b : ℕ × String) : Bool :=
  a.1 < b.1 || (a.1 == b.1 && Text.le a.2 b.2)

variable {α : Type}

def insertBy (key : α → ℕ × String) (x : α) : List α → List α
  | [] => [x]
  | y :: ys => if timeIdLe (key x) (key y) then x :: y :: ys else y :: insertBy key x ys

/-- The rows in the order of their keys. -/
def orderBy (key : α → ℕ × String) : List α → List α
  | [] => []
  | x :: xs => insertBy key x (orderBy key xs)

@[simp] theorem mem_insertBy {key : α → ℕ × String} {x y : α} {l : List α} :
    y ∈ insertBy key x l ↔ y = x ∨ y ∈ l := by
  induction l with
  | nil => simp [insertBy]
  | cons z zs ih =>
    unfold insertBy
    split
    · simp
    · simp [ih, or_left_comm]

@[simp] theorem mem_orderBy {key : α → ℕ × String} {y : α} {l : List α} :
    y ∈ orderBy key l ↔ y ∈ l := by
  induction l with
  | nil => simp [orderBy]
  | cons x xs ih => simp [orderBy, ih]

/-! ## What is in order -/

theorem timeIdLe_total (a b : ℕ × String) : timeIdLe a b = true ∨ timeIdLe b a = true := by
  simp only [timeIdLe, Text.le, Bool.or_eq_true, Bool.and_eq_true, decide_eq_true_eq, beq_iff_eq]
  rcases Nat.lt_trichotomy a.1 b.1 with h | h | h
  · exact .inl (.inl h)
  · exact (Text.leChars_total a.2.toList b.2.toList).imp (fun ht => .inr ⟨h, ht⟩)
      fun ht => .inr ⟨h.symm, ht⟩
  · exact .inr (.inl h)

theorem timeIdLe_trans {a b c : ℕ × String} (h : timeIdLe a b = true) (h' : timeIdLe b c = true) :
    timeIdLe a c = true := by
  simp only [timeIdLe, Text.le, Bool.or_eq_true, Bool.and_eq_true, decide_eq_true_eq,
    beq_iff_eq] at h h' ⊢
  rcases h with h | ⟨h, ht⟩ <;> rcases h' with h' | ⟨h', ht'⟩
  · exact .inl (by omega)
  · exact .inl (by omega)
  · exact .inl (by omega)
  · exact .inr ⟨by omega, Text.leChars_trans ht ht'⟩

/-- The rows stand in the order of their keys. -/
def Ordered (key : α → ℕ × String) (l : List α) : Prop :=
  l.Pairwise fun x y => timeIdLe (key x) (key y) = true

theorem insertBy_ordered {key : α → ℕ × String} {x : α} {l : List α} (h : Ordered key l) :
    Ordered key (insertBy key x l) := by
  induction l with
  | nil => exact List.pairwise_singleton _ _
  | cons y ys ih =>
    obtain ⟨hy, hys⟩ := List.pairwise_cons.1 h
    unfold insertBy
    split
    · rename_i hle
      refine List.pairwise_cons.2 ⟨fun z hz => ?_, h⟩
      rcases List.mem_cons.1 hz with rfl | hz
      · exact hle
      · exact timeIdLe_trans hle (hy z hz)
    · rename_i hnle
      refine List.pairwise_cons.2 ⟨fun z hz => ?_, ih hys⟩
      rcases mem_insertBy.1 hz with rfl | hz
      · exact (timeIdLe_total _ _).resolve_left hnle
      · exact hy z hz

theorem orderBy_ordered (key : α → ℕ × String) (l : List α) : Ordered key (orderBy key l) := by
  induction l with
  | nil => exact .nil
  | cons x xs ih => exact insertBy_ordered ih

/-- The selection is the table's own order exactly where the rows stand in the order of their keys.
-/
theorem orderBy_eq_self_iff {key : α → ℕ × String} {l : List α} :
    orderBy key l = l ↔ Ordered key l := by
  refine ⟨fun h => h ▸ orderBy_ordered key l, fun h => ?_⟩
  induction l with
  | nil => rfl
  | cons x xs ih =>
    obtain ⟨hx, hxs⟩ := List.pairwise_cons.1 h
    rw [orderBy, ih hxs]
    cases xs with
    | nil => rfl
    | cons y ys => exact if_pos (hx y List.mem_cons_self)

end CodemcpBridge
