import Mathlib.Data.List.Nodup
import Mathlib.Data.List.Pairwise

/-!
# Keyed tables

A table is a list of rows in insertion order; a column that is unique, such as a primary key, is a
function of the row that takes every value once.  Updates go to the rows with a given key and keep
the key.
-/

namespace Table

variable {α κ : Type} [DecidableEq κ] (key : α → κ)

/-- The row with a key. -/
def row? (k : κ) (l : List α) : Option α := l.find? fun x => decide (key x = k)

/-- Change the rows with a key. -/
def update (k : κ) (f : α → α) (l : List α) : List α := l.map fun x => if key x = k then f x else x

variable {key}

theorem row?_some {k : κ} {l : List α} {x : α} (h : row? key k l = some x) : x ∈ l ∧ key x = k :=
  ⟨List.mem_of_find?_eq_some h, by simpa using List.find?_some h⟩

theorem row?_none {k : κ} {l : List α} : row? key k l = none ↔ ∀ x ∈ l, key x ≠ k := by
  simp [row?]

/-- With a unique key, the row with the key is the row that is there. -/
theorem row?_eq_some_iff {k : κ} {l : List α} (h : (l.map key).Nodup) {x : α} :
    row? key k l = some x ↔ x ∈ l ∧ key x = k := by
  refine ⟨row?_some, fun ⟨hx, hk⟩ => ?_⟩
  cases hr : row? key k l with
  | none => exact absurd hk (row?_none.1 hr x hx)
  | some y =>
    obtain ⟨hy, hky⟩ := row?_some hr
    exact congrArg some (List.inj_on_of_nodup_map h hy hx (hky.trans hk.symm))

theorem mem_update {k : κ} {f : α → α} {l : List α} {y : α} :
    y ∈ update key k f l ↔ ∃ x ∈ l, y = if key x = k then f x else x := by
  simp only [update, List.mem_map, eq_comm]

/-- A row of an updated table is an old row with another key, or the new form of one with the key.
-/
theorem of_mem_update {k : κ} {f : α → α} {l : List α} {y : α} (h : y ∈ update key k f l) :
    (y ∈ l ∧ key y ≠ k) ∨ ∃ x ∈ l, key x = k ∧ y = f x := by
  obtain ⟨x, hx, rfl⟩ := mem_update.1 h
  split_ifs with hk
  · exact .inr ⟨x, hx, hk, rfl⟩
  · exact .inl ⟨hx, hk⟩

theorem mem_update_of_ne {k : κ} {f : α → α} {l : List α} {x : α} (hx : x ∈ l) (hk : key x ≠ k) :
    x ∈ update key k f l := mem_update.2 ⟨x, hx, by simp [hk]⟩

theorem mem_update_of_eq {k : κ} {f : α → α} {l : List α} {x : α} (hx : x ∈ l) (hk : key x = k) :
    f x ∈ update key k f l := mem_update.2 ⟨x, hx, by simp [hk]⟩

/-- A column that the change keeps has the values it had. -/
theorem map_update {β : Type} {col : α → β} {k : κ} {f : α → α} {l : List α}
    (h : ∀ x ∈ l, key x = k → col (f x) = col x) : (update key k f l).map col = l.map col := by
  simp only [update, List.map_map]
  refine List.map_congr_left fun x hx => ?_
  by_cases hk : key x = k
  · simp [hk, h x hx hk]
  · simp [hk]

/-- The row with the key after an update that keeps the key. -/
theorem row?_update_self {k : κ} {f : α → α} {l : List α} (h : ∀ x, key x = k → key (f x) = k) :
    row? key k (update key k f l) = (row? key k l).map f := by
  induction l with
  | nil => rfl
  | cons x xs ih =>
    by_cases hk : key x = k
    · simp [row?, update, hk, h x hk]
    · simpa [row?, update, hk] using ih

theorem row?_update_of_ne {k k' : κ} {f : α → α} {l : List α} (hk : k' ≠ k)
    (h : ∀ x, key x = k → key (f x) = k) : row? key k' (update key k f l) = row? key k' l := by
  induction l with
  | nil => rfl
  | cons x xs ih =>
    by_cases hx : key x = k
    · have h₁ : key (f x) ≠ k' := by rw [h x hx]; exact hk.symm
      have h₂ : key x ≠ k' := by rw [hx]; exact hk.symm
      simpa [row?, update, hx, h₁, h₂, hk.symm] using ih
    · by_cases hx' : key x = k'
      · simp [row?, update, hx', hk]
      · simpa [row?, update, hx, hx'] using ih

theorem row?_append {k : κ} {l : List α} {x : α} :
    row? key k (l ++ [x]) = (row? key k l).or (if key x = k then some x else none) := by
  simp only [row?, List.find?_append]
  by_cases hk : key x = k <;> simp [hk]

/-- The row with a key where every row has been changed and has kept its key. -/
theorem row?_map {k : κ} {f : α → α} {l : List α} (h : ∀ x, key (f x) = key x) :
    row? key k (l.map f) = (row? key k l).map f := by
  simp [row?, List.find?_map, Function.comp_def, h]

/-- With a unique key, one row at most has the key and another property. -/
theorem filter_key {k : κ} {p : α → Bool} {l : List α} (h : (l.map key).Nodup) :
    l.filter (fun x => key x = k && p x) = ((row? key k l).filter p).toList := by
  induction l with
  | nil => rfl
  | cons x xs ih =>
    simp only [List.map_cons, List.nodup_cons, List.mem_map, not_exists, not_and] at h
    by_cases hk : key x = k
    · have none_ : row? key k xs = none := row?_none.2 fun y hy hky => h.1 y hy (hky.trans hk.symm)
      have hfound : row? key k (x :: xs) = some x := by simp [row?, hk]
      rw [List.filter_cons, ih h.2, none_, hfound]
      cases hp : p x <;> simp [hk, hp, Option.filter]
    · have hskip : row? key k (x :: xs) = row? key k xs := by simp [row?, hk]
      rw [List.filter_cons, ih h.2, hskip, if_neg (by simp [hk])]

theorem filter_ne_of_not_mem {k : κ} {l : List α} (h : k ∉ l.map key) :
    l.filter (fun x => key x ≠ k) = l := by
  refine List.filter_eq_self.2 fun x hx => ?_
  have hne : key x ≠ k := fun he => h (he ▸ List.mem_map_of_mem hx)
  simpa using hne

/-- With a unique key, a table is one of its rows and the rows with other keys. -/
theorem perm_cons_filter {x : α} {l : List α} (h : (l.map key).Nodup) (hx : x ∈ l) :
    l.Perm (x :: l.filter fun y => key y ≠ key x) := by
  induction l with
  | nil => exact absurd hx List.not_mem_nil
  | cons y l ih =>
    rw [List.map_cons] at h
    obtain ⟨hy, hl⟩ := List.nodup_cons.1 h
    rcases List.mem_cons.1 hx with rfl | hx
    · rw [List.filter_cons_of_neg (by simp), filter_ne_of_not_mem hy]
    · have hne : key y ≠ key x := fun he => hy (he ▸ List.mem_map_of_mem hx)
      rw [List.filter_cons_of_pos (by simpa using hne)]
      exact ((ih hl hx).cons y).trans (.swap x y _)

/-- A property of pairs of rows that the change cannot break stays. -/
theorem pairwise_update {R : α → α → Prop} {k : κ} {f : α → α} {l : List α} (h : l.Pairwise R)
    (hf : ∀ x ∈ l, ∀ y ∈ l, R x y → R (if key x = k then f x else x)
      (if key y = k then f y else y)) : (update key k f l).Pairwise R :=
  List.pairwise_map.2 (h.imp_of_mem fun hx hy hr => hf _ hx _ hy hr)

/-! ## Rows that go on -/

section Onward

variable {R : α → α → Prop} {l l' l'' : List α}

/-- Every row that a key finds is found under the key later, as `R` lets it change. -/
def Onward (key : α → κ) (R : α → α → Prop) (l l' : List α) : Prop :=
  ∀ k x, row? key k l = some x → ∃ x', row? key k l' = some x' ∧ R x x'

theorem Onward.refl (hr : ∀ x, R x x) (l : List α) : Onward key R l l := fun _ x h => ⟨x, h, hr x⟩

theorem Onward.trans (hr : ∀ {x y z}, R x y → R y z → R x z) (h : Onward key R l l')
    (h' : Onward key R l' l'') : Onward key R l l'' := by
  intro k x hx
  obtain ⟨y, hy, hxy⟩ := h k x hx
  obtain ⟨z, hz, hyz⟩ := h' k y hy
  exact ⟨z, hz, hr hxy hyz⟩

theorem onward_append (hr : ∀ x, R x x) (l : List α) (x : α) : Onward key R l (l ++ [x]) := by
  intro k y hy
  exact ⟨y, by rw [row?_append, hy, Option.some_or], hr y⟩

theorem onward_update (hr : ∀ x, R x x) {k : κ} {f : α → α} (hk : ∀ x, key x = k → key (f x) = k)
    (hf : ∀ x, row? key k l = some x → R x (f x)) : Onward key R l (update key k f l) := by
  intro k' x hx
  by_cases h : k' = k
  · subst h
    exact ⟨f x, by rw [row?_update_self hk, hx, Option.map_some], hf x hx⟩
  · exact ⟨x, by rw [row?_update_of_ne h hk, hx], hr x⟩

end Onward

/-! ## Changes that events record -/

section Recorded

variable {ε : Type} {step : α → α → ε → Prop} {kind : ε → Prop} {l l' l'' : List α}
  {events events' : List ε}

/-- The rows of `l'` are those of `l`, each as it was or changed by a step that one of the events
records; and every event of the steps' kind records the change of a row. -/
def Recorded (step : α → α → ε → Prop) (kind : ε → Prop) (l l' : List α) (events : List ε) : Prop :=
  ∃ f, l' = l.map f ∧ (∀ x ∈ l, f x = x ∨ ∃ e ∈ events, step x (f x) e) ∧
    ∀ e ∈ events, kind e → ∃ x ∈ l, step x (f x) e

namespace Recorded

/-- Events of another kind record no change. -/
theorem other (h : ∀ e ∈ events, ¬ kind e) : Recorded step kind l l events :=
  ⟨id, l.map_id.symm, fun _ _ => .inl rfl, fun e he hk => absurd hk (h e he)⟩

/-- Where a row that has made its step makes no other, changes compose with their events. -/
theorem trans (once : ∀ {x y z e e'}, step x y e → ¬ step y z e')
    (h : Recorded step kind l l' events) (h' : Recorded step kind l' l'' events') :
    Recorded step kind l l'' (events ++ events') := by
  obtain ⟨f, rfl, hf, only⟩ := h
  obtain ⟨f', rfl, hf', only'⟩ := h'
  have still : ∀ x ∈ l, ∀ {y e}, step y (f x) e → f' (f x) = f x := fun x hx y e hs => by
    rcases hf' (f x) (List.mem_map_of_mem hx) with h | ⟨e', -, h⟩
    · exact h
    · exact absurd h (once hs)
  refine ⟨f' ∘ f, by simp, fun x hx => ?_, fun e he hk => ?_⟩
  · rcases hf x hx with h | ⟨e, he, hs⟩
    · rcases hf' (f x) (List.mem_map_of_mem hx) with h' | ⟨e', he', hs'⟩
      · exact .inl (h'.trans h)
      · refine .inr ⟨e', List.mem_append_right _ he', ?_⟩
        rw [Function.comp_apply]
        rwa [h] at hs' ⊢
    · refine .inr ⟨e, List.mem_append_left _ he, ?_⟩
      rwa [Function.comp_apply, still x hx hs]
  · rcases List.mem_append.1 he with he | he
    · obtain ⟨x, hx, hs⟩ := only e he hk
      refine ⟨x, hx, ?_⟩
      rwa [Function.comp_apply, still x hx hs]
    · obtain ⟨y, hy, hs⟩ := only' e he hk
      obtain ⟨x, hx, rfl⟩ := List.mem_map.1 hy
      rcases hf x hx with h | ⟨e', -, hs'⟩
      · refine ⟨x, hx, ?_⟩
        rw [Function.comp_apply]
        rwa [h] at hs ⊢
      · exact absurd hs (once hs')

/-- The change of one row, and the one event that records it. -/
theorem update {f : α → α} {x : α} {e : ε} (hn : (l.map key).Nodup) (hx : x ∈ l)
    (hs : step x (f x) e) : Recorded step kind l (update key (key x) f l) [e] := by
  refine ⟨fun y => if key y = key x then f y else y, rfl, fun y hy => ?_, fun e' he' _ => ?_⟩
  · by_cases hk : key y = key x
    · obtain rfl := List.inj_on_of_nodup_map hn hy hx hk
      exact .inr ⟨e, by simp, by simpa using hs⟩
    · exact .inl (if_neg hk)
  · obtain rfl := List.mem_singleton.1 he'
    exact ⟨x, hx, by simpa using hs⟩

end Recorded

end Recorded

end Table
