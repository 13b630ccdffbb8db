import Mathlib.Data.List.Basic

/-!
# Trails

A log of steps, each from one state to another.  A log leads from a first state to a last one when
every step begins where the one before it ended and goes along an edge.
-/

namespace Trail

variable {σ : Type} {edge : σ → σ → Prop}

/-- The steps lead from one state to another, each along an edge. -/
def Leads (edge : σ → σ → Prop) : σ → List (σ × σ) → σ → Prop
  | s, [], s' => s' = s
  | s, step :: steps, s' => step.1 = s ∧ edge step.1 step.2 ∧ Leads edge step.2 steps s'

theorem leads_nil (s : σ) : Leads edge s [] s := rfl

theorem leads_single {s s' : σ} (h : edge s s') : Leads edge s [(s, s')] s' := ⟨rfl, h, rfl⟩

theorem Leads.append {steps steps' : List (σ × σ)} {s s' s'' : σ} (h : Leads edge s steps s')
    (h' : Leads edge s' steps' s'') : Leads edge s (steps ++ steps') s'' := by
  induction steps generalizing s with
  | nil =>
    obtain rfl : s' = s := h
    exact h'
  | cons step steps ih => exact ⟨h.1, h.2.1, ih h.2.2⟩

/-- A state without an edge out of it is left by no log. -/
theorem Leads.stuck {steps : List (σ × σ)} {s s' : σ} (h : Leads edge s steps s')
    (hs : ∀ t, ¬ edge s t) : steps = [] ∧ s' = s := by
  cases steps with
  | nil => exact ⟨rfl, h⟩
  | cons step steps =>
    obtain ⟨rfl, hedge, -⟩ := h
    exact absurd hedge (hs _)

end Trail
