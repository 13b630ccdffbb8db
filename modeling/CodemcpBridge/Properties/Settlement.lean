import CodemcpBridge.Properties.Runs

/-!
# Calls settle their operations

What a call has created or taken into execution is settled when the call ends, or waits with a
pending approval, unless an exception has left the code through one of the exits that settle
nothing: out of an approval check when it is no `BridgeError`, out of the body of an operation that
is no mutation or of an approved operation when it is a cancellation, or out of `start` when the
identity of a new operation cannot be read.  A call takes such an exit in the turn that an answer of
its surroundings begins, so a run without these exits is one in which the surroundings give no such
answer.
-/

namespace CodemcpBridge

open Async (Machine)

/-- Whichever step ends a call, the call has settled what it is responsible for. -/
def SettlesAtEnd (settings : PolicySettings) (d : Discretion) : Prop :=
  ∀ p p' t c r, Reached settings d p → Machine.Step (bridge settings d) p p' →
    (t, c, r) ∈ p'.ended → (t, c, r) ∉ p.ended →
      Settles t (∃ e, r = .error e ∧ e = .cancelled) p'.world

/-- The operation is there and neither settled nor waiting. -/
def leftOpen (w : World) (o : String) : Bool :=
  (w.db.operation? o).any fun r => r.state.rank ≤ 4 && r.state != .awaitingApproval

theorem not_settled_of_leftOpen {w : World} {o : String} (h : leftOpen w o = true) :
    ¬ w.isSettled o := by
  simp only [leftOpen, Option.any_eq_true, Bool.and_eq_true, decide_eq_true_eq, bne_iff_ne] at h
  obtain ⟨r, hr, h4, hne⟩ := h
  rintro ⟨r', hr', h5 | ⟨hst, -⟩⟩ <;> cases hr.symm.trans hr'
  · omega
  · exact hne hst

/-- The task has taken the operation into execution. -/
def dispatchedBy (t : ℕ) (o : String) (log : List Entry) : Bool :=
  log.any fun e => e.task == t && match e.event with
    | .done (.transition o' .dispatched ..) => o' == o
    | _ => false

theorem dispatches_of_dispatchedBy {t : ℕ} {o : String} {log : List Entry}
    (h : dispatchedBy t o log = true) : ∃ e ∈ log, e.task = t ∧ e.Dispatches o := by
  simp only [dispatchedBy, List.any_eq_true, Bool.and_eq_true, beq_iff_eq] at h
  obtain ⟨e, he, ht, hd⟩ := h
  split at hd
  · rename_i o' x r x' hev
    cases beq_iff_eq.1 hd
    exact ⟨e, he, ht, .dispatched, x, r, x', hev, .inl rfl⟩
  · cases hd

theorem touched_of_dispatchedBy {w : World} {t : ℕ} {o : String}
    (h : dispatchedBy t o w.log = true) : w.touched t o := by
  obtain ⟨e, he, ht, hd⟩ := dispatches_of_dispatchedBy h
  exact ⟨e, he, ht, .inr hd⟩

end CodemcpBridge
