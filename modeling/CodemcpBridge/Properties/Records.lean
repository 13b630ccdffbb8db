import CodemcpBridge.Properties.OneTime
import CodemcpBridge.Properties.Settled
import Mathlib.Logic.Relation

/-!
# The records over whole runs

What the rows of a store have to do with each other, in every store that a run reaches; and what any
later store of the same run keeps of an earlier one, whatever calls, crashes and restarts lie in
between.
-/

namespace CodemcpBridge

open Async.Machine (Step)
open Relation (ReflTransGen)

variable {settings : PolicySettings} {d : Discretion} {p p' : BridgePool}

/-! ## One store -/

/-- The rows of a store fit together. -/
structure Database.Coherent (db : Database) : Prop where
  /-- The stored hash of a request is the hash of the stored input. -/
  hashed : ∀ r ∈ db.operations, r.requestHash = requestHash (.obj r.input)
  /-- An approval has its operation, which waits while the approval is pending. -/
  approved : ∀ a ∈ db.approvals, ∃ r, db.operation? a.operationId = some r ∧
    (a.status = .pending → r.state = .validated ∨ r.state = .awaitingApproval)
  /-- Who is on record as the creator of an operation has the namespace of its key. -/
  created : ∀ r ∈ db.operations, ∀ details, db.operationAuthContext? r.operationId = some details →
    ∃ c : AuthContext, details = authAuditDetails c ∧
      r.replayKey.namespace_ = some c.replayNamespace

theorem Rows.coherent {db : Database} (h : Rows db) : db.Coherent where
  hashed := h.hashed
  approved a ha := by
    obtain ⟨r, hr⟩ := h.sound.operation_of_approval ha
    exact ⟨r, hr, fun hp => h.pending a ha hp r hr⟩
  created r hr details hd := h.operationAuthContext? hr hd

/-- **The rows of every store that a run reaches fit together.** -/
theorem records_coherent (settings : PolicySettings) (d : Discretion) {p}
    (h : Reached settings d p) : p.world.db.Coherent :=
  h.inv.rows.coherent

/-! ## Two stores of one run -/

/-- What the store of a run keeps, wherever the run goes on to. -/
structure Database.Continues (db db' : Database) : Prop where
  /-- Operations stay, keep what they were created with and move forward. -/
  operations : ∀ o r, db.operation? o = some r → ∃ r', db'.operation? o = some r' ∧ r.Becomes r'
  /-- An operation that has ended for good keeps its state. -/
  final : ∀ o r, db.operation? o = some r → r.state.isFinal = true →
    ∃ r', db'.operation? o = some r' ∧ r'.state = r.state
  /-- Approvals stay, and no longer change once they are not pending. -/
  approvals : ∀ o a, db.approval? o = some a → ∃ a', db'.approval? o = some a' ∧ a.Becomes a'
  /-- Sessions stay, with their project, their owner and who opened them, and do not come back. -/
  sessions : ∀ s r, db.session? s = some r → ∃ r', db'.session? s = some r' ∧ r.Onward r' ∧
    db'.sessionAuthContext? s = db.sessionAuthContext? s
  /-- Checkpoints stay, with their head, their branch and their ref. -/
  checkpoints : ∀ c r, Table.row? CheckpointRecord.checkpointId c db.checkpoints = some r →
    ∃ r', Table.row? CheckpointRecord.checkpointId c db'.checkpoints = some r' ∧ r.Onward r'
  /-- The audit log has grown by events that lead from each earlier state to the later one. -/
  accounts : db.Accounts db'

theorem Written.accounts {db db' : Database} (hs : Stored db) (h : Written db db') :
    db.Accounts db' := by
  induction h with
  | refl => exact .refl db
  | operation hw hrun ih => exact ih.trans (OperationCall.run_accounts (hs.written hw) hrun)
  | other _ hrun ih => exact ih.trans (StoreCall.run_accounts hrun)

/-- No event leads on from a final state. -/
theorem Database.Accounts.final {db db' : Database} (h : db.Accounts db') {o : String}
    {r r' : OperationRecord} (hr : db.operation? o = some r) (hr' : db'.operation? o = some r')
    (hf : r.state.isFinal = true) : r'.state = r.state := by
  obtain ⟨events, -, hleads⟩ := h
  have hstep := hleads (.operation o)
  simp only [Database.stateOf, hr, hr', Option.map_some] at hstep
  obtain ⟨-, hlast⟩ := hstep.stuck (not_edge_of_isFinal hf)
  exact OperationState.text_injective (Option.some.inj hlast)

theorem Written.continues {db db' : Database} (hs : Stored db) (h : Written db db') :
    db.Continues db' := by
  obtain ⟨hsound, hlater⟩ := h.sound hs.sound
  have hon := h.onward
  refine ⟨fun o r hr => hlater.operation? hsound hr, fun o r hr hf => ?_,
    fun o a ha => hlater.approval? hsound ha, fun s r hr => ?_, hon.checkpoints, h.accounts hs⟩
  · obtain ⟨r', hr', -⟩ := hlater.operation? hsound hr
    exact ⟨r', hr', (h.accounts hs).final hr hr' hf⟩
  · obtain ⟨r', hr', hr''⟩ := hon.sessions s r hr
    exact ⟨r', hr', hr'', hon.sessionAuthContext? hr⟩

/-- A step leaves a store that methods have made of the one before. -/
theorem written_step (h : Step (bridge settings d) p p') : Written p.world.db p'.world.db :=
  h.always (I := fun w => Written p.world.db w.db) (fun hw he => hw.trans (written_exec he))
    (fun hw ha => hw.trans (written_arrive ha)) (fun hw hl => hw.trans (written_crash hl))
    (fun hw hl => hw.trans (written_quit hl)) .refl

theorem written_steps (h : ReflTransGen (Step (bridge settings d)) p p') :
    Written p.world.db p'.world.db := by
  induction h with
  | refl => exact .refl
  | tail _ hs ih => exact ih.trans (written_step hs)

/-- **No run goes back on its records**: whatever is called, crashes, ends and starts again between
two moments of a run, the later store continues the earlier one. -/
theorem records_continue (settings : PolicySettings) (d : Discretion) {p p'}
    (h : Reached settings d p) (hs : ReflTransGen (Step (bridge settings d)) p p') :
    p.world.db.Continues p'.world.db :=
  (written_steps hs).continues h.stored

/-- The approval of `o` has the status. -/
def Database.approvalIs (db : Database) (o : String) (status : ApprovalStatus) : Bool :=
  (db.approval? o).any fun a => a.status == status

theorem records_coherent_confirmed : ∃ p, Reached {} {} p ∧
    p.world.db.approvalIs (drawnId 20 4) .consumed = true ∧ p.world.db.Coherent := by
  have check : (played {} {} confirmedRun).any
      (fun p => p.world.db.approvalIs (drawnId 20 4) .consumed) = true := by
    decide +kernel
  obtain ⟨p, hp, hc⟩ := reached_of_played check
  exact ⟨p, hp, hc, records_coherent {} {} hp⟩

/-- The run before its approval is confirmed, and the confirming call. -/
theorem records_continue_confirmed : ∃ p p' : BridgePool, Reached {} {} p ∧
    p.world.db.approvalIs (drawnId 20 4) .pending = true ∧
    p'.world.db.approvalIs (drawnId 20 4) .consumed = true ∧
    p.world.db.Continues p'.world.db := by
  have check : (played {} {} confirmedRun.dropLast).any (fun p =>
      (p.play (bridge {} {}) (arrives none 3 30 {} (.approvalConfirm (drawnId 20 4)
        (openedSession 10) (drawnId 20 18) (keyFor "confirm" [("operation_id", .str (drawnId 20 4)),
          ("approval_token_digest", textDigest (drawnId 20 18))])))).any fun p' =>
        p.world.db.approvalIs (drawnId 20 4) .pending &&
          p'.world.db.approvalIs (drawnId 20 4) .consumed) = true := by
    decide +kernel
  obtain ⟨p, p', hp, hs, hc⟩ := step_of_played check
  obtain ⟨hbefore, hafter⟩ := Bool.and_eq_true_iff.1 hc
  exact ⟨p, p', hp, hbefore, hafter, records_continue {} {} hp (.single hs)⟩

end CodemcpBridge
