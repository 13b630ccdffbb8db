import CodemcpBridge.Db.Restart
import CodemcpBridge.Requests

/-!
# Every store method at once

What holds of the store whichever methods run and in whichever order: it stays sound, it only moves
forward, and a method of `StoreCall` leaves operations and approvals as they are.
-/

namespace CodemcpBridge

open Database (Sound Later SameOperations)

variable {db db' : Database} {st : Stamp}

/-- The methods of `StoreCall` leave the operations and approvals alone. -/
theorem StoreCall.run_same {c : StoreCall} {a : c.Result} (h : c.run db st = .ok (a, db')) :
    db.SameOperations db' := by
  have read : ∀ {x : c.Result}, Except.ok (x, db) = (.ok (a, db') : Except Exn _) →
      db.SameOperations db' := fun h => by
    cases h
    exact .refl db
  cases c with
  | createSession s p o d => exact Database.createSession_same h
  | transitionSession s s' r => exact Database.transitionSession_same h
  | createCheckpoint c p s o w k b h' r d => exact Database.createCheckpoint_same h
  | finalizeCheckpoint c d j => exact Database.finalizeCheckpoint_same h
  | markCheckpointRestored c => exact Database.markCheckpointRestored_same h
  | _ => exact read h

/-- A method without a result has succeeded. -/
theorem ok_of_map {x : Except Exn Database} (h : (x.map fun db => ((), db)) = .ok ((), db')) :
    x = .ok db' := by
  cases x with
  | error e => cases h
  | ok d =>
    cases h
    rfl

/-- What is recorded of who created an operation changes no row. -/
theorem sameRows_recordAuthContext {id : String} {d : Dict}
    (h : db.recordOperationAuthContext st id d = .ok db') :
    db'.operations = db.operations ∧ db'.approvals = db.approvals := by
  obtain ⟨o, -, rfl⟩ := Database.recordOperationAuthContext_ok h
  exact ⟨rfl, rfl⟩

/-- A new approval of an operation that had none. -/
theorem Database.Sound.createApproval (hs : db.Sound) {id : String} {o : OperationRecord}
    {n : String} {k : TokenHash} {e : ℕ} (h : db.createApproval st id o n k e = .ok db') :
    db'.Sound ∧ db.Later db' := by
  obtain ⟨a, hid, hop, -, -, -, hsome, hnew, hsame⟩ := Database.createApproval_ok h
  constructor
  · suffices added : Sound { db with approvals := db.approvals ++ [a] } from added.same hsame
    refine ⟨hs.ids, hs.slots, hs.active, ?_, ?_, fun b hb => ?_⟩
    · simpa [List.nodup_append, hs.approvalIds, hid] using fun b hb => (hnew b hb).1
    · simpa [List.nodup_append, hs.approvalOps, hop] using fun b hb => (hnew b hb).2.1
    · rcases List.mem_append.1 hb with hb | hb
      · exact hs.known b hb
      · obtain ⟨r, hr⟩ := Option.isSome_iff_exists.1 hsome
        have hr := Database.operation?_some hr
        rw [List.mem_singleton.1 hb, hop, ← hr.2]
        exact List.mem_map_of_mem hr.1
  · have added : db.Later { db with approvals := db.approvals ++ [a] } :=
      ⟨fun o ho => ⟨o, ho, .refl o⟩, fun b hb => ⟨b, List.mem_append_left _ hb, .refl b⟩⟩
    exact added.trans hsame.later

/-- Every method keeps a store sound and takes it forward. -/
theorem OperationCall.run_sound (hs : db.Sound) {c : OperationCall} {a : c.Result}
    (h : c.run db st = .ok (a, db')) : db'.Sound ∧ db.Later db' := by
  cases c with
  | create o p s w k n m i =>
    obtain ⟨row, existing⟩ := a
    rcases Database.createOperation_ok h with ⟨-, rfl, -⟩ | ⟨-, -, hc⟩
    · exact ⟨hs, .refl db'⟩
    · exact ⟨hc.sound hs, hc.later⟩
  | transition o s e r d =>
    obtain ⟨current, -, -, -, -, hm⟩ := Database.transitionOperation_ok h
    exact ⟨hm.sound hs, hm.later hs⟩
  | recordAuthContext o d =>
    obtain ⟨ho, ha⟩ := sameRows_recordAuthContext (ok_of_map h)
    refine ⟨⟨?_, ?_, ?_, ?_, ?_, ?_⟩, ?_, ?_⟩
    · exact ho ▸ hs.ids
    · exact ho ▸ hs.slots
    · exact ho ▸ hs.active
    · exact ha ▸ hs.approvalIds
    · exact ha ▸ hs.approvalOps
    · exact ho ▸ ha ▸ hs.known
    · exact fun o h' => ⟨o, ho ▸ h', .refl o⟩
    · exact fun a h' => ⟨a, ha ▸ h', .refl a⟩
  | createApproval a o n t e => exact hs.createApproval (ok_of_map h)
  | consumeApproval o t n =>
    obtain ⟨a, a', -, -, -, -, -, hset⟩ := Database.consumeApproval_ok hs h
    exact ⟨hset.sound hs, hset.later hs⟩
  | cancelApproval o r =>
    obtain ⟨a, a', -, -, hset⟩ := Database.cancelApproval_ok hs (ok_of_map h)
    exact ⟨hset.sound hs, hset.later hs⟩
  | recoverAfterRestart =>
    obtain ⟨r, db₁, hr, hrec⟩ := hs.recoverAfterRestart st
    have : db₁ = db' := by
      have := hr.symm.trans h
      simp only [Except.ok.injEq, Prod.mk.injEq] at this
      exact this.2
    exact this ▸ ⟨hrec.sound hs, hrec.later⟩

end CodemcpBridge
