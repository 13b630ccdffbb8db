import CodemcpBridge.Db.RestartAudit
import CodemcpBridge.Properties.OneTime

/-!
# Recovery after a restart

Whatever run has left the store, and wherever it was cut, the recovery settles what was on its way
by permitted and recorded steps, and a second recovery has nothing to do.
-/

namespace CodemcpBridge

open Database (Sound inUse inUse_iff inFlight SessionStep OperationStep ApprovalStep recoveredState)

variable {db db' : Database} {st : Stamp}

/-! ## Session ids -/

/-- Every session has an id of its own. -/
theorem Stored.sessionIds (h : Stored db) :
    (db.sessions.map SessionRecord.sessionId).Nodup := by
  induction h with
  | empty => simp
  | @operation db db' st c a hdb hrun ih =>
    by_cases hc : c = .recoverAfterRestart
    · subst hc
      obtain ⟨⟨events, haudit⟩, -⟩ := hdb.sound.recoverAfterRestart_audited ih hrun
      obtain ⟨f, hf, hstep, -⟩ := haudit.sessions
      have hids : ∀ s ∈ db.sessions, (SessionRecord.sessionId ∘ f) s = s.sessionId := fun s hs => by
        rw [Function.comp_apply]
        rcases hstep s hs with h | ⟨e, -, h⟩
        · rw [h]
        · obtain ⟨now, h⟩ := h.left
          rw [h]
      rw [hf, List.map_map, List.map_congr_left hids]
      exact ih
    · rw [(OperationCall.run_sessions hrun hc).1.sessions]
      exact ih
  | @other db db' st c a hdb hrun ih =>
    cases c with
    | createSession s p w d =>
      obtain ⟨hnone, hsessions, -, ⟨now, now', hrow⟩, -⟩ := Database.createSession_ok hrun
      have hnew := Table.row?_none.1 hnone
      rw [hsessions, hrow]
      simpa [List.nodup_append, ih] using hnew
    | transitionSession s s' r =>
      obtain ⟨current, hfound, -, ⟨now, hrow⟩, hsessions, -⟩ := Database.transitionSession_ok hrun
      rw [hsessions, hrow, Table.map_update fun _ _ hid => ?_]
      · exact ih
      · exact (Table.row?_some hfound).2.trans hid.symm
    | _ =>
      rw [(StoreCall.run_sessions hrun (by simp) (by simp)).sessions]
      exact ih

/-! ## The recovery -/

/-- A blocked session comes from an active or a closing one. -/
theorem Database.SessionStep.edge {s s' : SessionRecord} {e : AuditEvent} (h : SessionStep s s' e) :
    s'.status ∈ sessionTransitions s.status := by
  obtain ⟨now, rfl⟩ := h.left
  rcases h.found with h | h <;> simp [h, sessionTransitions]

/-- The recovery settles an operation along its table. -/
theorem Database.OperationStep.edge {o o' : OperationRecord} {e : AuditEvent}
    (h : OperationStep o o' e) : o'.state ∈ operationTransitions o.state := by
  obtain ⟨now, rfl⟩ := h.left
  have hf := h.found
  show recoveredState o.mutation o.state ∈ operationTransitions o.state
  revert hf
  cases o.mutation <;> cases o.state <;> decide

theorem Database.terminal_iff {s : OperationState} :
    s ∈ terminalOperationStates ↔ inFlight s = false := by
  cases s <;> decide

/-- What a restart makes of the store `db`. -/
structure Restarted (db db' : Database) : Prop where
  /-- Nothing is left in use, on its way or pending. -/
  sessions : ∀ s ∈ db'.sessions, s.status ≠ .active ∧ s.status ≠ .closing
  operations : ∀ o ∈ db'.operations,
    o.state ∉ [.received, .validated, .awaitingApproval, .dispatched, .running]
  approvals : ∀ a ∈ db'.approvals, a.status ≠ .pending
  /-- Where each operation that was not settled has been sent. -/
  sent : ∀ o ∈ db.operations, o.state ∉ terminalOperationStates → ∃ o' ∈ db'.operations,
    o'.operationId = o.operationId ∧
    (o'.state = .unknown ↔ o.mutation = true ∧ (o.state = .dispatched ∨ o.state = .running)) ∧
    (o'.state = .cancelled ↔ o.state = .awaitingApproval) ∧
    (o'.state = .failed ↔ ¬(o.mutation = true ∧ (o.state = .dispatched ∨ o.state = .running)) ∧
      o.state ≠ .awaitingApproval)
  ids : db'.operations.map OperationRecord.operationId =
    db.operations.map OperationRecord.operationId
  /-- Every change is a permitted step that the audit log records. -/
  steps : ∃ events, db.AuditedBy db' events ∧
    (∀ s s' e, SessionStep s s' e → s'.status ∈ sessionTransitions s.status) ∧
    ∀ o o' e, OperationStep o o' e → o'.state ∈ operationTransitions o.state
  /-- What was settled stays as it was. -/
  settledSessions : ∀ s ∈ db.sessions, s.status ≠ .active → s.status ≠ .closing → s ∈ db'.sessions
  settledOperations : ∀ o ∈ db.operations, o.state ∈ terminalOperationStates → o ∈ db'.operations
  settledApprovals : ∀ a ∈ db.approvals, a.status ≠ .pending → a ∈ db'.approvals
  checkpoints : db'.checkpoints = db.checkpoints

theorem Stored.restarted (h : Stored db) (st : Stamp) : ∃ recovered db',
    db.recoverAfterRestart st = .ok (recovered, db') ∧ Restarted db db' := by
  obtain ⟨recovered, db', hrun, hrec⟩ := h.sound.recoverAfterRestart st
  obtain ⟨⟨events, haudit⟩, hused⟩ := h.sound.recoverAfterRestart_audited h.sessionIds hrun
  refine ⟨recovered, db', hrun, ?_⟩
  have sessions : ∀ s ∈ db'.sessions, s.status ≠ .active ∧ s.status ≠ .closing := fun s hs => by
    simpa [inUse] using hused s hs
  have flight : ∀ o ∈ db'.operations, inFlight o.state = false := fun o ho => by
    have h5 := hrec.rank ho
    rw [← Bool.not_eq_true, Database.inFlight_iff]
    omega
  obtain ⟨f, hf, hstep, -⟩ := haudit.operations
  refine ⟨sessions, fun o ho => by simpa [inFlight] using flight o ho, hrec.settled,
    fun o ho hopen => ?_, ?_, ⟨events, haudit, fun _ _ _ h => h.edge, fun _ _ _ h => h.edge⟩,
    fun s hs hactive hclosing => ?_, fun o ho hterminal => ?_, fun a ha hpending => ?_,
    haudit.checkpoints⟩
  · have hmem : f o ∈ db'.operations := hf ▸ List.mem_map_of_mem ho
    rcases hstep o ho with h | ⟨e, -, h⟩
    · have hout := flight _ hmem
      rw [h] at hout
      exact absurd (Database.terminal_iff.2 hout) hopen
    · obtain ⟨now, hleft⟩ := h.left
      refine ⟨f o, hmem, by rw [hleft], ?_⟩
      have hstate : (f o).state = recoveredState o.mutation o.state := by rw [hleft]
      rw [hstate]
      revert hopen
      cases o.mutation <;> cases o.state <;> decide
  · rw [hf, List.map_map]
    refine List.map_congr_left fun o ho => ?_
    rw [Function.comp_apply]
    rcases hstep o ho with h | ⟨e, -, h⟩
    · rw [h]
    · obtain ⟨now, h⟩ := h.left
      rw [h]
  · obtain ⟨g, hg, hsame, -⟩ := haudit.sessions
    rcases hsame s hs with h | ⟨e, -, h⟩
    · exact hg ▸ h ▸ List.mem_map_of_mem hs
    · rcases h.found with h | h
      · exact absurd h hactive
      · exact absurd h hclosing
  · rcases hstep o ho with h | ⟨e, -, h⟩
    · exact hf ▸ h ▸ List.mem_map_of_mem ho
    · exact absurd h.found (by simp [Database.terminal_iff.1 hterminal])
  · obtain ⟨g, hg, hsame, -⟩ := haudit.approvals
    rcases hsame a ha with h | ⟨e, -, h⟩
    · exact hg ▸ h ▸ List.mem_map_of_mem ha
    · exact absurd h.found hpending

/-- The recovery of every store that methods can leave settles what was on its way, and running it
again changes nothing.  The stores of every run are such stores, wherever the run is cut; and in
every run no body starts after a recovery that found its operation or an approval issued for it. -/
theorem restart_recovers :
    (∀ db, Stored db → ∀ st, ∃ recovered db', db.recoverAfterRestart st = .ok (recovered, db') ∧
      Restarted db db' ∧ ∀ st', db'.recoverAfterRestart st' = .ok ({}, db')) ∧
    ∀ settings d p, Reached settings d p → Stored p.world.db ∧
      ∀ newer e older, p.world.log = newer ++ e :: older → ∀ o, e.Enters o →
        ∀ e' ∈ older, e'.Recovers → e'.before.operation? o = none ∧
          e'.before.approval? o = none := by
  refine ⟨fun db hdb st => ?_, fun settings d p hp =>
    ⟨hp.stored, fun newer e older hlog o he e' he' hrec => ?_⟩⟩
  · obtain ⟨recovered, db', hrun, h⟩ := hdb.restarted st
    refine ⟨recovered, db', hrun, h, fun st' => Database.recoverAfterRestart_idle ?_ ?_ h.approvals⟩
    · intro s hs
      simpa [inUse] using h.sessions s hs
    · intro o ho
      simpa [inFlight] using h.operations o ho
  · have hnone := hp.not_entered_of_recovered hlog he he' hrec
    refine ⟨hnone, ?_⟩
    obtain ⟨old, older', rfl⟩ := List.append_of_mem he'
    have hok := @Reached.entry _ _ _ hp (newer ++ e :: old) older' e' (by simp [hlog])
    by_contra hne
    obtain ⟨a, ha⟩ := Option.ne_none_iff_exists'.1 hne
    obtain ⟨hmem, hid⟩ := Database.approval?_some ha
    obtain ⟨r, hr⟩ := hok.sound.1.operation_of_approval hmem
    rw [hid, hnone] at hr
    cases hr

end CodemcpBridge
