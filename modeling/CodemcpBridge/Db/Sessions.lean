import CodemcpBridge.Methods

/-!
# What the store methods do to sessions and checkpoints

A session is added by `create_session` and moved along its table by `transition_session`; the
recovery blocks those that are in use.  No other method touches the sessions or the record of who
opened them, and a checkpoint is touched by the three checkpoint methods only.
-/

namespace CodemcpBridge

namespace Database

variable {db db' db'' : Database} {st : Stamp}

/-! ## The parts of the store that a method leaves alone -/

/-- The events that record who opened a session. -/
def sessionEvents (db : Database) : List AuditEvent :=
  db.auditEvents.filter fun e => e.eventType == "auth.session.context"

/-- The sessions and the records of who opened them are the same. -/
structure SameSessions (db db' : Database) : Prop where
  sessions : db'.sessions = db.sessions
  sessionEvents : db'.sessionEvents = db.sessionEvents

namespace SameSessions

theorem refl (db : Database) : db.SameSessions db := ⟨rfl, rfl⟩

theorem trans (h : db.SameSessions db') (h' : db'.SameSessions db'') : db.SameSessions db'' :=
  ⟨h'.sessions.trans h.sessions, h'.sessionEvents.trans h.sessionEvents⟩

theorem session? (h : db.SameSessions db') (id : String) : db'.session? id = db.session? id := by
  rw [Database.session?, Database.session?, h.sessions]

end SameSessions

/-- The context that is read back for a session is one of the recorded ones. -/
theorem sessionAuthContext?_eq (db : Database) (id : String) : db.sessionAuthContext? id =
    ((orderBy (fun e : AuditEvent => (e.createdAt, e.eventId)) (db.sessionEvents.filter fun e =>
      e.sessionId == some id)).head?).map AuditEvent.details := by
  simp only [sessionAuthContext?, sessionEvents, List.filter_filter]

theorem SameSessions.sessionAuthContext? (h : db.SameSessions db') (id : String) :
    db'.sessionAuthContext? id = db.sessionAuthContext? id := by
  rw [sessionAuthContext?_eq, sessionAuthContext?_eq, h.sessionEvents]

section Audit

variable {o p s : Option String} {w e : String} {f t : Option String} {d : Dict}

@[simp] theorem audit_sessions : (db.audit st o p s w e f t d).sessions = db.sessions := rfl

@[simp] theorem audit_operations : (db.audit st o p s w e f t d).operations = db.operations := rfl

@[simp] theorem audit_approvals : (db.audit st o p s w e f t d).approvals = db.approvals := rfl

@[simp] theorem audit_checkpoints : (db.audit st o p s w e f t d).checkpoints = db.checkpoints :=
  rfl

theorem sameSessions_audit (h : e ≠ "auth.session.context") :
    db.SameSessions (db.audit st o p s w e f t d) := by
  refine ⟨rfl, ?_⟩
  simp [sessionEvents, audit, h]

theorem sessionEvents_audit : ∃ event : AuditEvent, event.sessionId = s ∧ event.details = d ∧
    (db.audit st o p s w "auth.session.context" f t d).sessionEvents =
      db.sessionEvents ++ [event] := by
  refine ⟨_, ?_, ?_, List.filter_append _ _⟩ <;> rfl

end Audit

theorem sameSessions_operations {operations : List OperationRecord} :
    db.SameSessions { db with operations } := ⟨rfl, rfl⟩

theorem sameSessions_approvals {approvals : List ApprovalRecord} :
    db.SameSessions { db with approvals } := ⟨rfl, rfl⟩

theorem sameSessions_checkpoints {checkpoints : List CheckpointRecord} :
    db.SameSessions { db with checkpoints } := ⟨rfl, rfl⟩

theorem sameSessions_updateOperation {id : String} {f : OperationRecord → OperationRecord}
    (h : db.updateOperation id f = .ok db') : db.SameSessions db' ∧
      db'.checkpoints = db.checkpoints := by
  rw [updateOperation_ok h]
  exact ⟨sameSessions_operations, rfl⟩

/-! ## The methods on sessions -/

/-- `create_session` adds an active session with a new id, and the record of who opened it. -/
theorem createSession_ok {s p w : String} {d : Option Dict} {row : SessionRecord}
    (h : db.createSession st s p w d = .ok (row, db')) :
    db.session? s = none ∧ db'.sessions = db.sessions ++ [row] ∧ db'.checkpoints = db.checkpoints ∧
      (∃ now now', row = { sessionId := s, projectId := p, ownerId := w, status := .active
                           createdAt := now, updatedAt := now' }) ∧
      ∃ events, db'.sessionEvents = db.sessionEvents ++ events ∧
        events.map (fun e => (e.sessionId, e.details)) = (d.map fun d => (some s, d)).toList := by
  simp only [createSession, insertSession, bind, Except.bind] at h
  split at h
  · cases h
  · rename_i db₁ hi
    split at hi
    · cases hi
    · rename_i hnone
      cases hi
      simp only [pure, Except.pure, Except.ok.injEq, Prod.mk.injEq] at h
      obtain ⟨rfl, rfl⟩ := h
      simp only [Bool.not_eq_true, Option.isSome_eq_false_iff, Option.isNone_iff_eq_none] at hnone
      have hold : ∀ x ∈ db.sessions, x.sessionId ≠ s := Table.row?_none.1 hnone
      have hupd : ∀ f : SessionRecord → SessionRecord,
          Table.update SessionRecord.sessionId s f db.sessions = db.sessions := fun f => by
        rw [Table.update, List.map_congr_left fun x hx => if_neg (hold x hx), List.map_id']
      refine ⟨hnone, ?_, ?_, ⟨_, _, rfl⟩, ?_⟩
      · have : ∀ f : SessionRecord → SessionRecord, ∀ x : SessionRecord, x.sessionId = s →
            Table.update SessionRecord.sessionId s f (db.sessions ++ [x]) =
              db.sessions ++ [f x] := fun f x hx => by
          have := hupd f
          simp only [Table.update, List.map_append, List.map_cons, List.map_nil,
            if_pos hx] at this ⊢
          rw [this]
        cases d <;> simp [updateSession, this]
      · cases d <;> rfl
      · cases d with
        | none => exact ⟨[], by simp [sessionEvents, audit, updateSession], rfl⟩
        | some d =>
          obtain ⟨e, hs, hd, he⟩ := @sessionEvents_audit _ _ _ _ _ _ _ _ _
          refine ⟨[e], he.trans ?_, by simp [hs, hd]⟩
          simp [sessionEvents, audit, updateSession]

/-- `transition_session` moves a session along its table. -/
theorem transitionSession_ok {s : String} {s' : SessionStatus} {r : Option String}
    {row : SessionRecord} (h : db.transitionSession st s s' r = .ok (row, db')) :
    ∃ current, db.session? s = some current ∧
      (s' = current.status ∨ s' ∈ sessionTransitions current.status) ∧
      (∃ now, row = { current with
        status := s', updatedAt := now
        closedAt := if s' = .closed ∨ s' = .blocked then some now else current.closedAt
        reason := r }) ∧
      db'.sessions = Table.update SessionRecord.sessionId s (fun _ => row) db.sessions ∧
      db'.sessionEvents = db.sessionEvents ∧ db'.checkpoints = db.checkpoints := by
  unfold transitionSession at h
  split at h
  · cases h
  · rename_i current hc
    split at h
    · cases h
    · rename_i hmove
      simp only [Except.ok.injEq, Prod.mk.injEq] at h
      obtain ⟨rfl, rfl⟩ := h
      refine ⟨current, hc, by tauto, ⟨_, rfl⟩, ?_⟩
      split
      · exact ⟨rfl, (sameSessions_audit (by decide)).sessionEvents, rfl⟩
      · exact ⟨rfl, rfl, rfl⟩

/-! ## The other methods -/

theorem createCheckpoint_sessions {c p : String} {s o : Option String} {w : String}
    {k : CheckpointKind} {b n r : String} {j : Json} {row : CheckpointRecord}
    (h : db.createCheckpoint st c p s o w k b n r j = .ok (row, db')) : db.SameSessions db' := by
  simp only [createCheckpoint, insertCheckpoint, bind, Except.bind] at h
  split at h
  · cases h
  · rename_i db₁ hi
    split at hi
    · cases hi
    · cases hi
      simp only [pure, Except.pure, Except.ok.injEq, Prod.mk.injEq] at h
      obtain ⟨-, rfl⟩ := h
      exact sameSessions_checkpoints.trans (sameSessions_audit (by decide))

theorem finalizeCheckpoint_sessions {c : String} {d : Dict} {j : Json} {row : CheckpointRecord}
    (h : db.finalizeCheckpoint st c d j = .ok (row, db')) : db.SameSessions db' := by
  unfold finalizeCheckpoint at h
  split at h
  · cases h
  · simp only [Except.ok.injEq, Prod.mk.injEq] at h
    obtain ⟨-, rfl⟩ := h
    exact sameSessions_checkpoints.trans (sameSessions_audit (by decide))

theorem markCheckpointRestored_sessions {c : String} {row : CheckpointRecord}
    (h : db.markCheckpointRestored st c = .ok (row, db')) : db.SameSessions db' := by
  unfold markCheckpointRestored at h
  split at h
  · cases h
  · simp only [Except.ok.injEq, Prod.mk.injEq] at h
    obtain ⟨-, rfl⟩ := h
    exact sameSessions_checkpoints.trans (sameSessions_audit (by decide))

end Database

open Database (SameSessions)

variable {db db' : Database} {st : Stamp}

/-- Of the methods of `StoreCall` only the two on sessions touch them. -/
theorem StoreCall.run_sessions {c : StoreCall} {a : c.Result} (h : c.run db st = .ok (a, db'))
    (hcreate : ∀ s p w d, c ≠ .createSession s p w d)
    (hmove : ∀ s s' r, c ≠ .transitionSession s s' r) : db.SameSessions db' := by
  have read : ∀ {x : c.Result}, Except.ok (x, db) = (.ok (a, db') : Except Exn _) →
      db.SameSessions db' := fun h => by
    cases h
    exact .refl db
  cases c with
  | createSession s p w d => exact absurd rfl (hcreate s p w d)
  | transitionSession s s' r => exact absurd rfl (hmove s s' r)
  | createCheckpoint c p s o w k b n r d => exact Database.createCheckpoint_sessions h
  | finalizeCheckpoint c d j => exact Database.finalizeCheckpoint_sessions h
  | markCheckpointRestored c => exact Database.markCheckpointRestored_sessions h
  | _ => exact read h

/-- Methods on operations leave sessions and checkpoints alone, unless they recover. -/
theorem OperationCall.run_sessions {c : OperationCall} {a : c.Result}
    (h : c.run db st = .ok (a, db')) (hc : c ≠ .recoverAfterRestart) :
    db.SameSessions db' ∧ db'.checkpoints = db.checkpoints := by
  cases c with
  | create o p s w k n m i =>
    simp only [run, Database.createOperation] at h
    split at h
    · cases h
      exact ⟨.refl _, rfl⟩
    · split at h
      · cases h
      · simp only [Database.insertOperation, bind, Except.bind] at h
        split at h
        · cases h
        · rename_i db₁ hi
          split at hi <;> cases hi
          cases h
          exact ⟨Database.sameSessions_operations.trans
            (Database.sameSessions_audit (by decide)), rfl⟩
  | transition o s' s r x =>
    simp only [run, Database.transitionOperation] at h
    split at h
    · cases h
    · split at h
      · cases h
      · split at h
        · cases h
        · simp only [bind, Except.bind] at h
          split at h
          · cases h
          · rename_i db₁ hu
            obtain ⟨hsame, hcheck⟩ := Database.sameSessions_updateOperation hu
            cases h
            split
            · exact ⟨hsame.trans (Database.sameSessions_audit (by decide)), hcheck⟩
            · exact ⟨hsame, hcheck⟩
  | recordAuthContext o d =>
    obtain ⟨r, -, rfl⟩ := Database.recordOperationAuthContext_ok (ok_of_map h)
    exact ⟨Database.sameSessions_audit (by decide), rfl⟩
  | createApproval i o n k e =>
    have h := ok_of_map h
    simp only [Database.createApproval, Database.insertApproval, bind, Except.bind] at h
    split at h
    · cases h
    · rename_i db₁ hi
      split at hi <;> cases hi
      cases h
      exact ⟨Database.sameSessions_approvals.trans (Database.sameSessions_audit (by decide)), rfl⟩
  | consumeApproval o k now =>
    simp only [run, Database.consumeApproval] at h
    split at h
    · split_ifs at h
      cases h
      exact ⟨Database.sameSessions_approvals.trans (Database.sameSessions_audit (by decide)), rfl⟩
    · cases h
  | cancelApproval o r =>
    have h := ok_of_map h
    simp only [Database.cancelApproval] at h
    split at h
    · cases h
      exact ⟨Database.sameSessions_approvals.trans (Database.sameSessions_audit (by decide)), rfl⟩
    · cases h
  | recoverAfterRestart => exact absurd rfl hc

end CodemcpBridge
