import CodemcpBridge.Db.Accounts
import CodemcpBridge.Properties.Calls

/-!
# The audit log

The log is a complete account of the states of sessions, operations and approvals.  It is read back
by its timestamps, with the random id of an event where two timestamps are equal, so it comes back
in the order of its events exactly where no two events of one millisecond have their ids the other
way round.
-/

namespace CodemcpBridge

open Database (Accounts)

/-! ## Every change of a state is recorded -/

theorem OperationCall.run_accounts {db db' : Database} {st : Stamp} (h : Stored db)
    {c : OperationCall} {a : c.Result} (hrun : c.run db st = .ok (a, db')) : db.Accounts db' := by
  cases c with
  | create o p s w k n kind m i => exact Database.createOperation_accounts hrun
  | transition o s e r x => exact Database.transitionOperation_accounts hrun
  | recordAuthContext o d =>
    obtain ⟨r, -, rfl⟩ := Database.recordOperationAuthContext_ok (ok_of_map hrun)
    exact Database.accounts_audit (by decide)
  | createApproval i o n k e => exact Database.createApproval_accounts (ok_of_map hrun)
  | consumeApproval o k now => exact Database.consumeApproval_accounts hrun
  | cancelApproval o r => exact Database.cancelApproval_accounts h.sound (ok_of_map hrun)
  | recoverAfterRestart => exact h.sound.recoverAfterRestart_accounts h.sessionIds hrun

theorem StoreCall.run_accounts {db db' : Database} {st : Stamp} {c : StoreCall} {a : c.Result}
    (hrun : c.run db st = .ok (a, db')) : db.Accounts db' := by
  have read : ∀ {x : c.Result}, Except.ok (x, db) = (.ok (a, db') : Except Exn _) →
      db.Accounts db' := fun h => by
    cases h
    exact .refl db
  cases c with
  | createSession s p w d => exact Database.createSession_accounts hrun
  | transitionSession s s' r => exact Database.transitionSession_accounts hrun
  | createCheckpoint c p s o w k b n r d => exact Database.createCheckpoint_accounts hrun
  | finalizeCheckpoint c d j => exact Database.finalizeCheckpoint_accounts hrun
  | markCheckpointRestored c => exact Database.markCheckpointRestored_accounts hrun
  | _ => exact read hrun

theorem Database.accounts_after {db : Database} (h : Stored db) (st : Stamp) (m : StoreMethod) :
    db.Accounts (db.after st m) := by
  rcases Database.after_cases db st m with hsame | ⟨c, a, -, hrun⟩ | ⟨c, a, -, hrun⟩
  · rw [hsame]
    exact .refl db
  · exact OperationCall.run_accounts h hrun
  · exact StoreCall.run_accounts hrun

theorem Database.accounts_afterAll {db : Database} (h : Stored db)
    (calls : List (Stamp × StoreMethod)) : db.Accounts (db.afterAll calls) := by
  induction calls generalizing db with
  | nil => exact .refl db
  | cons call calls ih =>
    exact (accounts_after h call.1 call.2).trans (ih (h.written (written_after db call.1 call.2)))

/-- The events of a subject lead from its creation to its stored state. -/
theorem Database.leads_ofCalls (calls : List (Stamp × StoreMethod)) (x : Subject) :
    Trail.Leads x.edge none (x.steps (ofCalls calls).auditEvents) ((ofCalls calls).stateOf x) := by
  obtain ⟨events, hlog, hleads⟩ := accounts_afterAll .empty calls
  have hempty : ({} : Database).stateOf x = none := by cases x <;> rfl
  rw [ofCalls, hlog]
  exact hempty ▸ hleads x

/-- **The audit log is a complete account.**  After any calls the events of a subject lead from its
creation to its stored state along the tables; a call that raises leaves the store, and the log, as
they were, and every other call writes the events that lead from each state before it to the state
after it. -/
theorem audit_accounts (calls : List (Stamp × StoreMethod)) :
    (∀ x : Subject, Trail.Leads x.edge none (x.steps (Database.ofCalls calls).auditEvents)
      ((Database.ofCalls calls).stateOf x)) ∧
    ∀ st m, (∀ e, m.run (Database.ofCalls calls) st = .error e →
        (Database.ofCalls calls).after st m = Database.ofCalls calls) ∧
      (Database.ofCalls calls).Accounts ((Database.ofCalls calls).after st m) := by
  refine ⟨Database.leads_ofCalls calls, fun st m => ⟨fun e he => ?_, ?_⟩⟩
  · exact Database.after_of_error he
  · exact Database.accounts_after (Database.stored_ofCalls calls) st m

/-! ## The order in which the log is read -/

namespace Database

/-- The events of an operation, or all, in the order in which they were written. -/
def insertedEvents (db : Database) (operationId : Option String) : List AuditEvent :=
  db.auditEvents.filter fun e => operationId.all fun o => e.operationId == some o

/-- `list_audit_events`, of one operation or of all. -/
def selectAuditEvents (db : Database) : Option String → List AuditEvent
  | some o => db.listAuditEvents o
  | none => orderBy (fun e => (e.createdAt, e.eventId)) db.auditEvents

/-- The clock has not gone back between one event and a later one. -/
def Clocked (db : Database) : Prop :=
  db.auditEvents.Pairwise fun e e' => e.createdAt ≤ e'.createdAt

variable {db : Database}

theorem selectAuditEvents_eq (db : Database) (operationId : Option String) :
    db.selectAuditEvents operationId =
      orderBy (fun e => (e.createdAt, e.eventId)) (db.insertedEvents operationId) := by
  cases operationId with
  | none => simp [selectAuditEvents, insertedEvents]
  | some o => rfl

end Database

/-- Of two events of one millisecond the one that was written first has the smaller id. -/
def TiesInOrder (events : List AuditEvent) : Prop :=
  events.Pairwise fun e e' => e.createdAt = e'.createdAt → Text.le e.eventId e'.eventId = true

/-- With a clock that does not go back only the ties decide. -/
theorem ordered_iff_ties {events : List AuditEvent}
    (hclock : events.Pairwise fun e e' => e.createdAt ≤ e'.createdAt) :
    Ordered (fun e : AuditEvent => (e.createdAt, e.eventId)) events ↔ TiesInOrder events := by
  unfold Ordered TiesInOrder
  constructor
  · intro h
    refine h.imp fun hle heq => ?_
    simp only [timeIdLe, Bool.or_eq_true, Bool.and_eq_true, decide_eq_true_eq, beq_iff_eq] at hle
    rcases hle with hlt | ⟨-, hid⟩
    · omega
    · exact hid
  · intro h
    refine (hclock.and h).imp fun hboth => ?_
    obtain ⟨hle, htie⟩ := hboth
    simp only [timeIdLe, Bool.or_eq_true, Bool.and_eq_true, decide_eq_true_eq, beq_iff_eq]
    rcases Nat.lt_or_eq_of_le hle with hlt | heq
    · exact .inl hlt
    · exact .inr ⟨heq, htie heq⟩

/-- The steps of an operation are among the events that are read back for it. -/
theorem steps_inserted (db : Database) (o : String) :
    (Subject.operation o).steps (db.insertedEvents (some o)) =
      (Subject.operation o).steps db.auditEvents := by
  have hof : ∀ e, (Subject.operation o).isOf e = true → e.operationId = some o := fun e he =>
    beq_iff_eq.1 (Bool.and_eq_true_iff.1 he).2
  unfold Subject.steps Database.insertedEvents
  rw [List.filter_filter]
  congr 1
  refine List.filter_congr fun e _ => ?_
  cases he : (Subject.operation o).isOf e with
  | false => rfl
  | true => simp [hof e he]

/-- With a clock that does not go back **the log is read back in the order of its events** exactly
where the events of one millisecond have their ids in that order; the states of an operation are
then read as a path of its table. -/
theorem audit_read_in_order (calls : List (Stamp × StoreMethod))
    (hclock : (Database.ofCalls calls).Clocked) (operationId : Option String) :
    ((Database.ofCalls calls).selectAuditEvents operationId =
        (Database.ofCalls calls).insertedEvents operationId ↔
      TiesInOrder ((Database.ofCalls calls).insertedEvents operationId)) ∧
    ∀ o, operationId = some o →
      TiesInOrder ((Database.ofCalls calls).insertedEvents operationId) →
      Trail.Leads (Subject.operation o).edge none
        ((Subject.operation o).steps ((Database.ofCalls calls).selectAuditEvents operationId))
        ((Database.ofCalls calls).stateOf (.operation o)) := by
  have hties : (Database.ofCalls calls).selectAuditEvents operationId =
        (Database.ofCalls calls).insertedEvents operationId ↔
      TiesInOrder ((Database.ofCalls calls).insertedEvents operationId) := by
    rw [Database.selectAuditEvents_eq, orderBy_eq_self_iff]
    exact ordered_iff_ties (hclock.filter _)
  refine ⟨hties, ?_⟩
  rintro o rfl htie
  rw [hties.2 htie, steps_inserted]
  exact Database.leads_ofCalls calls (.operation o)

/-- What the store is asked while an operation is created and dispatched, all in one millisecond;
each event has an id of one letter. -/
def dispatching (letters : List Char) : List (Stamp × StoreMethod) :=
  let moment : Stamp :=
    { now := fun _ => 0
      eventId := fun n => String.ofList (List.replicate 32 (letters.getD n '0')) }
  [.create "o" "p" (some "s") Database.localOwnerId (encodeReplayKey none "k") .null .fileDelete
      true [],
    .transition "o" .validated (some .received) none none,
    .transition "o" .dispatched (some .validated) none none,
    .transition "o" .running (some .dispatched) none none].map fun c => (moment, .operation c)

theorem audit_read_in_order_dispatching :
    TiesInOrder
      ((Database.ofCalls (dispatching ['1', '7', 'a', 'c'])).insertedEvents (some "o")) ∧
    (Database.ofCalls (dispatching ['1', '7', 'a', 'c'])).selectAuditEvents (some "o") =
      (Database.ofCalls (dispatching ['1', '7', 'a', 'c'])).insertedEvents (some "o") := by
  have hties : TiesInOrder
      ((Database.ofCalls (dispatching ['1', '7', 'a', 'c'])).insertedEvents (some "o")) := by
    unfold TiesInOrder
    decide +kernel
  have hclock : (Database.ofCalls (dispatching ['1', '7', 'a', 'c'])).Clocked := by
    unfold Database.Clocked
    decide +kernel
  exact ⟨hties, (audit_read_in_order _ hclock (some "o")).1.2 hties⟩

/-- Where the id of the third event is the smaller one, the operation is read back as running before
it is dispatched. -/
theorem dispatched_read_after_running : ¬ ∀ calls, (Database.ofCalls calls).Clocked →
    ∀ operationId, (Database.ofCalls calls).selectAuditEvents operationId =
      (Database.ofCalls calls).insertedEvents operationId := by
  intro h
  have hclock : (Database.ofCalls (dispatching ['1', '7', 'c', 'a'])).Clocked := by
    unfold Database.Clocked
    decide +kernel
  have horder := congrArg (List.map AuditEvent.toState) (h _ hclock (some "o"))
  revert horder
  decide +kernel

end CodemcpBridge
