import CodemcpBridge.Async.Trail
import CodemcpBridge.Db.RestartAudit

/-!
# What the audit log accounts for

The state of a session, an operation or an approval is followed by the events of its kind.  Every
method that changes a state writes, in the same transaction, the events that lead from the state
before it to the state after it.
-/

namespace CodemcpBridge

/-! ## Subjects -/

/-- A row whose state the audit log follows; an approval goes by its operation. -/
inductive Subject
  | session (sessionId : String)
  | operation (operationId : String)
  | approval (operationId : String)
  deriving DecidableEq

namespace Subject

/-- What the types of the subject's events begin with. -/
def kind : Subject → String
  | session _ => "session."
  | operation _ => "operation."
  | approval _ => "approval."

/-- The event is about the subject. -/
def isOf (x : Subject) (e : AuditEvent) : Bool :=
  Text.startsWith e.eventType x.kind && match x with
    | session s => e.sessionId == some s
    | operation o | approval o => e.operationId == some o

/-- The subject comes into being, or its state changes as its table permits. -/
def edge : Subject → Option String → Option String → Prop
  | session _, f, t => (f = none ∧ t = some SessionStatus.created.text) ∨
      ∃ s s', s' ∈ sessionTransitions s ∧ f = some s.text ∧ t = some s'.text
  | operation _, f, t => (f = none ∧ t = some OperationState.received.text) ∨
      ∃ s s', s' ∈ operationTransitions s ∧ f = some s.text ∧ t = some s'.text
  | approval _, f, t => (f = none ∧ t = some ApprovalStatus.pending.text) ∨
      ∃ s', s' ≠ ApprovalStatus.pending ∧ f = some ApprovalStatus.pending.text ∧ t = some s'.text

/-- The steps that events record of the subject, in their order. -/
def steps (x : Subject) (events : List AuditEvent) : List (Option String × Option String) :=
  (events.filter x.isOf).map fun e => (e.fromState, e.toState)

theorem steps_append (x : Subject) (events events' : List AuditEvent) :
    x.steps (events ++ events') = x.steps events ++ x.steps events' := by
  simp [steps]

/-- The first letter of the types of the subject's events. -/
def initial : Subject → Char
  | session _ => 's'
  | operation _ => 'o'
  | approval _ => 'a'

theorem kind_head? (x : Subject) : x.kind.toList.head? = some x.initial := by
  cases x with
  | session s =>
    show "session.".toList.head? = some 's'
    decide
  | operation o =>
    show "operation.".toList.head? = some 'o'
    decide
  | approval o =>
    show "approval.".toList.head? = some 'a'
    decide

theorem initial_of_isOf {x : Subject} {e : AuditEvent} (h : x.isOf e = true) :
    e.eventType.toList.head? = some x.initial := by
  have hpre : x.kind.toList.isPrefixOf e.eventType.toList = true := (Bool.and_eq_true_iff.1 h).1
  obtain ⟨rest, hrest⟩ := List.isPrefixOf_iff_prefix.1 hpre
  have hne : x.kind.toList ≠ [] := fun hnil => by
    have := x.kind_head?
    rw [hnil] at this
    cases this
  rw [← hrest, List.head?_append_of_ne_nil _ hne, kind_head?]

/-- An event is about one subject at most. -/
theorem eq_of_isOf {x y : Subject} {e : AuditEvent} (hx : x.isOf e = true) (hy : y.isOf e = true) :
    y = x := by
  have hinitial : x.initial = y.initial :=
    Option.some.inj ((initial_of_isOf hx).symm.trans (initial_of_isOf hy))
  have key : ∀ {a b : String} {o : Option String}, o = some a → o = some b → b = a := fun ha hb =>
    Option.some.inj (hb.symm.trans ha)
  simp only [isOf, Bool.and_eq_true] at hx hy
  cases x <;> cases y <;> simp only [initial] at hinitial <;> first
    | exact absurd hinitial (by decide)
    | rw [key (beq_iff_eq.1 hx.2) (beq_iff_eq.1 hy.2)]

end Subject

namespace Database

variable {db db' db'' : Database} {st : Stamp}

/-- The stored state of a subject, if it is there. -/
def stateOf (db : Database) : Subject → Option String
  | .session s => (db.session? s).map fun r => r.status.text
  | .operation o => (db.operation? o).map fun r => r.state.text
  | .approval o => (db.approval? o).map fun r => r.status.text

/-- The store has changed, and the events written with the change lead from each state before it to
the state after it. -/
def Accounts (db db' : Database) : Prop :=
  ∃ events, db'.auditEvents = db.auditEvents ++ events ∧
    ∀ x, Trail.Leads x.edge (db.stateOf x) (x.steps events) (db'.stateOf x)

theorem Accounts.refl (db : Database) : db.Accounts db :=
  ⟨[], (List.append_nil _).symm, fun _ => Trail.leads_nil _⟩

theorem Accounts.trans (h : db.Accounts db') (h' : db'.Accounts db'') : db.Accounts db'' := by
  obtain ⟨events, hlog, hleads⟩ := h
  obtain ⟨events', hlog', hleads'⟩ := h'
  refine ⟨events ++ events', by rw [hlog', hlog, List.append_assoc], fun x => ?_⟩
  rw [Subject.steps_append]
  exact (hleads x).append (hleads' x)

/-- A change that no event records changes no state. -/
theorem Accounts.of_same (hlog : db'.auditEvents = db.auditEvents)
    (hstate : ∀ x, db'.stateOf x = db.stateOf x) : db.Accounts db' :=
  ⟨[], by rw [hlog, List.append_nil], hstate⟩

/-- An event about no subject changes no state. -/
theorem Accounts.of_other {e : AuditEvent} (hlog : db'.auditEvents = db.auditEvents ++ [e])
    (he : ∀ x : Subject, x.isOf e = false) (hstate : ∀ x, db'.stateOf x = db.stateOf x) :
    db.Accounts db' := by
  refine ⟨[e], hlog, fun x => ?_⟩
  have hnone : x.steps [e] = [] := by simp [Subject.steps, he x]
  rw [hnone]
  exact hstate x

/-- One event, about the one subject whose state has changed. -/
theorem Accounts.of_event {e : AuditEvent} (hlog : db'.auditEvents = db.auditEvents ++ [e])
    (x : Subject) (hx : x.isOf e = true) (hfrom : e.fromState = db.stateOf x)
    (hto : e.toState = db'.stateOf x) (hedge : x.edge (db.stateOf x) (db'.stateOf x))
    (hother : ∀ y, y ≠ x → db'.stateOf y = db.stateOf y) : db.Accounts db' := by
  refine ⟨[e], hlog, fun y => ?_⟩
  by_cases hy : y = x
  · subst hy
    have hone : y.steps [e] = [(e.fromState, e.toState)] := by simp [Subject.steps, hx]
    rw [hone, hfrom, hto]
    exact Trail.leads_single hedge
  · have hof : y.isOf e = false := by
      rw [← Bool.not_eq_true]
      exact fun h => hy (Subject.eq_of_isOf hx h)
    have hnone : y.steps [e] = [] := by simp [Subject.steps, hof]
    rw [hnone]
    exact hother y hy

/-! ## One row changed -/

theorem stateOf_updateSession {id : String} {f : SessionRecord → SessionRecord}
    (hf : ∀ r : SessionRecord, r.sessionId = id → (f r).sessionId = id) {x : Subject}
    (hx : x ≠ .session id) : (db.updateSession id f).stateOf x = db.stateOf x := by
  cases x with
  | session s =>
    have hs : s ≠ id := fun h => hx (congrArg Subject.session h)
    simp only [stateOf, session?, updateSession]
    rw [Table.row?_update_of_ne hs hf]
  | operation o => rfl
  | approval o => rfl

theorem stateOf_updateSession_same {id : String} {f : SessionRecord → SessionRecord}
    {current : SessionRecord} (hc : db.session? id = some current)
    (hf : ∀ r : SessionRecord, r.sessionId = id → (f r).sessionId = id)
    (hsame : (f current).status = current.status) {x : Subject} :
    (db.updateSession id f).stateOf x = db.stateOf x := by
  by_cases hx : x = .session id
  · subst hx
    simp only [session?] at hc
    simp only [stateOf, session?, updateSession, Table.row?_update_self hf, hc, Option.map_some,
      hsame]
  · exact stateOf_updateSession hf hx

theorem stateOf_withOperation {id : String} {f : OperationRecord → OperationRecord}
    (hf : ∀ r : OperationRecord, r.operationId = id → (f r).operationId = id) {x : Subject}
    (hx : x ≠ .operation id) : (db.withOperation id f).stateOf x = db.stateOf x := by
  cases x with
  | session s => rfl
  | operation o =>
    have ho : o ≠ id := fun h => hx (congrArg Subject.operation h)
    simp only [stateOf, operation?, withOperation]
    rw [Table.row?_update_of_ne ho hf]
  | approval o => rfl

theorem stateOf_withOperation_same {id : String} {f : OperationRecord → OperationRecord}
    {current : OperationRecord} (hc : db.operation? id = some current)
    (hf : ∀ r : OperationRecord, r.operationId = id → (f r).operationId = id)
    (hsame : (f current).state = current.state) {x : Subject} :
    (db.withOperation id f).stateOf x = db.stateOf x := by
  by_cases hx : x = .operation id
  · subst hx
    simp only [operation?] at hc
    simp only [stateOf, operation?, withOperation, Table.row?_update_self hf, hc, Option.map_some,
      hsame]
  · exact stateOf_withOperation hf hx

theorem stateOf_updateApproval {id : String} {f : ApprovalRecord → ApprovalRecord}
    (hf : ∀ r : ApprovalRecord, r.operationId = id → (f r).operationId = id) {x : Subject}
    (hx : x ≠ .approval id) : (db.updateApproval id f).stateOf x = db.stateOf x := by
  cases x with
  | session s => rfl
  | operation o => rfl
  | approval o =>
    have ho : o ≠ id := fun h => hx (congrArg Subject.approval h)
    simp only [stateOf, approval?, updateApproval]
    rw [Table.row?_update_of_ne ho hf]

/-- An event of another kind is about no subject. -/
theorem isOf_eq_false {e : AuditEvent}
    (h : ["session.", "operation.", "approval."].any (Text.startsWith e.eventType) = false)
    (x : Subject) : x.isOf e = false := by
  simp only [List.any_cons, List.any_nil, Bool.or_false, Bool.or_eq_false_iff] at h
  cases x with
  | session s => exact Bool.and_eq_false_imp.2 fun hpre => absurd hpre (by simp [Subject.kind, h.1])
  | operation o =>
    exact Bool.and_eq_false_imp.2 fun hpre => absurd hpre (by simp [Subject.kind, h.2.1])
  | approval o =>
    exact Bool.and_eq_false_imp.2 fun hpre => absurd hpre (by simp [Subject.kind, h.2.2])

theorem stateOf_audit {o p s : Option String} {w ty : String} {f t : Option String} {d : Dict}
    {x : Subject} : (db.audit st o p s w ty f t d).stateOf x = db.stateOf x := by
  cases x <;> rfl

theorem accounts_audit {o p s : Option String} {w ty : String} {f t : Option String} {d : Dict}
    (h : ["session.", "operation.", "approval."].any (Text.startsWith ty) = false) :
    db.Accounts (db.audit st o p s w ty f t d) :=
  .of_other rfl (isOf_eq_false h) fun _ => stateOf_audit

/-! ## Rows written with their events -/

section Written

variable {o p : Option String} {w ty : String} {d : Dict}

theorem accounts_insertSession {r : SessionRecord} (hnone : db.session? r.sessionId = none)
    (hr : r.status = .created) (hty : Text.startsWith ty "session." = true) :
    db.Accounts (({ db with sessions := db.sessions ++ [r] } : Database).audit st o p
      (some r.sessionId) w ty none (some "created") d) := by
  have hstate : db.stateOf (.session r.sessionId) = none := by rw [stateOf, hnone, Option.map_none]
  have hself : ({ db with sessions := db.sessions ++ [r] } : Database).stateOf
      (.session r.sessionId) = some "created" := by
    simp only [session?] at hnone
    simp [stateOf, session?, Table.row?_append, hnone, hr, SessionStatus.text]
  refine .of_event rfl (.session r.sessionId) ?_ hstate.symm hself.symm ?_ fun y hy => ?_
  · simpa [Subject.isOf, Subject.kind] using hty
  · exact .inl ⟨hstate, hself⟩
  · cases y with
    | session s =>
      have hs : r.sessionId ≠ s := fun h => hy (congrArg Subject.session h.symm)
      show (Table.row? SessionRecord.sessionId s (db.sessions ++ [r])).map _ = _
      rw [Table.row?_append, if_neg hs, Option.or_none]
      rfl
    | operation _ | approval _ => rfl

theorem accounts_updateSession {id : String} {f : SessionRecord → SessionRecord}
    {current : SessionRecord} (hc : db.session? id = some current)
    (hf : ∀ r : SessionRecord, r.sessionId = id → (f r).sessionId = id)
    (hmove : (f current).status ∈ sessionTransitions current.status)
    (hty : Text.startsWith ty "session." = true) :
    db.Accounts ((db.updateSession id f).audit st o p (some id) w ty (some current.status.text)
      (some (f current).status.text) d) := by
  have hstate : db.stateOf (.session id) = some current.status.text := by
    rw [stateOf, hc, Option.map_some]
  have hself : (db.updateSession id f).stateOf (.session id) = some (f current).status.text := by
    simp only [session?] at hc
    simp only [stateOf, session?, updateSession, Table.row?_update_self hf, hc, Option.map_some]
  refine .of_event rfl (.session id) ?_ hstate.symm hself.symm ?_ fun y hy =>
    stateOf_audit.trans (stateOf_updateSession hf hy)
  · simpa [Subject.isOf, Subject.kind] using hty
  · exact .inr ⟨_, _, hmove, hstate, hself⟩

theorem accounts_insertOperation {r : OperationRecord} {s : Option String}
    (hnone : db.operation? r.operationId = none) (hr : r.state = .received)
    (hty : Text.startsWith ty "operation." = true) :
    db.Accounts (({ db with operations := db.operations ++ [r] } : Database).audit st
      (some r.operationId) p s w ty none (some "received") d) := by
  have hstate : db.stateOf (.operation r.operationId) = none := by
    rw [stateOf, hnone, Option.map_none]
  have hself : ({ db with operations := db.operations ++ [r] } : Database).stateOf
      (.operation r.operationId) = some "received" := by
    simp only [operation?] at hnone
    simp [stateOf, operation?, Table.row?_append, hnone, hr, OperationState.text]
  refine .of_event rfl (.operation r.operationId) ?_ hstate.symm hself.symm ?_ fun y hy => ?_
  · simpa [Subject.isOf, Subject.kind] using hty
  · exact .inl ⟨hstate, hself⟩
  · cases y with
    | operation o =>
      have ho : r.operationId ≠ o := fun h => hy (congrArg Subject.operation h.symm)
      show (Table.row? OperationRecord.operationId o (db.operations ++ [r])).map _ = _
      rw [Table.row?_append, if_neg ho, Option.or_none]
      rfl
    | session _ | approval _ => rfl

theorem accounts_withOperation {id : String} {s : Option String}
    {f : OperationRecord → OperationRecord} {current : OperationRecord}
    (hc : db.operation? id = some current)
    (hf : ∀ r : OperationRecord, r.operationId = id → (f r).operationId = id)
    (hmove : (f current).state ∈ operationTransitions current.state)
    (hty : Text.startsWith ty "operation." = true) :
    db.Accounts ((db.withOperation id f).audit st (some id) p s w ty (some current.state.text)
      (some (f current).state.text) d) := by
  have hstate : db.stateOf (.operation id) = some current.state.text := by
    rw [stateOf, hc, Option.map_some]
  have hself : (db.withOperation id f).stateOf (.operation id) = some (f current).state.text := by
    simp only [operation?] at hc
    simp only [stateOf, operation?, withOperation, Table.row?_update_self hf, hc, Option.map_some]
  refine .of_event rfl (.operation id) ?_ hstate.symm hself.symm ?_ fun y hy =>
    stateOf_audit.trans (stateOf_withOperation hf hy)
  · simpa [Subject.isOf, Subject.kind] using hty
  · exact .inr ⟨_, _, hmove, hstate, hself⟩

theorem accounts_insertApproval {a : ApprovalRecord} {s : Option String}
    (hnone : db.approval? a.operationId = none) (ha : a.status = .pending)
    (hty : Text.startsWith ty "approval." = true) :
    db.Accounts (({ db with approvals := db.approvals ++ [a] } : Database).audit st
      (some a.operationId) p s w ty none (some "pending") d) := by
  have hstate : db.stateOf (.approval a.operationId) = none := by
    rw [stateOf, hnone, Option.map_none]
  have hself : ({ db with approvals := db.approvals ++ [a] } : Database).stateOf
      (.approval a.operationId) = some "pending" := by
    simp only [approval?] at hnone
    simp [stateOf, approval?, Table.row?_append, hnone, ha, ApprovalStatus.text]
  refine .of_event rfl (.approval a.operationId) ?_ hstate.symm hself.symm ?_ fun y hy => ?_
  · simpa [Subject.isOf, Subject.kind] using hty
  · exact .inl ⟨hstate, hself⟩
  · cases y with
    | approval o =>
      have ho : a.operationId ≠ o := fun h => hy (congrArg Subject.approval h.symm)
      show (Table.row? ApprovalRecord.operationId o (db.approvals ++ [a])).map _ = _
      rw [Table.row?_append, if_neg ho, Option.or_none]
      rfl
    | session _ | operation _ => rfl

/-- The approvals have changed, and one event records that the pending one of `id` is settled. -/
theorem accounts_settleApproval {id : String} {s : Option String} {db₁ : Database}
    {a a' : ApprovalRecord} (hlog : db₁.auditEvents = db.auditEvents)
    (ha : db.approval? id = some a) (ha' : db₁.approval? id = some a') (hp : a.status = .pending)
    (hleft : a'.status ≠ .pending) (hother : ∀ y, y ≠ .approval id → db₁.stateOf y = db.stateOf y)
    (hty : Text.startsWith ty "approval." = true) :
    db.Accounts (db₁.audit st (some id) p s w ty (some "pending") (some a'.status.text) d) := by
  have hstate : db.stateOf (.approval id) = some "pending" := by
    rw [stateOf, ha, Option.map_some, hp]
    rfl
  have hself : db₁.stateOf (.approval id) = some a'.status.text := by
    rw [stateOf, ha', Option.map_some]
  refine .of_event (congrArg (· ++ [_]) hlog) (.approval id) ?_ hstate.symm hself.symm ?_ hother
  · simpa [Subject.isOf, Subject.kind] using hty
  · exact .inr ⟨_, hleft, hstate, hself⟩

end Written

/-! ## The methods -/

/-- A session is inserted and activated. -/
theorem accounts_openSession {s p w : String} {r r' : SessionRecord} (hnone : db.session? s = none)
    (hr : r.sessionId = s) (hr' : r'.sessionId = s) (hcreated : r.status = .created)
    (hactive : r'.status = .active) :
    db.Accounts (((({ db with sessions := db.sessions ++ [r] } : Database).audit st none p s w
      "session.created" none "created" []).updateSession s fun _ => r').audit st none p s w
        "session.activated" "created" "active" []) := by
  subst hr
  have inserted := @accounts_insertSession db st none p w "session.created" [] r hnone hcreated
    (by decide)
  have found : (({ db with sessions := db.sessions ++ [r] } : Database).audit st none p
      (some r.sessionId) w "session.created" none (some "created") []).session? r.sessionId =
      some r := by
    simp only [session?] at hnone
    simp only [session?, audit, Table.row?_append, hnone, Option.none_or, if_true]
  have activated := @accounts_updateSession _ st none p w "session.activated" [] r.sessionId
    (fun _ => r') r found (fun _ _ => hr') (by rw [hcreated, hactive]; decide) (by decide)
  rw [hcreated, hactive] at activated
  exact inserted.trans activated

theorem createSession_accounts {s p w : String} {d : Option Dict} {row : SessionRecord}
    (h : db.createSession st s p w d = .ok (row, db')) : db.Accounts db' := by
  simp only [createSession, insertSession, bind, Except.bind] at h
  split at h
  · cases h
  · rename_i db₁ hi
    split at hi
    · cases hi
    · rename_i hnone
      cases hi
      simp only [Bool.not_eq_true, Option.isSome_eq_false_iff, Option.isNone_iff_eq_none] at hnone
      cases d with
      | none =>
        cases h
        exact accounts_openSession hnone rfl rfl rfl rfl
      | some d =>
        cases h
        exact (accounts_openSession hnone rfl rfl rfl rfl).trans (accounts_audit (by decide))

theorem transitionSession_accounts {s : String} {s' : SessionStatus} {r : Option String}
    {row : SessionRecord} (h : db.transitionSession st s s' r = .ok (row, db')) :
    db.Accounts db' := by
  unfold transitionSession at h
  split at h
  · cases h
  · rename_i current hc
    have hid : current.sessionId = s := (Table.row?_some hc).2
    subst hid
    split at h
    · cases h
    · rename_i hmove
      simp only [Except.ok.injEq, Prod.mk.injEq] at h
      obtain ⟨-, rfl⟩ := h
      split
      · rename_i hne
        exact accounts_updateSession hc (fun _ _ => rfl) (by tauto) (by decide)
      · rename_i heq
        exact .of_same rfl fun x => stateOf_updateSession_same hc (by simp) (by simpa using heq)

theorem createOperation_accounts {o p w : String} {s : Option String} {k : ReplayKey} {n : Json}
    {kind : OperationKind} {m : Bool} {i : Dict} {r : OperationRecord × Bool}
    (h : db.createOperation st o p s w k n kind m i = .ok (r, db')) : db.Accounts db' := by
  unfold createOperation at h
  split at h
  · cases h
    exact .refl db
  · split at h
    · cases h
    · simp only [insertOperation, bind, Except.bind] at h
      split at h
      · cases h
      · rename_i db₁ hi
        split at hi
        · cases hi
        · rename_i hclash
          cases hi
          cases h
          refine accounts_insertOperation (Table.row?_none.2 fun x hx => ?_) rfl (by decide)
          simp only [operationClash, Bool.not_eq_true, List.any_eq_false, Bool.or_eq_true,
            not_or, beq_iff_eq] at hclash
          exact (hclash x hx).1.1

theorem transitionOperation_accounts {id : String} {s : OperationState} {e : Option OperationState}
    {r : Option Payload} {x : Option ErrorData} {row : OperationRecord}
    (h : db.transitionOperation st id s e r x = .ok (row, db')) : db.Accounts db' := by
  unfold transitionOperation at h
  split at h
  · cases h
  · rename_i current hc
    have hid : ∀ r : OperationRecord, r.operationId = id → current.operationId = id :=
      fun _ _ => (operation?_some hc).2
    split at h
    · cases h
    · split at h
      · cases h
      · rename_i hmove
        simp only [bind, Except.bind] at h
        split at h
        · cases h
        · rename_i db₁ hu
          rw [updateOperation_ok hu] at h
          cases h
          split
          · exact accounts_withOperation hc hid (by simpa [transitioned] using by tauto) (by decide)
          · rename_i heq
            exact .of_same rfl fun y => stateOf_withOperation_same hc (by exact hid)
              (by simpa [transitioned] using heq)

theorem createApproval_accounts {id : String} {o : OperationRecord} {n : String} {k : TokenHash}
    {e : ℕ} (h : db.createApproval st id o n k e = .ok db') : db.Accounts db' := by
  simp only [createApproval, insertApproval, bind, Except.bind] at h
  split at h
  · cases h
  · rename_i db₁ hi
    split at hi
    · cases hi
    · rename_i hclash
      cases hi
      cases h
      refine accounts_insertApproval (Table.row?_none.2 fun x hx => ?_) rfl (by decide)
      simp only [Bool.or_eq_true, not_or, Bool.not_eq_true, List.any_eq_false, beq_iff_eq] at hclash
      exact (hclash.2 x hx).1.2

theorem approval?_updateApproval {id : String} {f : ApprovalRecord → ApprovalRecord}
    {a : ApprovalRecord} (ha : db.approval? id = some a)
    (hf : ∀ r : ApprovalRecord, r.operationId = id → (f r).operationId = id) :
    (db.updateApproval id f).approval? id = some (f a) := by
  simp only [approval?] at ha
  simp only [approval?, updateApproval]
  rw [Table.row?_update_self hf, ha, Option.map_some]

theorem consumeApproval_accounts {id : String} {k : TokenHash} {now : ℕ} {o : OperationRecord}
    (h : db.consumeApproval st id k now = .ok (o, db')) : db.Accounts db' := by
  unfold consumeApproval at h
  split at h
  · rename_i a o' ha ho
    split_ifs at h with hk hp he hx
    cases h
    have hid : ∀ r : ApprovalRecord, r.operationId = id → r.operationId = id := fun _ hr => hr
    exact accounts_settleApproval (by rfl) ha (approval?_updateApproval ha (by exact hid))
      (not_not.1 hp) (by simp) (fun y hy => stateOf_updateApproval (by exact hid) hy) (by decide)
  · cases h

theorem cancelApproval_accounts (hs : db.Sound) {id r : String}
    (h : db.cancelApproval st id r = .ok db') : db.Accounts db' := by
  unfold cancelApproval at h
  split at h
  · rename_i a o ha ho
    cases h
    have hm : a ∈ db.approvals := List.mem_of_find?_eq_some ha
    have hp : a.operationId = id ∧ a.status = .pending := by simpa using List.find?_some ha
    have ha : db.approval? id = some a := hs.approval?_iff.2 ⟨hm, hp.1⟩
    have hid : ∀ r : ApprovalRecord, r.operationId = id → r.operationId = id := fun _ hr => hr
    exact accounts_settleApproval (by rfl) ha (approval?_updateApproval ha (by exact hid))
      hp.2 (by simp) (fun y hy => stateOf_updateApproval (by exact hid) hy) (by decide)
  · cases h

theorem createCheckpoint_accounts {c p : String} {s o : Option String} {w : String}
    {k : CheckpointKind} {b n r : String} {j : Json} {row : CheckpointRecord}
    (h : db.createCheckpoint st c p s o w k b n r j = .ok (row, db')) : db.Accounts db' := by
  simp only [createCheckpoint, insertCheckpoint, bind, Except.bind] at h
  split at h
  · cases h
  · rename_i db₁ hi
    split at hi
    · cases hi
    · cases hi
      cases h
      exact .trans (.of_same rfl fun x => by cases x <;> rfl) (accounts_audit (by decide))

theorem finalizeCheckpoint_accounts {c : String} {d : Dict} {j : Json} {row : CheckpointRecord}
    (h : db.finalizeCheckpoint st c d j = .ok (row, db')) : db.Accounts db' := by
  unfold finalizeCheckpoint at h
  split at h
  · cases h
  · cases h
    exact .trans (.of_same rfl fun x => by cases x <;> rfl) (accounts_audit (by decide))

theorem markCheckpointRestored_accounts {c : String} {row : CheckpointRecord}
    (h : db.markCheckpointRestored st c = .ok (row, db')) : db.Accounts db' := by
  unfold markCheckpointRestored at h
  split at h
  · cases h
  · cases h
    exact .trans (.of_same rfl fun x => by cases x <;> rfl) (accounts_audit (by decide))

/-! ## The recovery -/

theorem recoverSession_accounts {s : SessionRecord}
    (hn : (db.sessions.map SessionRecord.sessionId).Nodup) (hs : s ∈ db.sessions)
    (hu : inUse s = true) : db.Accounts (recoverSession st db s) := by
  refine accounts_updateSession ((Table.row?_eq_some_iff hn).2 ⟨hs, rfl⟩) (by simp) ?_ (by decide)
  rcases inUse_iff.1 hu with h | h <;> simp [h, sessionTransitions]

theorem recoveredState_mem (m : Bool) {s : OperationState} (h : inFlight s = true) :
    recoveredState m s ∈ operationTransitions s := by
  revert h
  cases m <;> cases s <;> decide

theorem approval?_cancelPending {p : ApprovalRecord → Bool} {id : String} :
    (db.cancelPending p).approval? id = (db.approval? id).map fun a =>
      if p a ∧ a.status = .pending then { a with status := .cancelled } else a := by
  refine Table.row?_map fun a => ?_
  split_ifs <;> rfl

/-- Only the approvals that are cancelled change their state. -/
theorem stateOf_cancelPending {p : ApprovalRecord → Bool} {x : Subject}
    (h : ∀ a, db.approval? a.operationId = some a → p a = true → a.status = .pending →
      x ≠ .approval a.operationId) : (db.cancelPending p).stateOf x = db.stateOf x := by
  cases x with
  | session s => rfl
  | operation o => rfl
  | approval id =>
    simp only [stateOf, approval?_cancelPending, Option.map_map]
    cases ha : db.approval? id with
    | none => rfl
    | some a =>
      have hid : a.operationId = id := (approval?_some ha).2
      have hneg : ¬(p a = true ∧ a.status = .pending) := fun hp =>
        h a (hid ▸ ha) hp.1 hp.2 (congrArg Subject.approval hid.symm)
      simp [hneg]

/-- Cancelling the pending approvals of an operation, with their events. -/
theorem cancelApprovals_accounts (hs : db.Sound) (o : OperationRecord) : db.Accounts
    ((db.pendingApprovals o.operationId).foldl (fun db a =>
      auditCancelled st db o o.projectId o.sessionId [("approval_id", .str a.approvalId),
        ("action", .str a.action), ("reason", .str "bridge_restart")])
      (db.cancelPending fun a => a.operationId == o.operationId)) := by
  have pending : db.pendingApprovals o.operationId =
      ((db.approval? o.operationId).filter fun a => a.status == .pending).toList := by
    rw [approval?, ← Table.filter_key hs.approvalOps]
    rfl
  have hother : ∀ y, y ≠ .approval o.operationId →
      (db.cancelPending fun a => a.operationId == o.operationId).stateOf y = db.stateOf y :=
    fun y hy => stateOf_cancelPending fun a _ hid _ => by
      rw [beq_iff_eq.1 hid]
      exact hy
  rw [pending]
  cases ha : db.approval? o.operationId with
  | none =>
    refine .of_same rfl fun y => ?_
    by_cases hy : y = .approval o.operationId
    · subst hy
      simp only [List.foldl_nil, Option.filter_none, Option.toList_none]
      rw [stateOf, approval?_cancelPending, ha]
      simp [stateOf, ha]
    · exact hother y hy
  | some a =>
    by_cases hp : a.status = .pending
    · simp only [Option.filter_some, hp, beq_self_eq_true, if_true, Option.toList_some,
        List.foldl_cons, List.foldl_nil]
      have hid : a.operationId = o.operationId := (approval?_some ha).2
      refine @accounts_settleApproval db st o.projectId o.ownerId "approval.recovered_cancelled" _
        o.operationId o.sessionId _ a { a with status := .cancelled } rfl ha ?_ hp (by simp) hother
        (by decide)
      rw [approval?_cancelPending, ha]
      simp [hid, hp]
    · have hfilter : (some a).filter (fun a => a.status == .pending) = none := by simp [hp]
      rw [hfilter]
      refine .of_same rfl fun y => ?_
      by_cases hy : y = .approval o.operationId
      · subst hy
        simp only [List.foldl_nil, Option.toList_none]
        rw [stateOf, approval?_cancelPending, ha]
        simp [stateOf, ha, hp]
      · exact hother y hy

theorem recoverOperation_accounts {o : OperationRecord} (hs : db.Sound) (ho : o ∈ db.operations)
    (hf : inFlight o.state = true) (h : recoverOperation st db o = .ok db') : db.Accounts db' := by
  obtain ⟨db₁, hdb₁, haccounts, hops⟩ : ∃ db₁, db₁ = (if o.state = .awaitingApproval then
      (db.pendingApprovals o.operationId).foldl (fun db a =>
        auditCancelled st db o o.projectId o.sessionId [("approval_id", .str a.approvalId),
          ("action", .str a.action), ("reason", .str "bridge_restart")])
        (db.cancelPending fun a => a.operationId == o.operationId)
    else db) ∧ db.Accounts db₁ ∧ db₁.operations = db.operations := by
    refine ⟨_, rfl, ?_⟩
    split
    · refine ⟨cancelApprovals_accounts hs o, ?_⟩
      obtain ⟨events, hfold, -⟩ := @auditsCancelled_events st o
        (db.pendingApprovals o.operationId)
        (db.cancelPending fun a => a.operationId == o.operationId)
      rw [hfold]
      rfl
    · exact ⟨.refl db, rfl⟩
  simp only [recoverOperation, ← hdb₁, bind, Except.bind] at h
  split at h
  · cases h
  · rename_i db₂ hu
    cases h
    rw [updateOperation_ok hu]
    have hc : db₁.operation? o.operationId = some o := by
      rw [operation?, hops]
      exact hs.operation?_self ho
    exact haccounts.trans (accounts_withOperation hc (by simp)
      (recoveredState_mem _ hf) (by decide))

theorem recoverOrphan_accounts {o : OperationRecord} {a : ApprovalRecord} (hs : db.Sound)
    (ha : a ∈ db.approvals) (hp : a.status = .pending) (hid : o.operationId = a.operationId) :
    db.Accounts (recoverOrphan st db (o, a)) := by
  have hfound : db.approval? o.operationId = some a := hs.approval?_iff.2 ⟨ha, hid.symm⟩
  refine @accounts_settleApproval db st a.projectId o.ownerId "approval.recovered_cancelled" _
    o.operationId a.sessionId _ a { a with status := .cancelled } rfl hfound ?_ hp (by simp)
    (fun y hy => stateOf_cancelPending fun b hb hab _ => ?_) (by decide)
  · rw [approval?_cancelPending, hfound]
    simp [hp]
  · obtain rfl := List.inj_on_of_nodup_map hs.approvalIds (approval?_some hb).1 ha
      (beq_iff_eq.1 hab)
    rw [← hid]
    exact hy

theorem Sound.recoverAfterRestart_accounts (hs : db.Sound)
    (hn : (db.sessions.map SessionRecord.sessionId).Nodup) {r : Recovered}
    (h : db.recoverAfterRestart st = .ok (r, db')) : db.Accounts db' :=
  hs.recoverAfterRestart_related (R := Accounts) .refl .trans recoverSession_accounts
    recoverOperation_accounts recoverOrphan_accounts hn h

end Database

end CodemcpBridge
