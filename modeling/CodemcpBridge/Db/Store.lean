import CodemcpBridge.Db.Order
import CodemcpBridge.Db.Records
import CodemcpBridge.Text

/-!
# The transactions of the store

Each method of `Database` as a function from the store to its result and the store after it.  A
transaction that raises is rolled back: it leaves no store, and the caller keeps the one before.
-/

namespace CodemcpBridge

namespace Database

/-! ## Sessions -/

/-- `create_session`. -/
def createSession (db : Database) (st : Stamp) (sessionId projectId ownerId : String)
    (authDetails : Option Dict) : Except Exn (SessionRecord × Database) := do
  let row : SessionRecord := { sessionId, projectId, ownerId, status := .created,
                               createdAt := db.clock st, updatedAt := db.clock st }
  let db₁ ← db.insertSession row
  let db₂ := db₁.audit st none projectId sessionId ownerId "session.created" none "created" []
  let active : SessionRecord := { row with status := .active, updatedAt := db₂.clock st }
  let db₃ := db₂.updateSession sessionId fun _ => active
  let db₄ := db₃.audit st none projectId sessionId ownerId "session.activated" "created" "active" []
  let db₅ := match authDetails with
    | some details =>
      db₄.audit st none projectId sessionId ownerId "auth.session.context" none none details
    | none => db₄
  pure (active, db₅)

/-- `get_session_auth_context`. -/
def sessionAuthContext? (db : Database) (sessionId : String) : Option Dict :=
  ((orderBy (fun e : AuditEvent => (e.createdAt, e.eventId)) (db.auditEvents.filter fun e =>
    e.sessionId == some sessionId && e.eventType == "auth.session.context")).head?).map
      AuditEvent.details

/-- `transition_session`. -/
def transitionSession (db : Database) (st : Stamp) (sessionId : String) (toState : SessionStatus)
    (reason : Option String) : Except Exn (SessionRecord × Database) :=
  match db.session? sessionId with
  | none => .error .persistenceError
  | some current =>
    if toState ≠ current.status ∧ toState ∉ sessionTransitions current.status then
      .error .invalidTransition
    else
      let now := db.clock st
      let updated := { current with
        status := toState
        updatedAt := now
        closedAt := if toState = .closed ∨ toState = .blocked then some now else current.closedAt
        reason := reason }
      let db₁ := db.updateSession sessionId fun _ => updated
      let db₂ := if toState ≠ current.status then
          db₁.audit st none current.projectId current.sessionId current.ownerId
            "session.transition" current.status.text toState.text
            (((reason.filter (· ≠ "")).map fun r => ("reason", Json.str r)).toList)
        else db₁
      .ok (updated, db₂)

/-! ## Operations -/

/-- The operation stored under a project, a session and a key. -/
def operationIn? (db : Database) (projectId : String) (sessionId : Option String)
    (key : ReplayKey) : Option OperationRecord :=
  db.operations.find? fun o => o.slot == (projectId, sessionId, key)

/-- A mutation of the project that stands in the active set. -/
def activeMutation? (db : Database) (projectId : String) : Option OperationRecord :=
  db.operations.find? fun o => o.projectId == projectId && o.blocks

/-- `create_operation`: the row, and whether it was there already. -/
def createOperation (db : Database) (st : Stamp) (operationId projectId : String)
    (sessionId : Option String) (ownerId : String) (key : ReplayKey) (requestHash : Json)
    (kind : OperationKind) (mutation : Bool) (input : Dict) :
    Except Exn ((OperationRecord × Bool) × Database) :=
  match db.operationIn? projectId sessionId key with
  | some existing => .ok ((existing, true), db)
  | none =>
    match if mutation then db.activeMutation? projectId else none with
    | some active => .error (.activeOperationConflict active.operationId active.state)
    | none => do
      let now := db.clock st
      let row : OperationRecord := {
        operationId, projectId, sessionId, ownerId, replayKey := key, requestHash, kind, mutation
        state := .received, input, createdAt := now, updatedAt := now }
      let db₁ ← db.insertOperation row
      pure ((row, false), db₁.audit st operationId projectId sessionId ownerId "operation.created"
        none "received" [("kind", .str kind.text), ("mutation", .bool mutation)])

/-- `get_operations_by_client_request_id`: every row with this request id, in any namespace. -/
def operationsByClientRequestId (db : Database) (projectId : String) (sessionId : Option String)
    (clientRequestId : String) : List OperationRecord :=
  orderBy (fun o => (o.createdAt, o.operationId)) (db.operations.filter fun o =>
    o.projectId == projectId && o.sessionId == sessionId && o.clientRequestId == clientRequestId)

/-- What `transition_operation` writes to a row. -/
def transitioned (current : OperationRecord) (now : ℕ) (toState : OperationState)
    (result : Option Payload) (error : Option ErrorData) : OperationRecord :=
  { current with
    state := toState
    updatedAt := now
    startedAt :=
      if toState = .running ∧ current.startedAt = none then some now else current.startedAt
    finishedAt := if toState ∈ terminalOperationStates then some now else current.finishedAt
    result := result <|> current.result
    error := error <|> current.error }

/-- `transition_operation`. -/
def transitionOperation (db : Database) (st : Stamp) (operationId : String)
    (toState : OperationState) (expectedState : Option OperationState) (result : Option Payload)
    (error : Option ErrorData) : Except Exn (OperationRecord × Database) :=
  match db.operation? operationId with
  | none => .error .persistenceError
  | some current =>
    if expectedState.any fun s => current.state != s then .error .invalidTransition
    else if toState ≠ current.state ∧ toState ∉ operationTransitions current.state then
      .error .invalidTransition
    else do
      let updated := transitioned current (db.clock st) toState result error
      let db₁ ← db.updateOperation operationId fun _ => updated
      pure (updated, if toState ≠ current.state then
          db₁.audit st operationId current.projectId current.sessionId current.ownerId
            "operation.transition" current.state.text toState.text
            [("kind", .str current.kind.text),
              ("error_code", .ofOption (error.map fun e => e.code.text))]
        else db₁)

/-- `record_operation_auth_context`. -/
def recordOperationAuthContext (db : Database) (st : Stamp) (operationId : String)
    (details : Dict) : Except Exn Database :=
  match db.operation? operationId with
  | none => .error .persistenceError
  | some o => .ok (db.audit st o.operationId o.projectId o.sessionId o.ownerId "auth.context"
      none none details)

/-- `get_operation_auth_context`. -/
def operationAuthContext? (db : Database) (operationId : String) : Option Dict :=
  ((orderBy (fun e : AuditEvent => (e.createdAt, e.eventId)) (db.auditEvents.filter fun e =>
    e.operationId == some operationId && e.eventType == "auth.context")).head?).map
      AuditEvent.details

/-! ## Approvals -/

/-- `create_approval`. -/
def createApproval (db : Database) (st : Stamp) (approvalId : String) (operation : OperationRecord)
    (action : String) (tokenHash : TokenHash) (expiresAt : ℕ) : Except Exn Database := do
  let db₁ ← db.insertApproval {
    approvalId, operationId := operation.operationId, projectId := operation.projectId
    sessionId := operation.sessionId, action, tokenHash, status := .pending
    createdAt := db.clock st, expiresAt }
  pure (db₁.audit st operation.operationId operation.projectId operation.sessionId
    operation.ownerId "approval.created" none "pending"
    [("approval_id", .str approvalId), ("action", .str action), ("expires_at", .num expiresAt)])

/-- `consume_approval`.  The expiry it writes is rolled back by the exception that reports it. -/
def consumeApproval (db : Database) (st : Stamp) (operationId : String) (tokenHash : TokenHash)
    (now : ℕ) : Except Exn (OperationRecord × Database) :=
  match db.approval? operationId, db.operation? operationId with
  | some a, some o =>
    if a.tokenHash ≠ tokenHash then .error .approvalTokenMismatch
    else if a.status ≠ .pending then
      if a.status = .expired then .error .approvalExpired else .error .approvalAlreadyUsed
    else if a.expiresAt ≤ now then .error .approvalExpired
    else
      let db₁ := db.updateApproval operationId fun a =>
        { a with status := .consumed, consumedAt := some now }
      .ok (o, db₁.audit st operationId o.projectId o.sessionId o.ownerId "approval.consumed"
        "pending" "consumed" [])
  | _, _ => .error .approvalNotFound

/-- `cancel_approval`. -/
def cancelApproval (db : Database) (st : Stamp) (operationId reason : String) :
    Except Exn Database :=
  match db.approvals.find? fun a => a.operationId == operationId && a.status == .pending,
      db.operation? operationId with
  | some a, some o =>
    .ok ((db.updateApproval operationId fun a => { a with status := .cancelled }).audit st
      operationId a.projectId a.sessionId o.ownerId "approval.cancelled" "pending" "cancelled"
      [("reason", .str reason)])
  | _, _ => .error .approvalNotFound

end Database

end CodemcpBridge
