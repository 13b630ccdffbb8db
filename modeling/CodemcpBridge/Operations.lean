import CodemcpBridge.Mutations
import CodemcpBridge.Process

/-!
# Operations and approvals

`OperationService` decides whether a request is new, a replay or a conflict, and moves operations
through their states.  `ApprovalService` issues and consumes the one-time tokens.
-/

namespace CodemcpBridge

open Service

/-! ## Starting an operation -/

/-- What a tool call asks `start` for. -/
structure StartRequest where
  operationId : String
  projectId : String
  sessionId : Option String
  kind : OperationKind
  mutation : Bool
  clientRequestId : String
  requestHash : HashText
  input : Dict

/-- `OperationStart`: the row, and the payload to answer with if it is a replay. -/
structure OperationStart where
  record : OperationRecord
  replay : Option Payload

/-- The digest of the canonical input. -/
def StartRequest.digest (r : StartRequest) : Json := CodemcpBridge.requestHash (.obj r.input)

/-- The key that the request is stored under. -/
def StartRequest.key (r : StartRequest) (principal : Option AuthContext) : ReplayKey :=
  encodeReplayKey (principal.map AuthContext.replayNamespace) r.clientRequestId

/-- The checks that need no store. -/
def StartRequest.check (r : StartRequest) : Except Exn Unit :=
  let invalid (message : String) (details : Dict) : Except Exn Unit :=
    .error (.bridge { code := .invalidRequest, message, details })
  if r.mutation ∧ r.clientRequestId = "" then
    invalid "client_request_id is required for mutation operations" []
  else if !Text.isIdentifier r.clientRequestId then
    invalid "client_request_id has an invalid format" []
  else match r.requestHash with
    | .malformed _ => invalid "request_hash must be a SHA-256 hex digest" []
    | .hex digest =>
      if digest ≠ r.digest then
        invalid "request_hash does not match the canonical operation input"
          [("field", .str "request_hash")]
      else .ok ()

/-- `_unknown_payload`. -/
def unknownPayload (record : OperationRecord) : Payload :=
  errorPayload record.clientRequestId record.sessionId record.projectId record.operationId
    { code := .unknownSideEffect
      message := "mutation outcome is unknown and requires reconciliation"
      details := [("operation_id", .str record.operationId)]
      status := .unknown }

/-- The status that an answer shows for a stored state. -/
def statusOf : OperationState → Status
  | .succeeded => .succeeded
  | .failed => .failed
  | .cancelled => .cancelled
  | .unknown => .unknown
  | .awaitingApproval => .awaitingApproval
  | .received | .validated | .dispatched | .running => .running

/-- `_error_from_record` of a failed or cancelled record. -/
def errorFromRecord (record : OperationRecord) (error : ErrorData) : Payload :=
  { requestId := record.clientRequestId, sessionId := record.sessionId
    projectId := record.projectId, operationId := record.operationId
    status := statusOf record.state, error := some error }

/-- How a request is answered from a row that holds its key. -/
def replayOf (record : OperationRecord) : Except BridgeError Payload :=
  match record.result with
  | some payload => .ok payload
  | none =>
    if record.state = .unknown then .ok (unknownPayload record)
    else match record.error with
      | some error =>
        if record.state = .failed ∨ record.state = .cancelled then
          .ok (errorFromRecord record error)
        else .error (inProgress record)
      | none => .error (inProgress record)
where
  inProgress (record : OperationRecord) : BridgeError :=
    { code := .operationInProgress
      message := "the operation for this client_request_id is still active"
      details := [("operation_id", .str record.operationId), ("state", .str record.state.text)]
      retryable := true
      status := .running }

/-- The decision on an existing row: whose it is, what was asked, and what became of it. -/
def existingStart (record : OperationRecord) (storedAuth currentAuth : Option Dict)
    (digest : Json) : Except BridgeError OperationStart :=
  if storedAuth.bind authContextIdentity ≠ currentAuth.bind authContextIdentity then
    .error {
      code := .idempotencyConflict
      message := "client_request_id is bound to a different authenticated identity"
      details := [("operation_id", .str record.operationId)] }
  else if record.requestHash ≠ digest then
    .error {
      code := .idempotencyConflict
      message := "client_request_id was already used with a different request_hash"
      details := [("operation_id", .str record.operationId)] }
  else (replayOf record).map fun payload => { record, replay := some payload }

/-- The first candidate that an OAuth caller may be bound to by a key without namespace. -/
def legacyRecord : List OperationRecord → Service (Option OperationRecord)
  | [] => pure none
  | candidate :: rest => do
    let stored ← store (.getOperationAuthContext candidate.operationId)
    match stored.bind authContextIdentity with
    | none => pure (some candidate)
    | some identity =>
      if identity.1 = "oauth-resource-server" then pure (some candidate) else legacyRecord rest

def isOAuth : Option AuthContext → Bool
  | some (.oauth _) => true
  | _ => false

/-- The row that already answers to the request's key, if any. -/
def findExisting (principal : Option AuthContext) (r : StartRequest) :
    Service (Option OperationRecord) := do
  match ← store (.getOperationByClientRequestId r.projectId r.sessionId (r.key principal)) with
  | some record => pure (some record)
  | none =>
    if isOAuth principal then do
      let candidates ← store (.getOperationsByClientRequestId r.projectId r.sessionId
        r.clientRequestId)
      legacyRecord candidates
    else pure none

/-- `create_operation`, with the conflict that blocks the project reported to the client. -/
def createRow (principal : Option AuthContext) (r : StartRequest) :
    Service (OperationRecord × Bool) :=
  (operation (.create r.operationId r.projectId r.sessionId Database.localOwnerId
    (r.key principal) r.digest r.kind r.mutation r.input)).handle fun
      | .activeOperationConflict operationId state => some (reject .operationBlocked
          "another mutation operation blocks this project"
          [("operation_id", .str operationId), ("state", .str state.text)])
      | _ => none

/-- `start` on a row that is there already. -/
def startExisting (principal : Option AuthContext) (r : StartRequest) (record : OperationRecord) :
    Service OperationStart := do
  let storedAuth ← store (.getOperationAuthContext record.operationId)
  match existingStart record storedAuth (principal.map authAuditDetails) r.digest with
  | .ok start => pure start
  | .error e => raise e

/-- Record who has created an operation. -/
def recordCaller (operationId : String) : Option AuthContext → Service Unit
  | some context => operation (.recordAuthContext operationId (authAuditDetails context))
  | none => pure ()

/-- `start` on a row that it has just created; the stored context is read, but not used. -/
def startNew (principal : Option AuthContext) (record : OperationRecord) :
    Service OperationStart := do
  let _ ← (store (.getOperationAuthContext record.operationId)).handle fun e => some do
    mark (.dropped record.operationId)
    Async.Prog.raise e
  recordCaller record.operationId principal
  let record ← operation (.transition record.operationId .validated (some .received) none none)
  pure { record, replay := none }

/-- `OperationService.start`. -/
def startOperation (principal : Option AuthContext) (r : StartRequest) :
    Service OperationStart := do
  Async.Prog.lift r.check
  match ← findExisting principal r with
  | some record => startExisting principal r record
  | none => do
    let (record, existing) ← createRow principal r
    if existing then startExisting principal r record else startNew principal record

/-! ## State changes -/

/-- `OperationService.dispatch`. -/
def dispatch (operationId : String) (fromState : OperationState) : Service OperationRecord := do
  let record ← operation (.transition operationId .dispatched (some fromState) none none)
  operation (.transition operationId .running (some record.state) none none)

/-- `OperationService.await_approval`. -/
def awaitApproval (operationId : String) (error : ErrorData) : Service OperationRecord :=
  operation (.transition operationId .awaitingApproval (some .validated) none
    (some error.withoutToken))

/-- `OperationService.finish`. -/
def finish (operationId : String) (state : OperationState) (payload : Payload) :
    Service OperationRecord :=
  operation (.transition operationId state none (some payload.persistable)
    (payload.error.map ErrorData.withoutToken))

/-- `OperationService.operation`. -/
def operationRecord (operationId : String) : Service OperationRecord := do
  match ← store (.getOperation operationId) with
  | some record => pure record
  | none => reject .operationNotFound "operation_id is not known"

/-! ## Approvals -/

structure ApprovalGrant where
  approvalId : String
  token : String
  expiresAt : ℕ

/-- `ApprovalService.issue`. -/
def issueApproval (settings : PolicySettings) (record : OperationRecord) (action : String) :
    Service ApprovalGrant := do
  let token ← quiet .token
  let now ← quiet .now
  let approvalId ← quiet .uuid
  let expiresAt := now + 1000 * settings.approvalTtlSeconds
  operation (.createApproval approvalId record action ⟨token⟩ expiresAt)
  pure { approvalId, token, expiresAt }

/-- `ApprovalService.consume`. -/
def consumeApproval (operationId token : String) : Service OperationRecord := do
  if token = "" ∨ token.length > 256 then
    reject .approvalInvalid "approval token is invalid"
  let now ← quiet .now
  (operation (.consumeApproval operationId ⟨token⟩ now)).handle fun
    | .approvalNotFound => some (reject .approvalInvalid "approval does not exist")
    | .approvalTokenMismatch => some (reject .approvalInvalid "approval token is invalid")
    | .approvalExpired => some (reject .approvalExpired "approval has expired")
    | .approvalAlreadyUsed =>
      some (reject .approvalAlreadyUsed "approval is no longer pending")
    | _ => none

/-- `ApprovalService.cancel`. -/
def cancelApproval (operationId reason : String) : Service Unit :=
  (operation (.cancelApproval operationId reason)).handle fun
    | .approvalNotFound =>
      some (reject .operationNotCancelable "operation has no pending approval")
    | _ => none

end CodemcpBridge
