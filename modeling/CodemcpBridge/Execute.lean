import CodemcpBridge.Operations

/-!
# Running one operation

`_execute` is the wrapper of every tool that is an operation: it starts or replays, judges whether
an approval is needed, runs the body, and settles the operation however the body ends.
-/

namespace CodemcpBridge

open Service

/-- `start`: open the store and recover, once in the life of the process. -/
def startBridge : Service Unit := do
  if !(← Async.Prog.ask Ask.started) then
    let _ ← operation .recoverAfterRestart
    Async.Prog.ask (Ask.setStarted true)

/-- Who calls, with the request id of the transport if there is one. -/
structure Caller where
  requestId : Option String := none
  principal : Option AuthContext := none

/-- What the approval check of a command leaves for its body: the project and the command. -/
abbrev Prepared := Option (ProjectSpec × CommandSpec)

/-- What a tool hands to `_execute`. -/
structure Execution where
  projectId : String
  sessionId : Option String
  kind : OperationKind
  input : Dict
  mutation : Bool := false
  clientRequestId : Option String := none
  requestHash : Option HashText := none
  approvalAction : Option String := none
  approvalCheck : Option (Body (Bool × Prepared)) := none
  operation : Prepared → String → Service Outcome

/-- `_request_id`. -/
def requestIdOf (caller : Caller) : Service String :=
  match caller.requestId with
  | some requestId => pure requestId
  | none => quiet .uuid

/-- The client id that the operation is stored under. -/
def clientIdOf (x : Execution) (requestId operationId : String) : String :=
  match x.clientRequestId.filter (· ≠ "") with
  | some clientRequestId => clientRequestId
  | none =>
    if x.mutation then ""
    else if requestId = "0" then x.kind.text ++ "-" ++ operationId
    else requestId

/-- The request hash that is checked against the input. -/
def requestHashOf (x : Execution) : HashText :=
  (x.requestHash.filter (· ≠ .malformed "")).getD
    (if x.mutation then .malformed "" else .hex (requestHash (.obj x.input)))

/-- The project that the operation is stored under. -/
def storedProject (x : Execution) : String :=
  if x.projectId = "" then "__bridge__" else x.projectId

/-- What `_execute` asks `start` for. -/
def startRequest (x : Execution) (requestId operationId : String) : StartRequest :=
  { operationId, projectId := storedProject x, sessionId := x.sessionId, kind := x.kind
    mutation := x.mutation, clientRequestId := clientIdOf x requestId operationId
    requestHash := requestHashOf x, input := x.input }

/-- Settle an operation with an error and answer with it. -/
def settleError (x : Execution) (requestId operationId : String) (state : OperationState)
    (error : BridgeError) : Service Payload := do
  let payload := errorPayload requestId x.sessionId x.projectId operationId error
  let _ ← finish operationId state payload
  pure payload

/-- The answer to an operation whose body has returned. -/
def outcomePayload (x : Execution) (requestId operationId : String) (outcome : Outcome) :
    Payload :=
  let returned := (Dict.get? outcome.data "session_id").bind Json.str?
  successPayload requestId (x.sessionId <|> returned) x.projectId operationId outcome.data
    outcome.changedFiles outcome.truncated outcome.status

/-- What a cancelled call stores; the error of a read has a code that no `BridgeError` may have. -/
def cancelledError (x : Execution) (operationId : String) :
    Except Exn (BridgeError × OperationState) :=
  if x.mutation then
    .ok ({ code := .unknownSideEffect
           message := "mutation request was cancelled while the backend outcome may be unknown"
           details := [("operation_id", .str operationId),
             ("cause", .str "client_request_cancelled")]
           status := .unknown }, .unknown)
  else
    (BridgeError.make "CLIENT_REQUEST_CANCELLED"
      "request was cancelled before a result could be returned"
      [("operation_id", .str operationId)] true .failed).map fun e => (e, .failed)

/-- A cancelled read ends in the exception that its error raises while it is built. -/
theorem cancelledError_read {x : Execution} (operationId : String) (h : x.mutation = false) :
    cancelledError x operationId = .error .valueError := by
  have : ErrorCode.ofText "CLIENT_REQUEST_CANCELLED" = none := by decide
  simp [cancelledError, h, BridgeError.make, this, Except.map]

/-- The handlers of the body's exceptions. -/
def settle (x : Execution) (requestId operationId : String) : Exn → Service Payload
  | .bridge e =>
    settleError x requestId operationId (if e.status = .unknown then .unknown else .failed) e
  | .cancelled => do
    if !x.mutation then mark (.dropped operationId)
    let (error, state) ← Async.Prog.lift (cancelledError x operationId)
    let _ ← (settleError x requestId operationId state error).attempt
    Async.Prog.raise .cancelled
  | _ => settleError x requestId operationId .failed {
      code := .backendUnavailable
      message := "Bridge backend operation failed"
      details := [("project_id", .str x.projectId)]
      retryable := true
      status := .failed }

/-- Dispatch the operation, run its body and settle it. -/
def runOperation (x : Execution) (prepared : Prepared) (requestId operationId : String) :
    Service Payload :=
  let body : Service Payload := do
    let _ ← dispatch operationId .validated
    mark (.enter operationId)
    let outcome ← x.operation prepared operationId
    let payload := outcomePayload x requestId operationId outcome
    let _ ← finish operationId (if outcome.status = .failed then .failed else .succeeded) payload
    pure payload
  body.handle fun e => some (settle x requestId operationId e)

/-- Issue an approval for the operation and answer with its token. -/
def requireApproval (settings : PolicySettings) (x : Execution) (requestId : String)
    (record : OperationRecord) : Service Payload := do
  let action := (x.approvalAction.filter (· ≠ "")).getD x.kind.text
  let grant ← issueApproval settings record action
  let payload := errorPayload requestId x.sessionId x.projectId record.operationId {
    code := .approvalRequired
    message := "explicit approval is required before this operation can run"
    details := [("operation_id", .str record.operationId), ("approval_id", .str grant.approvalId),
      ("approval_token", .str grant.token), ("expires_at", .num grant.expiresAt),
      ("action", .str action)]
    status := .awaitingApproval }
  match payload.error with
  | some error => do
    let _ ← awaitApproval record.operationId error
    pure payload
  | none => pure payload

/-- Whether the operation needs an approval, as its tool's check says. -/
def judge (settings : PolicySettings) (x : Execution) : Service (Bool × Prepared) :=
  match x.approvalCheck with
  | some check => carry settings check
  | none => pure (false, none)

/-- Go on after the approval check, or settle with its `BridgeError`; no other exception is met. -/
def afterCheck (settings : PolicySettings) (x : Execution) (requestId : String)
    (record : OperationRecord) : Except Exn (Bool × Prepared) → Service Payload
  | .ok (needsApproval, prepared) => do
    mark (.judged record.operationId needsApproval (prepared.map Prod.snd))
    if needsApproval then requireApproval settings x requestId record
    else runOperation x prepared requestId record.operationId
  | .error (.bridge e) => settleError x requestId record.operationId .failed e
  | .error e => do
    mark (.dropped record.operationId)
    Async.Prog.raise e

/-- `_execute` after a fresh start of the operation. -/
def executeStarted (settings : PolicySettings) (x : Execution) (requestId : String)
    (record : OperationRecord) : Service Payload :=
  (judge settings x).andThen (afterCheck settings x requestId record)

/-- `_execute`. -/
def execute (settings : PolicySettings) (caller : Caller) (x : Execution) : Service Payload := do
  startBridge
  carry settings refreshProjectRegistry
  let requestId ← requestIdOf caller
  let operationId ← quiet .uuid
  let started ← (Except.ok <$> startOperation caller.principal
      (startRequest x requestId operationId) : Service _).exceptBridge fun e =>
    pure (Except.error (errorPayload requestId x.sessionId x.projectId operationId e))
  match started with
  | .error payload => pure payload
  | .ok started => match started.replay with
    | some payload => pure payload
    | none => executeStarted settings x requestId started.record

end CodemcpBridge
