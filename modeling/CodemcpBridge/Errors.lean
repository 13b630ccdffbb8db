import CodemcpBridge.Db.States
import CodemcpBridge.Json

/-!
# Structured errors and the envelope of every answer

`BridgeError` is the one exception whose content reaches a client.  Its code is one of `ERROR_CODES`
by type; a code written elsewhere is checked when the error is built, as `__post_init__` does.
-/

namespace CodemcpBridge

/-- What does not fail first does not fail in a part of it. -/
theorem bind_eq_ok {E α β : Type} {x : Except E α} {f : α → Except E β} {b : β} :
    x >>= f = .ok b ↔ ∃ a, x = .ok a ∧ f a = .ok b := by
  cases x <;> simp [bind, Except.bind]

/-- `ERROR_CODES`. -/
inductive ErrorCode
  | invalidRequest | projectNotAllowed | pathEscape | sensitivePath | fileNotFound | fileTooLarge
  | binaryFile | commandNotAllowed | approvalRequired | workspaceDirty | branchNotAllowed
  | sessionRequired | sessionNotFound | bridgeRestarted | idempotencyConflict | operationNotFound
  | operationInProgress | operationBlocked | approvalInvalid | approvalExpired
  | approvalAlreadyUsed | operationNotCancelable | reconcileRequired | conflict
  | backendUnavailable | unknownSideEffect | checkpointNotFound | checkpointInvalid
  | checkpointConflict
  deriving DecidableEq, Repr

namespace ErrorCode

def text : ErrorCode → String
  | invalidRequest => "INVALID_REQUEST"
  | projectNotAllowed => "PROJECT_NOT_ALLOWED"
  | pathEscape => "PATH_ESCAPE"
  | sensitivePath => "SENSITIVE_PATH"
  | fileNotFound => "FILE_NOT_FOUND"
  | fileTooLarge => "FILE_TOO_LARGE"
  | binaryFile => "BINARY_FILE"
  | commandNotAllowed => "COMMAND_NOT_ALLOWED"
  | approvalRequired => "APPROVAL_REQUIRED"
  | workspaceDirty => "WORKSPACE_DIRTY"
  | branchNotAllowed => "BRANCH_NOT_ALLOWED"
  | sessionRequired => "SESSION_REQUIRED"
  | sessionNotFound => "SESSION_NOT_FOUND"
  | bridgeRestarted => "BRIDGE_RESTARTED"
  | idempotencyConflict => "IDEMPOTENCY_CONFLICT"
  | operationNotFound => "OPERATION_NOT_FOUND"
  | operationInProgress => "OPERATION_IN_PROGRESS"
  | operationBlocked => "OPERATION_BLOCKED"
  | approvalInvalid => "APPROVAL_INVALID"
  | approvalExpired => "APPROVAL_EXPIRED"
  | approvalAlreadyUsed => "APPROVAL_ALREADY_USED"
  | operationNotCancelable => "OPERATION_NOT_CANCELABLE"
  | reconcileRequired => "RECONCILE_REQUIRED"
  | conflict => "CONFLICT"
  | backendUnavailable => "BACKEND_UNAVAILABLE"
  | unknownSideEffect => "UNKNOWN_SIDE_EFFECT"
  | checkpointNotFound => "CHECKPOINT_NOT_FOUND"
  | checkpointInvalid => "CHECKPOINT_INVALID"
  | checkpointConflict => "CHECKPOINT_CONFLICT"

def all : List ErrorCode :=
  [invalidRequest, projectNotAllowed, pathEscape, sensitivePath, fileNotFound, fileTooLarge,
    binaryFile, commandNotAllowed, approvalRequired, workspaceDirty, branchNotAllowed,
    sessionRequired, sessionNotFound, bridgeRestarted, idempotencyConflict, operationNotFound,
    operationInProgress, operationBlocked, approvalInvalid, approvalExpired, approvalAlreadyUsed,
    operationNotCancelable, reconcileRequired, conflict, backendUnavailable, unknownSideEffect,
    checkpointNotFound, checkpointInvalid, checkpointConflict]

/-- The code with this text, if there is one. -/
def ofText (s : String) : Option ErrorCode := all.find? fun c => c.text == s

end ErrorCode

/-- The status of an answer. -/
inductive Status
  | rejected | failed | unknown | awaitingApproval | running | succeeded | cancelled
  deriving DecidableEq, Repr

def Status.text : Status → String
  | rejected => "rejected"
  | failed => "failed"
  | unknown => "unknown"
  | awaitingApproval => "awaiting_approval"
  | running => "running"
  | succeeded => "succeeded"
  | cancelled => "cancelled"

structure BridgeError where
  code : ErrorCode
  message : String
  details : Dict := []
  retryable : Bool := false
  status : Status := .rejected
  deriving DecidableEq

/-- The exceptions that a call can meet. -/
inductive Exn
  /-- `asyncio.CancelledError`, the only one here that is no `Exception`. -/
  | cancelled
  | bridge (e : BridgeError)
  | activeOperationConflict (operationId : String) (state : OperationState)
  | invalidTransition
  | persistenceError
  | approvalNotFound
  | approvalTokenMismatch
  | approvalAlreadyUsed
  | approvalExpired
  /-- `sqlite3.IntegrityError`. -/
  | integrityError
  | osError (text : String)
  | fileExistsError
  | fileNotFoundError (text : String)
  | timeoutError
  | valueError
  /-- Any other `Exception`. -/
  | other
  deriving DecidableEq

namespace Exn

/-- The exception is one of `OSError` and its subclasses. -/
def isOSError : Exn → Bool
  | osError _ | fileExistsError | fileNotFoundError _ | timeoutError => true
  | _ => false

/-- `str(exc)` of an `OSError`. -/
def text : Exn → String
  | osError s | fileNotFoundError s => s
  | _ => ""

/-- The exception is an `Exception`; a cancellation is not. -/
def isException : Exn → Bool
  | cancelled => false
  | _ => true

end Exn

/-- `BridgeError(code, …)` with a code that is checked when the error is built. -/
def BridgeError.make (code message : String) (details : Dict) (retryable : Bool)
    (status : Status) : Except Exn BridgeError :=
  match ErrorCode.ofText code with
  | some c => .ok { code := c, message, details, retryable, status }
  | none => .error .valueError

/-- The `error` member of an answer and of a stored operation. -/
structure ErrorData where
  code : ErrorCode
  message : String
  /-- Absent from the errors that the restart recovery writes. -/
  details : Option Dict
  retryable : Bool
  deriving DecidableEq

namespace ErrorData

def toJson (e : ErrorData) : Json :=
  .obj ([("code", .str e.code.text), ("message", .str e.message)] ++
    (e.details.map fun d => ("details", .obj d)).toList ++ [("retryable", .bool e.retryable)])

/-- `details.pop("approval_token", None)`. -/
def withoutToken (e : ErrorData) : ErrorData :=
  { e with details := e.details.map fun d => d.filter fun f => f.1 != "approval_token" }

end ErrorData

def BridgeError.asPayload (e : BridgeError) : ErrorData :=
  { code := e.code, message := e.message, details := some e.details, retryable := e.retryable }

/-- The envelope returned by every tool. -/
structure Payload where
  requestId : String
  sessionId : Option String
  projectId : Option String
  operationId : String
  status : Status
  changedFiles : List String := []
  truncated : Bool := false
  data : Dict := []
  error : Option ErrorData := none
  deriving DecidableEq

namespace Payload

def toJson (p : Payload) : Json :=
  .obj [("request_id", .str p.requestId), ("session_id", .ofOption p.sessionId),
    ("project_id", .ofOption p.projectId), ("operation_id", .str p.operationId),
    ("status", .str p.status.text), ("changed_files", .ofStrings p.changedFiles),
    ("truncated", .bool p.truncated), ("data", .obj p.data),
    ("error", (p.error.map ErrorData.toJson).getD .null)]

/-- `_persistable_payload`: the payload without a plaintext approval token. -/
def persistable (p : Payload) : Payload := { p with error := p.error.map ErrorData.withoutToken }

end Payload

def successPayload (requestId : String) (sessionId projectId : Option String)
    (operationId : String) (data : Dict) (changedFiles : List String) (truncated : Bool)
    (status : Status) : Payload :=
  { requestId, sessionId, projectId, operationId, status, changedFiles, truncated, data }

def errorPayload (requestId : String) (sessionId projectId : Option String)
    (operationId : String) (error : BridgeError) : Payload :=
  { requestId, sessionId, projectId, operationId, status := error.status,
    error := some error.asPayload }

end CodemcpBridge
