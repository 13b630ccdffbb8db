import CodemcpBridge.Execute
import CodemcpBridge.Reads

/-!
# Confirming, cancelling and reconciling operations

The three tools that act on another operation.  They look the operation up before they start one of
their own, and act on what they saw then.
-/

namespace CodemcpBridge

open Service

/-- `require_operation_for_session`. -/
def requireOperationForSession (env : Env) (operationId sessionId : String) :
    Service OperationRecord := do
  carry env.settings refreshProjectRegistry
  let record ← operationRecord operationId
  if record.ownerId ≠ Database.localOwnerId ∨ record.sessionId ≠ some sessionId then
    reject .operationNotFound "operation_id is not available to this session"
      [("operation_id", .str operationId)]
  let _ ← carry env.settings (requireActive env.principal record.projectId sessionId)
  pure record

/-- The ways in which a session can have ended that leave its unknown operations to a successor. -/
def leavesSuccessor (origin : SessionRecord) : Bool :=
  (origin.status == .blocked && origin.reason == some "bridge_restart") ||
    (origin.status == .closed && origin.reason == some "bridge_shutdown")

/-- `require_operation_for_reconcile`. -/
def requireOperationForReconcile (env : Env) (operationId sessionId : String) :
    Service OperationRecord := do
  let unavailable : Service OperationRecord := reject .operationNotFound
    "operation_id is not available to this session" [("operation_id", .str operationId)]
  carry env.settings refreshProjectRegistry
  let record ← operationRecord operationId
  if record.ownerId ≠ Database.localOwnerId then unavailable
  else do
    let successor ← carry env.settings (requireActive env.principal record.projectId sessionId)
    if record.sessionId = some sessionId then pure record
    else match record.sessionId with
      | none => unavailable
      | some originId =>
        if record.state ≠ .unknown then unavailable
        else do
          match ← store (.getSession originId) with
          | none => unavailable
          | some origin =>
            if origin.projectId ≠ record.projectId ∨ origin.ownerId ≠ successor.ownerId ∨
                !leavesSuccessor origin then unavailable
            else do
              let first ← store (.getSessionAuthContext origin.sessionId)
              let second ← store (.getSessionAuthContext successor.sessionId)
              if authContextsMatch first second then pure record else unavailable

/-- The common start of the three tools: the operation as it stands, or the answer that says no. -/
def withOriginal (caller : Caller) (operationId sessionId : String)
    (find : Service OperationRecord) (run : OperationRecord → Service Payload) :
    Service Payload := do
  startBridge
  let found ← (Except.ok <$> find : Service _).exceptBridge fun e => do
    let requestId ← requestIdOf caller
    pure (Except.error (errorPayload requestId sessionId none operationId e))
  match found with
  | .error payload => pure payload
  | .ok original => run original

/-! ## Confirming -/

/-- `_run_command_for_operation`. -/
def runCommandForOperation (env : Env) (record : OperationRecord) : Body Outcome := do
  let malformed : Body CommandSpec := Body.reject .invalidRequest
    "stored command operation is malformed"
  match (Dict.get? record.input "command_id").bind Json.str? with
  | none => Body.reject .invalidRequest "stored command operation is malformed"
  | some commandId => do
    let project ← getProject record.projectId
    let command ← match Dict.get? record.input "expected_kind" with
      | some (.str kind) => commandOfKind env.settings project commandId kind
      | none | some .null =>
        if record.kind = .registeredCommandRun then
          registeredCommand env.settings project commandId
        else malformed
      | some _ => malformed
    match record.sessionId with
    | none => Body.reject .sessionRequired "approved operation has no session"
    | some sessionId => runCommandBody env project command sessionId record.operationId

/-- `_run_approved_operation`. -/
def runApprovedOperation (env : Env) (record : OperationRecord) : Body Outcome :=
  match record.kind with
  | .checkpointCreate => match record.sessionId with
    | none => Body.reject .sessionRequired "checkpoint operation has no session"
    | some sessionId => createCheckpointBody record.projectId sessionId record.operationId
  | .checkpointRestore => match record.sessionId with
    | none => Body.reject .sessionRequired "rollback operation has no session"
    | some sessionId =>
      match (Dict.get? record.input "checkpoint_id").bind Json.str?,
          (Dict.get? record.input "expected_head").bind Json.str? with
      | some checkpointId, some expectedHead =>
        restoreCheckpointBody env record.projectId sessionId checkpointId expectedHead
          record.operationId
      | _, _ => Body.reject .invalidRequest "stored rollback operation is malformed"
  | _ => runCommandForOperation env record

/-- Settle the approved operation and report it as the outcome of the confirmation. -/
def settleApproved (operationId : String) (state : OperationState) (final : Payload)
    (changedFiles : List String) (truncated : Bool) (status : Status) : Service Outcome := do
  let _ ← finish operationId state final
  pure { data := [("approved_operation", final.toJson)], changedFiles, truncated, status }

/-- What becomes of the approved operation when its body has ended; a cancellation passes. -/
def approvedEnd (caller : Caller) (sessionId : String) (running : OperationRecord) :
    Except Exn Outcome → Service Outcome
  | .ok outcome => do
    let requestId ← requestIdOf caller
    let final := successPayload requestId sessionId running.projectId running.operationId
      outcome.data outcome.changedFiles outcome.truncated outcome.status
    settleApproved running.operationId .succeeded final outcome.changedFiles outcome.truncated
      outcome.status
  | .error .cancelled => do
    mark (.dropped running.operationId)
    Async.Prog.raise .cancelled
  | .error (.bridge e) => do
    let requestId ← requestIdOf caller
    settleApproved running.operationId (if e.status = .unknown then .unknown else .failed)
      (errorPayload requestId sessionId running.projectId running.operationId e) [] false .failed
  | .error _ => do
    let requestId ← requestIdOf caller
    settleApproved running.operationId .unknown
      (errorPayload requestId sessionId running.projectId running.operationId {
        code := .unknownSideEffect
        message := "approved mutation outcome is unknown and requires reconciliation"
        details := [("operation_id", .str running.operationId)]
        status := .unknown }) [] false .failed

/-- Dispatch an operation whose approval has just been consumed, and run its body. -/
def runApproved (env : Env) (caller : Caller) (sessionId operationId : String) :
    Service Outcome := do
  let running ← dispatch operationId .awaitingApproval
  mark (.enter running.operationId)
  (carry env.settings (runApprovedOperation env running)).andThen
    (approvedEnd caller sessionId running)

/-- The body of `approval_confirm`. -/
def confirmBody (env : Env) (caller : Caller) (original : OperationRecord)
    (operationId sessionId token : String) : Service Outcome := do
  let _ ← requireOperationForSession env operationId sessionId
  if original.state ≠ .awaitingApproval then
    reject .operationNotCancelable "operation is not awaiting approval"
      [("operation_id", .str operationId), ("state", .str original.state.text)]
  let approved ← consumeApproval operationId token
  runApproved env caller sessionId approved.operationId

/-! ## Cancelling -/

/-- The body of `operation_cancel`. -/
def cancelBody (env : Env) (caller : Caller) (original : OperationRecord)
    (operationId sessionId : String) : Service Outcome := do
  let _ ← requireOperationForSession env operationId sessionId
  if original.state ≠ .awaitingApproval then
    reject .operationNotCancelable "only an operation awaiting approval can be cancelled"
      [("operation_id", .str operationId), ("state", .str original.state.text)]
  cancelApproval operationId "client_cancelled"
  let requestId ← requestIdOf caller
  let final := successPayload requestId sessionId original.projectId operationId
    [("state", .str "cancelled")] [] false .cancelled
  let _ ← finish operationId .cancelled final
  pure { data := [("cancelled_operation", final.toJson)], changedFiles := []
         status := .cancelled }

/-! ## Reconciling -/

inductive Decision
  | failed | succeeded
  | other (text : String)
  deriving DecidableEq

def Decision.text : Decision → String
  | failed => "failed"
  | succeeded => "succeeded"
  | other s => s

/-- The checkpoint that a reconciliation as succeeded finalizes. -/
def unfinishedCheckpoint (operationId : String) : Body CheckpointRecord := do
  let checkpoints ← Body.store (.listCheckpoints operationId)
  match checkpoints.filter fun c => c.kind == .mutation with
  | [checkpoint] =>
    if checkpoint.after.isSome then
      Body.reject .reconcileRequired
        "successful reconciliation requires an unfinished mutation checkpoint"
        [("checkpoint_id", .str checkpoint.checkpointId)]
    else pure checkpoint
  | others =>
    Body.reject .reconcileRequired
      "successful reconciliation requires exactly one mutation checkpoint"
      [("checkpoint_count", .num others.length)]

/-- Verify and finalize the operation's checkpoint with what the project holds now. -/
def finalizeReconciled (env : Env) (project : ProjectSpec) (operationId : String) :
    Body Dict := do
  let checkpoint ← unfinishedCheckpoint operationId
  Checkpoints.verifyRef project checkpoint
  let finalized ← Checkpoints.finalizeCurrent env.settings project checkpoint
  Async.Prog.lift (Checkpoints.summary finalized)

/-- Settle the reconciled operation. -/
def settleReconciled (operationId : String) (state : OperationState) (final : Payload)
    (status : Status) : Service Outcome := do
  let _ ← finish operationId state final
  pure { data := [("reconciled_operation", final.toJson)], changedFiles := final.changedFiles
         status }

/-- Settle an unknown operation as succeeded, under the project's mutation lock. -/
def reconcileSucceeded (env : Env) (caller : Caller) (original : OperationRecord)
    (operationId sessionId evidence : String) : Service Outcome := do
  let project ← carry env.settings (getProject original.projectId)
  quiet (.acquire project.projectId)
  let locked : Service Outcome := do
    let checkpointData ← carry env.settings (finalizeReconciled env project operationId)
    let requestId ← requestIdOf caller
    settleReconciled operationId .succeeded
      (successPayload requestId sessionId original.projectId operationId
        [("reconciled", .bool true), ("evidence", .str evidence),
          ("checkpoint", .obj checkpointData)]
        (Checkpoints.changedFilesOf checkpointData) false .succeeded) .succeeded
  locked.ensuring (quiet (.release project.projectId))

/-- The body of `operation_reconcile`. -/
def reconcileBody (env : Env) (caller : Caller) (original : OperationRecord)
    (operationId sessionId : String) (decision : Decision) (evidence : String) :
    Service Outcome := do
  let _ ← requireOperationForReconcile env operationId sessionId
  match decision with
  | .other _ =>
    reject .reconcileRequired
      "decision must explicitly confirm whether the unknown mutation failed or succeeded"
  | _ => pure ()
  if evidence = "" ∨ evidence.length > 1000 then
    reject .invalidRequest "evidence must be 1-1000 characters"
  if original.state ≠ .unknown then
    reject .reconcileRequired "only unknown operations require reconciliation"
      [("state", .str original.state.text)]
  if decision = .failed then do
    let requestId ← requestIdOf caller
    settleReconciled operationId .failed
      (errorPayload requestId sessionId original.projectId operationId {
        code := .bridgeRestarted
        message := "operation was reconciled as not executed"
        details := [("evidence", .str evidence), ("reconciled", .bool true)]
        status := .failed }) .failed
  else reconcileSucceeded env caller original operationId sessionId evidence

end CodemcpBridge
