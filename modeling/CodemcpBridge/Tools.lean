import CodemcpBridge.Approvals

/-!
# The tools

Every tool call of the public surface, and the program that serves it.
-/

namespace CodemcpBridge

open Service

/-- The idempotency arguments of a mutation tool. -/
structure RequestKey where
  clientRequestId : Option String
  requestHash : Option HashText

/-- The tools that run commands of one kind only. -/
inductive CommandTool
  | format | test
  deriving DecidableEq, Repr

def CommandTool.text : CommandTool → String
  | format => "format"
  | test => "test"

/-- A call of one of the public tools, or of the health route. -/
inductive ToolCall
  | projectOpen (projectId : String)
  | projectStatus (projectId : String) (sessionId : Option String)
  | fileRead (projectId sessionId path : String) (offset limit : Option Int)
  | codeSearch (projectId sessionId pattern : String) (path include_ : Option String)
  | fileList (projectId sessionId : String) (path : Option String)
  | fileEdit (projectId sessionId path oldString newString description : String)
    (key : RequestKey)
  | fileCreate (projectId sessionId path content description : String) (key : RequestKey)
  | fileWrite (projectId sessionId path content : String) (expectedSha256 : HashText)
    (description : String) (key : RequestKey)
  | fileMove (projectId sessionId sourcePath destinationPath description : String)
    (key : RequestKey)
  | fileDelete (projectId sessionId path description : String) (key : RequestKey)
  | directoryCreate (projectId sessionId path description : String) (key : RequestKey)
  /-- `registered_command_run`, `format_run` and `test_run`. -/
  | runCommand (projectId sessionId commandId : String) (expectedKind : Option CommandTool)
    (key : RequestKey)
  | gitStatus (projectId sessionId : String)
  | gitDiff (projectId sessionId : String) (checkpointId : Option String)
  | checkpointCreate (projectId sessionId : String) (key : RequestKey)
  | checkpointRestore (projectId sessionId checkpointId expectedHead : String) (key : RequestKey)
  | operationStatus (operationId sessionId : String)
  | approvalConfirm (operationId sessionId token : String) (key : RequestKey)
  | operationCancel (operationId sessionId : String) (key : RequestKey)
  | operationReconcile (operationId sessionId : String) (decision : Decision) (evidence : String)
    (key : RequestKey)
  | health

/-! ## Inputs -/

def fileReadInput (path : String) (offset limit : Option Int) : Dict :=
  let number (n : Option Int) : Json := (n.map Json.num).getD .null
  [("path", .str path), ("offset", number offset), ("limit", number limit)]

def commandInput (commandId : String) (expectedKind : Option CommandTool) : Dict :=
  [("command_id", .str commandId)] ++
    (expectedKind.map fun k => ("expected_kind", Json.str k.text)).toList

/-- `calculate_request_hash` of a text argument. -/
def textDigest (s : String) : Json := requestHash (.str s)

/-- The canonical input of an operation that belongs to a project and a session as a whole. -/
def sessionInput (projectId : String) (sessionId : Option String) : Dict :=
  [("project_id", .str projectId), ("session_id", .ofOption sessionId)]

/-! ## Executions -/

/-- A read: no arguments for a key, and a body that the process carries out. -/
def readExecution (env : Env) (projectId : String) (sessionId : Option String)
    (kind : OperationKind) (input : Dict) (body : Body Outcome) : Execution :=
  { projectId, sessionId, kind, input, operation := fun _ _ => carry env.settings body }

/-- A mutation with a key, whose body gets the id of its operation. -/
def mutationExecution (env : Env) (projectId sessionId : String) (kind : OperationKind)
    (input : Dict) (key : RequestKey) (body : String → Body Outcome) : Execution :=
  { projectId, sessionId, kind, input, mutation := true, clientRequestId := key.clientRequestId
    requestHash := key.requestHash
    operation := fun _ operationId => carry env.settings (body operationId) }

/-- An operation on another operation: no mutation of a project, with a key of its own. -/
def lifecycleExecution (original : OperationRecord) (sessionId : String) (kind : OperationKind)
    (input : Dict) (key : RequestKey) (body : Service Outcome) : Execution :=
  { projectId := original.projectId, sessionId, kind, input
    clientRequestId := key.clientRequestId, requestHash := key.requestHash
    operation := fun _ _ => body }

/-- The approval check of a registered command: the session, the command and its approval. -/
def commandApprovalCheck (env : Env) (projectId sessionId commandId : String)
    (expectedKind : Option CommandTool) : Body (Bool × Prepared) := do
  let _ ← requireSession env.principal projectId sessionId
  let project ← getProject projectId
  let command ← resolveCommand env project commandId (expectedKind.map CommandTool.text)
  pure (command.approval == .required, some (project, command))

/-- The body of a registered command that needs no approval. -/
def commandBody (env : Env) (projectId sessionId commandId : String)
    (expectedKind : Option CommandTool) (prepared : Prepared) (operationId : String) :
    Body Outcome := do
  let _ ← requireSession env.principal projectId sessionId
  match prepared with
  | some (project, command) => runCommandBody env project command sessionId operationId
  | none => do
    let project ← getProject projectId
    let command ← resolveCommand env project commandId (expectedKind.map CommandTool.text)
    runCommandBody env project command sessionId operationId

/-- `_run_registered_command`. -/
def commandExecution (env : Env) (projectId sessionId commandId : String)
    (expectedKind : Option CommandTool) (key : RequestKey) : Execution :=
  { projectId, sessionId
    kind := match expectedKind with
      | none => .registeredCommandRun
      | some .format => .formatRun
      | some .test => .testRun
    input := commandInput commandId expectedKind
    mutation := true
    clientRequestId := key.clientRequestId
    requestHash := key.requestHash
    approvalAction := some (((expectedKind.map CommandTool.text).getD "command") ++ ":" ++
      commandId)
    approvalCheck := some (commandApprovalCheck env projectId sessionId commandId expectedKind)
    operation := fun prepared operationId => carry env.settings
      (commandBody env projectId sessionId commandId expectedKind prepared operationId) }

/-- The approval check of `checkpoint_create`. -/
def checkpointCreateCheck (env : Env) (projectId sessionId : String) :
    Body (Bool × Prepared) := do
  let _ ← requireSession env.principal projectId sessionId
  let project ← getProject projectId
  requireMutationPreconditions env.settings project
  pure (true, none)

def checkpointCreateExecution (env : Env) (projectId sessionId : String) (key : RequestKey) :
    Execution :=
  { mutationExecution env projectId sessionId .checkpointCreate
      (sessionInput projectId sessionId) key (fun operationId => do
        let _ ← requireSession env.principal projectId sessionId
        createCheckpointBody projectId sessionId operationId) with
    approvalAction := some "checkpoint_create"
    approvalCheck := some (checkpointCreateCheck env projectId sessionId) }

/-- `_restore_checkpoint_preconditions`. -/
def checkpointRestoreCheck (env : Env) (projectId sessionId checkpointId expectedHead : String) :
    Body (Bool × Prepared) := do
  Checkpoints.validateExpectedHead expectedHead
  let _ ← requireSession env.principal projectId sessionId
  let project ← getProject projectId
  let _ ← rollbackPreconditions env project projectId sessionId checkpointId expectedHead
  pure (true, none)

def checkpointRestoreExecution (env : Env)
    (projectId sessionId checkpointId expectedHead : String) (key : RequestKey) : Execution :=
  { mutationExecution env projectId sessionId .checkpointRestore
      (sessionInput projectId sessionId ++
        [("checkpoint_id", .str checkpointId), ("expected_head", .str expectedHead)]) key
      (restoreCheckpointBody env projectId sessionId checkpointId expectedHead) with
    approvalAction := some ("checkpoint_restore:" ++ checkpointId)
    approvalCheck := some
      (checkpointRestoreCheck env projectId sessionId checkpointId expectedHead) }

/-- What a tool that is an operation of its own hands to `_execute`; the three tools that act on
another operation look that one up first. -/
def ToolCall.execution (env : Env) : ToolCall → Option Execution
  | projectOpen p => some (readExecution env p none .projectOpen [("project_id", .str p)]
      (projectOpenBody env p))
  | projectStatus p s => some (readExecution env p s .projectStatus (sessionInput p s)
      (projectStatusBody env p s))
  | fileRead p s path offset limit => some (readExecution env p s .fileRead
      (fileReadInput path offset limit) (fileReadBody env p s path offset limit))
  | codeSearch p s pattern path include_ => some (readExecution env p s .codeSearch
      [("pattern", .str pattern), ("path", .ofOption path), ("include", .ofOption include_)]
      (codeSearchBody env p s pattern path include_))
  | fileList p s path => some (readExecution env p s .fileList [("path", .ofOption path)]
      (fileListBody env p s path))
  | fileEdit p s path old new description key => some (mutationExecution env p s .fileEdit
      [("path", .str path), ("description", .str description),
        ("old_string_digest", textDigest old), ("new_string_digest", textDigest new)] key
      (fileEditBody env p s path old new description))
  | fileCreate p s path content description key => some (mutationExecution env p s .fileCreate
      [("path", .str path), ("description", .str description),
        ("content_digest", textDigest content)] key
      (fileCreateBody env p s path content description))
  | fileWrite p s path content expected description key => some (mutationExecution env p s
      .fileWrite [("path", .str path), ("description", .str description),
        ("expected_sha256", expected.normalized), ("content_digest", textDigest content)] key
      (fileWriteBody env p s path content expected description))
  | fileMove p s source destination description key => some (mutationExecution env p s .fileMove
      [("source_path", .str source), ("destination_path", .str destination),
        ("description", .str description)] key
      (fileMoveBody env p s source destination description))
  | fileDelete p s path description key => some (mutationExecution env p s .fileDelete
      [("path", .str path), ("description", .str description)] key
      (fileDeleteBody env p s path description))
  | directoryCreate p s path description key => some (mutationExecution env p s .directoryCreate
      [("path", .str path), ("description", .str description)] key
      (directoryCreateBody env p s path description))
  | runCommand p s commandId kind key => some (commandExecution env p s commandId kind key)
  | gitStatus p s => some (readExecution env p s .gitStatus (sessionInput p s)
      (gitStatusBody env p s))
  | gitDiff p s checkpointId => some (readExecution env p s .gitDiff
      (sessionInput p s ++ [("checkpoint_id", .ofOption checkpointId)])
      (gitDiffBody env p s checkpointId))
  | checkpointCreate p s key => some (checkpointCreateExecution env p s key)
  | checkpointRestore p s checkpointId expectedHead key =>
    some (checkpointRestoreExecution env p s checkpointId expectedHead key)
  | _ => none

/-! ## Programs -/

/-- `project_open` draws a key of its own for every call. -/
def projectOpen (env : Env) (caller : Caller) (x : Execution) : Service Payload := do
  let clientRequestId ← quiet .uuid
  execute env.settings caller { x with
    clientRequestId := some clientRequestId
    requestHash := some (.hex (requestHash (.obj x.input))) }

/-- An audit event as `operation_status` shows it. -/
def AuditEvent.toJson (e : AuditEvent) : Json :=
  .obj [("event_id", .str e.eventId), ("operation_id", .ofOption e.operationId),
    ("project_id", .ofOption e.projectId), ("session_id", .ofOption e.sessionId),
    ("owner_id", .str e.ownerId), ("event_type", .str e.eventType),
    ("from_state", .ofOption e.fromState), ("to_state", .ofOption e.toState),
    ("details", .obj e.details), ("created_at", .num e.createdAt)]

/-- The data that `operation_status` answers with. -/
def statusData (record : OperationRecord) (checkpoints : List Dict) (events : List AuditEvent) :
    Dict :=
  let time (t : Option ℕ) : Json := (t.map fun n => Json.num n).getD .null
  [("state", .str record.state.text), ("kind", .str record.kind.text),
    ("mutation", .bool record.mutation), ("client_request_id", .str record.clientRequestId),
    ("created_at", .num record.createdAt), ("updated_at", .num record.updatedAt),
    ("started_at", time record.startedAt), ("finished_at", time record.finishedAt),
    ("result", (record.result.map Payload.toJson).getD .null),
    ("error", (record.error.map ErrorData.toJson).getD .null),
    ("checkpoints", .arr (checkpoints.map .obj)),
    ("audit_events", .arr (events.map AuditEvent.toJson))]

/-- `operation_status`. -/
def operationStatus (env : Env) (caller : Caller) (operationId sessionId : String) :
    Service Payload := do
  startBridge
  let requestId ← requestIdOf caller
  let answer : Service Payload := do
    let record ← requireOperationForReconcile env operationId sessionId
    let checkpoints ← store (.listCheckpoints record.operationId)
    let summaries ← Async.Prog.lift (checkpoints.mapM Checkpoints.summary)
    let events ← store (.listAuditEvents record.operationId)
    pure (successPayload requestId sessionId record.projectId record.operationId
      (statusData record summaries events) [] false .succeeded)
  answer.exceptBridge fun e => pure (errorPayload requestId sessionId none operationId e)

/-- `health`, whose answer is no envelope; only what it asks is kept. -/
def health (env : Env) : Service Unit := do
  startBridge
  carry env.settings refreshProjectRegistry

/-- The program that serves a call; the health route answers with no envelope. -/
def ToolCall.program (settings : PolicySettings) (caller : Caller) (call : ToolCall) :
    Service (Option Payload) :=
  let env : Env := { settings, principal := caller.principal }
  let lifecycle (operationId sessionId : String) (find : Service OperationRecord)
      (x : OperationRecord → Execution) : Service (Option Payload) :=
    some <$> withOriginal caller operationId sessionId find fun original =>
      execute settings caller (x original)
  match call with
  | approvalConfirm o s token key => lifecycle o s (requireOperationForSession env o s)
      fun original => lifecycleExecution original s .approvalConfirm
        [("operation_id", .str o), ("approval_token_digest", textDigest token)] key
        (confirmBody env caller original o s token)
  | operationCancel o s key => lifecycle o s (requireOperationForSession env o s)
      fun original => lifecycleExecution original s .operationCancel
        [("operation_id", .str o)] key (cancelBody env caller original o s)
  | operationReconcile o s decision evidence key =>
    lifecycle o s (requireOperationForReconcile env o s)
      fun original => lifecycleExecution original s .operationReconcile
        [("operation_id", .str o), ("decision", .str decision.text),
          ("evidence_digest", textDigest evidence)] key
        (reconcileBody env caller original o s decision evidence)
  | operationStatus o s => some <$> CodemcpBridge.operationStatus env caller o s
  | health => (fun _ => none) <$> CodemcpBridge.health env
  | projectOpen p => match (ToolCall.projectOpen p).execution env with
    | some x => some <$> CodemcpBridge.projectOpen env caller x
    | none => pure none
  | call => match call.execution env with
    | some x => some <$> execute settings caller x
    | none => pure none

end CodemcpBridge
