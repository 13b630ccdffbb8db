import CodemcpBridge.Async.Table
import CodemcpBridge.Errors
import CodemcpBridge.ResourceAuth

/-!
# The tables

The rows of the SQLite store, the constraints that the schema puts on them, and the statements that
the transactions are made of.  A statement that would break a constraint raises `IntegrityError`.
Rows stand in insertion order; times are milliseconds, in the order of their ISO strings.
-/

namespace CodemcpBridge

/-- The kinds of operation: one for each tool that runs through `_execute`. -/
inductive OperationKind
  | projectOpen | projectStatus | fileRead | codeSearch | fileList | fileEdit | fileCreate
  | fileWrite | fileMove | fileDelete | directoryCreate | registeredCommandRun | formatRun
  | testRun | gitStatus | gitDiff | checkpointCreate | checkpointRestore | approvalConfirm
  | operationCancel | operationReconcile
  deriving DecidableEq, Repr

def OperationKind.text : OperationKind → String
  | projectOpen => "project_open"
  | projectStatus => "project_status"
  | fileRead => "file_read"
  | codeSearch => "code_search"
  | fileList => "file_list"
  | fileEdit => "file_edit"
  | fileCreate => "file_create"
  | fileWrite => "file_write"
  | fileMove => "file_move"
  | fileDelete => "file_delete"
  | directoryCreate => "directory_create"
  | registeredCommandRun => "registered_command_run"
  | formatRun => "format_run"
  | testRun => "test_run"
  | gitStatus => "git_status"
  | gitDiff => "git_diff"
  | checkpointCreate => "checkpoint_create"
  | checkpointRestore => "checkpoint_restore"
  | approvalConfirm => "approval_confirm"
  | operationCancel => "operation_cancel"
  | operationReconcile => "operation_reconcile"

/-- The SHA-256 of an approval token's text; equal digests mean equal tokens. -/
structure TokenHash where
  token : String
  deriving DecidableEq

/-- A JSON document as the store holds it: its value, or a text that does not parse. -/
inductive Document
  | malformed
  | value (v : Json)
  deriving DecidableEq

structure SessionRecord where
  sessionId : String
  projectId : String
  ownerId : String
  status : SessionStatus
  createdAt : ℕ
  updatedAt : ℕ
  closedAt : Option ℕ := none
  reason : Option String := none
  deriving DecidableEq

structure OperationRecord where
  operationId : String
  projectId : String
  sessionId : Option String
  ownerId : String
  replayKey : ReplayKey
  requestHash : Json
  kind : OperationKind
  state : OperationState
  mutation : Bool
  input : Dict
  result : Option Payload := none
  error : Option ErrorData := none
  createdAt : ℕ
  updatedAt : ℕ
  startedAt : Option ℕ := none
  finishedAt : Option ℕ := none
  deriving DecidableEq

/-- What a client sees of the stored key. -/
def OperationRecord.clientRequestId (o : OperationRecord) : String := o.replayKey.decode

structure ApprovalRecord where
  approvalId : String
  operationId : String
  projectId : String
  sessionId : Option String
  action : String
  tokenHash : TokenHash
  status : ApprovalStatus
  createdAt : ℕ
  expiresAt : ℕ
  consumedAt : Option ℕ := none
  deriving DecidableEq

structure CheckpointRecord where
  checkpointId : String
  projectId : String
  sessionId : Option String
  operationId : Option String
  ownerId : String
  kind : CheckpointKind
  branch : String
  head : String
  refName : String
  before : Document
  after : Option Document := none
  diffHash : Option Json := none
  status : CheckpointStatus := .created
  createdAt : ℕ
  updatedAt : ℕ
  deriving DecidableEq

structure AuditEvent where
  eventId : String
  operationId : Option String
  projectId : Option String
  sessionId : Option String
  ownerId : String
  eventType : String
  fromState : Option String
  toState : Option String
  details : Dict
  createdAt : ℕ
  deriving DecidableEq

/-- The store. -/
structure Database where
  sessions : List SessionRecord := []
  operations : List OperationRecord := []
  approvals : List ApprovalRecord := []
  checkpoints : List CheckpointRecord := []
  auditEvents : List AuditEvent := []
  deriving DecidableEq

/-- The clock and the source of event ids, read when the audit log has the given length. -/
structure Stamp where
  now : ℕ → ℕ
  eventId : ℕ → String

/-- The operation stands in the active set of its project. -/
def OperationRecord.blocks (o : OperationRecord) : Bool := o.mutation && o.state.active

/-- Where an operation is remembered: project, session and key. -/
def OperationRecord.slot (o : OperationRecord) : String × Option String × ReplayKey :=
  (o.projectId, o.sessionId, o.replayKey)

namespace Database

def session? (db : Database) (sessionId : String) : Option SessionRecord :=
  Table.row? SessionRecord.sessionId sessionId db.sessions

def operation? (db : Database) (operationId : String) : Option OperationRecord :=
  Table.row? OperationRecord.operationId operationId db.operations

def approval? (db : Database) (operationId : String) : Option ApprovalRecord :=
  Table.row? ApprovalRecord.operationId operationId db.approvals

def checkpoint? (db : Database) (checkpointId : String) : Option CheckpointRecord :=
  Table.row? CheckpointRecord.checkpointId checkpointId db.checkpoints

/-- The event that `_audit` writes. -/
def audit (db : Database) (st : Stamp) (operationId projectId sessionId : Option String)
    (ownerId eventType : String) (fromState toState : Option String) (details : Dict) :
    Database :=
  { db with auditEvents := db.auditEvents ++ [{
      eventId := st.eventId db.auditEvents.length
      operationId, projectId, sessionId, ownerId, eventType, fromState, toState, details
      createdAt := st.now db.auditEvents.length }] }

/-- The clock within a transaction. -/
def clock (db : Database) (st : Stamp) : ℕ := st.now db.auditEvents.length

/-- `INSERT INTO sessions`. -/
def insertSession (db : Database) (s : SessionRecord) : Except Exn Database :=
  if (db.session? s.sessionId).isSome then .error .integrityError
  else .ok { db with sessions := db.sessions ++ [s] }

/-- `UPDATE sessions … WHERE session_id=?`. -/
def updateSession (db : Database) (sessionId : String) (f : SessionRecord → SessionRecord) :
    Database :=
  { db with sessions := Table.update SessionRecord.sessionId sessionId f db.sessions }

/-- A row of `operations` breaks the primary key or one of the two unique indexes.  A missing
session is distinct from every other in an index. -/
def operationClash (db : Database) (o : OperationRecord) : Bool :=
  db.operations.any fun r =>
    r.operationId == o.operationId || (r.slot == o.slot && r.sessionId.isSome) ||
      (r.projectId == o.projectId && r.blocks && o.blocks)

/-- `INSERT INTO operations`. -/
def insertOperation (db : Database) (o : OperationRecord) : Except Exn Database :=
  if db.operationClash o then .error .integrityError
  else .ok { db with operations := db.operations ++ [o] }

/-- The rows of the index `operations_active_mutation_idx` under one project. -/
def activeMutations (db : Database) (projectId : String) : List OperationRecord :=
  db.operations.filter fun o => o.projectId == projectId && o.blocks

/-- `UPDATE operations … WHERE operation_id=?`, which may break the index of active mutations. -/
def updateOperation (db : Database) (operationId : String)
    (f : OperationRecord → OperationRecord) : Except Exn Database :=
  let db' := { db with
    operations := Table.update OperationRecord.operationId operationId f db.operations }
  if db'.operations.all fun o => decide ((db'.activeMutations o.projectId).length ≤ 1) then .ok db'
  else .error .integrityError

/-- `INSERT INTO approvals`. -/
def insertApproval (db : Database) (a : ApprovalRecord) : Except Exn Database :=
  if (db.operation? a.operationId).isNone || (db.approvals.any fun b =>
      b.approvalId == a.approvalId || b.operationId == a.operationId || b.tokenHash == a.tokenHash)
  then .error .integrityError
  else .ok { db with approvals := db.approvals ++ [a] }

/-- `UPDATE approvals … WHERE operation_id=?`. -/
def updateApproval (db : Database) (operationId : String) (f : ApprovalRecord → ApprovalRecord) :
    Database :=
  { db with approvals := Table.update ApprovalRecord.operationId operationId f db.approvals }

/-- `INSERT INTO checkpoints`. -/
def insertCheckpoint (db : Database) (c : CheckpointRecord) : Except Exn Database :=
  if (c.operationId.any fun o => (db.operation? o).isNone) || (db.checkpoints.any fun b =>
      b.checkpointId == c.checkpointId || b.refName == c.refName)
  then .error .integrityError
  else .ok { db with checkpoints := db.checkpoints ++ [c] }

/-- `UPDATE checkpoints … WHERE checkpoint_id=?`. -/
def updateCheckpoint (db : Database) (checkpointId : String)
    (f : CheckpointRecord → CheckpointRecord) : Database :=
  { db with
    checkpoints := Table.update CheckpointRecord.checkpointId checkpointId f db.checkpoints }

end Database

end CodemcpBridge
