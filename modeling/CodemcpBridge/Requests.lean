import CodemcpBridge.Async.Task
import CodemcpBridge.Db.Checkpoints
import CodemcpBridge.Db.Recovery
import CodemcpBridge.Settings

/-!
# What the Bridge asks of its surroundings

The services are programs over three sets of questions.  `StoreCall` are the store methods that
leave the tables of operations and approvals alone and `OperationCall` those that do not.  `Act` is
what the body of an operation may do: look at the project, use the store, run Git or a registered
command. `Ask` is what the process itself does; it has subprocesses in place of the two running
acts.
-/

namespace CodemcpBridge

/-- Store methods that change no operation and no approval. -/
inductive StoreCall
  | createSession (sessionId projectId ownerId : String) (authDetails : Option Dict)
  | getSession (sessionId : String)
  | getSessionAuthContext (sessionId : String)
  | transitionSession (sessionId : String) (toState : SessionStatus) (reason : Option String)
  /-- The ids of the active and closing sessions, of one project or of all. -/
  | sessionsInUse (projectId : Option String)
  | getOperation (operationId : String)
  | getOperationByClientRequestId (projectId : String) (sessionId : Option String)
    (key : ReplayKey)
  | getOperationsByClientRequestId (projectId : String) (sessionId : Option String)
    (clientRequestId : String)
  | getOperationAuthContext (operationId : String)
  | createCheckpoint (checkpointId projectId : String) (sessionId operationId : Option String)
    (ownerId : String) (kind : CheckpointKind) (branch head refName : String) (before : Json)
  | finalizeCheckpoint (checkpointId : String) (after : Dict) (diffHash : Json)
  | markCheckpointRestored (checkpointId : String)
  | getCheckpoint (checkpointId : String)
  | listCheckpoints (operationId : String)
  | findSessionWipCheckpoint (projectId sessionId branch head : String)
  | listAuditEvents (operationId : String)

@[reducible] def StoreCall.Result : StoreCall → Type
  | createSession .. | transitionSession .. => SessionRecord
  | getSession _ => Option SessionRecord
  | getSessionAuthContext _ | getOperationAuthContext _ => Option Dict
  | sessionsInUse _ => List String
  | getOperation _ | getOperationByClientRequestId .. => Option OperationRecord
  | getOperationsByClientRequestId .. => List OperationRecord
  | createCheckpoint .. | finalizeCheckpoint .. | markCheckpointRestored _ => CheckpointRecord
  | getCheckpoint _ | findSessionWipCheckpoint .. => Option CheckpointRecord
  | listCheckpoints _ => List CheckpointRecord
  | listAuditEvents _ => List AuditEvent

/-- What a store method does to the store. -/
def StoreCall.run (db : Database) (st : Stamp) :
    (c : StoreCall) → Except Exn (c.Result × Database)
  | createSession s p o d => db.createSession st s p o d
  | getSession s => .ok (db.session? s, db)
  | getSessionAuthContext s => .ok (db.sessionAuthContext? s, db)
  | transitionSession s s' r => db.transitionSession st s s' r
  | sessionsInUse p => .ok ((db.sessions.filter fun s =>
      (p.all fun p => s.projectId == p) && [.active, .closing].contains s.status).map
        SessionRecord.sessionId, db)
  | getOperation o => .ok (db.operation? o, db)
  | getOperationByClientRequestId p s k => .ok (db.operationIn? p s k, db)
  | getOperationsByClientRequestId p s r => .ok (db.operationsByClientRequestId p s r, db)
  | getOperationAuthContext o => .ok (db.operationAuthContext? o, db)
  | createCheckpoint c p s o w k b h r d => db.createCheckpoint st c p s o w k b h r d
  | finalizeCheckpoint c a d => db.finalizeCheckpoint st c a d
  | markCheckpointRestored c => db.markCheckpointRestored st c
  | getCheckpoint c => .ok (db.checkpoint? c, db)
  | listCheckpoints o => .ok (db.listCheckpoints o, db)
  | findSessionWipCheckpoint p s b h => .ok (db.findSessionWipCheckpoint p s b h, db)
  | listAuditEvents o => .ok (db.listAuditEvents o, db)

/-- Store methods on operations and approvals. -/
inductive OperationCall
  | create (operationId projectId : String) (sessionId : Option String) (ownerId : String)
    (key : ReplayKey) (requestHash : Json) (kind : OperationKind) (mutation : Bool) (input : Dict)
  | transition (operationId : String) (toState : OperationState)
    (expectedState : Option OperationState) (result : Option Payload) (error : Option ErrorData)
  | recordAuthContext (operationId : String) (details : Dict)
  | createApproval (approvalId : String) (operation : OperationRecord) (action : String)
    (tokenHash : TokenHash) (expiresAt : ℕ)
  | consumeApproval (operationId : String) (tokenHash : TokenHash) (now : ℕ)
  | cancelApproval (operationId reason : String)
  | recoverAfterRestart

@[reducible] def OperationCall.Result : OperationCall → Type
  | create .. => OperationRecord × Bool
  | transition .. | consumeApproval .. => OperationRecord
  | recordAuthContext .. | createApproval .. | cancelApproval .. => Unit
  | recoverAfterRestart => Database.Recovered

def OperationCall.run (db : Database) (st : Stamp) :
    (c : OperationCall) → Except Exn (c.Result × Database)
  | create o p s w k h n m i => db.createOperation st o p s w k h n m i
  | transition o s e r d => db.transitionOperation st o s e r d
  | recordAuthContext o d => (db.recordOperationAuthContext st o d).map fun db => ((), db)
  | createApproval a o n t e => (db.createApproval st a o n t e).map fun db => ((), db)
  | consumeApproval o t n => db.consumeApproval st o t n
  | cancelApproval o r => (db.cancelApproval st o r).map fun db => ((), db)
  | recoverAfterRestart => db.recoverAfterRestart st

structure AdapterResult where
  text : String
  isError : Bool
  truncated : Bool
  deriving DecidableEq

/-- The codemcp subtools that the Bridge uses. -/
inductive Subtool
  | readFile (path : String) (offset limit : Option Int) (chatId : String)
  | grep (pattern path : String) (include_ : Option String) (chatId : String)
  deriving DecidableEq

/-- `DevelopmentReadiness`. -/
structure Readiness where
  profileId : Option String
  profileSource : String
  detectionCandidates : List String
  detectionAmbiguous : Bool
  availableCommands : List String
  matchedCommands : List String
  missingCommands : List String
  mismatchedCommands : List String
  codemcpConfigSource : String
  codemcpConfigReady : Bool
  developmentReady : Bool
  issues : List String
  deriving DecidableEq

/-- Questions that leave operations and approvals alone.  None starts a subprocess of the Bridge by
itself; a call of the adapter goes to the codemcp worker of the project, which the adapter starts
where none is running. -/
inductive Quiet
  | store (c : StoreCall)
  /-- `refresh_if_changed`: the newly installed snapshot, if the file has changed. -/
  | refreshIfChanged
  /-- The installed snapshot. -/
  | snapshot
  /-- `resolve_path`: the project, the path and its normal form. -/
  | resolvePath (projectId : String) (path : Option String) (allowRoot : Bool)
  /-- `relative_path`. -/
  | relativePath (project : ProjectSpec) (path : String)
  | safeSearchPaths (project : ProjectSpec) (target : String)
  | safeDirectoryTree (project : ProjectSpec) (target : String) (maxEntries : ℕ)
  | isSensitive (path : String)
  | inspectReadiness (project : ProjectSpec)
  /-- `Path.resolve(strict=False)`. -/
  | resolved (path : String)
  | exists_ (path : String)
  | isFile (path : String)
  | isDir (path : String)
  | fileSize (path : String)
  | readHead (path : String)
  | readBytes (path : String)
  | makeTemp (directory : String)
  | writeTemp (temp : String) (content : ByteArray)
  | replace (temp target : String)
  | unlink (path : String)
  | mkdir (path : String)
  | rmdir (path : String)
  | lstatConfig (project : ProjectSpec)
  | canGenerateConfig (project : ProjectSpec)
  /-- Resolve and parse the codemcp configuration: the argv it has for a command, if any. -/
  | configuredArgv (project : ProjectSpec) (commandId : String)
  /-- `adapter.call`. -/
  | adapterCall (project : ProjectSpec) (subtool : Subtool)
  | adapterActive (projectId : String)
  /-- `_filter_sensitive_grep_result`. -/
  | filterGrep (project : ProjectSpec) (text : String)
  | adapterClose
  | acquire (projectId : String)
  | release (projectId : String)
  | uuid
  | now
  | token

@[reducible] def Quiet.Result : Quiet → Type
  | store c => c.Result
  | refreshIfChanged => Option Registry
  | snapshot => Registry
  | resolvePath .. => ProjectSpec × String × String
  | relativePath .. | resolved _ | makeTemp _ | filterGrep .. | uuid | token => String
  | safeSearchPaths .. => List String
  | safeDirectoryTree .. => List (String × Bool) × Bool
  | isSensitive _ | exists_ _ | isFile _ | isDir _ | canGenerateConfig _ | adapterActive _ => Bool
  | inspectReadiness _ => Readiness
  | fileSize _ | now => ℕ
  | readHead _ | readBytes _ => ByteArray
  | configuredArgv .. => Option (List String)
  | adapterCall .. => AdapterResult
  | writeTemp .. | replace .. | unlink _ | mkdir _ | rmdir _ | lstatConfig _ | adapterClose
  | acquire _ | release _ => Unit

/-- What a registered command came to. -/
structure CommandRunResult where
  text : String
  isError : Bool
  truncated : Bool
  deriving DecidableEq

/-- What the body of an operation may do. -/
inductive Act
  | quiet (q : Quiet)
  /-- `GitGuard._run` in a project root. -/
  | git (root : String) (arguments : List String)
  /-- `RegisteredCommandRunner.run`. -/
  | command (project : ProjectSpec) (command : CommandSpec)

@[reducible] def Act.Result : Act → Type
  | quiet q => q.Result
  | git .. => String
  | command .. => CommandRunResult

/-- The argv and directory of a subprocess. -/
structure Invocation where
  executable : String
  arguments : List String
  cwd : Option String
  deriving DecidableEq

/-- What a subprocess that has ended leaves: its exit code and its two outputs. -/
structure Completed where
  returncode : Int
  stdout : ByteArray
  stderr : ByteArray
  deriving DecidableEq

/-- Points of a run that no code reads; the properties speak of them. -/
inductive Mark
  /-- Whether the operation needs an approval has been decided, with the command that the check has
  resolved, if it is about one. -/
  | judged (operationId : String) (needsApproval : Bool) (resolved : Option CommandSpec)
  /-- The body of the operation starts. -/
  | enter (operationId : String)
  /-- An exception leaves the code that would settle the operation.  Marks suspend nothing: this is
  in the turn of the answer that has raised the exception. -/
  | dropped (operationId : String)
  deriving DecidableEq

/-- What the Bridge process asks. -/
inductive Ask
  | quiet (q : Quiet)
  | operation (c : OperationCall)
  /-- `build_command_invocation`, which looks at the project and at the `PATH`. -/
  | invocation (project : ProjectSpec) (command : CommandSpec)
  /-- `create_subprocess_exec`: the handle of the new process. -/
  | spawn (invocation : Invocation)
  /-- `wait_for(process.communicate(), timeout)`. -/
  | communicate (process : ℕ) (timeoutSeconds : PyFloat)
  /-- `_terminate_process`: the process is signalled and waited for. -/
  | terminate (process : ℕ)
  | started
  | setStarted (started : Bool)
  | mark (m : Mark)

@[reducible] def Ask.Result : Ask → Type
  | quiet q => q.Result
  | operation c => c.Result
  | invocation .. => Invocation
  | spawn _ => ℕ
  | communicate .. => Completed
  | started => Bool
  | terminate _ | setStarted _ | mark _ => Unit

/-- The body of an operation. -/
abbrev Body := Async.Prog Act Act.Result Exn

/-- A program of the Bridge process. -/
abbrev Service := Async.Prog Ask Ask.Result Exn

namespace Body

variable {α : Type}

def act (a : Act) : Body a.Result := Async.Prog.ask a

def quiet (q : Quiet) : Body q.Result := Async.Prog.ask (Act.quiet q)

def store (c : StoreCall) : Body c.Result := Async.Prog.ask (Act.quiet (.store c))

/-- Raise a `BridgeError`. -/
def reject (code : ErrorCode) (message : String) (details : Dict := [])
    (status : Status := .rejected) (retryable : Bool := false) : Body α :=
  Async.Prog.raise (.bridge { code, message, details, retryable, status })

/-- `except OSError: raise BridgeError(code, message, …)`. -/
def orReject (x : Body α) (code : ErrorCode) (message : String) (details : Dict := [])
    (status : Status := .rejected) (retryable : Bool := false) : Body α :=
  x.handle fun e => if e.isOSError then some (reject code message details status retryable)
    else none

end Body

end CodemcpBridge
