import CodemcpBridge.GitGuard

/-!
# The registry, sessions and policy checks

What every operation asks before it acts: that its project is registered, that its session is active
for this project and this caller, and that the policy allows the branch, the workspace, the file or
the command.
-/

namespace CodemcpBridge

open Body

/-! ## The registry -/

/-- `ProjectRegistry.get` in a snapshot. -/
def registryGet (projects : Registry) (projectId : String) : Body ProjectSpec :=
  match projects.find? fun p => p.1 == projectId with
  | some (_, project) => pure project
  | none => reject .projectNotAllowed "project_id is not registered"
      [("project_id", .str projectId)]

def getProject (projectId : String) : Body ProjectSpec := do
  let projects ← quiet .snapshot
  registryGet projects projectId

/-- Bring one active or closing session to an end, as `block_active_sessions_for_project` does. -/
def blockSession (reason sessionId : String) : Body Unit := do
  match ← store (.getSession sessionId) with
  | some current =>
    if current.status = .active ∨ current.status = .closing then
      let _ ← store (.transitionSession sessionId .blocked (some reason))
  | none => pure ()

/-- `revoke_project`. -/
def revokeProject (projectId : String) : Body Unit := do
  let sessionIds ← store (.sessionsInUse (some projectId))
  sessionIds.forM (blockSession "project_removed")

/-- `_refresh_project_registry`. -/
def refreshProjectRegistry : Body Unit := do
  let before ← quiet .snapshot
  match ← quiet .refreshIfChanged with
  | none => pure ()
  | some after =>
    ((before.map Prod.fst).filter fun p => !(after.map Prod.fst).contains p).forM revokeProject

/-! ## Sessions -/

/-- `_current_context_matches`. -/
def contextMatches (principal : Option AuthContext) (stored : Option Dict) : Bool :=
  match stored, principal with
  | none, none => true
  | some details, some p => authContextIdentity details == some p.identity
  | _, _ => false

/-- `auth_contexts_match` of two stored contexts. -/
def authContextsMatch : Option Dict → Option Dict → Bool
  | none, none => true
  | some first, some second =>
    (authContextIdentity first).isSome && authContextIdentity first == authContextIdentity second
  | _, _ => false

/-- `SessionService.create`. -/
def createSession (principal : Option AuthContext) (projectId : String) :
    Body SessionRecord := do
  let sessionId ← quiet .uuid
  store (.createSession sessionId projectId Database.localOwnerId (principal.map authAuditDetails))

/-- `SessionService.require_active`. -/
def requireActive (principal : Option AuthContext) (projectId : String)
    (sessionId : Option String) : Body SessionRecord := do
  let unavailable (message : String) (details : Dict) : Body SessionRecord :=
    reject .sessionNotFound message ([("project_id", .str projectId)] ++ details)
  match sessionId.filter (· ≠ "") with
  | none => reject .sessionRequired "session_id is required for this operation"
  | some sessionId =>
    match ← store (.getSession sessionId) with
    | none => unavailable "session_id is not active for this project" []
    | some session =>
      if session.projectId ≠ projectId then
        unavailable "session_id is not active for this project" []
      else if session.ownerId ≠ Database.localOwnerId ∨ session.status ≠ .active then
        unavailable "session_id is not active" [("status", .str session.status.text)]
      else
        let stored ← store (.getSessionAuthContext session.sessionId)
        if contextMatches principal stored then pure session
        else unavailable "session_id is not available to this security context" []

/-- `_require_session`. -/
def requireSession (principal : Option AuthContext) (projectId : String)
    (sessionId : Option String) : Body SessionRecord := do
  refreshProjectRegistry
  let _ ← getProject projectId
  requireActive principal projectId sessionId

/-! ## Policy -/

def requireAllowedBranch (project : ProjectSpec) (branch : String) : Body Unit :=
  if project.allowedBranches.any (Text.fnmatchcase branch) then pure ()
  else reject .branchNotAllowed "current branch is not allowed for this project"
    [("project_id", .str project.projectId), ("branch", .str branch)]

def inspectProject (project : ProjectSpec) (enforceBranch : Bool := true) : Body GitStatus := do
  if !(← quiet (.isDir project.root)) then
    reject .projectNotAllowed "registered project root does not exist"
      [("project_id", .str project.projectId)]
  GitGuard.requireWorktreeRoot project.root
  let status ← GitGuard.status project.root
  if enforceBranch then
    requireAllowedBranch project status.branch
  pure status

def requireCleanWorkspace (settings : PolicySettings) (project : ProjectSpec)
    (status : GitStatus) : Body Unit :=
  if (settings.requireCleanWorkspace || project.requireCleanWorkspace) && status.dirty then
    reject .workspaceDirty "mutation requires a clean workspace"
      [("changed_files", .ofStrings status.changedFiles)]
  else pure ()

def requireMutationPreconditions (settings : PolicySettings) (project : ProjectSpec) :
    Body Unit := do
  let status ← inspectProject project
  requireCleanWorkspace settings project status

/-- `_verify_codemcp_command`. -/
def verifyCodemcpCommand (project : ProjectSpec) (command : CommandSpec) : Body Unit := do
  let generated ← ((quiet (.lstatConfig project)).attempt : Body _)
  let exempt ← match generated with
    | .error (.fileNotFoundError _) => quiet (.canGenerateConfig project)
    | .error e => if e.isOSError then pure false else Async.Prog.raise e
    | .ok () => pure false
  if !exempt then
    let rejected (message : String) : Body Unit :=
      reject .commandNotAllowed message [("command_id", .str command.commandId)]
    let configured ← (quiet (.configuredArgv project command.commandId)).handle fun e =>
      if e.isOSError ∨ e = .valueError then some do
        rejected "project codemcp configuration cannot be verified"
        pure none
      else none
    if configured ≠ some command.argv then
      rejected "registered command does not match codemcp.toml"

/-- What `registered_command` and `command` do with a command they have found. -/
def allowedCommand (project : ProjectSpec) (command : CommandSpec) : Body CommandSpec := do
  verifyCodemcpCommand project command
  pure command

/-- `PolicyEngine.registered_command`, with the approval left to the caller. -/
def registeredCommand (settings : PolicySettings) (project : ProjectSpec) (commandId : String) :
    Body CommandSpec := do
  if settings.allowArbitraryCommands then
    reject .commandNotAllowed "arbitrary commands are disabled by policy"
  match project.commands.find? fun c => c.1 == commandId with
  | none =>
    reject .commandNotAllowed "command_id is not registered for this project"
      [("command_id", .str commandId)]
  | some (_, command) => allowedCommand project command

/-- `PolicyEngine.command`, with the approval left to the caller. -/
def commandOfKind (settings : PolicySettings) (project : ProjectSpec)
    (commandId expectedKind : String) : Body CommandSpec := do
  if settings.allowArbitraryCommands then
    reject .commandNotAllowed "arbitrary commands are disabled by policy"
  match (project.commands.find? fun c => c.1 == commandId).filter fun c =>
      c.2.kind == expectedKind with
  | none =>
    reject .commandNotAllowed "command_id is not registered for this operation"
      [("command_id", .str commandId), ("expected_kind", .str expectedKind)]
  | some (_, command) => allowedCommand project command

def validateFileSize (settings : PolicySettings) (path : String) : Body ℕ := do
  let size ← (quiet (.fileSize path)).orReject .fileNotFound "file does not exist"
  if size > settings.maxFileBytes then
    reject .fileTooLarge "file exceeds the configured size limit"
      [("max_file_bytes", .num settings.maxFileBytes)]
  pure size

def requireTextFile (path : String) : Body Unit := do
  let sample ← (quiet (.readHead path)).orReject .fileNotFound "file cannot be read"
  if sample.data.toList.contains 0 then
    reject .binaryFile "binary files are not exposed by the Bridge"

def requireRegularFile (path : String) : Body Unit := do
  if !(← quiet (.exists_ path)) then
    reject .fileNotFound "a regular file is required"
  if !(← quiet (.isFile path)) then
    reject .fileNotFound "a regular file is required"

def validatePattern (pattern : String) : Body Unit :=
  if pattern = "" ∨ pattern.length > 500 then
    reject .invalidRequest "pattern must be 1-500 characters"
  else pure ()

end CodemcpBridge
