import CodemcpBridge.Checkpoints

/-!
# The bodies of the mutations

Each mutating tool's `operation`: checks, a checkpoint under the project's mutation lock, the change
itself, and the checkpoint finalized with what the change left.
-/

namespace CodemcpBridge

open Body

/-- `_Outcome`. -/
structure Outcome where
  data : Dict
  changedFiles : List String
  truncated : Bool := false
  status : Status := .succeeded
  deriving DecidableEq

/-- Who calls: the settings in force and the security context of the call. -/
structure Env where
  settings : PolicySettings := {}
  principal : Option AuthContext := none

/-- `async with self._mutation_lock(project_id)`. -/
def withLock {α : Type} (projectId : String) (x : Body α) : Body α := do
  quiet (.acquire projectId)
  x.ensuring (quiet (.release projectId))

/-- `_MutationContext`. -/
structure MutationContext where
  checkpoint : CheckpointRecord
  commitMode : CommitMode

/-- `_begin_mutation`. -/
def beginMutation (env : Env) (project : ProjectSpec) (sessionId operationId : String) :
    Body MutationContext := do
  requireMutationPreconditions env.settings project
  let checkpoint ← Checkpoints.create project sessionId operationId .mutation
  let commitMode ← Checkpoints.determineCommitMode project sessionId checkpoint
  pure { checkpoint, commitMode }

/-- `_finish_mutation`: the summary of the finalized checkpoint. -/
def finishMutation (env : Env) (project : ProjectSpec) (checkpoint : CheckpointRecord)
    (expectedAfterHead : String) : Body Dict := do
  let finalized ← (Checkpoints.finalize env.settings project checkpoint expectedAfterHead
    checkpoint.branch).exceptBridge fun exc => reject .unknownSideEffect
      "mutation completed but its Git result could not be recorded"
      [("checkpoint_id", .str checkpoint.checkpointId), ("cause", .str exc.code.text)] .unknown
  Async.Prog.lift (Checkpoints.summary finalized)

/-! ## Checks of the arguments -/

def requireDescription (description : String) : Body Unit :=
  if description = "" ∨ description.length > 500 then
    reject .invalidRequest "description must be 1-500 characters"
  else pure ()

/-- The check of a text against the size limit, under the name of the argument. -/
def requireSize (settings : PolicySettings) (name value : String) : Body Unit :=
  if value.utf8ByteSize > settings.maxFileBytes then
    reject .fileTooLarge (name ++ " exceeds the configured size limit")
  else pure ()

def requireNoNul (content : String) : Body Unit :=
  if content.toList.contains '\x00' then
    reject .binaryFile "binary content is not exposed by the Bridge"
  else pure ()

/-- A regular text file of a size that the policy allows. -/
def requireReadable (settings : PolicySettings) (target : String) : Body Unit := do
  requireRegularFile target
  let _ ← validateFileSize settings target
  requireTextFile target

def readFile (target : String) : Body ByteArray :=
  (quiet (.readBytes target)).orReject .fileNotFound "file cannot be read"

def requireDirectory (directory message normalized : String) : Body Unit := do
  let missing : Body Unit := reject .fileNotFound message [("path", .str normalized)]
  if !(← quiet (.exists_ directory)) then missing
  else if !(← quiet (.isDir directory)) then missing

def requireAbsent (target message normalized : String) : Body Unit := do
  if ← quiet (.exists_ target) then
    reject .conflict message [("path", .str normalized)]

/-! ## Texts -/

/-- `_decode_utf8_text`. -/
def decodeText (raw : ByteArray) (path : String) : Body String :=
  match String.fromUTF8? raw with
  | some text => pure text
  | none => reject .binaryFile "file is not valid UTF-8 text" [("path", .str path)]

/-- `_match_existing_line_endings`. -/
def matchLineEndings (raw : ByteArray) (value : String) : List Char :=
  let normalized := Text.normalizeBreaks value.toList
  let bytes := raw.data.toList
  if Text.countCrLf bytes > 0 ∧ bytes.count 10 = Text.countCrLf bytes then
    normalized.flatMap fun c => if c = '\n' then ['\r', '\n'] else [c]
  else normalized

/-- `_replace_exact_text`. -/
def replaceExactText (raw : ByteArray) (path oldString newString : String) :
    Body ByteArray := do
  let text ← decodeText raw path
  let old := matchLineEndings raw oldString
  let new := matchLineEndings raw newString
  let found := Text.countFrom old 0 text.toList
  if found = 0 then
    reject .conflict "old_string was not found in the file" [("path", .str path)]
  if found > 1 then
    reject .conflict "old_string must match exactly one occurrence"
      [("path", .str path), ("matches", .num found)]
  pure (String.ofList (Text.replaceFirst old new text.toList)).toUTF8

/-- `_encode_existing_text`. -/
def encodeExistingText (raw : ByteArray) (path content : String) : Body ByteArray := do
  let _ ← decodeText raw path
  pure (String.ofList (matchLineEndings raw content)).toUTF8

/-! ## File tools -/

/-- The outcome of a file tool: its own data and the checkpoint's summary. -/
def fileOutcome (data : Dict) (checkpointData : Dict) : Outcome :=
  { data := data ++ [("checkpoint", .obj checkpointData)]
    changedFiles := Checkpoints.changedFilesOf checkpointData }

def fileEditBody (env : Env) (projectId sessionId path oldString newString description : String)
    (operationId : String) : Body Outcome := do
  let _ ← requireSession env.principal projectId sessionId
  requireDescription description
  requireSize env.settings "old_string" oldString
  requireSize env.settings "new_string" newString
  let (project, target, normalized) ← quiet (.resolvePath projectId path false)
  requireReadable env.settings target
  let (newHead, checkpointData) ← withLock projectId do
    let mutation ← beginMutation env project sessionId operationId
    requireReadable env.settings target
    let raw ← readFile target
    let updated ← replaceExactText raw normalized oldString newString
    if updated.size > env.settings.maxFileBytes then
      reject .fileTooLarge "edited file exceeds the configured size limit"
    let newHead ← GitGuard.commitFileBytes project.root normalized updated
      mutation.checkpoint.head description true mutation.commitMode sessionId
      mutation.checkpoint.branch
    let checkpointData ← finishMutation env project mutation.checkpoint newHead
    pure (newHead, checkpointData)
  pure (fileOutcome [("text", .str ("Bridge file edit committed at " ++ newHead))] checkpointData)

def fileCreateBody (env : Env) (projectId sessionId path content description : String)
    (operationId : String) : Body Outcome := do
  let _ ← requireSession env.principal projectId sessionId
  requireDescription description
  requireSize env.settings "content" content
  requireNoNul content
  let (project, target, normalized) ← quiet (.resolvePath projectId path false)
  requireDirectory (Text.parent target) "parent directory does not exist" normalized
  let (newHead, checkpointData) ← withLock projectId do
    requireAbsent target "file already exists" normalized
    let mutation ← beginMutation env project sessionId operationId
    requireAbsent target "file appeared after the mutation baseline was recorded" normalized
    let newHead ← GitGuard.commitFileBytes project.root normalized content.toUTF8
      mutation.checkpoint.head description false mutation.commitMode sessionId
      mutation.checkpoint.branch
    let checkpointData ← finishMutation env project mutation.checkpoint newHead
    pure (newHead, checkpointData)
  pure (fileOutcome [("path", .str normalized),
    ("text", .str ("Bridge file create committed at " ++ newHead))] checkpointData)

/-- A digest that a client names; `none` where it is no SHA-256 hex digest. -/
inductive HashText
  | malformed (text : String)
  /-- The hex digits of a digest, in any case. -/
  | hex (digest : Json)
  deriving DecidableEq

/-- The lower-case text of what a client names as a digest. -/
def HashText.normalized : HashText → Json
  | malformed text => .str (Text.lower text)
  | hex digest => digest

def fileWriteBody (env : Env) (projectId sessionId path content : String)
    (expectedSha256 : HashText) (description : String) (operationId : String) :
    Body Outcome := do
  let _ ← requireSession env.principal projectId sessionId
  requireDescription description
  match expectedSha256 with
  | .malformed _ => reject .invalidRequest "expected_sha256 must be a SHA-256 hex digest"
  | .hex _ => pure ()
  requireSize env.settings "content" content
  requireNoNul content
  let (project, target, normalized) ← quiet (.resolvePath projectId path false)
  requireReadable env.settings target
  let (newHead, checkpointData) ← withLock projectId do
    let mutation ← beginMutation env project sessionId operationId
    requireReadable env.settings target
    let raw ← readFile target
    if Json.sha256Bytes raw ≠ expectedSha256.normalized then
      reject .conflict "file content changed since it was read"
        [("path", .str normalized), ("expected_sha256", expectedSha256.normalized),
          ("actual_sha256", .sha256Bytes raw)]
    let prepared ← encodeExistingText raw normalized content
    if prepared.size > env.settings.maxFileBytes then
      reject .fileTooLarge "replacement file exceeds the configured size limit"
    let newHead ← GitGuard.commitFileBytes project.root normalized prepared
      mutation.checkpoint.head description true mutation.commitMode sessionId
      mutation.checkpoint.branch
    let checkpointData ← finishMutation env project mutation.checkpoint newHead
    pure (newHead, checkpointData)
  pure (fileOutcome [("path", .str normalized),
    ("text", .str ("Bridge file write committed at " ++ newHead))] checkpointData)

/-- The check that the checkpoint's commit holds the path. -/
def requireTracked (checkpoint : CheckpointRecord) (path message : String) : Body Unit := do
  let before ← Async.Prog.lift (Checkpoints.dictOf checkpoint.before)
  let tracked := match Dict.get? before "file_hashes" with
    | some (.obj files) => files.any fun f => f.1 == path
    | _ => false
  if !tracked then
    reject .conflict message [("path", .str path)]

def fileMoveBody (env : Env) (projectId sessionId sourcePath destinationPath description : String)
    (operationId : String) : Body Outcome := do
  let _ ← requireSession env.principal projectId sessionId
  requireDescription description
  let (project, source, normalizedSource) ← quiet (.resolvePath projectId sourcePath false)
  let (_, destination, normalizedDestination) ←
    quiet (.resolvePath projectId destinationPath false)
  if source = destination ∨ normalizedSource = normalizedDestination then
    reject .invalidRequest "source_path and destination_path must be different"
  requireRegularFile source
  requireDirectory (Text.parent destination) "destination parent directory does not exist"
    normalizedDestination
  let (newHead, checkpointData, moved) ← withLock projectId do
    requireAbsent destination "destination file already exists" normalizedDestination
    let mutation ← beginMutation env project sessionId operationId
    requireTracked mutation.checkpoint normalizedSource
      "source file must be tracked by the checkpoint HEAD"
    let (_, source, normalizedSource) ← quiet (.resolvePath projectId sourcePath false)
    let (_, destination, normalizedDestination) ←
      quiet (.resolvePath projectId destinationPath false)
    requireRegularFile source
    requireDirectory (Text.parent destination) "destination parent directory does not exist"
      normalizedDestination
    requireAbsent destination
      "destination file appeared after the mutation baseline was recorded" normalizedDestination
    let newHead ← GitGuard.moveTrackedFile project.root normalizedSource normalizedDestination
      mutation.checkpoint.head description mutation.commitMode sessionId
      mutation.checkpoint.branch
    let checkpointData ← finishMutation env project mutation.checkpoint newHead
    pure (newHead, checkpointData, normalizedSource, normalizedDestination)
  pure (fileOutcome [("source_path", .str moved.1), ("destination_path", .str moved.2),
    ("head", .str newHead)] checkpointData)

def fileDeleteBody (env : Env) (projectId sessionId path description : String)
    (operationId : String) : Body Outcome := do
  let _ ← requireSession env.principal projectId sessionId
  requireDescription description
  let (project, target, normalized) ← quiet (.resolvePath projectId path false)
  requireRegularFile target
  let (newHead, checkpointData, deleted) ← withLock projectId do
    let mutation ← beginMutation env project sessionId operationId
    requireTracked mutation.checkpoint normalized
      "file must be tracked by the checkpoint HEAD before deletion"
    let (_, target, normalized) ← quiet (.resolvePath projectId path false)
    requireRegularFile target
    let newHead ← GitGuard.deleteTrackedFile project.root normalized mutation.checkpoint.head
      description mutation.commitMode sessionId mutation.checkpoint.branch
    let checkpointData ← finishMutation env project mutation.checkpoint newHead
    pure (newHead, checkpointData, normalized)
  pure (fileOutcome [("path", .str deleted), ("head", .str newHead)] checkpointData)

/-- Take the new directory away again unless the marker file is in it. -/
def removeDirectory (target marker : String) : Body (Except Exn Unit) := do
  if ← quiet (.exists_ marker) then pure (.ok ())
  else (quiet (.rmdir target)).attempt

def directoryCreateBody (env : Env) (projectId sessionId path description : String)
    (operationId : String) : Body Outcome := do
  let _ ← requireSession env.principal projectId sessionId
  requireDescription description
  let (project, target, normalized) ← quiet (.resolvePath projectId path false)
  requireDirectory (Text.parent target) "parent directory does not exist" normalized
  let marker := Text.join target ".gitkeep"
  let (newHead, checkpointData, markerPath) ← withLock projectId do
    requireAbsent target "path already exists" normalized
    let mutation ← beginMutation env project sessionId operationId
    requireAbsent target "path appeared after the mutation baseline was recorded" normalized
    (quiet (.mkdir target)).handle fun e =>
      if e = .fileExistsError then
        some (reject .conflict "path already exists" [("path", .str normalized)])
      else if e.isOSError then some (reject .backendUnavailable "directory could not be created"
        [("path", .str normalized)] .failed)
      else none
    let markerPath ← quiet (.relativePath project marker)
    let newHead ← (GitGuard.commitFileBytes project.root markerPath ByteArray.empty
        mutation.checkpoint.head (description ++ " (directory marker)") false mutation.commitMode
        sessionId mutation.checkpoint.branch).handle fun e => some do
      match ← removeDirectory target marker with
      | .ok () => Async.Prog.raise e
      | .error cleanup =>
        if !cleanup.isOSError then Async.Prog.raise cleanup
        -- A cancellation passes on although the directory is still there.
        else if e = .cancelled then Async.Prog.raise e
        else
          reject .unknownSideEffect
            "directory creation outcome is unknown and requires reconciliation"
            [("path", .str normalized)] .unknown
    let checkpointData ← finishMutation env project mutation.checkpoint newHead
    pure (newHead, checkpointData, markerPath)
  pure (fileOutcome [("path", .str normalized), ("marker_path", .str markerPath),
    ("text", .str ("Bridge directory create committed at " ++ newHead))] checkpointData)

/-! ## Registered commands -/

/-- `resolve_command`: by id alone, or by id and kind. -/
def resolveCommand (env : Env) (project : ProjectSpec) (commandId : String)
    (expectedKind : Option String) : Body CommandSpec :=
  match expectedKind with
  | none => registeredCommand env.settings project commandId
  | some kind => commandOfKind env.settings project commandId kind

/-- `_run_command_body`. -/
def runCommandBody (env : Env) (project : ProjectSpec) (command : CommandSpec)
    (sessionId operationId : String) : Body Outcome := do
  let (result, checkpointData) ← withLock project.projectId do
    let mutation ← beginMutation env project sessionId operationId
    let checkpoint := mutation.checkpoint
    let result ← act (.command project command)
    let after ← GitGuard.status project.root
    if after.branch ≠ checkpoint.branch ∨
        Text.lower after.head ≠ Text.lower checkpoint.head then
      reject .unknownSideEffect "registered command changed Git HEAD or branch"
        [("command_id", .str command.commandId), ("expected_branch", .str checkpoint.branch),
          ("actual_branch", .str after.branch), ("expected_head", .str checkpoint.head),
          ("actual_head", .str after.head)] .unknown
    if result.isError then
      reject .backendUnavailable "registered command failed"
        [("command_id", .str command.commandId), ("output", .str result.text),
          ("truncated", .bool result.truncated)] .failed
    let checkpointData ← finishMutation env project checkpoint checkpoint.head
    pure (result, checkpointData)
  pure { data := [("command_id", .str command.commandId), ("text", .str result.text),
                  ("checkpoint", .obj checkpointData)]
         changedFiles := Checkpoints.changedFilesOf checkpointData
         truncated := result.truncated }

/-! ## Checkpoints -/

/-- `_create_checkpoint_for_operation`. -/
def createCheckpointBody (projectId sessionId operationId : String) : Body Outcome := do
  let project ← getProject projectId
  let checkpoint ← withLock project.projectId
    (Checkpoints.create project sessionId operationId .manual)
  let summary ← Async.Prog.lift (Checkpoints.summary checkpoint)
  pure { data := [("checkpoint", .obj summary)], changedFiles := [] }

/-- The compare-and-swap check of a rollback against what was inspected. -/
def requireRollbackTarget (env : Env) (project : ProjectSpec) (checkpoint : CheckpointRecord)
    (expectedHead : String) (current : GitStatus) : Body Unit := do
  if current.branch ≠ checkpoint.branch ∨
      Text.lower current.head ≠ Text.lower expectedHead then
    reject .checkpointConflict "rollback compare-and-swap precondition failed"
      [("checkpoint_id", .str checkpoint.checkpointId), ("expected_branch", .str checkpoint.branch),
        ("actual_branch", .str current.branch), ("expected_head", .str expectedHead),
        ("actual_head", .str current.head)]
  requireAllowedBranch project current.branch
  requireCleanWorkspace env.settings project current

/-- The checkpoint of a rollback and the inspection that its precondition is checked on. -/
def rollbackPreconditions (env : Env) (project : ProjectSpec)
    (projectId sessionId checkpointId expectedHead : String) : Body CheckpointRecord := do
  let checkpoint ← Checkpoints.getForSession checkpointId projectId sessionId
  Checkpoints.verifyRef project checkpoint
  let current ← inspectProject project false
  requireRollbackTarget env project checkpoint expectedHead current
  pure checkpoint

/-- The check that the reset left the checkpoint's commit, and the record of it. -/
def confirmRollback (env : Env) (project : ProjectSpec) (checkpoint safety : CheckpointRecord) :
    Body CheckpointRecord := do
  let after ← GitGuard.snapshot project.root
  if after.branch ≠ checkpoint.branch ∨ Text.lower after.head ≠ Text.lower checkpoint.head ∨
      after.dirty then
    reject .unknownSideEffect "rollback completed but the restored Git state cannot be confirmed"
      [("checkpoint_id", .str checkpoint.checkpointId), ("expected_branch", .str checkpoint.branch),
        ("actual_branch", .str after.branch), ("expected_head", .str checkpoint.head),
        ("actual_head", .str after.head), ("dirty", .bool after.dirty)] .unknown
  Checkpoints.finalize env.settings project safety checkpoint.head checkpoint.branch

/-- `_restore_checkpoint_for_operation`. -/
def restoreCheckpointBody (env : Env)
    (projectId sessionId checkpointId expectedHead operationId : String) : Body Outcome := do
  Checkpoints.validateExpectedHead expectedHead
  let _ ← requireSession env.principal projectId sessionId
  let project ← getProject projectId
  let (checkpoint, safety, restored) ← withLock projectId do
    let checkpoint ← rollbackPreconditions env project projectId sessionId checkpointId
      expectedHead
    let safety ← Checkpoints.create project sessionId operationId .rollbackSafety
    let about (exc : BridgeError) : Dict := [("checkpoint_id", .str checkpointId),
      ("safety_checkpoint_id", .str safety.checkpointId), ("cause", .str exc.code.text)]
    (GitGuard.resetToCheckpoint project.root checkpoint.refName).exceptBridge fun exc =>
      reject .unknownSideEffect "rollback outcome is unknown and requires reconciliation"
        (about exc) .unknown
    let safety ← (confirmRollback env project checkpoint safety).exceptBridge fun exc =>
      if exc.code = .unknownSideEffect then raise exc
      else reject .unknownSideEffect
        "rollback completed but its Git result could not be recorded" (about exc) .unknown
    let restored ← Checkpoints.markRestored checkpointId
    pure (checkpoint, safety, restored)
  let restoredSummary ← Async.Prog.lift (Checkpoints.summary restored)
  let safetySummary ← Async.Prog.lift (Checkpoints.summary safety)
  pure { data := [("checkpoint", .obj restoredSummary), ("safety_checkpoint", .obj safetySummary),
                  ("restored_head", .str checkpoint.head), ("branch", .str checkpoint.branch)]
         changedFiles := Checkpoints.changedFilesOf safetySummary }

end CodemcpBridge
