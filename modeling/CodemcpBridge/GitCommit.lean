import CodemcpBridge.GitGuard

/-!
# Git mutations and diffs

The commit that ends a file mutation, in either mode, and the mutations that make one: replacing the
bytes of one file, moving one, deleting one, or committing paths as they stand.  Then the bounded
diffs.
-/

namespace CodemcpBridge

open Body

namespace GitGuard

def validateCommitPaths (paths : List String) : Body (List String) :=
  if paths.isEmpty || paths.any fun path => path == "" || path.toList.contains '\x00' then
    reject .invalidRequest "at least one valid commit path is required"
  else pure paths

/-- A character that a commit's description may not hold. -/
def breaksDescription (c : Char) : Bool := c == '\r' || c == '\n' || c == '\x00'

/-- `_commit_arguments`. -/
def commitArguments (paths : List String) (commitMode : CommitMode)
    (description sessionId : String) : Body (List String) := do
  let paths ← validateCommitPaths paths
  match commitMode with
  | .create => do
    if description = "" ∨ description.length > 500 ∨
        description.toList.any breaksDescription then
      reject .invalidRequest "description and session_id are required"
    let footer ← sessionFooter sessionId
    pure (["commit", "-m", "wip: " ++ description ++ "\n\n" ++ footer, "--only", "--"] ++ paths)
  | .amendSessionWip =>
    pure (["commit", "--amend", "--no-edit", "--allow-empty", "--only", "--"] ++ paths)

/-- The options of a commit in either mode. -/
def commitOptions (description sessionId : String) : CommitMode → List String
  | .create => ["-m", "wip: " ++ description ++ "\n\n" ++ (sessionFooterPrefix ++ sessionId)]
  | .amendSessionWip => ["--amend", "--no-edit", "--allow-empty"]

/-- The arguments of a commit ask for nothing: they are those of a commit of the paths, or rejected.
-/
theorem commitArguments_eq (paths : List String) (commitMode : CommitMode)
    (description sessionId : String) :
    commitArguments paths commitMode description sessionId =
      pure ("commit" :: commitOptions description sessionId commitMode ++
        ["--only", "--"] ++ paths) ∨
    ∃ e, commitArguments paths commitMode description sessionId = Async.Prog.raise e := by
  unfold commitArguments validateCommitPaths
  by_cases hp : (paths.isEmpty || paths.any fun path => path == "" || path.toList.contains '\x00') =
      true
  · rw [if_pos hp]
    exact .inr ⟨_, rfl⟩
  · rw [if_neg hp]
    cases commitMode with
    | amendSessionWip => exact .inl rfl
    | create =>
      by_cases hd : description = "" ∨ description.length > 500 ∨
          description.toList.any breaksDescription
      · exact .inr ⟨_, (if_pos hd).trans rfl⟩
      · by_cases hs : Text.isIdentifier sessionId = true
        · refine .inl ((if_neg hd).trans ?_)
          unfold sessionFooter
          rw [if_pos hs]
          rfl
        · refine .inr ⟨.bridge {
            code := .invalidRequest
            message := "session_id cannot be encoded in a Git commit footer" },
              (if_neg hd).trans ?_⟩
          unfold sessionFooter
          rw [if_neg hs]
          rfl

theorem commitArguments_cases (paths : List String) (commitMode : CommitMode)
    (description sessionId : String) :
    (∃ options, commitArguments paths commitMode description sessionId =
      pure ("commit" :: options ++ ["--only", "--"] ++ paths)) ∨
    ∃ e, commitArguments paths commitMode description sessionId = Async.Prog.raise e :=
  (commitArguments_eq paths commitMode description sessionId).imp_left fun h => ⟨_, h⟩

/-- `_commit_arguments` of a description and a session that need not be given. -/
def commitArgumentsOf (paths : List String) (commitMode : CommitMode)
    (description sessionId : Option String) : Body (List String) :=
  match commitMode, description, sessionId with
  | .create, some description, some sessionId => commitArguments paths .create description sessionId
  | .create, _, _ => do
    let _ ← validateCommitPaths paths
    reject .invalidRequest "description and session_id are required"
  | .amendSessionWip, _, _ => commitArguments paths .amendSessionWip "" ""

theorem commitArgumentsOf_cases (paths : List String) (commitMode : CommitMode)
    (description sessionId : Option String) :
    (∃ options, commitArgumentsOf paths commitMode description sessionId =
      pure ("commit" :: options ++ ["--only", "--"] ++ paths)) ∨
    ∃ e, commitArgumentsOf paths commitMode description sessionId = Async.Prog.raise e := by
  have rejected : ∃ e, (do
      let _ ← validateCommitPaths paths
      reject .invalidRequest "description and session_id are required" : Body (List String)) =
        Async.Prog.raise e := by
    unfold validateCommitPaths
    split_ifs <;> exact ⟨_, rfl⟩
  unfold commitArgumentsOf
  split
  · exact commitArguments_cases ..
  · exact .inr rejected
  · exact commitArguments_cases ..

/-- The arguments of the commit of one file; without a mode there is no footer. -/
def fileCommitArguments (path description : String) (commitMode : Option CommitMode)
    (sessionId : Option String) : Body (List String) :=
  match commitMode with
  | none => do
    if sessionId.isSome then
      reject .invalidRequest "session_id requires an explicit commit_mode"
    let paths ← validateCommitPaths [path]
    pure (["commit", "-m", "wip: " ++ description, "--only", "--"] ++ paths)
  | some commitMode => commitArgumentsOf [path] commitMode description sessionId

/-- The options of the commit of one file. -/
def fileCommitOptions (description : String) (commitMode : Option CommitMode)
    (sessionId : Option String) : List String :=
  match commitMode with
  | none => ["-m", "wip: " ++ description]
  | some commitMode => commitOptions description (sessionId.getD "") commitMode

theorem fileCommitArguments_some (path description sessionId : String) (commitMode : CommitMode) :
    fileCommitArguments path description commitMode sessionId =
      commitArguments [path] commitMode description sessionId := by
  cases commitMode <;> rfl

theorem fileCommitArguments_eq (path description : String) (commitMode : Option CommitMode)
    (sessionId : Option String) :
    fileCommitArguments path description commitMode sessionId =
      pure ("commit" :: fileCommitOptions description commitMode sessionId ++ ["--only", "--"] ++
        [path]) ∨
    ∃ e, fileCommitArguments path description commitMode sessionId = Async.Prog.raise e := by
  cases commitMode with
  | none =>
    cases sessionId with
    | some sessionId => exact .inr ⟨_, rfl⟩
    | none =>
      unfold fileCommitArguments validateCommitPaths
      by_cases hp : ([path].isEmpty || [path].any fun path =>
          path == "" || path.toList.contains '\x00') = true
      · rw [if_pos hp]
        exact .inr ⟨_, rfl⟩
      · rw [if_neg hp]
        exact .inl rfl
  | some commitMode =>
    cases commitMode with
    | amendSessionWip => exact commitArguments_eq [path] .amendSessionWip "" ""
    | create =>
      cases sessionId with
      | some sessionId => exact commitArguments_eq [path] .create description sessionId
      | none =>
        refine .inr ?_
        unfold fileCommitArguments commitArgumentsOf validateCommitPaths
        split_ifs <;> exact ⟨_, rfl⟩

/-- The check that the project still stands clean at the expected head. -/
def requireBaseline (root expectedHead : String) (moved dirty : String) : Body GitStatus := do
  let before ← status root
  if Text.lower before.head ≠ Text.lower expectedHead then
    reject .conflict moved
      [("expected_head", .str expectedHead), ("actual_head", .str before.head)]
  if before.dirty then
    reject .workspaceDirty dirty [("changed_files", .ofStrings before.changedFiles)]
  pure before

/-- The commit itself and the check that it left a new clean baseline. -/
def commitAndVerify (root : String) (arguments : List String) (commitMode : CommitMode)
    (expectedHead : String) (expectedBranch : Option String) (notFinal : String) :
    Body String := do
  if commitMode = .amendSessionWip then
    verifyAmendTarget root expectedHead expectedBranch
  let _ ← run root arguments
  let final ← status root
  if final.dirty ∨ Text.lower final.head = Text.lower expectedHead then
    reject .conflict notFinal
      [("expected_previous_head", .str expectedHead), ("actual_head", .str final.head),
        ("changed_files", .ofStrings final.changedFiles)]
  pure final.head

/-- The paths that changed besides the expected ones. -/
def unexpectedPaths (changed expected : List String) : List String :=
  Text.sortedSet (changed.filter fun path => !expected.contains path)

/-- The check that nothing but the expected paths changed while the mutation was made. -/
def requireIsolated (after : GitStatus) (expectedHead : String) (expected : List String)
    (message : String) : Body Unit :=
  if Text.lower after.head ≠ Text.lower expectedHead ∨
      unexpectedPaths after.changedFiles expected ≠ [] then
    reject .conflict message
      [("expected_head", .str expectedHead), ("actual_head", .str after.head),
        ("unexpected_changed_files", .ofStrings (unexpectedPaths after.changedFiles expected))]
  else pure ()

/-- Replace the target with a temporary file of the new content. -/
def writeFile (target path : String) (content : ByteArray) : Body Unit := do
  let failed : Body Unit := reject .unknownSideEffect
    "file write outcome is unknown and requires reconciliation" [("path", .str path)] .unknown
  let temp ← (quiet (.makeTemp (Text.parent target))).orReject .unknownSideEffect
    "file write outcome is unknown and requires reconciliation" [("path", .str path)] .unknown
  let written : Body Unit := do
    quiet (.writeTemp temp content)
    quiet (.replace temp target)
  written.handle fun e => if e.isOSError then some do
      -- `unlink` meets its own `OSError` and lets it pass.
      (quiet (.unlink temp)).handle fun e => if e.isOSError then some (pure ()) else none
      failed
    else none

/-- `commit_file_bytes`. -/
def commitFileBytes (root path : String) (content : ByteArray) (expectedHead description : String)
    (requireExists : Option Bool) (commitMode : Option CommitMode)
    (sessionId expectedBranch : Option String) : Body String := do
  requireHead expectedHead
  let arguments ← fileCommitArguments path description commitMode sessionId
  let before ← requireBaseline root expectedHead
    "Git HEAD changed before the file mutation started"
    "file mutation requires a clean workspace"
  let target := Text.join root path
  if requireExists = some true then
    if !(← quiet (.isFile target)) then
      reject .fileNotFound "a regular file is required" [("path", .str path)]
  if requireExists = some false then
    if ← quiet (.exists_ target) then
      reject .conflict "file already exists" [("path", .str path)]
  if ← quiet (.exists_ target) then
    if !(← quiet (.isFile target)) then
      reject .conflict "target path is not a regular file" [("path", .str path)]
  let same ← if ← quiet (.exists_ target) then do
      let raw ← (quiet (.readBytes target)).orReject .backendUnavailable
        "target file could not be read before mutation" [("path", .str path)] .failed true
      pure (decide (raw = content))
    else pure false
  if same then pure before.head
  else do
    writeFile target path content
    let finish : Body String := do
      let afterWrite ← status root
      requireIsolated afterWrite expectedHead [path]
        "Git state changed concurrently while writing the file"
      if !afterWrite.dirty then pure afterWrite.head
      else do
        if !afterWrite.changedFiles.contains path then
          reject .conflict "target file mutation was not isolated to the expected path"
            [("path", .str path), ("changed_files", .ofStrings afterWrite.changedFiles)]
        let _ ← run root ["add", "--", path]
        -- without a mode the commit is a new one
        commitAndVerify root arguments (commitMode.getD .create) expectedHead expectedBranch
          "file mutation did not finalize to a new clean Git baseline"
    finish.exceptBridge fun exc => reject .unknownSideEffect
      "file mutation changed the worktree but could not be safely finalized"
      [("path", .str path), ("cause", .str exc.code.text)] .unknown

/-- The checks of `commit_file_bytes` on the target, and whether it holds the content already. -/
def checkTarget (target path : String) (content : ByteArray) (requireExists : Option Bool) :
    Body Bool := do
  if requireExists = some true then
    if !(← quiet (.isFile target)) then
      reject .fileNotFound "a regular file is required" [("path", .str path)]
  if requireExists = some false then
    if ← quiet (.exists_ target) then
      reject .conflict "file already exists" [("path", .str path)]
  if ← quiet (.exists_ target) then
    if !(← quiet (.isFile target)) then
      reject .conflict "target path is not a regular file" [("path", .str path)]
  if ← quiet (.exists_ target) then
    let raw ← (quiet (.readBytes target)).orReject .backendUnavailable
      "target file could not be read before mutation" [("path", .str path)] .failed true
    pure (decide (raw = content))
  else pure false

/-- What `commit_file_bytes` does when the file has been replaced. -/
def finishFile (root path : String) (arguments : List String) (expectedHead : String)
    (commitMode : Option CommitMode) (expectedBranch : Option String) : Body String := do
  let afterWrite ← status root
  requireIsolated afterWrite expectedHead [path]
    "Git state changed concurrently while writing the file"
  if !afterWrite.dirty then pure afterWrite.head
  else do
    if !afterWrite.changedFiles.contains path then
      reject .conflict "target file mutation was not isolated to the expected path"
        [("path", .str path), ("changed_files", .ofStrings afterWrite.changedFiles)]
    let _ ← run root ["add", "--", path]
    commitAndVerify root arguments (commitMode.getD .create) expectedHead expectedBranch
      "file mutation did not finalize to a new clean Git baseline"

theorem ite_bind {α β : Type} {c : Prop} [Decidable c] (x y : Body α) (f : α → Body β) :
    (if c then x else y) >>= f = if c then x >>= f else y >>= f := by
  split_ifs <;> rfl

/-- `commit_file_bytes` by its parts. -/
theorem commitFileBytes_eq (root path : String) (content : ByteArray)
    (expectedHead description : String) (requireExists : Option Bool)
    (commitMode : Option CommitMode) (sessionId expectedBranch : Option String) :
    commitFileBytes root path content expectedHead description requireExists commitMode sessionId
      expectedBranch = (do
        requireHead expectedHead
        let arguments ← fileCommitArguments path description commitMode sessionId
        let before ← requireBaseline root expectedHead
          "Git HEAD changed before the file mutation started"
          "file mutation requires a clean workspace"
        let same ← checkTarget (Text.join root path) path content requireExists
        if same then pure before.head
        else do
          writeFile (Text.join root path) path content
          (finishFile root path arguments expectedHead commitMode expectedBranch).exceptBridge
            fun exc => reject .unknownSideEffect
              "file mutation changed the worktree but could not be safely finalized"
              [("path", .str path), ("cause", .str exc.code.text)] .unknown) := by
  unfold commitFileBytes checkTarget finishFile
  refine congrArg _ (funext fun _ => congrArg _ (funext fun _ => congrArg _ (funext fun before =>
    ?_)))
  have ret_bind {α β : Type} (a : α) (f : α → Body β) : (pure a : Body α) >>= f = f a := rfl
  have reject_bind {α β : Type} (code : ErrorCode) (message : String) (details : Dict)
      (status : Status) (retryable : Bool) (f : α → Body β) :
      (reject code message details status retryable : Body α) >>= f =
        reject code message details status retryable := rfl
  simp only [Async.Prog.bind_assoc, ite_bind, ret_bind, reject_bind]

/-- `move_tracked_file`. -/
def moveTrackedFile (root source destination expectedHead description : String)
    (commitMode : CommitMode) (sessionId : String) (expectedBranch : Option String) :
    Body String := do
  requireHead expectedHead
  let arguments ← commitArguments [source, destination] commitMode description sessionId
  let _ ← requireBaseline root expectedHead "Git HEAD changed before the file move started"
    "file move requires a clean workspace"
  let paths := [("source_path", Json.str source), ("destination_path", .str destination)]
  let _ ← (run root ["mv", "--", source, destination]).exceptBridge fun _ =>
    reject .conflict "Git could not move the tracked source file" paths .failed
  let finish : Body String := do
    let staged ← status root
    requireIsolated staged expectedHead [source, destination]
      "Git state changed concurrently while moving the file"
    commitAndVerify root arguments commitMode expectedHead expectedBranch
      "file move did not finalize to a new clean Git baseline"
  finish.exceptBridge fun exc => reject .unknownSideEffect
    "file move changed the worktree but could not be safely finalized"
    (paths ++ [("cause", .str exc.code.text)]) .unknown

/-- `delete_tracked_file`. -/
def deleteTrackedFile (root path expectedHead description : String) (commitMode : CommitMode)
    (sessionId : String) (expectedBranch : Option String) : Body String := do
  requireHead expectedHead
  let arguments ← commitArguments [path] commitMode description sessionId
  let _ ← requireBaseline root expectedHead "Git HEAD changed before the file delete started"
    "file delete requires a clean workspace"
  let _ ← (run root ["rm", "--", path]).exceptBridge fun _ =>
    reject .conflict "Git could not delete the tracked source file" [("path", .str path)] .failed
  let finish : Body String := do
    let staged ← status root
    requireIsolated staged expectedHead [path]
      "Git state changed concurrently while deleting the file"
    commitAndVerify root arguments commitMode expectedHead expectedBranch
      "file delete did not finalize to a new clean Git baseline"
  finish.exceptBridge fun exc => reject .unknownSideEffect
    "file delete changed the worktree but could not be safely finalized"
    [("path", .str path), ("cause", .str exc.code.text)] .unknown

/-- `commit_paths`. -/
def commitPaths (root : String) (paths : List String) (commitMode : CommitMode)
    (description sessionId expectedHead expectedBranch : Option String) : Body String := do
  let arguments ← commitArgumentsOf paths commitMode description sessionId
  expectedHead.elim (pure ()) requireHead
  let before ← status root
  if expectedHead.any fun head => Text.lower before.head != Text.lower head then
    reject .conflict "Git HEAD changed before the WIP commit started"
      [("expected_head", .ofOption expectedHead), ("actual_head", .str before.head)]
  let finish : Body String := do
    if commitMode = .amendSessionWip then
      verifyAmendTarget root (expectedHead.getD before.head) expectedBranch
    let _ ← run root arguments
    let final ← status root
    if final.dirty ∨ (expectedHead.any fun head => Text.lower final.head == Text.lower head) then
      reject .conflict "WIP commit did not finalize to a new clean Git baseline"
        [("expected_previous_head", .ofOption expectedHead), ("actual_head", .str final.head),
          ("changed_files", .ofStrings final.changedFiles)]
    pure final.head
  finish.exceptBridge fun exc => reject .unknownSideEffect
    "WIP commit outcome is unknown and requires reconciliation" [("cause", .str exc.code.text)]
    .unknown

/-- `create_wip_commit`. -/
def createWipCommit (root : String) (paths : List String) (description sessionId : String)
    (expectedHead expectedBranch : Option String) : Body String :=
  commitPaths root paths .create description sessionId expectedHead expectedBranch

/-! ## Diffs -/

/-- The arguments that every diff starts with. -/
def diffArguments (how : List String) : List String :=
  ["diff", "--no-ext-diff", "--no-renames"] ++ how

/-- The non-empty names of a `--name-only -z` diff. -/
def diffNames (output : String) : List String := (Text.split '\x00' output).filter (· ≠ "")

def diff (root : String) (maxOutputBytes : ℕ) : Body (String × Bool) := do
  let status ← status root
  rejectSensitiveNames status.changedFiles
  let names ← run root (diffArguments ["--name-only", "-z", "HEAD", "--"])
  rejectSensitiveNames (diffNames names)
  let output ← run root (diffArguments ["--unified=3", "HEAD", "--"])
  pure (Text.truncate output maxOutputBytes)

def diffNamesFrom (root refName : String) : Body (List String) := do
  requireCheckpointRef refName
  let status ← status root
  rejectSensitiveNames status.changedFiles
  let names ← run root (diffArguments ["--name-only", "-z", refName, "--"])
  rejectSensitiveNames (diffNames names)
  pure (diffNames names)

def diffNamesBetween (root refName head : String) : Body (List String) := do
  requireCheckpointRef refName
  requireHead head
  let names ← run root (diffArguments ["--name-only", "-z", refName, head, "--"])
  rejectSensitiveNames (diffNames names)
  pure (diffNames names)

def diffFrom (root refName : String) (maxOutputBytes : ℕ) : Body (String × Bool) := do
  requireCheckpointRef refName
  let _ ← diffNamesFrom root refName
  let output ← run root (diffArguments ["--unified=3", refName, "--"])
  pure (Text.truncate output maxOutputBytes)

def diffBetween (root refName head : String) (maxOutputBytes : ℕ) : Body (String × Bool) := do
  requireCheckpointRef refName
  requireHead head
  let _ ← diffNamesBetween root refName head
  let output ← run root (diffArguments ["--unified=3", refName, head, "--"])
  pure (Text.truncate output maxOutputBytes)

end GitGuard

end CodemcpBridge
