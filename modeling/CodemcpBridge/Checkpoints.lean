import CodemcpBridge.GitCommit
import CodemcpBridge.Policy

/-!
# Checkpoints

`CheckpointService`: a checkpoint is a Bridge-owned ref and a row that records the clean baseline;
finalizing it records what a mutation made of the baseline.  `determineCommitMode` decides from them
and from Git whether the commit at `HEAD` may be amended.
-/

namespace CodemcpBridge

open Body

namespace Checkpoints

/-- `validate_expected_head`. -/
def validateExpectedHead (head : String) : Body Unit :=
  if Text.isGitHead head then pure ()
  else reject .invalidRequest "expected_head must be a Git commit hash"
    [("field", .str "expected_head")]

/-- `_ref_name`. -/
def refName (checkpointId : String) : String := GitGuard.checkpointRefPrefix ++ checkpointId

def create (project : ProjectSpec) (sessionId operationId : String) (kind : CheckpointKind) :
    Body CheckpointRecord := do
  GitGuard.requireWorktreeRoot project.root
  let snapshot ← GitGuard.snapshot project.root
  if snapshot.dirty then
    reject .workspaceDirty "checkpoint requires a clean workspace"
      [("changed_files", .ofStrings snapshot.changedFiles)]
  let checkpointId ← quiet .uuid
  GitGuard.createCheckpointRef project.root (refName checkpointId) snapshot.head
  (store (.createCheckpoint checkpointId project.projectId sessionId operationId
    Database.localOwnerId kind snapshot.branch snapshot.head (refName checkpointId)
    (.obj snapshot.asData))).handle fun e =>
      if e.isException then some do
        (GitGuard.deleteCheckpointRef project.root (refName checkpointId)).exceptBridge
          fun _ => pure ()
        Async.Prog.raise e
      else none

/-- A branch name that the checks of `finalize` refuse. -/
def isBadBranch (branch : String) : Bool :=
  branch == "" || branch.toList.any fun c => c == '\x00' || c == '\r' || c == '\n'

/-- The check of a snapshot against the head and the branch that a mutation left. -/
def requireAfter (checkpoint : CheckpointRecord) (message : String) (after : GitSnapshot)
    (expectedHead expectedBranch : String) : Body Unit :=
  if Text.lower after.head ≠ Text.lower expectedHead ∨ after.branch ≠ expectedBranch then
    reject .checkpointConflict message
      [("checkpoint_id", .str checkpoint.checkpointId),
        ("expected_after_branch", .str expectedBranch),
        ("actual_after_branch", .str after.branch),
        ("expected_after_head", .str expectedHead), ("actual_after_head", .str after.head)]
  else pure ()

/-- Store what a snapshot and a diff say of the outcome. -/
def record (checkpoint : CheckpointRecord) (after : GitSnapshot) (changedFiles : List String)
    (diff : String × Bool) : Body CheckpointRecord :=
  store (.finalizeCheckpoint checkpoint.checkpointId
    ((after.asData.map fun f =>
      if f.1 = "changed_files" then (f.1, .ofStrings changedFiles) else f) ++
        [("diff_truncated", .bool diff.2)]) (GitGuard.diffHash diff.1))

/-- `finalize` with an expected head and branch. -/
def finalize (settings : PolicySettings) (project : ProjectSpec) (checkpoint : CheckpointRecord)
    (expectedAfterHead expectedAfterBranch : String) : Body CheckpointRecord := do
  validateExpectedHead expectedAfterHead
  if isBadBranch expectedAfterBranch then
    reject .checkpointInvalid "expected Git branch is not valid"
  let after ← GitGuard.snapshot project.root
  requireAfter checkpoint "Git state changed before checkpoint finalization" after
    expectedAfterHead expectedAfterBranch
  let changedFiles ← GitGuard.diffNamesBetween project.root checkpoint.refName expectedAfterHead
  let diff ← GitGuard.diffBetween project.root checkpoint.refName expectedAfterHead
    settings.maxResultBytes
  let confirmed ← GitGuard.snapshot project.root
  requireAfter checkpoint "Git state changed during checkpoint finalization" confirmed
    expectedAfterHead expectedAfterBranch
  record checkpoint confirmed changedFiles diff

/-- `finalize` without an expectation, as a reconciliation calls it. -/
def finalizeCurrent (settings : PolicySettings) (project : ProjectSpec)
    (checkpoint : CheckpointRecord) : Body CheckpointRecord := do
  let after ← GitGuard.snapshot project.root
  let changedFiles ← GitGuard.diffNamesFrom project.root checkpoint.refName
  let diff ← GitGuard.diffFrom project.root checkpoint.refName settings.maxResultBytes
  record checkpoint after changedFiles diff

/-- The evidence that the commit at `HEAD` is work in progress of the session. -/
def amendEvidence (project : ProjectSpec) (sessionId : String) (checkpoint : CheckpointRecord) :
    Body Bool := do
  let current ← GitGuard.status project.root
  if current.dirty then pure false
  else if current.branch ≠ checkpoint.branch then pure false
  else if Text.lower current.head ≠ Text.lower checkpoint.head then pure false
  else
    let candidate ← store (.findSessionWipCheckpoint project.projectId sessionId current.branch
      current.head)
    if candidate.isNone then pure false
    else if !(← GitGuard.hasSessionFooter project.root current.head sessionId) then pure false
    else
      let refs ← GitGuard.sharedRefsContainingHead project.root current.head current.branch
      pure refs.isEmpty

/-- `determine_commit_mode`: everything missing or uncertain falls back to `CREATE`. -/
def determineCommitMode (project : ProjectSpec) (sessionId : String)
    (checkpoint : CheckpointRecord) : Body CommitMode :=
  if sessionId = "" ∨ checkpoint.projectId ≠ project.projectId ∨
      checkpoint.sessionId ≠ some sessionId ∨ checkpoint.kind ≠ .mutation then
    pure .create
  else do
    let amend ← (amendEvidence project sessionId checkpoint).handle fun e =>
      if e.isException then some (pure false) else none
    pure (if amend then .amendSessionWip else .create)

def verifyRef (project : ProjectSpec) (checkpoint : CheckpointRecord) : Body Unit := do
  let resolved ← (GitGuard.resolveCheckpointRef project.root checkpoint.refName).exceptBridge
    fun _ => reject .checkpointInvalid "checkpoint ref is missing or invalid"
      [("checkpoint_id", .str checkpoint.checkpointId)]
  if Text.lower resolved ≠ Text.lower checkpoint.head then
    reject .checkpointInvalid "checkpoint ref no longer points to its recorded commit"
      [("checkpoint_id", .str checkpoint.checkpointId), ("recorded_head", .str checkpoint.head),
        ("actual_head", .str resolved)]

def getForSession (checkpointId projectId sessionId : String) : Body CheckpointRecord := do
  let found ← store (.getCheckpoint checkpointId)
  match found.filter fun checkpoint => checkpoint.ownerId == Database.localOwnerId &&
      checkpoint.projectId == projectId && checkpoint.sessionId == some sessionId with
  | some checkpoint => pure checkpoint
  | none =>
    reject .checkpointNotFound "checkpoint_id is not available to this project session"
      [("checkpoint_id", .str checkpointId)]

def markRestored (checkpointId : String) : Body CheckpointRecord :=
  store (.markCheckpointRestored checkpointId)

/-! ## Summaries -/

/-- The dictionary in a stored document; anything else raises where it is used. -/
def dictOf : Document → Except Exn Dict
  | .malformed => .error .valueError
  | .value (.obj d) => .ok d
  | .value _ => .error .other

/-- `len(d.get(key, {}))` of a dictionary or a list. -/
def lengthAt (d : Dict) (key : String) : Except Exn Int :=
  match Dict.get? d key with
  | none => .ok 0
  | some (.obj fields) => .ok fields.length
  | some (.arr xs) => .ok xs.length
  | some _ => .error .other

/-- The part of a summary that describes one snapshot. -/
def summaryOf (d : Dict) : Except Exn Json := do
  let count ← lengthAt d "file_hashes"
  pure (.obj [("branch", (Dict.get? d "branch").getD .null),
    ("head", (Dict.get? d "head").getD .null), ("dirty", (Dict.get? d "dirty").getD .null),
    ("changed_files", (Dict.get? d "changed_files").getD (.arr [])),
    ("file_hash_count", .num count)])

/-- `summary`. -/
def summary (checkpoint : CheckpointRecord) : Except Exn Dict := do
  let before ← dictOf checkpoint.before
  let beforeSummary ← summaryOf before
  let result : Dict := [("checkpoint_id", .str checkpoint.checkpointId),
    ("kind", .str checkpoint.kind.text), ("status", .str checkpoint.status.text),
    ("branch", .str checkpoint.branch), ("ref_name", .str checkpoint.refName),
    ("before", beforeSummary), ("diff_hash", checkpoint.diffHash.getD .null)]
  match checkpoint.after with
  | none => pure result
  | some document => do
    let after ← dictOf document
    let afterSummary ← summaryOf after
    pure (result ++ [("after", afterSummary),
      ("diff_truncated", (Dict.get? after "diff_truncated").getD (.bool false))])

/-- The changed files that the `after` part of a summary names. -/
def changedFilesOf (summary : Dict) : List String :=
  match Dict.get? summary "after" with
  | some (.obj after) => match Dict.get? after "changed_files" with
    | some (.arr xs) => xs.filterMap Json.str?
    | _ => []
  | _ => []

end Checkpoints

end CodemcpBridge
