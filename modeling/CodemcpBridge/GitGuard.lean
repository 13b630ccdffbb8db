import CodemcpBridge.Requests

/-!
# Git inspection and fixed Git mutations

Every method of `GitGuard` that the services use, over the one act `git` that runs a Git command in
a project root.  What Git answers is the surroundings' choice.
-/

namespace CodemcpBridge

namespace Body

variable {α : Type}

def raise (e : BridgeError) : Body α := Async.Prog.raise (.bridge e)

/-- `except BridgeError as exc: …`. -/
def exceptBridge (x : Body α) (h : BridgeError → Body α) : Body α :=
  x.handle fun
    | .bridge e => some (h e)
    | _ => none

end Body

open Body

structure GitStatus where
  branch : String
  head : String
  dirty : Bool
  changedFiles : List String
  deriving DecidableEq

structure GitSnapshot where
  branch : String
  head : String
  dirty : Bool
  changedFiles : List String
  fileHashes : Dict
  deriving DecidableEq

/-- `GitSnapshot.as_data`. -/
def GitSnapshot.asData (s : GitSnapshot) : Dict :=
  [("branch", .str s.branch), ("head", .str s.head), ("dirty", .bool s.dirty),
    ("changed_files", .ofStrings s.changedFiles), ("file_hashes", .obj s.fileHashes)]

/-- The only commit side effects that a mutation may ask for. -/
inductive CommitMode
  | create | amendSessionWip
  deriving DecidableEq, Repr

namespace GitGuard

/-- `_run`. -/
def run (root : String) (arguments : List String) : Body String := act (.git root arguments)

/-- The paths that `status --porcelain=v1 -z` names; a rename or a copy names two. -/
def porcelainPaths : List String → List String
  | [] => []
  | entry :: rest =>
    if entry.length < 3 then porcelainPaths rest
    else if (entry.toList.take 2).any fun c => c == 'R' || c == 'C' then
      match rest with
      | [] => [Text.drop 3 entry]
      | original :: rest =>
        Text.drop 3 entry :: (if original = "" then [] else [original]) ++ porcelainPaths rest
    else Text.drop 3 entry :: porcelainPaths rest

def status (root : String) : Body GitStatus := do
  let branch ← run root ["rev-parse", "--abbrev-ref", "HEAD"]
  let head ← run root ["rev-parse", "HEAD"]
  let porcelain ← run root ["status", "--porcelain=v1", "--untracked-files=all", "-z"]
  let changedFiles := porcelainPaths (Text.split '\x00' porcelain)
  pure { branch := Text.strip branch, head := Text.strip head, dirty := !changedFiles.isEmpty
         changedFiles }

def requireWorktreeRoot (root : String) : Body Unit := do
  let toplevel ← run root ["rev-parse", "--show-toplevel"]
  let actual ← quiet (.resolved (Text.strip toplevel))
  let expected ← quiet (.resolved root)
  if actual ≠ expected then
    reject .projectNotAllowed "registered project root must be the Git worktree root"
      [("expected_root", .str expected), ("actual_root", .str actual)]

/-- The path and the object id of a line of `ls-tree`, if it is one of a blob. -/
def treeBlob (entry : String) : Option (String × String) :=
  match Text.split '\t' entry with
  | header :: path :: paths =>
    match Text.words header with
    | [_, "blob", hash] => some ("\t".intercalate (path :: paths), hash)
    | _ => none
  | _ => none

/-- The blobs that `ls-tree -r -z` lists, by path. -/
def treeHashes (entries : List String) : Dict :=
  (entries.filterMap treeBlob).foldl (fun fileHashes blob => fileHashes.set blob.1 (.str blob.2)) []

def snapshot (root : String) : Body GitSnapshot := do
  let status ← status root
  let tree ← run root ["ls-tree", "-r", "-z", "--full-tree", "HEAD"]
  pure { branch := status.branch, head := status.head, dirty := status.dirty
         changedFiles := status.changedFiles, fileHashes := treeHashes (Text.split '\x00' tree) }

/-- The digest of a diff's text. -/
def diffHash (diff : String) : Json := .sha256Bytes diff.toUTF8

def checkpointRefPrefix : String := "refs/codemcp-remote/checkpoints/"

/-- `_CHECKPOINT_REF_PATTERN`. -/
def isCheckpointRef (refName : String) : Bool :=
  Text.startsWith refName checkpointRefPrefix &&
    let id := refName.toList.drop checkpointRefPrefix.length
    id.length == 32 && id.all fun c => ('0' ≤ c && c ≤ '9') || ('a' ≤ c && c ≤ 'f')

def requireCheckpointRef (refName : String) : Body Unit :=
  if isCheckpointRef refName then pure ()
  else reject .checkpointInvalid "checkpoint ref is not Bridge-owned"

/-- `_HEAD_PATTERN`. -/
def isHead (head : String) : Bool :=
  40 ≤ head.length && head.length ≤ 64 && head.toList.all Text.isHexDigit

def requireHead (head : String) : Body Unit :=
  if isHead head then pure ()
  else reject .checkpointInvalid "checkpoint head is not a Git commit"

/-- The names that `is_sensitive_relative_path` holds of. -/
def sensitiveNames : List String → Body (List String)
  | [] => pure []
  | name :: names => do
    let sensitive ← quiet (.isSensitive name)
    let rest ← sensitiveNames names
    pure (if sensitive then name :: rest else rest)

def rejectSensitiveNames (names : List String) : Body Unit := do
  let sensitive ← sensitiveNames names
  if sensitive ≠ [] then
    reject .sensitivePath "diff includes sensitive paths and is not exposed"
      [("paths", .ofStrings sensitive)]

def createCheckpointRef (root refName head : String) : Body Unit := do
  requireCheckpointRef refName
  requireHead head
  let _ ← run root ["update-ref", "--no-deref", refName, head]

def deleteCheckpointRef (root refName : String) : Body Unit := do
  requireCheckpointRef refName
  let _ ← run root ["update-ref", "--no-deref", "-d", refName]

def resolveCheckpointRef (root refName : String) : Body String := do
  requireCheckpointRef refName
  let output ← run root ["rev-parse", "--verify", refName ++ "^\x7bcommit\x7d"]
  requireHead (Text.strip output)
  pure (Text.strip output)

def resetToCheckpoint (root refName : String) : Body Unit := do
  requireCheckpointRef refName
  let _ ← run root ["reset", "--hard", refName]

/-! ## Session footers -/

def sessionFooterPrefix : String := "Codemcp-Remote-Session: "

def sessionFooter (sessionId : String) : Body String :=
  if Text.isIdentifier sessionId then pure (sessionFooterPrefix ++ sessionId)
  else reject .invalidRequest "session_id cannot be encoded in a Git commit footer"

/-- `_parse_session_footer`. -/
def parseSessionFooter (message : String) : Option String :=
  let normalized := (message.toList.reverse.dropWhile fun c => c == '\r' || c == '\n').reverse
  let lines := (Text.linesOf [] normalized).map String.ofList
  match lines.filter fun line => Text.startsWith line sessionFooterPrefix with
  | [footer] =>
    let sessionId := Text.drop sessionFooterPrefix.length footer
    if lines.getLast? = some footer ∧ Text.isIdentifier sessionId = true then some sessionId
    else none
  | _ => none

def readSessionFooter (root head : String) : Body (Option String) := do
  requireHead head
  let message ← run root ["show", "--no-patch", "--no-notes", "--format=%B", head]
  pure (parseSessionFooter message)

def hasSessionFooter (root head sessionId : String) : Body Bool := do
  let expected ← sessionFooter sessionId
  let actual ← readSessionFooter root head
  pure (actual == some (Text.drop sessionFooterPrefix.length expected))

/-! ## Shared refs -/

/-- The refs other than the current branch among those listed. -/
def sharedRefs (currentRef : Option String) : List String → Body (List String)
  | [] => pure []
  | ref :: refs =>
    if Text.startsWith ref checkpointRefPrefix then sharedRefs currentRef refs
    else if ["refs/heads/", "refs/remotes/", "refs/tags/"].any (Text.startsWith ref) then do
      let rest ← sharedRefs currentRef refs
      pure (if some ref = currentRef then rest else ref :: rest)
    else reject .backendUnavailable "Git ref inspection returned an unexpected ref" [] .failed

def sharedRefsContainingHead (root head branch : String) : Body (List String) := do
  requireHead head
  if branch = "" ∨ branch.toList.any (fun c => c == '\x00' || c == '\r' || c == '\n') then
    reject .checkpointInvalid "Git branch is not valid"
  let output ← run root ["for-each-ref", "--format=%(refname)", "--contains", head, "refs/heads",
    "refs/remotes", "refs/tags"]
  sharedRefs (if branch = "HEAD" then none else some ("refs/heads/" ++ branch))
    (((Text.splitlines output).map Text.strip).filter (· ≠ ""))

def verifyAmendTarget (root expectedHead : String) (expectedBranch : Option String) :
    Body Unit := do
  let current ← status root
  if Text.lower current.head ≠ Text.lower expectedHead ∨
      (expectedBranch.any fun b => current.branch != b) then
    reject .conflict "Git branch or HEAD changed before the session WIP amend started"
      [("expected_branch", .ofOption expectedBranch), ("actual_branch", .str current.branch),
        ("expected_head", .str expectedHead), ("actual_head", .str current.head)]
  let refs ← sharedRefsContainingHead root current.head current.branch
  if refs ≠ [] then
    reject .conflict "session WIP amend is blocked by locally observable shared refs"
      [("shared_refs", .ofStrings refs), ("head", .str current.head)]

end GitGuard

end CodemcpBridge
