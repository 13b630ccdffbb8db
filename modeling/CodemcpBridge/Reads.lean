import CodemcpBridge.Mutations

/-!
# The bodies of the reads

The tools that only look at a project: opening a session, status, files, search and diffs.
-/

namespace CodemcpBridge

open Body

def projectOpenBody (env : Env) (projectId : String) : Body Outcome := do
  let project ← getProject projectId
  let status ← inspectProject project
  let session ← createSession env.principal projectId
  let active ← quiet (.adapterActive projectId)
  pure { data := [("session_id", .str session.sessionId), ("root", .str project.root),
                  ("branch", .str status.branch), ("head", .str status.head),
                  ("dirty", .bool status.dirty), ("worker_active", .bool active)]
         changedFiles := status.changedFiles }

def projectStatusBody (env : Env) (projectId : String) (sessionId : Option String) :
    Body Outcome := do
  let project ← getProject projectId
  if (sessionId.filter (· ≠ "")).isSome then
    let _ ← requireSession env.principal projectId sessionId
  let status ← inspectProject project
  let readiness ← quiet (.inspectReadiness project)
  let active ← quiet (.adapterActive projectId)
  pure { data := [("root", .str project.root), ("branch", .str status.branch),
                  ("head", .str status.head), ("dirty", .bool status.dirty),
                  ("worker_active", .bool active), ("profile", .ofOption readiness.profileId),
                  ("profile_source", .str readiness.profileSource),
                  ("profile_resolved", .bool readiness.profileId.isSome),
                  ("detection", .obj [("candidates", .ofStrings readiness.detectionCandidates),
                    ("ambiguous", .bool readiness.detectionAmbiguous)]),
                  ("commands_resolved", .bool !readiness.availableCommands.isEmpty),
                  ("available_commands", .ofStrings readiness.availableCommands),
                  ("command_verification", .obj [
                    ("matched", .ofStrings readiness.matchedCommands),
                    ("missing", .ofStrings readiness.missingCommands),
                    ("mismatched", .ofStrings readiness.mismatchedCommands)]),
                  ("codemcp_config_source", .str readiness.codemcpConfigSource),
                  ("codemcp_config_ready", .bool readiness.codemcpConfigReady),
                  ("development_ready", .bool readiness.developmentReady),
                  ("issues", .ofStrings readiness.issues)]
         changedFiles := status.changedFiles }

/-- `_is_codemcp_error`. -/
def isCodemcpError (result : AdapterResult) : Bool :=
  result.isError ||
    Text.startsWith (Text.lower (String.ofList (result.text.toList.dropWhile Text.isSpace))) "error"

def fileReadBody (env : Env) (projectId sessionId path : String) (offset limit : Option Int) :
    Body Outcome := do
  let _ ← requireSession env.principal projectId sessionId
  if offset.any fun n => n < 0 then
    reject .invalidRequest "offset must not be negative"
  if limit.any fun n => n < 0 ∨ n > 10000 then
    reject .invalidRequest "limit must be between 0 and 10000"
  let (project, target, _) ← quiet (.resolvePath projectId path false)
  requireReadable env.settings target
  let before ← readFile target
  let result ← quiet (.adapterCall project (.readFile target offset limit sessionId))
  if isCodemcpError result then
    reject .backendUnavailable "codemcp rejected ReadFile" [("subtool", .str "ReadFile")] .failed
  let afterSize ← validateFileSize env.settings target
  let after ← readFile target
  if Json.sha256Bytes after ≠ .sha256Bytes before then
    let changed ← quiet (.relativePath project target)
    reject .conflict "file content changed while it was being read" [("path", .str changed)]
  let relative ← quiet (.relativePath project target)
  pure { data := [("path", .str relative), ("text", .str result.text),
                  ("sha256", .sha256Bytes after), ("size_bytes", .num afterSize)]
         changedFiles := []
         truncated := result.truncated }

/-- The include glob applies to a search path by its name or by its whole relative path. -/
def isIncluded (relative include_ : String) : Bool :=
  Text.fnmatchcase ((Text.parts relative).getLastD "") include_ ||
    Text.fnmatchcase relative include_

/-- One `Grep` for each search path: the results that name files, and whether any was truncated. -/
def searchPaths (project : ProjectSpec) (sessionId pattern target : String)
    (include_ : Option String) : List String → Body (List String × Bool)
  | [] => pure ([], false)
  | searchPath :: rest => do
    let skipped ← match include_.filter (· ≠ "") with
      | some glob =>
        if searchPath ≠ target then do
          let relative ← quiet (.relativePath project searchPath)
          pure !(isIncluded relative glob)
        else pure false
      | none => pure false
    if skipped then searchPaths project sessionId pattern target include_ rest
    else do
      let result ← quiet (.adapterCall project (.grep pattern searchPath include_ sessionId))
      if isCodemcpError result then
        reject .backendUnavailable "codemcp rejected Grep" [] .failed
      let filtered ← quiet (.filterGrep project result.text)
      let (results, truncated) ← searchPaths project sessionId pattern target include_ rest
      pure (if filtered = "" ∨ filtered = "No files found" then results else filtered :: results,
        result.truncated || truncated)

def codeSearchBody (env : Env) (projectId sessionId pattern : String)
    (path include_ : Option String) : Body Outcome := do
  let _ ← requireSession env.principal projectId sessionId
  validatePattern pattern
  let (project, target, _) ← quiet (.resolvePath projectId path true)
  let paths ← quiet (.safeSearchPaths project target)
  let (results, truncated) ← searchPaths project sessionId pattern target include_ paths
  let relative ← quiet (.relativePath project target)
  pure { data := [("path", .str relative),
                  ("text", .str (if results.isEmpty then "No files found"
                    else "\n".intercalate results))]
         changedFiles := []
         truncated }

/-- The line of a directory listing for one entry. -/
def entryLine (entry : String × Bool) : String :=
  let parts := Text.parts entry.1
  String.join (parts.map fun _ => "  ") ++ "- " ++ parts.getLastD "" ++
    (if entry.2 then "/" else "")

def fileListBody (env : Env) (projectId sessionId : String) (path : Option String) :
    Body Outcome := do
  let _ ← requireSession env.principal projectId sessionId
  let (project, target, _) ← quiet (.resolvePath projectId path true)
  if !(← quiet (.isDir target)) then
    reject .fileNotFound "a directory is required"
  let (entries, traversalTruncated) ← quiet (.safeDirectoryTree project target 1000)
  let relative ← quiet (.relativePath project target)
  let root := if relative = "." then "./" else relative ++ "/"
  let (text, truncated) := Text.truncate
    ("\n".intercalate (("- " ++ root) :: entries.map entryLine)) env.settings.maxResultBytes
  pure { data := [("path", .str relative), ("text", .str text)]
         changedFiles := []
         truncated := traversalTruncated || truncated }

def gitStatusBody (env : Env) (projectId sessionId : String) : Body Outcome := do
  let _ ← requireSession env.principal projectId sessionId
  let project ← getProject projectId
  let status ← inspectProject project
  pure { data := [("branch", .str status.branch), ("head", .str status.head),
                  ("dirty", .bool status.dirty),
                  ("changed_files", .ofStrings status.changedFiles)]
         changedFiles := status.changedFiles }

def gitDiffBody (env : Env) (projectId sessionId : String) (checkpointId : Option String) :
    Body Outcome := do
  let _ ← requireSession env.principal projectId sessionId
  let project ← getProject projectId
  let _ ← inspectProject project
  match checkpointId with
  | none => do
    let (diff, truncated) ← GitGuard.diff project.root env.settings.maxResultBytes
    pure { data := [("text", .str diff)], changedFiles := [], truncated }
  | some checkpointId => do
    let checkpoint ← Checkpoints.getForSession checkpointId projectId sessionId
    Checkpoints.verifyRef project checkpoint
    let changedFiles ← GitGuard.diffNamesFrom project.root checkpoint.refName
    let (diff, truncated) ← GitGuard.diffFrom project.root checkpoint.refName
      env.settings.maxResultBytes
    let summary ← Async.Prog.lift (Checkpoints.summary checkpoint)
    pure { data := [("text", .str diff), ("checkpoint", .obj summary)], changedFiles, truncated }

end CodemcpBridge
