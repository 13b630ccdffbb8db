import CodemcpBridge.Async.Oracle
import CodemcpBridge.Config.Profiles
import CodemcpBridge.GeneratedCodemcp
import CodemcpBridge.Policy
import CodemcpBridge.ProjectRegistry.Resolve

/-!
# Development readiness

What the Bridge reports of the commands of a project, and what the policy finds when one of them is
to run.  Both look at the `codemcp.toml` of the project, each in its own way, and both are answered
here by one state of a POSIX file system.
-/

namespace CodemcpBridge

namespace ProjectReadiness

open ProjectRegistry GeneratedCodemcp

/-! ## Files -/

/-- What `lstat` finds at a path: nothing, a regular file, a link, anything else, or an `OSError`
that is no `FileNotFoundError`. -/
inductive Stat
  | missing | regular | link | other | failed
  deriving DecidableEq

/-- What becomes of opening and reading a file: a `FileNotFoundError`, another `OSError`, or its
bytes.  If these are no TOML, it may be an integer that stops the reading, of more digits than `int`
converts. -/
inductive Opened
  | missing | failed
  | read (bytes : ByteArray) (overlong : Bool)

/-- The absolute path that a text names. -/
def posixPath (text : String) : HostPath where
  root := if Paths.rootOf text = "" then "/" else Paths.rootOf text
  names := Text.parts text

/-- A state of the file system. -/
structure Files where
  lstat : HostPath → Stat
  /-- `path.exists()`. -/
  exists_ : HostPath → Bool
  /-- `resolve(strict=False)`, where it does not raise. -/
  resolve : HostPath → Option HostPath
  openRead : HostPath → Opened
  /-- What no `lstat` finds cannot be opened. -/
  openRead_of_lstat : ∀ path, lstat path = .missing → openRead path = .missing

namespace Files

variable (files : Files)

/-- The host that paths are resolved on. -/
def host : Host where
  windows := false
  sameName := (· == ·)
  sameName_equivalence := equivalence_beq
  path := posixPath
  path_rooted text := by
    unfold posixPath
    split_ifs with h
    · exact (by decide : "/" ≠ "")
    · exact h
  resolve := files.resolve
  exists_ := files.exists_
  isSymlink path := files.lstat path == .link
  isReparsePoint path := files.lstat path == .link

end Files

/-- What `tomllib.load` raises. -/
inductive LoadFault
  | fileNotFound | osError | tomlDecode | unicodeDecode
  /-- The plain `ValueError` of `int`. -/
  | intLimit
  deriving DecidableEq

/-- The exception as the policy sees it: the last three are `ValueError`s. -/
def LoadFault.exn : LoadFault → Exn
  | fileNotFound => .fileNotFoundError ""
  | osError => .osError ""
  | tomlDecode | unicodeDecode | intLimit => .valueError

/-- `tomllib.load` of a file that is opened. -/
def tomllibLoad : Opened → Except LoadFault Toml.Table
  | .missing => .error .fileNotFound
  | .failed => .error .osError
  | .read bytes overlong => match String.fromUTF8? bytes with
    | none => .error .unicodeDecode
    | some text => match Tomllib.loads text.toList with
      | none => .error (if overlong then .intLimit else .tomlDecode)
      | some config => .ok config

/-! ## Detection -/

/-- `ProjectDetection`, without the evidence. -/
structure Detection where
  profileId : Option String
  candidates : List String
  ambiguous : Bool

/-- `_is_regular_marker` of `root / marker`. -/
def isRegularMarker (files : Files) (root : HostPath) (marker : String) : Bool :=
  files.lstat (files.host.joinpath root (Text.parts marker)) == .regular

/-- `detect_project_profile`. -/
def detectProjectProfile (files : Files) (root : HostPath) : Detection :=
  let found := (profileMarkers.filter fun m => m.2.any (isRegularMarker files root)) ++
    requiredProfileMarkers.filter fun m => m.2.all (isRegularMarker files root)
  let candidates := Text.sortedSet (found.map Prod.fst)
  { profileId := if candidates.length = 1 then candidates.head? else none
    candidates
    ambiguous := decide (1 < candidates.length) }

/-! ## The report -/

/-- `_load_codemcp_commands`: whether there is a file, whether it is valid, and its commands. -/
def loadCodemcpCommands (opened : Opened) : Except LoadFault (Bool × Bool × Toml.Table) :=
  match tomllibLoad opened with
  | .error .fileNotFound => .ok (false, false, [])
  | .error .osError | .error .tomlDecode => .ok (true, false, [])
  | .error .unicodeDecode => .error .unicodeDecode
  | .error .intLimit => .error .intLimit
  | .ok config => match (Toml.get config "commands").getD (.table []) with
    | .table commands => .ok (true, true, commands)
    | _ => .ok (true, false, [])

/-- How a command stands in the configuration. -/
inductive Alignment
  | matched | missing | mismatched
  deriving DecidableEq

def alignment (configured : Toml.Table) (commandId : String) (command : CommandSpec) : Alignment :=
  match Toml.get configured commandId with
  | none => .missing
  | some (.table entry) =>
    if (Toml.get entry "command").bind Toml.strings? = some command.argv then .matched
    else .mismatched
  | some _ => .mismatched

/-- The ids of the commands that stand in the configuration in one way. -/
def aligned (configured : Toml.Table) (project : ProjectSpec) (a : Alignment) : List String :=
  ((sortedCommands project).filter fun c => alignment configured c.1 c.2 = a).map Prod.fst

/-- `DevelopmentReadiness`, with what the project status leaves out. -/
structure DevelopmentReadiness extends Readiness where
  codemcpConfigExists : Bool
  codemcpConfigValid : Bool

/-- `inspect_development_readiness`. -/
def inspectDevelopmentReadiness (files : Files) (project : ProjectSpec) :
    Except LoadFault DevelopmentReadiness := do
  let detection := detectProjectProfile files (posixPath project.root)
  let available := Text.sortedSet (project.commands.map Prod.fst)
  let (configExists, configValid, configured) ←
    loadCodemcpCommands (files.openRead (posixPath project.codemcpConfig))
  let generated := !configExists && canGenerateCodemcpConfig project
  let listed (a : Alignment) : List String :=
    if !generated && configValid then aligned configured project a else []
  let matched := if generated then available else listed .matched
  let missing := listed .missing
  let mismatched := listed .mismatched
  let quality := project.commands.any fun c => ["test", "verify"].contains c.2.kind
  let unclear := detection.ambiguous && project.profileSource == "none"
  let when_ (c : Bool) (text : String) : List String := if c then [text] else []
  let ready := generated || (configExists && configValid && missing.isEmpty && mismatched.isEmpty)
  pure {
    profileId := project.profile
    profileSource := project.profileSource
    detectionCandidates := detection.candidates
    detectionAmbiguous := detection.ambiguous
    availableCommands := available
    matchedCommands := matched
    missingCommands := missing
    mismatchedCommands := mismatched
    codemcpConfigExists := configExists
    codemcpConfigValid := configValid
    codemcpConfigSource :=
      if generated then "generated"
      else if configExists && configValid then "project"
      else if configExists then "invalid"
      else "missing"
    codemcpConfigReady := ready
    developmentReady := !available.isEmpty && quality && ready && !unclear
    issues :=
      when_ unclear "project metadata is ambiguous; set an explicit profile" ++
      when_ available.isEmpty "no development commands were resolved" ++
      when_ (!available.isEmpty && !quality) "no test or verify command is available" ++
      if !configExists && !generated then ["codemcp configuration file is missing"]
      else if configExists && !configValid then ["codemcp configuration file is invalid"]
      else if configExists then
        when_ (!missing.isEmpty)
          ("codemcp configuration is missing commands: " ++ ", ".intercalate missing) ++
        when_ (!mismatched.isEmpty)
          ("codemcp command argv does not match resolved commands: " ++
            ", ".intercalate mismatched)
      else [] }

/-! ## The policy -/

/-- `project.codemcp_config.relative_to(project.root).as_posix()`. -/
def relativeConfig (files : Files) (project : ProjectSpec) : Except Exn String :=
  match files.host.relativeTo (posixPath project.root) (posixPath project.codemcpConfig) with
  | none => .error .valueError
  | some [] => .ok "."
  | some names => .ok ("/".intercalate names)

/-- The path that the policy opens. -/
def resolvedConfig (files : Files) (registry : Registry) (project : ProjectSpec) :
    Except Exn HostPath := do
  let relative ← relativeConfig files project
  let (_, configPath, _) ←
    ProjectRegistry.resolvePath files.host registry project.projectId (some relative) false false
  pure configPath

/-- What a file has as the argv of a command. -/
def argvIn (opened : Opened) (commandId : String) : Except LoadFault (Option (List String)) := do
  let config ← tomllibLoad opened
  pure ((configuredArgv config commandId).bind Toml.strings?)

/-- What the policy is answered in this state. -/
def answer (files : Files) (registry : Registry) : (q : Act) → Unit → Except Exn q.Result
  | .quiet (.lstatConfig project), _ => match files.lstat (posixPath project.codemcpConfig) with
    | .missing => .error (.fileNotFoundError "")
    | .failed => .error (.osError "")
    | _ => .ok ()
  | .quiet (.canGenerateConfig project), _ => .ok (canGenerateCodemcpConfig project)
  | .quiet (.configuredArgv project commandId), _ => do
    let configPath ← resolvedConfig files registry project
    (argvIn (files.openRead configPath) commandId).mapError LoadFault.exn
  | _, _ => .error .other

/-- `PolicyEngine.registered_command` of a command, without the requirement of an approval. -/
def registeredCommandIn (files : Files) (registry : Registry) (settings : PolicySettings)
    (project : ProjectSpec) (commandId : String) : Except Exn CommandSpec :=
  (registeredCommand settings project commandId).under (answer files registry) ()

end ProjectReadiness

end CodemcpBridge
