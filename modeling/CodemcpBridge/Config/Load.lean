import CodemcpBridge.Async.Oracle
import CodemcpBridge.Config.Paths
import CodemcpBridge.Config.Profiles
import CodemcpBridge.Config.Toml

/-!
# Loading the registered projects

How `projects.toml` becomes a registry.  The loader is a program: what it asks is answered by the
file, by the project roots it names and by the Python runtime, and each answer may be an exception.
-/

namespace CodemcpBridge

/-- The exceptions of the runtime and of the file system. -/
inductive Failure
  | osError
  | tomlDecodeError (message : String)
  | unicodeError
  | overflowError
  | typeError
  | other
  deriving DecidableEq

/-- The exceptions that loading meets. -/
inductive ConfigExn
  | settingsError (message : String)
  | failure (f : Failure)
  deriving DecidableEq

/-- `ProjectRegistryFingerprint`. -/
structure Fingerprint where
  mtimeNs : ℤ
  size : ℕ
  deriving DecidableEq

/-- The `errors` argument of `read_text`. -/
inductive DecodeErrors
  | strict | ignore
  deriving DecidableEq

inductive Probe
  /-- `path.stat()` of `projects.toml`. -/
  | stat (path : String)
  /-- `tomllib.load` of the file at `path`, opened in binary mode. -/
  | tomlLoad (path : String)
  /-- `expanduser` of a path that starts with a tilde. -/
  | expandUser (path : String)
  /-- `resolve(strict=False)`. -/
  | resolve (path : String)
  /-- `S_ISREG(path.lstat().st_mode)`. -/
  | isRegular (path : String)
  /-- `read_text` of a file in a project root. -/
  | readText (path : String) (errors : DecodeErrors)
  /-- `float(n)`. -/
  | float (n : ℤ)
  /-- `hash(value)`, which membership in a set needs. -/
  | hash (value : Toml)

@[reducible] def Probe.Result : Probe → Type
  | stat _ => Fingerprint
  | tomlLoad _ => Toml.Table
  | expandUser _ | resolve _ | readText .. => String
  | isRegular _ => Bool
  | float _ => PyFloat
  | hash _ => Unit

abbrev Loader := Async.Prog Probe Probe.Result ConfigExn

namespace Loader

variable {α : Type}

def probe (q : Probe) : Loader q.Result := Async.Prog.ask q

/-- `raise SettingsError(message)`. -/
def refuse (message : String) : Loader α := Async.Prog.raise (.settingsError message)

end Loader

open Loader

/-! ## Texts -/

/-- `repr` of a string, whose other characters are all taken to be printable. -/
def pyRepr (s : String) : String :=
  let quote := if s.toList.contains '\'' && !s.toList.contains '"' then '"' else '\''
  let hex (n : ℕ) : List Char := (Nat.toDigits 16 (256 + n)).drop 1
  let char (c : Char) : List Char :=
    if c = quote ∨ c = '\\' then ['\\', c]
    else if c = '\n' then ['\\', 'n']
    else if c = '\r' then ['\\', 'r']
    else if c = '\t' then ['\\', 't']
    else if c.toNat < 32 ∨ c.toNat = 127 then '\\' :: 'x' :: hex c.toNat
    else [c]
  String.ofList (quote :: s.toList.flatMap char ++ [quote])

/-- A character that `str.isspace` holds of. -/
def isBlank (c : Char) : Bool := Text.isSpace c

/-- `str.strip`. -/
def stripBlanks (s : String) : String :=
  String.ofList ((s.toList.dropWhile isBlank).reverse.dropWhile isBlank).reverse

/-- A match of `PROJECT_ID_PATTERN`. -/
def isProjectId (s : String) : Bool :=
  match s.toList with
  | [] => false
  | c :: cs => c.isAlphanum &&
      cs.all (fun d => d.isAlphanum || d == '_' || d == '.' || d == '-') && cs.length ≤ 63

/-- A match of `PROFILE_ID_PATTERN`. -/
def isProfileId (s : String) : Bool :=
  let plain (c : Char) : Bool := c.isLower || c.isDigit
  match s.toList with
  | [] => false
  | c :: cs => plain c && cs.all (fun d => plain d || d == '-') && cs.length ≤ 63

/-! ## Reading -/

/-- `_as_mapping`. -/
def asMapping (value : Toml) (name : String) : Loader Toml.Table :=
  match value with
  | .table entries => pure entries
  | _ => refuse (name ++ " must be a TOML table")

/-- `_read_toml`. -/
def readToml (path : String) : Loader Toml.Table :=
  (probe (.tomlLoad path)).handle fun
    | .failure .osError => some (refuse ("cannot read configuration: " ++ path))
    | .failure (.tomlDecodeError m) => some (refuse
    ("invalid TOML configuration: " ++ path ++ ": " ++ m))
    | _ => none

/-- `path.expanduser()`. -/
def expandUser (path : String) : Loader String :=
  if path.toList.head? = some '~' then probe (.expandUser path) else pure path

/-- A text value that is more than space. -/
def pathText? (value : Option Toml) : Option String :=
  (value.bind Toml.str?).filter fun s => stripBlanks s ≠ ""

/-- `_resolve_path`. -/
def resolvePath (base : String) (value : Option Toml) (name : String) : Loader String :=
  match pathText? value with
  | none => refuse (name ++ " must be a non-empty path")
  | some s => do
    let candidate ← expandUser (Paths.normal s)
    probe (.resolve (Paths.join base candidate))

/-- `_relative_config_path`. -/
def relativeConfigPath (value : Toml) (name : String) : Loader String :=
  match pathText? (some value) with
  | none => refuse (name ++ " must be a non-empty relative path")
  | some s =>
    if Paths.isAbsolute s || Paths.isWindowsAbsolute s then refuse (name ++ " must be relative")
    else if (Text.parts s).contains ".." then refuse (name ++ " must not contain '..'")
    else pure (Paths.normal s)

/-! ## Commands -/

/-- The values of `approval` that are approvals. -/
def approval? : Toml → Option Approval
  | .str "not-required" => some .notRequired
  | .str "required" => some .required
  | _ => none

/-- The timeout as a float, if it is a positive number. -/
def parseTimeout (kind name : String) (value : Option Toml) : Loader PyFloat :=
  let refused : Loader PyFloat := refuse (name ++ ".timeout_seconds must be positive")
  match value with
  | none => pure (defaultCommandTimeoutSeconds kind)
  | some (.int n) => if n ≤ 0 then refused else probe (.float n)
  | some (.float x) => if x.nonpositive then refused else pure x
  | some _ => refused

/-- The approval of a command, if its kind may have it. -/
def checkApproval (kind name : String) (approval : Approval) : Loader Approval :=
  if defaultCommandApproval kind = .required ∧ approval ≠ .required then
    refuse (name ++ ".approval cannot disable required approval for kind " ++ pyRepr kind)
  else pure approval

/-- The approval of a command of some kind, from the value given for it. -/
def parseApproval (kind name : String) : Option Toml → Loader Approval
  | none => checkApproval kind name (defaultCommandApproval kind)
  | some value => do
    probe (.hash value)
    match approval? value with
    | none => refuse (name ++ ".approval must be 'not-required' or 'required'")
    | some approval => checkApproval kind name approval

/-- `_parse_command`. -/
def parseCommand (commandId : String) (raw : Toml) : Loader CommandSpec :=
  let name := "commands." ++ commandId
  match raw with
  | .table t =>
    match ((Toml.get t "argv").bind Toml.strings?).filter (· ≠ []) with
    | none => refuse (name ++ ".argv must be a non-empty string list")
    | some argv =>
      match ((Toml.get t "kind").bind Toml.str?).filter (· ≠ "") with
      | none => refuse (name ++ ".kind must be a non-empty string")
      | some kind => do
        let approval ← parseApproval kind name (Toml.get t "approval")
        let timeoutSeconds ← parseTimeout kind name (Toml.get t "timeout_seconds")
        pure { commandId, kind, argv, timeoutSeconds, approval }
  | _ => refuse (name ++ " must be a TOML table")

/-- `{**commands, **explicit}`. -/
def mergeCommands (commands explicit : Commands) : Commands :=
  (commands.map fun c => (c.1, ((explicit.find? fun e => e.1 == c.1).map Prod.snd).getD c.2)) ++
    explicit.filter fun e => !(commands.any fun c => c.1 == e.1)

/-! ## Profiles -/

/-- `_is_regular_file` and `_is_regular_marker`. -/
def isRegularFile (path : String) : Loader Bool :=
  (probe (.isRegular path)).handle fun
    | .failure .osError => some (pure false)
    | _ => none

/-- The profile, if enough of its markers are there. -/
def detectMarkers (root : String) (enough : List Bool → Bool) (m : String × List String) :
    Loader (Option String) := do
  let found ← Async.Prog.collect (fun marker => isRegularFile (Paths.join root marker)) m.2
  pure (if enough found then some m.1 else none)

/-- `detect_project_profile`: the only profile that the root has the markers of. -/
def detectProjectProfile (root : String) : Loader (Option String) := do
  let some_ ← Async.Prog.collect (detectMarkers root (List.any · id)) profileMarkers
  let all ← Async.Prog.collect (detectMarkers root (List.all · id)) requiredProfileMarkers
  match (some_ ++ all).filterMap id with
  | [profileId] => pure (some profileId)
  | _ => pure none

/-- `ProfileResolution`: the profile with its commands, and its source. -/
structure ProfileResolution where
  profile : Option (String × Commands)
  source : String

/-- The built-in profile of this id. -/
def resolved (profileId source : String) : Loader ProfileResolution :=
  match builtinProfile profileId with
  | none => Async.Prog.raise (.failure .other)
  | some commands => pure { profile := some (profileId, commands), source }

/-- `resolve_project_profile`. -/
def resolveProjectProfile (root : String) (explicitProfile : Option String) :
    Loader ProfileResolution := do
  let detected ← detectProjectProfile root
  match explicitProfile, detected with
  | some profileId, _ => resolved profileId "explicit"
  | none, none => pure { profile := none, source := "none" }
  | none, some profileId => resolved profileId "detected"

def unittestCommand : String := "python -m unittest discover -s tests -v"

/-- The script runs the unit tests by the standard command. -/
def usesUnittest (script : String) : Bool :=
  ((Text.splitlines script).map stripBlanks).any fun line =>
    line == unittestCommand || (Text.startsWith line "PYTHONPATH=" &&
      (" " ++ unittestCommand).toList.isSuffixOf line.toList)

/-- The script, if it can be read as UTF-8. -/
def readScript (path : String) : Loader (Option String) :=
  (probe (.readText path .strict)).andThen fun
    | .ok text => pure (some text)
    | .error (.failure .osError) | .error (.failure .unicodeError) => pure none
    | .error e => Async.Prog.raise e

/-- The command line that a script with this text asks for, if any. -/
def argvOfScript (path text : String) : Loader (Option (List String)) :=
  if usesUnittest (String.ofList (Text.normalizeBreaks text.toList)) then
    pure (some ["python", "-m", "unittest", "discover", "-s", "tests", "-v"])
  else do
    let again ← probe (.readText path .ignore)
    pure (if again.toList.contains '\r' then none else some ["/bin/sh", "./run_tests.sh"])

/-- The command line that the script of a project root asks for, if any. -/
def scriptArgv (path : String) : Loader (Option (List String)) := do
  let regular ← isRegularFile path
  if !regular then pure none
  else match ← readScript path with
    | none => pure none
    | some text => argvOfScript path text

/-- `_apply_profile_root_command_defaults`. -/
def applyProfileRootCommandDefaults (root : String) (profileId : Option String)
    (commands : Commands) : Loader Commands :=
  if profileId ≠ some "python" then pure commands
  else match commands.find? fun c => c.1 == "test" with
    | none => pure commands
    | some (_, existing) => do
      match ← scriptArgv (Paths.join root "run_tests.sh") with
      | none => pure commands
      | some argv =>
        let test : CommandSpec := { commandId := "test", kind := "test", argv
                                    timeoutSeconds := existing.timeoutSeconds
                                    approval := existing.approval }
        pure (commands.map fun c => if c.1 = "test" then ("test", test) else c)

/-! ## Projects -/

/-- The branches that may be changed. -/
def parseBranches (name : String) (value : Option Toml) : Loader (List String) :=
  match value with
  | none => pure defaultAllowedBranches
  | some value =>
    match value.strings?.filter fun branches => branches ≠ [] ∧ "" ∉ branches with
    | none => refuse (name ++ ".allowed_branches must be a non-empty string list")
    | some branches => pure branches

/-- The explicit profile. -/
def parseProfile (name : String) : Option Toml → Loader (Option String)
  | none => pure none
  | some value =>
    match value.str?.filter isProfileId with
    | none => refuse (name ++ ".profile must be a lowercase profile identifier")
    | some profileId =>
      if supportedProfileIds.contains profileId then pure (some profileId)
      else refuse (name ++ ".profile is not a supported built-in profile: " ++ profileId)

/-- The commands of a project: those of its profile, and over them the explicit ones. -/
def parseCommands (root name : String) (resolution : ProfileResolution) (raw : Toml.Table) :
    Loader Commands := do
  let profileCommands ← applyProfileRootCommandDefaults root (resolution.profile.map Prod.fst)
    ((resolution.profile.map Prod.snd).getD [])
  let commandsRaw ← asMapping ((Toml.get raw "commands").getD (.table [])) (name ++ ".commands")
  let explicitCommands ← Async.Prog.collect
    (fun c => do
      let command ← parseCommand c.1 c.2
      pure (c.1, command)) commandsRaw
  pure (mergeCommands profileCommands explicitCommands)

def parseRequireClean (name : String) : Option Toml → Loader Bool
  | none => pure defaultRequireCleanWorkspace
  | some (.bool b) => pure b
  | some _ => refuse (name ++ ".require_clean_workspace must be boolean")

/-- One round of the loop of `_parse_projects`. -/
def parseProject (base : String) (entry : String × Toml) : Loader (String × ProjectSpec) := do
  let projectId := entry.1
  let name := "projects." ++ projectId
  if !isProjectId projectId then
    refuse ("invalid project_id: " ++ pyRepr projectId)
  else
    let raw ← asMapping entry.2 name
    let root ← resolvePath base (Toml.get raw "root") (name ++ ".root")
    let allowedBranches ← parseBranches name (Toml.get raw "allowed_branches")
    let configName ← relativeConfigPath
      ((Toml.get raw "codemcp_config").getD (.str "codemcp.toml")) (name ++ ".codemcp_config")
    let explicitProfile ← parseProfile name (Toml.get raw "profile")
    let resolution ← resolveProjectProfile root explicitProfile
    let commands ← parseCommands root name resolution raw
    let requireCleanWorkspace ← parseRequireClean name (Toml.get raw "require_clean_workspace")
    pure (projectId, {
      projectId, root, allowedBranches, requireCleanWorkspace
      codemcpConfig := Paths.join root configName
      commands
      profile := resolution.profile.map Prod.fst
      profileSource := resolution.source })

/-- `_parse_projects`. -/
def parseProjects (path base : String) : Loader Registry := do
  let document ← readToml path
  let rawProjects ← asMapping ((Toml.get document "projects").getD (.table [])) "projects"
  Async.Prog.collect (parseProject base) rawProjects

/-- `load_projects`. -/
def loadProjects (projectsConfigPath : String) : Loader Registry := do
  let expanded ← expandUser (Paths.normal projectsConfigPath)
  let path ← probe (.resolve expanded)
  parseProjects path (Paths.parent path)

end CodemcpBridge
