import CodemcpBridge.Config.Load

/-!
# Reloading the registered projects

The registry between two requests: the installed snapshot, the fingerprint it was read under and the
fingerprint of the last content that was refused.
-/

namespace CodemcpBridge

open Loader

/-! ## What answers the loader -/

/-- One content of `projects.toml`. -/
structure Version where
  fingerprint : Fingerprint
  bytes : ByteArray

/-- The surroundings at the moment of one question. -/
structure Moment where
  /-- `projects.toml`, or the exception that its place in the file system raises. -/
  file : Except Failure Version
  /-- `tomllib.loads`. -/
  parse : String → Except Failure Toml.Table
  /-- The bytes of the other files. -/
  bytes : String → Except Failure ByteArray
  isRegular : String → Except Failure Bool
  expandUser : String → Except Failure String
  resolve : String → Except Failure String

/-- `bytes.decode()`. -/
def decodeStrict (bytes : ByteArray) : Except Failure String :=
  match String.fromUTF8? bytes with
  | some text => .ok text
  | none => .error .unicodeError

/-- The text of a file that is opened in text mode. -/
def openedText (errors : DecodeErrors) (bytes : ByteArray) : Except Failure String := do
  let text ← match errors with
    | .strict => decodeStrict bytes
    | .ignore => pure (Text.decodeIgnore bytes)
  pure (String.ofList (Text.normalizeBreaks text.toList))

namespace Moment

/-- `tomllib.load`. -/
def tomlLoad (m : Moment) : Except Failure Toml.Table := do
  let version ← m.file
  let text ← decodeStrict version.bytes
  m.parse text

/-- What becomes of a question: the runtime answers for itself. -/
def outcome (m : Moment) : (q : Probe) → Except Failure q.Result
  | .stat _ => m.file.map Version.fingerprint
  | .tomlLoad _ => m.tomlLoad
  | .expandUser path => m.expandUser path
  | .resolve path => m.resolve path
  | .isRegular path => m.isRegular path
  | .readText path errors => m.bytes path >>= openedText errors
  | .float n => match PyFloat.ofInt n with
    | some x => .ok x
    | none => .error .overflowError
  | .hash value => if value.hashable then .ok () else .error .typeError

def answer (q : Probe) (m : Moment) : Except ConfigExn q.Result :=
  (m.outcome q).mapError .failure

end Moment

/-! ## The registry -/

inductive ReloadStatus
  | initial | failed | ok
  deriving DecidableEq

inductive ReloadErrorCode
  | unavailable | invalid | rootChange | changedDuringReload
  deriving DecidableEq

def ReloadErrorCode.text : ReloadErrorCode → String
  | unavailable => "projects_config_unavailable"
  | invalid => "projects_config_invalid"
  | rootChange => "project_root_change_requires_remove_add"
  | changedDuringReload => "projects_config_changed_during_reload"

structure ProjectRegistry where
  projectsConfigPath : String
  projects : Registry
  generation : ℕ := 1
  lastReloadStatus : ReloadStatus := .initial
  lastReloadError : Option (String × ReloadErrorCode) := none
  lastFailedFingerprint : Option Fingerprint := none
  fingerprint : Option Fingerprint := none

namespace ProjectRegistry

/-- The registry with one more failed reload. -/
def failed (r : ProjectRegistry) (code : ReloadErrorCode) (message : String) : ProjectRegistry :=
  { r with lastReloadStatus := .failed, lastReloadError := some (message, code) }

/-- The registry after a content was refused that was observed under a fingerprint. -/
def refused (r : ProjectRegistry) (observed : Fingerprint) (code : ReloadErrorCode)
    (message : String) : ProjectRegistry :=
  { r.failed code message with lastFailedFingerprint := some observed }

def install (r : ProjectRegistry) (candidate : Registry) (verified : Fingerprint) :
    ProjectRegistry :=
  { r with
    projects := candidate
    fingerprint := some verified
    lastFailedFingerprint := none
    generation := r.generation + 1
    lastReloadStatus := .ok
    lastReloadError := none }

/-- The fingerprint is that of the installed snapshot or of the last refused content. -/
def knows (r : ProjectRegistry) (observed : Fingerprint) : Prop :=
  some observed = r.fingerprint ∨ some observed = r.lastFailedFingerprint

instance (r : ProjectRegistry) (observed : Fingerprint) : Decidable (r.knows observed) :=
  inferInstanceAs (Decidable (_ ∨ _))

end ProjectRegistry

/-- `_projects_config_fingerprint`. -/
def projectsConfigFingerprint (path : String) : Loader Fingerprint :=
  (probe (.stat path)).handle fun
    | .failure .osError => some (refuse ("cannot stat project configuration: " ++ path))
    | _ => none

/-- `try: x = …; except SettingsError as exc: return …`, and go on with `x`. -/
def Loader.exceptSettings {α β : Type} (x : Loader α) (h : String → Loader β) (k : α → Loader β) :
    Loader β :=
  x.andThen fun
    | .ok a => k a
    | .error (.settingsError message) => h message
    | .error e => Async.Prog.raise e

/-- The project of this id in a snapshot. -/
def Registry.spec? (projects : Registry) (projectId : String) : Option ProjectSpec :=
  (projects.find? fun p => p.1 == projectId).map Prod.snd

/-- The command of this id, as the policy looks it up. -/
def ProjectSpec.command? (p : ProjectSpec) (commandId : String) : Option CommandSpec :=
  (p.commands.find? fun c => c.1 == commandId).map Prod.snd

/-- The first of some projects whose root differs between two snapshots that both have it. -/
def movedRoot (current candidate : Registry) : List String → Loader (Option String)
  | [] => pure none
  | projectId :: rest =>
    match current.spec? projectId, candidate.spec? projectId with
    | some old, some new => do
      let currentRoot ← probe (.resolve old.root)
      let candidateRoot ← probe (.resolve new.root)
      if currentRoot ≠ candidateRoot then pure (some projectId)
      else movedRoot current candidate rest
    | _, _ => movedRoot current candidate rest

namespace ProjectRegistry

variable (r : ProjectRegistry)

/-- The end of a reload: the file still has the fingerprint it was observed under, or not. -/
def verify (candidate : Registry) (observed : Fingerprint) : Loader (Bool × ProjectRegistry) :=
  (projectsConfigFingerprint r.projectsConfigPath).exceptSettings
    (fun message => pure (false, r.failed .unavailable message)) fun verified =>
      if verified ≠ observed then
        pure (false,
          r.failed .changedDuringReload "project configuration changed during reload")
      else pure (true, r.install candidate verified)

/-- A candidate is installed unless it moves the root of a project. -/
def consider (observed : Fingerprint) (candidate : Registry) : Loader (Bool × ProjectRegistry) := do
  match ← movedRoot r.projects candidate (r.projects.map Prod.fst) with
  | some projectId =>
    pure (false, r.refused observed .rootChange
      ("project root change requires remove then add: " ++ projectId))
  | none => r.verify candidate observed

/-- Load a content that the registry does not know. -/
def reload (observed : Fingerprint) : Loader (Bool × ProjectRegistry) :=
  (loadProjects r.projectsConfigPath).exceptSettings
    (fun message => pure (false, r.refused observed .invalid message)) (r.consider observed)

/-- Look at the file, and go on if its fingerprint is not known. -/
def observing (k : Fingerprint → Loader (Bool × ProjectRegistry)) :
    Loader (Bool × ProjectRegistry) :=
  (projectsConfigFingerprint r.projectsConfigPath).exceptSettings
    (fun message => pure (false, r.failed .unavailable message)) fun observed =>
      if r.knows observed then pure (false, r) else k observed

/-- `refresh_if_changed`: the file is looked at without the lock, and again under it. -/
def refreshIfChanged : Loader (Bool × ProjectRegistry) :=
  r.observing fun _ => r.observing r.reload

/-- One call: what it returns or raises, and the registry after it. -/
def refreshed (moments : ℕ → Moment) : Except ConfigExn Bool × ProjectRegistry :=
  match (r.refreshIfChanged.run Moment.answer moments).1 with
  | .ok (installed, r') => (.ok installed, r')
  | .error e => (.error e, r)

end ProjectRegistry

end CodemcpBridge
