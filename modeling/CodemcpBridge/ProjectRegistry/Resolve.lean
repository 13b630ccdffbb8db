import CodemcpBridge.Config.Paths
import CodemcpBridge.Errors
import CodemcpBridge.ProjectRegistry.Sensitive
import CodemcpBridge.Settings

/-!
# Resolving a path

`resolve_path` on either kind of host.  What the host's file system says at the time of the call,
and when two names are one to its `pathlib`, is a `Host`; how paths are joined is `pathlib`'s own
rule.
-/

namespace CodemcpBridge

namespace ProjectRegistry

/-- A path of `pathlib`: its drive, its root and the names below. -/
structure HostPath where
  drive : String := ""
  root : String := ""
  names : List String := []
  deriving DecidableEq

/-- The host at the time of a call. -/
structure Host where
  windows : Bool
  /-- Two names compare equal as parts of a path. -/
  sameName : String → String → Bool
  sameName_equivalence : Equivalence fun a b => sameName a b = true
  /-- `Path(…)` of the root of a project, which is absolute. -/
  path : String → HostPath
  path_rooted : ∀ s, (path s).root ≠ ""
  /-- `resolve(strict=False)`, where it does not raise. -/
  resolve : HostPath → Option HostPath
  exists_ : HostPath → Bool
  isSymlink : HostPath → Bool
  /-- `_is_reparse_point`: a link or a reparse point, as far as `lstat` can tell. -/
  isReparsePoint : HostPath → Bool

/-- Names that compare as texts do. -/
theorem equivalence_beq : Equivalence fun a b : String => (a == b) = true :=
  ⟨fun _ => beq_self_eq_true _, fun h => beq_iff_eq.2 (beq_iff_eq.1 h).symm,
    fun h k => beq_iff_eq.2 ((beq_iff_eq.1 h).trans (beq_iff_eq.1 k))⟩

/-! ## Joining -/

/-- The drive of a Windows name and what follows it. -/
def splitDrive (name : String) : Option (String × String) :=
  match name.toList with
  | c :: ':' :: rest => some (String.ofList [c, ':'], String.ofList rest)
  | _ => none

/-- The names that a piece without separators adds to a path. -/
def pieceNames (name : String) : List String := if name = "" ∨ name = "." then [] else [name]

namespace Host

variable (host : Host)

/-- `path / name` for a name without separators.  On Windows a drive in it is taken off when it is
that of the path, and begins a path of its own when it is another. -/
def join (path : HostPath) (name : String) : HostPath :=
  match if host.windows then splitDrive name else none with
  | none => { path with names := path.names ++ pieceNames name }
  | some (drive, rest) =>
    if host.sameName drive path.drive then
      { path with drive, names := path.names ++ pieceNames rest }
    else { drive, names := pieceNames rest }

/-- `path.joinpath(*names)`. -/
def joinpath (path : HostPath) (names : List String) : HostPath := names.foldl host.join path

/-- The names of `path.relative_to(base)`, where that does not raise. -/
def relativeTo (base path : HostPath) : Option (List String) :=
  if host.sameName base.drive path.drive ∧ base.root = path.root ∧
      base.names.length ≤ path.names.length ∧
      (base.names.zip path.names).all fun p => host.sameName p.1 p.2 then
    some (path.names.drop base.names.length)
  else none

/-! ## Checks -/

/-- The paths from `current` down one name after the other, without `current`. -/
def descend (current : HostPath) : List String → List HostPath
  | [] => []
  | name :: names => host.join current name :: descend (host.join current name) names

/-- `_iter_existing_components`. -/
def existingComponents (root candidate : HostPath) : List HostPath :=
  root :: ((host.descend root ((host.relativeTo root candidate).getD [])).filter fun item =>
    host.exists_ item || host.isSymlink item)

/-- What a path is refused for once it is joined: where it leads to, and what lies on the way. -/
def acceptPath (root candidate : HostPath) : Except Exn Unit :=
  match host.resolve root, host.resolve candidate with
  | some base, some resolved =>
    if (host.relativeTo base resolved).isNone then
      .error (.bridge { code := .pathEscape,
                        message := "path escapes the registered project root" })
    else if (host.existingComponents root candidate).any host.isReparsePoint then
      .error (.bridge { code := .pathEscape,
                        message := "symlink or reparse-point paths are denied" })
    else .ok ()
  | _, _ => .error .other

end Host

/-- `value.replace("\\", "/")`. -/
def slashed (value : String) : String :=
  String.ofList (value.toList.map fun c => if c = '\\' then '/' else c)

/-- `normalize_relative_path`. -/
def normalizeRelativePath (value : String) : Except String String :=
  if value = "" ∨ value.toList.contains '\x00' then .error "path must be a non-empty string"
  else if (slashed value).toList.head? = some '/' ∨ Paths.isWindowsAbsolute value ∨
      (splitDrive value).isSome then
    .error "path must be relative"
  else if (Text.parts (slashed value)).contains ".." then
    .error "path must not escape the project root"
  else if Text.parts (slashed value) = [] then .ok "."
  else .ok ("/".intercalate (Text.parts (slashed value)))

/-- `ProjectRegistry.get`. -/
def get (registry : Registry) (projectId : String) : Except Exn ProjectSpec :=
  match registry.lookup projectId with
  | some project => .ok project
  | none => .error (.bridge { code := .projectNotAllowed,
                              message := "project_id is not registered",
                              details := [("project_id", .str projectId)] })

/-- The path that `resolve_path` is about and its normal form. -/
def locate (host : Host) (root : HostPath) (relativePath : Option String)
    (allowRoot rejectSensitive : Bool) : Except Exn (HostPath × String) :=
  match relativePath.filter fun p => p ≠ "" ∧ p ≠ "." with
  | none =>
    if allowRoot then .ok (root, ".")
    else .error (.bridge { code := .invalidRequest, message := "path is required",
                           details := [("field", .str "path")] })
  | some path => match normalizeRelativePath path with
    | .error message => .error (.bridge { code := .pathEscape, message })
    | .ok normalized =>
      if rejectSensitive ∧ isSensitive normalized then
        .error (.bridge { code := .sensitivePath, message := "access to sensitive paths is denied",
                          details := [("path", .str normalized)] })
      else .ok (host.joinpath root (Text.parts normalized), normalized)

/-- `ProjectRegistry.resolve_path`. -/
def resolvePath (host : Host) (registry : Registry) (projectId : String)
    (relativePath : Option String) (allowRoot rejectSensitive : Bool) :
    Except Exn (ProjectSpec × HostPath × String) := do
  let project ← get registry projectId
  let root := host.path project.root
  let (candidate, normalized) ← locate host root relativePath allowRoot rejectSensitive
  host.acceptPath root candidate
  pure (project, candidate, normalized)

end ProjectRegistry

end CodemcpBridge
