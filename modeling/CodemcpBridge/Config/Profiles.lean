import CodemcpBridge.Settings

/-!
# Profiles

The defaults that depend on the kind of a command, and the built-in catalogs of commands with the
files that select them.
-/

namespace CodemcpBridge

/-! ## Security defaults -/

def defaultAllowedBranches : List String := ["develop", "develop/*", "codex/*", "feature/*"]

def defaultRequireCleanWorkspace : Bool := true

def commandTimeoutSeconds : List (String × PyFloat) :=
  [("doctor", 60), ("compile", 600), ("format", 300), ("lint", 300), ("test", 900),
    ("verify", 1200), ("build", 900), ("bootstrap", 1200), ("install", 1200),
    ("destructive", 300), ("deploy", 1200)]

def defaultCommandTimeoutSeconds (kind : String) : PyFloat :=
  ((commandTimeoutSeconds.find? fun t => t.1 == kind).map Prod.snd).getD 60

/-- `AUTO_APPROVAL_KINDS`. -/
def autoApprovalKinds : List String :=
  ["doctor", "compile", "format", "lint", "test", "verify", "build"]

def defaultCommandApproval (kind : String) : Approval :=
  if kind ∈ autoApprovalKinds then .notRequired else .required

/-! ## Built-in profiles -/

/-- `_command`. -/
def profileCommand (commandId kind : String) (argv : List String) : CommandSpec where
  commandId := commandId
  kind := kind
  argv := argv
  timeoutSeconds := defaultCommandTimeoutSeconds kind
  approval := defaultCommandApproval kind

/-- The commands of a catalog, by their ids. -/
abbrev Commands := List (String × CommandSpec)

/-- `_profile`. -/
def profile (commands : List CommandSpec) : Commands := commands.map fun c => (c.commandId, c)

/-- `_BUILTIN_PROFILES`. -/
def builtinProfiles : List (String × Commands) :=
  [("generic", profile []),
    ("java-maven", profile [
      profileCommand "doctor" "doctor" ["mvn", "--version"],
      profileCommand "compile" "compile" ["mvn", "-DskipTests", "compile"],
      profileCommand "test" "test" ["mvn", "test"],
      profileCommand "verify" "verify" ["mvn", "verify"],
      profileCommand "build" "build" ["mvn", "-DskipTests", "package"]]),
    ("java-gradle", profile [
      profileCommand "doctor" "doctor" ["./gradlew", "--version"],
      profileCommand "compile" "compile" ["./gradlew", "classes"],
      profileCommand "test" "test" ["./gradlew", "test"],
      profileCommand "verify" "verify" ["./gradlew", "check"],
      profileCommand "build" "build" ["./gradlew", "build"]]),
    ("node-npm", profile [
      profileCommand "doctor" "doctor" ["npm", "--version"],
      profileCommand "test" "test" ["npm", "test"],
      profileCommand "build" "build" ["npm", "run", "build"]]),
    ("node-pnpm", profile [
      profileCommand "doctor" "doctor" ["pnpm", "--version"],
      profileCommand "test" "test" ["pnpm", "test"],
      profileCommand "build" "build" ["pnpm", "build"]]),
    ("python", profile [
      profileCommand "doctor" "doctor" ["python", "--version"],
      profileCommand "compile" "compile" ["python", "-m", "compileall", "."],
      profileCommand "test" "test" ["python", "-m", "pytest"],
      profileCommand "build" "build" ["python", "-m", "build"]]),
    ("codemcp-remote", profile [
      profileCommand "format" "format" ["uv", "run", "--project", "bridge", "ruff", "format",
        "--check", "bridge/src", "bridge/tests", "tests/integration"],
      profileCommand "test" "test" ["uv", "run", "--project", "bridge", "pytest", "-q",
        "bridge/tests", "tests/integration"],
      profileCommand "security-audit" "verify" ["pwsh", "-NoLogo", "-NoProfile",
        "-NonInteractive", "-File", "scripts/validate-open-source-security.ps1"],
      profileCommand "artifact-audit" "verify" ["pwsh", "-NoLogo", "-NoProfile",
        "-NonInteractive", "-File", "scripts/validate-open-source-security.ps1",
        "-RequireArtifact"]]),
    ("go", profile [
      profileCommand "doctor" "doctor" ["go", "version"],
      profileCommand "compile" "compile" ["go", "test", "-run", "^$", "./..."],
      profileCommand "test" "test" ["go", "test", "./..."],
      profileCommand "verify" "verify" ["go", "vet", "./..."],
      profileCommand "build" "build" ["go", "build", "./..."]]),
    ("rust", profile [
      profileCommand "doctor" "doctor" ["cargo", "--version"],
      profileCommand "compile" "compile" ["cargo", "check"],
      profileCommand "test" "test" ["cargo", "test"],
      profileCommand "verify" "verify" ["cargo", "check", "--all-targets"],
      profileCommand "build" "build" ["cargo", "build"]])]

/-- `get_builtin_profile`. -/
def builtinProfile (profileId : String) : Option Commands :=
  (builtinProfiles.find? fun p => p.1 == profileId).map Prod.snd

/-- `SUPPORTED_PROFILE_IDS`. -/
def supportedProfileIds : List String := builtinProfiles.map Prod.fst

/-! ## Markers -/

/-- `_PROFILE_MARKERS`: any one of the files selects the profile. -/
def profileMarkers : List (String × List String) :=
  [("java-maven", ["pom.xml"]),
    ("java-gradle", ["gradlew", "gradlew.bat", "build.gradle", "build.gradle.kts"]),
    ("node-npm", ["package-lock.json"]),
    ("node-pnpm", ["pnpm-lock.yaml"]),
    ("python", ["pyproject.toml"]),
    ("go", ["go.mod"]),
    ("rust", ["Cargo.toml"])]

/-- `_REQUIRED_PROFILE_MARKERS`: only all of the files together select the profile. -/
def requiredProfileMarkers : List (String × List String) :=
  [("codemcp-remote", ["bridge/pyproject.toml", "scripts/windows_entrypoint.py", "codemcp.toml"])]

/-! ## What the catalogs keep to -/

/-- A command as the defaults of its kind have it. -/
def CommandSpec.Default (c : CommandSpec) : Prop :=
  c.timeoutSeconds = defaultCommandTimeoutSeconds c.kind ∧
    c.approval = defaultCommandApproval c.kind

instance : DecidablePred CommandSpec.Default := fun c =>
  inferInstanceAs (Decidable (c.timeoutSeconds = _ ∧ c.approval = _))

theorem builtinProfile_of_supported {profileId : String}
    (h : supportedProfileIds.contains profileId = true) : (builtinProfile profileId).isSome := by
  obtain ⟨p, hp, rfl⟩ := List.mem_map.1 (List.contains_iff_mem.1 h)
  simp only [builtinProfile, Option.isSome_map, List.find?_isSome]
  exact ⟨p, hp, by simp⟩

/-- Whatever the markers select is a built-in profile. -/
theorem builtinProfile_of_marker {m : String × List String}
    (h : m ∈ profileMarkers ++ requiredProfileMarkers) : (builtinProfile m.1).isSome := by
  have all : ∀ m ∈ profileMarkers ++ requiredProfileMarkers, (builtinProfile m.1).isSome := by
    decide +kernel
  exact all m h

end CodemcpBridge
