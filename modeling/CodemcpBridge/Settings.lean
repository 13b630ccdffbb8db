import CodemcpBridge.Numbers
import CodemcpBridge.Text

/-!
# Configuration

The parts of the Bridge settings, of a registered project and of a registered command that the
services read.
-/

namespace CodemcpBridge

inductive Approval
  | notRequired | required
  deriving DecidableEq, Repr

structure CommandSpec where
  commandId : String
  kind : String
  argv : List String
  timeoutSeconds : PyFloat
  approval : Approval
  deriving DecidableEq

structure ProjectSpec where
  projectId : String
  root : String
  allowedBranches : List String
  requireCleanWorkspace : Bool
  codemcpConfig : String
  commands : List (String × CommandSpec)
  profile : Option String := none
  profileSource : String := "none"
  deriving DecidableEq

/-- A validated content of `projects.toml`. -/
abbrev Registry := List (String × ProjectSpec)

structure PolicySettings where
  allowArbitraryCommands : Bool := false
  requireCleanWorkspace : Bool := true
  maxFileBytes : ℕ := 1048576
  maxResultBytes : ℕ := 262144
  approvalTtlSeconds : ℕ := 300
  /-- `str.title`, which knows the letters of all scripts; of ASCII text it is `Text.title`. -/
  title : String → String := Text.title

end CodemcpBridge
