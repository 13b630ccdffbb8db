import CodemcpBridge.Config.Paths
import CodemcpBridge.Config.Tomllib
import CodemcpBridge.Encoding.Texts
import CodemcpBridge.Settings

/-!
# Generated codemcp configuration

The `codemcp.toml` that is written for a project with a resolved profile, and the check of a command
against such a file.
-/

namespace CodemcpBridge

namespace GeneratedCodemcp

def generatedConfigName : String := "codemcp.toml"

def generatedHeader : String :=
  "# Generated temporarily by codemcp Bridge from the resolved project profile."

/-- `can_generate_codemcp_config`. -/
def canGenerateCodemcpConfig (project : ProjectSpec) : Bool :=
  project.profile.isSome && project.profile != some "generic" &&
    ["detected", "explicit"].contains project.profileSource && !project.commands.isEmpty &&
    project.codemcpConfig == Paths.join project.root generatedConfigName

/-- `json.dumps(value, ensure_ascii=False)`. -/
def jsonDumps (value : String) : List Char := Encoding.quote value.toList

/-- `project.commands[command_id]`. -/
def commandOf (project : ProjectSpec) (commandId : String) : Option CommandSpec :=
  (project.commands.find? fun c => c.1 == commandId).map Prod.snd

/-- `", ".join(…)` of quoted strings. -/
def quotedList (values : List String) : List Char := [',', ' '].intercalate (values.map jsonDumps)

/-- The lines of one command. -/
def commandLines (commandId : String) (command : CommandSpec) : List (List Char) :=
  ["[commands.".toList ++ jsonDumps commandId ++ [']'],
    "command = [".toList ++ quotedList command.argv ++ [']'],
    "doc = ".toList ++ jsonDumps ("Bridge-resolved " ++ command.kind ++ " command"), []]

/-- The commands in the order of their ids. -/
def sortedCommands (project : ProjectSpec) : List (String × CommandSpec) :=
  (Text.sortedSet (project.commands.map Prod.fst)).filterMap fun commandId =>
    (commandOf project commandId).map fun command => (commandId, command)

/-- `render_generated_codemcp_config`; nothing where a `ValueError` is raised. -/
def renderGeneratedCodemcpConfig (project : ProjectSpec) : Option (List Char) :=
  if !canGenerateCodemcpConfig project then none
  else some (['\n'].intercalate ([generatedHeader.toList, []] ++
    (sortedCommands project).flatMap fun c => commandLines c.1 c.2))

/-- The `command` of a command in a codemcp configuration. -/
def configuredArgv (config : Toml.Table) (commandId : String) : Option Toml :=
  match (Toml.get config "commands").getD (.table []) with
  | .table commands => match (Toml.get commands commandId).getD (.table []) with
    | .table configured => Toml.get configured "command"
    | _ => none
  | _ => none

/-- The last check of `_verify_existing_config`, on the parsed configuration. -/
def verifyExistingConfig (config : Toml.Table) (command : CommandSpec) : Bool :=
  (configuredArgv config command.commandId).bind Toml.strings? == some command.argv

end GeneratedCodemcp

end CodemcpBridge
