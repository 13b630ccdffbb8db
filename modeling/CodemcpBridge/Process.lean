import CodemcpBridge.Requests

/-!
# Subprocesses

How the process itself carries out what a body does: a Git step or a registered command is a
subprocess that is waited for, and terminated when its time is up.
-/

namespace CodemcpBridge

namespace Service

variable {α : Type}

def quiet (q : Quiet) : Service q.Result := Async.Prog.ask (Ask.quiet q)

def store (c : StoreCall) : Service c.Result := Async.Prog.ask (Ask.quiet (.store c))

def operation (c : OperationCall) : Service c.Result := Async.Prog.ask (Ask.operation c)

def mark (m : Mark) : Service Unit := Async.Prog.ask (Ask.mark m)

def raise (e : BridgeError) : Service α := Async.Prog.raise (.bridge e)

def reject (code : ErrorCode) (message : String) (details : Dict := [])
    (status : Status := .rejected) (retryable : Bool := false) : Service α :=
  raise { code, message, details, retryable, status }

/-- `except BridgeError as exc: …`. -/
def exceptBridge (x : Service α) (h : BridgeError → Service α) : Service α :=
  x.handle fun
    | .bridge e => some (h e)
    | _ => none

end Service

open Service

/-- `_run` with its timeout of 30 seconds. -/
def runGit (root : String) (arguments : List String) : Service String := do
  let command : Json := .ofStrings ("git" :: arguments)
  let process ← (Async.Prog.ask (Ask.spawn { executable := "git", arguments, cwd := root })).handle
    fun e => if e.isOSError then some (reject .backendUnavailable
      "Git is not available for the registered project" [("project_id", .null)] .failed true)
    else none
  let completed ← (Async.Prog.ask (Ask.communicate process 30)).handle fun
    | .timeoutError => some do
      Async.Prog.ask (Ask.terminate process)
      reject .backendUnavailable "Git command timed out" [("command", command)] .failed true
    | _ => none
  if completed.returncode ≠ 0 then
    reject .backendUnavailable "Git command failed"
      [("command", command), ("returncode", .num completed.returncode),
        ("stderr", .str (Text.truncate (Text.decodeReplace completed.stderr) 2000).1)] .failed
  pure (Text.decodeReplace completed.stdout)

/-- `_truncate_bytes`. -/
def truncateBytes (value : ByteArray) (maxBytes : ℕ) : String × Bool :=
  if value.size ≤ maxBytes then (Text.decodeReplace value, false)
  else (Text.decodeIgnore (value.extract 0 maxBytes), true)

/-- The result of a command that has ended. -/
def commandResult (title : String → String) (maxResultBytes : ℕ) (command : CommandSpec)
    (completed : Completed) : CommandRunResult :=
  let out := truncateBytes completed.stdout maxResultBytes
  let err := truncateBytes completed.stderr (maxResultBytes - out.1.utf8ByteSize)
  let titled (label text : String) :=
    if text = "" then label ++ ": <empty>" else label ++ ":\n" ++ text
  if completed.returncode ≠ 0 then
    { text := "Error: " ++ title command.kind ++ " command failed with exit code " ++
        toString completed.returncode ++ ":\n" ++ titled "STDOUT" out.1 ++ "\n" ++
        titled "STDERR" err.1
      isError := true
      truncated := out.2 || err.2 }
  else
    { text := "Code " ++ command.kind ++ " successful:\n" ++
        (if err.1 = "" then out.1 else if out.1 = "" then "STDERR:\n" ++ err.1
          else out.1 ++ "\nSTDERR:\n" ++ err.1)
      isError := false
      truncated := out.2 || err.2 }

/-- The result of a command that has not run to its end. -/
def commandError (title : String → String) (command : CommandSpec) (what : String) :
    CommandRunResult :=
  { text := "Error: " ++ title command.kind ++ " command " ++ what
    isError := true
    truncated := false }

/-- Wait for a started command, and terminate it when its time is up. -/
def awaitCommand (settings : PolicySettings) (command : CommandSpec) (process : ℕ) :
    Service CommandRunResult :=
  (Async.Prog.ask (Ask.communicate process command.timeoutSeconds)).andThen fun
    | .ok completed => pure (commandResult settings.title settings.maxResultBytes command completed)
    | .error .timeoutError => do
      Async.Prog.ask (Ask.terminate process)
      pure (commandError settings.title command
        ("timed out after " ++ command.timeoutSeconds.formatG ++ "s"))
    | .error e => Async.Prog.raise e

/-- `RegisteredCommandRunner.run`. -/
def runCommand (settings : PolicySettings) (project : ProjectSpec) (command : CommandSpec) :
    Service CommandRunResult := do
  let invocation ← Async.Prog.ask (Ask.invocation project command)
  (Async.Prog.ask (Ask.spawn invocation)).andThen fun
    | .ok process => awaitCommand settings command process
    | .error e =>
      if e.isOSError then
        pure (commandError settings.title command ("could not be started: " ++ e.text))
      else Async.Prog.raise e

/-- What the process does for one act of a body. -/
def perform (settings : PolicySettings) : (a : Act) → Service a.Result
  | .quiet q => Service.quiet q
  | .git root arguments => runGit root arguments
  | .command project command => runCommand settings project command

/-- The body, carried out by the process. -/
def carry {α : Type} (settings : PolicySettings) (x : Body α) : Service α :=
  x.via (perform settings)

end CodemcpBridge
