import Mathlib.Data.Int.Notation
import Mathlib.Tactic.Common

/-!
# A cold start

`start_services` when no service runs: the Bridge and then the tunnel are spawned and waited for,
both are identified, and the state file is written.  Where a step fails, the processes still running
are terminated as far as they can be identified.  What the operating system answers in a start is a
record of outcomes; the n-th reading of a process's identity is an outcome of its own.
-/

namespace CodemcpBridge

namespace Lifecycle

inductive Service
  | bridge | tunnel
  deriving DecidableEq, Repr

/-- The name of a service in the entries of a state. -/
def Service.category : Service → String
  | .bridge => "bridge"
  | .tunnel => "tunnel"

/-- The name of a service in messages. -/
def Service.title : Service → String
  | .bridge => "Bridge"
  | .tunnel => "Tunnel"

inductive Exn
  | lifecycleError (message : String)
  | processLookupError
  | exception
  /-- `KeyboardInterrupt` and the like, which are no `Exception`. -/
  | interrupt
  deriving DecidableEq

def Exn.isException : Exn → Bool
  | .interrupt => false
  | _ => true

/-- What `_wait_endpoint` returns: whether its status is `ok`, and its JSON text. -/
structure Health where
  ok : Bool
  text : String

/-- What `_process_marker`, `_process_group_id` and `_process_executable_identity` return. -/
structure Reading where
  marker : Option String
  group : Option ℤ
  executable : Option String
  deriving DecidableEq

/-- How `_write_json_atomic` ends: a failure may come after the file has been put in place. -/
inductive Write
  | written
  | failed (e : Exn) (inPlace : Bool)

/-- What the operating system answers in the course of a start. -/
structure Outcomes where
  windows : Bool
  /-- `os.getpgrp()`. -/
  ownGroup : ℤ
  openLog : Service → Except Exn Unit
  popen : Service → Except Exn ℕ
  closeLog : Service → Except Exn Unit
  waitEndpoint : Service → Except Exn Health
  writeState : Write
  /-- Whether the process has not ended on its own when it is polled. -/
  alive : Service → Bool
  /-- The n-th reading of the identity of a process. -/
  reading : Service → ℕ → Except Exn Reading
  /-- `taskkill`: its exit code and what it says. -/
  taskkill : Service → Except Exn (ℤ × String)
  /-- `os.killpg(pgid, SIGTERM)`, and later `os.killpg(pgid, SIGKILL)`. -/
  sigterm : Service → Except Exn Unit
  sigkill : Service → Except Exn Unit
  /-- How often a terminated process is looked at before the deadline. -/
  checks : Service → ℕ

/-- The processes that have been spawned, the ones whose group or tree has been terminated, and
whether there is a state file. -/
structure Machine where
  spawned : List Service
  ended : List Service
  stateFile : Bool
  deriving DecidableEq

/-- A part of the start: what is raised, and what it leaves. -/
abbrev Start := ExceptT Exn (StateM Machine)

namespace Start

variable {α : Type}

def outcome (x : Except Exn α) : Start α := ExceptT.mk (pure x)

def change (f : Machine → Machine) : Start Unit := ExceptT.mk (modifyGet fun m => (.ok (), f m))

/-- `try: … finally: …`. -/
def ensuring (x : Start α) (y : Start Unit) : Start α := ExceptT.mk do
  let r ← x.run
  match ← y.run with
  | .ok () => pure r
  | .error e => pure (.error e)

/-- `except Exception: …; raise`. -/
def exceptException (x : Start α) (y : Start Unit) : Start α := ExceptT.mk do
  match ← x.run with
  | .ok a => pure (.ok a)
  | .error e =>
    if e.isException then
      match ← y.run with
      | .ok () => pure (.error e)
      | .error e' => pure (.error e')
    else pure (.error e)

/-! ### Running a part -/

section Run

variable {β : Type} (m : Machine)

@[simp]
theorem run_pure (a : α) : (pure a : Start α).run m = (.ok a, m) := rfl

@[simp]
theorem run_throw (e : Exn) : (throw e : Start α).run m = (.error e, m) := rfl

@[simp]
theorem run_outcome (x : Except Exn α) : (outcome x).run m = (x, m) := rfl

@[simp]
theorem run_change (f : Machine → Machine) : (change f).run m = (.ok (), f m) := rfl

theorem run_bind (x : Start α) (f : α → Start β) :
    (x >>= f).run m = match x.run m with
      | (.ok a, m') => (f a).run m'
      | (.error e, m') => (.error e, m') := by
  change ExceptT.bindCont f (x.run m).1 (x.run m).2 = _
  rcases x.run m with ⟨_ | _, m'⟩ <;> rfl

theorem stateM_bind {γ δ : Type} (x : StateM Machine γ) (f : γ → StateM Machine δ) :
    (x >>= f) m = f (x m).1 (x m).2 := rfl

theorem run_ensuring (x : Start α) (y : Start Unit) :
    (ensuring x y).run m = match x.run m with
      | (r, m') => match y.run m' with
        | (.ok (), m'') => (r, m'')
        | (.error e, m'') => (.error e, m'') := by
  unfold ensuring
  rw [ExceptT.run_mk, stateM_bind, stateM_bind]
  rcases x.run m with ⟨r, m'⟩
  dsimp only
  rcases y.run m' with ⟨_ | _, m''⟩ <;> rfl

theorem run_exceptException (x : Start α) (y : Start Unit) :
    (exceptException x y).run m = match x.run m with
      | (.ok a, m') => (.ok a, m')
      | (.error e, m') => if e.isException then match y.run m' with
          | (.ok (), m'') => (.error e, m'')
          | (.error e', m'') => (.error e', m'')
        else (.error e, m') := by
  unfold exceptException
  rw [ExceptT.run_mk, stateM_bind]
  rcases x.run m with ⟨e | a, m'⟩
  · dsimp only
    by_cases he : e.isException = true
    · rw [if_pos he, if_pos he, stateM_bind]
      rcases y.run m' with ⟨_ | _, m''⟩ <;> rfl
    · rw [if_neg he, if_neg he]
      rfl
  · rfl

end Run

end Start

open Start

variable (o : Outcomes)

/-! ## Identities -/

/-- The entries of a state that identify a process.  On Windows it has no group and executable. -/
structure Identity where
  marker : String
  group : Option (ℤ × String)

/-- `_capture_process_state`. -/
def captureProcessState (category : String) (s : Service) (pid round : ℕ) :
    Except Exn Identity := do
  let r ← o.reading s round
  match r.marker with
  | none => .error (.lifecycleError
      ("cannot establish " ++ category ++ " process start marker for PID " ++ toString pid))
  | some marker =>
    if o.windows then .ok { marker, group := none }
    else match r.group with
      | none => .error (.lifecycleError
          ("cannot establish a safe " ++ category ++ " process group for PID " ++ toString pid))
      | some pgid =>
        if pgid ≤ 1 ∨ pgid = o.ownGroup then .error (.lifecycleError
          ("cannot establish a safe " ++ category ++ " process group for PID " ++ toString pid))
        else match r.executable with
          | none => .error (.lifecycleError
              ("cannot establish " ++ category ++ " executable identity for PID " ++ toString pid))
          | some executable => .ok { marker, group := some (pgid, executable) }

/-- `_state_process_owned`, of a state in the version of the platform. -/
def stateProcessOwned (s : Service) (identity : Identity) (round : ℕ) : Except Exn Bool := do
  let r ← o.reading s round
  .ok (r.marker == some identity.marker && (o.windows || match identity.group with
    | none => false
    | some (pgid, executable) => !(pgid ≤ 1 ∨ pgid = o.ownGroup) && r.group == some pgid &&
        executable != "" && r.executable == some executable))

/-! ## Termination -/

/-- Wait until the process is gone or the deadline is over, and then kill its group. -/
def awaitEnd (s : Service) (identity : Identity) : ℕ → ℕ → Except Exn Unit
  | 0, round => do
    if ← stateProcessOwned o s identity round then
      match o.sigkill s with
      | .error .processLookupError => .ok ()
      | killed => killed
    else .ok ()
  | checks + 1, round => do
    if ← stateProcessOwned o s identity round then awaitEnd s identity checks (round + 1)
    else .ok ()

def Machine.terminate (s : Service) (m : Machine) : Machine := { m with ended := s :: m.ended }

/-- `_terminate_state_process`. -/
def terminateStateProcess (s : Service) (pid : ℕ) (identity : Identity) : Start Unit := do
  if ← outcome (stateProcessOwned o s identity 2) then
    if o.windows then
      let completed ← outcome (o.taskkill s)
      if completed.1 = 0 ∨ completed.1 = 128 then change (Machine.terminate s)
      else throw (.lifecycleError
        ("failed to stop PID " ++ toString pid ++ ": " ++ completed.2))
    else if ← outcome (stateProcessOwned o s identity 3) then
      match o.sigterm s with
      | .ok () => do
        change (Machine.terminate s)
        outcome (awaitEnd o s identity (o.checks s) 4)
      | .error .processLookupError => change (Machine.terminate s)
      | .error e => throw e
    else pure ()
  else pure ()

/-- `_terminate_tree`. -/
def terminateTree (s : Service) (pid : ℕ) : Start Unit :=
  match captureProcessState o "process" s pid 1 with
  | .error (.lifecycleError _) => pure ()
  | .error e => throw e
  | .ok identity => terminateStateProcess o s pid identity

/-- The clean-up of a failed start, of the processes that it knows of. -/
def cleanUp : List (Service × ℕ) → Start Unit
  | [] => pure ()
  | (s, pid) :: processes => do
    if o.alive s then terminateTree o s pid else pure ()
    cleanUp processes

/-! ## The start -/

/-- `_popen_background`. -/
def popenBackground (s : Service) : Start ℕ := do
  outcome (o.openLog s)
  ensuring
    (do
      let pid ← outcome (o.popen s)
      change fun m => { m with spawned := s :: m.spawned }
      pure pid)
    (outcome (o.closeLog s))

def requireHealthy (s : Service) : Start Unit := do
  let health ← outcome (o.waitEndpoint s)
  if health.ok then pure ()
  else throw (.lifecycleError (s.title ++ " startup failed: " ++ health.text))

/-- `_write_json_atomic` of the state file. -/
def writeState : Start Unit :=
  match o.writeState with
  | .written => change fun m => { m with stateFile := true }
  | .failed e inPlace => do
    change fun m => { m with stateFile := inPlace }
    throw e

/-- The cold start of `start_services`.  What its handler does depends on the processes that have
been assigned when a step fails. -/
def coldStart : Start Unit := do
  let bridge ← exceptException (popenBackground o .bridge) (cleanUp o [])
  let tunnel ← exceptException
    (do
      requireHealthy o .bridge
      popenBackground o .tunnel)
    (cleanUp o [(.bridge, bridge)])
  exceptException
    (do
      requireHealthy o .tunnel
      let _ ← outcome (captureProcessState o "bridge" .bridge bridge 0)
      let _ ← outcome (captureProcessState o "tunnel" .tunnel tunnel 0)
      writeState o)
    (cleanUp o [(.tunnel, tunnel), (.bridge, bridge)])

/-- What a start ends with, and what it leaves where nothing was before. -/
def start : Except Exn Unit × Machine :=
  (coldStart o).run { spawned := [], ended := [], stateFile := false }

end Lifecycle

end CodemcpBridge
