import CodemcpBridge.Async.Pool
import CodemcpBridge.Tools
import Mathlib.Logic.Function.Basic

/-!
# The Bridge process as a machine

One process serves tool calls as tasks over one store.  The surroundings choose what the project,
the registry file, Git and the subprocesses answer, when a call is cancelled and when the process
dies; the store answers for itself.  The world also carries ghosts that no program reads: who has an
operation in hand, which body a task is in, and a log of every operation step.
-/

namespace CodemcpBridge

/-- A running subprocess, with the task that started it and the operation whose body it was in. -/
structure Process where
  handle : ℕ
  task : ℕ
  operation : Option String
  /-- The task still waits for it. -/
  attached : Bool
  deriving DecidableEq

/-- A successful store method on operations, or a point that was passed. -/
inductive Event
  | done (c : OperationCall)
  | mark (m : Mark)

/-- An event, with the task it is of and the store before and after it. -/
structure Entry where
  task : ℕ
  event : Event
  before : Database
  after : Database

/-- A call of the machine: who calls, and what. -/
abbrev Call := Caller × ToolCall

structure World where
  db : Database := {}
  started : Bool := false
  registry : Registry := []
  locks : List String := []
  processes : List Process := []
  calls : List (ℕ × Call) := []
  /-- The task that has the operation in hand. -/
  owner : String → Option ℕ := fun _ => none
  /-- The operation whose body the task has entered last. -/
  current : ℕ → Option String := fun _ => none
  /-- Newest first. -/
  log : List Entry := []

/-- What the surroundings choose when a question is asked. -/
structure Choice where
  answer : (q : Ask) → Except Exn q.Result
  stamp : Stamp := { now := fun _ => 0, eventId := fun _ => "" }
  /-- A store method that changes no operation fails with an SQLite error. -/
  storeFails : Bool := false

/-- Which of the surroundings' moves are left out. -/
structure Discretion where
  /-- No call is given an answer after which, in the same turn, an exception leaves the code that
  would settle its operation. -/
  tidy : Bool := false
  /-- No cancellation is delivered while the task waits for a subprocess, and the process does not
  die meanwhile. -/
  attended : Bool := false
  /-- Neither a crash nor a failing read strikes between the creation of an operation and the record
  of who created it. -/
  recorded : Bool := false

namespace World

/-- Record an event that left the store as `db`. -/
def note (w : World) (t : ℕ) (event : Event) (db : Database) : World :=
  { w with db := db, log := { task := t, event, before := w.db, after := db } :: w.log }

/-- The task takes an operation in hand. -/
def claim (w : World) (t : ℕ) : Option String → World
  | none => w
  | some o => { w with owner := Function.update w.owner o (some t) }

def addProcess (w : World) (t handle : ℕ) : World :=
  { w with processes := { handle, task := t, operation := w.current t, attached := true } ::
      w.processes }

def removeProcess (w : World) (handle : ℕ) : World :=
  { w with processes := w.processes.filter fun p => p.handle ≠ handle }

/-- The task leaves a subprocess behind. -/
def orphan (w : World) (handle : ℕ) : World :=
  { w with
    processes := w.processes.map fun p =>
      if p.handle = handle then { p with attached := false } else p }

end World

/-- The operation that a successful method puts into the hands of its caller. -/
def OperationCall.claims : (c : OperationCall) → c.Result → Option String
  | create o .., (_, existing) => if existing then none else some o
  | consumeApproval o .., _ => some o
  | cancelApproval o .., _ => some o
  | _, _ => none

def execOperation (t : ℕ) (c : OperationCall) (w : World) (st : Stamp) :
    Except Exn c.Result × World :=
  match c.run w.db st with
  | .error e => (.error e, w)
  | .ok (a, db) => (.ok a, (w.note t (.done c) db).claim t (c.claims a))

def execMark (t : ℕ) (m : Mark) (w : World) : World :=
  let w' := w.note t (.mark m) w.db
  match m with
  | .enter o => { w' with current := Function.update w.current t (some o) }
  | _ => w'

/-- The questions whose answer a task waits for without the floor. -/
def Quiet.suspends : Quiet → Bool
  | acquire _ | adapterCall .. | adapterClose => true
  | _ => false

def Ask.suspends : Ask → Bool
  | quiet q => q.suspends
  | spawn _ | communicate .. | terminate _ => true
  | _ => false

/-- The surroundings' answer, where it may be any but a cancellation that finds no `await`. -/
def answered {α : Type} (suspends : Bool) (w : World) (r : Except Exn α) :
    Option (Except Exn α × World) :=
  match r with
  | .error .cancelled => if suspends then some (r, w) else none
  | _ => some (r, w)

/-- An answer that is never an exception. -/
def certain {α : Type} (w : World) : Except Exn α → Option (Except Exn α × World)
  | .ok a => some (.ok a, w)
  | .error _ => none

/-- A new id names no row and is no approval's token. -/
def isFresh (db : Database) (id : String) : Bool :=
  !((db.sessions.any fun s => s.sessionId == id) ||
    (db.operations.any fun o => o.operationId == id) ||
    (db.approvals.any fun a => a.approvalId == id || a.tokenHash.token == id) ||
    (db.checkpoints.any fun c => c.checkpointId == id))

/-- A fresh random text, which neither `uuid4` nor `token_urlsafe` gives twice. -/
def drawn (w : World) : Except Exn String → Option (Except Exn String × World)
  | .ok id => if isFresh w.db id then some (.ok id, w) else none
  | .error _ => none

def execQuiet (w : World) (e : Choice) : (q : Quiet) → Option (Except Exn q.Result × World)
  | .store c =>
    if e.storeFails then some (.error .other, w)
    else match c.run w.db e.stamp with
      | .ok (a, db) => some (.ok a, { w with db := db })
      | .error x => some (.error x, w)
  | .snapshot => some (.ok w.registry, w)
  | .refreshIfChanged => match e.answer (.quiet .refreshIfChanged) with
    | .ok (some registry) => some (.ok (some registry), { w with registry := registry })
    | r => answered false w r
  | .acquire p => match e.answer (.quiet (.acquire p)) with
    | .ok () => if p ∈ w.locks then none else some (.ok (), { w with locks := p :: w.locks })
    | .error .cancelled => some (.error .cancelled, w)
    | .error _ => none
  | .release p => some (.ok (), { w with locks := w.locks.erase p })
  | .uuid => drawn w (e.answer (.quiet .uuid))
  | .token => drawn w (e.answer (.quiet .token))
  | .now => certain w (e.answer (.quiet .now))
  | .adapterActive p => certain w (e.answer (.quiet (.adapterActive p)))
  | q => answered q.suspends w (e.answer (.quiet q))

/-- What is left of the processes when a task stops waiting for one. -/
def execWait {α : Type} (d : Discretion) (w : World) (handle : ℕ) :
    Except Exn α → Option (Except Exn α × World)
  | .ok a => some (.ok a, w.removeProcess handle)
  | .error .timeoutError => some (.error .timeoutError, w)
  | .error .cancelled => if d.attended then none else some (.error .cancelled, w.orphan handle)
  | .error _ => none

/-- Every operation with a namespaced key has the record of who created it. -/
def allRecorded (db : Database) : Bool :=
  db.operations.all fun o =>
    o.replayKey.namespace_.isNone || (db.operationAuthContext? o.operationId).isSome

/-- Answer a question of task `t`. -/
def exec (d : Discretion) (t : ℕ) :
    (q : Ask) → World → Choice → Option (Except Exn q.Result × World)
  | .quiet q, w, e => execQuiet w e q
  | .operation c, w, e => some (execOperation t c w e.stamp)
  | .started, w, _ => some (.ok w.started, w)
  | .setStarted b, w, _ => some (.ok (), { w with started := b })
  | .mark (.dropped o), w, _ =>
    if d.tidy || (d.recorded && !allRecorded w.db) then none
    else some (.ok (), execMark t (.dropped o) w)
  | .mark m, w, _ => some (.ok (), execMark t m w)
  | .invocation p c, w, e => answered false w (e.answer (.invocation p c))
  | .spawn i, w, e => match e.answer (.spawn i) with
    | .ok handle => if (w.processes.map Process.handle).contains handle then none
      else some (.ok handle, w.addProcess t handle)
    | r => some (r, w)
  | .communicate h s, w, e => execWait d w h (e.answer (.communicate h s))
  | .terminate h, w, e => match e.answer (.terminate h) with
    | .error .timeoutError => none
    | r => execWait d w h r

/-- The world after the process has died or ended: the store, and subprocesses without a parent. -/
def World.stopped (w : World) (registry : Registry) : World :=
  { w with
    started := false, registry, locks := []
    processes := w.processes.map fun p => { p with attached := false }
    owner := fun _ => none
    current := fun _ => none }

/-- Whether the process may end where it stands. -/
def mayStop (d : Discretion) (w : World) : Bool :=
  !(d.recorded && !allRecorded w.db) && !(d.attended && !w.processes.isEmpty)

/-- The session that a graceful shutdown closes next. -/
def closeSession (st : Stamp) (db : Database) (sessionId : String) : Database :=
  match db.session? sessionId with
  | some current =>
    let step (db : Database) (status : SessionStatus) : Database :=
      match db.transitionSession st sessionId status (some "bridge_shutdown") with
      | .ok (_, db) => db
      | .error _ => db
    if current.status = .active then step (step db .closing) .closed
    else if current.status = .closed then db
    else step db .closed
  | none => db

/-- `close`: the sessions in use are closed before the store is. -/
def closeBridge (db : Database) (st : Stamp) : Database :=
  ((db.sessions.filter fun s => [.active, .closing].contains s.status).map
    SessionRecord.sessionId).foldl (closeSession st) db

/-- The Bridge process. -/
def bridge (settings : PolicySettings) (d : Discretion) :
    Async.Machine ℕ Call Ask (fun q => Except Exn q.Result) World Choice (Registry × Stamp)
      (Except Exn (Option Payload)) where
  program c := (c.2.program settings c.1).task
  suspends := Ask.suspends
  exec := exec d
  arrive t c w :=
    if (w.calls.map Prod.fst).contains t then none else some { w with calls := (t, c) :: w.calls }
  crash x w := if mayStop d w then some (w.stopped x.1) else none
  quit x w :=
    if mayStop d w then some ({ w with db := closeBridge w.db x.2 }.stopped x.1) else none

end CodemcpBridge
