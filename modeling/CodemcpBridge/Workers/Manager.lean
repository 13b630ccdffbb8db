import CodemcpBridge.Async.Play
import CodemcpBridge.Requests
import Mathlib.Logic.Function.Basic

/-!
# The worker manager

Each project has a codemcp worker: an owner task starts its process, keeps its session until it is
told to shut down, and ends with it; calls to the worker go one at a time.  `WorkerManager` hands
the workers out, replaces one whose project has changed and discards one on which a call has failed.

`_workers_lock` and `_lifecycle_lock` are held over no `await`, so nobody ever waits for them and
they are not modelled.
-/

namespace CodemcpBridge.Workers

/-- The attributes of a `_CodemcpWorker`.  A startup future, a shutdown event and a session are
named by the owner task that they were made for. -/
structure Worker where
  project : ProjectSpec
  session : Option ℕ := none
  ownerTask : Option ℕ := none
  startupFuture : Option ℕ := none
  shutdownEvent : Option ℕ := none

/-- What `session.call_tool` returns: the text of each block that has one, and the JSON text of the
structured content. -/
structure ToolResult where
  content : List (Option String) := []
  structuredContent : Option String := none
  isError : Bool := false

/-- `_result_text`. -/
def resultText (result : ToolResult) : String :=
  let chunks := result.content.filterMap id
  if chunks ≠ [] then "\n".intercalate chunks else result.structuredContent.getD ""

/-- A point that a call passes; no program reads it. -/
inductive Mark
  /-- The call is handed a worker, in the place of a stale one that it still has to close. -/
  | handed (worker : ℕ) (stale : Option ℕ)
  /-- The call has done with its worker. -/
  | left

/-- What the manager, a worker and an owner task do. -/
inductive Ask
  /-- `self._workers.get(project_id)`. -/
  | get (projectId : String)
  | pop (projectId : String)
  /-- A new worker, put into the map. -/
  | create (project : ProjectSpec)
  /-- `list(self._workers.values())` and `self._workers.clear()`. -/
  | takeAll
  /-- The tasks that `asyncio.gather` makes of the coroutines, and then their end. -/
  | spawnClosing (workers : List ℕ)
  | gathered (workers : List ℕ)
  /-- The attributes of a worker, read at one moment. -/
  | read (worker : ℕ)
  | acquire (worker : ℕ)
  | release (worker : ℕ)
  /-- A future, an event and a task, put into the attributes of the worker. -/
  | createOwner (worker : ℕ)
  /-- `owner_task.done()`. -/
  | isDone (owner : ℕ)
  /-- `await asyncio.shield(startup_future)`. -/
  | startup (owner : ℕ)
  | callTool (worker session : ℕ) (subtool : String) (arguments : Dict) (timeoutSeconds : ℕ)
  /-- `shutdown_event.set()`. -/
  | setShutdown (owner : ℕ)
  /-- `await owner_task`. -/
  | join (owner : ℕ)
  /-- All four attributes of a worker become `None`. -/
  | forget (worker : ℕ)
  /-- The first step of an owner task. -/
  | begin
  | parameters (worker : ℕ)
  | enterStdio
  | enterSession
  | sessionInitialize
  /-- `self._session = session`. -/
  | setSession (worker : ℕ)
  /-- `startup_future.done()`, `set_result` and `set_exception`. -/
  | startupDone
  | setResult
  | setException (e : Exn)
  /-- `await shutdown_event.wait()`. -/
  | awaitShutdown
  | exitSession
  | exitStdio
  /-- `self._session = None`. -/
  | clearSession (worker : ℕ)
  /-- The owner task has returned. -/
  | ended
  /-- A task that closes a worker for `gather` has returned. -/
  | closed (worker : ℕ)
  | mark (m : Mark)

@[reducible] def Ask.Result : Ask → Type
  | get _ => Option ℕ
  | create _ | createOwner _ => ℕ
  | takeAll => List ℕ
  | read _ => Worker
  | isDone _ | startupDone => Bool
  | callTool .. => ToolResult
  | _ => Unit

/-- A coroutine of the module. -/
abbrev Prog := Async.Prog Ask Ask.Result Exn

def ask (q : Ask) : Prog q.Result := Async.Prog.ask q

def mark (m : Mark) : Prog Unit := ask (.mark m)

/-! ## The owner task -/

/-- The `try` block of `_run_owner`. -/
def ownerBody (worker : ℕ) : Prog Unit := do
  ask (.parameters worker)
  ask .enterStdio
  Async.Prog.ensuring (do
    ask .enterSession
    Async.Prog.ensuring (do
      ask .sessionInitialize
      ask (.setSession worker)
      unless ← ask .startupDone do
        ask .setResult
      ask .awaitShutdown) (ask .exitSession)) (ask .exitStdio)

/-- `_CodemcpWorker._run_owner`. -/
def runOwner (worker : ℕ) : Prog Unit :=
  Async.Prog.ensuring (Async.Prog.handle (ownerBody worker) fun e => some do
    unless ← ask .startupDone do
      ask (.setException e)) (ask (.clearSession worker))

/-- The task that `start` makes of it: one that is cancelled before its first step does nothing. -/
def ownerTask (worker : ℕ) : Prog Unit := (ask .begin).andThen fun
  | .error _ => ask .ended
  | .ok _ => (runOwner worker).andThen fun _ => ask .ended

/-! ## `_CodemcpWorker` -/

/-- `async with self._call_lock`. -/
def withCallLock {α : Type} (worker : ℕ) (x : Prog α) : Prog α := do
  ask (.acquire worker)
  x.ensuring (ask (.release worker))

/-- `self._owner_task is None or self._owner_task.done()`. -/
def ownerIsOver (x : Worker) : Prog Bool := match x.ownerTask with
  | none => pure true
  | some o => ask (.isDone o)

/-- `_CodemcpWorker.start`. -/
def start (worker : ℕ) : Prog Unit := do
  let x ← ask (.read worker)
  if x.session.isSome then
    pure ()
  else if ← ownerIsOver x then
    let o ← ask (.createOwner worker)
    ask (.startup o)
  else match x.startupFuture with
    -- `RuntimeError("codemcp worker owner has no startup future")`
    | none => .raise .other
    | some o => ask (.startup o)

/-- The last part of `_CodemcpWorker.call`: the session is there, or the start has failed. -/
def callSession (worker : ℕ) (subtool : String) (arguments : Dict) (timeoutSeconds : ℕ) :
    Prog AdapterResult := do
  match (← ask (.read worker)).session with
  -- `RuntimeError("codemcp worker session failed to start")`
  | none => .raise .other
  | some s =>
    let result ← ask (.callTool worker s subtool arguments timeoutSeconds)
    pure { text := resultText result, isError := result.isError, truncated := false }

/-- `_CodemcpWorker.call`. -/
def callWorker (worker : ℕ) (subtool : String) (arguments : Dict) (timeoutSeconds : ℕ) :
    Prog AdapterResult := withCallLock worker do
  if (← ask (.read worker)).session.isNone then
    start worker
  callSession worker subtool arguments timeoutSeconds

/-- `if shutdown_event is not None: shutdown_event.set()`. -/
def setShutdown (x : Worker) : Prog Unit := match x.shutdownEvent with
  | none => pure ()
  | some o => ask (.setShutdown o)

/-- `if owner_task is not None: await owner_task`. -/
def awaitOwner (x : Worker) : Prog Unit := match x.ownerTask with
  | none => pure ()
  | some o => ask (.join o)

/-- `_CodemcpWorker.close`. -/
def closeWorker (worker : ℕ) : Prog Unit := withCallLock worker do
  let x ← ask (.read worker)
  setShutdown x
  awaitOwner x
  if (← ask (.read worker)).ownerTask = x.ownerTask then
    ask (.forget worker)

/-! ## `WorkerManager` -/

/-- The worker in the map, unless there is none or it is stale; and the stale one. -/
def lookUp (project : ProjectSpec) : Prog (Option ℕ × Option ℕ) := do
  match ← ask (.get project.projectId) with
  | none => pure (none, none)
  | some worker =>
    if (← ask (.read worker)).project = project then
      pure (some worker, none)
    else do
      ask (.pop project.projectId)
      pure (none, some worker)

/-- The worker that was found, or a new one. -/
def foundOrNew (project : ProjectSpec) : Option ℕ → Prog ℕ
  | some worker => pure worker
  | none => ask (.create project)

/-- `if stale_worker is not None: await stale_worker.close()`. -/
def closeStale : Option ℕ → Prog Unit
  | none => pure ()
  | some stale => closeWorker stale

/-- `_get_worker`. -/
def getWorker (project : ProjectSpec) : Prog ℕ := do
  let known ← lookUp project
  let worker ← foundOrNew project known.1
  mark (.handed worker known.2)
  closeStale known.2
  pure worker

/-- `_discard`. -/
def discard (projectId : String) (worker : ℕ) : Prog Unit := do
  if (← ask (.get projectId)) = some worker then
    ask (.pop projectId)
  closeWorker worker

/-- What `call` raises where a call on a worker has raised. -/
def failure (project : ProjectSpec) (subtool : String) (mutation : Bool) : Exn → Exn
  | .cancelled => .cancelled
  | .timeoutError => .bridge
    { code := if mutation then .unknownSideEffect else .backendUnavailable
      message := "codemcp worker timed out"
      details := [("subtool", .str subtool), ("project_id", .str project.projectId)]
      retryable := !mutation
      status := if mutation then .unknown else .failed }
  | .bridge e => .bridge e
  | _ => .bridge
    { code := .backendUnavailable
      message := "codemcp worker is unavailable"
      details := [("project_id", .str project.projectId), ("subtool", .str subtool)]
      retryable := true
      status := .failed }

/-- `timeout_seconds or self._settings.codemcp.worker_timeout_seconds`. -/
def timeout (workerTimeoutSeconds : ℕ) : Option ℕ → ℕ
  | none | some 0 => workerTimeoutSeconds
  | some n => n

/-- `WorkerManager.call`. -/
def call (workerTimeoutSeconds : ℕ) (project : ProjectSpec) (subtool : String) (arguments : Dict)
    (timeoutSeconds : Option ℕ) (mutation : Bool) : Prog AdapterResult :=
  (getWorker project).andThen fun
  | .error e => do
    mark .left
    .raise e
  | .ok worker =>
    Async.Prog.handle (Async.Prog.ensuring
      (callWorker worker subtool arguments (timeout workerTimeoutSeconds timeoutSeconds))
      (mark .left)) fun e => some do
        discard project.projectId worker
        .raise (failure project subtool mutation e)

/-- `WorkerManager.close`. -/
def close : Prog Unit := do
  let workers ← ask .takeAll
  ask (.spawnClosing workers)
  ask (.gathered workers)

/-- A coroutine `worker.close()` as the task that `gather` makes of it. -/
def closingTask (worker : ℕ) : Prog Unit :=
  (closeWorker worker).ensuring (ask (.closed worker))

/-! ## The machine -/

/-- The state of an owner task with its startup future and its shutdown event. -/
structure Owner where
  worker : ℕ
  begun : Bool := false
  startup : Option (Except Exn Unit) := none
  shutdown : Bool := false
  done : Bool := false

/-- A call with the worker that it was handed, and the stale one that it had to close before. -/
structure Handed where
  task : ℕ
  worker : ℕ
  stale : Option ℕ

/-- The objects of one process; `handed` and `left` are ghosts that no program reads. -/
structure World where
  workers : List (String × ℕ) := []
  worker : ℕ → Option Worker := fun _ => none
  /-- Every task so far, owner tasks included. -/
  tasks : List ℕ := []
  owner : ℕ → Option Owner := fun _ => none
  /-- The task that holds the call lock of a worker. -/
  lock : ℕ → Option ℕ := fun _ => none
  /-- The workers that `gather` still closes. -/
  closing : List ℕ := []
  handed : List Handed := []
  left : List ℕ := []

/-- Which runs are considered. -/
structure Discretion where
  /-- A worker is taken out of the map only while no call uses it, and no call is handed a worker
  while a process of the project lives on out of the map, unless it is that of the stale worker
  which the call itself will close. -/
  exclusive : Bool := false

/-- What the surroundings choose when a question is asked. -/
structure Choice where
  answer : (q : Ask) → Except Exn q.Result

namespace World

/-- The worker in the map under a project. -/
def mapped (w : World) (projectId : String) : Option ℕ := w.workers.lookup projectId

def pop (w : World) (projectId : String) : World :=
  { w with workers := w.workers.filter fun x => x.1 ≠ projectId }

def setWorker (w : World) (v : ℕ) (x : Worker) : World :=
  { w with worker := Function.update w.worker v (some x) }

def setOwner (w : World) (o : ℕ) (r : Owner) : World :=
  { w with owner := Function.update w.owner o (some r) }

def setLock (w : World) (v : ℕ) (t : Option ℕ) : World :=
  { w with lock := Function.update w.lock v t }

/-- A new worker of the project, in the map. -/
def create (w : World) (v : ℕ) (project : ProjectSpec) : World :=
  { w.setWorker v { project } with
    workers := (project.projectId, v) :: (w.pop project.projectId).workers }

/-- A new owner task of the worker `v`. -/
def createOwner (w : World) (v : ℕ) (x : Worker) (o : ℕ) : World :=
  { (w.setOwner o { worker := v }).setWorker v
      { x with ownerTask := some o, startupFuture := some o, shutdownEvent := some o } with
    tasks := o :: w.tasks }

/-- No call uses the worker. -/
def idle (w : World) (v : ℕ) : Bool :=
  w.handed.all fun h => h.worker ≠ v || w.left.contains h.task

/-- The task owns a process of the project that is out of the map and is not that of `stale`. -/
def lingers (w : World) (projectId : String) (stale : Option ℕ) (o : ℕ) : Bool :=
  (w.owner o).any fun r => !r.done && stale ≠ some r.worker && w.mapped projectId ≠ some r.worker &&
    (w.worker r.worker).any fun x => x.project.projectId = projectId

/-- No process stands in the way of a call that is handed the worker. -/
def clear (w : World) (v : ℕ) (stale : Option ℕ) : Bool :=
  (w.worker v).all fun x => w.tasks.all fun o => !w.lingers x.project.projectId stale o

end World

/-- An answer that changes nothing: any but a cancellation that finds no `await`. -/
def answered {α : Type} (suspends : Bool) (w : World) (r : Except Exn α) :
    Option (Except Exn α × World) :=
  match r with
  | .error .cancelled => if suspends then some (r, w) else none
  | _ => some (r, w)

/-- The end of an `await` that raises nothing of its own, once `ready` holds. -/
def awaited (w : World) (ready : Bool) : Except Exn Unit → Option (Except Exn Unit × World)
  | .ok () => if ready then some (.ok (), w) else none
  | .error .cancelled => some (.error .cancelled, w)
  | .error _ => none

/-- The questions whose answer a task waits for without the floor. -/
def Ask.suspends : Ask → Bool
  | gathered _ | acquire _ | startup _ | callTool .. | join _ | enterStdio | enterSession
  | sessionInitialize | awaitShutdown | exitSession | exitStdio => true
  | _ => false

/-- Change the state of the owner task `o`. -/
def World.modifyOwner (w : World) (o : ℕ) (f : Owner → Owner) : Option (Except Exn Unit × World) :=
  (w.owner o).map fun r => (.ok (), w.setOwner o (f r))

/-- Change the attributes of the worker `v`. -/
def World.modifyWorker (w : World) (v : ℕ) (f : Worker → Worker) :
    Option (Except Exn Unit × World) :=
  (w.worker v).map fun x => (.ok (), w.setWorker v (f x))

/-- Answer a question of task `t`. -/
def exec (d : Discretion) (t : ℕ) :
    (q : Ask) → World → Choice → Option (Except Exn q.Result × World)
  | .get p, w, _ => some (.ok (w.mapped p), w)
  | .pop p, w, _ =>
    if d.exclusive && !(w.mapped p).all w.idle then none else some (.ok (), w.pop p)
  | .create project, w, e => match e.answer (.create project) with
    | .ok v => if (w.worker v).isSome then none else some (.ok v, w.create v project)
    | .error _ => none
  | .takeAll, w, _ =>
    if d.exclusive && !w.workers.all (fun x => w.idle x.2) then none
    else some (.ok (w.workers.map Prod.snd), { w with workers := [] })
  | .spawnClosing vs, w, _ => some (.ok (), { w with closing := vs ++ w.closing })
  | .gathered vs, w, e => awaited w (vs.all fun v => !w.closing.contains v)
    (e.answer (.gathered vs))
  | .read v, w, _ => (w.worker v).map fun x => (.ok x, w)
  | .acquire v, w, e => match awaited w (w.lock v).isNone (e.answer (.acquire v)) with
    | some (.ok (), w) => some (.ok (), w.setLock v (some t))
    | r => r
  | .release v, w, _ => some (.ok (), w.setLock v none)
  | .createOwner v, w, e => match e.answer (.createOwner v), w.worker v with
    | .ok o, some x => if o ∈ w.tasks then none else some (.ok o, w.createOwner v x o)
    | _, _ => none
  | .isDone o, w, _ => (w.owner o).map fun r => (.ok r.done, w)
  | .startup o, w, e => match e.answer (.startup o) with
    | .error .cancelled => some (.error .cancelled, w)
    | _ => ((w.owner o).bind Owner.startup).map fun r => (r, w)
  | .callTool v s n a timeout, w, e => answered true w (e.answer (.callTool v s n a timeout))
  | .setShutdown o, w, _ => w.modifyOwner o fun r => { r with shutdown := true }
  -- a cancellation of the waiting task is passed on to the owner task, whose end it waits for still
  | .join o, w, e =>
    if (w.owner o).any Owner.done then awaited w true (e.answer (.join o)) else none
  | .forget v, w, _ => w.modifyWorker v fun x =>
    { x with session := none, ownerTask := none, startupFuture := none, shutdownEvent := none }
  | .begin, w, e => awaited w true (e.answer .begin)
  | .parameters v, w, e => answered false w (e.answer (.parameters v))
  | .enterStdio, w, e => answered true w (e.answer .enterStdio)
  | .enterSession, w, e => answered true w (e.answer .enterSession)
  | .sessionInitialize, w, e => answered true w (e.answer .sessionInitialize)
  | .setSession v, w, _ => w.modifyWorker v fun x => { x with session := some t }
  | .startupDone, w, _ => (w.owner t).map fun r => (.ok r.startup.isSome, w)
  | .setResult, w, _ => w.modifyOwner t fun r => { r with startup := some (.ok ()) }
  | .setException e, w, _ => w.modifyOwner t fun r => { r with startup := some (.error e) }
  | .awaitShutdown, w, e => match e.answer .awaitShutdown with
    | .ok () => if (w.owner t).any Owner.shutdown then some (.ok (), w) else none
    | r => some (r, w)
  | .exitSession, w, e => answered true w (e.answer .exitSession)
  | .exitStdio, w, e => answered true w (e.answer .exitStdio)
  | .clearSession v, w, _ => w.modifyWorker v fun x => { x with session := none }
  | .ended, w, _ => w.modifyOwner t fun r => { r with done := true }
  | .closed v, w, _ => some (.ok (), { w with closing := w.closing.erase v })
  | .mark (.handed v stale), w, _ =>
    if d.exclusive && !w.clear v stale then none
    else some (.ok (), { w with handed := { task := t, worker := v, stale } :: w.handed })
  | .mark .left, w, _ => some (.ok (), { w with left := t :: w.left })

/-- What runs as a task of its own. -/
inductive Call
  | call (project : ProjectSpec) (subtool : String) (arguments : Dict) (timeoutSeconds : Option ℕ)
    (mutation : Bool)
  | close
  | closing (worker : ℕ)
  | owner (worker : ℕ)
  deriving DecidableEq

def Call.program (workerTimeoutSeconds : ℕ) : Call → Prog (Option AdapterResult)
  | call p s a n m => some <$> Workers.call workerTimeoutSeconds p s a n m
  | close => (fun _ => none) <$> Workers.close
  | closing v => (fun _ => none) <$> closingTask v
  | owner v => (fun _ => none) <$> ownerTask v

/-- A task has a name of its own; a task of `gather` and an owner task have been created before. -/
def arrive (t : ℕ) (c : Call) (w : World) : Option World := match c with
  | .owner v => (w.owner t).bind fun r =>
    if r.worker = v ∧ r.begun = false then some (w.setOwner t { r with begun := true }) else none
  | .closing v =>
    if t ∈ w.tasks ∨ v ∉ w.closing then none else some { w with tasks := t :: w.tasks }
  | _ => if t ∈ w.tasks then none else some { w with tasks := t :: w.tasks }

/-- The worker manager of one process. -/
def manager (workerTimeoutSeconds : ℕ) (d : Discretion) :
    Async.Machine ℕ Call Ask (fun q => Except Exn q.Result) World Choice Unit
      (Except Exn (Option AdapterResult)) where
  program c := (c.program workerTimeoutSeconds).task
  suspends := Ask.suspends
  exec := exec d
  arrive := arrive
  crash _ _ := none
  quit _ _ := none

/-- A run of the worker manager reaches the pool. -/
abbrev Reached (workerTimeoutSeconds : ℕ) (d : Discretion) :=
  Async.Machine.Reachable (manager workerTimeoutSeconds d) {}

end CodemcpBridge.Workers
