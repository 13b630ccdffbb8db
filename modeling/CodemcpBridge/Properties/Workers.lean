import CodemcpBridge.Workers.Calls

/-!
# The worker processes

How many codemcp processes there are at a time: one for each worker in every run, one for each
project in a run that takes no worker out of the map while a call uses it; and what a failed call
leaves behind.
-/

namespace CodemcpBridge.Workers

open Async Machine

variable {n : ℕ} {d : Discretion}

/-! ## Every run -/

/-- The task waits for the answer of a tool call on the worker. -/
def Talks {α : Type} (v : ℕ) (x : Task Ask (fun q => Except Exn q.Result) α) : Prop :=
  ∃ s name arguments timeout, x.asking? = some (.callTool v s name arguments timeout)

theorem Reached.lock_of_talks {p} (h : Reached n d p) {l} (hl : l ∈ p.live) {v : ℕ}
    (ht : Talks v l.2.2) : p.world.lock v = some l.1 := by
  obtain ⟨s, name, arguments, timeout, hq⟩ := ht
  obtain ⟨q, k, hx, hs, hwp⟩ := h.good.waits l.1 l.2.1 l.2.2 hl
  refine Task.legal_of_asking hwp hq ?_
  have hsuspends : (manager n d).suspends (.callTool v s name arguments timeout) = true := rfl
  simp only [Discipline.rules, hsuspends, if_true]
  exact ⟨.refl _ _, h.good.inv, trivial⟩

/-- **A worker has one process and serves one call at a time.**  In every run a worker's running
owner task is the one that the worker knows, its session is that of a running owner task, and no two
tasks wait for a tool call on it. -/
theorem one_process_per_worker (n : ℕ) (d : Discretion) {p} (h : Reached n d p) :
    (∀ o v, p.world.Running o v → ∃ x, p.world.worker v = some x ∧ x.ownerTask = some o) ∧
    (∀ v x s, p.world.worker v = some x → x.session = some s → p.world.Running s v) ∧
    ∀ v, ∀ l ∈ p.live, ∀ l' ∈ p.live, Talks v l.2.2 → Talks v l'.2.2 → l.1 = l'.1 := by
  have hi : Inv d p.world := h.good.inv
  refine ⟨fun o v hr => ?_, fun v x s hx hs => (hi.session hx hs).1, fun v l hl l' hl' ht ht' => ?_⟩
  · obtain ⟨x, hx, ho, -⟩ := hi.recorded hr
    exact ⟨x, hx, ho⟩
  · have held : some l.1 = some l'.1 := (h.lock_of_talks hl ht).symm.trans (h.lock_of_talks hl' ht')
    exact Option.some.inj held

/-- **A failed call leaves nothing behind.**  When a call ends with a `BridgeError`, the worker that
it was handed is out of the map, and its process is over. -/
theorem failed_call_discards (n : ℕ) (d : Discretion) {p p'} (h : Reached n d p)
    (hs : Step (manager n d) p p') {t : ℕ} {project : ProjectSpec} {name : String}
    {arguments : Dict} {timeout : Option ℕ} {mutation : Bool} {e : BridgeError}
    (ended : (t, .call project name arguments timeout mutation, .error (.bridge e)) ∈ p'.ended)
    (before : (t, .call project name arguments timeout mutation, .error (.bridge e)) ∉ p.ended) :
    ∃ k ∈ p'.world.handed, k.task = t ∧ p'.world.Removed k.worker ∧ p'.world.Over k.worker :=
  h.good.ends starts hs ended before e rfl

/-! ## Exclusive runs -/

/-- **A project has one process** at every moment of a run in which a worker is taken out of the map
only while no call uses it, and no call is handed a worker while a process of the project that is
out of the map lives on. -/
theorem one_process_per_project (n : ℕ) {d : Discretion} (hd : d.exclusive = true) {p}
    (h : Reached n d p) {o o' v v' : ℕ} (hr : p.world.Running o v) (hr' : p.world.Running o' v')
    (hp : p.world.projectOf v = p.world.projectOf v') : o = o' := by
  have hi : Inv d p.world := h.good.inv
  have hv : v = v' := hi.single hd hr hr' hp
  subst hv
  obtain ⟨x, hx, ho, -⟩ := hi.recorded hr
  obtain ⟨y, hy, ho', -⟩ := hi.recorded hr'
  rw [hx] at hy
  cases hy
  exact Option.some.inj (ho.symm.trans ho')

/-! ## Played runs -/

/-- Surroundings in which everything goes well but tool calls, which end as they are told to. -/
def obliging (worker owner : ℕ) (tool : Except Exn ToolResult) : Choice where
  answer
    | .create _ => .ok worker
    | .createOwner _ => .ok owner
    | .callTool .. => tool
    | .gathered _ | .acquire _ | .startup _ | .join _ | .begin | .parameters _ | .enterStdio
    | .enterSession | .sessionInitialize | .awaitShutdown | .exitSession | .exitStdio => .ok ()
    | _ => .error .other

def samplePlace : ProjectSpec :=
  { projectId := "p", root := "/p", allowedBranches := [], requireCleanWorkspace := true
    codemcpConfig := "", commands := [] }

def sampleCall : Call := .call samplePlace "ReadFile" [] none false

abbrev WorkerMove := Move ℕ Call Choice Unit

def calls (t : ℕ) (c : Call) (e : Choice) : WorkerMove := .call t c fun _ => e

def wakes (t : ℕ) (e : Choice) : WorkerMove := .wake t e fun _ => e

/-- A call that starts a worker and ends as its tool call does; its last answer is left out. -/
def talking (tool : Except Exn ToolResult) : List WorkerMove :=
  let e := obliging 10 100 tool
  [calls 1 sampleCall e, wakes 1 e, calls 100 (.owner 10) e] ++ List.replicate 3 (wakes 100 e) ++
    [wakes 1 e]

/-- The call fails, and its worker is shut down; its last answer is left out. -/
def failing : List WorkerMove :=
  let e := obliging 10 100 (.error .timeoutError)
  talking (.error .timeoutError) ++ [wakes 1 e, wakes 1 e] ++ List.replicate 3 (wakes 100 e)

/-- The owner task runs, for a worker of the project. -/
def World.runs (w : World) (projectId : String) (o : ℕ) : Bool :=
  (w.owner o).any fun r => !r.done && w.projectOf r.worker == some projectId

theorem running_of_runs {w : World} {projectId : String} {o : ℕ} (h : w.runs projectId o = true) :
    ∃ v, w.Running o v ∧ w.projectOf v = some projectId := by
  obtain ⟨r, hr, hc⟩ := (Option.any_eq_true _ _).1 h
  obtain ⟨hd, hp⟩ := Bool.and_eq_true_iff.1 hc
  exact ⟨r.worker, ⟨r, hr, rfl, by simpa using hd⟩, beq_iff_eq.1 hp⟩

/-- The worker has a session while a call waits on it. -/
theorem one_process_per_worker_talking : ∃ p, Reached 60 {} p ∧
    ∃ o v, p.world.Running o v ∧ ∃ x, p.world.worker v = some x ∧ x.ownerTask = some o := by
  have check : (Pool.plays (manager 60 {}) (talking (.ok {})) { world := {} }).any
      (fun p => p.world.runs "p" 100) = true := by
    decide +kernel
  obtain ⟨p, hp, hc⟩ := reachable_of_plays check
  obtain ⟨v, hr, -⟩ := running_of_runs hc
  exact ⟨p, hp, 100, v, hr, (one_process_per_worker 60 {} hp).1 100 v hr⟩

/-- After a time-out the process is over, and the next call starts another. -/
theorem one_process_per_project_restarted : ∃ p, Reached 60 { exclusive := true } p ∧
    (∃ v, p.world.Running 101 v ∧ p.world.projectOf v = some "p") ∧
    ∀ o v, p.world.Running o v → p.world.projectOf v = some "p" → o = 101 := by
  have check : (Pool.plays (manager 60 { exclusive := true }) (failing ++
      [wakes 1 (obliging 10 100 (.error .timeoutError)),
        calls 2 sampleCall (obliging 11 101 (.ok {})),
        wakes 2 (obliging 11 101 (.ok {}))]) { world := {} }).any
      (fun p => p.world.runs "p" 101) = true := by
    decide +kernel
  obtain ⟨p, hp, hc⟩ := reachable_of_plays check
  obtain ⟨v, hr, hv⟩ := running_of_runs hc
  refine ⟨p, hp, ⟨v, hr, hv⟩, fun o u ho hu => ?_⟩
  exact one_process_per_project 60 rfl hp ho hr (hu.trans hv.symm)

/-- What the call ends in whose tool call takes too long. -/
def timedOut : BridgeError :=
  { code := .backendUnavailable, message := "codemcp worker timed out"
    details := [("subtool", .str "ReadFile"), ("project_id", .str "p")], retryable := true
    status := .failed }

theorem failed_call_discards_timeout : ∃ p p', Reached 60 {} p ∧ Step (manager 60 {}) p p' ∧
    ∃ k ∈ p'.world.handed, k.task = 1 ∧ p'.world.Removed k.worker ∧ p'.world.Over k.worker := by
  have check : (Pool.plays (manager 60 {}) failing { world := {} }).any (fun p =>
      (p.play (manager 60 {}) (wakes 1 (obliging 10 100 (.error .timeoutError)))).any fun p' =>
        p'.ended.contains (1, sampleCall, .error (.bridge timedOut)) &&
          !p.ended.contains (1, sampleCall, .error (.bridge timedOut))) = true := by
    decide +kernel
  obtain ⟨p, p', hp, hs, hc⟩ := step_of_plays check
  obtain ⟨ended, before⟩ := Bool.and_eq_true_iff.1 hc
  have hended : (1, sampleCall, .error (.bridge timedOut)) ∈ p'.ended :=
    List.contains_iff_mem.1 ended
  have hbefore : (1, sampleCall, .error (.bridge timedOut)) ∉ p.ended := by
    rwa [Bool.not_eq_true', ← Bool.not_eq_true, List.contains_iff_mem] at before
  exact ⟨p, p', hp, hs, failed_call_discards 60 {} hp hs hended hbefore⟩

end CodemcpBridge.Workers
