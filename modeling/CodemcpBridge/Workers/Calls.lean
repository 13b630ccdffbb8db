import CodemcpBridge.Async.Asks
import CodemcpBridge.Workers.Answers

/-!
# The discipline of the worker manager

Every coroutine of the manager asks its questions where they may be asked: a worker gets an owner
task only from the holder of its call lock, while no other runs; what closes a worker leaves it
without one; and a call that fails has discarded its worker before it says so.
-/

namespace CodemcpBridge.Workers

open Async

variable {n : ℕ} {d : Discretion} {t v : ℕ} {w w' : World}

/-! ## Arrivals -/

section Arrivals

variable {t' : ℕ}

theorem Inv.arrived (hi : Inv d w) : Inv d { w with tasks := t :: w.tasks } :=
  { hi with
    tasks := ⟨fun hr => List.mem_cons_of_mem _ (hi.tasks.1 hr),
      fun ht => List.mem_cons_of_mem _ (hi.tasks.2 ht)⟩ }

/-- What runs when an owner task has begun ran before. -/
theorem running_begun {o u : ℕ} {r : Owner} (hr : w.owner t = some r) :
    (w.setOwner t { r with begun := true }).Running o u ↔ w.Running o u := by
  unfold World.Running
  by_cases ho : o = t
  · subst ho
    rw [setOwner_self, hr]
    simp
  · rw [setOwner_ne ho]

theorem Inv.begin {r : Owner} (hi : Inv d w) (hr : w.owner t = some r) :
    Inv d (w.setOwner t { r with begun := true }) where
  workers := hi.workers
  recorded h := hi.recorded ((running_begun hr).1 h)
  session {u x o} hx hs := by
    obtain ⟨hrun, hb⟩ := hi.session hx hs
    refine ⟨(running_begun hr).2 hrun, fun r' hr' => ?_⟩
    by_cases ho : o = t
    · subst ho
      rw [setOwner_self] at hr'
      cases hr'
      rfl
    · rw [setOwner_ne ho] at hr'
      exact hb r' hr'
  owners {u x o} hx ho := by
    obtain ⟨r', hr', hv⟩ := hi.owners hx ho
    by_cases he : o = t
    · subst he
      rw [hr] at hr'
      cases hr'
      exact ⟨_, setOwner_self, hv⟩
    · exact ⟨r', (setOwner_ne he).trans hr', hv⟩
  tasks := by
    refine ⟨fun {o r'} ho => ?_, hi.tasks.2⟩
    by_cases he : o = t
    · subst he
      exact hi.tasks.1 hr
    · rw [setOwner_ne he] at ho
      exact hi.tasks.1 ho
  begun {o r'} ho hb := by
    by_cases he : o = t
    · subst he
      rw [setOwner_self] at ho
      cases ho
      cases hb
    · rw [setOwner_ne he] at ho
      exact hi.begun ho hb
  serves hd h hh hl := by
    obtain ⟨hm, hs⟩ := hi.serves hd h hh hl
    exact ⟨hm, fun o u ho => hs o u ((running_begun hr).1 ho)⟩
  single hd h h' := hi.single hd ((running_begun hr).1 h) ((running_begun hr).1 h')

theorem Rely.arrived : Rely d t' w { w with tasks := t :: w.tasks } :=
  { Rely.refl t' w with tasks := List.mem_cons_of_mem _ }

theorem Rely.begin {r : Owner} (hr : w.owner t = some r) (ht : t' ≠ t) :
    Rely d t' w (w.setOwner t { r with begun := true }) where
  worker h := ⟨_, h, rfl⟩
  removed h := h.2
  owner {o r'} ho := by
    by_cases he : o = t
    · subst he
      rw [hr] at ho
      cases ho
      exact ⟨_, setOwner_self, rfl, id⟩
    · exact ⟨r', (setOwner_ne he).trans ho, rfl, id⟩
  stopped _ _ h o ho := h o ((running_begun hr).1 ho)
  tasks h := h
  handed h := h
  left h := h
  lock h := h
  held _ h := ⟨_, h, rfl⟩
  own {r'} ho := ⟨r', (setOwner_ne ht).trans ho, rfl, rfl⟩

/-- What an arrival does to the world. -/
theorem arrive_cases {c : Call} (h : arrive t c w = some w') :
    (t ∉ w.tasks ∧ w' = { w with tasks := t :: w.tasks } ∧ ∀ v, c ≠ .owner v) ∨
      ∃ v r, c = .owner v ∧ w.owner t = some r ∧ r.worker = v ∧ r.begun = false ∧
        w' = w.setOwner t { r with begun := true } := by
  cases c with
  | owner v =>
    obtain ⟨r, hr, h⟩ := Option.bind_eq_some_iff.1 h
    split at h
    · rename_i hc
      cases h
      exact .inr ⟨v, r, rfl, hr, hc.1, hc.2, rfl⟩
    · cases h
  | closing v =>
    simp only [arrive] at h
    split at h
    · cases h
    · rename_i hc
      cases h
      exact .inl ⟨fun ht => hc (.inl ht), rfl, fun v hv => by cases hv⟩
  | call p s a m b =>
    simp only [arrive] at h
    split at h
    · cases h
    · cases h
      exact .inl ⟨‹_›, rfl, fun v hv => by cases hv⟩
  | close =>
    simp only [arrive] at h
    split at h
    · cases h
    · cases h
      exact .inl ⟨‹_›, rfl, fun v hv => by cases hv⟩

theorem inv_arrive {c : Call} (hi : Inv d w) (h : arrive t c w = some w') : Inv d w' := by
  rcases arrive_cases h with ⟨-, rfl, -⟩ | ⟨v, r, -, hr, -, -, rfl⟩
  · exact hi.arrived
  · exact hi.begin hr

theorem rely_arrive {c : Call} (ht : t' ≠ t) (h : arrive t c w = some w') : Rely d t' w w' := by
  rcases arrive_cases h with ⟨-, rfl, -⟩ | ⟨v, r, -, hr, -, -, rfl⟩
  · exact .arrived
  · exact .begin hr ht

end Arrivals

/-! ## The discipline -/

/-- A call that has failed with a `BridgeError` has discarded its worker: it is out of the map, and
its process is over. -/
def Discarded (t : ℕ) (r : Except Exn (Option AdapterResult)) (w : World) : Prop :=
  ∀ e, r = .error (.bridge e) → ∃ h ∈ w.handed, h.task = t ∧ w.Removed h.worker ∧ w.Over h.worker

def Ended (t : ℕ) : Call → Except Exn (Option AdapterResult) → World → Prop
  | .call .., r, w => Discarded t r w
  | _, _, _ => True

def discipline (n : ℕ) (d : Discretion) : Discipline (manager n d) where
  inv := Inv d
  calm _ := True
  rely := Rely d
  legal := Legal d
  post := Ended
  rely_refl := Rely.refl
  rely_trans := Rely.trans
  post_calm _ := trivial
  exec_inv hi hl he := (exec_effect he).inv hi hl
  exec_rely ht hi hl he := (exec_effect he).rely hi hl ht
  arrive_inv := inv_arrive
  arrive_rely ht _ ha := rely_arrive ht ha
  crash_inv _ h := by cases h
  crash_calm _ := trivial
  quit_inv _ h := by cases h
  quit_calm _ _ := trivial

/-- The rules under which task `t` of the manager runs. -/
abbrev rules (n : ℕ) (d : Discretion) (t : ℕ) := (discipline n d).rules t

section Rules

variable {α : Type} {q : Ask} {P : Except Exn q.Result → World → Prop}

/-- A question for which the task keeps the floor. -/
theorem wp_now (hq : q.suspends = false) (hi : Inv d w) (hl : Legal d t q w)
    (h : ∀ a w' e, exec d t q w e = some (a, w') → Inv d w' → P a w') :
    (ask q).wp (rules n d t) P w := by
  refine ⟨fun hs => trivial, fun w₁ hb => ?_⟩
  have hw : w₁ = w := by simpa [rules, Discipline.rules, manager, hq] using hb
  subst hw
  refine ⟨hl, fun a w' ha => ?_⟩
  obtain ⟨⟨e, he⟩, hi'⟩ := ha
  exact h a w' e he hi'

/-- A question for whose answer the task waits. -/
theorem wp_wait (hq : q.suspends = true) (h : ∀ w₁, Rely d t w w₁ → Inv d w₁ →
      Legal d t q w₁ ∧ ∀ a w' e, exec d t q w₁ e = some (a, w') → Inv d w' → P a w') :
    (ask q).wp (rules n d t) P w := by
  refine ⟨fun _ => trivial, fun w₁ hb => ?_⟩
  have hw : Rely d t w w₁ ∧ Inv d w₁ := by
    simpa [rules, Discipline.rules, manager, hq, discipline] using hb
  refine ⟨(h w₁ hw.1 hw.2).1, fun a w' ha => ?_⟩
  obtain ⟨⟨e, he⟩, hi'⟩ := ha
  exact (h w₁ hw.1 hw.2).2 a w' e he hi'

end Rules

/-! ## One worker -/

section Worker

/-- What is done under the call lock of a worker, and under it alone. -/
theorem wp_withCallLock {α : Type} {x : Prog α} {J : Except Exn α → World → Prop}
    (hx : ∀ w₁, Onward d t w w₁ → Inv d w₁ → w₁.lock v = some t →
      x.wp (rules n d t) (fun r w' => Inv d w' ∧ w'.lock v = some t ∧ J r w') w₁)
    (hrelease : ∀ r w', J r w' → J r (w'.setLock v none))
    (hcancel : ∀ w₁, Onward d t w w₁ → J (.error .cancelled) w₁) :
    (withCallLock v x).wp (rules n d t) (fun r w' => Inv d w' ∧ J r w') w := by
  unfold withCallLock
  refine Prog.wp_bind (wp_wait rfl fun w₁ hr hi => ⟨trivial, fun a w₂ e he hi₂ => ?_⟩)
  rcases acquire_eq he with ⟨rfl, -, rfl⟩ | ⟨rfl, rfl⟩
  · refine ⟨fun _ _ => ?_, fun e he => by cases he⟩
    have hon : Onward d t w (w₁.setLock v (some t)) := hr.toOnward.trans Same.setLock.onward
    refine Prog.wp_ensuring (Prog.wp_mono (fun r w₃ h => ?_)
      (hx _ hon hi₂ (Function.update_self ..)))
    refine wp_now rfl h.1 h.2.1 fun a w₄ e he hi₄ => ?_
    cases he
    exact ⟨fun _ => ⟨hi₄, hrelease r w₃ h.2.2⟩, fun e he => by cases he⟩
  · refine ⟨fun a ha => ?_, fun e he => ?_⟩ <;> cases ‹_›
    exact ⟨hi₂, hcancel _ hr.toOnward⟩

/-- Nothing runs for a worker whose owner task is over. -/
theorem over_of_done {x : Worker} (hi : Inv d w) (hx : w.worker v = some x)
    (h : ∀ o, x.ownerTask = some o → ∃ r, w.owner o = some r ∧ r.done = true) : w.Over v := by
  intro o hrun
  obtain ⟨y, hy, ho, -⟩ := hi.recorded hrun
  rw [hx] at hy
  cases hy
  obtain ⟨r, hr, hd⟩ := h o ho
  obtain ⟨r', hr', -, hd'⟩ := hrun
  rw [hr] at hr'
  cases hr'
  rw [hd] at hd'
  cases hd'

theorem wp_ownerIsOver {x : Worker} (hi : Inv d w) (hx : w.worker v = some x) :
    (ownerIsOver x).wp (rules n d t) (fun r w' => w' = w ∧ (r = .ok true → w.Over v) ∧
      ∃ b, r = .ok b) w := by
  unfold ownerIsOver
  cases ho : x.ownerTask with
  | none =>
    refine ⟨rfl, fun _ => over_of_done hi hx fun o he => ?_, _, rfl⟩
    rw [ho] at he
    cases he
  | some o =>
    refine wp_now rfl hi trivial fun a w' e he _ => ?_
    obtain ⟨rfl, r, hr, rfl⟩ := isDone_eq he
    refine ⟨rfl, fun hdone => over_of_done hi hx fun o' he => ?_, _, rfl⟩
    rw [ho] at he
    cases he
    exact ⟨r, hr, Except.ok.inj hdone⟩

/-- What a step under the call lock of the worker keeps. -/
structure Locked (d : Discretion) (t v : ℕ) (w w' : World) : Prop where
  inv : Inv d w'
  lock : w'.lock v = some t
  onward : Onward d t w w'

theorem Locked.trans {w'' : World} (h : Locked d t v w w') (h' : Locked d t v w' w'') :
    Locked d t v w w'' :=
  ⟨h'.inv, h'.lock, h.onward.trans h'.onward⟩

theorem Rely.locked (h : Rely d t w w') (hi : Inv d w') (hl : w.lock v = some t) :
    Locked d t v w w' :=
  ⟨hi, h.lock hl, h.toOnward⟩

theorem wp_startup {o : ℕ} (hl : w.lock v = some t) :
    (ask (.startup o)).wp (rules n d t) (fun _ w' => Locked d t v w w') w := by
  refine wp_wait rfl fun w₁ hr hi => ⟨trivial, fun a w' e he _ => ?_⟩
  rw [startup_eq he]
  exact hr.locked hi hl

/-- A worker is started by the holder of its call lock, and gets one owner task at most. -/
theorem wp_start (hi : Inv d w) (hl : w.lock v = some t) (hu : d.exclusive = true → w.Uses t v) :
    (start v).wp (rules n d t) (fun _ w' => Locked d t v w w') w := by
  have here : Locked d t v w w := ⟨hi, hl, .refl t w⟩
  unfold start
  refine Prog.wp_bind (wp_now rfl hi trivial fun a w₁ e he _ => ?_)
  obtain ⟨rfl, x, hx, rfl⟩ := read_eq he
  refine ⟨fun y hy => ?_, fun e he => by cases he⟩
  cases hy
  split_ifs with hs
  · exact here
  refine Prog.wp_bind (Prog.wp_mono (fun r w₂ h => ?_) (wp_ownerIsOver hi hx))
  obtain ⟨rfl, hover, b, rfl⟩ := h
  refine ⟨fun b' hb => ?_, fun e he => by cases he⟩
  cases hb
  cases b with
  | true =>
    refine Prog.wp_bind (wp_now rfl hi ⟨hl, hover rfl, hu⟩ fun a w₃ e he hi₃ => ?_)
    obtain ⟨o, y, rfl, hy, ho, rfl⟩ := createOwner_eq he
    refine ⟨fun o' ho' => ?_, fun e he => by cases he⟩
    cases ho'
    have created : Locked d t v w₂ (w₂.createOwner v y o) :=
      ⟨hi₃, hl, .createOwner hi hy ho hu⟩
    exact Prog.wp_mono (fun r w' h => created.trans h) (wp_startup created.lock)
  | false =>
    cases hf : x.startupFuture with
    | none => exact here
    | some o => exact wp_startup hl

theorem wp_read (hi : Inv d w) : (ask (.read v)).wp (rules n d t)
    (fun r w' => w' = w ∧ ∃ x, w.worker v = some x ∧ r = .ok x) w := by
  refine wp_now rfl hi trivial fun a w' e he _ => ?_
  exact read_eq he

theorem wp_callSession {s : String} {args : Dict} {m : ℕ} (hi : Inv d w) (hl : w.lock v = some t) :
    (callSession v s args m).wp (rules n d t) (fun _ w' => Locked d t v w w') w := by
  have here : Locked d t v w w := ⟨hi, hl, .refl t w⟩
  unfold callSession
  refine Prog.wp_bind (Prog.wp_mono (fun r w₁ h => ?_) (wp_read hi))
  obtain ⟨rfl, x, -, rfl⟩ := h
  refine ⟨fun y hy => ?_, fun e he => by cases he⟩
  cases hy
  cases x.session with
  | none => exact here
  | some sn =>
    refine Prog.wp_bind (wp_wait rfl fun w₂ hr hi₂ => ⟨hr.lock hl, fun a w' e he _ => ?_⟩)
    rw [(answered_eq he).1]
    exact ⟨fun _ _ => hr.locked hi₂ hl, fun _ _ => hr.locked hi₂ hl⟩

theorem wp_callWorker {s : String} {args : Dict} {m : ℕ}
    (hu : d.exclusive = true → w.Uses t v) :
    (callWorker v s args m).wp (rules n d t) (fun _ w' => Inv d w' ∧ Onward d t w w') w := by
  unfold callWorker
  refine wp_withCallLock (J := fun _ w' => Onward d t w w') (fun w₁ hon hi hl => ?_)
    (fun r w' h => h.trans Same.setLock.onward) fun w₁ h => h
  have finish : ∀ w', Locked d t v w₁ w' → Inv d w' ∧ w'.lock v = some t ∧ Onward d t w w' :=
    fun w' h => ⟨h.inv, h.lock, hon.trans h.onward⟩
  refine Prog.wp_bind (Prog.wp_mono (fun r w₂ h => ?_) (wp_read hi))
  obtain ⟨rfl, x, -, rfl⟩ := h
  refine ⟨fun y hy => ?_, fun e he => by cases he⟩
  cases hy
  split_ifs with hs
  · refine Prog.wp_bind (Prog.wp_mono (fun r w₃ h => ?_)
      (wp_start hi hl fun hd => hon.uses hd (hu hd)))
    exact ⟨fun _ _ => Prog.wp_mono (fun r w' h' => finish w' (h.trans h'))
      (wp_callSession h.inv h.lock), fun _ _ => finish w₃ h⟩
  · exact Prog.wp_mono (fun r w' h => finish w' h) (wp_callSession hi hl)

/-- What closes a worker leaves it without an owner task, unless the wait for its call lock or for
that task is cancelled. -/
def Closed (d : Discretion) (t v : ℕ) (w : World) (r : Except Exn Unit) (w' : World) : Prop :=
  Onward d t w w' ∧ (r = .ok () ∧ w'.Over v ∨ r = .error .cancelled)

theorem wp_setShutdown {x : Worker} (hi : Inv d w) (hx : w.worker v = some x)
    (hl : w.lock v = some t) : (setShutdown x).wp (rules n d t) (fun r w' =>
      Locked d t v w w' ∧ w'.worker v = some x ∧ r = .ok ()) w := by
  unfold setShutdown
  cases x.shutdownEvent with
  | none => exact ⟨⟨hi, hl, .refl t w⟩, hx, rfl⟩
  | some o =>
    refine wp_now rfl hi trivial fun a w' e he hi' => ?_
    obtain ⟨r, hr, he⟩ := Option.map_eq_some_iff.1 he
    cases he
    have same : Same w (w.setOwner o { r with shutdown := true }) := .setOwner hr rfl rfl rfl
    exact ⟨⟨hi', hl, same.onward⟩, hx, rfl⟩

/-- When the owner task has been awaited nothing runs for the worker, and it is still its owner
task. -/
theorem wp_awaitOwner {x : Worker} (hi : Inv d w) (hx : w.worker v = some x)
    (hl : w.lock v = some t) : (awaitOwner x).wp (rules n d t) (fun r w' =>
      Locked d t v w w' ∧ w'.Over v ∧ (r = .ok () ∨ r = .error .cancelled)) w := by
  unfold awaitOwner
  cases ho : x.ownerTask with
  | none =>
    refine ⟨⟨hi, hl, .refl t w⟩, over_of_done hi hx fun o he => ?_, .inl rfl⟩
    rw [ho] at he
    cases he
  | some o =>
    refine wp_wait rfl fun w₁ hr hi₁ => ⟨trivial, fun a w' e he _ => ?_⟩
    obtain ⟨rfl, hdone, ha⟩ := join_eq he
    obtain ⟨x', hx', he⟩ := hr.held hl hx
    refine ⟨hr.locked hi₁ hl, over_of_done hi₁ hx' fun o' he' => ?_, ha⟩
    rw [he, ho] at he'
    cases he'
    exact hdone

theorem wp_closeWorker :
    (closeWorker v).wp (rules n d t) (fun r w' => Inv d w' ∧ Closed d t v w r w') w := by
  unfold closeWorker
  refine wp_withCallLock (J := Closed d t v w) (fun w₁ hon hi hl => ?_) (fun r w' h => ?_)
    fun w₁ h => ⟨h, .inr rfl⟩
  · have finish : ∀ {w' r}, Locked d t v w₁ w' → w'.Over v → (r = .ok () ∨ r = .error .cancelled) →
        Inv d w' ∧ w'.lock v = some t ∧ Closed d t v w r w' := fun h ho hr =>
      ⟨h.inv, h.lock, hon.trans h.onward, hr.imp_left fun he => ⟨he, ho⟩⟩
    refine Prog.wp_bind (Prog.wp_mono (fun r w₂ h => ?_) (wp_read hi))
    obtain ⟨rfl, x, hx, rfl⟩ := h
    refine ⟨fun y hy => ?_, fun e he => by cases he⟩
    cases hy
    refine Prog.wp_bind (Prog.wp_mono (fun r w₃ h => ?_) (wp_setShutdown hi hx hl))
    obtain ⟨hset, hx₃, rfl⟩ := h
    refine ⟨fun _ _ => ?_, fun e he => by cases he⟩
    refine Prog.wp_bind (Prog.wp_mono (fun r w₄ h => ?_) (wp_awaitOwner hset.inv hx₃ hset.lock))
    obtain ⟨hjoin, hover, hr⟩ := h
    have hjoined := hset.trans hjoin
    refine ⟨fun _ _ => ?_, fun e he => ?_⟩
    · refine Prog.wp_bind (Prog.wp_mono (fun r w₅ h => ?_) (wp_read hjoined.inv))
      obtain ⟨rfl, z, hz, rfl⟩ := h
      refine ⟨fun y hy => ?_, fun e he => by cases he⟩
      cases hy
      split_ifs with he
      · refine wp_now rfl hjoined.inv ⟨hjoined.lock, hover⟩ fun a w' e he hi' => ?_
        obtain ⟨rfl, u, hu, rfl⟩ := modifyWorker_eq he
        exact finish ⟨hi', hjoined.lock, hjoined.onward.trans (.setWorker hu rfl)⟩ hover (.inl rfl)
      · exact finish hjoined hover (.inl rfl)
    · subst he
      exact finish hjoined hover hr
  · obtain ⟨hon, ⟨rfl, hover⟩ | rfl⟩ := h
    · exact ⟨hon.trans Same.setLock.onward, .inl ⟨rfl, hover⟩⟩
    · exact ⟨hon.trans Same.setLock.onward, .inr rfl⟩

end Worker

/-! ## The manager -/

section Manager

variable {project : ProjectSpec} {p : String}

theorem Onward.projectOf (h : Onward d t w w') (hp : w.projectOf v = some p) :
    w'.projectOf v = some p := by
  obtain ⟨x, hx, he⟩ := Option.map_eq_some_iff.1 hp
  obtain ⟨x', hx', hp'⟩ := h.worker hx
  unfold World.projectOf
  rw [hx']
  have hid : x'.project.projectId = p := by
    rw [hp']
    exact he
  exact congrArg some hid

theorem isSome_of_projectOf (hp : w.projectOf v = some p) : (w.worker v).isSome = true := by
  obtain ⟨x, hx, -⟩ := Option.map_eq_some_iff.1 hp
  rw [hx]
  rfl

theorem wp_get (hi : Inv d w) :
    (ask (.get p)).wp (rules n d t) (fun r w' => w' = w ∧ r = .ok (w.mapped p)) w := by
  refine wp_now rfl hi trivial fun a w' e he _ => ?_
  cases he
  exact ⟨rfl, rfl⟩

/-- A worker that is taken out of the map. -/
theorem wp_pop (hi : Inv d w) (hm : w.mapped p = some v) :
    (ask (.pop p)).wp (rules n d t) (fun r w' => r = .ok () ∧ Inv d w' ∧ Onward d t w w' ∧
      w'.mapped p = none ∧ w'.Removed v) w := by
  refine wp_now rfl hi trivial fun a w' e he hi' => ?_
  obtain ⟨rfl, rfl⟩ := pop_eq he
  refine ⟨rfl, hi', .shrink mapped_of_pop, mapped_pop.trans (if_pos rfl), ?_⟩
  exact ⟨isSome_of_projectOf (hi.workers hm), not_inMap_pop hi hm⟩

/-- What has been found under the project: its worker, or none and the stale one. -/
structure Found (d : Discretion) (t : ℕ) (project : ProjectSpec) (w : World)
    (r : Option ℕ × Option ℕ) (w' : World) : Prop where
  inv : Inv d w'
  onward : Onward d t w w'
  mapped : w'.mapped project.projectId = r.1
  stale : ∀ s, r.2 = some s → w'.Removed s

theorem wp_lookUp (hi : Inv d w) : (lookUp project).wp (rules n d t)
    (fun r w' => ∃ a, r = .ok a ∧ Found d t project w a w') w := by
  have here : Onward d t w w := .refl t w
  unfold lookUp
  refine Prog.wp_bind (Prog.wp_mono (fun r w₁ h => ?_) (wp_get hi))
  obtain ⟨rfl, rfl⟩ := h
  refine ⟨fun found hf => ?_, fun e he => by cases he⟩
  cases hf
  cases hm : w₁.mapped project.projectId with
  | none => exact ⟨_, rfl, hi, here, hm, fun s hs => by cases hs⟩
  | some v =>
    refine Prog.wp_bind (Prog.wp_mono (fun r w₂ h => ?_) (wp_read hi))
    obtain ⟨rfl, x, -, rfl⟩ := h
    refine ⟨fun y hy => ?_, fun e he => by cases he⟩
    cases hy
    split_ifs with hp
    · exact ⟨_, rfl, hi, here, hm, fun s hs => by cases hs⟩
    · refine Prog.wp_bind (Prog.wp_mono (fun r w₃ h => ?_) (wp_pop hi hm))
      obtain ⟨rfl, hi₃, hon, hnone, hrem⟩ := h
      refine ⟨fun _ _ => ⟨_, rfl, hi₃, hon, hnone, fun s hs => ?_⟩, fun e he => by cases he⟩
      cases hs
      exact hrem

/-- The call has been handed the worker `v` of its project. -/
structure Given (d : Discretion) (t v : ℕ) (project : ProjectSpec) (w : World) : Prop where
  inv : Inv d w
  project : w.projectOf v = some project.projectId
  handed : ∃ h ∈ w.handed, h.task = t ∧ h.worker = v
  uses : d.exclusive = true → w.Uses t v

theorem wp_foundOrNew {found stale : Option ℕ} {w₀ : World}
    (h : Found d t project w₀ (found, stale) w) : (foundOrNew project found).wp (rules n d t)
      (fun r w' => ∃ v, r = .ok v ∧ Inv d w' ∧ Onward d t w w' ∧
        w'.mapped project.projectId = some v) w := by
  cases found with
  | some v => exact ⟨v, rfl, h.inv, .refl t w, h.mapped⟩
  | none =>
    refine wp_now rfl h.inv h.mapped fun a w' e he hi' => ?_
    obtain ⟨v, rfl, hv, rfl⟩ := create_eq he
    exact ⟨v, rfl, hi', .create hv, mapped_create.trans (if_pos rfl)⟩

theorem wp_closeStale {stale : Option ℕ} (hi : Inv d w) : (closeStale stale).wp (rules n d t)
    (fun r w' => Inv d w' ∧ Onward d t w w' ∧
      (r = .ok () ∧ (∀ s, stale = some s → w'.Over s) ∨ r = .error .cancelled)) w := by
  cases stale with
  | none => exact ⟨hi, .refl t w, .inl ⟨rfl, fun s hs => by cases hs⟩⟩
  | some s =>
    refine Prog.wp_mono (fun r w' h => ⟨h.1, h.2.1, h.2.2.imp_left fun hr => ⟨hr.1, ?_⟩⟩)
      wp_closeWorker
    intro s' hs
    cases hs
    exact hr.2

theorem wp_getWorker (hi : Inv d w) (hl : t ∉ w.left) : (getWorker project).wp (rules n d t)
    (fun r w' => Inv d w' ∧ Onward d t w w' ∧ (∀ v, r = .ok v → Given d t v project w') ∧
      ∀ e, r = .error e → e = .cancelled) w := by
  unfold getWorker
  refine Prog.wp_bind (Prog.wp_mono (fun r w₁ h => ?_) (wp_lookUp hi))
  obtain ⟨⟨found, stale⟩, rfl, hfound⟩ := h
  refine ⟨fun a ha => ?_, fun e he => by cases he⟩
  cases ha
  refine Prog.wp_bind (Prog.wp_mono (fun r w₂ h => ?_) (wp_foundOrNew hfound))
  obtain ⟨v, rfl, hi₂, hon₂, hm⟩ := h
  refine ⟨fun v' hv => ?_, fun e he => by cases he⟩
  cases hv
  refine Prog.wp_bind (wp_now rfl hi₂ ⟨_, hm⟩ fun a w₃ e he hi₃ => ?_)
  obtain ⟨rfl, hw₃⟩ := handed_eq he
  refine ⟨fun _ _ => ?_, fun e he => by cases he⟩
  have hmem : { task := t, worker := v, stale } ∈ w₃.handed := by
    rw [hw₃]
    exact List.mem_cons_self
  have hon₃ : Onward d t w₂ w₃ := by
    rw [hw₃]
    exact { Onward.refl t w₂ with handed := List.mem_cons_of_mem _ }
  have hon := (hfound.onward.trans hon₂).trans hon₃
  refine Prog.wp_bind (Prog.wp_mono (fun r w₄ h => ?_) (wp_closeStale hi₃))
  obtain ⟨hi₄, hon₄, ⟨rfl, hover⟩ | rfl⟩ := h
  · refine ⟨fun _ _ => ⟨hi₄, hon.trans hon₄, fun v' hv => ?_, fun e he => by cases he⟩,
      fun e he => by cases he⟩
    cases hv
    have hkept := hon₄.handed hmem
    refine ⟨hi₄, (hon₃.trans hon₄).projectOf (hi₂.workers hm), ⟨_, hkept, rfl, rfl⟩, fun _ => ?_⟩
    refine ⟨fun h => hl (hon.left (hon₄.left h)), _, hkept, rfl, rfl, fun s hs => ⟨?_, hover s hs⟩⟩
    exact hon₄.remains (hon₃.remains (hon₂.remains (hfound.stale s hs)))
  · refine ⟨fun _ ha => ?_, fun e he => ⟨hi₄, hon.trans hon₄, fun v' hv => ?_, fun e' he' => ?_⟩⟩
    · cases ha
    · cases hv
    · rw [← Except.error.inj he', ← Except.error.inj he]

/-- A worker that has been discarded is out of the map, and its process is over. -/
theorem wp_discard (hi : Inv d w) (hp : w.projectOf v = some p) :
    (discard p v).wp (rules n d t) (fun r w' => Inv d w' ∧ Onward d t w w' ∧
      (r = .ok () ∧ w'.Removed v ∧ w'.Over v ∨ r = .error .cancelled)) w := by
  have close : ∀ w₁, Onward d t w w₁ → w₁.Removed v → (closeWorker v).wp (rules n d t)
      (fun r w' => Inv d w' ∧ Onward d t w w' ∧
        (r = .ok () ∧ w'.Removed v ∧ w'.Over v ∨ r = .error .cancelled)) w₁ := fun w₁ hon hrem => by
    refine Prog.wp_mono (fun r w' h => ?_) wp_closeWorker
    obtain ⟨hi', hon', ⟨hr, hover⟩ | hr⟩ := h
    · exact ⟨hi', hon.trans hon', .inl ⟨hr, hon'.remains hrem, hover⟩⟩
    · exact ⟨hi', hon.trans hon', .inr hr⟩
  unfold discard
  refine Prog.wp_bind (Prog.wp_mono (fun r w₁ h => ?_) (wp_get hi))
  obtain ⟨rfl, rfl⟩ := h
  refine ⟨fun found hf => ?_, fun e he => by cases he⟩
  cases hf
  split_ifs with hm
  · refine Prog.wp_bind (Prog.wp_mono (fun r w₂ h => ?_) (wp_pop hi hm))
    obtain ⟨rfl, hi₂, hon, -, hrem⟩ := h
    exact ⟨fun _ _ => close w₂ hon hrem, fun e he => by cases he⟩
  · refine close w₁ (.refl t w₁) ⟨isSome_of_projectOf hp, ?_⟩
    rintro ⟨q, hq⟩
    have hqp : some q = some p := (hi.workers hq).symm.trans hp
    rw [Option.some.inj hqp] at hq
    exact hm hq

theorem wp_left (hi : Inv d w) (ht : t ∈ w.tasks) : (mark .left).wp (rules n d t)
    (fun r w' => r = .ok () ∧ Inv d w' ∧ w' = { w with left := t :: w.left }) w := by
  refine wp_now rfl hi ht fun a w' e he hi' => ?_
  cases he
  exact ⟨rfl, hi', rfl⟩

/-- A call of the manager that fails with a `BridgeError` has discarded its worker. -/
theorem wp_call {s : String} {args : Dict} {m : Option ℕ} {b : Bool} (hi : Inv d w)
    (ht : t ∈ w.tasks) (hl : t ∉ w.left) :
    (call n project s args m b).wp (rules n d t) (fun r w' => ∀ e, r = .error (.bridge e) →
      ∃ h ∈ w'.handed, h.task = t ∧ w'.Removed h.worker ∧ w'.Over h.worker) w := by
  unfold call
  refine (Prog.wp_andThen _ _ _).2 (Prog.wp_mono (fun r w₁ h => ?_) (wp_getWorker hi hl))
  obtain ⟨hi₁, hon₁, hok, herr⟩ := h
  cases r with
  | error e =>
    refine Prog.wp_bind (Prog.wp_mono (fun r w₂ h => ?_) (wp_left hi₁ (hon₁.tasks ht)))
    obtain ⟨rfl, -, -⟩ := h
    refine ⟨fun _ _ e' he' => ?_, fun e he => by cases he⟩
    rw [herr e rfl] at he'
    cases he'
  | ok v =>
    have given := hok v rfl
    refine Prog.wp_handle (Prog.wp_ensuring (Prog.wp_mono (fun r w₂ h => ?_)
      (wp_callWorker given.uses)))
    obtain ⟨hi₂, hon₂⟩ := h
    refine Prog.wp_mono (fun a w₃ h => ?_) (wp_left hi₂ (hon₂.tasks (hon₁.tasks ht)))
    obtain ⟨rfl, hi₃, rfl⟩ := h
    refine ⟨fun _ => ⟨fun a ha e he => ?_, fun e he => ?_⟩, fun e he => by cases he⟩
    · cases he
    · refine Prog.wp_bind (Prog.wp_mono (fun r w₄ h => ?_)
        (wp_discard hi₃ (hon₂.projectOf given.project)))
      obtain ⟨-, hon₄, ⟨rfl, hrem, hover⟩ | rfl⟩ := h
      · refine ⟨fun _ _ e' _ => ?_, fun e he => by cases he⟩
        obtain ⟨k, hk, hkt, hkv⟩ := given.handed
        subst hkv
        exact ⟨k, hon₄.handed (hon₂.handed hk), hkt, hrem, hover⟩
      · refine ⟨fun _ ha => ?_, fun e he e' he' => ?_⟩
        · cases ha
        · rw [← Except.error.inj he] at he'
          cases he'

end Manager

/-! ## The owner task -/

section Owner

/-- What an owner task of the worker `v` asks until it returns. -/
def OwnerAsks (v : ℕ) : Ask → Prop
  | .setSession u => u = v
  | .parameters _ | .enterStdio | .enterSession | .sessionInitialize | .startupDone | .setResult
  | .setException _ | .awaitShutdown | .exitSession | .exitStdio => True
  | _ => False

theorem asks_ownerBody : (ownerBody v).Asks (OwnerAsks v) := by
  have asked : ∀ {q}, OwnerAsks v q → (ask q).Asks (OwnerAsks v) := fun h => Prog.asks_ask h
  unfold ownerBody
  refine .bind (asked trivial) fun _ => .bind (asked trivial) fun _ => .ensuring ?_ (asked trivial)
  refine .bind (asked trivial) fun _ => .ensuring ?_ (asked trivial)
  refine .bind (asked trivial) fun _ => .bind (asked rfl) fun _ => .bind (asked trivial) fun b => ?_
  split_ifs
  · exact asked trivial
  · exact .bind (asked trivial) fun _ => asked trivial

/-- Task `t` is a running owner task of the worker `v`. -/
structure Serving (d : Discretion) (t v : ℕ) (w : World) : Prop where
  inv : Inv d w
  own : ∃ r, w.owner t = some r ∧ r.worker = v ∧ r.begun = true ∧ r.done = false

theorem Serving.running (h : Serving d t v w) :
    w.Running t v ∧ ∀ r, w.owner t = some r → r.begun = true := by
  obtain ⟨r, hr, hv, hb, hd⟩ := h.own
  refine ⟨⟨r, hr, hv, hd⟩, fun r' hr' => ?_⟩
  rw [hr] at hr'
  cases hr'
  exact hb

theorem Serving.rely (h : Serving d t v w) (hr : Rely d t w w') (hi : Inv d w') :
    Serving d t v w' := by
  obtain ⟨r, ho, hv, hb, hd⟩ := h.own
  obtain ⟨r', ho', hb', hd'⟩ := hr.own ho
  obtain ⟨r'', ho'', hv'', -⟩ := hr.owner ho
  rw [ho'] at ho''
  cases ho''
  exact ⟨hi, r', ho', hv''.trans hv, hb'.trans hb, hd'.trans hd⟩

theorem Serving.legal (h : Serving d t v w) {q : Ask} (hq : OwnerAsks v q) : Legal d t q w := by
  cases q with
  | setSession u =>
    cases hq
    exact h.running
  | mark m => exact hq.elim
  | _ => trivial

/-- What an owner task asks leaves it running. -/
theorem Serving.step (h : Serving d t v w) {q : Ask} (hq : OwnerAsks v q)
    (he : Effect d t w q w') : Serving d t v w' := by
  have hi := he.inv h.inv (h.legal hq)
  cases he with
  | same same locks =>
    obtain ⟨r, hr, hv, hb, hd⟩ := h.own
    obtain ⟨r', hr', hv', hb', hd'⟩ := same.owner? hr
    exact ⟨hi, r', hr', hv'.trans hv, hb'.trans hb, hd'.trans hd⟩
  | setSession known => exact ⟨hi, h.own⟩
  | _ => exact hq.elim

/-- No worker has the session of the task. -/
def Sessionless (t : ℕ) (w : World) : Prop := ∀ u x, w.worker u = some x → x.session ≠ some t

theorem wp_clearSession (h : Serving d t v w) : (ask (.clearSession v)).wp (rules n d t)
    (fun r w' => Serving d t v w' ∧ Sessionless t w' ∧ r = .ok ()) w := by
  refine wp_now rfl h.inv trivial fun a w' e he hi' => ?_
  obtain ⟨rfl, x, hx, rfl⟩ := modifyWorker_eq he
  refine ⟨⟨hi', h.own⟩, fun u y hy hs => ?_, rfl⟩
  -- a session of the task would be that of its own worker
  obtain ⟨⟨r, hr, hu, -⟩, -⟩ := hi'.session hy hs
  obtain ⟨r', hr', hv, -⟩ := h.own
  have hr : w.owner t = some r := hr
  rw [hr] at hr'
  cases hr'
  rw [← hu, hv, setWorker_self] at hy
  cases hy
  cases hs

theorem wp_ended (h : Serving d t v w) (hs : Sessionless t w) :
    (ask .ended).wp (rules n d t) (fun _ _ => True) w := by
  obtain ⟨r, hr, -, hb, -⟩ := h.own
  exact wp_now rfl h.inv ⟨r, hr, hb, hs⟩ fun _ _ _ _ _ => trivial

theorem wp_runOwner (h : Serving d t v w) : (runOwner v).wp (rules n d t)
    (fun _ w' => Serving d t v w' ∧ Sessionless t w') w := by
  have body : (Prog.handle (ownerBody v) fun e => some do
      unless ← ask .startupDone do
        ask (.setException e)).Asks (OwnerAsks v) := by
    refine .handle asks_ownerBody fun e y hy => ?_
    cases hy
    refine .bind (Prog.asks_ask trivial) fun b => ?_
    split_ifs
    · exact Prog.asks_pure ()
    · exact Prog.asks_ask trivial
  unfold runOwner
  refine Prog.wp_ensuring (Prog.wp_mono (fun r w₁ h₁ => ?_) (Prog.Asks.wp (J := Serving d t v)
    (fun _ _ _ => trivial) (fun {q w w₁} hq hj hb => ?_) body h))
  · refine Prog.wp_mono (fun a w₂ h₂ => ?_) (wp_clearSession h₁)
    exact ⟨fun _ => ⟨h₂.1, h₂.2.1⟩, fun _ _ => ⟨h₂.1, h₂.2.1⟩⟩
  · have hj₁ : Serving d t v w₁ := by
      cases hs : q.suspends with
      | false =>
        have hw : w₁ = w := by simpa [rules, Discipline.rules, manager, hs] using hb
        exact hw ▸ hj
      | true =>
        have hw : Rely d t w w₁ ∧ Inv d w₁ := by
          simpa [rules, Discipline.rules, manager, hs, discipline] using hb
        exact hj.rely hw.1 hw.2
    refine ⟨hj₁.legal hq, fun a w' ha => ?_⟩
    obtain ⟨⟨e, he⟩, -⟩ := ha
    exact hj₁.step hq (exec_effect he)

theorem wp_ownerTask (h : Serving d t v w) (hs : Sessionless t w) :
    (ownerTask v).wp (rules n d t) (fun _ _ => True) w := by
  unfold ownerTask
  refine (Prog.wp_andThen _ _ _).2 (wp_now rfl h.inv trivial fun a w₁ e he _ => ?_)
  obtain ⟨rfl, -⟩ := awaited_eq he
  cases a with
  | error e => exact wp_ended h hs
  | ok u =>
    refine (Prog.wp_andThen _ _ _).2 (Prog.wp_mono (fun r w₂ h₂ => ?_) (wp_runOwner h))
    exact wp_ended h₂.1 h₂.2

end Owner

/-! ## Every call -/

theorem wp_close (hi : Inv d w) : close.wp (rules n d t) (fun _ _ => True) w := by
  unfold close
  refine Prog.wp_bind (wp_now rfl hi trivial fun a w₁ e _ hi₁ =>
    ⟨fun vs _ => ?_, fun _ _ => trivial⟩)
  refine Prog.wp_bind (wp_now rfl hi₁ trivial fun a w₂ e _ _ => ⟨fun _ _ => ?_, fun _ _ => trivial⟩)
  exact wp_wait rfl fun _ _ _ => ⟨trivial, fun _ _ _ _ _ => trivial⟩

theorem wp_closingTask : (closingTask v).wp (rules n d t) (fun _ _ => True) w := by
  refine Prog.wp_ensuring (Prog.wp_mono (fun r w₁ h => ?_) wp_closeWorker)
  exact wp_now rfl h.1 trivial fun _ _ _ _ _ => ⟨fun _ => trivial, fun _ _ => trivial⟩

theorem starts : (discipline n d).Starts := by
  intro t c w w' hi _ ha
  have ha : arrive t c w = some w' := ha
  have hi' : Inv d w' := inv_arrive hi ha
  cases c with
  | call p s a m b =>
    obtain ⟨ht, rfl, -⟩ | ⟨v, r, he, -⟩ := arrive_cases ha
    · refine Prog.wp_map (Prog.wp_mono (fun r w₁ h e he => ?_) (wp_call hi' List.mem_cons_self
        fun hl => ht (hi.tasks.2 hl)))
      cases r with
      | ok a => cases he
      | error e' =>
        cases he
        exact h e rfl
    · cases he
  | close => exact Prog.wp_map (wp_close hi')
  | closing v => exact Prog.wp_map wp_closingTask
  | owner v =>
    obtain ⟨-, -, hne⟩ | ⟨u, r, he, hr, hv, hb, rfl⟩ := arrive_cases ha
    · exact absurd rfl (hne v)
    · cases he
      have hd : r.done = false := hi.begun hr hb
      refine Prog.wp_map (wp_ownerTask ⟨hi', _, setOwner_self, hv, rfl, hd⟩ ?_)
      intro u x hx hs
      have hbegun := (hi.session hx hs).2 r hr
      rw [hb] at hbegun
      cases hbegun

theorem inv_initial : Inv d {} where
  workers h := by cases h
  recorded h := by
    obtain ⟨r, hr, -⟩ := h
    cases hr
  session h := by cases h
  owners h := by cases h
  tasks := by
    constructor
    · intro o r h
      cases h
    · intro t h
      cases h
  begun h := by cases h
  serves _ h hh := by cases hh
  single _ h := by
    obtain ⟨r, hr, -⟩ := h
    cases hr

/-- In every pool that a run reaches the invariant holds, and every suspended task will end well. -/
theorem Reached.good {p} (h : Reached n d p) : (discipline n d).Good p :=
  Discipline.reachable starts inv_initial trivial h

end CodemcpBridge.Workers
