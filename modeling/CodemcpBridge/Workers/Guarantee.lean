import CodemcpBridge.Workers.Manager

/-!
# What the worker manager keeps

The invariant of the worker map, the workers and their owner tasks, what a call may count on while
others act, and where a question that changes something may be asked; every answer keeps the one and
grants the other.
-/

namespace CodemcpBridge.Workers

variable {d : Discretion} {t t' o v : ℕ} {w w' w'' : World} {p : String}

/-! ## What is said of a world -/

namespace World

/-- The owner task `o` of the worker `v` has not returned; only meanwhile does it have a process. -/
def Running (w : World) (o v : ℕ) : Prop := ∃ r, w.owner o = some r ∧ r.worker = v ∧ r.done = false

/-- No owner task of the worker runs. -/
def Over (w : World) (v : ℕ) : Prop := ∀ o, ¬ w.Running o v

def InMap (w : World) (v : ℕ) : Prop := ∃ p, w.mapped p = some v

def projectOf (w : World) (v : ℕ) : Option String := (w.worker v).map fun x => x.project.projectId

/-- The worker has been taken out of the map. -/
def Removed (w : World) (v : ℕ) : Prop := (w.worker v).isSome = true ∧ ¬ w.InMap v

/-- Nothing that lives on stands in the way of the call: its worker is in the map, and a process of
the project that is out of it is that of the stale worker. -/
def Serves (w : World) (h : Handed) : Prop :=
  w.InMap h.worker ∧ ∀ o v, w.Running o v → w.projectOf v = w.projectOf h.worker → ¬ w.InMap v →
    h.stale = some v

/-- The call has its worker, and the process of the stale one is gone. -/
def Uses (w : World) (t v : ℕ) : Prop :=
  t ∉ w.left ∧ ∃ h ∈ w.handed, h.task = t ∧ h.worker = v ∧
    ∀ s, h.stale = some s → w.Removed s ∧ w.Over s

end World

open World

structure Inv (d : Discretion) (w : World) : Prop where
  workers : ∀ {p v}, w.mapped p = some v → w.projectOf v = some p
  /-- A worker knows its running owner task. -/
  recorded : ∀ {o v}, w.Running o v →
    ∃ x, w.worker v = some x ∧ x.ownerTask = some o ∧ x.startupFuture = some o
  /-- A session is that of a running owner task. -/
  session : ∀ {v x o}, w.worker v = some x → x.session = some o →
    w.Running o v ∧ ∀ r, w.owner o = some r → r.begun = true
  owners : ∀ {v x o}, w.worker v = some x → x.ownerTask = some o →
    ∃ r, w.owner o = some r ∧ r.worker = v
  tasks : (∀ {o r}, w.owner o = some r → o ∈ w.tasks) ∧ ∀ {t}, t ∈ w.left → t ∈ w.tasks
  begun : ∀ {o r}, w.owner o = some r → r.begun = false → r.done = false
  serves : d.exclusive = true → ∀ h ∈ w.handed, h.task ∉ w.left → w.Serves h
  single : ∀ {o v o' v'}, d.exclusive = true → w.Running o v → w.Running o' v' →
    w.projectOf v = w.projectOf v' → v = v'

/-- What task `t` counts on, whoever acts. -/
structure Onward (d : Discretion) (t : ℕ) (w w' : World) : Prop where
  worker : ∀ {v x}, w.worker v = some x → ∃ x', w'.worker v = some x' ∧ x'.project = x.project
  removed : ∀ {v}, w.Removed v → ¬ w'.InMap v
  owner : ∀ {o r}, w.owner o = some r →
    ∃ r', w'.owner o = some r' ∧ r'.worker = r.worker ∧ (r.done = true → r'.done = true)
  /-- A worker that is out of the map gets no new owner task. -/
  stopped : ∀ {v}, d.exclusive = true → w.Removed v → w.Over v → w'.Over v
  tasks : ∀ {t}, t ∈ w.tasks → t ∈ w'.tasks
  handed : ∀ {h}, h ∈ w.handed → h ∈ w'.handed
  left : t ∈ w'.left → t ∈ w.left

/-- What task `t` counts on while others act. -/
structure Rely (d : Discretion) (t : ℕ) (w w' : World) : Prop extends Onward d t w w' where
  lock : ∀ {v}, w.lock v = some t → w'.lock v = some t
  /-- The owner task of a worker whose call lock it holds. -/
  held : ∀ {v x}, w.lock v = some t → w.worker v = some x →
    ∃ x', w'.worker v = some x' ∧ x'.ownerTask = x.ownerTask
  /-- Its own state, where it is an owner task. -/
  own : ∀ {r}, w.owner t = some r →
    ∃ r', w'.owner t = some r' ∧ r'.begun = r.begun ∧ r'.done = r.done

theorem Onward.refl (t : ℕ) (w : World) : Onward d t w w where
  worker h := ⟨_, h, rfl⟩
  removed h := h.2
  owner h := ⟨_, h, rfl, id⟩
  stopped _ _ h := h
  tasks h := h
  handed h := h
  left h := h

theorem Onward.isSome (h : Onward d t w w') (hv : (w.worker v).isSome = true) :
    (w'.worker v).isSome = true := by
  obtain ⟨x, hx⟩ := Option.isSome_iff_exists.1 hv
  obtain ⟨x', hx', -⟩ := h.worker hx
  rw [hx']
  rfl

theorem Onward.remains (h : Onward d t w w') (hv : w.Removed v) : w'.Removed v :=
  ⟨h.isSome hv.1, h.removed hv⟩

theorem Onward.trans (h : Onward d t w w') (h' : Onward d t w' w'') : Onward d t w w'' where
  worker hx := by
    obtain ⟨x', hx', he⟩ := h.worker hx
    obtain ⟨x'', hx'', he'⟩ := h'.worker hx'
    exact ⟨x'', hx'', he'.trans he⟩
  removed hv := h'.removed (h.remains hv)
  owner hr := by
    obtain ⟨r', hr', he, hd⟩ := h.owner hr
    obtain ⟨r'', hr'', he', hd'⟩ := h'.owner hr'
    exact ⟨r'', hr'', he'.trans he, fun hd₀ => hd' (hd hd₀)⟩
  stopped hd hv ho := h'.stopped hd (h.remains hv) (h.stopped hd hv ho)
  tasks ht := h'.tasks (h.tasks ht)
  handed hh := h'.handed (h.handed hh)
  left ht := h.left (h'.left ht)

theorem Rely.refl (t : ℕ) (w : World) : Rely d t w w where
  toOnward := .refl t w
  lock h := h
  held _ h := ⟨_, h, rfl⟩
  own h := ⟨_, h, rfl, rfl⟩

theorem Rely.trans (h : Rely d t w w') (h' : Rely d t w' w'') : Rely d t w w'' where
  toOnward := h.toOnward.trans h'.toOnward
  lock hv := h'.lock (h.lock hv)
  held hv hx := by
    obtain ⟨x', hx', he⟩ := h.held hv hx
    obtain ⟨x'', hx'', he'⟩ := h'.held (h.lock hv) hx'
    exact ⟨x'', hx'', he'.trans he⟩
  own hr := by
    obtain ⟨r', hr', hb, hd⟩ := h.own hr
    obtain ⟨r'', hr'', hb', hd'⟩ := h'.own hr'
    exact ⟨r'', hr'', hb'.trans hb, hd'.trans hd⟩

/-- In an exclusive run a call keeps its worker. -/
theorem Onward.uses (h : Onward d t w w') (hd : d.exclusive = true) (hu : w.Uses t v) :
    w'.Uses t v := by
  obtain ⟨hleft, k, hk, hkt, hkv, hs⟩ := hu
  refine ⟨fun hl => hleft (h.left hl), k, h.handed hk, hkt, hkv, fun s he => ?_⟩
  obtain ⟨hr, ho⟩ := hs s he
  exact ⟨h.remains hr, h.stopped hd hr ho⟩

/-- Where task `t` may ask a question that changes something. -/
def Legal (d : Discretion) (t : ℕ) : Ask → World → Prop
  | .release v, w | .callTool v .., w => w.lock v = some t
  | .create project, w => w.mapped project.projectId = none
  | .createOwner v, w => w.lock v = some t ∧ w.Over v ∧ (d.exclusive = true → w.Uses t v)
  | .forget v, w => w.lock v = some t ∧ w.Over v
  | .setSession v, w => w.Running t v ∧ ∀ r, w.owner t = some r → r.begun = true
  | .ended, w => ∃ r, w.owner t = some r ∧ r.begun = true ∧
      ∀ v x, w.worker v = some x → x.session ≠ some t
  | .mark (.handed v _), w => w.InMap v
  | .mark .left, w => t ∈ w.tasks
  | _, _ => True

/-! ## Answers that change little -/

/-- The map, the workers and the ghosts are as they were, and every owner task runs or not as it
did. -/
structure Same (w w' : World) : Prop where
  workers : w'.workers = w.workers
  worker : w'.worker = w.worker
  tasks : w'.tasks = w.tasks
  handed : w'.handed = w.handed
  left : w'.left = w.left
  owner : ∀ o, (w'.owner o).map (fun r => (r.worker, r.begun, r.done)) =
    (w.owner o).map fun r => (r.worker, r.begun, r.done)

theorem Same.refl (w : World) : Same w w := ⟨rfl, rfl, rfl, rfl, rfl, fun _ => rfl⟩

theorem Same.symm (h : Same w w') : Same w' w :=
  ⟨h.workers.symm, h.worker.symm, h.tasks.symm, h.handed.symm, h.left.symm,
    fun o => (h.owner o).symm⟩

theorem Same.mapped (h : Same w w') : w'.mapped p = w.mapped p := by
  unfold World.mapped
  rw [h.workers]

theorem Same.inMap (h : Same w w') : w'.InMap v ↔ w.InMap v := by
  unfold World.InMap
  simp only [h.mapped]

theorem Same.projectOf (h : Same w w') : w'.projectOf v = w.projectOf v := by
  unfold World.projectOf
  rw [h.worker]

theorem Same.owner? (h : Same w w') {r : Owner} (hr : w.owner o = some r) :
    ∃ r', w'.owner o = some r' ∧ r'.worker = r.worker ∧ r'.begun = r.begun ∧ r'.done = r.done := by
  have ho := h.owner o
  rw [hr] at ho
  obtain ⟨r', hr', he⟩ := Option.map_eq_some_iff.1 ho
  simp only [Prod.mk.injEq] at he
  exact ⟨r', hr', he⟩

theorem Same.running (h : Same w w') (hr : w.Running o v) : w'.Running o v := by
  obtain ⟨r, ho, hv, hd⟩ := hr
  obtain ⟨r', ho', hv', -, hd'⟩ := h.owner? ho
  exact ⟨r', ho', hv'.trans hv, hd'.trans hd⟩

theorem Same.inv (h : Same w w') (hi : Inv d w) : Inv d w' where
  workers hm := h.projectOf.trans (hi.workers (h.mapped ▸ hm))
  recorded hr := by
    obtain ⟨x, hx, he⟩ := hi.recorded (h.symm.running hr)
    exact ⟨x, h.worker ▸ hx, he⟩
  session hx hs := by
    obtain ⟨hr, hb⟩ := hi.session (h.worker ▸ hx) hs
    refine ⟨h.running hr, fun r ho => ?_⟩
    obtain ⟨r', ho', -, hb', -⟩ := h.symm.owner? ho
    exact hb'.symm.trans (hb r' ho')
  owners hx ho := by
    obtain ⟨r, hr, hv⟩ := hi.owners (h.worker ▸ hx) ho
    obtain ⟨r', hr', hv', -⟩ := h.owner? hr
    exact ⟨r', hr', hv'.trans hv⟩
  tasks := by
    refine ⟨fun hr => ?_, fun ht => h.tasks ▸ hi.tasks.2 (h.left ▸ ht)⟩
    obtain ⟨r', hr', -⟩ := h.symm.owner? hr
    exact h.tasks ▸ hi.tasks.1 hr'
  begun hr hb := by
    obtain ⟨r', hr', -, hb', hd'⟩ := h.symm.owner? hr
    exact hd'.symm.trans (hi.begun hr' (hb'.trans hb))
  serves hd k hk hl := by
    obtain ⟨hm, hs⟩ := hi.serves hd k (h.handed ▸ hk) (h.left ▸ hl)
    refine ⟨h.inMap.2 hm, fun o v hr hp hn => ?_⟩
    refine hs o v (h.symm.running hr) ?_ fun hm => hn (h.inMap.2 hm)
    rw [← h.projectOf, hp, h.projectOf]
  single hd hr hr' hp := by
    refine hi.single hd (h.symm.running hr) (h.symm.running hr') ?_
    rw [← h.projectOf, hp, h.projectOf]

theorem Same.onward (h : Same w w') : Onward d t w w' where
  worker hx := ⟨_, h.worker ▸ hx, rfl⟩
  removed hv hm := hv.2 (h.inMap.1 hm)
  owner hr := by
    obtain ⟨r', hr', hv, -, hd⟩ := h.owner? hr
    exact ⟨r', hr', hv, fun hd₀ => hd.trans hd₀⟩
  stopped _ _ ho o hr := ho o (h.symm.running hr)
  tasks ht := h.tasks ▸ ht
  handed hk := h.handed ▸ hk
  left ht := h.left ▸ ht

/-! ## The map -/

theorem lookup_filter_ne {p q : String} : ∀ l : List (String × ℕ),
    (l.filter fun x => x.1 ≠ p).lookup q = if q = p then none else l.lookup q
  | [] => by simp
  | (k, v) :: l => by
      have ih := lookup_filter_ne (p := p) (q := q) l
      by_cases hk : k = p
      · subst hk
        rw [List.filter_cons_of_neg (by simp), ih]
        by_cases hq : q = k
        · simp [hq]
        · simp [hq, List.lookup_cons, beq_false_of_ne hq]
      · rw [List.filter_cons_of_pos (by simpa using hk), List.lookup_cons, List.lookup_cons, ih]
        by_cases hq : q = k
        · subst hq
          simp [hk]
        · simp [beq_false_of_ne hq]

theorem mapped_pop {q : String} : (w.pop p).mapped q = if q = p then none else w.mapped q :=
  lookup_filter_ne w.workers

theorem mapped_of_pop {q : String} (h : (w.pop p).mapped q = some v) : w.mapped q = some v := by
  rw [mapped_pop] at h
  split_ifs at h
  exact h

theorem not_inMap_pop (hi : Inv d w) (hm : w.mapped p = some v) : ¬ (w.pop p).InMap v := by
  rintro ⟨q, hq⟩
  have he : some p = some q := (hi.workers hm).symm.trans (hi.workers (mapped_of_pop hq))
  rw [mapped_pop, if_pos (Option.some.inj he).symm] at hq
  cases hq

theorem mem_values (hm : w.mapped p = some v) : (p, v) ∈ w.workers := by
  obtain ⟨l₁, l₂, he, -⟩ := List.lookup_eq_some_iff.1 hm
  rw [he]
  exact List.mem_append_right _ List.mem_cons_self

theorem idle_iff : w.idle v = true ↔ ∀ h ∈ w.handed, h.worker = v → h.task ∈ w.left := by
  simp only [World.idle, List.all_eq_true, Bool.or_eq_true, decide_eq_true_eq, ne_eq,
    List.contains_iff_mem]
  exact forall_congr' fun h => imp_congr_right fun _ => by
    by_cases hv : h.worker = v <;> simp [hv]

/-- A map with fewer workers, of which none that is missing is used by a call. -/
theorem Inv.shrink {l : List (String × ℕ)} (hi : Inv d w)
    (hm : ∀ {p v}, l.lookup p = some v → w.mapped p = some v)
    (hidle : d.exclusive = true → ∀ {p v}, w.mapped p = some v → l.lookup p = none →
    w.idle v = true) :
    Inv d { w with workers := l } where
  workers h := hi.workers (hm h)
  recorded := hi.recorded
  session := hi.session
  owners := hi.owners
  tasks := hi.tasks
  begun := hi.begun
  serves hd h hh hl := by
    obtain ⟨⟨p, hp⟩, hs⟩ := hi.serves hd h hh hl
    have stays : l.lookup p = some h.worker := by
      cases he : l.lookup p with
      | none => exact absurd (idle_iff.1 (hidle hd hp he) h hh rfl) hl
      | some u => exact (hm he).symm.trans hp
    refine ⟨⟨p, stays⟩, fun o v hr he hn => hs o v hr he ?_⟩
    -- a worker of the project in the map is the one that the call uses
    rintro ⟨q, hq⟩
    have hpq : some q = some p := (hi.workers hq).symm.trans (he.trans (hi.workers hp))
    rw [Option.some.inj hpq, hp] at hq
    cases hq
    exact hn ⟨p, stays⟩
  single := hi.single

theorem Onward.shrink {l : List (String × ℕ)}
    (hm : ∀ {p v}, l.lookup p = some v → w.mapped p = some v) :
    Onward d t w { w with workers := l } where
  worker h := ⟨_, h, rfl⟩
  removed h hm' := h.2 (hm'.imp fun _ => hm)
  owner h := ⟨_, h, rfl, id⟩
  stopped _ _ h := h
  tasks h := h
  handed h := h
  left h := h

/-! ## One worker -/

section Worker

variable {x x' : Worker}

theorem setWorker_self : (w.setWorker v x).worker v = some x := Function.update_self ..

theorem setWorker_ne {u : ℕ} (h : u ≠ v) : (w.setWorker v x).worker u = w.worker u :=
  Function.update_of_ne h ..

theorem projectOf_setWorker (hx : w.worker v = some x) (hp : x'.project = x.project) {u : ℕ} :
    (w.setWorker v x').projectOf u = w.projectOf u := by
  unfold World.projectOf
  by_cases hu : u = v
  · subst hu
    rw [setWorker_self, hx]
    simp [hp]
  · rw [setWorker_ne hu]

theorem Inv.setWorker (hi : Inv d w) (hx : w.worker v = some x) (hp : x'.project = x.project)
    (recorded : ∀ o, w.Running o v → x'.ownerTask = some o ∧ x'.startupFuture = some o)
    (session : ∀ o, x'.session = some o →
      w.Running o v ∧ ∀ r, w.owner o = some r → r.begun = true)
    (owners : ∀ o, x'.ownerTask = some o → ∃ r, w.owner o = some r ∧ r.worker = v) :
    Inv d (w.setWorker v x') where
  workers h := (projectOf_setWorker hx hp).trans (hi.workers h)
  recorded {o u} hr := by
    by_cases hu : u = v
    · subst hu
      exact ⟨x', setWorker_self, recorded o hr⟩
    · rw [setWorker_ne hu]
      exact hi.recorded hr
  session {u y o} hy hs := by
    by_cases hu : u = v
    · subst hu
      rw [setWorker_self] at hy
      cases hy
      exact session o hs
    · rw [setWorker_ne hu] at hy
      exact hi.session hy hs
  owners {u y o} hy ho := by
    by_cases hu : u = v
    · subst hu
      rw [setWorker_self] at hy
      cases hy
      exact owners o ho
    · rw [setWorker_ne hu] at hy
      exact hi.owners hy ho
  tasks := hi.tasks
  begun := hi.begun
  serves hd h hh hl := by
    obtain ⟨hm, hs⟩ := hi.serves hd h hh hl
    refine ⟨hm, fun o u hr he hn => hs o u hr ?_ hn⟩
    rwa [projectOf_setWorker hx hp, projectOf_setWorker hx hp] at he
  single hd hr hr' he := by
    refine hi.single hd hr hr' ?_
    rwa [projectOf_setWorker hx hp, projectOf_setWorker hx hp] at he

theorem Onward.setWorker (hx : w.worker v = some x) (hp : x'.project = x.project) :
    Onward d t w (w.setWorker v x') where
  worker {u y} hy := by
    by_cases hu : u = v
    · subst hu
      refine ⟨x', setWorker_self, ?_⟩
      rw [hx] at hy
      cases hy
      exact hp
    · exact ⟨y, (setWorker_ne hu).trans hy, rfl⟩
  removed h := h.2
  owner h := ⟨_, h, rfl, id⟩
  stopped _ _ h := h
  tasks h := h
  handed h := h
  left h := h

end Worker

/-! ## One owner task -/

section Owner

variable {r r' : Owner}

theorem setOwner_self : (w.setOwner o r).owner o = some r := Function.update_self ..

theorem setOwner_ne {q : ℕ} (h : q ≠ o) : (w.setOwner o r).owner q = w.owner q :=
  Function.update_of_ne h ..

theorem Same.setOwner (hr : w.owner o = some r) (hw : r'.worker = r.worker)
    (hb : r'.begun = r.begun) (hd : r'.done = r.done) : Same w (w.setOwner o r') :=
  { Same.refl w with
    owner := fun q => by
      by_cases hq : q = o
      · subst hq
        rw [setOwner_self, hr]
        simp [hw, hb, hd]
      · rw [setOwner_ne hq] }

/-- What runs when an owner task has returned ran before. -/
theorem running_done {q : ℕ} (hr : w.owner o = some r)
    (h : (w.setOwner o { r with done := true }).Running q v) : w.Running q v ∧ q ≠ o := by
  obtain ⟨r', hr', hv, hd⟩ := h
  by_cases hq : q = o
  · subst hq
    rw [setOwner_self] at hr'
    cases hr'
    cases hd
  · rw [setOwner_ne hq] at hr'
    exact ⟨⟨r', hr', hv, hd⟩, hq⟩

theorem Inv.done (hi : Inv d w) (hr : w.owner o = some r) (hb : r.begun = true)
    (hs : ∀ v x, w.worker v = some x → x.session ≠ some o) :
    Inv d (w.setOwner o { r with done := true }) where
  workers := hi.workers
  recorded h := hi.recorded (running_done hr h).1
  session {v x q} hx he := by
    obtain ⟨⟨r', hr', hv, hd⟩, hbegun⟩ := hi.session hx he
    have hq : q ≠ o := fun hq => hs v x hx (hq ▸ he)
    refine ⟨⟨r', (setOwner_ne hq).trans hr', hv, hd⟩, fun r'' hr'' => hbegun r'' ?_⟩
    rwa [setOwner_ne hq] at hr''
  owners {v x q} hx he := by
    obtain ⟨r', hr', hv⟩ := hi.owners hx he
    by_cases hq : q = o
    · subst hq
      rw [hr] at hr'
      cases hr'
      exact ⟨_, setOwner_self, hv⟩
    · exact ⟨r', (setOwner_ne hq).trans hr', hv⟩
  tasks := by
    refine ⟨fun {q r'} hq => ?_, hi.tasks.2⟩
    by_cases ho : q = o
    · subst ho
      exact hi.tasks.1 hr
    · rw [setOwner_ne ho] at hq
      exact hi.tasks.1 hq
  begun {q r'} hq hb' := by
    by_cases ho : q = o
    · subst ho
      rw [setOwner_self] at hq
      cases hq
      exact absurd hb (Bool.eq_false_iff.1 hb')
    · rw [setOwner_ne ho] at hq
      exact hi.begun hq hb'
  serves hd h hh hl := by
    obtain ⟨hm, hs⟩ := hi.serves hd h hh hl
    exact ⟨hm, fun q v hq => hs q v (running_done hr hq).1⟩
  single hd h h' := hi.single hd (running_done hr h).1 (running_done hr h').1

theorem Onward.done (hr : w.owner o = some r) :
    Onward d t w (w.setOwner o { r with done := true }) where
  worker h := ⟨_, h, rfl⟩
  removed h := h.2
  owner {q r'} hq := by
    by_cases ho : q = o
    · subst ho
      rw [hr] at hq
      cases hq
      exact ⟨_, setOwner_self, rfl, fun _ => rfl⟩
    · exact ⟨r', (setOwner_ne ho).trans hq, rfl, id⟩
  stopped _ _ h q hq := h q (running_done hr hq).1
  tasks h := h
  handed h := h
  left h := h

end Owner

/-! ## What is created -/

section Create

variable {project : ProjectSpec} {x : Worker}

theorem mapped_create {q : String} :
    (w.create v project).mapped q = if q = project.projectId then some v else w.mapped q := by
  show List.lookup q ((project.projectId, v) :: (w.pop project.projectId).workers) = _
  rw [List.lookup_cons]
  by_cases hq : q = project.projectId
  · simp [hq]
  · rw [beq_false_of_ne hq, if_neg hq]
    exact mapped_pop.trans (if_neg hq)

theorem projectOf_create {u : ℕ} (hu : u ≠ v) : (w.create v project).projectOf u = w.projectOf u :=
  congrArg (Option.map _) (setWorker_ne hu)

theorem Inv.create (hi : Inv d w) (hv : w.worker v = none)
    (hm : w.mapped project.projectId = none) : Inv d (w.create v project) := by
  have old : ∀ {u}, (w.worker u).isSome = true → u ≠ v := fun hu he => by
    rw [he, hv] at hu
    cases hu
  have ran : ∀ {o u}, w.Running o u → u ≠ v := fun hr => by
    obtain ⟨x, hx, -⟩ := hi.recorded hr
    exact old (by rw [hx]; rfl)
  have stays : ∀ {q u}, w.mapped q = some u → (w.create v project).mapped q = some u := fun hq => by
    rw [mapped_create, if_neg]
    · exact hq
    · rintro rfl
      rw [hm] at hq
      cases hq
  have project_old : ∀ {u}, w.InMap u → u ≠ v := by
    rintro u ⟨q, hq⟩
    refine old ?_
    have hp := hi.workers hq
    unfold World.projectOf at hp
    obtain ⟨x, hx, -⟩ := Option.map_eq_some_iff.1 hp
    rw [hx]
    rfl
  exact
  { workers := fun {q u} hq => by
      rw [mapped_create] at hq
      split_ifs at hq with he
      · cases hq
        rw [he]
        exact congrArg (Option.map _) setWorker_self
      · rw [projectOf_create (project_old ⟨q, hq⟩)]
        exact hi.workers hq
    recorded := fun {o u} hr => by
      obtain ⟨x, hx, hr'⟩ := hi.recorded hr
      exact ⟨x, (setWorker_ne (ran hr)).trans hx, hr'⟩
    session := fun {u x o} hx hs => by
      by_cases hu : u = v
      · subst hu
        have hx : (w.setWorker u { project }).worker u = some x := hx
        rw [setWorker_self] at hx
        cases hx
        cases hs
      · have hx : (w.setWorker v { project }).worker u = some x := hx
        rw [setWorker_ne hu] at hx
        exact hi.session hx hs
    owners := fun {u x o} hx ho => by
      by_cases hu : u = v
      · subst hu
        have hx : (w.setWorker u { project }).worker u = some x := hx
        rw [setWorker_self] at hx
        cases hx
        cases ho
      · have hx : (w.setWorker v { project }).worker u = some x := hx
        rw [setWorker_ne hu] at hx
        exact hi.owners hx ho
    tasks := hi.tasks
    begun := hi.begun
    serves := fun hd h hh hl => by
      obtain ⟨⟨q, hq⟩, hs⟩ := hi.serves hd h hh hl
      refine ⟨⟨q, stays hq⟩, fun o u hr he hn => hs o u hr ?_ fun hu => hn ?_⟩
      · rwa [projectOf_create (ran hr), projectOf_create (project_old ⟨q, hq⟩)] at he
      · obtain ⟨q', hq'⟩ := hu
        exact ⟨q', stays hq'⟩
    single := fun hd hr hr' he => by
      rw [projectOf_create (ran hr), projectOf_create (ran hr')] at he
      exact hi.single hd hr hr' he }

theorem Onward.create (hv : w.worker v = none) : Onward d t w (w.create v project) where
  worker {u y} hy := by
    refine ⟨y, (setWorker_ne ?_).trans hy, rfl⟩
    rintro rfl
    rw [hv] at hy
    cases hy
  removed {u} hu := by
    rintro ⟨q, hq⟩
    rw [mapped_create] at hq
    split_ifs at hq with he
    · cases hq
      have hsome := hu.1
      rw [hv] at hsome
      cases hsome
    · exact hu.2 ⟨q, hq⟩
  owner h := ⟨_, h, rfl, id⟩
  stopped _ _ h := h
  tasks h := h
  handed h := h
  left h := h

/-- What runs when an owner task has been created ran before, or is that one. -/
theorem running_createOwner {q u : ℕ} (h : (w.createOwner v x o).Running q u) :
    (q = o ∧ u = v) ∨ (q ≠ o ∧ w.Running q u) := by
  obtain ⟨r, hr, hv, hd⟩ := h
  by_cases hq : q = o
  · subst hq
    have hr : (w.setOwner q { worker := v }).owner q = some r := hr
    rw [setOwner_self] at hr
    cases hr
    exact .inl ⟨rfl, hv.symm⟩
  · have hr : (w.setOwner o { worker := v }).owner q = some r := hr
    rw [setOwner_ne hq] at hr
    exact .inr ⟨hq, r, hr, hv, hd⟩

theorem projectOf_createOwner (hx : w.worker v = some x) {u : ℕ} :
    (w.createOwner v x o).projectOf u = w.projectOf u := by
  show (w.setWorker v { x with
    ownerTask := some o, startupFuture := some o, shutdownEvent := some o }).projectOf u = _
  apply projectOf_setWorker hx
  rfl

/-- What a call that uses a worker knows of every running owner task of the project. -/
theorem Inv.running_of_uses (hi : Inv d w) (hd : d.exclusive = true) (hu : w.Uses t v) {q u : ℕ}
    (hr : w.Running q u) (he : w.projectOf u = w.projectOf v) : u = v := by
  obtain ⟨hl, h, hh, rfl, rfl, hs⟩ := hu
  obtain ⟨⟨p, hp⟩, hserves⟩ := hi.serves hd h hh hl
  by_cases hm : w.InMap u
  · obtain ⟨p', hp'⟩ := hm
    have hpp : some p' = some p := (hi.workers hp').symm.trans (he.trans (hi.workers hp))
    rw [Option.some.inj hpp, hp] at hp'
    exact (Option.some.inj hp').symm
  · exact absurd hr ((hs u (hserves q u hr he hm)).2 q)

theorem Inv.inMap_of_uses (hi : Inv d w) (hd : d.exclusive = true) (hu : w.Uses t v) :
    w.InMap v := by
  obtain ⟨hl, h, hh, rfl, rfl, -⟩ := hu
  exact (hi.serves hd h hh hl).1

theorem Inv.createOwner (hi : Inv d w) (hx : w.worker v = some x) (ho : o ∉ w.tasks)
    (hover : w.Over v) (hu : d.exclusive = true → w.Uses t v) : Inv d (w.createOwner v x o) := by
  have hfresh : ∀ {q r}, w.owner q = some r → q ≠ o := by
    rintro q r hr rfl
    exact ho (hi.tasks.1 hr)
  have worker_ne : ∀ {u y}, u ≠ v → (w.createOwner v x o).worker u = some y →
      w.worker u = some y := fun hu hy => by
    have hy : ((w.setOwner o { worker := v }).setWorker v _).worker _ = some _ := hy
    rwa [setWorker_ne hu] at hy
  have worker_self : (w.createOwner v x o).worker v =
      some { x with ownerTask := some o, startupFuture := some o, shutdownEvent := some o } :=
    setWorker_self
  have owner_ne : ∀ {q r}, w.owner q = some r → (w.createOwner v x o).owner q = some r :=
    fun hr => (setOwner_ne (hfresh hr)).trans hr
  exact
  { workers := fun hm => (projectOf_createOwner hx).trans (hi.workers hm)
    recorded := fun {q u} hr => by
      rcases running_createOwner hr with ⟨rfl, rfl⟩ | ⟨-, hran⟩
      · exact ⟨_, worker_self, rfl, rfl⟩
      · obtain ⟨y, hy, hrec⟩ := hi.recorded hran
        refine ⟨y, (setWorker_ne ?_).trans hy, hrec⟩
        rintro rfl
        exact hover q hran
    session := fun {u y q} hy hs => by
      have hsession : ∃ z, w.worker u = some z ∧ z.session = some q := by
        by_cases hu : u = v
        · subst hu
          rw [worker_self] at hy
          cases hy
          exact ⟨x, hx, hs⟩
        · exact ⟨y, worker_ne hu hy, hs⟩
      obtain ⟨z, hz, hs⟩ := hsession
      obtain ⟨⟨r, hr, hv, hd⟩, hb⟩ := hi.session hz hs
      refine ⟨⟨r, owner_ne hr, hv, hd⟩, fun r' hr' => hb r' ?_⟩
      rw [owner_ne hr] at hr'
      rwa [← hr']
    owners := fun {u y q} hy hq => by
      by_cases hu : u = v
      · subst hu
        rw [worker_self] at hy
        cases hy
        cases hq
        exact ⟨_, setOwner_self, rfl⟩
      · obtain ⟨r, hr, hv⟩ := hi.owners (worker_ne hu hy) hq
        exact ⟨r, owner_ne hr, hv⟩
    tasks := by
      refine ⟨fun {q r} hr => ?_, fun ht => List.mem_cons_of_mem _ (hi.tasks.2 ht)⟩
      by_cases hq : q = o
      · exact hq ▸ List.mem_cons_self
      · have hr : (w.setOwner o { worker := v }).owner q = some r := hr
        rw [setOwner_ne hq] at hr
        exact List.mem_cons_of_mem _ (hi.tasks.1 hr)
    begun := fun {q r} hr hb => by
      by_cases hq : q = o
      · subst hq
        have hr : (w.setOwner q { worker := v }).owner q = some r := hr
        rw [setOwner_self] at hr
        cases hr
        rfl
      · have hr : (w.setOwner o { worker := v }).owner q = some r := hr
        rw [setOwner_ne hq] at hr
        exact hi.begun hr hb
    serves := fun hd h hh hl => by
      obtain ⟨hm, hs⟩ := hi.serves hd h hh hl
      refine ⟨hm, fun q u hr he hn => ?_⟩
      rw [projectOf_createOwner hx, projectOf_createOwner hx] at he
      rcases running_createOwner hr with ⟨rfl, rfl⟩ | ⟨-, hr⟩
      · exact absurd (hi.inMap_of_uses hd (hu hd)) hn
      · exact hs q u hr he hn
    single := fun {q u q' u'} hd hr hr' he => by
      rw [projectOf_createOwner hx, projectOf_createOwner hx] at he
      rcases running_createOwner hr with ⟨rfl, rfl⟩ | ⟨-, hold⟩
      · rcases running_createOwner hr' with ⟨-, rfl⟩ | ⟨-, hran⟩
        · rfl
        · exact (hi.running_of_uses hd (hu hd) hran he.symm).symm
      · rcases running_createOwner hr' with ⟨-, rfl⟩ | ⟨-, hran⟩
        · exact hi.running_of_uses hd (hu hd) hold he
        · exact hi.single hd hold hran he }

theorem Onward.createOwner (hi : Inv d w) (hx : w.worker v = some x) (ho : o ∉ w.tasks)
    (hu : d.exclusive = true → w.Uses t v) : Onward d t' w (w.createOwner v x o) where
  worker {u y} hy := by
    have hs : Onward d t' w (w.setWorker v { x with
        ownerTask := some o, startupFuture := some o, shutdownEvent := some o }) :=
      Onward.setWorker hx rfl
    exact hs.worker hy
  removed h := h.2
  owner {q r} hr := by
    refine ⟨r, (setOwner_ne ?_).trans hr, rfl, id⟩
    rintro rfl
    exact ho (hi.tasks.1 hr)
  stopped {u} hd hrem hover q hr := by
    rcases running_createOwner hr with ⟨rfl, rfl⟩ | ⟨-, hr⟩
    · exact hrem.2 (hi.inMap_of_uses hd (hu hd))
    · exact hover q hr
  tasks h := List.mem_cons_of_mem _ h
  handed h := h
  left h := h

end Create

/-! ## The ghosts -/

theorem not_lingering {stale : Option ℕ} (hi : Inv d w) (hc : w.clear v stale = true) {q u : ℕ}
    (hr : w.Running q u) (he : w.projectOf u = w.projectOf v) (hn : ¬ w.InMap u) :
    stale = some u := by
  obtain ⟨y, hy, -⟩ := hi.recorded hr
  obtain ⟨r, hq, rfl, hd⟩ := hr
  have hproject : w.projectOf v = some y.project.projectId := by
    rw [← he]
    unfold World.projectOf
    rw [hy]
    rfl
  obtain ⟨x, hx, hp⟩ := Option.map_eq_some_iff.1 hproject
  have hlingers : w.lingers x.project.projectId stale q = false := by
    simp only [World.clear, hx, Option.all_some, List.all_eq_true, Bool.not_eq_true'] at hc
    exact hc q (hi.tasks.1 hq)
  by_contra hs
  have hm : w.mapped x.project.projectId ≠ some r.worker := fun hm => hn ⟨_, hm⟩
  have hyes : w.lingers x.project.projectId stale q = true := by
    rw [hp] at hm ⊢
    simp [World.lingers, hq, hd, hs, hm, hy]
  rw [hyes] at hlingers
  cases hlingers

theorem Inv.handed {stale : Option ℕ} (hi : Inv d w) (hm : w.InMap v)
    (hc : d.exclusive = true → w.clear v stale = true) :
    Inv d { w with handed := { task := t, worker := v, stale } :: w.handed } where
  workers := hi.workers
  recorded := hi.recorded
  session := hi.session
  owners := hi.owners
  tasks := hi.tasks
  begun := hi.begun
  serves hd h hh hl := by
    rcases List.mem_cons.1 hh with rfl | hh
    · exact ⟨hm, fun q u hr he hn => not_lingering hi (hc hd) hr he hn⟩
    · exact hi.serves hd h hh hl
  single := hi.single

theorem Inv.left (hi : Inv d w) (ht : t ∈ w.tasks) : Inv d { w with left := t :: w.left } where
  workers := hi.workers
  recorded := hi.recorded
  session := hi.session
  owners := hi.owners
  tasks := by
    refine ⟨hi.tasks.1, fun {s} hs => ?_⟩
    rcases List.mem_cons.1 hs with rfl | hs
    · exact ht
    · exact hi.tasks.2 hs
  begun := hi.begun
  serves hd h hh hl := hi.serves hd h hh fun hs => hl (List.mem_cons_of_mem _ hs)
  single := hi.single

end CodemcpBridge.Workers
