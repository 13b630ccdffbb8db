import CodemcpBridge.Workers.Guarantee

/-!
# The answers of the worker manager

What an answer can do to the world, said once; from it that every answer keeps the invariant and
grants the other tasks what they count on, and what an answer tells its own task.
-/

namespace CodemcpBridge.Workers

/-- What an answer can do to the world. -/
inductive Effect (d : Discretion) (t : ℕ) (w : World) : Ask → World → Prop
  | same {q w'} (same : Same w w') (locks : w'.lock = w.lock) : Effect d t w q w'
  | acquire {v} (free : w.lock v = none) : Effect d t w (.acquire v) (w.setLock v (some t))
  | release {v} : Effect d t w (.release v) (w.setLock v none)
  | pop {p} (idle : d.exclusive = true → ∀ v, w.mapped p = some v → w.idle v = true) :
      Effect d t w (.pop p) (w.pop p)
  | takeAll (idle : d.exclusive = true → ∀ p v, w.mapped p = some v → w.idle v = true) :
      Effect d t w .takeAll { w with workers := [] }
  | create {project v} (fresh : w.worker v = none) :
      Effect d t w (.create project) (w.create v project)
  | createOwner {v x o} (known : w.worker v = some x) (fresh : o ∉ w.tasks) :
      Effect d t w (.createOwner v) (w.createOwner v x o)
  | forget {v x} (known : w.worker v = some x) : Effect d t w (.forget v) (w.setWorker v
      { x with session := none, ownerTask := none, startupFuture := none, shutdownEvent := none })
  | setSession {v x} (known : w.worker v = some x) :
      Effect d t w (.setSession v) (w.setWorker v { x with session := some t })
  | clearSession {v x} (known : w.worker v = some x) :
      Effect d t w (.clearSession v) (w.setWorker v { x with session := none })
  | ended {r} (known : w.owner t = some r) :
      Effect d t w .ended (w.setOwner t { r with done := true })
  | handed {v stale} (clear : d.exclusive = true → w.clear v stale = true) :
      Effect d t w (.mark (.handed v stale))
        { w with handed := { task := t, worker := v, stale } :: w.handed }
  | left : Effect d t w (.mark .left) { w with left := t :: w.left }

variable {d : Discretion} {t t' : ℕ} {w w' : World} {e : Choice} {q : Ask}

theorem Same.setLock {v : ℕ} {holder : Option ℕ} : Same w (w.setLock v holder) :=
  ⟨rfl, rfl, rfl, rfl, rfl, fun _ => rfl⟩

theorem Effect.refl : Effect d t w q w := .same (.refl w) rfl

/-! ## From the answers to their effects -/

section Inversion

variable {α : Type} {s ready : Bool} {v o : ℕ}

theorem answered_eq {r a : Except Exn α} (h : answered s w r = some (a, w')) : w' = w ∧ a = r := by
  unfold answered at h
  split at h
  · split at h <;> cases h
    exact ⟨rfl, rfl⟩
  · cases h
    exact ⟨rfl, rfl⟩

theorem awaited_eq {r a : Except Exn Unit} (h : awaited w ready r = some (a, w')) :
    w' = w ∧ (a = .ok () ∧ ready = true ∨ a = .error .cancelled) := by
  unfold awaited at h
  split at h
  · split at h <;> cases h
    exact ⟨rfl, .inl ⟨rfl, ‹_›⟩⟩
  · cases h
    exact ⟨rfl, .inr rfl⟩
  · cases h

theorem modifyOwner_eq {f : Owner → Owner} {a : Except Exn Unit}
    (h : w.modifyOwner o f = some (a, w')) : ∃ r, w.owner o = some r ∧ w' = w.setOwner o (f r) := by
  obtain ⟨r, hr, he⟩ := Option.map_eq_some_iff.1 h
  cases he
  exact ⟨r, hr, rfl⟩

theorem modifyWorker_eq {f : Worker → Worker} {a : Except Exn Unit}
    (h : w.modifyWorker v f = some (a, w')) :
    a = .ok () ∧ ∃ x, w.worker v = some x ∧ w' = w.setWorker v (f x) := by
  obtain ⟨x, hx, he⟩ := Option.map_eq_some_iff.1 h
  cases he
  exact ⟨rfl, x, hx, rfl⟩

/-- A lock is taken where it is free, or the wait for it is cancelled. -/
theorem acquire_eq {a : Except Exn Unit} (h : exec d t (.acquire v) w e = some (a, w')) :
    a = .ok () ∧ w.lock v = none ∧ w' = w.setLock v (some t) ∨ a = .error .cancelled ∧ w' = w := by
  simp only [exec] at h
  split at h
  · rename_i w₁ hw
    obtain ⟨rfl, ha⟩ := awaited_eq hw
    cases h
    rcases ha with ⟨-, hfree⟩ | ha
    · exact .inl ⟨rfl, Option.isNone_iff_eq_none.1 hfree, rfl⟩
    · cases ha
  · rename_i hno
    obtain ⟨rfl, ⟨rfl, -⟩ | rfl⟩ := awaited_eq h
    · exact absurd h (hno _)
    · exact .inr ⟨rfl, rfl⟩

theorem read_eq {a : Except Exn Worker} (h : exec d t (.read v) w e = some (a, w')) :
    w' = w ∧ ∃ x, w.worker v = some x ∧ a = .ok x := by
  obtain ⟨x, hx, he⟩ := Option.map_eq_some_iff.1 h
  cases he
  exact ⟨rfl, x, hx, rfl⟩

theorem isDone_eq {a : Except Exn Bool} (h : exec d t (.isDone o) w e = some (a, w')) :
    w' = w ∧ ∃ r, w.owner o = some r ∧ a = .ok r.done := by
  obtain ⟨r, hr, he⟩ := Option.map_eq_some_iff.1 h
  cases he
  exact ⟨rfl, r, hr, rfl⟩

theorem startup_eq {a : Except Exn Unit} (h : exec d t (.startup o) w e = some (a, w')) :
    w' = w := by
  simp only [exec] at h
  split at h
  · cases h
    rfl
  · obtain ⟨x, -, he⟩ := Option.map_eq_some_iff.1 h
    cases he
    rfl

/-- Whoever waits for an owner task goes on when it has returned. -/
theorem join_eq {a : Except Exn Unit} (h : exec d t (.join o) w e = some (a, w')) :
    w' = w ∧ (∃ r, w.owner o = some r ∧ r.done = true) ∧
      (a = .ok () ∨ a = .error .cancelled) := by
  simp only [exec] at h
  split at h
  · rename_i hdone
    obtain ⟨rfl, ha⟩ := awaited_eq h
    exact ⟨rfl, (Option.any_eq_true _ _).1 hdone, ha.imp_left And.left⟩
  · cases h

theorem pop_eq {p : String} {a : Except Exn Unit} (h : exec d t (.pop p) w e = some (a, w')) :
    a = .ok () ∧ w' = w.pop p := by
  simp only [exec] at h
  split at h <;> cases h
  exact ⟨rfl, rfl⟩

theorem create_eq {project : ProjectSpec} {a : Except Exn ℕ}
    (h : exec d t (.create project) w e = some (a, w')) :
    ∃ v, a = .ok v ∧ w.worker v = none ∧ w' = w.create v project := by
  simp only [exec] at h
  split at h
  · split at h <;> cases h
    exact ⟨_, rfl, Option.not_isSome_iff_eq_none.1 ‹_›, rfl⟩
  · cases h

theorem createOwner_eq {a : Except Exn ℕ} (h : exec d t (.createOwner v) w e = some (a, w')) :
    ∃ o x, a = .ok o ∧ w.worker v = some x ∧ o ∉ w.tasks ∧ w' = w.createOwner v x o := by
  simp only [exec] at h
  split at h
  · rename_i o x _ hx
    split at h <;> cases h
    exact ⟨o, x, rfl, hx, ‹_›, rfl⟩
  · cases h

theorem handed_eq {stale : Option ℕ} {a : Except Exn Unit}
    (h : exec d t (.mark (.handed v stale)) w e = some (a, w')) :
    a = .ok () ∧ w' = { w with handed := { task := t, worker := v, stale } :: w.handed } := by
  simp only [exec] at h
  split at h <;> cases h
  exact ⟨rfl, rfl⟩

end Inversion

theorem exec_effect {a : Except Exn q.Result} (h : exec d t q w e = some (a, w')) :
    Effect d t w q w' := by
  have calm : ∀ {w' : World}, w' = w → ∀ q, Effect d t w q w' := fun hw q => hw ▸ .refl
  have owner : ∀ {o : ℕ} {f : Owner → Owner} {a : Except Exn Unit} {w' : World},
      w.modifyOwner o f = some (a, w') →
      (∀ r, (f r).worker = r.worker ∧ (f r).begun = r.begun ∧ (f r).done = r.done) →
      ∀ q, Effect d t w q w' := fun h hf q => by
    obtain ⟨r, hr, rfl⟩ := modifyOwner_eq h
    exact .same (.setOwner hr (hf r).1 (hf r).2.1 (hf r).2.2) rfl
  cases q with
  | get p =>
    cases h
    exact .refl
  | pop p =>
    simp only [exec] at h
    split at h
    · cases h
    · rename_i hidle
      cases h
      refine .pop fun hd v hv => ?_
      simpa [hd, hv] using hidle
  | create project =>
    obtain ⟨v, -, hv, rfl⟩ := create_eq h
    exact .create hv
  | takeAll =>
    simp only [exec] at h
    split at h
    · cases h
    · rename_i hidle
      cases h
      refine .takeAll fun hd p v hv => ?_
      have hall : w.workers.all (fun x => w.idle x.2) = true := by simpa [hd] using hidle
      exact List.all_eq_true.1 hall _ (mem_values hv)
  | spawnClosing vs =>
    cases h
    exact .same ⟨rfl, rfl, rfl, rfl, rfl, fun _ => rfl⟩ rfl
  | gathered vs => exact calm (awaited_eq h).1 _
  | read v | isDone o | startupDone =>
    obtain ⟨x, -, he⟩ := Option.map_eq_some_iff.1 h
    cases he
    exact .refl
  | acquire v =>
    rcases acquire_eq h with ⟨-, hfree, rfl⟩ | ⟨-, rfl⟩
    · exact .acquire hfree
    · exact .refl
  | release v =>
    cases h
    exact .release
  | createOwner v =>
    obtain ⟨o, x, -, hx, ho, rfl⟩ := createOwner_eq h
    exact .createOwner hx ho
  | startup o => exact calm (startup_eq h) _
  | callTool v s n a timeout => exact calm (answered_eq h).1 _
  | setShutdown o | setResult | setException e => exact owner h (fun r => ⟨rfl, rfl, rfl⟩) _
  | join o => exact calm (join_eq h).1 _
  | forget v =>
    obtain ⟨-, x, hx, rfl⟩ := modifyWorker_eq h
    exact .forget hx
  | setSession v =>
    obtain ⟨-, x, hx, rfl⟩ := modifyWorker_eq h
    exact .setSession hx
  | clearSession v =>
    obtain ⟨-, x, hx, rfl⟩ := modifyWorker_eq h
    exact .clearSession hx
  | begin => exact calm (awaited_eq h).1 _
  | parameters v | enterStdio | enterSession | sessionInitialize | exitSession | exitStdio =>
    exact calm (answered_eq h).1 _
  | awaitShutdown =>
    simp only [exec] at h
    split at h
    · split at h <;> cases h
      exact .refl
    · cases h
      exact .refl
  | ended =>
    obtain ⟨r, hr, rfl⟩ := modifyOwner_eq h
    exact .ended hr
  | closed v =>
    cases h
    exact .same ⟨rfl, rfl, rfl, rfl, rfl, fun _ => rfl⟩ rfl
  | mark m =>
    cases m with
    | handed v stale =>
      simp only [exec] at h
      split at h
      · cases h
      · rename_i hclear
        cases h
        exact .handed fun hd => by simpa [hd] using hclear
    | left =>
      cases h
      exact .left

/-! ## What the effects keep -/

theorem Effect.inv (h : Effect d t w q w') (hi : Inv d w) (hl : Legal d t q w) : Inv d w' := by
  cases h with
  | same same locks => exact same.inv hi
  | acquire free | release => exact Same.setLock.inv hi
  | @pop p idle =>
    refine hi.shrink mapped_of_pop fun hd q v hq hn => ?_
    have hpop : (w.pop p).mapped q = none := hn
    rw [mapped_pop] at hpop
    split_ifs at hpop with he
    · exact idle hd v (he ▸ hq)
    · rw [hq] at hpop
      cases hpop
  | takeAll idle => exact hi.shrink (fun h => by cases h) fun hd p v hv _ => idle hd p v hv
  | create fresh => exact hi.create fresh hl
  | createOwner known fresh => exact hi.createOwner known fresh hl.2.1 hl.2.2
  | forget known =>
    refine hi.setWorker known rfl (fun o ho => absurd ho (hl.2 o)) ?_ ?_ <;> intro o ho <;> cases ho
  | @setSession v x known =>
    refine hi.setWorker known rfl (fun o ho => ?_) (fun o ho => ?_) fun o ho => hi.owners known ho
    · obtain ⟨y, hy, hrec⟩ := hi.recorded ho
      rw [known] at hy
      cases hy
      exact hrec
    · cases ho
      exact hl
  | @clearSession v x known =>
    refine hi.setWorker known rfl (fun o ho => ?_) (fun o ho => by cases ho)
      fun o ho => hi.owners known ho
    obtain ⟨y, hy, hrec⟩ := hi.recorded ho
    rw [known] at hy
    cases hy
    exact hrec
  | ended known =>
    obtain ⟨r, hr, hb, hs⟩ := hl
    rw [hr] at known
    cases known
    exact hi.done hr hb hs
  | handed clear => exact hi.handed hl clear
  | left => exact hi.left hl

theorem Effect.onward (h : Effect d t w q w') (hi : Inv d w) (hl : Legal d t q w)
    (ht : t' ≠ t ∨ q ≠ .mark .left) : Onward d t' w w' := by
  cases h with
  | same same locks => exact same.onward
  | acquire free | release => exact Same.setLock.onward
  | pop idle => exact .shrink mapped_of_pop
  | takeAll idle => exact .shrink fun h => by cases h
  | create fresh => exact .create fresh
  | createOwner known fresh => exact .createOwner hi known fresh hl.2.2
  | forget known | setSession known | clearSession known => exact .setWorker known rfl
  | ended known => exact .done known
  | handed clear => exact { Onward.refl t' w with handed := List.mem_cons_of_mem _ }
  | left =>
    refine { Onward.refl t' w with left := fun h => ?_ }
    rcases List.mem_cons.1 h with he | h
    · exact (ht.elim (fun hne => hne he) fun hne => hne rfl).elim
    · exact h

theorem Effect.rely (h : Effect d t w q w') (hi : Inv d w) (hl : Legal d t q w) (ht : t' ≠ t) :
    Rely d t' w w' := by
  have hon : Onward d t' w w' := h.onward hi hl (.inl ht)
  have other : ∀ {v u}, w.lock v = some t → w.lock u = some t' → u ≠ v := by
    rintro v u hv hu rfl
    exact ht (Option.some.inj (hu.symm.trans hv))
  -- where neither a lock nor the owner task of a locked worker changes
  have keep : w'.lock = w.lock → (∀ {v x}, w.lock v = some t' → w.worker v = some x →
      ∃ x', w'.worker v = some x' ∧ x'.ownerTask = x.ownerTask) →
      (∀ {r}, w.owner t' = some r →
        ∃ r', w'.owner t' = some r' ∧ r'.begun = r.begun ∧ r'.done = r.done) →
      Rely d t' w w' := fun hlock hheld hown =>
    { hon with lock := fun h => hlock ▸ h, held := hheld, own := hown }
  have owned : ∀ {v x u z y}, w.worker v = some x → w.worker u = some z →
      y.ownerTask = x.ownerTask →
        ∃ z', (w.setWorker v y).worker u = some z' ∧ z'.ownerTask = z.ownerTask := by
    intro v x u z y hx hz hy
    by_cases hu : u = v
    · subst hu
      rw [hx] at hz
      cases hz
      exact ⟨y, setWorker_self, hy⟩
    · exact ⟨z, (setWorker_ne hu).trans hz, rfl⟩
  cases h with
  | same same locks =>
    refine keep locks (fun _ hx => ⟨_, same.worker ▸ hx, rfl⟩) fun hr => ?_
    obtain ⟨r', hr', -, hb, hd⟩ := same.owner? hr
    exact ⟨r', hr', hb, hd⟩
  | @acquire v free =>
    refine { hon with lock := fun {u} hu => ?_, held := fun _ hx => ⟨_, hx, rfl⟩
                      own := fun hr => ⟨_, hr, rfl, rfl⟩ }
    refine (Function.update_of_ne ?_ _ _).trans hu
    rintro rfl
    rw [free] at hu
    cases hu
  | release =>
    refine { hon with lock := fun {u} hu => ?_, held := fun _ hx => ⟨_, hx, rfl⟩
                      own := fun hr => ⟨_, hr, rfl, rfl⟩ }
    exact (Function.update_of_ne (other hl hu) _ _).trans hu
  | pop idle | takeAll idle | handed clear | left =>
    exact keep rfl (fun _ hx => ⟨_, hx, rfl⟩) fun hr => ⟨_, hr, rfl, rfl⟩
  | create fresh =>
    refine keep rfl (fun {u x} _ hx => ⟨x, (setWorker_ne ?_).trans hx, rfl⟩) fun hr =>
      ⟨_, hr, rfl, rfl⟩
    rintro rfl
    rw [fresh] at hx
    cases hx
  | createOwner known fresh =>
    refine keep rfl (fun {u x} hu hx => ⟨x, (setWorker_ne (other hl.1 hu)).trans hx, rfl⟩)
      fun {r} hr => ⟨r, (setOwner_ne ?_).trans hr, rfl, rfl⟩
    rintro rfl
    exact fresh (hi.tasks.1 hr)
  | forget known =>
    exact keep rfl (fun {u x} hu hx => ⟨x, (setWorker_ne (other hl.1 hu)).trans hx, rfl⟩)
      fun hr => ⟨_, hr, rfl, rfl⟩
  | setSession known | clearSession known =>
    refine keep rfl (fun _ hx => owned known hx ?_) fun hr => ⟨_, hr, rfl, rfl⟩
    rfl
  | ended known => exact keep rfl (fun _ hx => ⟨_, hx, rfl⟩) fun {r} hr =>
      ⟨r, (setOwner_ne ht).trans hr, rfl, rfl⟩

end CodemcpBridge.Workers
