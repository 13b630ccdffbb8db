import CodemcpBridge.Discipline.Steps

/-!
# Bodies under the discipline

Whatever a body does and however it ends, the process that carries it out keeps to the discipline:
between two acts no subprocess of the task is left that it waits for, and no operation is touched.
-/

namespace CodemcpBridge

open Async (Prog)

variable {settings : PolicySettings} {d : Discretion} {t : ℕ} {w w₁ w' w'' : World}

/-- The task has only looked around: it is where it was, in a later world. -/
structure Looked (d : Discretion) (t : ℕ) (w w' : World) : Prop where
  ready : Ready d t w'
  calm : Calm d w'
  rely : Rely t w w'

theorem Looked.refl (h : Ready d t w) (hc : Calm d w) : Looked d t w w := ⟨h, hc, .refl t w⟩

theorem Looked.trans (h : Looked d t w w₁) (h' : Looked d t w₁ w') : Looked d t w w' :=
  ⟨h'.ready, h'.calm, h.rely.trans h'.rely⟩

theorem wp_quiet_looked {q : Quiet} (h : Ready d t w) (hc : Calm d w) :
    (Service.quiet q).wp (rules settings d t) (fun _ w' => Looked d t w w') w :=
  Prog.wp_mono (fun _ _ ⟨hk, hc'⟩ => ⟨h.rely hk.rely hk.inv, hc', hk.rely⟩)
    (wp_quiet hc h.called)

/-! ## Waiting for a subprocess -/

/-- The task waits for the subprocess `h` that it has started in `w`. -/
structure Waiting (d : Discretion) (t : ℕ) (w : World) (h : ℕ) (w' : World) : Prop where
  rely : Rely t (w.addProcess t h) w'
  inv : Inv d w'
  calm : Calm d w'

namespace Waiting

variable {h : ℕ}

theorem later (hw : Waiting d t w h w') (hr : Rely t w' w'') (hi : Inv d w'') (hc : Calm d w'') :
    Waiting d t w h w'' :=
  ⟨hw.rely.trans hr, hi, hc⟩

/-- Nobody else has a subprocess of this handle. -/
theorem handle (hw : Waiting d t w h w') : ∀ p ∈ w'.processes, p.handle = h → p.task = t := by
  intro p hp hh
  have hown : { handle := h, task := t, operation := w.current t, attached := true } ∈
      w'.processes := (hw.rely.processes _ rfl rfl).2 List.mem_cons_self
  rw [List.inj_on_of_nodup_map hw.inv.handles hp hown hh]

/-- The task waits for no other subprocess. -/
theorem only (hr : Ready d t w) (hw : Waiting d t w h w') :
    ∀ p ∈ w'.processes, p.task = t → p.attached = true → p.handle = h := by
  intro p hp ht ha
  rcases List.mem_cons.1 ((hw.rely.processes p ht ha).1 hp) with rfl | hp
  · rfl
  · simp [hr.noProcess p hp ht] at ha

theorem called (hr : Ready d t w) (hw : Waiting d t w h w') : t ∈ w'.calls.map Prod.fst := by
  obtain ⟨c, hc, ht⟩ := List.mem_map.1 hr.called
  exact List.mem_map.2 ⟨c, hw.rely.calls c hc, ht⟩

/-- The wait is over when the task has no subprocess left that it waits for. -/
theorem waited (hr : Ready d t w) (hw : Waiting d t w h w') {ps : List Process}
    (hn : ({ w' with processes := ps } : World).noProcess t)
    (hi : Inv d { w' with processes := ps }) : Looked d t w { w' with processes := ps } := by
  have rely : Rely t w { w' with processes := ps } :=
    { started := hw.rely.started
      hand := hw.rely.hand
      later := hw.rely.later
      log := hw.rely.log
      current := hw.rely.current
      processes := fun p hp ha => ⟨fun hm => by simp [hn p hm hp] at ha,
        fun hm => by simp [hr.noProcess p hm hp] at ha⟩
      calls := hw.rely.calls }
  exact ⟨hr.rely rely hi, hw.calm.same (.refl _), rely⟩

end Waiting

/-- Starting a subprocess. -/
theorem wp_spawn {i : Invocation} (hr : Ready d t w) (hc : Calm d w) :
    (Prog.ask (Ask.spawn i) : Service ℕ).wp (rules settings d t) (fun r w' =>
      (∀ h, r = .ok h → ∃ w₁, Looked d t w w₁ ∧ Waiting d t w₁ h w') ∧
      ∀ e, r = .error e → Looked d t w w') w := by
  refine wp_wait hc rfl (fun w₁ hrel hi _ => ?_) fun w₁ e a w' hrel hi hcalm he hi' => ?_
  · have hr₁ := hr.rely hrel hi
    exact ⟨hr₁.called, hr₁.started, fun o ho => ⟨(hr₁.running o ho).1.1, (hr₁.running o ho).2⟩⟩
  · have hl : Looked d t w w₁ := ⟨hr.rely hrel hi, hcalm, hrel⟩
    simp only [exec] at he
    split at he
    · split at he
      · cases he
      · cases he
        refine ⟨fun h heq => ⟨w₁, hl, ?_⟩, fun e heq => by cases heq⟩
        cases heq
        exact ⟨.refl _ _, hi', hcalm.same (.refl _)⟩
    · rename_i hne
      cases he
      refine ⟨fun h heq => absurd heq (hne h), fun _ _ => hl⟩

/-- The answer to a wait: the subprocess is gone or left behind, or its time is up. -/
theorem over_of_execWait {α : Type} {h : ℕ} {r a : Except Exn α} (hr : Ready d t w)
    (hw : Waiting d t w h w') (he : execWait d w' h r = some (a, w'')) (hi : Inv d w'') :
    (a ≠ .error .timeoutError ∧ Looked d t w w'') ∨ (a = .error .timeoutError ∧ w'' = w') := by
  unfold execWait at he
  split at he
  · cases he
    refine .inl ⟨by simp, hw.waited hr (fun p hp ht => ?_) hi⟩
    obtain ⟨hp, hne⟩ := List.mem_filter.1 hp
    by_contra ha
    exact absurd (hw.only hr p hp ht (by simpa using ha)) (by simpa using hne)
  · cases he
    exact .inr ⟨rfl, rfl⟩
  · split at he
    · cases he
    · cases he
      refine .inl ⟨by simp, hw.waited hr (fun p hp ht => ?_) hi⟩
      obtain ⟨q, hq, rfl⟩ := List.mem_map.1 hp
      split_ifs at ht ⊢ with hh
      · rfl
      · by_contra ha
        exact hh (hw.only hr q hq ht (by simpa using ha))
  · cases he

theorem wp_communicate {h : ℕ} {s : PyFloat} (hr : Ready d t w₁) (hw : Waiting d t w₁ h w) :
    (Prog.ask (Ask.communicate h s) : Service Completed).wp (rules settings d t) (fun r w' =>
      (r ≠ .error .timeoutError ∧ Looked d t w₁ w') ∨
        (r = .error .timeoutError ∧ Waiting d t w₁ h w')) w := by
  refine wp_wait hw.calm rfl (fun w₂ hrel hi hc => ?_) fun w₂ e a w' hrel hi hc he hi' => ?_
  · exact ⟨(hw.later hrel hi hc).called hr, (hw.later hrel hi hc).handle⟩
  · rcases over_of_execWait hr (hw.later hrel hi hc) he hi' with h | ⟨rfl, rfl⟩
    · exact .inl h
    · exact .inr ⟨rfl, hw.later hrel hi hc⟩

theorem wp_terminate {h : ℕ} (hr : Ready d t w₁) (hw : Waiting d t w₁ h w) :
    (Prog.ask (Ask.terminate h) : Service Unit).wp (rules settings d t) (fun _ w' =>
      Looked d t w₁ w') w := by
  refine wp_wait hw.calm rfl (fun w₂ hrel hi hc => ?_) fun w₂ e a w' hrel hi hc he hi' => ?_
  · exact ⟨(hw.later hrel hi hc).called hr, (hw.later hrel hi hc).handle⟩
  · simp only [exec] at he
    split at he
    · cases he
    · rename_i hne
      rcases over_of_execWait hr (hw.later hrel hi hc) he hi' with h | ⟨rfl, rfl⟩
      · exact h.2
      · cases ha : e.answer (.terminate h) with
        | ok a => simp [execWait, ha] at he
        | error x => cases x <;> simp_all [execWait]

/-! ## Acts -/

theorem wp_runGit {root : String} {arguments : List String} (hr : Ready d t w) (hc : Calm d w) :
    (runGit root arguments).wp (rules settings d t) (fun _ w' => Looked d t w w') w := by
  unfold runGit
  refine Prog.wp_bind (Prog.wp_handle (Prog.wp_mono (fun r w' hsp => ⟨?_, ?_⟩)
    (wp_spawn hr hc)))
  · rintro h rfl
    obtain ⟨w₁, hl, hw⟩ := hsp.1 h rfl
    refine ⟨?_, by simp⟩
    rintro _ ⟨⟩
    refine Prog.wp_bind_of (J := Looked d t w) (Prog.wp_handle (Prog.wp_mono
      (fun r w' hcom => ⟨?_, ?_⟩) (wp_communicate hl.ready hw))) ?_ fun e w' hJ => hJ
    · rintro c rfl
      exact hcom.elim (fun h => hl.trans h.2) fun h => by cases h.1
    · rintro e rfl
      rcases hcom with ⟨hne, hcom⟩ | ⟨⟨⟩, hw'⟩
      · split
        · exact absurd rfl hne
        · exact hl.trans hcom
      · exact Prog.wp_bind_of (J := Looked d t w)
          (Prog.wp_mono (fun _ _ h => hl.trans h) (wp_terminate hl.ready hw'))
          (fun _ _ hJ => hJ) fun _ _ hJ => hJ
    · intro c w' hJ
      dsimp only
      split_ifs <;> exact hJ
  · rintro e rfl
    have hl := hsp.2 e rfl
    split_ifs <;> exact ⟨by simp, fun _ _ => hl⟩

theorem wp_awaitCommand {command : CommandSpec} {h : ℕ} (hr : Ready d t w₁)
    (hw : Waiting d t w₁ h w) : (awaitCommand settings command h).wp (rules settings d t)
      (fun _ w' => Looked d t w₁ w') w := by
  refine (Prog.wp_andThen _ _ _).2 (Prog.wp_mono (fun r w' hcom => ?_) (wp_communicate hr hw))
  rcases hcom with ⟨hne, hcom⟩ | ⟨rfl, hw'⟩
  · split
    · exact hcom
    · exact absurd rfl hne
    · exact hcom
  · exact Prog.wp_bind_of (J := Looked d t w₁) (wp_terminate hr hw') (fun _ _ hJ => hJ)
      fun _ _ hJ => hJ

theorem wp_invocation {project : ProjectSpec} {command : CommandSpec} (hr : Ready d t w)
    (hc : Calm d w) : (Prog.ask (Ask.invocation project command) : Service Invocation).wp
      (rules settings d t) (fun _ w' => Looked d t w w') w := by
  refine wp_step rfl ⟨hr.called, trivial⟩ fun e a w' he hi => ?_
  have hk := answered_keeps he
  exact ⟨hr.rely (hk.rely t) hi, hc.same hk.db, hk.rely t⟩

theorem wp_runCommand {project : ProjectSpec} {command : CommandSpec} (hr : Ready d t w)
    (hc : Calm d w) : (runCommand settings project command).wp (rules settings d t)
      (fun _ w' => Looked d t w w') w := by
  refine Prog.wp_bind_of (J := Looked d t w) (wp_invocation hr hc) (fun i w₁ hl => ?_)
    fun _ _ hJ => hJ
  refine (Prog.wp_andThen _ _ _).2 (Prog.wp_mono (fun r w' hsp => ?_)
    (wp_spawn hl.ready hl.calm))
  split
  · obtain ⟨w₂, hl₂, hw⟩ := hsp.1 _ rfl
    exact Prog.wp_mono (fun _ _ h => (hl.trans hl₂).trans h) (wp_awaitCommand hl₂.ready hw)
  · have hl₂ := hl.trans (hsp.2 _ rfl)
    split_ifs <;> exact hl₂

/-- Whatever a body does, the task only looks around. -/
theorem wp_carry {α : Type} {x : Body α} (hr : Ready d t w) (hc : Calm d w) :
    (carry settings x).wp (rules settings d t) (fun _ w' => Looked d t w w') w := by
  refine Prog.wp_via (fun a w₁ hl => ?_) (Looked.refl hr hc)
  have act : (perform settings a).wp (rules settings d t) (fun _ w' => Looked d t w₁ w') w₁ := by
    cases a with
    | quiet q => exact wp_quiet_looked hl.ready hl.calm
    | git root arguments => exact wp_runGit hl.ready hl.calm
    | command project command => exact wp_runCommand hl.ready hl.calm
  exact Prog.wp_mono (fun _ _ h => hl.trans h) act

end CodemcpBridge
