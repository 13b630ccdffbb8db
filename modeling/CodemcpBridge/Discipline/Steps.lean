import CodemcpBridge.Discipline.Instance

/-!
# Single questions under the discipline

The weakest preconditions of the questions that the services ask, in terms of what a task knows of
the world: `Live` says that the task is between two questions, `Ready` that it may start a
subprocess, and `Own` what a step of its own about one operation leaves.
-/

namespace CodemcpBridge

open Database (Sound Later SameOperations)
open Async (Prog)

variable {settings : PolicySettings} {d : Discretion} {t : ℕ} {w w' : World}

/-- The task is between two questions. -/
structure Live (d : Discretion) (t : ℕ) (w : World) : Prop where
  inv : Inv d w
  started : w.started = true
  called : t ∈ w.calls.map Prod.fst
  noProcess : w.noProcess t

/-- The task may start subprocesses: the operation whose body it is in is running. -/
structure Ready (d : Discretion) (t : ℕ) (w : World) : Prop extends Live d t w where
  running : ∀ o, w.current t = some o → w.inHand t o ∧ w.isRunning o

theorem Live.rely (h : Live d t w) (hr : Rely t w w') (hi : Inv d w') : Live d t w' := by
  refine ⟨hi, hr.started h.started, ?_, hr.noProcess h.noProcess⟩
  obtain ⟨c, hc, ht⟩ := List.mem_map.1 h.called
  exact List.mem_map.2 ⟨c, hr.calls c hc, ht⟩

theorem Ready.rely (h : Ready d t w) (hr : Rely t w w') (hi : Inv d w') : Ready d t w' := by
  refine ⟨h.toLive.rely hr hi, fun o ho => ?_⟩
  obtain ⟨hh, hrun⟩ := h.running o (hr.current ▸ ho)
  exact ⟨hr.inHand hh, hr.isRunning hh hrun⟩

/-- What others do touches nothing for this task. -/
theorem Rely.touched (h : Rely t w w') {o : String} (ho : w'.touched t o) : w.touched t o := by
  obtain ⟨new, hnew, hother⟩ := h.log
  obtain ⟨e, he, ht, hto⟩ := ho
  rw [hnew] at he
  rcases List.mem_append.1 he with he | he
  · exact absurd ht (hother e he).1
  · exact ⟨e, he, ht, hto⟩

/-! ## Asking -/

/-- The rules that a task of the Bridge runs under. -/
abbrev rules (settings : PolicySettings) (d : Discretion) (t : ℕ) :=
  (discipline settings d).rules t

/-- A question that does not suspend is answered at once. -/
theorem wp_step {q : Ask} {P : Except Exn q.Result → World → Prop} (hs : q.suspends = false)
    (hl : Legal t q w) (h : ∀ e a w', exec d t q w e = some (a, w') → Inv d w' → P a w')
    (hc : q.looksUp = true → Calm d w := by simp [Ask.looksUp]) :
    (Prog.ask q : Service q.Result).wp (rules settings d t) P w := by
  refine ⟨fun h => ?_, fun w₁ hb => ?_⟩
  · simp [bridge, hs] at h
  · have hw : w₁ = w := by
      simpa [Async.Discipline.rules, bridge, hs] using hb
    subst hw
    exact ⟨⟨hl, hc⟩, fun a w' ha => ha.1.elim fun e he => h e a w' he ha.2⟩

/-- A question that suspends is asked in a calm world and answered in a later one. -/
theorem wp_wait {q : Ask} {P : Except Exn q.Result → World → Prop} (hc : Calm d w)
    (hs : q.suspends = true)
    (hl : ∀ w₁, Rely t w w₁ → Inv d w₁ → Calm d w₁ → Legal t q w₁)
    (h : ∀ w₁ e a w', Rely t w w₁ → Inv d w₁ → Calm d w₁ → exec d t q w₁ e = some (a, w') →
      Inv d w' → P a w') :
    (Prog.ask q : Service q.Result).wp (rules settings d t) P w := by
  refine ⟨fun _ => hc, fun w₁ hb => ?_⟩
  have hb' : Rely t w w₁ ∧ Inv d w₁ ∧ Calm d w₁ := by
    simpa [Async.Discipline.rules, bridge, hs, discipline] using hb
  obtain ⟨hr, hi, hcalm⟩ := hb'
  exact ⟨⟨hl w₁ hr hi hcalm, fun _ => hcalm⟩, fun a w' ha => ha.1.elim fun e he =>
    h w₁ e a w' hr hi hcalm he ha.2⟩

/-- What the task keeps while it looks around: it stays ready, and only others act on operations. -/
structure Kept (d : Discretion) (t : ℕ) (w w' : World) : Prop where
  rely : Rely t w w'
  inv : Inv d w'
  calm : Calm d w → Calm d w'

theorem Kept.refl (hi : Inv d w) : Kept d t w w := ⟨.refl t w, hi, id⟩

theorem Kept.trans {w'' : World} (h : Kept d t w w') (h' : Kept d t w' w'') : Kept d t w w'' :=
  ⟨h.rely.trans h'.rely, h'.inv, fun hc => h'.calm (h.calm hc)⟩

theorem World.Keeps.kept (h : w.Keeps w') (hi : Inv d w') : Kept d t w w' :=
  ⟨h.rely t, hi, fun hc => hc.same h.db⟩

/-- A question that touches no operation. -/
theorem wp_quiet {q : Quiet} (hc : Calm d w) (ht : t ∈ w.calls.map Prod.fst) :
    (Service.quiet q).wp (rules settings d t) (fun _ w' => Kept d t w w' ∧ Calm d w') w := by
  have called : ∀ w₁, Rely t w w₁ → t ∈ w₁.calls.map Prod.fst := fun w₁ hr => by
    obtain ⟨c, hcm, htc⟩ := List.mem_map.1 ht
    exact List.mem_map.2 ⟨c, hr.calls c hcm, htc⟩
  cases hs : q.suspends with
  | false =>
    refine wp_step hs ⟨ht, trivial⟩ (fun e a w' he hi => ?_) fun _ => hc
    have hk := execQuiet_keeps he
    exact ⟨hk.kept hi, hc.same hk.db⟩
  | true =>
    refine wp_wait hc hs (fun w₁ hr _ _ => ⟨called w₁ hr, trivial⟩)
      fun w₁ e a w' hr hi hcalm he hi' => ?_
    have hk := execQuiet_keeps he
    exact ⟨⟨hr.trans (hk.rely t), hi', fun _ => hcalm.same hk.db⟩, hcalm.same hk.db⟩

/-- A store method that only reads. -/
theorem wp_read {c : StoreCall} {f : Database → c.Result}
    (hread : ∀ db st, c.run db st = .ok (f db, db)) (ht : t ∈ w.calls.map Prod.fst)
    {P : Except Exn c.Result → World → Prop} (hok : P (.ok (f w.db)) w)
    (herr : P (.error .other) w)
    (hc : Ask.looksUp (.quiet (.store c)) = true → Calm d w := by simp [Ask.looksUp]) :
    (Service.store c).wp (rules settings d t) P w := by
  refine wp_step rfl ⟨ht, trivial⟩ (fun e a w' he _ => ?_) hc
  simp only [exec, execQuiet, hread] at he
  split at he
  · cases he
    exact herr
  · cases he
    exact hok

/-- A fresh id. -/
theorem wp_uuid (ht : t ∈ w.calls.map Prod.fst) {P : Except Exn String → World → Prop}
    (h : ∀ id, isFresh w.db id = true → P (.ok id) w) :
    (Service.quiet .uuid).wp (rules settings d t) P w := by
  refine wp_step rfl ⟨ht, trivial⟩ fun e a w' he _ => ?_
  simp only [exec, execQuiet, drawn] at he
  split at he
  · split at he
    · cases he
      exact h _ ‹_›
    · cases he
  · cases he

/-- A fresh token. -/
theorem wp_token (ht : t ∈ w.calls.map Prod.fst) {P : Except Exn String → World → Prop}
    (h : ∀ id, isFresh w.db id = true → P (.ok id) w) :
    (Service.quiet .token).wp (rules settings d t) P w := by
  refine wp_step rfl ⟨ht, trivial⟩ fun e a w' he _ => ?_
  simp only [exec, execQuiet, drawn] at he
  split at he
  · split at he
    · cases he
      exact h _ ‹_›
    · cases he
  · cases he

/-- The clock. -/
theorem wp_now (ht : t ∈ w.calls.map Prod.fst) {P : Except Exn ℕ → World → Prop}
    (h : ∀ now, P (.ok now) w) : (Service.quiet .now).wp (rules settings d t) P w := by
  refine wp_step rfl ⟨ht, trivial⟩ fun e a w' he _ => ?_
  simp only [exec, execQuiet, certain] at he
  split at he
  · cases he
    exact h _
  · cases he

/-- A store method on operations. -/
theorem wp_operation {c : OperationCall} (hl : Legal t (.operation c) w)
    {P : Except Exn c.Result → World → Prop}
    (herr : ∀ st e, c.run w.db st = .error e → P (.error e) w)
    (hok : ∀ st a db', c.run w.db st = .ok (a, db') →
      Inv d ((w.note t (.done c) db').claim t (c.claims a)) →
      P (.ok a) ((w.note t (.done c) db').claim t (c.claims a))) :
    (Service.operation c).wp (rules settings d t) P w := by
  refine wp_step rfl hl fun e a w' he hi => ?_
  simp only [exec, execOperation, Option.some.injEq] at he
  split at he
  · rename_i hrun
    cases he
    exact herr _ _ hrun
  · rename_i hrun
    cases he
    exact hok _ _ _ hrun hi

/-- Passing a point. -/
theorem wp_mark {m : Mark} (hl : Legal t (.mark m) w) {P : Except Exn Unit → World → Prop}
    (h : ∀ e a, exec d t (.mark m) w e = some (a, execMark t m w) → a = .ok () →
      Inv d (execMark t m w) → P (.ok ()) (execMark t m w)) :
    (Service.mark m).wp (rules settings d t) P w := by
  refine wp_step rfl hl fun e a w' he hi => ?_
  have hw := exec_mark he
  subst hw
  have ha : a = .ok () := by
    cases m with
    | dropped o =>
      simp only [exec] at he
      split at he
      · cases he
      · cases he
        rfl
    | _ =>
      cases he
      rfl
  subst ha
  exact h e _ he rfl hi

/-- A tidy run leaves no operation behind, and one that crashes in good time none without a record.
-/
theorem wp_dropped {o : String} (hl : Legal t (.mark (.dropped o)) w)
    {P : Except Exn Unit → World → Prop}
    (h : ∀ w', d.tidy = false → Inv d w' → Calm d w' → w' = execMark t (.dropped o) w →
      P (.ok ()) w') :
    (Service.mark (.dropped o)).wp (rules settings d t) P w := by
  refine wp_mark hl fun e a he _ hi => ?_
  simp only [exec] at he
  split at he
  · cases he
  · rename_i hd
    simp only [Bool.or_eq_true, not_or, Bool.not_eq_true, Bool.and_eq_true, not_and,
      Bool.not_eq_false'] at hd
    have hd₂ : d.recorded = true → allRecorded w.db = true := hd.2
    exact h _ hd.1 hi hd₂ rfl

end CodemcpBridge
