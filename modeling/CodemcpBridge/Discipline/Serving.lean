import CodemcpBridge.Discipline.Confirming

/-!
# Every call under the discipline

Reconciling acts on an operation that is settled for its own call already, so it takes nothing out
of anybody's hand.  With that every program of the public surface obeys the discipline, and `good`
is its adequacy theorem: what holds in every pool that any run of the process reaches.
-/

namespace CodemcpBridge

open Database (Sound Later SameOperations)
open Async (Prog Machine)

variable {settings : PolicySettings} {d : Discretion} {t : ℕ} {o x : String}
  {w w₀ w' w'' : World}

/-! ## Reconciling -/

theorem wp_requireOperationForReconcile {env : Env} {s : String} (hr : Ready d t w)
    (hc : Calm d w) :
    (requireOperationForReconcile env o s).wp (rules env.settings d t) (fun r w' =>
      Looked d t w w' ∧ ∀ row, r = .ok row → w'.db.operation? o = some row) w := by
  unfold requireOperationForReconcile
  refine Prog.wp_bind (Prog.wp_mono (fun _ w₁ hl => ⟨fun _ _ => ?_, fun _ _ => ⟨hl, by simp⟩⟩)
    (wp_carry hr hc))
  refine Prog.wp_bind (Prog.wp_mono (fun res w₂ hrec => ?_) (wp_operationRecord hl.ready.called))
  obtain ⟨rfl, hrow⟩ := hrec
  refine ⟨fun row h => ?_, fun e _ => ⟨hl, by simp⟩⟩
  have hrow := hrow row h
  have called := hl.ready.called
  have no : ∀ e : Exn, Looked d t w w₂ ∧ ∀ row, (.error e : Except Exn OperationRecord) = .ok row →
      w₂.db.operation? o = some row := fun e => ⟨hl, fun _ h => by cases h⟩
  have yes : Looked d t w w₂ ∧ ∀ row', (.ok row : Except Exn OperationRecord) = .ok row' →
      w₂.db.operation? o = some row' := ⟨hl, fun _ h => by cases h; exact hrow⟩
  split
  · exact no _
  · refine Prog.wp_bind (Prog.wp_mono (fun res w₃ hact => ?_) (wp_requireActive called))
    obtain ⟨rfl, -⟩ := hact
    refine ⟨fun successor _ => ?_, fun _ _ => no _⟩
    split
    · exact yes
    · split
      · exact no _
      · split
        · exact no _
        · refine Prog.wp_bind (wp_read (fun _ _ => rfl) called ⟨fun _ _ => ?_, by simp⟩
            ⟨by simp, fun _ _ => no _⟩)
          split
          · exact no _
          · split
            · exact no _
            · refine Prog.wp_bind (wp_read (fun _ _ => rfl) called ⟨fun _ _ => ?_, by simp⟩
                ⟨by simp, fun _ _ => no _⟩)
              refine Prog.wp_bind (wp_read (fun _ _ => rfl) called ⟨fun _ _ => ?_, by simp⟩
                ⟨by simp, fun _ _ => no _⟩)
              split
              · exact yes
              · exact no _

/-- What leaves the operations alone leaves what a body has left. -/
theorem Leaves.keeps {r : OperationRecord} {α : Type} {res : Except Exn α}
    (h : Leaves d t o r res w) (hk : w.Keeps w') (hi : Inv d w') : Leaves d t o r res w' := by
  have hr := hk.rely t
  refine ⟨h.toHolds.rely hr hi, h.calm.same hk.db, fun htidy y hy => ?_⟩
  exact (h.settled htidy y (hr.touched hy)).imp id fun hy =>
    ⟨hy.1.later hk.db.later hi.rows.sound, hy.2⟩

/-- Settling again what is done, or failing to. -/
theorem wp_settleReconciled {row : OperationRecord} {s : OperationState} {final : Payload}
    {status : Status} (hin : Inside d t o row w) (hd : w.isDone x) :
    (settleReconciled x s final status).wp (rules settings d t)
      (fun res w' => Leaves d t o row res w') w := by
  obtain ⟨r, hr, h5⟩ := hd
  have hne : x ≠ o := by
    rintro rfl
    cases hr.symm.trans hin.row
    rw [hin.state] at h5
    exact absurd h5 (by decide)
  have hlegal : Legal t (.operation (.transition x s none (some final.persistable)
      (final.error.map ErrorData.withoutToken))) w :=
    ⟨hin.called, .inr hin.started, fun r' hr' => .inl (by cases hr.symm.trans hr'; exact h5)⟩
  refine Prog.wp_bind (wp_operation hlegal (fun st e _ => ⟨by simp, fun _ _ => hin.leaves⟩)
    fun st a db' hrun hi => ⟨fun _ _ => ?_, by simp⟩)
  have hown := Own.method (o := x) hin.inv hrun rfl (t := t)
  have hdone := World.isDone.later ⟨r, hr, h5⟩ hown.later hi.rows.sound
  refine ⟨hin.toHolds.own hown hi hne, ?_, fun _ y hy => ?_⟩
  · obtain ⟨current, -, -, -, -, hmv⟩ := Database.transitionOperation_ok hrun
    refine hin.calm.of_rows db' (fun r' hr' => ?_) (fun e he => ?_) (by simp)
    · rw [hmv.same.operations] at hr'
      rcases Table.of_mem_update hr' with ⟨hr', -⟩ | ⟨y, hy, hyid, rfl⟩
      · exact ⟨r', hr', .refl r'⟩
      · exact ⟨current, (Database.operation?_some hmv.found).1, hmv.forward⟩
    · rw [hmv.same.authEvents]
      exact he
  · rcases hown.touched hy with hy | rfl
    · exact .inl (hin.only y hy)
    · exact .inr ⟨hdone, by simp⟩

/-- What the task looks at while it is inside leaves it inside, and what is done done. -/
theorem Inside.done {row : OperationRecord} (hin : Inside d t o row w) (hd : w.isDone x)
    (hl : Looked d t w w') : Inside d t o row w' ∧ w'.isDone x :=
  ⟨hin.looked hl, hd.later hl.rely.later hl.ready.inv.rows.sound⟩

theorem wp_release {project : String} {row : OperationRecord} {α : Type} {res : Except Exn α}
    (h : Leaves d t o row res w) :
    (Service.quiet (.release project)).wp (rules settings d t)
      (fun s w' => (s = .ok () → Leaves d t o row res w') ∧
        ∀ e, s = .error e → Leaves d t o row (.error e : Except Exn α) w') w := by
  refine wp_step rfl ⟨h.called, trivial⟩ fun e a w' he hi => ?_
  have hk := execQuiet_keeps (q := .release project) (e := e) he
  cases he
  exact ⟨fun _ => h.keeps hk hi, by simp⟩

theorem wp_reconcileSucceeded {env : Env} {caller : Caller} {original row : OperationRecord}
    {s evidence : String} (hin : Inside d t o row w) (hd : w.isDone x) :
    (reconcileSucceeded env caller original x s evidence).wp (rules env.settings d t)
      (fun res w' => Leaves d t o row res w') w := by
  refine Prog.wp_bind (Prog.wp_mono (fun res w₁ hl => ?_) (wp_carry hin.ready hin.calm))
  obtain ⟨hin, hd⟩ := hin.done hd hl
  refine ⟨fun project _ => ?_, fun _ _ => hin.leaves⟩
  refine Prog.wp_bind (Prog.wp_mono (fun res w₂ hl => ?_) (wp_quiet_looked hin.ready hin.calm))
  obtain ⟨hin, hd⟩ := hin.done hd hl
  refine ⟨fun _ _ => ?_, fun _ _ => hin.leaves⟩
  refine Prog.wp_ensuring (Prog.wp_bind (Prog.wp_mono (fun res w₃ hl => ?_)
    (wp_carry hin.ready hin.calm)))
  obtain ⟨hin, hd⟩ := hin.done hd hl
  refine ⟨fun data _ => ?_, fun _ _ => wp_release hin.leaves⟩
  refine Prog.wp_bind (wp_requestIdOf hin.called fun rid => ⟨fun _ _ => ?_, by simp⟩)
  exact Prog.wp_mono (fun _ _ h => wp_release h) (wp_settleReconciled hin hd)

/-- A call that reconciles an operation which was unknown when the call looked it up. -/
theorem runsWell_reconcile (env : Env) {caller : Caller} {original : OperationRecord}
    {s evidence : String} {decision : Decision} (hfound : w₀.db.operation? x = some original)
    {row : OperationRecord} (hin : Inside d t o row w) (hw : Since w₀ w) :
    (reconcileBody env caller original x s decision evidence).wp (rules env.settings d t)
      (fun res w' => Leaves d t o row res w') w := by
  refine Prog.wp_bind (Prog.wp_mono (fun res w₁ hl => ?_)
    (wp_requireOperationForReconcile hin.ready hin.calm))
  obtain ⟨hl, -⟩ := hl
  have hin := hin.looked hl
  have hw := hw.rely hl.rely
  have done : original.state = .unknown → w₁.isDone x := fun hst => by
    obtain ⟨r, hr, hb⟩ := hw.found hin.inv.rows.sound hfound
    have := hb.rank
    rw [hst] at this
    exact ⟨r, hr, this⟩
  refine ⟨fun found _ => ?_, fun _ _ => hin.leaves⟩
  have refuse : ∀ {e : Exn} {f : Unit → Service Outcome},
      ((Prog.raise e : Service Unit) >>= f).wp (rules env.settings d t)
        (fun res w' => Leaves d t o row res w') w₁ :=
    Prog.wp_bind ⟨fun _ h => (by cases h), fun _ _ => hin.leaves⟩
  have checked : ∀ {m} {rest : Service Outcome},
      (w₁.isDone x → rest.wp (rules env.settings d t) (fun res w' => Leaves d t o row res w') w₁) →
      (do
        if evidence = "" ∨ evidence.length > 1000 then
          Service.reject .invalidRequest "evidence must be 1-1000 characters"
        if original.state ≠ .unknown then
          Service.reject .reconcileRequired "only unknown operations require reconciliation" m
        rest : Service Outcome).wp (rules env.settings d t)
          (fun res w' => Leaves d t o row res w') w₁ := fun {m rest} h => by
    by_cases he : evidence = "" ∨ evidence.length > 1000
    · simp only [he, if_true]
      exact refuse
    · by_cases hst : original.state = .unknown
      · simp only [he, hst, ne_eq, not_true_eq_false, if_false]
        exact h (done hst)
      · simp only [he, hst, ne_eq, not_false_eq_true, if_false, if_true]
        exact refuse
  cases decision with
  | other text => exact refuse
  | succeeded => exact checked fun hd => wp_reconcileSucceeded hin hd
  | failed =>
    refine checked fun hd => ?_
    refine Prog.wp_bind (wp_requestIdOf hin.called fun rid => ⟨fun _ _ => ?_, by simp⟩)
    exact wp_settleReconciled hin hd

/-! ## Programs -/

theorem Ended.map {α β : Type} {r : Except Exn α} {f : α → β} (h : Ended d t r w) :
    Ended d t (r.map f) w := by
  cases r <;> exact ⟨h.1, fun ht => by simpa [Except.map] using h.2 ht⟩

theorem wp_map_ended {α β : Type} {f : α → β} {y : Service α}
    (h : y.wp (rules settings d t) (fun r w' => Ended d t r w') w) :
    (f <$> y).wp (rules settings d t) (fun r w' => Ended d t r w') w :=
  Prog.wp_map (Prog.wp_mono (fun _ _ he => he.map) h)

theorem Idle.wp_looked {α : Type} {y : Service α} (h : Idle d t w)
    (hy : y.wp (rules settings d t) (fun _ w' => Looked d t w w') w) :
    y.wp (rules settings d t) (fun r w' => Ended d t r w') w :=
  Prog.wp_mono (fun _ _ hl => (h.looked hl).ended) hy

/-- Bodies that the process carries out keep to the discipline. -/
theorem runsWell_execution (env : Env) {call : ToolCall} {e : Execution}
    (h : call.execution env = some e) : RunsWell env.settings d t w₀ e := by
  intro prepared o row w hin _
  cases call <;> cases h <;> exact wp_carry_leaves hin

/-- The common start of the three tools. -/
theorem wp_withOriginal {caller : Caller} {s : String} {find : Service OperationRecord}
    {run : OperationRecord → Service Payload} (h : Idle d t w)
    (hfind : ∀ w', Ready d t w' → Calm d w' → find.wp (rules settings d t) (fun r w'' =>
      Looked d t w' w'' ∧ ∀ row, r = .ok row → w''.db.operation? x = some row) w')
    (hrun : ∀ original w', Idle d t w' → Since w w' → w'.db.operation? x = some original →
      (run original).wp (rules settings d t) (fun r w'' => Ended d t r w'') w') :
    (withOriginal caller x s find run).wp (rules settings d t)
      (fun r w' => Ended d t r w') w := by
  refine Prog.wp_bind (wp_startBridge h (.refl w) fun w₁ h₁ hs hw₁ => ⟨fun _ _ => ?_, by simp⟩)
  refine Prog.wp_bind (Prog.wp_handle (Prog.wp_map (Prog.wp_mono (fun res w₂ hl => ?_)
    (hfind w₁ (h₁.ready hs) h₁.calm))))
  obtain ⟨hl, hfound⟩ := hl
  have h₂ := h₁.looked hl
  rcases res with e | original
  · refine ⟨by simp [Except.map], ?_⟩
    rintro e' ⟨⟩
    cases e
    case bridge be =>
      refine Prog.wp_bind (wp_requestIdOf h₂.called fun rid => ⟨fun _ _ => ?_, by simp⟩)
      exact ⟨fun _ h => by cases h; exact h₂.ended, by simp⟩
    all_goals exact ⟨by simp, fun _ _ => h₂.ended⟩
  · refine ⟨fun _ h => ⟨?_, by simp⟩, by simp [Except.map]⟩
    cases h
    rintro _ ⟨⟩
    exact hrun original w₂ h₂ (hw₁.rely hl.rely) (hfound original rfl)

/-- The lookup of an operation by its own session, for `withOriginal`. -/
theorem wp_findForSession {env : Env} {s : String} (hr : Ready d t w) (hc : Calm d w) :
    (requireOperationForSession env x s).wp (rules env.settings d t) (fun r w' =>
      Looked d t w w' ∧ ∀ row, r = .ok row → w'.db.operation? x = some row) w :=
  Prog.wp_mono (fun _ _ h => ⟨h.1, fun row hr => (h.2 row hr).1⟩)
    (wp_requireOperationForSession hr hc)

theorem wp_operationStatus (env : Env) {caller : Caller} {s : String} (h : Idle d t w) :
    (operationStatus env caller x s).wp (rules env.settings d t)
      (fun r w' => Ended d t r w') w := by
  refine Prog.wp_bind (wp_startBridge h (.refl w) fun w₁ h₁ hs _ => ⟨fun _ _ => ?_, by simp⟩)
  refine Prog.wp_bind (wp_requestIdOf h₁.called fun rid => ⟨fun _ _ => ?_, by simp⟩)
  have answer : ∀ {y : Service Payload} {f : BridgeError → Payload},
      y.wp (rules env.settings d t) (fun _ w' => Looked d t w₁ w') w₁ →
      (y.exceptBridge fun e => pure (f e)).wp (rules env.settings d t)
        (fun r w' => Ended d t r w') w₁ := fun hy => by
    refine Prog.wp_handle (Prog.wp_mono (fun r w₂ hl => ⟨fun _ _ => (h₁.looked hl).ended, ?_⟩) hy)
    rintro e -
    cases e <;> exact (h₁.looked hl).ended
  refine answer (Prog.wp_bind (Prog.wp_mono (fun r w₂ hl => ⟨fun record _ => ?_, fun _ _ => hl.1⟩)
    (wp_requireOperationForReconcile (h₁.ready hs) h₁.calm)))
  obtain ⟨hl, -⟩ := hl
  refine Prog.wp_bind (wp_read (fun _ _ => rfl) hl.ready.called ⟨fun _ _ => ?_, by simp⟩
    ⟨by simp, fun _ _ => hl⟩)
  refine Prog.wp_bind ⟨fun summaries _ => ?_, fun _ _ => hl⟩
  exact Prog.wp_bind (wp_read (fun _ _ => rfl) hl.ready.called ⟨fun _ _ => hl, by simp⟩
    ⟨by simp, fun _ _ => hl⟩)

/-- The program of a tool that acts on another operation. -/
theorem wp_lifecycle (env : Env) {caller : Caller} {s : String} {find : Service OperationRecord}
    {kind : OperationKind} {input : Dict} {key : RequestKey}
    {body : OperationRecord → Service Outcome} (h : Idle d t w)
    (hfind : ∀ w', Ready d t w' → Calm d w' → find.wp (rules env.settings d t) (fun r w'' =>
      Looked d t w' w'' ∧ ∀ row, r = .ok row → w''.db.operation? x = some row) w')
    (hrun : ∀ original w₀, Since w w₀ → w₀.db.operation? x = some original →
      ∀ o row w', Inside d t o row w' → Since w₀ w' →
        (body original).wp (rules env.settings d t) (fun r w'' => Leaves d t o row r w'') w') :
    (some <$> withOriginal caller x s find fun original => execute env.settings caller
      (lifecycleExecution original s kind input key (body original)) :
        Service (Option Payload)).wp (rules env.settings d t) (fun r w' => Ended d t r w') w :=
  wp_map_ended (wp_withOriginal h hfind fun original w' hidle hw hfound =>
    wp_execute (fun _ o row w'' hin hw' => hrun original w' hw hfound o row w'' hin hw') hidle
      (.refl w'))

/-- A call that has just been let in keeps to the discipline to its end. -/
theorem wp_program {caller : Caller} {call : ToolCall} (h : Idle d t w)
    (hcall : (t, (caller, call)) ∈ w.calls) :
    (call.program settings caller).wp (rules settings d t) (fun r w' => Ended d t r w') w := by
  have executes : ∀ {x : Execution}, RunsWell settings d t w x →
      ((some <$> execute settings caller x : Service (Option Payload))).wp
        (rules settings d t) (fun r w'' => Ended d t r w'') w := fun hx =>
    wp_map_ended (wp_execute hx h (.refl w))
  let env : Env := { settings, principal := caller.principal }
  cases call
  case approvalConfirm o s token key =>
    exact wp_lifecycle env h (fun w' hr hc => wp_findForSession hr hc) fun original w₀ hw hfound
      o row w' hin hw' => runsWell_confirm env (hw.calls _ hcall) hfound hin hw'
  case operationCancel o s key =>
    exact wp_lifecycle env h (fun w' hr hc => wp_findForSession hr hc) fun original w₀ hw hfound
      o row w' hin hw' => runsWell_cancel env hfound hin hw'
  case operationReconcile o s decision evidence key =>
    exact wp_lifecycle env h (fun w' hr hc => wp_requireOperationForReconcile hr hc)
      fun original w₀ hw hfound o row w' hin hw' => runsWell_reconcile env hfound hin hw'
  case operationStatus o s =>
    exact wp_map_ended (wp_operationStatus env h)
  case health =>
    refine wp_map_ended (f := fun _ => none) (y := CodemcpBridge.health env) ?_
    refine Prog.wp_bind (wp_startBridge h (.refl w) fun w₁ h₁ hs _ => ⟨fun _ _ => ?_, by simp⟩)
    exact h₁.wp_looked (wp_carry (h₁.ready hs) h₁.calm)
  case projectOpen p =>
    refine wp_map_ended (f := some) (y := CodemcpBridge.projectOpen env caller _) ?_
    refine Prog.wp_bind (wp_uuid h.called fun id _ => ⟨fun _ _ => ?_, by simp⟩)
    exact wp_execute (fun _ o row w' hin _ => wp_carry_leaves hin) h (.refl w)
  all_goals
    simp only [ToolCall.program]
    split
    · rename_i x hx
      exact executes (runsWell_execution env hx)
    · exact h.ended

/-- Every call obeys the discipline. -/
theorem starts (settings : PolicySettings) (d : Discretion) :
    (discipline settings d).Starts := by
  rintro t ⟨caller, call⟩ w w' hi hc harrive
  simp only [bridge] at harrive
  split at harrive
  · cases harrive
  · rename_i hfresh
    cases harrive
    have hfresh : t ∉ w.calls.map Prod.fst := by simpa using hfresh
    exact wp_program (idle_arrive hi hc hfresh) List.mem_cons_self

/-! ## Every run -/

/-- A pool that a run of the Bridge process reaches from an empty store. -/
abbrev Reached (settings : PolicySettings) (d : Discretion) :=
  Machine.Reachable (bridge settings d) {}

/-- What holds in every pool that is reached. -/
theorem good {p} (h : Reached settings d p) : (discipline settings d).Good p :=
  (discipline settings d).reachable (starts settings d) (inv_init d)
    (fun _ => rfl) h

theorem Reached.inv {p} (h : Reached settings d p) : Inv d p.world := (good h).inv

end CodemcpBridge
