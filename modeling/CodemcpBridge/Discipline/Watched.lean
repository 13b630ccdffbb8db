import CodemcpBridge.Discipline.Confirming
import CodemcpBridge.Discipline.Watch

/-!
# Every call under a watch

A registered command is started in two places: by its own call, with what was resolved before the
body of an operation that was judged to need no approval, and by the confirmation of an operation,
with what the snapshot of that moment resolves the stored input to.  A watch that fits these two is
obeyed by every call.
-/

namespace CodemcpBridge

open Async (Prog)
open Database (Sound)

variable {settings : PolicySettings} {d : Discretion} {t : ℕ} {w w' : World}

/-- The command that a confirmation resolves the stored input to, before `codemcp.toml` is looked
at. -/
def OperationRecord.resolve? (r : OperationRecord) (projects : Registry) :
    Option (ProjectSpec × CommandSpec) := do
  let commandId ← (Dict.get? r.input "command_id").bind Json.str?
  let project ← projects.spec? r.projectId
  let command ← project.command? commandId
  match Dict.get? r.input "expected_kind" with
  | some (.str kind) => if command.kind = kind then some (project, command) else none
  | none | some .null => if r.kind = .registeredCommandRun then some (project, command) else none
  | some _ => none

/-- An operation is resolved as before while it moves from state to state. -/
theorem OperationRecord.Becomes.resolve? {r r' : OperationRecord} (h : r.Becomes r')
    (projects : Registry) : r'.resolve? projects = r.resolve? projects := by
  have hi : r'.input = r.input := h.keeps _ fun _ => rfl
  have hk : r'.kind = r.kind := h.keeps _ fun _ => rfl
  unfold OperationRecord.resolve?
  rw [hi, hk, h.projectId]

/-! ## Resolving a command -/

section Resolving

variable {project : ProjectSpec} {commandId kind : String}

/-- The entry of a table that a lookup by id finds. -/
theorem ProjectSpec.command?_of_find {c : String × CommandSpec}
    (h : project.commands.find? (fun c => c.1 == commandId) = some c) :
    project.command? commandId = some c.2 := by
  unfold ProjectSpec.command?
  rw [h]
  rfl

/-- The answer makes the check of `codemcp.toml` pass. -/
def CommandSpec.Accepts (command : CommandSpec) : (q : Quiet) → Except Exn q.Result → Prop
  | .configuredArgv .., a => a = .ok (some command.argv)
  | .canGenerateConfig _, a => a = .ok true
  | _, _ => False

/-- Under these answers, the check of `codemcp.toml` passes. -/
def CommandSpec.Accepted (may : (a : Act) → Except Exn a.Result → Prop) (command : CommandSpec) :
    Prop :=
  ∃ q a, may (.quiet q) a ∧ command.Accepts q a

variable {may : (a : Act) → Except Exn a.Result → Prop}

theorem yields_verifyCodemcpCommand {command : CommandSpec} :
    (verifyCodemcpCommand project command).Yields may fun _ => command.Accepted may := by
  refine Prog.yields_bind (Prog.yields_true _) fun generated _ => ?_
  extract_lets rejected compare
  have hcompare : ∀ b, (b = true → command.Accepted may) →
      (compare b).Yields may fun _ => command.Accepted may := by
    intro exempt hexempt
    refine Prog.yields_ite (fun _ => ?_) fun h => Prog.yields_pure (hexempt (by simpa using h))
    refine Prog.yields_bind (O := fun configured => configured = some command.argv →
      command.Accepted may) ?_ fun configured hconfigured => ?_
    · refine Prog.yields_handle (Prog.yields_ask fun a ha h => ⟨_, _, ha, congrArg Except.ok h⟩)
        fun e y hy => ?_
      split_ifs at hy
      cases hy
      exact Prog.yields_bind (O := fun _ => False) (Prog.yields_raise _) fun _ h => h.elim
    · exact Prog.yields_ite (fun _ => Prog.yields_raise _)
        fun h => Prog.yields_pure (hconfigured (by simpa using h))
  have hno : (compare false).Yields may fun _ => command.Accepted may := hcompare false nofun
  split
  · exact Prog.yields_bind (O := fun exempt => exempt = true → command.Accepted may)
      (Prog.yields_ask fun a ha h => ⟨_, _, ha, congrArg Except.ok h⟩) hcompare
  · exact Prog.yields_ite (fun _ => hno) fun _ => Prog.yields_raise _
  · exact hno

theorem yields_allowedCommand {command : CommandSpec} :
    (allowedCommand project command).Yields may fun c => c = command ∧ command.Accepted may :=
  Prog.yields_bind yields_verifyCodemcpCommand fun _ h => Prog.yields_pure ⟨rfl, h⟩

theorem yields_registeredCommand : (registeredCommand settings project commandId).Yields may
    fun command => project.command? commandId = some command ∧ command.Accepted may := by
  refine Prog.yields_ite (fun _ => Prog.yields_bind (O := fun _ : Unit => True)
    (Prog.yields_raise _) fun _ _ => ?_) fun _ => ?_
  all_goals
    split
    · exact Prog.yields_raise _
    · next c hfind =>
      refine yields_allowedCommand.mono fun command h => ?_
      rw [h.1]
      exact ⟨ProjectSpec.command?_of_find hfind, h.2⟩

theorem yields_commandOfKind : (commandOfKind settings project commandId kind).Yields may
    fun command => project.command? commandId = some command ∧ command.kind = kind ∧
      command.Accepted may := by
  refine Prog.yields_ite (fun _ => Prog.yields_bind (O := fun _ : Unit => True)
    (Prog.yields_raise _) fun _ _ => ?_) fun _ => ?_
  all_goals
    split
    · exact Prog.yields_raise _
    · next c hfind =>
      obtain ⟨hfind, hkind⟩ := Option.filter_eq_some_iff.1 hfind
      refine yields_allowedCommand.mono fun command h => ?_
      rw [h.1]
      exact ⟨ProjectSpec.command?_of_find hfind, by simpa using hkind, h.2⟩

theorem yields_resolveCommand {env : Env} {kind : Option String} :
    (resolveCommand env project commandId kind).Yields (fun _ _ => True)
      fun command => project.command? commandId = some command := by
  cases kind with
  | none => exact yields_registeredCommand.mono fun _ h => h.1
  | some kind => exact yields_commandOfKind.mono fun _ h => h.1

end Resolving

namespace Watch

variable {V : Watch} [DecidablePred V.within]

/-- The watch allows what was resolved for an operation that needs no approval, and what is resolved
and found in `codemcp.toml` when an approval has been consumed. -/
structure Fits (V : Watch) : Prop where
  direct : ∀ {t w₁ w projectId commandId o} {p : ProjectSpec} {c : CommandSpec}, V.Inv w₁ →
    w₁.registry.spec? projectId = some p → p.command? commandId = some c →
    c.approval ≠ .required → w.current t = some o → (∃ e ∈ w.log, e.Judges o false) →
    V.allows t w p c
  confirmed : ∀ {t w₀ w o k now st row db} {p : ProjectSpec} {c : CommandSpec}, V.Inv w₀ →
    w₀.started = true →
    (OperationCall.consumeApproval o k now).run w₀.db st = .ok (row, db) →
    row.resolve? w₀.registry = some (p, c) → w.current t = some o → w.registry = w₀.registry →
    (∃ running, w.db.operation? o = some running ∧ row.Becomes running) →
    c.Accepted (V.shown t w) →
    (∃ new, w.log = new ++ ⟨t, .done (.consumeApproval o k now), w₀.db, db⟩ :: w₀.log) →
    V.allows t w p c

/-! ## Single services -/

theorem wp_startBridge (hw : V.Inv w) : startBridge.wp (V.rules settings d t) (fun r w' =>
    V.Kept t w w' ∧ (r = .ok () → w'.started = true)) w := by
  refine Prog.wp_bind (wp_step rfl nofun nofun fun e a w₁ he hi => ?_)
  cases he
  refine ⟨?_, nofun⟩
  rintro started ⟨⟩
  cases hs : w.started with
  | true => exact ⟨.refl hw, fun _ => hs⟩
  | false =>
    refine Prog.wp_bind (Prog.wp_mono (fun r w₂ hk => ⟨fun a _ => ?_, fun e _ => ⟨hk, nofun⟩⟩)
      (wp_plain plain_operation hw))
    refine wp_step rfl (fun b hb => ?_) nofun fun e a w₃ he hi => ?_
    · cases hb
      rfl
    · cases he
      exact ⟨hk.trans ⟨⟨fun _ => rfl, ⟨[], rfl⟩, rfl⟩, hi⟩, fun _ => rfl⟩

/-- A program that starts nothing, and what goes on with its value. -/
theorem wp_plain_bind {α β : Type} {x : Service α} {f : α → Service β} (hx : x.Asks Ask.Plain)
    (hw : V.Inv w) (hf : ∀ a w', V.Kept t w w' →
      (f a).wp (V.rules settings d t) (fun _ w' => V.Inv w') w') :
    (x >>= f).wp (V.rules settings d t) (fun _ w' => V.Inv w') w :=
  Prog.wp_bind (Prog.wp_mono (fun _ w' hk => ⟨fun a _ => hf a w' hk, fun _ _ => hk.inv⟩)
    (wp_plain hx hw))

theorem wp_getProject {p : String} :
    (carry settings (getProject p)).wp (V.rules settings d t) (fun r w' =>
      w' = w ∧ ∀ project, r = .ok project → w.registry.spec? p = some project) w := by
  unfold getProject
  rw [carry_bind]
  refine Prog.wp_bind ?_
  have : carry settings (Body.quiet .snapshot) = Service.quiet .snapshot := Prog.via_ask _ _
  rw [this]
  refine wp_step rfl (fun _ h => by cases h) (fun _ _ h => by cases h) fun e a w₁ he hi => ?_
  cases he
  refine ⟨?_, fun _ h => by cases h⟩
  rintro projects ⟨⟩
  unfold registryGet
  split
  · next project hfind =>
    refine ⟨rfl, fun _ h => ?_⟩
    cases h
    unfold Registry.spec?
    rw [hfind]
    rfl
  · exact ⟨rfl, fun _ h => by cases h⟩

/-- The check of a registered command leaves what the snapshot of that moment resolves. -/
theorem wp_commandApprovalCheck {env : Env} {p s commandId : String} {kind : Option CommandTool}
    (hw : V.Inv w) :
    (carry settings (commandApprovalCheck env p s commandId kind)).wp (V.rules settings d t)
      (fun r w' => V.Kept t w w' ∧ ∀ b prepared, r = .ok (b, prepared) →
        ∃ w₁ project command, V.Inv w₁ ∧ w₁.registry.spec? p = some project ∧
          project.command? commandId = some command ∧ b = (command.approval == .required) ∧
          prepared = some (project, command)) w := by
  unfold commandApprovalCheck
  rw [carry_bind]
  refine Prog.wp_bind (Prog.wp_mono (fun r w₁ hk => ⟨fun session _ => ?_, fun _ _ => ⟨hk, nofun⟩⟩)
    (wp_plain (plain_carry ordinary_requireSession) hw))
  rw [carry_bind]
  refine Prog.wp_bind (Prog.wp_mono (fun r w₂ hget => ?_) wp_getProject)
  obtain ⟨rfl, hproject⟩ := hget
  refine ⟨fun project hr => ?_, fun _ _ => ⟨hk, nofun⟩⟩
  rw [carry_bind]
  refine Prog.wp_bind (Prog.wp_mono (fun r w₃ hres => ?_) (yields_resolveCommand.via.wp
    (wp_plain (plain_carry ordinary_resolveCommand) hk.inv)))
  refine ⟨fun command hcommand => ⟨hk.trans hres.1, ?_⟩, fun _ _ => ⟨hk.trans hres.1, nofun⟩⟩
  rintro b prepared ⟨⟩
  exact ⟨w₂, project, command, hk.inv, hproject project hr, hres.2 command hcommand, rfl, rfl⟩

/-- The body of a command is carried out where the watch allows the command. -/
theorem wp_runCommandBody {env : Env} {p : ProjectSpec} {c : CommandSpec} {s o : String}
    (hc : V.allows t w p c) (hw : V.Inv w) :
    (carry settings (runCommandBody env p c s o)).wp (V.rules settings d t)
      (fun _ w' => V.Kept t w w') w :=
  wp_asks ((asks_carry asks_runCommandBody).mono fun _ hq =>
    hq.imp_right fun heq => ⟨p, c, heq, hc⟩) hw

/-! ## Confirmed operations -/

/-- The task has consumed the approval of `o`, whose row was `row`, under the snapshot `projects`,
which is still installed. -/
structure Consumed (V : Watch) (t : ℕ) (o : String) (row : OperationRecord) (projects : Registry)
    (w : World) : Prop where
  inv : V.Inv w
  allows : ∀ {w' p c}, (∃ new, w'.log = new ++ w.log) → w'.current t = some o →
    w'.registry = projects → (∃ running, w'.db.operation? o = some running ∧ row.Becomes running) →
    c.Accepted (V.shown t w') → row.resolve? projects = some (p, c) → V.allows t w' p c
  registry : w.registry = projects

omit [DecidablePred V.within] in
theorem Consumed.later {o : String} {row : OperationRecord} {projects : Registry}
    (h : V.Consumed t o row projects w) (hlog : ∃ new, w'.log = new ++ w.log) (hi : V.Inv w')
    (hr : w'.registry = w.registry) : V.Consumed t o row projects w' := by
  refine ⟨hi, fun {w''} p c hlog' => h.allows ?_, hr.trans h.registry⟩
  obtain ⟨new, hnew⟩ := hlog
  obtain ⟨new', hnew'⟩ := hlog'
  exact ⟨new' ++ new, by rw [hnew', hnew, List.append_assoc]⟩

/-- A transition of the operation leaves its row resolved as before. -/
theorem Consumed.wp_transition {o : String} {row current : OperationRecord} {projects : Registry}
    {s : OperationState} {x : Option OperationState} (h : V.Consumed t o row projects w)
    (hrow : w.db.operation? o = some current) (hb : row.Becomes current) :
    (Service.operation (.transition o s x none none)).wp (V.rules settings d t) (fun r w' =>
      V.Inv w' ∧ ∀ running, r = .ok running → V.Consumed t o row projects w' ∧
        w'.db.operation? o = some running ∧ row.Becomes running ∧ running.operationId = o) w := by
  refine wp_step rfl nofun nofun fun e a w' he hi => ⟨hi, fun running hr => ?_⟩
  subst hr
  have hf : Follows t w w' :=
    follows_exec (q := .operation (.transition o s x none none)) nofun (.inr nofun) he
  simp only [exec, execOperation, Option.some.injEq] at he
  split at he
  · cases he
  · next a db hrun =>
    cases he
    obtain ⟨current', hid, -, -, -, hm⟩ := Database.transitionOperation_ok hrun
    have hfound := hm.found
    rw [hid, hrow] at hfound
    obtain rfl := Option.some.inj hfound
    have hown : running.operationId = o := hm.forward.operationId.trans hid
    refine ⟨h.later hf.log hi rfl, ?_, hb.trans hm.forward, hown⟩
    have := hm.operation?_self
    rw [hid] at this
    simpa using this

/-- The confirmed operation runs what the snapshot resolves it to, or no command at all. -/
theorem Consumed.wp_runApprovedOperation {env : Env} {o : String} {row running : OperationRecord}
    {projects : Registry} (h : V.Consumed t o row projects w) (ho : w.current t = some o)
    (hrow : w.db.operation? o = some running) (hb : row.Becomes running) :
    (carry settings (runApprovedOperation env running)).wp (V.rules settings d t)
      (fun _ w' => V.Inv w') w := by
  have ordinary {x : Body Outcome} (hx : x.Asks Act.Ordinary) :
      (carry settings x).wp (V.rules settings d t) (fun _ w' => V.Inv w') w :=
    Prog.wp_mono (fun _ _ hk => hk.inv) (wp_plain (plain_carry hx) h.inv)
  have command : (carry settings (runCommandForOperation env running)).wp (V.rules settings d t)
      (fun _ w' => V.Inv w') w := by
    unfold runCommandForOperation
    dsimp only
    split
    · exact ordinary asks_reject
    · next commandId hid =>
      rw [carry_bind]
      refine Prog.wp_bind (Prog.wp_mono (fun r w₁ hget => ?_) wp_getProject)
      obtain ⟨rfl, hproject⟩ := hget
      refine ⟨fun project hr => ?_, fun _ _ => h.inv⟩
      have hp : projects.spec? running.projectId = some project :=
        h.registry ▸ hproject project hr
      -- Whatever is resolved is what the snapshot holds, and the body runs nothing else.
      have body {x : Body CommandSpec} {f : CommandSpec → Body Outcome} (hx : x.Asks Act.Verifies)
          (hy : x.Yields (V.shown t w₁) fun command =>
            running.resolve? projects = some (project, command) ∧
              command.Accepted (V.shown t w₁))
          (hf : ∀ command, f command = Body.reject .sessionRequired
              "approved operation has no session" ∨
            ∃ sessionId, f command = runCommandBody env project command sessionId
              running.operationId) :
          (carry settings (x >>= f)).wp (V.rules settings d t) (fun _ w' => V.Inv w') w₁ := by
        rw [carry_bind]
        refine Prog.wp_bind (Prog.wp_mono (fun r w₂ hres => ?_)
          (wp_still (still_carry (hx.mono fun _ h => h.still)) (yields_carry hy) h.inv))
        obtain ⟨rfl, hres⟩ := hres
        refine ⟨fun c hc => ?_, fun _ _ => h.inv⟩
        rcases hf c with he | ⟨sessionId, he⟩ <;> rw [he]
        · exact Prog.wp_mono (fun _ _ hk => hk.inv) (wp_plain (plain_carry asks_reject) h.inv)
        · refine Prog.wp_mono (fun _ _ hk => hk.inv) (wp_runCommandBody ?_ h.inv)
          exact h.allows ⟨[], rfl⟩ ho h.registry ⟨running, hrow, hb⟩ (hres c hc).2
            ((hb.resolve? projects).symm.trans (hres c hc).1)
      have malformed {f : CommandSpec → Body Outcome} : (carry settings
          (Body.reject .invalidRequest "stored command operation is malformed" >>= f)).wp
            (V.rules settings d t) (fun _ w' => V.Inv w') w₁ := by
        rw [carry_bind]
        refine Prog.wp_bind (Prog.wp_mono (fun r w₂ hk => ⟨fun _ hc => ?_, fun _ _ => hk.1.inv⟩)
          (Prog.Yields.wp (P := fun _ => False) (Prog.yields_raise _).via
            (wp_plain (plain_carry asks_reject) h.inv)))
        exact (hk.2 _ hc).elim
      -- Without an expected kind the operation has to be a run by id.
      have byId (habsent : Dict.get? running.input "expected_kind" = none ∨
            Dict.get? running.input "expected_kind" = some .null)
          (hrun : running.kind = .registeredCommandRun) :
          (registeredCommand env.settings project commandId).Yields (V.shown t w₁)
            fun command => running.resolve? projects = some (project, command) ∧
              command.Accepted (V.shown t w₁) := by
        refine yields_registeredCommand.mono fun command hc => ⟨?_, hc.2⟩
        rcases habsent with ha | ha <;>
          simp only [OperationRecord.resolve?, hid, hp, ha, Option.bind_eq_bind, Option.bind_some,
            hc.1, if_pos hrun]
      split
      · next kind hkind =>
        refine body verifies_commandOfKind
          (yields_commandOfKind.mono fun command hc => ⟨?_, hc.2.2⟩)
          fun _ => by rcases running.sessionId with _ | s; exacts [.inl rfl, .inr ⟨s, rfl⟩]
        simp only [OperationRecord.resolve?, hid, hp, hkind, Option.bind_eq_bind, Option.bind_some,
          hc.1, if_pos hc.2.1]
      · next hnone =>
        by_cases hrun : running.kind = .registeredCommandRun
        · rw [if_pos hrun]
          exact body verifies_registeredCommand (byId (.inl hnone) hrun)
            fun _ => by rcases running.sessionId with _ | s; exacts [.inl rfl, .inr ⟨s, rfl⟩]
        · rw [if_neg hrun]
          exact malformed
      · next hnull =>
        by_cases hrun : running.kind = .registeredCommandRun
        · rw [if_pos hrun]
          exact body verifies_registeredCommand (byId (.inr hnull) hrun)
            fun _ => by rcases running.sessionId with _ | s; exacts [.inl rfl, .inr ⟨s, rfl⟩]
        · rw [if_neg hrun]
          exact malformed
      · exact malformed
  unfold runApprovedOperation
  split
  · split
    · exact ordinary asks_reject
    · exact ordinary ordinary_createCheckpointBody
  · split
    · exact ordinary asks_reject
    · split
      · exact ordinary ordinary_restoreCheckpointBody
      · exact ordinary asks_reject
  · exact command

/-- The start of the body of `o`. -/
theorem wp_enter {o : String} : (Service.mark (.enter o)).wp (V.rules settings d t)
    (fun _ w' => V.Inv w' ∧ w'.current t = some o ∧ w'.started = w.started ∧
      w'.registry = w.registry ∧ w'.db = w.db ∧
      w'.log = ⟨t, .mark (.enter o), w.db, w.db⟩ :: w.log) w :=
  wp_step rfl nofun nofun fun e a w' he hi => by
    cases exec_mark he
    exact ⟨hi, Function.update_self _ _ _, rfl, rfl, rfl, rfl⟩

/-- The consumption of an approval, in a watch that fits it. -/
theorem wp_consumeApproval (hfit : V.Fits) {o token : String} (hw : V.Inv w)
    (hs : w.started = true) : (consumeApproval o token).wp (V.rules settings d t)
      (fun r w' => V.Inv w' ∧ ∀ row, r = .ok row → ∃ projects, V.Consumed t o row projects w' ∧
        w'.db.operation? o = some row) w := by
  have fail {w' : World} (hi : V.Inv w') (e : Exn) : V.Inv w' ∧ ∀ row,
      (.error e : Except Exn OperationRecord) = .ok row → ∃ projects,
        V.Consumed t o row projects w' ∧ w'.db.operation? o = some row :=
    ⟨hi, fun _ h => by cases h⟩
  unfold consumeApproval
  by_cases ht : token = "" ∨ token.length > 256
  · rw [if_pos ht]
    exact Prog.wp_bind ⟨fun _ h => (by cases h), fun e _ => fail hw e⟩
  · rw [if_neg ht]
    refine Prog.wp_bind (Prog.wp_mono (fun r w₁ hk => ⟨fun now _ => ?_, fun e _ => fail hk.inv e⟩)
      (wp_plain plain_quiet hw))
    refine Prog.wp_handle (wp_step rfl nofun nofun fun e a w₂ he hi => ⟨fun row hr => ?_,
      fun x hx => ?_⟩)
    · subst hr
      refine ⟨hi, fun _ h => ?_⟩
      cases h
      simp only [exec, execOperation, Option.some.injEq] at he
      split at he
      · cases he
      · next a db hrun =>
        cases he
        obtain ⟨b, b', -, hrow, -, -, -, hset⟩ := Database.consumeApproval_ok hk.inv.sound hrun
        exact ⟨w₁.registry, ⟨hi, fun hlog ho hreg hrow ha hres => hfit.confirmed hk.inv
          (hk.follows.started hs) hrun hres ho hreg hrow ha hlog, rfl⟩,
          (hset.operation? o).trans hrow⟩
    · subst hx
      cases x <;> exact fail hi _

/-- An approved operation is run as the watch allows. -/
theorem wp_runApproved {env : Env} {caller : Caller} {s o : String}
    {row : OperationRecord} {projects : Registry} (h : V.Consumed t o row projects w)
    (hrow : w.db.operation? o = some row) :
    (runApproved env caller s o).wp (V.rules env.settings d t) (fun _ w' => V.Inv w') w := by
  refine Prog.wp_bind (Prog.wp_bind (Prog.wp_mono (fun r w₁ hdis => ?_)
    (h.wp_transition hrow (.refl row))))
  refine ⟨fun dispatched hr => ?_, fun _ _ => ⟨fun _ h => (by cases h), fun _ _ => hdis.1⟩⟩
  obtain ⟨hc₁, hrow₁, hb₁, -⟩ := hdis.2 dispatched hr
  refine Prog.wp_mono (fun r w₂ hrun => ?_) (hc₁.wp_transition hrow₁ hb₁)
  refine ⟨fun running hr => ?_, fun _ _ => hrun.1⟩
  obtain ⟨hc₂, hrow₂, hb₂, hid⟩ := hrun.2 running hr
  rw [hid]
  refine Prog.wp_bind (Prog.wp_mono (fun r w₃ hent => ⟨fun _ _ => ?_, fun _ _ => hent.1⟩)
    wp_enter)
  obtain ⟨hi₃, hcur, -, hreg, hdb, hlog⟩ := hent
  refine (Prog.wp_andThen _ _ _).2 (Prog.wp_mono (fun r w₄ hi₄ => ?_)
    ((hc₂.later ⟨[_], hlog⟩ hi₃ hreg).wp_runApprovedOperation hcur (hdb ▸ hrow₂) hb₂))
  exact Prog.wp_mono (fun _ _ hk => hk.inv) (wp_plain (plain_approvedEnd r) hi₄)

theorem wp_confirmBody (hfit : V.Fits) (env : Env) {caller : Caller} {original : OperationRecord}
    {o s token : String} (hw : V.Inv w) (hs : w.started = true) :
    (confirmBody env caller original o s token).wp (V.rules env.settings d t)
      (fun _ w' => V.Inv w') w := by
  refine Prog.wp_bind (Prog.wp_mono (fun r w₁ hk => ⟨fun _ _ => ?_, fun _ _ => hk.inv⟩)
    (wp_plain plain_requireOperationForSession hw))
  by_cases hst : original.state ≠ .awaitingApproval
  · rw [if_pos hst]
    exact Prog.wp_bind ⟨fun _ h => (by cases h), fun _ _ => hk.inv⟩
  · rw [if_neg hst]
    refine Prog.wp_bind (Prog.wp_mono (fun r w₂ hcon => ⟨fun row hr => ?_, fun _ _ => hcon.1⟩)
      (wp_consumeApproval hfit hk.inv (hk.follows.started hs)))
    obtain ⟨projects, hc, hrow⟩ := hcon.2 row hr
    rw [(Database.operation?_some hrow).2]
    exact wp_runApproved hc hrow

/-! ## Operations of their own -/

/-- What a tool hands to `_execute` starts commands only where the watch allows it: what its check
leaves makes its body ready. -/
def Serves (V : Watch) [DecidablePred V.within] (settings : PolicySettings) (d : Discretion)
    (t : ℕ) (x : Execution) : Prop :=
  ∃ ready : Prepared → Prop,
    (∀ w, V.Inv w → (judge settings x).wp (V.rules settings d t) (fun r w' => V.Kept t w w' ∧
      ∀ prepared, r = .ok (false, prepared) → ready prepared) w) ∧
    ∀ prepared o w, ready prepared → V.Inv w → w.started = true → w.current t = some o →
      (∃ e ∈ w.log, e.Judges o false) →
      (x.operation prepared o).wp (V.rules settings d t) (fun _ w' => V.Inv w') w

theorem wp_judge_plain {x : Execution} (hx : ∀ check ∈ x.approvalCheck, check.Asks Act.Ordinary)
    (hw : V.Inv w) : (judge settings x).wp (V.rules settings d t) (fun r w' => V.Kept t w w' ∧
      ∀ prepared, r = .ok (false, prepared) → True) w := by
  refine Prog.wp_mono (fun _ _ hk => ⟨hk, fun _ _ => trivial⟩) (wp_plain ?_ hw)
  unfold judge
  split
  · next check hcheck => exact plain_carry (hx check hcheck)
  · exact Prog.asks_pure _

/-- A tool whose check and body start nothing. -/
theorem serves_plain {x : Execution} (hcheck : ∀ check ∈ x.approvalCheck, check.Asks Act.Ordinary)
    (hx : ∀ prepared o, (x.operation prepared o).Asks Ask.Plain) : V.Serves settings d t x :=
  ⟨fun _ => True, fun _ hw => wp_judge_plain hcheck hw, fun prepared o _ _ hw _ _ _ =>
    Prog.wp_mono (fun _ _ hk => hk.inv) (wp_plain (hx prepared o) hw)⟩

/-- The call of a registered command starts what its check has resolved. -/
theorem serves_command (hfit : V.Fits) {env : Env} {p s commandId : String}
    {kind : Option CommandTool} {key : RequestKey} :
    V.Serves env.settings d t (commandExecution env p s commandId kind key) := by
  refine ⟨fun prepared => ∃ w₁ project command, V.Inv w₁ ∧ w₁.registry.spec? p = some project ∧
    project.command? commandId = some command ∧ command.approval ≠ .required ∧
    prepared = some (project, command), fun w hw => ?_, ?_⟩
  · refine Prog.wp_mono (fun r w' hcheck => ⟨hcheck.1, fun prepared hr => ?_⟩)
      (wp_commandApprovalCheck hw)
    obtain ⟨w₁, project, command, hw₁, hp, hc, hb, hprepared⟩ := hcheck.2 false prepared hr
    exact ⟨w₁, project, command, hw₁, hp, hc, by simpa using hb.symm, hprepared⟩
  · rintro prepared o w ⟨w₁, project, command, hw₁, hp, hc, hfree, rfl⟩ hw - ho hj
    change (carry env.settings (commandBody env p s commandId kind (some (project, command)) o)).wp
      (V.rules env.settings d t) (fun _ w' => V.Inv w') w
    unfold commandBody
    rw [carry_bind]
    refine Prog.wp_bind (Prog.wp_mono (fun r w₂ hk => ⟨fun _ _ => ?_, fun _ _ => hk.inv⟩)
      (wp_plain (plain_carry ordinary_requireSession) hw))
    exact Prog.wp_mono (fun _ _ hk => hk.inv) (wp_runCommandBody
      (hk.allows (hfit.direct hw₁ hp hc hfree ho hj)) hk.inv)

/-- The body of an operation that needs no approval, in its frame. -/
theorem wp_runOperation {x : Execution} {prepared : Prepared} {requestId o : String}
    (hx : ∀ w, V.Inv w → w.started = true → w.current t = some o →
      (∃ e ∈ w.log, e.Judges o false) →
      (x.operation prepared o).wp (V.rules settings d t) (fun _ w' => V.Inv w') w)
    (hw : V.Inv w) (hs : w.started = true) (hj : ∃ e ∈ w.log, e.Judges o false) :
    (runOperation x prepared requestId o).wp (V.rules settings d t) (fun _ w' => V.Inv w') w := by
  unfold runOperation
  refine Prog.wp_handle (Prog.wp_mono (fun r w' hi => ⟨fun _ _ => hi, fun e _ => ?_⟩) (?_ :
    Prog.wp _ _ (fun _ w' => V.Inv w') w))
  · exact Prog.wp_mono (fun _ _ hk => hk.inv) (wp_plain plain_settle hi)
  · refine Prog.wp_bind (Prog.wp_mono (fun r w₁ hk => ⟨fun _ _ => ?_, fun _ _ => hk.inv⟩)
      (wp_plain plain_dispatch hw))
    refine Prog.wp_bind (Prog.wp_mono (fun r w₂ hent => ⟨fun _ _ => ?_, fun _ _ => hent.1⟩)
      wp_enter)
    obtain ⟨hi₂, hcur, hs₂, -, -, hlog⟩ := hent
    obtain ⟨e, he, hje⟩ := hj
    have he₂ : e ∈ w₂.log := by
      rw [hlog]
      exact List.mem_cons_of_mem _ (hk.follows.mem he)
    refine Prog.wp_bind (Prog.wp_mono (fun r w₃ hi => ⟨fun outcome _ => ?_, fun _ _ => hi⟩)
      (hx w₂ hi₂ (hs₂.trans (hk.follows.started hs)) hcur ⟨e, he₂, hje⟩))
    exact Prog.wp_mono (fun _ _ hk => hk.inv)
      (wp_plain (.bind plain_operation fun _ => Prog.asks_pure _) hi)

theorem wp_executeStarted {x : Execution} {requestId : String} {record : OperationRecord}
    (hx : V.Serves settings d t x) (hw : V.Inv w) (hs : w.started = true) :
    (executeStarted settings x requestId record).wp (V.rules settings d t)
      (fun _ w' => V.Inv w') w := by
  obtain ⟨ready, hjudge, hop⟩ := hx
  refine (Prog.wp_andThen _ _ _).2 (Prog.wp_mono (fun r w₁ hr => ?_) (hjudge w hw))
  obtain ⟨hk, hready⟩ := hr
  have plain {y : Service Payload} (hy : y.Asks Ask.Plain) :
      y.wp (V.rules settings d t) (fun _ w' => V.Inv w') w₁ :=
    Prog.wp_mono (fun _ _ hk => hk.inv) (wp_plain hy hk.inv)
  unfold afterCheck
  split
  · next needsApproval prepared =>
    refine Prog.wp_bind (wp_step rfl (fun _ h => by cases h) (fun _ _ h => by cases h)
      fun e a w₂ he hi => ⟨fun _ _ => ?_, fun _ _ => hi⟩)
    have hf : Follows t w₁ w₂ :=
      follows_exec (q := .mark (.judged record.operationId needsApproval _))
        (fun _ h => by cases h) (.inr fun _ h => by cases h) he
    cases needsApproval with
    | true => exact Prog.wp_mono (fun _ _ hk => hk.inv) (wp_plain plain_requireApproval hi)
    | false =>
      refine wp_runOperation (fun w hw hs hcur hj => hop prepared _ w (hready prepared rfl) hw hs
        hcur hj) hi (hf.started (hk.follows.started hs)) ?_
      rw [exec_mark he]
      exact ⟨_, List.mem_cons_self, _, rfl⟩
  · exact plain plain_settleError
  · exact plain (.bind plain_dropped fun _ => Prog.asks_raise _)

theorem wp_execute {caller : Caller} {x : Execution} (hx : V.Serves settings d t x)
    (hw : V.Inv w) :
    (execute settings caller x).wp (V.rules settings d t) (fun _ w' => V.Inv w') w := by
  refine Prog.wp_bind (Prog.wp_mono (fun r w₁ hb => ⟨fun _ hu => ?_, fun _ _ => hb.1.inv⟩)
    (wp_startBridge hw))
  obtain ⟨hk₁, hs⟩ := hb
  refine wp_plain_bind plain_refresh hk₁.inv fun _ w₂ hk₂ => ?_
  refine wp_plain_bind plain_requestIdOf hk₂.inv fun requestId w₃ hk₃ => ?_
  refine wp_plain_bind plain_quiet hk₃.inv fun operationId w₄ hk₄ => ?_
  refine wp_plain_bind (plain_exceptBridge (.map plain_startOperation) fun _ => Prog.asks_pure _)
    hk₄.inv fun started w₅ hk₅ => ?_
  have hs₅ : w₅.started = true :=
    (((hk₂.trans hk₃).trans hk₄).trans hk₅).follows.started (hs hu)
  cases started with
  | error payload => exact hk₅.inv
  | ok start =>
    cases hreplay : start.replay with
    | some payload => simpa [hreplay] using hk₅.inv
    | none => simpa [hreplay] using wp_executeStarted hx hk₅.inv hs₅

/-! ## Every call -/

theorem wp_withOriginal {caller : Caller} {o s : String} {find : Service OperationRecord}
    {run : OperationRecord → Service Payload} (hfind : find.Asks Ask.Plain) (hw : V.Inv w)
    (hrun : ∀ original w, V.Inv w → (run original).wp (V.rules settings d t)
      (fun _ w' => V.Inv w') w) :
    (withOriginal caller o s find run).wp (V.rules settings d t) (fun _ w' => V.Inv w') w := by
  refine wp_plain_bind plain_startBridge hw fun _ w₁ hk₁ => ?_
  refine wp_plain_bind (plain_exceptBridge (.map hfind) fun _ => .bind plain_requestIdOf fun _ =>
    Prog.asks_pure _) hk₁.inv fun found w₂ hk₂ => ?_
  cases found with
  | error payload => exact hk₂.inv
  | ok original => exact hrun original w₂ hk₂.inv

theorem serves_read {env : Env} {p : String} {s : Option String} {kind : OperationKind}
    {input : Dict} {body : Body Outcome} (hbody : body.Asks Act.Ordinary) :
    V.Serves env.settings d t (readExecution env p s kind input body) :=
  serves_plain (fun _ h => by cases h) fun _ _ => plain_carry hbody

theorem serves_mutation {env : Env} {p s : String} {kind : OperationKind} {input : Dict}
    {key : RequestKey} {body : String → Body Outcome} (hbody : ∀ o, (body o).Asks Act.Ordinary) :
    V.Serves env.settings d t (mutationExecution env p s kind input key body) :=
  serves_plain (fun _ h => by cases h) fun _ o => plain_carry (hbody o)

/-- Every tool that is an operation of its own starts commands only where the watch allows it. -/
theorem serves_execution (hfit : V.Fits) (env : Env) {call : ToolCall} {x : Execution}
    (h : call.execution env = some x) : V.Serves env.settings d t x := by
  cases call with
  | runCommand p s commandId kind key =>
    cases h
    exact serves_command hfit
  | checkpointCreate p s key =>
    cases h
    refine serves_plain (fun check hcheck => ?_) fun _ o => plain_carry
      (.bind ordinary_requireSession fun _ => ordinary_createCheckpointBody)
    cases hcheck
    exact ordinary_checkpointCreateCheck
  | checkpointRestore p s checkpointId expectedHead key =>
    cases h
    refine serves_plain (fun check hcheck => ?_) fun _ o => plain_carry
      ordinary_restoreCheckpointBody
    cases hcheck
    exact ordinary_checkpointRestoreCheck
  | projectOpen p =>
    cases h
    exact serves_read ordinary_projectOpenBody
  | projectStatus p s =>
    cases h
    exact serves_read ordinary_projectStatusBody
  | fileRead p s path offset limit =>
    cases h
    exact serves_read ordinary_fileReadBody
  | codeSearch p s pattern path include_ =>
    cases h
    exact serves_read ordinary_codeSearchBody
  | fileList p s path =>
    cases h
    exact serves_read ordinary_fileListBody
  | gitStatus p s =>
    cases h
    exact serves_read ordinary_gitStatusBody
  | gitDiff p s checkpointId =>
    cases h
    exact serves_read ordinary_gitDiffBody
  | fileEdit p s path old new description key =>
    cases h
    exact serves_mutation fun _ => ordinary_fileEditBody
  | fileCreate p s path content description key =>
    cases h
    exact serves_mutation fun _ => ordinary_fileCreateBody
  | fileWrite p s path content expected description key =>
    cases h
    exact serves_mutation fun _ => ordinary_fileWriteBody
  | fileMove p s source destination description key =>
    cases h
    exact serves_mutation fun _ => ordinary_fileMoveBody
  | fileDelete p s path description key =>
    cases h
    exact serves_mutation fun _ => ordinary_fileDeleteBody
  | directoryCreate p s path description key =>
    cases h
    exact serves_mutation fun _ => ordinary_directoryCreateBody
  | _ => cases h

theorem wp_some {x : Service Payload}
    (hx : x.wp (V.rules settings d t) (fun _ w' => V.Inv w') w) :
    (some <$> x : Service (Option Payload)).wp (V.rules settings d t) (fun _ w' => V.Inv w') w :=
  Prog.wp_map (Prog.wp_mono (fun _ _ hi => hi) hx)

/-- Every call obeys a watch that fits. -/
theorem wp_program (hfit : V.Fits) (caller : Caller) (call : ToolCall) (hw : V.Inv w) :
    (call.program settings caller).wp (V.rules settings d t) (fun _ w' => V.Inv w') w := by
  have own {x : Execution} (hx : V.Serves settings d t x) :
      (some <$> execute settings caller x : Service (Option Payload)).wp (V.rules settings d t)
        (fun _ w' => V.Inv w') w :=
    wp_some (wp_execute hx hw)
  cases call
  case approvalConfirm o s token key =>
    refine wp_some (wp_withOriginal plain_requireOperationForSession hw fun original w hw =>
      wp_execute ⟨fun _ => True, fun _ hw => wp_judge_plain (fun _ h => by cases h) hw,
        fun _ _ _ _ hw hs _ _ => ?_⟩ hw)
    exact wp_confirmBody hfit { settings, principal := caller.principal } hw hs
  case operationCancel o s key =>
    exact wp_some (wp_withOriginal plain_requireOperationForSession hw fun original w hw =>
      wp_execute (serves_plain (fun _ h => by cases h) fun _ _ => plain_cancelBody) hw)
  case operationReconcile o s decision evidence key =>
    exact wp_some (wp_withOriginal plain_requireOperationForReconcile hw fun original w hw =>
      wp_execute (serves_plain (fun _ h => by cases h) fun _ _ => plain_reconcileBody) hw)
  case operationStatus o s =>
    exact wp_some (Prog.wp_mono (fun _ _ hk => hk.inv) (wp_plain plain_operationStatus hw))
  case health =>
    exact Prog.wp_mono (fun _ _ hk => hk.inv) (wp_plain (.map (.bind plain_startBridge fun _ =>
      plain_refresh)) hw)
  case projectOpen p =>
    exact wp_some (wp_plain_bind plain_quiet hw fun id w₁ hk => wp_execute (serves_plain
      (fun _ h => by cases h) fun _ _ => plain_carry ordinary_projectOpenBody) hk.inv)
  all_goals
    simp only [ToolCall.program]
    split
    · next x hx =>
      exact own (serves_execution hfit { settings, principal := caller.principal } hx)
    · exact hw

theorem starts (hfit : V.Fits) : (V.discipline settings d).Starts := by
  intro t c w w' hi _ harrive
  refine Async.Task.wp_mono (fun _ _ _ => trivial) (wp_program hfit c.1 c.2
    ((V.discipline settings d).arrive_inv hi harrive))

/-- Wherever a call of a watched run stands, it starts a registered command only where the watch
allows it. -/
theorem allowed (hfit : V.Fits) (hi : V.Inv {}) {c : Call}
    {x : Async.Task Ask (fun q => Except Exn q.Result) (Except Exn (Option Payload))}
    (h : Async.Machine.HasFloor (V.bridge settings d) {} t c x w) {p : ProjectSpec}
    {command : CommandSpec} (hx : x.asking? = some (.invocation p command)) :
    V.allows t w p command := by
  obtain ⟨hi, hwp⟩ := Async.Discipline.hasFloor (starts hfit) hi trivial h
  have hb : (V.rules settings d t).before (.invocation p command) w w := rfl
  exact (Async.Task.legal_of_asking hwp hx hb).2 p command rfl

end Watch

end CodemcpBridge
