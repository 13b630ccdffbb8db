import CodemcpBridge.Async.Play
import CodemcpBridge.Discipline.Watched
import CodemcpBridge.Properties.Runs

/-!
# What was approved is what runs

The stored operation keeps the id of its command alone, and the confirmation resolves the id in the
snapshot of its own time.  What it runs is what the approval was issued for as long as a command
that has changed meanwhile is not found in `codemcp.toml`.
-/

namespace CodemcpBridge

open Async (Machine Prog)
open scoped Classical

variable {settings : PolicySettings} {d : Discretion} {t : ℕ} {w : World} {o : String}

/-- What is run of a command. -/
def CommandSpec.run (command : CommandSpec) : List String × String × PyFloat :=
  (command.argv, command.kind, command.timeoutSeconds)

/-- The approval check of the operation has resolved a command of which the same is run. -/
def World.issuedFor (w : World) (o : String) (command : CommandSpec) : Prop :=
  ∃ e ∈ w.log, ∃ resolved, e.Resolves o resolved ∧ resolved.run = command.run

/-- Where a task is in the body of an operation whose stored command the installed snapshot resolves
to one that it was not issued for, the check of `codemcp.toml` does not pass that command. -/
def refusesChanged (t : ℕ) (w : World) (q : Quiet) (a : Except Exn q.Result) : Prop :=
  ∀ o row project command, w.current t = some o → w.db.operation? o = some row →
    row.resolve? w.registry = some (project, command) → ¬w.issuedFor o command →
    ¬command.Accepts q a

/-- What is issued for stays issued for. -/
theorem World.issuedFor.follows {w' : World} {command : CommandSpec} (h : w.issuedFor o command)
    (hf : Follows t w w') : w'.issuedFor o command := by
  obtain ⟨e, he, resolved, hr, hrun⟩ := h
  exact ⟨e, hf.mem he, resolved, hr, hrun⟩

/-- A task runs what its operation was issued for, or was judged to run without approval. -/
def approvedWatch : Watch where
  within _ := True
  answers := refusesChanged
  allows t w _ command := ∃ o, w.current t = some o ∧
    ((∃ e ∈ w.log, e.Judges o false) ∨ w.issuedFor o command)
  allows_follows {t w w' project command} hf h := by
    obtain ⟨o, ho, hj⟩ := h
    refine ⟨o, hf.current.trans ho, ?_⟩
    rcases hj with ⟨e, he, hj⟩ | hi
    · exact .inl ⟨e, hf.mem he, hj⟩
    · exact .inr (hi.follows hf)

instance : DecidablePred approvedWatch.within := fun _ => .isTrue trivial

theorem approvedWatch_fits : approvedWatch.Fits where
  direct {t w₁ w projectId commandId o project command} _ _ _ _ ho hj := ⟨o, ho, .inl hj⟩
  confirmed {t w₀ w o k now st row db project command} _ _ _ hres ho hreg hrow ha _ := by
    obtain ⟨running, hrunning, hb⟩ := hrow
    obtain ⟨q, a, hshown, haccepts⟩ := ha
    have hresolved : running.resolve? w.registry = some (project, command) := by
      rw [hb.resolve?, hreg]
      exact hres
    by_contra hnot
    have hchanged : ¬w.issuedFor o command := fun hi => hnot ⟨o, ho, .inr hi⟩
    exact hshown o running project command ho hrunning hresolved hchanged haccepts

/-- The answers under which a command that has changed is refused. -/
def changedRefused (t : ℕ) (w : World) : (q : Ask) → Except Exn q.Result → Prop
  | .quiet q, a => refusesChanged t w q a
  | _, _ => True

theorem changedRefused_given (t : ℕ) (w : World) (q : Ask) (a : Except Exn q.Result) :
    approvedWatch.given t w q a = changedRefused t w q a := by
  cases q <;> rfl

/-! ## A confirmation that starts nothing -/

/-- A body, carried out without starting a command. -/
theorem yields_carry_idle {α : Type} {P : α → Prop} {x : Body α}
    (h : x.Yields (fun a _ => ∀ p c, a ≠ .command p c) P) :
    (carry settings x).Yields (fun q _ => ∀ p c, q ≠ .invocation p c) P := by
  induction x with
  | done r => cases r with
    | ok a => exact h
    | error e => trivial
  | ask q k ih => cases q with
    | quiet q => exact fun a _ => ih a (h a nofun)
    | git root arguments => exact Prog.yields_after fun a => ih a (h a nofun)
    | command p c => exact fun a ha => absurd rfl (ha p c)

/-- The body of a command does not return without having started it. -/
theorem yields_runCommandBody {env : Env} {p : ProjectSpec} {c : CommandSpec} {s o : String} :
    (runCommandBody env p c s o).Yields (fun a _ => ∀ p c, a ≠ .command p c) fun _ => False := by
  unfold runCommandBody
  refine Prog.yields_bind (O := fun _ => False) ?_ fun _ h => h.elim
  refine Prog.yields_bind (Prog.yields_true _) fun _ _ => Prog.Yields.ensuring ?_
  refine Prog.yields_bind (Prog.yields_true _) fun m _ => ?_
  exact Prog.yields_bind (O := fun _ => False) (fun a ha => absurd rfl (ha p c)) fun _ h => h.elim

theorem yields_runCommandForOperation {env : Env} {running : OperationRecord} :
    (runCommandForOperation env running).Yields (fun a _ => ∀ p c, a ≠ .command p c)
      fun _ => False := by
  have malformed {α : Type} {f : α → Body Outcome} :
      (Body.reject .invalidRequest "stored command operation is malformed" >>= f).Yields
        (fun a _ => ∀ p c, a ≠ .command p c) fun _ => False :=
    Prog.yields_bind (O := fun _ => False) (Prog.yields_raise _) fun _ h => h.elim
  unfold runCommandForOperation
  dsimp only
  split
  · exact Prog.yields_raise _
  · refine Prog.yields_bind (Prog.yields_true _) fun project _ => ?_
    split
    on_goal 4 => exact malformed
    on_goal 3 => refine Prog.yields_ite (fun _ => ?_) fun _ => malformed
    on_goal 2 => refine Prog.yields_ite (fun _ => ?_) fun _ => malformed
    all_goals
      refine Prog.yields_bind (Prog.yields_true _) fun command _ => ?_
      split
      · exact Prog.yields_raise _
      · exact yields_runCommandBody

theorem yields_settleApproved {may : (q : Ask) → Except Exn q.Result → Prop} {o : String}
    {state : OperationState} {final : Payload} {files : List String} {truncated : Bool}
    {status : Status} : (settleApproved o state final files truncated status).Yields may
      fun outcome => outcome.status = status :=
  Prog.yields_bind (Prog.yields_true _) fun _ _ => Prog.yields_pure rfl

/-- What becomes of an approved operation whose body has not returned: it has failed, if the
confirmation is answered at all. -/
theorem yields_approvedEnd {may : (q : Ask) → Except Exn q.Result → Prop} {caller : Caller}
    {s : String} {running : OperationRecord} {e : Exn} :
    (approvedEnd caller s running (.error e)).Yields may fun outcome =>
      outcome.status = .failed := by
  unfold approvedEnd
  split
  · next heq => cases heq
  · exact Prog.yields_bind (Prog.yields_true _) fun _ _ => Prog.yields_raise _
  · exact Prog.yields_bind (Prog.yields_true _) fun _ _ => yields_settleApproved
  · exact Prog.yields_bind (Prog.yields_true _) fun _ _ => yields_settleApproved

/-- A confirmed operation about a command that starts no command has failed. -/
theorem yields_idle {env : Env} {caller : Caller} {s : String} {running : OperationRecord}
    (hcreate : running.kind ≠ .checkpointCreate) (hrestore : running.kind ≠ .checkpointRestore) :
    ((carry env.settings (runApprovedOperation env running)).andThen
      (approvedEnd caller s running)).Yields (fun q _ => ∀ p c, q ≠ .invocation p c)
        fun outcome => outcome.status = .failed := by
  have hrun : runApprovedOperation env running = runCommandForOperation env running := by
    unfold runApprovedOperation
    split
    · next h => exact absurd h hcreate
    · next h => exact absurd h hrestore
    · rfl
  rw [hrun]
  exact Prog.yields_andThen (yields_carry_idle yields_runCommandForOperation)
    (fun _ h => h.elim) fun _ => yields_approvedEnd

/-! ## What a confirmation starts -/

/-- In every run in which the check of `codemcp.toml` passes no command that has changed since the
approval was issued, a confirmed operation starts a command with the arguments, the kind and the
timeout of the one that was resolved when the approval was issued.  If it starts none, it has
failed. -/
theorem approved_command_runs (settings : PolicySettings) (d : Discretion) :
    (∀ t c x w project command,
      Machine.HasFloor ((bridge settings d).answering changedRefused) {} t c x w →
      x.asking? = some (.invocation project command) → ∀ o, w.current t = some o →
      (∃ e ∈ w.log, e.Judges o true) → ∃ e ∈ w.log, ∃ resolved, e.Resolves o resolved ∧
        resolved.run = command.run ∧
        ∀ e' ∈ w.log, ∀ resolved', e'.Resolves o resolved' → resolved' = resolved) ∧
    ∀ env caller s running, running.kind ≠ .checkpointCreate → running.kind ≠ .checkpointRestore →
      ((carry env.settings (runApprovedOperation env running)).andThen
        (approvedEnd caller s running)).Yields (fun q _ => ∀ p c, q ≠ .invocation p c)
          fun outcome => outcome.status = .failed := by
  refine ⟨fun t c x w project command h hx o ho hj => ?_, fun _ _ _ _ => yields_idle⟩
  have hinv := ((discipline settings d).hasFloor (starts settings d) (inv_init d) (fun _ => rfl)
    ((Machine.part_of_answering (bridge settings d) changedRefused).hasFloor h)).1
  have once {e e' : Entry} {b b' : Bool} (he : e ∈ w.log) (he' : e' ∈ w.log)
      (hj : e.Judges o b) (hj' : e'.Judges o b') : e = e' :=
    hinv.history.lawful.judged_once he he' hj hj'
  have hsame : approvedWatch.given = changedRefused := by
    funext t w q a
    exact changedRefused_given t w q a
  have hwatched := (Machine.part_within_all ((bridge settings d).answering changedRefused)
    (J := approvedWatch.within) fun _ => trivial).hasFloor h
  obtain ⟨o', ho', hallowed⟩ := Watch.allowed (V := approvedWatch) approvedWatch_fits
    ⟨trivial, Database.sound_empty⟩ (by
      unfold Watch.bridge
      simpa only [hsame] using hwatched) hx
  obtain rfl := Option.some.inj (ho.symm.trans ho')
  obtain ⟨e, he, hjudged⟩ := hj
  rcases hallowed with ⟨e', he', hfree⟩ | ⟨e', he', resolved, hres, hrun⟩
  · obtain rfl := once he he' hjudged hfree
    obtain ⟨S, hS⟩ := hjudged
    obtain ⟨S', hS'⟩ := hfree
    cases hS.symm.trans hS'
  · refine ⟨e', he', resolved, hres, hrun, fun e₁ he₁ resolved₁ hres₁ => ?_⟩
    obtain ⟨b, hb⟩ := hres.judges
    obtain ⟨b₁, hb₁⟩ := hres₁.judges
    obtain rfl := once he₁ he' hb₁ hb
    exact hres₁.unique hres

/-! ## Runs -/

/-- The command that an entry says the approval check of the operation has resolved. -/
def Entry.resolved? (e : Entry) (o : String) : Option CommandSpec :=
  match e.event with
  | .mark (.judged o' _ resolved) => if o' = o then resolved else none
  | _ => none

theorem Entry.resolves_iff {e : Entry} {command : CommandSpec} :
    e.Resolves o command ↔ e.resolved? o = some command := by
  constructor
  · rintro ⟨b, hev⟩
    unfold Entry.resolved?
    rw [hev]
    exact if_pos rfl
  · intro h
    unfold Entry.resolved? at h
    split at h
    · next o' b resolved hev =>
      by_cases ho : o' = o
      · rw [if_pos ho] at h
        exact ⟨b, by rw [hev, h, ho]⟩
      · rw [if_neg ho] at h
        cases h
    · cases h

/-- Whether the installed snapshot resolves the operation whose body the task is in to what it was
issued for, if it resolves it at all. -/
def seenUnchanged (t : ℕ) (w : World) : Bool :=
  (w.current t).all fun o => (w.db.operation? o).all fun row =>
    (row.resolve? w.registry).all fun r =>
    w.log.any fun e => (e.resolved? o).any fun resolved => resolved.run == r.2.run

theorem changedRefused_of_seen {q : Ask} {a : Except Exn q.Result}
    (h : seenUnchanged t w = true) : changedRefused t w q a := by
  cases q with
  | quiet q =>
    intro o row project command ho hrow hres hnot
    unfold seenUnchanged at h
    rw [ho, Option.all_some, hrow, Option.all_some, hres, Option.all_some] at h
    obtain ⟨e, he, h⟩ := List.any_eq_true.1 h
    obtain ⟨resolved, hresolved, h⟩ := (Option.any_eq_true _ _).1 h
    exact absurd ⟨e, he, resolved, Entry.resolves_iff.2 hresolved, by simpa using h⟩ hnot
  | _ => trivial

/-- The calls by which a command of the sample project waits for its approval and is confirmed, with
the registry and the content of `codemcp.toml` at the confirmation. -/
def confirmedUnder (registry : Option Registry) (argv : List String) : List BridgeMove :=
  opening 1 10 {} ++
  [arrives none 2 20 {} (.runCommand "p" (openedSession 10) "c" none
      (keyFor "run" (commandInput "c" none))),
    .call 3 ({}, .approvalConfirm (drawnId 20 4) (openedSession 10) (drawnId 20 18)
      (keyFor "confirm" [("operation_id", .str (drawnId 20 4)),
        ("approval_token_digest", textDigest (drawnId 20 18))])) fun n =>
      { fair registry "" 30 n with
        answer := fun
          | .quiet (.configuredArgv ..) => .ok (some argv)
          | q => (fair registry "" 30 n).answer q }] ++
  proceeds 3 40 ("" :: printing ["/p", "main", sampleHead, "", "/p", "main", sampleHead,
    "", "", "", "main", sampleHead] ++ [""])

/-- The last move of such a run, in which the command is started. -/
def confirmedStart : BridgeMove :=
  .wake 3 (fair none "" 70 0) fun n => fair none "" 70 (n + 1)

/-- The command that a question starts. -/
def Ask.started? : Ask → Option CommandSpec
  | .invocation _ command => some command
  | _ => none

theorem Ask.started?_some {q : Ask} {command : CommandSpec} (h : q.started? = some command) :
    ∃ project, q = .invocation project command := by
  cases q <;> simp only [Ask.started?, Option.some.injEq, reduceCtorEq] at h
  exact ⟨_, by rw [h]⟩

/-- A task that has stopped within a run. -/
abbrev Stopped :=
  ℕ × Call × Async.Task Ask (fun q => Except Exn q.Result) (Except Exn (Option Payload)) × World

/-- Whether the task is about to start a command for an operation that was judged to need an
approval, where `holds` of the command and of what was resolved for the approval. -/
def startsApproved (holds : CommandSpec → CommandSpec → Bool) : Stopped → Bool
  | (t, _, x, w) => match x.asking?.bind Ask.started?, w.current t with
    | some command, some o =>
      (w.log.any fun e => match e.event with
        | .mark (.judged o' needsApproval _) => o' == o && needsApproval
        | _ => false) &&
      w.log.all fun e => (e.resolved? o).all fun resolved => holds command resolved
    | _, _ => false

theorem startsApproved_spec {holds : CommandSpec → CommandSpec → Bool} {t : ℕ} {c : Call}
    {x} {w : World} (h : startsApproved holds (t, c, x, w) = true) : ∃ project command o,
      x.asking? = some (.invocation project command) ∧ w.current t = some o ∧
      (∃ e ∈ w.log, e.Judges o true) ∧
      ∀ e ∈ w.log, ∀ resolved, e.Resolves o resolved → holds command resolved = true := by
  dsimp only [startsApproved] at h
  split at h
  · next command o hasks ho =>
    obtain ⟨q, hq, hstarted⟩ := Option.bind_eq_some_iff.1 hasks
    obtain ⟨project, rfl⟩ := Ask.started?_some hstarted
    obtain ⟨hjudged, hall⟩ := (Bool.and_eq_true _ _).mp h
    refine ⟨project, command, o, hq, ho, ?_, fun e he resolved hres => ?_⟩
    · obtain ⟨e, he, hj⟩ := List.any_eq_true.1 hjudged
      refine ⟨e, he, ?_⟩
      split at hj
      · next o' needsApproval resolved hev =>
        obtain ⟨ho', hn⟩ := (Bool.and_eq_true _ _).mp hj
        exact ⟨resolved, by rw [hev, eq_of_beq ho', hn]⟩
      · cases hj
    · have := List.all_eq_true.1 hall e he
      rwa [Entry.resolves_iff.1 hres, Option.all_some] at this
  · cases h

theorem approved_command_runs_unchanged :
    (∃ c x w project command o,
      Machine.HasFloor ((bridge {} {}).answering changedRefused) {} 3 c x w ∧
      x.asking? = some (.invocation project command) ∧ w.current 3 = some o ∧
      ∃ e ∈ w.log, ∃ resolved, e.Resolves o resolved ∧ resolved.run = command.run ∧
        ∀ e' ∈ w.log, ∀ resolved', e'.Resolves o resolved' → resolved' = resolved) ∧
    ∀ env caller s running, running.kind = .registeredCommandRun →
      ((carry env.settings (runApprovedOperation env running)).andThen
        (approvedEnd caller s running)).Yields (fun q _ => ∀ p c, q ≠ .invocation p c)
          fun outcome => outcome.status = .failed := by
  have main := approved_command_runs {} {}
  constructor
  · have check : ((Machine.Pool.plays ((bridge {} {}).answering fun t w _ _ => seenUnchanged t w)
        (confirmedUnder none ["run"]) { world := {} }).bind fun p =>
          p.stops ((bridge {} {}).answering fun t w _ _ => seenUnchanged t w)
            (fun q => q.started?.isSome) confirmedStart).any
              (fun r => startsApproved (fun _ _ => true) r && r.1 == 3) = true := by
      decide +kernel
    obtain ⟨t, c, x, w, hfloor, hcheck⟩ := Machine.hasFloor_of_played check
    obtain ⟨hstarts, ht⟩ := (Bool.and_eq_true _ _).mp hcheck
    obtain rfl : t = 3 := eq_of_beq ht
    obtain ⟨project, command, o, hx, ho, hj, -⟩ := startsApproved_spec hstarts
    have hfloor := (Machine.part_answering_mono (bridge {} {})
      fun t w q a => changedRefused_of_seen (t := t) (w := w) (q := q) (a := a)).hasFloor hfloor
    exact ⟨c, x, w, project, command, o, hfloor, hx, ho,
      main.1 3 c x w project command hfloor hx o ho hj⟩
  · intro env caller s running hkind
    exact main.2 env caller s running (by rw [hkind]; decide) (by rw [hkind]; decide)

/-- The sample project after its command has been changed. -/
def changedProject : ProjectSpec :=
  { sampleProject with
    commands := [("c", { commandId := "c", kind := "test", argv := ["other"], timeoutSeconds := 60
                         approval := .required })] }

/-- The registry and `codemcp.toml` are changed together between the issue of the approval and its
confirmation: the confirmation starts the new command. -/
theorem approved_command_changed :
    ¬ ∀ t c x w project command, Machine.HasFloor (bridge {} {}) {} t c x w →
      x.asking? = some (.invocation project command) → ∀ o, w.current t = some o →
      (∃ e ∈ w.log, e.Judges o true) →
        ∃ e ∈ w.log, ∃ resolved, e.Resolves o resolved ∧ resolved.run = command.run := by
  intro same
  have check : ((Machine.Pool.plays (bridge {} {})
      (confirmedUnder (some [("p", changedProject)]) ["other"]) { world := {} }).bind fun p =>
        p.stops (bridge {} {}) (fun q => q.started?.isSome) confirmedStart).any
          (startsApproved fun command resolved => resolved.run != command.run) = true := by
    decide +kernel
  obtain ⟨t, c, x, w, hfloor, hcheck⟩ := Machine.hasFloor_of_played check
  obtain ⟨project, command, o, hx, ho, hj, hall⟩ := startsApproved_spec hcheck
  obtain ⟨e, he, resolved, hres, hrun⟩ := same t c x w project command hfloor hx o ho hj
  exact absurd hrun (by simpa using hall e he resolved hres)

end CodemcpBridge
