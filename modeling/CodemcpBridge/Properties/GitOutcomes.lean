import CodemcpBridge.Checkout
import CodemcpBridge.GitAsks

/-!
# Steps of Git that may have acted

The four methods of `GitGuard` that commit, where every step may fail after it has had its effect,
or part of it.  What has acted and then fails is reported as unknown, but for the steps that take a
file away from its place: whatever an error of `git mv` or `git rm` has left behind, it is a plain
failure.
-/

namespace CodemcpBridge

open Async (Prog)
open Body
open Async.Prog (wp_bind wp_mono wp_handle)

namespace GitOutcomes

/-! ## Outcomes of steps -/

/-- The worktree, the index and `HEAD` of a project, of whatever kind they are, and whether a step
that takes a file away has failed and left them changed. -/
structure Trace (State : Type) where
  state : State
  slipped : Prop := False

/-- `git mv` or `git rm`. -/
def takesAway : Act → Prop
  | .git _ arguments => arguments.head? = some "mv" ∨ arguments.head? = some "rm"
  | _ => False

variable {State : Type}

/-- Any step may succeed or fail, whether it has had its effect, a part of it or none; a step that
only looks has none.  A call of the filesystem raises no error of the service. -/
def rules (State : Type) : Async.Rules Act (fun a => Except Exn a.Result) (Trace State) where
  asked _ _ := True
  before _ w w' := w' = w
  legal _ _ := True
  answer a w r w' :=
    (a.changes = false → w'.state = w.state) ∧
    (w'.slipped ↔ w.slipped ∨
      takesAway a ∧ (∃ e, r = .error (.bridge e)) ∧ w'.state ≠ w.state) ∧
    ∀ q e, a = .quiet q → r ≠ .error (.bridge e)

/-- A call that began in `state` and fails with an error of another status than unknown has left it
as it was. -/
def Faithful {α : Type} (state : State) (r : Except Exn α) (w : Trace State) : Prop :=
  ∀ e, r = .error (.bridge e) → e.status ≠ .unknown → w.state = state

/-- The error, if it is one of the service, has the status unknown. -/
def Unknown {α : Type} (r : Except Exn α) : Prop :=
  ∀ e, r = .error (.bridge e) → e.status = .unknown

variable {α β : Type} {w : Trace State} {root path head message dirty target : String}
  {arguments paths : List String} {content : ByteArray} {requireExists : Option Bool}

theorem Unknown.faithful {r : Except Exn α} {state : State} (h : Unknown r) : Faithful state r w :=
  fun e he hs => absurd (h e he) hs

/-- A look: nothing is changed. -/
def Looks (a : Act) : Prop := a.changes = false ∧ ¬ takesAway a

/-- A step that takes no file away. -/
def Stays (a : Act) : Prop := ¬ takesAway a

theorem Asks.stays {x : Body α} (hx : x.Asks Looks) : x.Asks Stays :=
  Prog.Asks.mono (fun _ ha => ha.2) hx

/-- Looks leave everything as it is. -/
theorem wp_looks {x : Body α} (hx : x.Asks Looks) : x.wp (rules State) (fun _ w' => w' = w) w := by
  refine Prog.Asks.wp (fun _ _ => trivial) (fun {a v v'} ha hv hb => ⟨trivial, fun r v'' hr => ?_⟩)
    hx rfl
  subst hb hv
  obtain ⟨hstate, hslip, -⟩ := hr
  have same : v''.slipped = v'.slipped := by
    rw [hslip]
    exact propext (or_iff_left fun h => ha.2 h.1)
  obtain ⟨state, slipped⟩ := v''
  obtain rfl : state = v'.state := hstate ha.1
  rw [show slipped = v'.slipped from same]

/-- What takes no file away does not slip. -/
theorem wp_stays {x : Body α} (hx : x.Asks Stays) (hw : ¬ w.slipped) :
    x.wp (rules State) (fun _ w' => ¬ w'.slipped) w := by
  refine Prog.Asks.wp (fun _ _ => trivial) (fun {a v v'} ha hv hb => ⟨trivial, fun r v'' hr => ?_⟩)
    hx hw
  subst hb
  obtain ⟨-, hslip, -⟩ := hr
  rw [hslip, or_iff_left fun h => ha h.1]
  exact hv

/-- A look that fails ends the call as it began; one that succeeds leads on. -/
theorem wp_after_looks {x : Body α} {f : α → Body β} {P : Except Exn β → Trace State → Prop}
    (hx : x.Asks Looks) (hf : ∀ a, (f a).wp (rules State) P w)
    (he : ∀ e, P (.error e) w) : (x >>= f).wp (rules State) P w := by
  refine wp_bind (wp_mono (fun r w' hw => ?_) (wp_looks hx))
  subst hw
  exact ⟨fun a _ => hf a, fun e _ => he e⟩

theorem wp_pure_bind {a : α} {f : α → Body β} {P : Except Exn β → Trace State → Prop}
    (h : (f a).wp (rules State) P w) : ((pure a : Body α) >>= f).wp (rules State) P w := h

/-! ## What the methods are made of -/

theorem looks_run (hc : gitChanges arguments = false) (hm : arguments.head? ≠ some "mv")
    (hr : arguments.head? ≠ some "rm") : (GitGuard.run root arguments).Asks Looks :=
  Prog.asks_ask ⟨hc, fun h => h.elim hm hr⟩

theorem stays_run (hm : arguments.head? ≠ some "mv") (hr : arguments.head? ≠ some "rm") :
    (GitGuard.run root arguments).Asks Stays := Prog.asks_ask fun h => h.elim hm hr

theorem looks_quiet {q : Quiet} (h : q.changes = false) : (quiet q).Asks Looks :=
  Prog.asks_ask ⟨h, id⟩

theorem looks_status : (GitGuard.status root).Asks Looks :=
  .bind (looks_run (by decide) (by decide) (by decide)) fun _ =>
    .bind (looks_run (by decide) (by decide) (by decide)) fun _ =>
      .bind (looks_run (by decide) (by decide) (by decide)) fun _ => ⟨trivial⟩

theorem looks_requireBaseline : (GitGuard.requireBaseline root head message dirty).Asks Looks :=
  GitGuard.asks_requireBaseline looks_status

theorem looks_verifyAmendTarget {expectedBranch : Option String} :
    (GitGuard.verifyAmendTarget root head expectedBranch).Asks Looks :=
  GitGuard.asks_verifyAmendTarget looks_status fun _ => ⟨by rfl, by simp [takesAway]⟩

theorem looks_checkTarget : (GitGuard.checkTarget target path content requireExists).Asks Looks :=
  GitGuard.asks_checkTarget ⟨rfl, id⟩ ⟨rfl, id⟩ ⟨rfl, id⟩

/-! ## Changes -/

theorem stays_of_commit (hc : arguments.head? = some "commit") :
    (GitGuard.run root arguments).Asks Stays := stays_run (by rw [hc]; decide) (by rw [hc]; decide)

/-- No error of the service. -/
def Silent {α : Type} (r : Except Exn α) : Prop := ∀ e, r ≠ .error (.bridge e)

theorem wp_quiet {q : Quiet} : (quiet q).wp (rules State) (fun r _ => Silent r) w :=
  (Prog.wp_ask _ _).2 ⟨trivial, fun _ _ => ⟨trivial, fun _ _ hr e => hr.2.2 q e rfl⟩⟩

theorem Silent.unknown {r : Except Exn α} (h : Silent r) : Unknown r := fun e he => absurd he (h e)

/-- A handler of what the filesystem raises. -/
theorem wp_unknown_of_handle {x : Body α} {h : Exn → Option (Body α)}
    (hx : x.wp (rules State) (fun r _ => Silent r) w)
    (hh : ∀ e y v, h e = some y → y.wp (rules State) (fun r _ => Unknown r) v) :
    (x.handle h).wp (rules State) (fun r _ => Unknown r) w := by
  refine wp_handle (wp_mono (fun r v hr => ⟨fun a _ => nofun, fun e he => ?_⟩) hx)
  subst he
  cases hy : h e with
  | none => exact hr.unknown
  | some y => exact hh e y v hy

theorem wp_unknown_bind {x : Body α} {f : α → Body β}
    (hx : x.wp (rules State) (fun r _ => Unknown r) w)
    (hf : ∀ a v, (f a).wp (rules State) (fun r _ => Unknown r) v) :
    (x >>= f).wp (rules State) (fun r _ => Unknown r) w := by
  refine wp_bind (wp_mono (fun r v hr => ⟨fun a _ => hf a v, fun e he => ?_⟩) hx)
  subst he
  exact fun b hb => hr b (by rw [Except.error.inj hb])

theorem unknown_reject {code : ErrorCode} {details : Dict} {retryable : Bool} :
    (reject code message details .unknown retryable : Body α).wp (rules State)
      (fun r _ => Unknown r) w := fun e he => by
  cases he
  rfl

/-- A file is replaced, or the outcome is unknown. -/
theorem wp_writeFile : (GitGuard.writeFile target path content).wp (rules State)
    (fun r _ => Unknown r) w := by
  unfold GitGuard.writeFile
  refine wp_unknown_bind (wp_unknown_of_handle wp_quiet fun e y v he => ?_) fun temp v => ?_
  · split_ifs at he
    cases he
    exact unknown_reject
  · refine wp_unknown_of_handle ?_ fun e y v he => ?_
    · refine wp_bind (wp_mono (fun r v hr => ⟨fun _ _ => wp_quiet, fun e he => ?_⟩) wp_quiet)
      subst he
      exact fun b hb => hr b (by rw [Except.error.inj hb])
    · split_ifs at he
      cases he
      refine wp_unknown_bind (wp_unknown_of_handle wp_quiet fun e y v he => ?_) fun _ _ =>
        unknown_reject
      split_ifs at he
      cases he
      exact nofun

/-- Every step is possible at any time. -/
theorem wp_true (x : Body α) (w : Trace State) : x.wp (rules State) (fun _ _ => True) w := by
  induction x generalizing w with
  | done r => trivial
  | ask a k ih => exact ⟨trivial, fun v hb => ⟨trivial, fun r v' hr => ih r v'⟩⟩

/-- What follows a change: its errors are made unknown. -/
theorem wp_unknown_finish {x : Body String} {details : BridgeError → Dict} :
    (x.exceptBridge fun exc => reject .unknownSideEffect message (details exc) .unknown).wp
      (rules State) (fun r _ => Unknown r) w := by
  refine wp_handle (wp_mono (fun r v _ => ⟨fun a _ => nofun, fun e _ => ?_⟩) (wp_true x w))
  cases e with
  | bridge e => exact unknown_reject
  | _ => exact nofun

/-- What takes no file away either slips nowhere or its error is unknown. -/
theorem wp_finish {x : Body String} {details : BridgeError → Dict} (hx : x.Asks Stays)
    (hw : ¬ w.slipped) :
    (x.exceptBridge fun exc => reject .unknownSideEffect message (details exc) .unknown).wp
      (rules State) (fun r w' => Unknown r ∧ ¬ w'.slipped) w := by
  refine wp_handle (wp_mono (fun r v hv => ⟨fun a _ => ⟨nofun, hv⟩, fun e _ => ?_⟩)
    (wp_stays hx hw))
  cases e with
  | bridge e => exact ⟨fun b hb => by cases hb; rfl, hv⟩
  | _ => exact ⟨nofun, hv⟩

theorem stays_commitAndVerify {commitMode : CommitMode} {expectedBranch : Option String}
    (hc : arguments.head? = some "commit") :
    (GitGuard.commitAndVerify root arguments commitMode head expectedBranch
      message).Asks Stays := by
  have rest : (do
      let _ ← GitGuard.run root arguments
      let final ← GitGuard.status root
      if final.dirty ∨ Text.lower final.head = Text.lower head then
        reject .conflict message
          [("expected_previous_head", .str head), ("actual_head", .str final.head),
            ("changed_files", .ofStrings final.changedFiles)]
      pure final.head : Body String).Asks Stays := by
    refine .bind (stays_of_commit hc) fun _ => .bind (Asks.stays looks_status) fun final => ?_
    dsimp only
    split_ifs <;> exact ⟨trivial⟩
  unfold GitGuard.commitAndVerify
  by_cases amend : commitMode = .amendSessionWip
  · rw [if_pos amend]
    exact .bind (Asks.stays looks_verifyAmendTarget) fun _ => rest
  · rw [if_neg amend]
    exact rest

/-- A step that takes a file away, and what follows it. -/
theorem wp_takeAway (ht : takesAway (.git root arguments)) (hw : ¬ w.slipped) {code : ErrorCode}
    {details : Dict} {rest : String → Body String}
    (hr : ∀ output v, ¬ v.slipped →
      (rest output).wp (rules State) (fun r w' => Unknown r ∧ ¬ w'.slipped) v) :
    ((GitGuard.run root arguments).exceptBridge (fun _ => reject code message details .failed) >>=
      rest).wp (rules State) (fun r w' => Faithful w.state r w' ↔ ¬ w'.slipped) w := by
  refine wp_bind (wp_handle ((Prog.wp_ask _ _).2 ⟨trivial, fun v hb => ⟨trivial, ?_⟩⟩))
  subst hb
  intro r w' hstep
  have hslip : w'.slipped ↔ (∃ e, r = .error (.bridge e)) ∧ w'.state ≠ v.state := by
    rw [hstep.2.1, or_iff_right hw, and_iff_right ht]
  cases r with
  | ok output =>
    have clean : ¬ w'.slipped := fun h => by
      obtain ⟨⟨e, he⟩, -⟩ := hslip.1 h
      cases he
    refine ⟨fun a ha => ⟨fun b hb => ?_, nofun⟩, nofun⟩
    refine wp_mono (fun r w'' h => ?_) (hr b w' clean)
    exact iff_of_true h.1.faithful h.2
  | error e =>
    refine ⟨nofun, fun e' he' => ?_⟩
    cases he'
    cases e with
    | bridge e =>
      refine ⟨nofun, fun e' he' => ?_⟩
      cases he'
      rw [hslip, and_iff_right ⟨e, rfl⟩, not_not]
      exact ⟨fun h => h _ rfl nofun, fun h _ _ _ => h⟩
    | _ =>
      refine ⟨nofun, fun e' he' => ?_⟩
      cases he'
      refine iff_of_true (fun _ h _ => by cases h) fun h => ?_
      obtain ⟨⟨e, he⟩, -⟩ := hslip.1 h
      cases he

/-! ## The four methods -/

variable {source destination description sessionId : String} {commitMode : CommitMode}
  {expectedBranch : Option String}

/-- Where nothing has happened yet. -/
theorem faithful_iff_of_error {e : Exn} (hw : ¬ w.slipped) :
    Faithful w.state (.error e : Except Exn α) w ↔ ¬ w.slipped :=
  iff_of_true (fun _ _ _ => rfl) hw

theorem wp_move (hw : ¬ w.slipped) :
    (GitGuard.moveTrackedFile root source destination head description commitMode sessionId
      expectedBranch).wp (rules State) (fun r w' => Faithful w.state r w' ↔ ¬ w'.slipped) w := by
  unfold GitGuard.moveTrackedFile
  refine wp_after_looks GitGuard.asks_requireHead (fun _ => ?_) fun e => faithful_iff_of_error hw
  rcases GitGuard.commitArguments_cases [source, destination] commitMode description sessionId with
    ⟨options, he⟩ | ⟨e, he⟩
  · rw [he]
    refine wp_pure_bind (wp_after_looks looks_requireBaseline (fun _ => ?_) fun e =>
      faithful_iff_of_error hw)
    refine wp_takeAway (.inl rfl) hw fun _ v hv => wp_finish ?_ hv
    exact .bind (Asks.stays looks_status) fun _ =>
      .bind GitGuard.asks_requireIsolated fun _ => stays_commitAndVerify rfl
  · rw [he]
    exact faithful_iff_of_error hw

theorem wp_delete (hw : ¬ w.slipped) :
    (GitGuard.deleteTrackedFile root path head description commitMode sessionId
      expectedBranch).wp (rules State) (fun r w' => Faithful w.state r w' ↔ ¬ w'.slipped) w := by
  unfold GitGuard.deleteTrackedFile
  refine wp_after_looks GitGuard.asks_requireHead (fun _ => ?_) fun e => faithful_iff_of_error hw
  rcases GitGuard.commitArguments_cases [path] commitMode description sessionId with
    ⟨options, he⟩ | ⟨e, he⟩
  · rw [he]
    refine wp_pure_bind (wp_after_looks looks_requireBaseline (fun _ => ?_) fun e =>
      faithful_iff_of_error hw)
    refine wp_takeAway (.inr rfl) hw fun _ v hv => wp_finish ?_ hv
    exact .bind (Asks.stays looks_status) fun _ =>
      .bind GitGuard.asks_requireIsolated fun _ => stays_commitAndVerify rfl
  · rw [he]
    exact faithful_iff_of_error hw

theorem wp_file {fileMode : Option CommitMode} {session : Option String} :
    (GitGuard.commitFileBytes root path content head description requireExists fileMode session
      expectedBranch).wp (rules State) (fun r w' => Faithful w.state r w') w := by
  have unchanged {e : Exn} : Faithful w.state (.error e : Except Exn String) w := fun _ _ _ => rfl
  rw [GitGuard.commitFileBytes_eq]
  refine wp_after_looks GitGuard.asks_requireHead (fun _ => ?_) fun _ => unchanged
  rcases GitGuard.fileCommitArguments_eq path description fileMode session with he | ⟨e, he⟩
  · rw [he]
    refine wp_pure_bind (wp_after_looks looks_requireBaseline (fun before => ?_) fun _ => unchanged)
    refine wp_after_looks looks_checkTarget (fun same => ?_) fun _ => unchanged
    split_ifs
    · exact fun _ h => nomatch h
    · refine wp_mono (fun r w' h => h.faithful) (wp_unknown_bind wp_writeFile fun _ v => ?_)
      exact wp_unknown_finish
  · rw [he]
    exact unchanged

theorem wp_paths {description sessionId expectedHead : Option String} :
    (GitGuard.commitPaths root paths commitMode description sessionId expectedHead
      expectedBranch).wp (rules State) (fun r w' => Faithful w.state r w') w := by
  have unchanged {e : Exn} : Faithful w.state (.error e : Except Exn String) w := fun _ _ _ => rfl
  unfold GitGuard.commitPaths
  refine wp_after_looks GitGuard.asks_commitArgumentsOf (fun given => ?_) fun _ => unchanged
  refine wp_after_looks ?_ (fun _ => wp_after_looks looks_status (fun before => ?_) fun _ =>
    unchanged) fun _ => unchanged
  · cases expectedHead with
    | none => exact ⟨trivial⟩
    | some head => exact GitGuard.asks_requireHead
  · dsimp only
    by_cases moved : (expectedHead.any fun head => Text.lower before.head != Text.lower head) = true
    · rw [if_pos moved]
      exact unchanged
    · rw [if_neg moved]
      exact wp_mono (fun r w' h => h.faithful) wp_unknown_finish

/-- `commit_file_bytes` and `commit_paths` report whatever may have acted as unknown;
`move_tracked_file` and `delete_tracked_file` do so in a run just when its `git mv` or `git rm` has
not failed with the project changed. -/
theorem reported_unknown (State : Type) (state : State) (root : String) (commitMode : CommitMode)
    (expectedBranch : Option String) :
    (∀ path content head description requireExists fileMode sessionId,
      (GitGuard.commitFileBytes root path content head description requireExists fileMode
        sessionId expectedBranch).wp (rules State) (fun r w => Faithful state r w) { state }) ∧
    (∀ paths description sessionId expectedHead,
      (GitGuard.commitPaths root paths commitMode description sessionId expectedHead
        expectedBranch).wp (rules State) (fun r w => Faithful state r w) { state }) ∧
    (∀ source destination head description sessionId,
      (GitGuard.moveTrackedFile root source destination head description commitMode sessionId
        expectedBranch).wp (rules State) (fun r w => Faithful state r w ↔ ¬ w.slipped) { state }) ∧
    ∀ path head description sessionId,
      (GitGuard.deleteTrackedFile root path head description commitMode sessionId
        expectedBranch).wp (rules State) (fun r w => Faithful state r w ↔ ¬ w.slipped) { state } :=
  ⟨fun _ _ _ _ _ _ _ => wp_file (w := { state }), fun _ _ _ _ => wp_paths (w := { state }),
    fun _ _ _ _ _ => wp_move (w := { state }) id, fun _ _ _ _ => wp_delete (w := { state }) id⟩

/-- A clean project at a commit, in which `git mv` moves the file and then times out. -/
def timedOut (w : Trace Bool) : (a : Act) → Except Exn a.Result × Trace Bool
  | .git _ arguments =>
    if arguments = ["rev-parse", "HEAD"] then (.ok "0123456789abcdef0123456789abcdef01234567", w)
    else if arguments.head? = some "mv" then
      (.error (.bridge { code := .backendUnavailable, message := "Git command timed out"
                         retryable := true, status := .failed }),
        { state := true, slipped := w.slipped ∨ true ≠ w.state })
    else (.ok "", w)
  | .quiet _ => (.error .other, w)
  | .command .. => (.error .other, w)

/-- The call that moves a file, answered like this. -/
def timedOutMove : Async.Task Act (fun a => Except Exn a.Result) (Except Exn String) × Trace Bool :=
  Async.Task.follow (fun a w => timedOut w a) 10 (GitGuard.moveTrackedFile "/p" "a.txt" "b.txt"
    "0123456789abcdef0123456789abcdef01234567" "move" .create "s" (some "main")).task
    { state := false }

/-- The call has failed, and the project has changed. -/
def failedButMoved :
    Async.Task Act (fun a => Except Exn a.Result) (Except Exn String) × Trace Bool → Bool
  | (.done (.error (.bridge e)), w) => e.status == .failed && w.state
  | _ => false

/-- The file has been moved, and the call has failed without saying that it may have been. -/
theorem moved_and_failed : ¬ (GitGuard.moveTrackedFile "/p" "a.txt" "b.txt"
    "0123456789abcdef0123456789abcdef01234567" "move" .create "s" (some "main")).wp (rules Bool)
      (fun r w => Faithful false r w) { state := false } := by
  intro h
  have possible (a : Act) (w : Trace Bool) : ∃ w₁, (rules Bool).before a w w₁ ∧
      (rules Bool).answer a w₁ (timedOut w a).1 (timedOut w a).2 := by
    refine ⟨w, rfl, ?_⟩
    have kept (r : Except Exn a.Result) (hr : ∀ e, r ≠ .error (.bridge e)) :
        (rules Bool).answer a w r w :=
      ⟨fun _ => rfl, (or_iff_left fun h => h.2.1.elim hr).symm, fun _ e _ => hr e⟩
    cases a with
    | git root arguments =>
      unfold timedOut
      dsimp only
      split_ifs with hh hm
      · exact kept _ fun _ h => by cases h
      · refine ⟨fun hc => ?_, ?_, fun _ _ hq => by cases hq⟩
        · have : gitChanges arguments = true := gitChanges_of_head hm (by decide)
          exact Bool.noConfusion (hc.symm.trans this)
        · refine or_congr_right ⟨fun hs => ⟨.inl hm, ⟨_, rfl⟩, hs⟩, fun hs => hs.2.2⟩
      · exact kept _ fun _ h => by cases h
    | quiet q => exact kept _ fun _ h => by cases h
    | command project command => exact kept _ fun _ h => by cases h
  have rest := (Async.Task.leads_follow (o := fun a w => timedOut w a) possible 10 _ _).wp h
  have ended : failedButMoved timedOutMove = true := by decide +kernel
  unfold failedButMoved timedOutMove at ended
  split at ended
  · rename_i e w he
    rw [he] at rest
    rw [Bool.and_eq_true, beq_iff_eq] at ended
    have unchanged : w.state = false := rest e rfl (by rw [ended.1]; decide)
    exact Bool.noConfusion (unchanged.symm.trans ended.2)
  · cases ended

end GitOutcomes

end CodemcpBridge
