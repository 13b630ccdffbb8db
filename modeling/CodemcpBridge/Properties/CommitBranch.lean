import CodemcpBridge.Checkout
import CodemcpBridge.GitAsks

/-!
# On which branch a commit lands

The four methods of `GitGuard` that commit look at the branch several times before they do.  Only
the look that verifies the target of an amend is compared with the expected branch.
-/

namespace CodemcpBridge

open Async (Prog)
open Body
open Async.Prog (wpOk_bind wpOk_mono wpOk_pure wpOk_raise wpOk_handle)

namespace CommitBranch

/-! ## Looks at the branch -/

/-- A call at work: how often it has looked at the branch before it ran a commit, and whether it
has. -/
structure Looks where
  count : ℕ := 0
  committed : Bool := false

def branchLook : List String := ["rev-parse", "--abbrev-ref", "HEAD"]

/-- The act is neither a look at the branch nor a commit. -/
def Aside : Act → Prop
  | .git _ arguments => arguments ≠ branchLook ∧ arguments.head? ≠ some "commit"
  | _ => True

section Rules

variable (printed : ℕ → String) (expected : String)

/-- Each of the first looks has shown the expected branch. -/
def Agree (count : ℕ) : Prop := ∀ i < count, Text.strip (printed i) = expected

/-- Git prints `printed i` at look `i`, while others switch branches as they like; a commit demands
that each look before it has shown the expected branch. -/
def rules : Async.Rules Act (fun a => Except Exn a.Result) Looks where
  asked _ _ := True
  before _ w w' := w' = w
  legal
    | .git _ arguments, w => arguments.head? = some "commit" → Agree printed expected w.count
    | _, _ => True
  answer
    | .git _ arguments, w, r, w' =>
      if arguments.head? = some "commit" then w' = { w with committed := true }
      else if arguments = branchLook ∧ w.committed = false then
        match r with
        | .ok output => output = printed w.count ∧ w' = { w with count := w.count + 1 }
        | .error _ => w' = w
      else w' = w
    | _, w, _, w' => w' = w

/-- Where a look before the commit shows another branch than the expected one, no commit is run and
the call ends in an error. -/
def NeverElsewhere (x : Body String) : Prop :=
  x.wpOk (rules printed expected) (fun _ w => Agree printed expected w.count) {}

end Rules

variable {printed : ℕ → String} {expected : String} {α β : Type} {w w' : Looks} {root : String}
  {arguments : List String} {T : α → Looks → Prop}

/-- What asks for neither looks nor commits leaves things as they are. -/
theorem wpOk_aside {x : Body α} (hx : x.Asks Aside) (h : ∀ a, T a w) :
    x.wpOk (rules printed expected) T w := by
  have keep : x.wp (rules printed expected) (fun _ w' => w' = w) w := by
    refine Prog.Asks.wp (fun _ _ => trivial) (fun {a v v'} ha hv hb => ?_) hx rfl
    subst hb
    cases a with
    | git root arguments =>
      refine ⟨fun hc => absurd hc ha.2, fun r v' hr => ?_⟩
      unfold rules at hr
      dsimp only at hr
      rw [if_neg ha.2, if_neg fun hl => ha.1 hl.1] at hr
      rw [hr, hv]
    | _ => exact ⟨trivial, fun _ _ hr => hr.trans hv⟩
  refine Prog.wp_mono (fun _ w' hw a _ => ?_) keep
  subst hw
  exact h a

theorem aside_run (hl : arguments ≠ branchLook) (hc : arguments.head? ≠ some "commit") :
    (GitGuard.run root arguments).Asks Aside := Prog.asks_ask ⟨hl, hc⟩

/-- A look before the commit. -/
theorem wpOk_look {T : String → Looks → Prop}
    (h : T (printed w.count) { w with count := w.count + 1 }) (hw : w.committed = false) :
    (GitGuard.run root branchLook).wpOk (rules printed expected) T w := by
  refine (Prog.wp_ask _ _).2 ⟨trivial, fun v hb => ?_⟩
  subst hb
  refine ⟨fun hc => absurd hc (by decide), fun r v' hr => ?_⟩
  unfold rules at hr
  dsimp only at hr
  rw [if_neg (by decide), if_pos ⟨rfl, hw⟩] at hr
  rintro output rfl
  obtain ⟨rfl, rfl⟩ := hr
  exact h

/-- A look after the commit. -/
theorem wpOk_look_after {T : String → Looks → Prop} (h : ∀ output, T output w)
    (hw : w.committed = true) :
    (GitGuard.run root branchLook).wpOk (rules printed expected) T w := by
  refine (Prog.wp_ask _ _).2 ⟨trivial, fun v hb => ?_⟩
  subst hb
  refine ⟨fun hc => absurd hc (by decide), fun r v' hr => ?_⟩
  unfold rules at hr
  dsimp only at hr
  rw [if_neg (by decide), if_neg (by simp [hw])] at hr
  subst hr
  exact fun output _ => h output

theorem wpOk_commit {T : String → Looks → Prop} (hc : arguments.head? = some "commit")
    (agree : Agree printed expected w.count) (h : ∀ output, T output { w with committed := true }) :
    (GitGuard.run root arguments).wpOk (rules printed expected) T w := by
  refine (Prog.wp_ask _ _).2 ⟨trivial, fun v hb => ?_⟩
  subst hb
  refine ⟨fun _ => agree, fun r v' hr => ?_⟩
  unfold rules at hr
  dsimp only at hr
  rw [if_pos hc] at hr
  subst hr
  exact fun output _ => h output

/-- A status before the commit is one look. -/
theorem wpOk_status {T : GitStatus → Looks → Prop} (hw : w.committed = false)
    (h : ∀ status, status.branch = Text.strip (printed w.count) →
      T status { w with count := w.count + 1 }) :
    (GitGuard.status root).wpOk (rules printed expected) T w := by
  refine wpOk_bind (wpOk_look ?_ hw)
  refine wpOk_bind (wpOk_aside (aside_run (by decide) (by decide)) fun head => ?_)
  refine wpOk_bind (wpOk_aside (aside_run (by decide) (by decide)) fun porcelain => ?_)
  exact wpOk_pure (h _ rfl)

theorem wpOk_status_after {T : GitStatus → Looks → Prop} (hw : w.committed = true)
    (h : ∀ status, T status w) : (GitGuard.status root).wpOk (rules printed expected) T w := by
  refine wpOk_bind (wpOk_look_after (fun output => ?_) hw)
  refine wpOk_bind (wpOk_aside (aside_run (by decide) (by decide)) fun head => ?_)
  exact wpOk_bind (wpOk_aside (aside_run (by decide) (by decide)) fun porcelain => wpOk_pure (h _))

/-! ## The parts of a mutation -/

/-- The look that verifies the target of an amend lets it pass. -/
def Passes (printed : ℕ → String) (expected : String) (commitMode : CommitMode)
    (count : ℕ) : Prop :=
  commitMode = .amendSessionWip → Text.strip (printed count) = expected ∧ expected ≠ "" ∧
    expected.toList.any (fun c => c == '\x00' || c == '\r' || c == '\n') = false

variable {path head description sessionId message dirty : String} {commitMode : CommitMode}
  {paths : List String}

/-- The arguments are those of a commit. -/
theorem wpOk_commitArguments {T : List String → Looks → Prop}
    (h : ∀ arguments,
      GitGuard.commitArguments paths commitMode description sessionId = pure arguments →
        arguments.head? = some "commit" → T arguments w) :
    (GitGuard.commitArguments paths commitMode description sessionId).wpOk
      (rules printed expected) T w := by
  rcases GitGuard.commitArguments_cases paths commitMode description sessionId with
    ⟨options, he⟩ | ⟨e, he⟩
  · rw [he]
    exact wpOk_pure (h _ he rfl)
  · rw [he]
    exact wpOk_raise

theorem wpOk_fileCommitArguments {fileMode : Option CommitMode} {session : Option String}
    {T : List String → Looks → Prop}
    (h : ∀ arguments,
      GitGuard.fileCommitArguments path description fileMode session = pure arguments →
        arguments.head? = some "commit" → T arguments w) :
    (GitGuard.fileCommitArguments path description fileMode session).wpOk
      (rules printed expected) T w := by
  rcases GitGuard.fileCommitArguments_eq path description fileMode session with he | ⟨e, he⟩
  · rw [he]
    exact wpOk_pure (h _ he rfl)
  · rw [he]
    exact wpOk_raise

theorem wpOk_requireHead {T : Unit → Looks → Prop} (h : GitGuard.isHead head = true → T () w) :
    (GitGuard.requireHead head).wpOk (rules printed expected) T w := by
  unfold GitGuard.requireHead
  by_cases hh : GitGuard.isHead head = true
  · rw [if_pos hh]
    exact wpOk_pure (h hh)
  · rw [if_neg hh]
    exact wpOk_raise

theorem wpOk_requireBaseline {T : GitStatus → Looks → Prop} (hw : w.committed = false)
    (h : ∀ status, T status { w with count := w.count + 1 }) :
    (GitGuard.requireBaseline root head message dirty).wpOk (rules printed expected) T w := by
  refine wpOk_bind (wpOk_status hw fun status _ => ?_)
  dsimp only
  split_ifs
  all_goals first | exact wpOk_pure (h status) | exact wpOk_raise

/-- What lets an amend pass has compared the branch. -/
theorem wpOk_verifyAmendTarget {T : Unit → Looks → Prop} (hw : w.committed = false)
    (h : Passes printed expected .amendSessionWip w.count → T () { w with count := w.count + 1 }) :
    (GitGuard.verifyAmendTarget root head (some expected)).wpOk (rules printed expected) T w := by
  refine wpOk_bind (wpOk_status hw fun status hb => ?_)
  dsimp only
  by_cases changed : Text.lower status.head ≠ Text.lower head ∨
      ((some expected).any fun b => status.branch != b) = true
  · rw [if_pos changed]
    exact wpOk_raise
  · rw [if_neg changed]
    have same : status.branch = expected := by simpa using (not_or.1 changed).2
    by_cases invalid : status.branch = "" ∨
        (status.branch.toList.any fun c => c == '\x00' || c == '\r' || c == '\n') = true
    · refine wpOk_bind ?_
      unfold GitGuard.sharedRefsContainingHead
      refine wpOk_bind (wpOk_aside (GitGuard.asks_requireHead) fun _ => ?_)
      rw [if_pos invalid]
      exact wpOk_raise
    · have pass : Passes printed expected .amendSessionWip w.count := fun _ => by
        rw [not_or, Bool.not_eq_true, same] at invalid
        exact ⟨hb.symm.trans same, invalid⟩
      refine wpOk_bind (wpOk_aside ?_ fun refs => ?_)
      · exact GitGuard.asks_sharedRefsContainingHead ⟨by simp [branchLook], by simp⟩
      · split_ifs
        all_goals first | exact wpOk_pure (h pass) | exact wpOk_raise

/-- A commit behind the look that verifies an amend: the looks so far have to agree where it is run.
What follows a commit looks at no branch that matters. -/
theorem wpOk_verified {expectedHead : String} {rest : GitStatus → Body String}
    (hw : w.committed = false) (hc : arguments.head? = some "commit")
    (agree : Passes printed expected commitMode w.count → Agree printed expected w.count)
    (hr : ∀ final v, Agree printed expected v.count → (rest final).wpOk (rules printed expected)
      (fun _ w' => Agree printed expected w'.count) v) :
    (do
      if commitMode = .amendSessionWip then
        GitGuard.verifyAmendTarget root expectedHead (some expected)
      let _ ← GitGuard.run root arguments
      let final ← GitGuard.status root
      rest final : Body String).wpOk
        (rules printed expected) (fun _ w' => Agree printed expected w'.count) w := by
  have after {v : Looks} (hv : v.committed = false) (hagree : Agree printed expected v.count) :
      (do
        let _ ← GitGuard.run root arguments
        let final ← GitGuard.status root
        rest final : Body String).wpOk
          (rules printed expected) (fun _ w' => Agree printed expected w'.count) v :=
    wpOk_bind (wpOk_commit hc hagree fun _ =>
      wpOk_bind (wpOk_status_after rfl fun final => hr final _ hagree))
  by_cases amend : commitMode = .amendSessionWip
  · rw [if_pos amend]
    refine wpOk_bind (wpOk_verifyAmendTarget hw fun pass => after hw fun i hi => ?_)
    rcases Nat.lt_succ_iff_lt_or_eq.1 hi with hi | rfl
    · exact agree (fun _ => pass rfl) i hi
    · exact (pass rfl).1
  · rw [if_neg amend]
    exact after hw (agree fun h => absurd h amend)

theorem wpOk_commitAndVerify (hw : w.committed = false) (hc : arguments.head? = some "commit")
    (agree : Passes printed expected commitMode w.count → Agree printed expected w.count) :
    (GitGuard.commitAndVerify root arguments commitMode head (some expected) message).wpOk
      (rules printed expected) (fun _ w' => Agree printed expected w'.count) w := by
  refine wpOk_verified hw hc agree fun final v hagree => ?_
  split_ifs
  all_goals first | exact wpOk_pure hagree | exact wpOk_raise

/-! ## The four methods -/

/-- The method does not reject its own arguments. -/
def Accepted (heads : List String) (arguments : Body (List String)) : Prop :=
  (∀ head ∈ heads, GitGuard.isHead head = true) ∧ ∃ given, arguments = pure given

variable {source destination target : String} {content : ByteArray} {requireExists : Option Bool}
  {fileMode : Option CommitMode} {session : Option String}

theorem wpOk_requireIsolated {T : Unit → Looks → Prop} {after : GitStatus} (h : T () w) :
    (GitGuard.requireIsolated after head paths message).wpOk (rules printed expected) T w := by
  unfold GitGuard.requireIsolated
  split_ifs
  · exact wpOk_raise
  · exact wpOk_pure h

/-- What a method does after its change, where an error is made one of unknown outcome. -/
theorem wpOk_finish {x : Body String} {details : BridgeError → Dict}
    (hx : x.wpOk (rules printed expected) (fun _ w' => Agree printed expected w'.count) w) :
    (x.exceptBridge fun exc => reject .unknownSideEffect message (details exc) .unknown).wpOk
      (rules printed expected) (fun _ w' => Agree printed expected w'.count) w := by
  refine wpOk_handle hx fun e y w' he => ?_
  cases e with
  | bridge e =>
    cases he
    exact wpOk_raise
  | _ => cases he

theorem neverElsewhere_move
    (h : Accepted [head]
        (GitGuard.commitArguments [source, destination] commitMode description sessionId) →
      Passes printed expected commitMode 2 → Agree printed expected 2) :
    NeverElsewhere printed expected (GitGuard.moveTrackedFile root source destination head
      description commitMode sessionId (some expected)) := by
  unfold GitGuard.moveTrackedFile
  refine wpOk_bind (wpOk_requireHead fun hh =>
    wpOk_bind (wpOk_commitArguments fun given hg hc => ?_))
  have accepted : Accepted [head]
      (GitGuard.commitArguments [source, destination] commitMode description sessionId) :=
    ⟨by simpa using hh, given, hg⟩
  refine wpOk_bind (wpOk_requireBaseline rfl fun before => ?_)
  refine wpOk_bind (wpOk_aside ?_ fun _ => wpOk_finish ?_)
  · refine .handle (aside_run (by simp [branchLook]) (by simp)) fun e y he => ?_
    cases e with
    | bridge e =>
      cases he
      exact ⟨trivial⟩
    | _ => cases he
  · refine wpOk_bind (wpOk_status rfl fun staged _ => wpOk_bind (wpOk_requireIsolated ?_))
    exact wpOk_commitAndVerify rfl hc (h accepted)

theorem neverElsewhere_delete
    (h : Accepted [head] (GitGuard.commitArguments [path] commitMode description sessionId) →
      Passes printed expected commitMode 2 → Agree printed expected 2) :
    NeverElsewhere printed expected (GitGuard.deleteTrackedFile root path head description
      commitMode sessionId (some expected)) := by
  unfold GitGuard.deleteTrackedFile
  refine wpOk_bind (wpOk_requireHead fun hh =>
    wpOk_bind (wpOk_commitArguments fun given hg hc => ?_))
  have accepted : Accepted [head]
      (GitGuard.commitArguments [path] commitMode description sessionId) :=
    ⟨by simpa using hh, given, hg⟩
  refine wpOk_bind (wpOk_requireBaseline rfl fun before => ?_)
  refine wpOk_bind (wpOk_aside ?_ fun _ => wpOk_finish ?_)
  · refine .handle (aside_run (by simp [branchLook]) (by simp)) fun e y he => ?_
    cases e with
    | bridge e =>
      cases he
      exact ⟨trivial⟩
    | _ => cases he
  · refine wpOk_bind (wpOk_status rfl fun staged _ => wpOk_bind (wpOk_requireIsolated ?_))
    exact wpOk_commitAndVerify rfl hc (h accepted)

theorem neverElsewhere_file
    (h : Accepted [head] (GitGuard.fileCommitArguments path description fileMode session) →
      Agree printed expected 2) :
    NeverElsewhere printed expected (GitGuard.commitFileBytes root path content head description
      requireExists fileMode session (some expected)) := by
  rw [GitGuard.commitFileBytes_eq]
  refine wpOk_bind (wpOk_requireHead fun hh =>
    wpOk_bind (wpOk_fileCommitArguments fun given hg hc => ?_))
  have agree := h ⟨by simpa using hh, given, hg⟩
  have first : Agree printed expected 1 := fun i hi => agree i (Nat.lt_succ_of_lt hi)
  refine wpOk_bind (wpOk_requireBaseline rfl fun before => ?_)
  refine wpOk_bind (wpOk_aside (GitGuard.asks_checkTarget trivial trivial trivial) fun same => ?_)
  by_cases hs : same = true
  · rw [if_pos hs]
    exact wpOk_pure first
  · rw [if_neg hs]
    refine wpOk_bind (wpOk_aside (GitGuard.asks_writeFile fun _ => trivial) fun _ => wpOk_finish ?_)
    refine wpOk_bind (wpOk_status rfl fun after _ => wpOk_bind (wpOk_requireIsolated ?_))
    dsimp only
    split_ifs
    · exact wpOk_pure agree
    · exact wpOk_raise
    · refine wpOk_bind (wpOk_aside (aside_run (by simp [branchLook]) (by simp)) fun _ => ?_)
      exact wpOk_commitAndVerify rfl hc fun _ => agree

variable {describe expectedHead : Option String}

theorem neverElsewhere_paths
    (h : Accepted expectedHead.toList
        (GitGuard.commitArgumentsOf paths commitMode describe session) →
      Passes printed expected commitMode 1 → Agree printed expected 1) :
    NeverElsewhere printed expected (GitGuard.commitPaths root paths commitMode describe session
      expectedHead (some expected)) := by
  unfold GitGuard.commitPaths
  rcases GitGuard.commitArgumentsOf_cases paths commitMode describe session with
    ⟨options, he⟩ | ⟨e, he⟩
  case inr =>
    rw [he]
    exact wpOk_raise
  rw [he] at h ⊢
  refine wpOk_bind (wpOk_pure ?_)
  have head {T : Unit → Looks → Prop}
      (hT : (∀ head ∈ expectedHead.toList, GitGuard.isHead head = true) → T () {}) :
      (expectedHead.elim (pure ()) GitGuard.requireHead).wpOk (rules printed expected) T {} := by
    cases expectedHead with
    | none => exact wpOk_pure (hT (by simp))
    | some head => exact wpOk_requireHead fun hh => hT (by simpa using hh)
  refine wpOk_bind (head fun hh => wpOk_bind (wpOk_status rfl fun before _ => ?_))
  have agree := h ⟨hh, _, rfl⟩
  dsimp only
  by_cases moved : (expectedHead.any fun head => Text.lower before.head != Text.lower head) = true
  · rw [if_pos moved]
    exact wpOk_raise
  · rw [if_neg moved]
    refine wpOk_finish ?_
    have hc : ("commit" :: options ++ ["--only", "--"] ++ paths).head? = some "commit" := rfl
    refine wpOk_verified ?_ hc agree fun final v hagree => ?_
    · rfl
    · split_ifs
      all_goals first | exact wpOk_pure hagree | exact wpOk_raise

/-! ## Runs that go well -/

/-- A run that ends with a value. -/
def Ends (printed : ℕ → String) (expected : String) (x : Body α) (w : Looks) (a : α) (w' : Looks) :
    Prop :=
  Async.Task.Runs (rules printed expected) x.task w (.ok a) w'

/-- What is demanded of the rest, where the first part goes well. -/
theorem Ends.after {x : Body α} {f : α → Body β} {T : β → Looks → Prop} {a : α}
    (hx : Ends printed expected x w a w') (h : (x >>= f).wpOk (rules printed expected) T w) :
    (f a).wpOk (rules printed expected) T w' := by
  have all := Async.Task.Runs.sound hx ((Prog.wp_andThen x _ _).1 h)
  exact all

theorem Ends.value {x : Body α} {T : α → Looks → Prop} {a : α}
    (hx : Ends printed expected x w a w') (h : x.wpOk (rules printed expected) T w) : T a w' :=
  Async.Task.Runs.sound hx h a rfl

theorem Ends.bind {x : Body α} {f : α → Body β} {a : α} {b : β} {v : Looks}
    (hx : Ends printed expected x w a v) (hf : Ends printed expected (f a) v b w') :
    Ends printed expected (x >>= f) w b w' :=
  Async.Task.Runs.bind hx hf

theorem ends_pure (a : α) : Ends printed expected (pure a : Body α) w a w := .done _ _

theorem Ends.exceptBridge {x : Body α} {h : BridgeError → Body α} {a : α}
    (hx : Ends printed expected x w a w') : Ends printed expected (x.exceptBridge h) w a w' :=
  Async.Task.Runs.bind hx (.done _ _)

theorem ends_quiet {q : Quiet} (a : q.Result) : Ends printed expected (quiet q) w a w :=
  .ask rfl rfl (.done _ _)

theorem ends_run (hl : arguments ≠ branchLook) (hc : arguments.head? ≠ some "commit")
    (output : String) : Ends printed expected (GitGuard.run root arguments) w output w := by
  have given : (rules printed expected).answer (.git root arguments) w (.ok output) w := by
    unfold rules
    dsimp only
    rw [if_neg hc, if_neg fun h => hl h.1]
  exact .ask rfl given (.done _ _)

theorem ends_look (hw : w.committed = false) :
    Ends printed expected (GitGuard.run root branchLook) w
    (printed w.count) { w with count := w.count + 1 } := by
  have given : (rules printed expected).answer (.git root branchLook) w (.ok (printed w.count))
      { w with count := w.count + 1 } := by
    unfold rules
    dsimp only
    rw [if_neg (by decide), if_pos ⟨rfl, hw⟩]
    exact ⟨rfl, rfl⟩
  exact .ask rfl given (.done _ _)

/-- A hex digit is no space, as it lies between the digits and the letters. -/
theorem isSpace_of_isHexDigit {c : Char} (h : Text.isHexDigit c = true) :
    Text.isSpace c = false := by
  have range : 48 ≤ c.toNat ∧ c.toNat ≤ 102 := by
    simp only [Text.isHexDigit, Bool.or_eq_true, Bool.and_eq_true, decide_eq_true_eq, Char.le_def,
      UInt32.le_iff_toNat_le] at h
    have : c.val.toNat = c.toNat := rfl
    have : '0'.val.toNat = 48 := rfl
    have : '9'.val.toNat = 57 := rfl
    have : 'a'.val.toNat = 97 := rfl
    have : 'f'.val.toNat = 102 := rfl
    have : 'A'.val.toNat = 65 := rfl
    have : 'F'.val.toNat = 70 := rfl
    omega
  have blank : c ≠ ' ' := by
    rintro rfl
    exact absurd range.1 (by decide)
  simp only [Text.isSpace, List.contains_eq_mem, List.mem_cons, List.not_mem_nil, or_false,
    Bool.or_eq_false_iff, Bool.and_eq_false_iff, decide_eq_false_iff_not, beq_eq_false_iff_ne]
  refine ⟨⟨⟨⟨blank, ?_⟩, ?_⟩, ?_⟩, ?_⟩ <;> omega

theorem strip_head (hh : GitGuard.isHead head = true) : Text.strip head = head := by
  have space : ∀ c ∈ head.toList, Text.isSpace c = false := by
    intro c hc
    simp only [GitGuard.isHead, Bool.and_eq_true, List.all_eq_true] at hh
    exact isSpace_of_isHexDigit (hh.2 c hc)
  have kept {l : List Char} (hl : ∀ c ∈ l, Text.isSpace c = false) :
      l.dropWhile Text.isSpace = l := by
    cases l with
    | nil => rfl
    | cons c l => rw [List.dropWhile_cons, hl c List.mem_cons_self]; rfl
  unfold Text.strip
  rw [kept space, kept fun c hc => space c (List.mem_reverse.1 hc), List.reverse_reverse,
    String.ofList_toList]

/-- What a status shows of a project that is clean at `head`. -/
theorem ends_status (hh : GitGuard.isHead head = true) (hw : w.committed = false) :
    Ends printed expected (GitGuard.status root) w
      { branch := Text.strip (printed w.count), head := head, dirty := false, changedFiles := [] }
      { w with count := w.count + 1 } := by
  have clean : GitGuard.porcelainPaths (Text.split '\x00' "") = [] := by decide
  refine .bind (ends_look hw) (.bind (ends_run (by decide) (by decide) head) ?_)
  refine .bind (ends_run (by decide) (by decide) "") ?_
  rw [strip_head hh, clean]
  exact ends_pure _

theorem ends_requireHead (hh : GitGuard.isHead head = true) :
    Ends printed expected (GitGuard.requireHead head) w () w := by
  unfold GitGuard.requireHead
  rw [if_pos hh]
  exact ends_pure ()

theorem ends_requireBaseline (hh : GitGuard.isHead head = true) (hw : w.committed = false) :
    Ends printed expected (GitGuard.requireBaseline root head message dirty) w
      { branch := Text.strip (printed w.count), head := head, dirty := false, changedFiles := [] }
      { w with count := w.count + 1 } := by
  refine .bind (ends_status hh hw) ?_
  dsimp only
  rw [if_neg (by simp), if_neg (by simp)]
  exact ends_pure _

theorem ends_requireIsolated {branch : String} : Ends printed expected (GitGuard.requireIsolated
    { branch, head := head, dirty := false, changedFiles := [] } head paths message) w () w := by
  have none : GitGuard.unexpectedPaths [] paths = [] := rfl
  unfold GitGuard.requireIsolated
  rw [if_neg (by simp [none])]
  exact ends_pure ()

theorem ends_checkTarget :
    Ends printed expected (GitGuard.checkTarget target path content requireExists) w false w := by
  have last : Ends printed expected (do
      if ← quiet (.exists_ target) then
        let raw ← (quiet (.readBytes target)).orReject .backendUnavailable
          "target file could not be read before mutation" [("path", .str path)] .failed true
        pure (decide (raw = content))
      else pure false : Body Bool) w false w :=
    Ends.bind (a := false) (ends_quiet _) (ends_pure false)
  have absent : Ends printed expected (do
      if ← quiet (.exists_ target) then
        if !(← quiet (.isFile target)) then
          reject .conflict "target path is not a regular file" [("path", .str path)]
      if ← quiet (.exists_ target) then
        let raw ← (quiet (.readBytes target)).orReject .backendUnavailable
          "target file could not be read before mutation" [("path", .str path)] .failed true
        pure (decide (raw = content))
      else pure false : Body Bool) w false w :=
    Ends.bind (a := false) (ends_quiet _) last
  rcases requireExists with _ | _ | _
  · exact absent
  · exact Ends.bind (a := false) (ends_quiet _) absent
  · exact Ends.bind (a := true) (ends_quiet _) absent

theorem ends_writeFile : Ends printed expected (GitGuard.writeFile target path content) w () w := by
  have temp : Ends printed expected ((quiet (.makeTemp (Text.parent target))).orReject
      .unknownSideEffect "file write outcome is unknown and requires reconciliation"
      [("path", .str path)] .unknown) w "" w := Async.Task.Runs.bind (ends_quiet "") (.done _ _)
  refine .bind temp (Async.Task.Runs.bind (a := .ok ()) ?_ (.done _ _))
  exact Ends.bind (ends_quiet (q := .writeTemp "" content) ())
    (ends_quiet (q := .replace "" target) ())

theorem ends_verifyAmendTarget (hh : GitGuard.isHead head = true) (hw : w.committed = false)
    (pass : Passes printed expected .amendSessionWip w.count) :
    Ends printed expected (GitGuard.verifyAmendTarget root head (some expected)) w ()
      { w with count := w.count + 1 } := by
  obtain ⟨same, hne, plain⟩ := pass rfl
  refine .bind (ends_status hh hw) ?_
  dsimp only
  rw [if_neg (by simp [same])]
  refine Ends.bind (a := []) ?_ (ends_pure ())
  unfold GitGuard.sharedRefsContainingHead
  refine .bind (ends_requireHead hh) ?_
  rw [same, if_neg (by simp only [hne, plain]; simp)]
  exact .bind (ends_run (by simp [branchLook]) (by simp) "") (ends_pure [])

/-- Where the commit comes next, the looks before it agree. -/
theorem agree_of_commit {f : String → Body String} {T : String → Looks → Prop}
    (hc : arguments.head? = some "commit")
    (h : (GitGuard.run root arguments >>= f).wpOk (rules printed expected) T w) :
    Agree printed expected w.count :=
  (h.2 w rfl).1 hc

/-- Where a verification comes next that passes, the looks before it agree. -/
theorem agree_of_verified {f : String → Body String} {T : String → Looks → Prop}
    (hh : GitGuard.isHead head = true) (hw : w.committed = false)
    (hc : arguments.head? = some "commit") (pass : Passes printed expected commitMode w.count)
    (h : (do
      if commitMode = .amendSessionWip then
        GitGuard.verifyAmendTarget root head (some expected)
      let output ← GitGuard.run root arguments
      f output : Body String).wpOk (rules printed expected) T w) :
    Agree printed expected w.count := by
  by_cases amend : commitMode = .amendSessionWip
  · subst amend
    rw [if_pos rfl] at h
    have later := agree_of_commit hc ((ends_verifyAmendTarget hh hw pass).after h)
    exact fun i hi => later i (Nat.lt_succ_of_lt hi)
  · rw [if_neg amend] at h
    exact agree_of_commit hc h

theorem agree_of_commitAndVerify {T : String → Looks → Prop} (hh : GitGuard.isHead head = true)
    (hw : w.committed = false) (hc : arguments.head? = some "commit")
    (pass : Passes printed expected commitMode w.count)
    (h : (GitGuard.commitAndVerify root arguments commitMode head (some expected) message).wpOk
      (rules printed expected) T w) : Agree printed expected w.count :=
  agree_of_verified hh hw hc pass h

/-- What is demanded under a handler. -/
theorem wpOk_of_exceptBridge {x : Body α} {h : BridgeError → Body α} {T : α → Looks → Prop}
    (hx : (x.exceptBridge h).wpOk (rules printed expected) T w) :
    x.wpOk (rules printed expected) (fun _ _ => True) w :=
  Prog.wp_mono (fun _ _ _ _ _ => trivial) ((Prog.wp_andThen x _ _).1 hx)

theorem head_of_given {given : List String} {options : List String}
    (h : (pure given : Body (List String)) = pure
      ("commit" :: options ++ ["--only", "--"] ++ paths)) :
    given.head? = some "commit" := by
  rw [Except.ok.inj (Async.Task.done.inj h)]
  rfl

theorem head_of_commitArguments {given : List String}
    (hg : GitGuard.commitArguments paths commitMode description sessionId = pure given) :
    given.head? = some "commit" := by
  rcases GitGuard.commitArguments_cases paths commitMode description sessionId
    with ⟨options, he⟩ | ⟨e, he⟩
  · exact head_of_given (hg.symm.trans he)
  · exact absurd (Async.Task.done.inj (hg.symm.trans he)) (by simp)

theorem agree_move (accepted : Accepted [head]
      (GitGuard.commitArguments [source, destination] commitMode description sessionId))
    (pass : Passes printed expected commitMode 2)
    (h : NeverElsewhere printed expected (GitGuard.moveTrackedFile root source destination head
      description commitMode sessionId (some expected))) :
    Agree printed expected 2 := by
  obtain ⟨heads, given, hg⟩ := accepted
  have hh := heads head (List.mem_singleton_self head)
  unfold NeverElsewhere at h
  have hc := head_of_commitArguments hg
  unfold GitGuard.moveTrackedFile at h
  rw [hg] at h
  have started := (ends_pure given).after ((ends_requireHead hh).after h)
  have based := (ends_requireBaseline hh rfl).after started
  have moved : Ends printed expected ((GitGuard.run root ["mv", "--", source, destination]))
      { count := 1 } "" { count := 1 } := ends_run (by simp [branchLook]) (by simp) ""
  have finish := wpOk_of_exceptBridge (moved.exceptBridge.after based)
  have isolated := ends_requireIsolated.after ((ends_status hh rfl).after finish)
  have agree := agree_of_commitAndVerify hh ?_ hc ?_ isolated
  · exact agree
  · rfl
  · exact pass

theorem agree_delete (accepted : Accepted [head]
      (GitGuard.commitArguments [path] commitMode description sessionId))
    (pass : Passes printed expected commitMode 2)
    (h : NeverElsewhere printed expected (GitGuard.deleteTrackedFile root path head description
      commitMode sessionId (some expected))) :
    Agree printed expected 2 := by
  obtain ⟨heads, given, hg⟩ := accepted
  have hh := heads head (List.mem_singleton_self head)
  unfold NeverElsewhere at h
  have hc := head_of_commitArguments hg
  unfold GitGuard.deleteTrackedFile at h
  rw [hg] at h
  have started := (ends_pure given).after ((ends_requireHead hh).after h)
  have based := (ends_requireBaseline hh rfl).after started
  have deleted : Ends printed expected (GitGuard.run root ["rm", "--", path])
      { count := 1 } "" { count := 1 } := ends_run (by simp [branchLook]) (by simp) ""
  have finish := wpOk_of_exceptBridge (deleted.exceptBridge.after based)
  have isolated := ends_requireIsolated.after ((ends_status hh rfl).after finish)
  have agree := agree_of_commitAndVerify hh ?_ hc ?_ isolated
  · exact agree
  · rfl
  · exact pass

theorem agree_paths (accepted : Accepted expectedHead.toList
      (GitGuard.commitArgumentsOf paths commitMode describe session))
    (pass : Passes printed expected commitMode 1)
    (h : NeverElsewhere printed expected (GitGuard.commitPaths root paths commitMode
    describe session
      expectedHead (some expected))) :
    Agree printed expected 1 := by
  obtain ⟨heads, given, hg⟩ := accepted
  have hc : given.head? = some "commit" := by
    rcases GitGuard.commitArgumentsOf_cases paths commitMode describe session
      with ⟨options, he⟩ | ⟨e, he⟩
    · exact head_of_given (hg.symm.trans he)
    · exact absurd (Async.Task.done.inj (hg.symm.trans he)) (by simp)
  -- Git shows the expected head, or any where none is expected.
  obtain ⟨shown, hh, hs⟩ : ∃ shown, GitGuard.isHead shown = true ∧
      ∀ head ∈ expectedHead.toList, head = shown := by
    cases expectedHead with
    | none => exact ⟨"0000000000000000000000000000000000000000", by decide, by simp⟩
    | some head => exact ⟨head, heads head (by simp), by simp⟩
  have required : Ends printed expected (expectedHead.elim (pure ()) GitGuard.requireHead)
      {} () {} := by
    cases expectedHead with
    | none => exact ends_pure ()
    | some head => exact ends_requireHead (heads head (by simp))
  have same : (expectedHead.any fun head => Text.lower shown != Text.lower head) = false := by
    cases expectedHead with
    | none => rfl
    | some head => simp [hs head (by simp)]
  have target : expectedHead.getD shown = shown := by
    cases expectedHead with
    | none => rfl
    | some head => exact hs head (by simp)
  unfold NeverElsewhere at h
  unfold GitGuard.commitPaths at h
  rw [hg] at h
  have started := (ends_status hh rfl).after (required.after ((ends_pure given).after h))
  dsimp only at started
  rw [same, if_neg Bool.false_ne_true, target] at started
  have agree := agree_of_verified hh ?_ hc ?_ (wpOk_of_exceptBridge started)
  · exact agree
  · rfl
  · exact pass

theorem agree_file (accepted : Accepted [head]
      (GitGuard.fileCommitArguments path description fileMode session))
    (h : NeverElsewhere printed expected (GitGuard.commitFileBytes root path content head
      description requireExists fileMode session (some expected))) :
    Agree printed expected 2 := by
  obtain ⟨heads, given, hg⟩ := accepted
  have hh := heads head (List.mem_singleton_self head)
  unfold NeverElsewhere at h
  rw [GitGuard.commitFileBytes_eq, hg] at h
  have started := (ends_pure given).after ((ends_requireHead hh).after h)
  have checked := ends_checkTarget.after ((ends_requireBaseline hh rfl).after started)
  rw [if_neg Bool.false_ne_true] at checked
  have written := ends_writeFile.after checked
  have finished : Ends printed expected (GitGuard.finishFile root path given head fileMode
      (some expected)) { count := 1 } head { count := 2 } := by
    refine .bind (ends_status hh rfl) (.bind ends_requireIsolated ?_)
    exact ends_pure head
  exact finished.exceptBridge.value written

/-! ## Both modes, four methods -/

/-- A commit with an expected branch is never made elsewhere, just when the looks that no
verification follows up show the expected branch, or the verification of an amend stops the call.
Those looks are the first one of `commit_paths` and the first two of the other methods; a file that
need not be replaced is answered for before any verification. -/
theorem neverElsewhere_iff (printed : ℕ → String) (expected root : String)
    (commitMode : CommitMode) :
    (∀ path content head description requireExists fileMode sessionId,
      NeverElsewhere printed expected (GitGuard.commitFileBytes root path content head description
        requireExists fileMode sessionId (some expected)) ↔
      (Accepted [head] (GitGuard.fileCommitArguments path description fileMode sessionId) →
        Agree printed expected 2)) ∧
    (∀ source destination head description sessionId,
      NeverElsewhere printed expected (GitGuard.moveTrackedFile root source destination head
        description commitMode sessionId (some expected)) ↔
      (Accepted [head]
          (GitGuard.commitArguments [source, destination] commitMode description sessionId) →
        Passes printed expected commitMode 2 → Agree printed expected 2)) ∧
    (∀ path head description sessionId,
      NeverElsewhere printed expected (GitGuard.deleteTrackedFile root path head description
        commitMode sessionId (some expected)) ↔
      (Accepted [head] (GitGuard.commitArguments [path] commitMode description sessionId) →
        Passes printed expected commitMode 2 → Agree printed expected 2)) ∧
    (∀ paths description sessionId expectedHead,
      NeverElsewhere printed expected (GitGuard.commitPaths root paths commitMode description
        sessionId expectedHead (some expected)) ↔
      (Accepted expectedHead.toList
          (GitGuard.commitArgumentsOf paths commitMode description sessionId) →
        Passes printed expected commitMode 1 → Agree printed expected 1)) :=
  ⟨fun _ _ _ _ _ _ _ => ⟨fun h accepted => agree_file accepted h, neverElsewhere_file⟩,
    fun _ _ _ _ _ => ⟨fun h accepted pass => agree_move accepted pass h, neverElsewhere_move⟩,
    fun _ _ _ _ => ⟨fun h accepted pass => agree_delete accepted pass h, neverElsewhere_delete⟩,
    fun _ _ _ _ => ⟨fun h accepted pass => agree_paths accepted pass h, neverElsewhere_paths⟩⟩

/-- A new commit for a project that stands on `main` lands on another branch with the same tip. -/
theorem moved_elsewhere : ¬ NeverElsewhere (fun _ => "topic") "main" (GitGuard.moveTrackedFile "/p"
    "a.txt" "b.txt" "0123456789abcdef0123456789abcdef01234567" "move" .create "s"
      (some "main")) := by
  intro h
  have accepted : Accepted ["0123456789abcdef0123456789abcdef01234567"]
      (GitGuard.commitArguments ["a.txt", "b.txt"] .create "move" "s") := by
    refine ⟨by decide, ?_⟩
    exact ⟨_, rfl⟩
  have agree := agree_move accepted (fun h => by cases h) h 0 (by decide)
  exact absurd agree (by decide)

end CommitBranch

end CodemcpBridge
