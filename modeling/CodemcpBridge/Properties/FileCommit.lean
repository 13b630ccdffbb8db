import CodemcpBridge.GitAsks
import CodemcpBridge.Repository

/-!
# What a successful file commit has committed

`commit_file_bytes` in a repository whose worktree others write to at every await.  It answers with
a head as soon as a status shows nothing that it did not expect, and what Git took from the worktree
it never reads back: the answer is right just when the worktree held the requested bytes, at a path
that Git looks at, whenever Git last read it.
-/

namespace CodemcpBridge

open Async (Prog)
open Body
open Async.Prog (wpOk_bind wpOk_mono wpOk_pure wpOk_raise wpOk_handle)

namespace FileCommit

/-! ## Files and Git -/

/-- A call at work. -/
structure Work where
  head : Commit
  index : Contents
  /-- All files, by their absolute paths. -/
  files : Contents
  /-- When Git last read the worktree, it was as the answer says. -/
  ready : Prop := False
  committed : Prop := False

def Work.repo (root : String) (w : Work) : Repository where
  head := w.head
  index := w.index
  worktree path := w.files (Text.join root path)

section Rules

variable (git : GitRules) (root path : String) (content : ByteArray)

/-- The path is one that Git looks at, and holds the content. -/
def Holds (repo : Repository) : Prop :=
  repo.Visible git path ∧ repo.worktree path = some content

/-- What a commit takes from the worktree is the content at the path, and nothing that differs from
`HEAD` elsewhere. -/
def Stands (repo : Repository) (specs : List String) : Prop :=
  (∀ other, other ≠ path → repo.takes git specs other = true →
    repo.worktree other = repo.head.tree other) ∧
  (if repo.takes git specs path then repo.worktree path else repo.head.tree path) = some content

/-- `--amend` among the options. -/
def amends (arguments : List String) : Bool := (arguments.takeWhile (· ≠ "--")).contains "--amend"

/-- What a Git command answers, and what it leaves. -/
def gitStep (arguments : List String) (w : Work) (r : Except Exn String) (w' : Work) : Prop :=
  if arguments = ["rev-parse", "HEAD"] then
    (∀ output, r = .ok output → Text.strip output = w.head.id) ∧ w' = w
  else if arguments = ["status", "--porcelain=v1", "--untracked-files=all", "-z"] then
    match r with
    | .ok output => (w.repo root).Prints git output ∧
      w' = { w with ready := (w.committed ∧ w.ready) ∨
        (¬ w.committed ∧ Holds git path content (w.repo root)) }
    | .error _ => w' = w
  else if arguments.head? = some "add" then
    match r with
    | .ok _ => w' = { w with index := (w.repo root).added git (Repository.pathspecs arguments) }
    | .error _ => ∃ index, w' = { w with index }
  else if arguments.head? = some "commit" then
    match r with
    | .ok _ => ∃ commit index,
      commit.tree = (w.repo root).recorded git (Repository.pathspecs arguments) ∧
      commit.parents = (if amends arguments then w.head.parents else [w.head.id]) ∧
      w' = { w with
        head := commit, index, committed := True
        ready := Stands git path content (w.repo root)
          (Repository.pathspecs arguments) }
    | .error _ => ∃ head index, w' = { w with head, index, committed := True }
  else w' = w

/-- Others write whatever they like to the worktree at each await, before Git has looked and after.
-/
def rules : Async.Rules Act (fun a => Except Exn a.Result) Work where
  asked _ _ := True
  before
    | .quiet _, w, w₁ => w₁ = w
    | _, w, w₁ => ∃ files, w₁ = { w with files }
  legal _ _ := True
  answer
    | .quiet q, w, r, w' => ∃ files, quietStep q w.files r files ∧ w' = { w with files }
    | .git _ arguments, w, r, w' => ∃ v files,
      gitStep git root path content arguments w r v ∧ w' = { v with files }
    | .command .., w, _, w' => ∃ files, w' = { w with files }

/-- A head is returned that is the expected one, whose commit holds the content, or one whose commit
holds the content and differs from the expected one nowhere else, with the parents of its mode. -/
def Exactly (expected : Commit) (expectedHead : String) (commitMode : Option CommitMode)
    (head : String) (w : Work) : Prop :=
  (Text.lower head = Text.lower expectedHead ∧ head = expected.id ∧
    expected.tree path = some content) ∨
  (head = w.head.id ∧ (∀ other, other ≠ path → w.head.tree other = expected.tree other) ∧
    w.head.tree path = some content ∧
    w.head.parents = match commitMode with
      | some .amendSessionWip => expected.parents
      | _ => [expected.id])

end Rules

variable {git : GitRules} {root path : String} {content : ByteArray} {α β : Type} {w w' : Work}
  {arguments : List String} {c : Commit}

/-! ## Before the commit -/

/-- Nothing has been committed yet. -/
def Before (c : Commit) (w : Work) : Prop := w.head = c ∧ ¬ w.committed

/-- The act is no commit. -/
def Calm : Act → Prop
  | .git _ arguments => arguments.head? ≠ some "commit"
  | _ => True

theorem before_of_gitStep {r : Except Exn String} (hc : arguments.head? ≠ some "commit")
    (h : gitStep git root path content arguments w r w') (hw : Before c w) : Before c w' := by
  unfold gitStep at h
  split_ifs at h
  · exact h.2 ▸ hw
  · cases r with
    | ok output => exact h.2 ▸ hw
    | error e => exact h ▸ hw
  · cases r with
    | ok output => exact h ▸ hw
    | error e =>
      obtain ⟨index, rfl⟩ := h
      exact hw
  · exact h ▸ hw

/-- What commits nothing leaves `HEAD` alone. -/
theorem wp_calm {x : Body α} (hx : x.Asks Calm) (hw : Before c w) :
    x.wp (rules git root path content) (fun _ w' => Before c w') w := by
  refine Prog.Asks.wp (fun _ _ => trivial) (fun {a v v'} ha hv hb => ⟨trivial, fun r v'' hr => ?_⟩)
    hx hw
  cases a with
  | quiet q =>
    subst hb
    obtain ⟨files, -, rfl⟩ := hr
    exact hv
  | git root arguments =>
    obtain ⟨files, rfl⟩ := hb
    obtain ⟨u, files', hs, rfl⟩ := hr
    have before : Before c u := before_of_gitStep ha hs hv
    exact before
  | command project command =>
    obtain ⟨files, rfl⟩ := hb
    obtain ⟨files', rfl⟩ := hr
    exact hv

theorem wpOk_calm {x : Body α} {T : α → Work → Prop} (hx : x.Asks Calm) (hw : Before c w)
    (h : ∀ a w', Before c w' → T a w') : x.wpOk (rules git root path content) T w :=
  Prog.wp_mono (fun _ w' hb a _ => h a w' hb) (wp_calm hx hw)

def Still : Act → Prop
  | .quiet _ => True
  | _ => False

/-- Between two awaits only files change. -/
theorem wpOk_still {x : Body α} {T : α → Work → Prop} (hx : x.Asks Still) {ready : Prop}
    (hw : Before c w ∧ (w.ready ↔ ready))
    (h : ∀ a w', Before c w' ∧ (w'.ready ↔ ready) → T a w') :
    x.wpOk (rules git root path content) T w := by
  have keep : x.wp (rules git root path content)
      (fun _ w' => Before c w' ∧ (w'.ready ↔ ready)) w := by
    refine Prog.Asks.wp (fun _ _ => trivial)
      (fun {a v v'} ha hv hb => ⟨trivial, fun r v'' hr => ?_⟩) hx hw
    cases a with
    | quiet q =>
      subst hb
      obtain ⟨files, -, rfl⟩ := hr
      exact hv
    | _ => exact absurd ha id
  exact Prog.wp_mono (fun _ w' hb a _ => h a w' hb) keep

/-- Where a status is clean, the worktree is as the answer says just when the commit is. -/
theorem holds_iff_of_clean {repo : Repository} (clean : ∀ p, ¬ repo.Changed git p) :
    Holds git path content repo ↔ repo.head.tree path = some content := by
  constructor
  · rintro ⟨visible, h⟩
    rw [← Repository.worktree_of_unchanged (clean path) visible, h]
  · intro h
    have tracked : repo.index path = some content :=
      (Repository.index_of_unchanged (clean path)).trans h
    have visible : repo.Visible git path := Repository.visible_of_tracked tracked
    exact ⟨visible, (Repository.worktree_of_unchanged (clean path) visible).trans h⟩

theorem wpOk_run {T : String → Work → Prop}
    (h : ∀ w₁ output v files, (∃ files₁, w₁ = { w with files := files₁ }) →
      gitStep git root path content arguments w₁ (.ok output) v → T output { v with files }) :
    (GitGuard.run root arguments).wpOk (rules git root path content) T w := by
  refine (Prog.wp_ask _ _).2 ⟨trivial, fun w₁ hb => ⟨trivial, fun r w' hr => ?_⟩⟩
  rintro output rfl
  obtain ⟨v, files, hs, rfl⟩ := hr
  exact h w₁ output v files hb hs

/-- A status before the commit. -/
theorem wpOk_status {T : GitStatus → Work → Prop} (hw : Before c w)
    (h : ∀ status w', status.head = c.id → Before c w' →
      (status.dirty = false → (w'.ready ↔ c.tree path = some content)) → T status w') :
    (GitGuard.status root).wpOk (rules git root path content) T w := by
  refine wpOk_bind (wpOk_calm (Prog.asks_ask (by simp [Calm])) hw fun branch v hv => ?_)
  refine wpOk_bind (wpOk_run fun v₁ output u files hb hs => ?_)
  obtain ⟨files₁, rfl⟩ := hb
  unfold gitStep at hs
  rw [if_pos rfl] at hs
  obtain ⟨hhead, rfl⟩ := hs
  refine wpOk_bind (wpOk_run fun v₂ porcelain u files₂ hb hs => wpOk_pure ?_)
  obtain ⟨files₃, rfl⟩ := hb
  unfold gitStep at hs
  rw [if_neg (by decide), if_pos rfl] at hs
  obtain ⟨prints, rfl⟩ := hs
  refine h _ _ ((hhead output rfl).trans (congrArg Commit.id hv.1)) hv fun clean => ?_
  have none (p : String) : ¬ (Work.repo root { v with files := files₃ }).Changed git p := by
    rw [← prints.mem]
    have nil : GitGuard.porcelainPaths (Text.split '\x00' porcelain) = [] := by simpa using clean
    rw [nil]
    exact List.not_mem_nil
  have same : ((v.committed ∧ v.ready) ∨ (¬ v.committed ∧
      Holds git path content (Work.repo root { v with files := files₃ }))) ↔
        v.head.tree path = some content := by
    rw [or_iff_right fun h => hv.2 h.1, and_iff_right hv.2]
    exact holds_iff_of_clean none
  rw [← hv.1]
  exact same

/-! ## The commit -/

variable {head message description : String} {commitMode : Option CommitMode}
  {sessionId expectedBranch : Option String}

/-- The arguments of the commit of one path. -/
def commitOf (path description : String) (commitMode : Option CommitMode)
    (sessionId : Option String) : List String :=
  "commit" :: GitGuard.fileCommitOptions description commitMode sessionId ++ ["--only", "--"] ++
    [path]

theorem wip_ne {s t : String} (h : s.toList.head? ≠ some 'w') : "wip: " ++ t ≠ s := by
  rintro rfl
  exact h (by rw [String.toList_append]; rfl)

theorem pathspecs_commitOf :
    Repository.pathspecs (commitOf path description commitMode sessionId) = [path] := by
  have ne {t : String} : "wip: " ++ t ≠ "--" := wip_ne (by decide)
  rcases commitMode with _ | _ | _
  all_goals
    simp [commitOf, GitGuard.fileCommitOptions, GitGuard.commitOptions, Repository.pathspecs, ne,
      String.append_assoc]

theorem amends_commitOf : amends (commitOf path description commitMode sessionId) =
    decide (commitMode = some .amendSessionWip) := by
  have ne {t : String} : "wip: " ++ t ≠ "--" := wip_ne (by decide)
  have ne' {t : String} : "--amend" ≠ "wip: " ++ t := (wip_ne (by decide)).symm
  rcases commitMode with _ | _ | _
  all_goals
    simp [commitOf, GitGuard.fileCommitOptions, GitGuard.commitOptions, amends, ne, ne',
      String.append_assoc]

/-- A commit has been made. -/
def After (c : Commit) (ready : Prop) (w : Work) : Prop :=
  w.head = c ∧ w.committed ∧ (w.ready ↔ ready)

/-- A status after the commit. -/
theorem wpOk_status_after {ready : Prop} {T : GitStatus → Work → Prop} (hw : After c ready w)
    (h : ∀ status w', status.head = c.id → After c ready w' → T status w') :
    (GitGuard.status root).wpOk (rules git root path content) T w := by
  refine wpOk_bind (wpOk_run fun v₁ branch u files hb hs => ?_)
  obtain ⟨files₁, rfl⟩ := hb
  unfold gitStep at hs
  rw [if_neg (by decide), if_neg (by decide), if_neg (by decide), if_neg (by decide)] at hs
  subst hs
  refine wpOk_bind (wpOk_run fun v₂ output u files hb hs => ?_)
  obtain ⟨files₂, rfl⟩ := hb
  unfold gitStep at hs
  rw [if_pos rfl] at hs
  obtain ⟨hhead, rfl⟩ := hs
  refine wpOk_bind (wpOk_run fun v₃ porcelain u files hb hs => wpOk_pure ?_)
  obtain ⟨files₃, rfl⟩ := hb
  unfold gitStep at hs
  rw [if_neg (by decide), if_pos rfl] at hs
  obtain ⟨-, rfl⟩ := hs
  refine h _ _ ((hhead output rfl).trans (congrArg Commit.id hw.1)) ⟨hw.1, hw.2.1, ?_⟩
  have kept {holds : Prop} : (w.committed ∧ w.ready) ∨ (¬ w.committed ∧ holds) ↔ w.ready := by
    rw [and_iff_right hw.2.1, or_iff_left fun h => h.1 hw.2.1]
  exact kept.trans hw.2.2

/-- What a commit records is the requested change just when it takes the right things. -/
theorem tree_iff_stands {commit : Commit} {repo : Repository} {specs : List String}
    (tree : commit.tree = repo.recorded git specs) :
    ((∀ other, other ≠ path → commit.tree other = repo.head.tree other) ∧
      commit.tree path = some content) ↔ Stands git path content repo specs := by
  rw [tree]
  unfold Stands Repository.recorded
  refine and_congr (forall_congr' fun other => imp_congr_right fun _ => ?_) Iff.rfl
  by_cases taken : repo.takes git specs other = true
  · rw [if_pos taken, imp_iff_right taken]
  · rw [if_neg taken]
    exact iff_of_true rfl fun h => absurd h taken

theorem commit_of_gitStep {output : String} (h : gitStep git root path content
      (commitOf path description commitMode sessionId) w (.ok output) w') :
    ∃ commit index, commit.tree = (w.repo root).recorded git [path] ∧
      (commit.parents =
        if commitMode = some .amendSessionWip then w.head.parents else [w.head.id]) ∧
      w' = { w with
        head := commit, index, committed := True
        ready := Stands git path content (w.repo root) [path] } := by
  have hc : (commitOf path description commitMode sessionId).head? = some "commit" := rfl
  have other {l : List String} (hl : l.head? ≠ some "commit") :
      commitOf path description commitMode sessionId ≠ l := fun he => hl (he ▸ hc)
  unfold gitStep at h
  rw [if_neg (other (by decide)), if_neg (other (by decide)), hc, if_neg (by decide), if_pos rfl,
    pathspecs_commitOf, amends_commitOf] at h
  simpa using h

/-- The commit, and the check that it left a new clean baseline. -/
theorem wpOk_commit (hw : Before c w) :
    (do
      let _ ← GitGuard.run root (commitOf path description commitMode sessionId)
      let final ← GitGuard.status root
      if final.dirty ∨ Text.lower final.head = Text.lower head then
        reject .conflict message
          [("expected_previous_head", .str head), ("actual_head", .str final.head),
            ("changed_files", .ofStrings final.changedFiles)]
      pure final.head : Body String).wpOk (rules git root path content)
        (fun h w' => Exactly path content c head commitMode h w' ↔ w'.ready) w := by
  refine wpOk_bind (wpOk_run fun w₁ output v files hb hs => ?_)
  obtain ⟨files₁, rfl⟩ := hb
  obtain ⟨commit, index, tree, parents, rfl⟩ := commit_of_gitStep hs
  have stands : ((∀ other, other ≠ path → commit.tree other = c.tree other) ∧
      commit.tree path = some content) ↔
        Stands git path content (Work.repo root { w with files := files₁ }) [path] := by
    rw [← hw.1]
    exact tree_iff_stands tree
  have after : After commit (Stands git path content
      (Work.repo root { w with files := files₁ }) [path])
      { w with
        head := commit, index, files, committed := True
        ready := Stands git path content (Work.repo root { w with files := files₁ }) [path] } :=
    ⟨rfl, trivial, Iff.rfl⟩
  refine wpOk_bind (wpOk_status_after after fun final w' hhead after => ?_)
  dsimp only
  split_ifs with failed
  · exact wpOk_raise
  · refine wpOk_pure ?_
    have moved := (not_or.1 failed).2
    rw [after.2.2, ← stands]
    unfold Exactly
    rw [or_iff_right fun h => moved h.1, and_iff_right
      (hhead.trans (congrArg Commit.id after.1.symm)), after.1, ← and_assoc, and_iff_left]
    rw [parents, hw.1]
    rcases commitMode with _ | _ | _
    · rw [if_neg (by decide)]
    · rw [if_neg (by decide)]
    · rw [if_pos rfl]

theorem calm_status : (GitGuard.status root).Asks Calm :=
  GitGuard.asks_status (by simp [Calm]) (by simp [Calm]) (by simp [Calm])

theorem wpOk_commitAndVerify (hw : Before c w) :
    (GitGuard.commitAndVerify root (commitOf path description commitMode sessionId)
      (commitMode.getD .create) head expectedBranch message).wpOk (rules git root path content)
        (fun h w' => Exactly path content c head commitMode h w' ↔ w'.ready) w := by
  unfold GitGuard.commitAndVerify
  by_cases amend : commitMode.getD .create = .amendSessionWip
  · rw [if_pos amend]
    have verify : (GitGuard.verifyAmendTarget root head expectedBranch).Asks Calm :=
      GitGuard.asks_verifyAmendTarget calm_status fun _ => by simp [Calm]
    exact wpOk_bind (wpOk_calm verify hw fun _ v hv => wpOk_commit hv)
  · rw [if_neg amend]
    exact wpOk_commit hw

/-! ## The method -/

variable {dirty target : String} {paths : List String} {requireExists : Option Bool}

/-- The head that was already there is the right answer just when its commit holds the content. -/
theorem exactly_iff_tree (hw : Before c w) (hc : Text.lower c.id = Text.lower head) :
    Exactly path content c head commitMode c.id w ↔ c.tree path = some content := by
  unfold Exactly
  rw [hw.1]
  exact ⟨fun h => h.elim (fun h => h.2.2) fun h => h.2.2.1, fun h => .inl ⟨hc, rfl, h⟩⟩

theorem wpOk_requireBaseline {T : GitStatus → Work → Prop} (hw : Before c w)
    (h : ∀ before w', before.head = c.id → Text.lower c.id = Text.lower head → Before c w' →
      (w'.ready ↔ c.tree path = some content) → T before w') :
    (GitGuard.requireBaseline root head message dirty).wpOk (rules git root path content) T w := by
  refine wpOk_bind (wpOk_status hw fun before w' hhead hw' hready => ?_)
  dsimp only
  by_cases moved : Text.lower before.head ≠ Text.lower head
  · rw [if_pos moved]
    exact wpOk_raise
  · rw [if_neg moved]
    by_cases hd : before.dirty = true
    · rw [if_pos hd]
      exact wpOk_raise
    · rw [if_neg hd]
      rw [hhead, ne_eq, not_not] at moved
      exact wpOk_pure (h before w' hhead moved hw' (hready (Bool.eq_false_iff.2 hd)))

theorem wpOk_finish {x : Body String} {details : BridgeError → Dict} {T : String → Work → Prop}
    (hx : x.wpOk (rules git root path content) T w) :
    (x.exceptBridge fun exc => reject .unknownSideEffect message (details exc) .unknown).wpOk
      (rules git root path content) T w := by
  refine wpOk_handle hx fun e y w' he => ?_
  cases e with
  | bridge e =>
    cases he
    exact wpOk_raise
  | _ => cases he

theorem wpOk_finishFile (hw : Before c w) (hc : Text.lower c.id = Text.lower head) :
    (GitGuard.finishFile root path (commitOf path description commitMode sessionId) head commitMode
      expectedBranch).wpOk (rules git root path content)
        (fun h w' => Exactly path content c head commitMode h w' ↔ w'.ready) w := by
  refine wpOk_bind (wpOk_status hw fun after w' hhead hw' hready => ?_)
  refine wpOk_bind (wpOk_still GitGuard.asks_requireIsolated ⟨hw', Iff.rfl⟩ fun _ v hv => ?_)
  have commit {u : Work} (hu : Before c u) : (do
      let _ ← GitGuard.run root ["add", "--", path]
      GitGuard.commitAndVerify root (commitOf path description commitMode sessionId)
        (commitMode.getD .create) head expectedBranch
          "file mutation did not finalize to a new clean Git baseline" :
          Body String).wpOk (rules git root path content)
            (fun h w' => Exactly path content c head commitMode h w' ↔ w'.ready) u :=
    wpOk_bind (wpOk_calm (Prog.asks_ask (by simp [Calm])) hu fun _ _ hu' =>
      wpOk_commitAndVerify hu')
  dsimp only
  by_cases clean : after.dirty = false
  · rw [if_pos (by rw [clean]; rfl)]
    refine wpOk_pure ?_
    rw [hhead, hv.2, hready clean]
    exact exactly_iff_tree hv.1 hc
  · rw [if_neg (by simpa using clean)]
    split_ifs
    · exact wpOk_raise
    · exact commit hv.1

/-- A file commit is exactly the requested change just when it found the requested bytes wherever
Git last read the worktree. -/
theorem exactly_iff_ready (git : GitRules) (root path : String) (content : ByteArray)
    (expectedHead description : String) (requireExists : Option Bool)
    (commitMode : Option CommitMode) (sessionId expectedBranch : Option String) (c : Commit)
    (index files : Contents) :
    (GitGuard.commitFileBytes root path content expectedHead description requireExists commitMode
      sessionId expectedBranch).wpOk (rules git root path content)
        (fun head w => Exactly path content c expectedHead commitMode head w ↔ w.ready)
        { head := c, index, files } := by
  have start : Before c { head := c, index, files } := ⟨rfl, id⟩
  rw [GitGuard.commitFileBytes_eq]
  refine wpOk_bind (wpOk_calm GitGuard.asks_requireHead start fun _ w₁ h₁ => ?_)
  rcases GitGuard.fileCommitArguments_eq path description commitMode sessionId with he | ⟨e, he⟩
  case inr =>
    rw [he]
    exact wpOk_raise
  rw [he]
  refine wpOk_bind (wpOk_pure (wpOk_bind
    (wpOk_requireBaseline h₁ fun before w₂ hhead hc h₂ hr => ?_)))
  refine wpOk_bind (wpOk_still (GitGuard.asks_checkTarget trivial trivial trivial) ⟨h₂, hr⟩
    fun same w₃ h₃ => ?_)
  by_cases hs : same = true
  · rw [if_pos hs]
    refine wpOk_pure ?_
    rw [hhead, h₃.2]
    exact exactly_iff_tree h₃.1 hc
  · rw [if_neg hs]
    refine wpOk_bind (wpOk_still (GitGuard.asks_writeFile fun _ => trivial) h₃ fun _ w₄ h₄ => ?_)
    exact wpOk_finish (wpOk_finishFile h₄.1 hc)

/-! ## An ignored file -/

/-- A repository with nothing in it, which nobody else touches. -/
def untouched (a : Act) (w : Work) : Except Exn a.Result × Work :=
  match a with
  | .git _ arguments =>
    if arguments = ["rev-parse", "HEAD"] then (.ok w.head.id, w)
    else if arguments = ["status", "--porcelain=v1", "--untracked-files=all", "-z"] then
      (.ok "", { w with ready := (w.committed ∧ w.ready) ∨
        (¬ w.committed ∧ Holds ignoring "out.txt" "new".toUTF8 (w.repo "/p")) })
    else if arguments.head? = some "add" then (.error .other, w)
    else if arguments.head? = some "commit" then (.error .other, { w with committed := True })
    else (.ok "main", w)
  | .quiet (.exists_ path) => (.ok (w.files path).isSome, w)
  | .quiet (.makeTemp _) =>
    if w.files "/p/.temp" = none then
      (.ok "/p/.temp",
        { w with files := Function.update w.files "/p/.temp" (some ByteArray.empty) })
    else (.error .other, w)
  | .quiet (.writeTemp temp content) =>
    (.ok (), { w with files := Function.update w.files temp (some content) })
  | .quiet (.replace temp target) => (.ok (), { w with
      files := Function.update (Function.update w.files target (w.files temp)) temp none })
  | .quiet _ => (.error .other, w)
  | .command .. => (.error .other, w)

/-- Nothing is tracked. -/
def Untracked (w : Work) : Prop := w.head = emptyCommit ∧ w.index = fun _ => none

theorem prints_of_untracked (hw : Untracked w) : (w.repo root).Prints ignoring "" :=
  Repository.prints_ignoring hw.1 hw.2

theorem untouched_git {arguments : List String} (hw : Untracked w) :
    gitStep ignoring "/p" "out.txt" "new".toUTF8 arguments w (untouched (.git root arguments) w).1
        (untouched (.git root arguments) w).2 ∧
      Untracked (untouched (.git root arguments) w).2 := by
  have strips : Text.strip emptyCommit.id = emptyCommit.id := by decide +kernel
  simp only [untouched, gitStep]
  split_ifs
  · refine ⟨⟨?_, rfl⟩, hw⟩
    intro output answer
    cases answer
    rw [hw.1]
    exact strips
  · exact ⟨⟨prints_of_untracked hw, rfl⟩, hw⟩
  · exact ⟨⟨w.index, rfl⟩, hw⟩
  · exact ⟨⟨w.head, w.index, rfl⟩, hw⟩
  · exact ⟨⟨w.head, w.index, rfl⟩, hw⟩
  · exact ⟨rfl, hw⟩

theorem untouched_quiet (q : Quiet) (hw : Untracked w) :
    (∃ files, quietStep q w.files (untouched (.quiet q) w).1 files ∧
      (untouched (.quiet q) w).2 = { w with files }) ∧ Untracked (untouched (.quiet q) w).2 := by
  cases q with
  | exists_ path =>
    refine ⟨⟨w.files, ⟨?_, rfl⟩, rfl⟩, hw⟩
    rintro b hb there
    cases hb
    exact there
  | makeTemp directory =>
    by_cases free : w.files "/p/.temp" = none
    · have answer : untouched (.quiet (.makeTemp directory)) w = (.ok "/p/.temp",
          { w with files := Function.update w.files "/p/.temp" (some ByteArray.empty) }) :=
        if_pos free
      rw [answer]
      exact ⟨⟨_, ⟨free, rfl⟩, rfl⟩, hw⟩
    · have answer : untouched (.quiet (.makeTemp directory)) w = (.error .other, w) := if_neg free
      rw [answer]
      exact ⟨⟨w.files, rfl, rfl⟩, hw⟩
  | isFile path => exact ⟨⟨w.files, ⟨(fun _ h => nomatch h), rfl⟩, rfl⟩, hw⟩
  | readBytes path => exact ⟨⟨w.files, ⟨(fun _ h => nomatch h), rfl⟩, rfl⟩, hw⟩
  | writeTemp temp content => exact ⟨⟨_, rfl, rfl⟩, hw⟩
  | replace temp target => exact ⟨⟨_, rfl, rfl⟩, hw⟩
  | _ => exact ⟨⟨w.files, rfl, rfl⟩, hw⟩

theorem untouched_possible (a : Act) (w : Work) (hw : Untracked w) :
    (∃ w₁, (rules ignoring "/p" "out.txt" "new".toUTF8).before a w w₁ ∧
      (rules ignoring "/p" "out.txt" "new".toUTF8).answer a w₁ (untouched a w).1
        (untouched a w).2) ∧
      Untracked (untouched a w).2 := by
  cases a with
  | quiet q => exact ⟨⟨w, rfl, (untouched_quiet q hw).1⟩, (untouched_quiet q hw).2⟩
  | git root arguments =>
    have possible := (untouched_git hw : gitStep ignoring "/p" "out.txt" "new".toUTF8 arguments w
      (untouched (.git root arguments) w).1 (untouched (.git root arguments) w).2 ∧ _)
    exact ⟨⟨w, ⟨w.files, rfl⟩, _, _, possible.1, rfl⟩, possible.2⟩
  | command project command => exact ⟨⟨w, ⟨w.files, rfl⟩, w.files, rfl⟩, hw⟩

/-- The creation of a file, answered like this. -/
def ignoredCreate : Async.Task Act (fun a => Except Exn a.Result) (Except Exn String) × Work :=
  Async.Task.follow untouched 12 (GitGuard.commitFileBytes "/p" "out.txt" "new".toUTF8
    emptyCommit.id "create" (some false) (some .create) (some "s") (some "main")).task
    { head := emptyCommit, index := fun _ => none, files := fun _ => none }

/-- An ignored file is created, and a head is returned whose commit does not hold it. -/
theorem ignored_file_not_committed : ¬ (GitGuard.commitFileBytes "/p" "out.txt" "new".toUTF8
    emptyCommit.id "create" (some false) (some .create) (some "s") (some "main")).wpOk
      (rules ignoring "/p" "out.txt" "new".toUTF8)
      (fun head w => Exactly "out.txt" "new".toUTF8 emptyCommit emptyCommit.id
      (some .create) head w)
      { head := emptyCommit, index := fun _ => none, files := fun _ => none } := by
  intro h
  have start : Untracked { head := emptyCommit, index := fun _ => none, files := fun _ => none } :=
    ⟨rfl, rfl⟩
  obtain ⟨leads, untracked⟩ := Async.Task.leads_follow_of untouched_possible 12 _ _ start
  have rest : ignoredCreate.1.wp (rules ignoring "/p" "out.txt" "new".toUTF8)
      (fun r w => ∀ head, r = .ok head →
        Exactly "out.txt" "new".toUTF8 emptyCommit emptyCommit.id (some .create) head w)
      ignoredCreate.2 := leads.wp h
  have ended : ∃ head, ignoredCreate.1 = .done (.ok head) := ⟨emptyCommit.id, by rfl⟩
  obtain ⟨head, ended⟩ := ended
  rw [ended] at rest
  rcases rest head rfl with ⟨-, -, tree⟩ | ⟨-, -, tree, -⟩
  · cases tree
  · have none : ignoredCreate.2.head = emptyCommit := untracked.1
    rw [none] at tree
    cases tree

end FileCommit

end CodemcpBridge
