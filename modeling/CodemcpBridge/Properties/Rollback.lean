import CodemcpBridge.Idle
import CodemcpBridge.Properties.Runs

/-!
# A rollback is a compare-and-swap

`checkpoint_restore` looks at the branch and at `HEAD` twice before it resets: when it checks its
precondition, and when it takes the safety checkpoint.  Only what it sees the first time is compared
with what was asked for.  Where nobody moves `HEAD` between the two looks the reset is made under
the precondition; where somebody does, what they have committed is lost.
-/

namespace CodemcpBridge

open Async (Prog)
open Body
open Scene (Others wp_blind)

/-! ## What the reset demands -/

def Sight.isHead : Sight → Bool
  | head _ => true
  | _ => false

/-- What was seen is the branch and the head that were asked for. -/
def Sight.Agrees (name hash : String) : Sight → Prop
  | branch b => b = name
  | head h => Text.lower h = Text.lower hash
  | _ => True

/-- Every look at the branch and at `HEAD` agrees with the checkpoint and the expected head, and the
last thing that was seen is a clean worktree. -/
def Scene.Compared (checkpointId expectedHead : String) (w : Scene) : Prop :=
  ∃ row, w.db.checkpoint? checkpointId = some row ∧
    (∀ s ∈ w.seen, s.Agrees row.branch expectedHead) ∧ w.seen.head? = some (.changes [])

/-- `git reset --hard`. -/
def Act.resets : Act → Bool
  | git _ arguments => arguments.take 2 == ["reset", "--hard"]
  | _ => false

/-- Nothing may change the checkout but a reset, which is made only where the looks have been
compared. -/
def swapOnly (checkpointId expectedHead : String) (a : Act) (w : Scene) : Prop :=
  a.changes = true → a.resets = true ∧ w.Compared checkpointId expectedHead

/-- In every run of a restoration `HEAD`, the index and the worktree are changed by a reset only,
which is made only where the looks have been compared; a run that has not made it has failed. -/
def ComparesAndSwaps (steady : Scene → Prop) : Prop :=
  ∀ (env : Env) (projectId sessionId checkpointId expectedHead operationId : String)
    (db : Database) (checkout : Checkout),
    (restoreCheckpointBody env projectId sessionId checkpointId expectedHead operationId).wp
      (Scene.rules steady (swapOnly checkpointId expectedHead))
      (fun r w => w.changed = false → ∃ e, r = .error e) { db, checkout }

/-- How often the body has looked at `HEAD`. -/
def Scene.heads (w : Scene) : ℕ := (w.seen.filter Sight.isHead).length

/-- The body has begun to look, and has not looked at `HEAD` for the second time. -/
def Scene.watching (w : Scene) : Prop := w.seen ≠ [] ∧ w.heads < 2

/-! ## The two looks -/

section Looks

variable {steady : Scene → Prop} {checkpointId expectedHead : String} {w w' : Scene}

theorem legal_of_unchanging {a : Act} (ha : a.changes = false) :
    swapOnly checkpointId expectedHead a w := fun hc => by
  rw [ha] at hc
  cases hc

theorem legal_of_blind {a : Act} (ha : a.blind = true) :
    swapOnly checkpointId expectedHead a w := by
  refine legal_of_unchanging ?_
  cases a with
  | git root arguments =>
    have hblind := Bool.and_eq_true_iff.1 ha
    simpa [Act.changes] using hblind.1
  | _ => simpa [Act.blind] using ha

/-- A look by a command that changes nothing. -/
theorem wp_look {root : String} {arguments : List String} {T : String → Scene → Prop}
    (hc : gitChanges arguments = false)
    (h : ∀ w₁ output s, Others steady w w₁ → sightOf arguments output = some s →
      w₁.Shows s → T output { w₁ with seen := s :: w₁.seen })
    (hs : ∀ output, (sightOf arguments output).isSome) :
    (GitGuard.run root arguments).wpOk (Scene.rules steady
      (swapOnly checkpointId expectedHead)) T w := by
  refine ⟨trivial, fun w₁ hb => ⟨legal_of_unchanging hc, ?_⟩⟩
  rintro r w' ⟨hshows, hw'⟩ output rfl
  obtain ⟨s, hsight⟩ := Option.isSome_iff_exists.1 (hs output)
  rw [if_neg (by simp [hc])] at hw'
  have : (Except.ok output : Except Exn String).toOption.bind (sightOf arguments) = some s := hsight
  rw [this] at hw' hshows
  exact hw' ▸ h w₁ output s hb hsight (hshows s rfl)

/-- The store holds the checkpoint, which is of the branch. -/
def Scene.Holds (checkpointId branch : String) (w : Scene) : Prop :=
  ∃ row, w.db.checkpoint? checkpointId = some row ∧ row.branch = branch

theorem Scene.Holds.onward {branch : String} (h : w.Holds checkpointId branch)
    (hw : Written w.db w'.db) : w'.Holds checkpointId branch := by
  obtain ⟨row, hrow, rfl⟩ := h
  obtain ⟨row', hrow', honward⟩ := hw.onward.checkpoints checkpointId row hrow
  exact ⟨row', hrow', honward.branch⟩

/-- The body has looked `n` times at `HEAD` and has seen one branch and one head only; while it is
watching they are still there. -/
structure Scene.Constant (checkpointId kept name hash : String) (n : ℕ) (w : Scene) : Prop where
  unchanged : w.changed = false
  holds : w.Holds checkpointId kept
  agrees : ∀ s ∈ w.seen, s.Agrees name hash
  heads : w.heads = n
  branch : w.watching → w.checkout.branch = name
  head : w.watching → w.checkout.head = hash

variable {kept name hash : String} {n : ℕ}

theorem watching_others (hb : Others steady w w') : w'.watching ↔ w.watching := by
  unfold Scene.watching Scene.heads
  rw [hb.seen]

theorem kept_constant : Scene.Kept Scene.watching
    (Scene.Constant checkpointId kept name hash n) := by
  intro w w' h hb
  refine ⟨hb.changed.trans h.unchanged, h.holds.onward hb.written, ?_, ?_, fun hw =>
    ?_, fun hw => ?_⟩
  · rw [hb.seen]
    exact h.agrees
  · unfold Scene.heads
    rw [hb.seen]
    exact h.heads
  · have hw := (watching_others hb).1 hw
    exact (hb.branch hw).trans (h.branch hw)
  · have hw := (watching_others hb).1 hw
    exact (hb.head hw).trans (h.head hw)

/-- Nothing has been seen yet. -/
structure Scene.Unseen (checkpointId kept : String) (w : Scene) : Prop where
  unchanged : w.changed = false
  holds : w.Holds checkpointId kept
  seen : w.seen = []

theorem kept_unseen : Scene.Kept steady (Scene.Unseen checkpointId kept) := fun h hb =>
  ⟨hb.changed.trans h.unchanged, h.holds.onward hb.written, hb.seen.trans h.seen⟩

/-- What the first look begins to watch. -/
theorem Scene.Unseen.branch (h : w.Unseen checkpointId kept) :
    Scene.Constant checkpointId kept w.checkout.branch w.checkout.head 0
      { w with seen := .branch w.checkout.branch :: w.seen } := by
  refine ⟨h.unchanged, h.holds, ?_, ?_, fun _ => rfl, fun _ => rfl⟩
  · simp [h.seen, Sight.Agrees]
  · simp [Scene.heads, h.seen, Sight.isHead]

namespace Scene.Constant

theorem see (h : w.Constant checkpointId kept name hash n) {s : Sight} (hs : s.Agrees name hash)
    (hh : s.isHead = false) (hw : w.watching ∨ w.heads = 2) :
    Scene.Constant checkpointId kept name hash n { w with seen := s :: w.seen } := by
  have hheads : Scene.heads { w with seen := s :: w.seen } = w.heads := by
    simp [Scene.heads, hh]
  have watching : Scene.watching { w with seen := s :: w.seen } → w.watching := fun hw' =>
    hw.resolve_right fun h2 => by
      have := hw'.2
      omega
  exact ⟨h.unchanged, h.holds, List.forall_mem_cons.2 ⟨hs, h.agrees⟩, hheads.trans h.heads,
    fun hw' => h.branch (watching hw'), fun hw' => h.head (watching hw')⟩

theorem seeHead (h : w.Constant checkpointId kept name hash n) (hw : w.watching) :
    Scene.Constant checkpointId kept name hash (n + 1)
      { w with seen := .head w.checkout.head :: w.seen } := by
  have hheads : Scene.heads { w with seen := .head w.checkout.head :: w.seen } = w.heads + 1 := by
    simp [Scene.heads, List.filter_cons_of_pos (show Sight.isHead (.head w.checkout.head) from rfl)]
  refine ⟨h.unchanged, h.holds, List.forall_mem_cons.2 ⟨?_, h.agrees⟩, ?_, fun _ => h.branch hw,
    fun _ => h.head hw⟩
  · exact congrArg Text.lower (h.head hw)
  · rw [hheads, h.heads]

end Scene.Constant

/-- A status is one look at the branch, one at `HEAD` and one at the worktree. -/
theorem wp_status {root : String} {J : Scene → Prop} {P : String → String → Prop} (hn : n < 2)
    (hJ : Scene.Kept Scene.watching J)
    (first : ∀ {w : Scene}, J w → ∃ hash, P w.checkout.branch hash ∧
      Scene.Constant checkpointId kept w.checkout.branch hash n
        { w with seen := .branch w.checkout.branch :: w.seen }) (hw : J w) :
    (GitGuard.status root).wpOk (Scene.rules Scene.watching (swapOnly checkpointId expectedHead))
      (fun status w' => P status.branch status.head ∧
        w'.Constant checkpointId kept status.branch status.head (n + 1) ∧
        w'.seen.head? = some (.changes status.changedFiles) ∧
        status.dirty = !status.changedFiles.isEmpty) w := by
  refine Prog.wpOk_bind (wp_look rfl (fun w₁ output s hb hs hshows => ?_) fun _ => rfl)
  obtain rfl := Option.some.inj hs
  obtain ⟨hash, hP, hconstant⟩ := first (hJ hw hb)
  change Text.strip output = w₁.checkout.branch at hshows
  rw [← hshows] at hP hconstant
  generalize Text.strip output = name at hP hconstant
  refine Prog.wpOk_bind (wp_look rfl (fun w₂ output s hb hs hshows => ?_) fun _ => rfl)
  obtain rfl := Option.some.inj hs
  have h₂ := kept_constant hconstant hb
  have hwatching : w₂.watching := by
    refine ⟨?_, by rw [h₂.heads]; exact hn⟩
    rw [hb.seen]
    exact List.cons_ne_nil _ _
  have hsaw := h₂.seeHead hwatching
  change Text.strip output = w₂.checkout.head at hshows
  have heq := hshows.trans (h₂.head hwatching)
  rw [← hshows] at hsaw
  generalize Text.strip output = head at hsaw heq
  subst heq
  refine Prog.wpOk_bind (wp_look rfl (fun w₃ output s hb hs hshows => ?_) fun _ => rfl)
  obtain rfl := Option.some.inj hs
  have h₃ := kept_constant hsaw hb
  generalize GitGuard.porcelainPaths (Text.split '\x00' output) = files
  refine Prog.wpOk_pure ⟨hP, h₃.see trivial rfl ?_, rfl, rfl⟩
  by_cases h0 : n = 0
  · refine .inl ⟨?_, by rw [h₃.heads]; omega⟩
    rw [hb.seen]
    exact List.cons_ne_nil _ _
  · refine .inr ?_
    rw [h₃.heads]
    omega

/-! ## The parts of a restoration -/

/-- A blind program keeps what others cannot take away, whatever it returns. -/
theorem ok_blind {α : Type} {x : Body α} {J : Scene → Prop} (hx : x.Asks (·.blind))
    (hJ : Scene.Kept steady J) (hw : J w) :
    x.wpOk (Scene.rules steady (swapOnly checkpointId expectedHead)) (fun _ => J) w :=
  Prog.wp_mono (fun _ _ h _ _ => h) (wp_blind hx hJ (fun ha _ => legal_of_blind ha) hw)

/-- The inspection is the first look. -/
theorem wp_inspectProject {project : ProjectSpec} {enforceBranch : Bool}
    (hw : w.Unseen checkpointId kept) : (inspectProject project enforceBranch).wpOk
      (Scene.rules Scene.watching (swapOnly checkpointId expectedHead))
      (fun status => Scene.Constant checkpointId kept status.branch status.head 1) w := by
  refine Prog.wpOk_bind (Prog.wpOk_mono (fun isDir w₁ h₁ => ?_)
    (ok_blind (blind_of_passive (passive_quiet (by rfl))) kept_unseen hw))
  dsimp only
  split
  · exact Prog.wpOk_bind Prog.wpOk_raise
  · refine Prog.wpOk_bind (Prog.wpOk_mono (fun _ w₂ h₂ => ?_)
      (ok_blind (blind_of_passive passive_requireWorktreeRoot) kept_unseen h₁))
    refine Prog.wpOk_bind (Prog.wpOk_mono (fun status w₃ h₃ => ?_)
      (wp_status (P := fun _ _ => True) Nat.zero_lt_two kept_unseen
        (fun h => ⟨_, trivial, h.branch⟩) h₂))
    obtain ⟨-, h₃, -⟩ := h₃
    split
    · exact Prog.wpOk_bind (Prog.wpOk_mono (fun _ _ h => Prog.wpOk_pure h)
        (ok_blind (blind_of_passive passive_requireAllowedBranch) kept_constant h₃))
    · exact Prog.wpOk_pure h₃

/-- What a restoration has seen when its precondition has been checked. -/
def Scene.Prepared (checkpointId expectedHead : String) (checkpoint : CheckpointRecord)
    (w : Scene) : Prop :=
  ∃ hash, Text.lower hash = Text.lower expectedHead ∧
    w.Constant checkpointId checkpoint.branch checkpoint.branch hash 1

theorem kept_prepared {checkpoint : CheckpointRecord} :
    Scene.Kept Scene.watching (Scene.Prepared checkpointId expectedHead checkpoint) :=
  fun ⟨hash, heq, h⟩ hb => ⟨hash, heq, kept_constant h hb⟩

theorem wp_getForSession {p s : String} (hw : w.changed = false) (hs : w.seen = []) :
    (Checkpoints.getForSession checkpointId p s).wpOk
      (Scene.rules steady (swapOnly checkpointId expectedHead))
      (fun checkpoint => Scene.Unseen checkpointId checkpoint.branch) w := by
  refine Prog.wpOk_bind ⟨trivial, fun w₁ hb =>
    ⟨legal_of_unchanging rfl, fun r w' hr found hok => ?_⟩⟩
  have hdb : found = w₁.db.checkpoint? checkpointId ∧ w' = w₁ := by
    subst hok
    rcases hr with ⟨⟨⟩, -⟩ | ⟨st, hr⟩
    obtain ⟨hr, rfl⟩ := hr
    exact ⟨Except.ok.inj hr, rfl⟩
  obtain ⟨rfl, rfl⟩ := hdb
  cases hfound : w'.db.checkpoint? checkpointId with
  | none => exact Prog.wpOk_raise
  | some row =>
    dsimp only
    split
    · rename_i checkpoint hfilter
      obtain rfl : row = checkpoint := Option.some.inj (Option.filter_eq_some_iff.1 hfilter).1
      exact Prog.wpOk_pure ⟨hb.changed.trans hw, ⟨row, hfound, rfl⟩, hb.seen.trans hs⟩
    · exact Prog.wpOk_raise

theorem wp_rollbackPreconditions {env : Env} {project : ProjectSpec} {p s : String}
    (hw : w.changed = false) (hs : w.seen = []) :
    (rollbackPreconditions env project p s checkpointId expectedHead).wpOk
      (Scene.rules Scene.watching (swapOnly checkpointId expectedHead))
      (fun checkpoint => Scene.Prepared checkpointId expectedHead checkpoint) w := by
  refine Prog.wpOk_bind (Prog.wpOk_mono (fun checkpoint w₁ h₁ => ?_) (wp_getForSession hw hs))
  refine Prog.wpOk_bind (Prog.wpOk_mono (fun _ w₂ h₂ => ?_)
    (ok_blind (blind_of_passive passive_verifyRef) kept_unseen h₁))
  refine Prog.wpOk_bind (Prog.wpOk_mono (fun current w₃ h₃ => ?_) (wp_inspectProject h₂))
  unfold requireRollbackTarget
  dsimp only
  split_ifs with hmoved
  · exact Prog.wpOk_bind (Prog.wpOk_bind Prog.wpOk_raise)
  · obtain ⟨hbranch, hhead⟩ := not_or.1 hmoved
    rw [not_not] at hbranch hhead
    have prepared : w₃.Prepared checkpointId expectedHead checkpoint := ⟨_, hhead, hbranch ▸ h₃⟩
    refine Prog.wpOk_bind (Prog.wpOk_mono (fun _ _ h => Prog.wpOk_pure h)
      (ok_blind ?_ kept_prepared prepared))
    exact blind_of_passive
      (.bind passive_requireAllowedBranch fun _ => passive_requireCleanWorkspace)

/-- What a restoration has seen when the safety checkpoint's snapshot has been taken. -/
structure Scene.Snapped (checkpointId expectedHead : String) (checkpoint : CheckpointRecord)
    (files : List String) (w : Scene) : Prop where
  same : ∃ hash, Text.lower hash = Text.lower expectedHead ∧
    w.Constant checkpointId checkpoint.branch checkpoint.branch hash 2
  last : w.seen.head? = some (.changes files)

theorem kept_snapped {checkpoint : CheckpointRecord} {files : List String} :
    Scene.Kept Scene.watching (Scene.Snapped checkpointId expectedHead checkpoint files) := by
  rintro w w' ⟨⟨hash, heq, h⟩, hlast⟩ hb
  exact ⟨⟨hash, heq, kept_constant h hb⟩, hb.seen ▸ hlast⟩

theorem Scene.Snapped.compared {checkpoint : CheckpointRecord}
    (h : w.Snapped checkpointId expectedHead checkpoint []) :
    w.changed = false ∧ w.Compared checkpointId expectedHead := by
  obtain ⟨⟨hash, heq, hconstant⟩, hlast⟩ := h
  obtain ⟨row, hrow, hbranch⟩ := hconstant.holds
  refine ⟨hconstant.unchanged, row, hrow, fun s hs => ?_, hlast⟩
  have hagrees := hconstant.agrees s hs
  cases s with
  | branch name => exact Eq.trans hagrees hbranch.symm
  | head h => exact Eq.trans hagrees heq
  | _ => trivial

/-- The snapshot of the safety checkpoint is the second look. -/
theorem wp_snapshot {root : String} {checkpoint : CheckpointRecord}
    (hw : w.Prepared checkpointId expectedHead checkpoint) : (GitGuard.snapshot root).wpOk
      (Scene.rules Scene.watching (swapOnly checkpointId expectedHead))
      (fun snapshot w' => w'.Snapped checkpointId expectedHead checkpoint snapshot.changedFiles ∧
        snapshot.dirty = !snapshot.changedFiles.isEmpty) w := by
  obtain ⟨hash, heq, hw⟩ := hw
  have first : ∀ {w : Scene}, w.Constant checkpointId checkpoint.branch checkpoint.branch hash 1 →
      ∃ h, (w.checkout.branch = checkpoint.branch ∧ h = hash) ∧
        Scene.Constant checkpointId checkpoint.branch w.checkout.branch h 1
          { w with seen := .branch w.checkout.branch :: w.seen } := by
    intro w hw
    have hwatching : w.watching := by
      refine ⟨fun hnil => ?_, by rw [hw.heads]; omega⟩
      have := hw.heads
      rw [Scene.heads, hnil] at this
      exact absurd this (by decide)
    have hbranch := hw.branch hwatching
    refine ⟨hash, ⟨hbranch, rfl⟩, ?_⟩
    rw [hbranch]
    exact hw.see rfl rfl (.inl hwatching)
  refine Prog.wpOk_bind (Prog.wpOk_mono (fun status w₁ h₁ => ?_)
    (wp_status (n := 1) (P := fun b h => b = checkpoint.branch ∧ h = hash) (by omega)
      kept_constant first hw))
  obtain ⟨⟨hbranch, hhead⟩, hconstant, hlast, hdirty⟩ := h₁
  rw [hbranch, hhead] at hconstant
  have snapped : w₁.Snapped checkpointId expectedHead checkpoint status.changedFiles :=
    ⟨⟨hash, heq, hconstant⟩, hlast⟩
  exact Prog.wpOk_bind (Prog.wpOk_mono (fun _ _ h => Prog.wpOk_pure ⟨h, hdirty⟩)
    (ok_blind (blind_of_passive (passive_run (by rfl) (by rfl))) kept_snapped snapped))

/-- The safety checkpoint is taken of a clean worktree. -/
theorem wp_create {project : ProjectSpec} {s o : String} {kind : CheckpointKind}
    {checkpoint : CheckpointRecord} (hw : w.Prepared checkpointId expectedHead checkpoint) :
    (Checkpoints.create project s o kind).wpOk
      (Scene.rules Scene.watching (swapOnly checkpointId expectedHead))
      (fun _ w' => w'.Snapped checkpointId expectedHead checkpoint []) w := by
  refine Prog.wpOk_bind (Prog.wpOk_mono (fun _ w₁ h₁ => ?_)
    (ok_blind (blind_of_passive passive_requireWorktreeRoot) kept_prepared hw))
  refine Prog.wpOk_bind (Prog.wpOk_mono (fun snapshot w₂ h₂ => ?_) (wp_snapshot h₁))
  dsimp only
  split_ifs with hdirty
  · exact Prog.wpOk_bind Prog.wpOk_raise
  · obtain ⟨h₂, hclean⟩ := h₂
    rw [show snapshot.changedFiles = [] by simpa [hclean] using hdirty] at h₂
    refine Prog.wpOk_bind (Prog.wpOk_mono (fun id w₃ h₃ => ?_)
      (ok_blind (blind_of_passive (passive_quiet (by rfl))) kept_snapped h₂))
    refine Prog.wpOk_bind (Prog.wpOk_mono (fun _ w₄ h₄ => ?_)
      (ok_blind (blind_of_passive passive_createCheckpointRef) kept_snapped h₃))
    refine ok_blind ?_ kept_snapped h₄
    refine .handle (blind_of_passive passive_store) fun e y he => ?_
    split_ifs at he
    cases he
    exact .bind (asks_exceptBridge (blind_of_passive passive_deleteCheckpointRef) fun _ =>
      ⟨trivial⟩) fun _ => ⟨trivial⟩

/-! ## The reset and what follows it -/

theorem changed_of_answer {a : Act} {r : Except Exn a.Result} (h : Scene.answer a w r w')
    (hc : w.changed = true) : w'.changed = true := by
  cases a with
  | quiet q =>
    by_cases hq : ∃ c, q = .store c
    · obtain ⟨c, rfl⟩ := hq
      have others : Others Scene.watching w w' := Scene.others_of_stored h
      exact others.changed.trans hc
    · have h : if q.changes then ∃ checkout, w' = { w with checkout, changed := true }
          else w' = w := by
        cases q with
        | store c => exact absurd ⟨c, rfl⟩ hq
        | _ => exact h
      split_ifs at h
      · obtain ⟨_, rfl⟩ := h
        rfl
      · exact h ▸ hc
  | git root arguments =>
    obtain ⟨-, h⟩ := h
    split_ifs at h
    · obtain ⟨_, rfl⟩ := h
      rfl
    · rw [h]
      exact hc
  | command project command =>
    obtain ⟨_, rfl⟩ := h
    rfl

/-- What changes nothing may follow the reset. -/
theorem wp_afterwards {α : Type} {x : Body α} (hx : x.Asks (·.changes = false))
    (hw : w.changed = true) :
    x.wp (Scene.rules steady (swapOnly checkpointId expectedHead)) (fun _ w' => w'.changed = true)
      w :=
  Async.Prog.Asks.wp (fun _ _ => trivial) (fun ha hc hb => by
    have hc := hb.changed.trans hc
    exact ⟨legal_of_unchanging ha, fun _ _ h => changed_of_answer h hc⟩) hx hw

theorem unchanging_of_idle {α : Type} {x : Body α} (hx : x.Asks Act.Idle) :
    x.Asks (·.changes = false) :=
  hx.mono fun a ha => by
    cases a with
    | quiet q => exact Quiet.unchanging ha
    | git root arguments => exact ha
    | command p c => exact ha.elim

theorem unchanging_confirmRollback {env : Env} {project : ProjectSpec}
    {checkpoint safety : CheckpointRecord} :
    (confirmRollback env project checkpoint safety).Asks (·.changes = false) :=
  unchanging_of_idle (.bind idle_snapshot fun _ => asks_check fun _ => idle_finalize)

/-! ## The whole restoration -/

theorem wp_withLock {α : Type} {p : String} {x : Body α} {J : Scene → Prop}
    (hJ : Scene.Kept steady J) (hw : J w)
    (hx : ∀ w', J w' → x.wpOk (Scene.rules steady (swapOnly checkpointId expectedHead))
      (fun _ w => w.changed = true) w') :
    (withLock p x).wpOk (Scene.rules steady (swapOnly checkpointId expectedHead))
      (fun _ w => w.changed = true) w := by
  refine Prog.wpOk_bind (Prog.wpOk_mono (fun _ w₁ h₁ => ?_)
    (ok_blind (blind_of_passive (passive_quiet (by rfl))) hJ hw))
  refine Prog.wpOk_ensuring (hx w₁ h₁) (fun r w₂ h₂ => ?_) fun a w' h => h a rfl
  exact wp_blind (blind_of_passive (passive_quiet (by rfl)))
    (fun h hb a ha => hb.changed.trans (h a ha))
    (fun ha _ => legal_of_blind ha) h₂

theorem wp_resetToCheckpoint {root ref : String} {checkpoint : CheckpointRecord}
    (hw : w.Snapped checkpointId expectedHead checkpoint []) :
    (GitGuard.resetToCheckpoint root ref).wpOk
      (Scene.rules Scene.watching (swapOnly checkpointId expectedHead))
      (fun _ w' => w'.changed = true) w := by
  refine Prog.wpOk_bind (Prog.wpOk_mono (fun _ w₁ h₁ => ?_)
    (ok_blind (blind_of_passive passive_requireCheckpointRef) kept_snapped hw))
  refine Prog.wpOk_bind ⟨trivial, fun w₂ hb =>
    ⟨fun _ => ⟨by rfl, (kept_snapped h₁ hb).compared.2⟩, ?_⟩⟩
  rintro r w' ⟨-, hw'⟩ output rfl
  rw [if_pos (by rfl)] at hw'
  obtain ⟨_, rfl⟩ := hw'
  exact Prog.wpOk_pure rfl

/-- **A rollback compares and swaps** where nobody moves the branch or `HEAD` between its first look
at them and its last one. -/
theorem restore_compares_and_swaps (env : Env) (p s c head o : String) (db : Database)
    (checkout : Checkout) :
    (restoreCheckpointBody env p s c head o).wp (Scene.rules Scene.watching (swapOnly c head))
      (fun r w => w.changed = false → ∃ e, r = .error e) { db, checkout } := by
  suffices ok : (restoreCheckpointBody env p s c head o).wpOk
      (Scene.rules Scene.watching (swapOnly c head)) (fun _ w => w.changed = true)
      { db, checkout } by
    refine Prog.wp_mono (fun r w h hun => ?_) ok
    cases r with
    | error e => exact ⟨e, rfl⟩
    | ok a => exact absurd (h a rfl) (by simp [hun])
  have blank : Scene.Kept Scene.watching fun w => w.changed = false ∧ w.seen = [] := fun h hb =>
    ⟨hb.changed.trans h.1, hb.seen.trans h.2⟩
  have validate : (Checkpoints.validateExpectedHead head).Asks (·.blind) := by
    unfold Checkpoints.validateExpectedHead
    split_ifs <;> exact ⟨trivial⟩
  refine Prog.wpOk_bind (Prog.wpOk_mono (fun _ w₁ h₁ => ?_) (ok_blind validate blank ⟨rfl, rfl⟩))
  refine Prog.wpOk_bind (Prog.wpOk_mono (fun _ w₂ h₂ => ?_)
    (ok_blind (blind_of_passive passive_requireSession) blank h₁))
  refine Prog.wpOk_bind (Prog.wpOk_mono (fun project w₃ h₃ => ?_)
    (ok_blind (blind_of_passive passive_getProject) blank h₂))
  refine Prog.wpOk_bind (Prog.wpOk_mono ?_ (wp_withLock blank h₃ fun w₄ h₄ => ?_))
  · rintro ⟨checkpoint, safety, restored⟩ w₅ h₅
    exact Prog.wpOk_bind fun _ _ => Prog.wpOk_bind fun _ _ => Prog.wpOk_pure h₅
  refine Prog.wpOk_bind (Prog.wpOk_mono (fun checkpoint w₅ h₅ => ?_)
    (wp_rollbackPreconditions h₄.1 h₄.2))
  refine Prog.wpOk_bind (Prog.wpOk_mono (fun safety w₆ h₆ => ?_) (wp_create h₅))
  refine Prog.wpOk_bind (Prog.wpOk_mono (fun _ w₇ h₇ => ?_)
    (Prog.wpOk_handle (wp_resetToCheckpoint h₆) fun e y w' he => ?_))
  · refine Prog.wp_mono (fun _ _ h _ _ => h) (wp_afterwards ?_ h₇)
    refine .bind (.handle unchanging_confirmRollback fun e y he => ?_) fun _ =>
      .bind (unchanging_of_idle (idle_of_passive passive_store)) fun _ => ⟨trivial⟩
    cases e <;> cases he
    dsimp only
    split_ifs <;> exact ⟨trivial⟩
  · cases e <;> cases he
    exact Prog.wpOk_raise

end Looks

/-! ## A commit between the two looks -/

/-- A commit that somebody makes while a restoration is on its way. -/
def otherHead : String := "abcdef0123abcdef0123abcdef0123abcdef0123"

/-- The project before and after that commit, which is made after three looks. -/
def tampered (w : Scene) : Scene :=
  { w with
    checkout := { branch := "main", head := if w.seen.length < 3 then sampleHead else otherHead } }

/-- Surroundings in which the commit is made and nothing else happens. -/
def tamperedAnswer (w : Scene) : (a : Act) → Except Exn a.Result
  | .quiet .snapshot => .ok [("p", sampleProject)]
  | .quiet .refreshIfChanged => .ok none
  | .quiet (.resolved path) => .ok path
  | .quiet (.isDir _) => .ok true
  | .quiet .uuid => .ok "00000000000000000000000000000002"
  | .quiet (.acquire _) | .quiet (.release _) => .ok ()
  | .quiet _ => .error .other
  | .git root arguments => .ok (w.printed sampleHead root arguments)
  | .command .. => .error .other

/-- A session with a checkpoint, and the operation that is about to restore it. -/
def sampleRollback : Database where
  sessions := [{ sessionId := "s", projectId := "p", ownerId := Database.localOwnerId
                 status := .active, createdAt := 0, updatedAt := 0 }]
  operations := [{ operationId := "o", projectId := "p", sessionId := some "s"
                   ownerId := Database.localOwnerId, replayKey := encodeReplayKey none "k"
                   requestHash := .null, kind := .checkpointRestore, state := .running
                   mutation := true, input := [], createdAt := 0, updatedAt := 0 }]
  checkpoints := [{ checkpointId := "c", projectId := "p", sessionId := some "s"
                    operationId := none, ownerId := Database.localOwnerId, kind := .manual
                    branch := "main", head := sampleHead
                    refName := Checkpoints.refName "00000000000000000000000000000001"
                    before := .value .null, createdAt := 0, updatedAt := 0 }]

theorem changes_of_resets {a : Act} (h : a.resets = true) : a.changes = true := by
  cases a with
  | git root arguments =>
    have htake : arguments.take 2 = ["reset", "--hard"] := by simpa [Act.resets] using h
    have hhead : arguments.head? = some "reset" := by
      cases arguments with
      | nil => cases htake
      | cons word rest =>
        rw [List.take_succ_cons, List.cons.injEq] at htake
        exact congrArg some htake.1
    exact gitChanges_of_head hhead (by decide)
  | _ => cases h

theorem tampered_possible (a : Act) (w : Scene) : ∃ w₁, Others (fun _ => False) w w₁ ∧
    Scene.answer a w₁ (Scene.play tampered tamperedAnswer a w).1
      (Scene.play tampered tamperedAnswer a w).2 := by
  have others : ∀ w, Others (fun _ => False) w (tampered w) := fun _ =>
    ⟨rfl, rfl, rfl, .refl, nofun, nofun⟩
  refine Scene.play_possible others (fun w root arguments s hs => ?_) a w
  refine Scene.printed_shows (w := tampered w) ?_ ?_ rfl (fun _ => ?_) hs
  · show Text.strip "main" = "main"
    decide
  · unfold tampered
    dsimp only
    split_ifs <;> decide
  · show ((Text.splitlines ("\n".intercalate [])).map Text.strip).filter (· ≠ "") = []
    decide

/-- The restoration after `n` answers. -/
def sampleRestoration (n : ℕ) :=
  Async.Task.follow (Scene.play tampered tamperedAnswer) n
    (restoreCheckpointBody {} "p" "s" "c" sampleHead "o").task
    { db := sampleRollback, checkout := { branch := "main", head := sampleHead } }

/-- A commit that lands between the two looks is lost: the reset is made although the second look
has seen another head. -/
theorem tampered_restore_resets : ¬ ComparesAndSwaps fun _ => False := by
  intro h
  have hwp := (Async.Task.leads_follow tampered_possible 26 _ _).wp
    (h {} "p" "s" "c" sampleHead "o" sampleRollback { branch := "main", head := sampleHead })
  have hrun : ((sampleRestoration 26).1.asking?.any Act.resets &&
      (sampleRestoration 26).2.seen.contains (.head otherHead)) = true := by decide +kernel
  obtain ⟨hasks, hseen⟩ := Bool.and_eq_true_iff.1 hrun
  obtain ⟨a, ha, hresets⟩ := (Option.any_eq_true _ _).1 hasks
  have hlegal : swapOnly "c" sampleHead a (sampleRestoration 26).2 :=
    Async.Task.legal_of_asking hwp ha (Others.refl _)
  obtain ⟨-, row, -, hagrees, -⟩ := hlegal (changes_of_resets hresets)
  have hne : Text.lower otherHead ≠ Text.lower sampleHead := by decide
  exact hne (hagrees _ (List.contains_iff_mem.1 hseen))

end CodemcpBridge
