import CodemcpBridge.Lifecycle

/-!
# A start that fails

A start that fails terminates what it has spawned as far as the identity of a process can be
established: three readings in a row have to agree on it before its group is signalled.  The handler
catches no interrupt, knows no process whose log file could not be closed, and goes on to the Bridge
only if nothing is raised for the tunnel.
-/

namespace CodemcpBridge

namespace Lifecycle

open Start

variable (o : Outcomes)

/-- A start that raises leaves no process of its own running and no state file. -/
def LeavesNothing : Prop :=
  ∀ e, (start o).1 = .error e →
    (∀ s ∈ (start o).2.spawned, o.alive s = true → s ∈ (start o).2.ended) ∧
      (start o).2.stateFile = false

/-! ## Processes that can be terminated -/

/-- The marker of a process is read twice and its tree is terminated. -/
def TreeTerminable (s : Service) : Prop :=
  ∃ r r' : Reading, o.reading s 1 = .ok r ∧ o.reading s 2 = .ok r' ∧ r.marker ≠ none ∧
    r'.marker = r.marker ∧ ∃ text, o.taskkill s = .ok (0, text) ∨ o.taskkill s = .ok (128, text)

/-- The whole identity of a process in a group of its own is read. -/
def ReadingOf (r : Reading) : Prop :=
  ∃ marker pgid executable, r = ⟨some marker, some pgid, some executable⟩ ∧
    1 < pgid ∧ pgid ≠ o.ownGroup ∧ executable ≠ ""

/-- The same identity of a process is read three times and its group is signalled, or gone. -/
def GroupTerminable (s : Service) : Prop :=
  ∃ r, ReadingOf o r ∧ (∀ round ∈ [1, 2, 3], o.reading s round = .ok r) ∧
    (o.sigterm s = .ok () ∨ o.sigterm s = .error .processLookupError)

def Terminable (s : Service) : Prop :=
  if o.windows then TreeTerminable o s else GroupTerminable o s

/-- Nothing is raised while a signalled group is waited for: the identity is read until it is
another one, or until the deadline, after which the group is killed or gone. -/
def Awaited (s : Service) : Prop :=
  o.windows = true ∨ o.sigterm s = .error .processLookupError ∨
    ∃ n ≤ o.checks s, (∀ i < n, o.reading s (4 + i) = o.reading s 1) ∧
      ((∃ r, o.reading s (4 + n) = .ok r ∧ o.reading s (4 + n) ≠ o.reading s 1) ∨
        n = o.checks s ∧ o.reading s (4 + n) = o.reading s 1 ∧
          (o.sigkill s = .ok () ∨ o.sigkill s = .error .processLookupError))

/-! ## The step that fails -/

/-- What is raised, which processes have been spawned before, which of them the handler knows, and
whether the state file is in place. -/
structure Failure where
  exn : Exn
  spawned : List Service
  known : List Service
  stateFile : Bool

/-- What spawning raises, and whether it has spawned a process. -/
def spawnFailure (s : Service) : Option (Exn × Bool) :=
  match o.openLog s, o.popen s, o.closeLog s with
  | .error e, _, _ => some (e, false)
  | .ok _, .error e, .ok _ => some (e, false)
  | .ok _, .error _, .error e => some (e, false)
  | .ok _, .ok _, .error e => some (e, true)
  | .ok _, .ok _, .ok _ => none

def healthFailure (s : Service) : Option Exn :=
  match o.waitEndpoint s with
  | .error e => some e
  | .ok health => if health.ok then none else some (.lifecycleError health.text)

def captureFailure (s : Service) : Option Exn :=
  match captureProcessState o s.category s 0 0 with
  | .error e => some e
  | .ok _ => none

/-- The first step that fails. -/
def failure : Option Failure :=
  match spawnFailure o .bridge with
  | some (e, spawned) => some ⟨e, if spawned then [.bridge] else [], [], false⟩
  | none => match healthFailure o .bridge with
    | some e => some ⟨e, [.bridge], [.bridge], false⟩
    | none => match spawnFailure o .tunnel with
      | some (e, spawned) =>
        some ⟨e, if spawned then [.tunnel, .bridge] else [.bridge], [.bridge], false⟩
      | none => match healthFailure o .tunnel <|> captureFailure o .bridge <|>
            captureFailure o .tunnel with
        | some e => some ⟨e, [.tunnel, .bridge], [.tunnel, .bridge], false⟩
        | none => match o.writeState with
          | .failed e inPlace => some ⟨e, [.tunnel, .bridge], [.tunnel, .bridge], inPlace⟩
          | .written => none

/-- Whatever step fails, the state file is not in place, what still runs is known and can be
terminated after an exception that is caught, and the tunnel is waited for if the Bridge comes after
it. -/
def Recoverable : Prop :=
  ∀ f, failure o = some f → f.stateFile = false ∧
    (∀ s ∈ f.spawned, o.alive s = true → s ∈ f.known ∧ f.exn.isException = true ∧ Terminable o s) ∧
      (.tunnel ∈ f.known → o.alive .tunnel = true → o.alive .bridge = true → Awaited o .tunnel)

variable {o}

/-! ## Identities -/

section Identities

variable {s : Service} {pid : ℕ}

theorem captureProcessState_windows (h : o.windows = true) {category : String} {n : ℕ}
    {identity : Identity} :
    captureProcessState o category s pid n = .ok identity ↔
      ∃ r, o.reading s n = .ok r ∧ r.marker = some identity.marker ∧ identity.group = none := by
  unfold captureProcessState
  rcases o.reading s n with e | r
  · simp [bind, Except.bind]
  · rcases hm : r.marker with _ | marker
    · simp [bind, Except.bind, hm]
    · obtain ⟨marker', group⟩ := identity
      simp only [bind, Except.bind, hm, h, if_true, Except.ok.injEq, Identity.mk.injEq,
        Option.some.injEq, exists_eq_left']
      constructor
      · rintro ⟨rfl, rfl⟩
        exact ⟨rfl, rfl⟩
      · rintro ⟨rfl, rfl⟩
        exact ⟨rfl, rfl⟩

theorem captureProcessState_posix (h : o.windows = false) {category : String} {n : ℕ}
    {identity : Identity} :
    captureProcessState o category s pid n = .ok identity ↔
      ∃ marker pgid executable, o.reading s n = .ok ⟨some marker, some pgid, some executable⟩ ∧
        1 < pgid ∧ pgid ≠ o.ownGroup ∧ identity = ⟨marker, some (pgid, executable)⟩ := by
  unfold captureProcessState
  rcases o.reading s n with e | ⟨marker, group, executable⟩
  · simp [bind, Except.bind]
  · rcases marker with _ | marker
    · simp [bind, Except.bind]
    rcases group with _ | pgid
    · simp [bind, Except.bind, h]
    by_cases hg : pgid ≤ 1 ∨ pgid = o.ownGroup
    · simp only [bind, Except.bind, h, if_pos hg]
      simp only [Bool.false_eq_true, if_false, reduceCtorEq, false_iff]
      rintro ⟨marker', pgid', executable', hr, h₁, h₂, -⟩
      simp only [Except.ok.injEq, Reading.mk.injEq, Option.some.injEq] at hr
      omega
    · rcases executable with _ | executable
      · simp [bind, Except.bind, h, hg]
      · simp only [bind, Except.bind, h, if_neg hg, Bool.false_eq_true, if_false,
          Except.ok.injEq, Reading.mk.injEq, Option.some.injEq]
        push Not at hg
        constructor
        · rintro rfl
          exact ⟨_, _, _, ⟨rfl, rfl, rfl⟩, by omega, hg.2, rfl⟩
        · rintro ⟨_, _, _, ⟨rfl, rfl, rfl⟩, -, -, rfl⟩
          rfl

theorem stateProcessOwned_error (identity : Identity) {n : ℕ} {e : Exn}
    (h : o.reading s n = .error e) : stateProcessOwned o s identity n = .error e := by
  unfold stateProcessOwned
  rw [h]
  rfl

theorem stateProcessOwned_windows (h : o.windows = true) (marker : String)
    (group : Option (ℤ × String)) {n : ℕ} {r : Reading} (hr : o.reading s n = .ok r) :
    stateProcessOwned o s ⟨marker, group⟩ n = .ok (r.marker == some marker) := by
  unfold stateProcessOwned
  rw [hr]
  simp [bind, Except.bind, h]

theorem stateProcessOwned_posix (h : o.windows = false) {marker executable : String} {pgid : ℤ}
    (h₁ : 1 < pgid) (h₂ : pgid ≠ o.ownGroup) {n : ℕ} {r : Reading} (hr : o.reading s n = .ok r) :
    stateProcessOwned o s ⟨marker, some (pgid, executable)⟩ n =
      .ok (decide (executable ≠ "" ∧ r = ⟨some marker, some pgid, some executable⟩)) := by
  unfold stateProcessOwned
  rw [hr]
  obtain ⟨marker', group, executable'⟩ := r
  have hg : ¬(pgid ≤ 1 ∨ pgid = o.ownGroup) := by
    rintro (hle | he)
    · omega
    · exact h₂ he
  simp only [bind, Except.bind, h, Bool.false_or, hg, decide_false, Bool.not_false, Bool.true_and,
    Except.ok.injEq, Reading.mk.injEq]
  rw [Bool.eq_iff_iff]
  simp only [Bool.and_eq_true, beq_iff_eq, bne_iff_ne, decide_eq_true_eq]
  tauto

end Identities

/-! ## Waiting for a terminated process -/

theorem awaitEnd_ok {s : Service} {identity : Identity} {k round : ℕ} :
    awaitEnd o s identity k round = .ok () ↔ ∃ n ≤ k,
      (∀ i < n, stateProcessOwned o s identity (round + i) = .ok true) ∧
        (stateProcessOwned o s identity (round + n) = .ok false ∨
          n = k ∧ stateProcessOwned o s identity (round + n) = .ok true ∧
            (o.sigkill s = .ok () ∨ o.sigkill s = .error .processLookupError)) := by
  induction k generalizing round with
  | zero =>
    simp only [Nat.le_zero_eq, exists_eq_left, Nat.not_lt_zero, false_implies, implies_true,
      Nat.add_zero, true_and]
    unfold awaitEnd
    rcases stateProcessOwned o s identity round with e | _ | _
    · simp [bind, Except.bind]
    · simp [bind, Except.bind]
    · rcases o.sigkill s with e | _
      · cases e <;> simp [bind, Except.bind]
      · simp [bind, Except.bind]
  | succ k ih =>
    unfold awaitEnd
    rcases h : stateProcessOwned o s identity round with e | _ | _
    · simp only [bind, Except.bind, reduceCtorEq, false_iff, not_exists, not_and]
      rintro n hn hi hr
      rcases n with _ | n
      · rw [Nat.add_zero, h] at hr
        simp at hr
      · have := hi 0 (by omega)
        rw [Nat.add_zero, h] at this
        cases this
    · simp only [bind, Except.bind, Bool.false_eq_true, if_false, true_iff]
      exact ⟨0, by omega, fun i hi => by omega, .inl h⟩
    · simp only [bind, Except.bind, if_true]
      rw [ih]
      constructor
      · rintro ⟨n, hn, hi, hr⟩
        refine ⟨n + 1, by omega, fun i hlt => ?_, ?_⟩
        · rcases i with _ | i
          · exact h
          · rw [show round + (i + 1) = round + 1 + i by omega]
            exact hi i (by omega)
        · rw [show round + (n + 1) = round + 1 + n by omega]
          exact hr.imp_right fun ⟨he, hr⟩ => ⟨by omega, hr⟩
      · rintro ⟨n, hn, hi, hr⟩
        rcases n with _ | n
        · rw [Nat.add_zero, h] at hr
          simp at hr
        · rw [show round + (n + 1) = round + 1 + n by omega] at hr
          refine ⟨n, by omega, fun i hlt => ?_, hr.imp_right fun ⟨he, hr⟩ => ⟨by omega, hr⟩⟩
          rw [show round + 1 + i = round + (i + 1) by omega]
          exact hi (i + 1) (by omega)

/-! ## Terminating a process -/

section Terminate

variable {s : Service}

theorem terminateTree_error {pid : ℕ} {e : Exn} (m : Machine)
    (h : captureProcessState o "process" s pid 1 = .error e) :
    ∃ r, (terminateTree o s pid).run m = (r, m) := by
  unfold terminateTree
  rw [h]
  cases e <;> exact ⟨_, rfl⟩

theorem terminateTree_ok {pid : ℕ} {identity : Identity} (m : Machine)
    (h : captureProcessState o "process" s pid 1 = .ok identity) :
    (terminateTree o s pid).run m = (terminateStateProcess o s pid identity).run m := by
  unfold terminateTree
  rw [h]

theorem terminateStateProcess_unowned {pid : ℕ} {identity : Identity} (m : Machine)
    (h : stateProcessOwned o s identity 2 ≠ .ok true) :
    ∃ r, (terminateStateProcess o s pid identity).run m = (r, m) := by
  unfold terminateStateProcess
  rw [run_bind, run_outcome]
  rcases h₂ : stateProcessOwned o s identity 2 with e | _ | _
  · exact ⟨_, rfl⟩
  · exact ⟨_, rfl⟩
  · exact absurd h₂ h

theorem terminateStateProcess_windows (hw : o.windows = true) {pid : ℕ} {identity : Identity}
    (m : Machine) (h : stateProcessOwned o s identity 2 = .ok true) :
    (∃ text, o.taskkill s = .ok (0, text) ∨ o.taskkill s = .ok (128, text)) ∧
        (terminateStateProcess o s pid identity).run m = (.ok (), m.terminate s) ∨
      (¬∃ text, o.taskkill s = .ok (0, text) ∨ o.taskkill s = .ok (128, text)) ∧
        ∃ r, (terminateStateProcess o s pid identity).run m = (r, m) := by
  unfold terminateStateProcess
  rw [run_bind, run_outcome, h]
  dsimp only
  rw [if_pos rfl, if_pos hw, run_bind, run_outcome]
  rcases o.taskkill s with e | ⟨code, text⟩
  · refine .inr ⟨?_, _, rfl⟩
    rintro ⟨_, h | h⟩ <;> cases h
  · dsimp only
    by_cases hc : code = 0 ∨ code = 128
    · rw [if_pos hc]
      refine .inl ⟨⟨text, ?_⟩, rfl⟩
      rcases hc with rfl | rfl
      · exact .inl rfl
      · exact .inr rfl
    · rw [if_neg hc]
      refine .inr ⟨?_, _, rfl⟩
      rintro ⟨_, h | h⟩ <;> cases h <;> simp at hc

theorem terminateStateProcess_unownedAgain (hw : o.windows = false) {pid : ℕ}
    {identity : Identity} (m : Machine) (h : stateProcessOwned o s identity 2 = .ok true)
    (h' : stateProcessOwned o s identity 3 ≠ .ok true) :
    ∃ r, (terminateStateProcess o s pid identity).run m = (r, m) := by
  unfold terminateStateProcess
  rw [run_bind, run_outcome, h]
  dsimp only
  rw [if_pos rfl, hw, if_neg Bool.false_ne_true, run_bind, run_outcome]
  rcases h₃ : stateProcessOwned o s identity 3 with e | _ | _
  · exact ⟨_, rfl⟩
  · exact ⟨_, rfl⟩
  · exact absurd h₃ h'

theorem terminateStateProcess_posix (hw : o.windows = false) {pid : ℕ} {identity : Identity}
    (m : Machine) (h : stateProcessOwned o s identity 2 = .ok true)
    (h' : stateProcessOwned o s identity 3 = .ok true) :
    (terminateStateProcess o s pid identity).run m = match o.sigterm s with
      | .ok () => (awaitEnd o s identity (o.checks s) 4, m.terminate s)
      | .error .processLookupError => (.ok (), m.terminate s)
      | .error e => (.error e, m) := by
  unfold terminateStateProcess
  rw [run_bind, run_outcome, h]
  dsimp only
  rw [if_pos rfl, hw, if_neg Bool.false_ne_true, run_bind, run_outcome, h']
  dsimp only
  rw [if_pos rfl]
  rcases o.sigterm s with e | _
  · cases e <;> rfl
  · dsimp only
    rw [run_bind, run_change]
    rfl

/-- What happens to a process in its termination. -/
def Terminated (s : Service) (pid : ℕ) (m : Machine) : Prop :=
  (Terminable o s ∧ ∃ r, (terminateTree o s pid).run m = (r, m.terminate s) ∧
      (r = .ok () ↔ Awaited o s)) ∨
    (¬Terminable o s ∧ ∃ r, (terminateTree o s pid).run m = (r, m))

theorem terminated_windows (hw : o.windows = true) (pid : ℕ) (m : Machine) :
    Terminated (o := o) s pid m := by
  have hT : Terminable o s ↔ TreeTerminable o s := by
    unfold Terminable
    rw [if_pos hw]
  rcases hc : captureProcessState o "process" s pid 1 with e | ⟨marker, group⟩
  · refine .inr ⟨fun h => ?_, terminateTree_error m hc⟩
    obtain ⟨r, -, h₁, -, hm, -⟩ := hT.mp h
    obtain ⟨marker, hm⟩ := Option.ne_none_iff_exists'.mp hm
    have hok : captureProcessState o "process" s pid 1 = .ok ⟨marker, none⟩ :=
      (captureProcessState_windows hw).mpr ⟨r, h₁, hm, rfl⟩
    rw [hc] at hok
    cases hok
  obtain ⟨r, h₁, hm, -⟩ := (captureProcessState_windows hw).mp hc
  dsimp only at hm
  rw [Terminated, terminateTree_ok m hc]
  by_cases h₂ : stateProcessOwned o s ⟨marker, group⟩ 2 = .ok true
  · have hr : ∃ r', o.reading s 2 = .ok r' ∧ r'.marker = some marker := by
      rcases hr' : o.reading s 2 with e | r'
      · rw [stateProcessOwned_error _ hr'] at h₂
        cases h₂
      · rw [stateProcessOwned_windows hw _ _ hr', Except.ok.injEq, beq_iff_eq] at h₂
        exact ⟨r', rfl, h₂⟩
    obtain ⟨r', hr', hm'⟩ := hr
    rcases terminateStateProcess_windows hw m h₂ with ⟨hk, hrun⟩ | ⟨hk, hrun⟩
    · refine .inl ⟨hT.mpr ⟨r, r', h₁, hr', by simp [hm], by rw [hm, hm'], hk⟩, _, hrun, ?_⟩
      exact iff_of_true rfl (.inl hw)
    · exact .inr ⟨fun h => hk (hT.mp h).choose_spec.choose_spec.2.2.2.2, hrun⟩
  · refine .inr ⟨fun h => h₂ ?_, terminateStateProcess_unowned m h₂⟩
    obtain ⟨r₁, r₂, h₁', hr₂, -, he, -⟩ := hT.mp h
    rw [h₁, Except.ok.injEq] at h₁'
    subst h₁'
    rw [stateProcessOwned_windows hw _ _ hr₂, he, hm]
    simp

theorem stateProcessOwned_posix_true (hw : o.windows = false) {marker executable : String}
    {pgid : ℤ} (h₁ : 1 < pgid) (h₂ : pgid ≠ o.ownGroup) {n : ℕ} :
    stateProcessOwned o s ⟨marker, some (pgid, executable)⟩ n = .ok true ↔
      executable ≠ "" ∧ o.reading s n = .ok ⟨some marker, some pgid, some executable⟩ := by
  rcases hr : o.reading s n with e | r
  · rw [stateProcessOwned_error _ hr]
    simp
  · rw [stateProcessOwned_posix hw h₁ h₂ hr]
    simp

theorem stateProcessOwned_posix_false (hw : o.windows = false) {marker executable : String}
    {pgid : ℤ} (h₁ : 1 < pgid) (h₂ : pgid ≠ o.ownGroup) (h : executable ≠ "") {n : ℕ} :
    stateProcessOwned o s ⟨marker, some (pgid, executable)⟩ n = .ok false ↔
      ∃ r, o.reading s n = .ok r ∧
        o.reading s n ≠ .ok ⟨some marker, some pgid, some executable⟩ := by
  rcases hr : o.reading s n with e | r
  · rw [stateProcessOwned_error _ hr]
    simp
  · rw [stateProcessOwned_posix hw h₁ h₂ hr]
    simp [h]

theorem terminated_posix (hw : o.windows = false) (pid : ℕ) (m : Machine) :
    Terminated (o := o) s pid m := by
  have hT : Terminable o s ↔ GroupTerminable o s := by
    unfold Terminable
    rw [hw, if_neg Bool.false_ne_true]
  rcases hc : captureProcessState o "process" s pid 1 with e | identity
  · refine .inr ⟨fun h => ?_, terminateTree_error m hc⟩
    obtain ⟨_, ⟨marker, pgid, executable, rfl, h₁, h₂, -⟩, hr, -⟩ := hT.mp h
    have hok : captureProcessState o "process" s pid 1 = .ok ⟨marker, some (pgid, executable)⟩ :=
      (captureProcessState_posix hw).mpr
        ⟨marker, pgid, executable, hr 1 (by simp), h₁, h₂, rfl⟩
    rw [hc] at hok
    cases hok
  obtain ⟨marker, pgid, executable, hr₁, h₁, h₂, rfl⟩ := (captureProcessState_posix hw).mp hc
  -- the identity of the first reading is the only one that the others can agree on
  have hG : GroupTerminable o s ↔ executable ≠ "" ∧
      o.reading s 2 = .ok ⟨some marker, some pgid, some executable⟩ ∧
      o.reading s 3 = .ok ⟨some marker, some pgid, some executable⟩ ∧
      (o.sigterm s = .ok () ∨ o.sigterm s = .error .processLookupError) := by
    constructor
    · rintro ⟨_, ⟨_, _, _, rfl, -, -, he⟩, hr, hs⟩
      have := hr 1 (by simp)
      rw [hr₁, Except.ok.injEq, Reading.mk.injEq, Option.some.injEq, Option.some.injEq,
        Option.some.injEq] at this
      obtain ⟨rfl, rfl, rfl⟩ := this
      exact ⟨he, hr 2 (by simp), hr 3 (by simp), hs⟩
    · rintro ⟨he, hr₂, hr₃, hs⟩
      refine ⟨_, ⟨marker, pgid, executable, rfl, h₁, h₂, he⟩, ?_, hs⟩
      simp [hr₁, hr₂, hr₃]
  rw [Terminated, terminateTree_ok m hc, hT, hG]
  by_cases ho₂ : stateProcessOwned o s ⟨marker, some (pgid, executable)⟩ 2 = .ok true
  swap
  · refine .inr ⟨fun h => ho₂ ?_, terminateStateProcess_unowned m ho₂⟩
    exact (stateProcessOwned_posix_true hw h₁ h₂).mpr ⟨h.1, h.2.1⟩
  by_cases ho₃ : stateProcessOwned o s ⟨marker, some (pgid, executable)⟩ 3 = .ok true
  swap
  · refine .inr ⟨fun h => ho₃ ?_, terminateStateProcess_unownedAgain hw m ho₂ ho₃⟩
    exact (stateProcessOwned_posix_true hw h₁ h₂).mpr ⟨h.1, h.2.2.1⟩
  obtain ⟨he, hr₂⟩ := (stateProcessOwned_posix_true hw h₁ h₂).mp ho₂
  obtain ⟨-, hr₃⟩ := (stateProcessOwned_posix_true hw h₁ h₂).mp ho₃
  rw [terminateStateProcess_posix hw m ho₂ ho₃]
  rcases hs : o.sigterm s with e | _
  · by_cases hl : e = .processLookupError
    · subst hl
      refine .inl ⟨⟨he, hr₂, hr₃, .inr rfl⟩, _, rfl, ?_⟩
      exact iff_of_true rfl (.inr (.inl hs))
    · refine .inr ⟨?_, ?_⟩
      · rintro ⟨-, -, -, h | h⟩
        · cases h
        · exact hl (Except.error.inj h)
      · cases e
        case processLookupError => exact absurd rfl hl
        all_goals exact ⟨_, rfl⟩
  · refine .inl ⟨⟨he, hr₂, hr₃, .inl rfl⟩, _, rfl, ?_⟩
    rw [awaitEnd_ok]
    unfold Awaited
    simp only [stateProcessOwned_posix_true hw h₁ h₂, stateProcessOwned_posix_false hw h₁ h₂ he,
      he, hw, hs, hr₁, ne_eq, not_false_eq_true, true_and, Bool.false_eq_true, reduceCtorEq,
      false_or]

theorem terminated (s : Service) (pid : ℕ) (m : Machine) : Terminated (o := o) s pid m := by
  by_cases hw : o.windows = true
  · exact terminated_windows hw pid m
  · exact terminated_posix (Bool.eq_false_iff.mpr hw) pid m

end Terminate

/-! ## The clean-up -/

theorem cleanUp_cons (s : Service) (pid : ℕ) (processes : List (Service × ℕ)) (m : Machine) :
    (cleanUp o ((s, pid) :: processes)).run m =
      if o.alive s then match (terminateTree o s pid).run m with
        | (.ok (), m') => (cleanUp o processes).run m'
        | (.error e, m') => (.error e, m')
      else (cleanUp o processes).run m := by
  rw [cleanUp]
  by_cases h : o.alive s = true
  · rw [if_pos h, if_pos h, run_bind]
    rcases (terminateTree o s pid).run m with ⟨_ | _, m'⟩ <;> rfl
  · rw [if_neg h, if_neg h]

/-- A clean-up only adds processes that have been terminated. -/
theorem cleanUp_extends (processes : List (Service × ℕ)) (m : Machine) :
    ∃ ended, ((cleanUp o processes).run m).2 = { m with ended := ended ++ m.ended } ∧
      ∀ s ∈ ended, s ∈ processes.map Prod.fst ∧ Terminable o s := by
  induction processes generalizing m with
  | nil => exact ⟨[], rfl, by simp⟩
  | cons p processes ih =>
    obtain ⟨s, pid⟩ := p
    rw [cleanUp_cons]
    split_ifs with h
    · rcases terminated (o := o) s pid m with ⟨hT, r, hr, -⟩ | ⟨-, r, hr⟩
      · rw [hr]
        rcases r with e | _
        · refine ⟨[s], rfl, ?_⟩
          simp [hT]
        · obtain ⟨ended, he, hm⟩ := ih (m.terminate s)
          refine ⟨ended ++ [s], ?_, ?_⟩
          · rw [show Except.ok PUnit.unit = Except.ok () from rfl]
            dsimp only
            rw [he]
            simp [Machine.terminate]
          · intro s' h'
            rcases List.mem_append.mp h' with h' | h'
            · exact ⟨List.mem_cons_of_mem _ (hm s' h').1, (hm s' h').2⟩
            · rw [List.mem_singleton.mp h']
              exact ⟨List.mem_cons_self, hT⟩
      · rw [hr]
        rcases r with e | _
        · exact ⟨[], rfl, by simp⟩
        · obtain ⟨ended, he, hm⟩ := ih m
          exact ⟨ended, he, fun s' h' => ⟨List.mem_cons_of_mem _ (hm s' h').1, (hm s' h').2⟩⟩
    · obtain ⟨ended, he, hm⟩ := ih m
      exact ⟨ended, he, fun s' h' => ⟨List.mem_cons_of_mem _ (hm s' h').1, (hm s' h').2⟩⟩

/-- What a clean-up terminates of the processes that it knows. -/
def CleansUp (processes : List (Service × ℕ)) (m : Machine) : Prop :=
  ∀ s ∈ processes.map Prod.fst, o.alive s = true → s ∈ ((cleanUp o processes).run m).2.ended

theorem cleansUp_one (s : Service) (pid : ℕ) {m : Machine} (hm : s ∉ m.ended) :
    CleansUp (o := o) [(s, pid)] m ↔ (o.alive s = true → Terminable o s) := by
  simp only [CleansUp, List.map_cons, List.map_nil, List.mem_singleton, forall_eq]
  refine forall_congr' fun h => ?_
  rw [cleanUp_cons, if_pos h]
  rcases terminated (o := o) s pid m with ⟨hT, r, hr, -⟩ | ⟨hT, r, hr⟩
  · rw [hr]
    refine iff_of_true ?_ hT
    rcases r with e | _ <;> exact List.mem_cons_self
  · rw [hr]
    refine iff_of_false ?_ hT
    rcases r with e | _ <;> exact hm

theorem cleansUp_two (s s' : Service) (hne : s ≠ s') (pid pid' : ℕ) {m : Machine}
    (hm : m.ended = []) :
    CleansUp (o := o) [(s, pid), (s', pid')] m ↔
      (o.alive s = true → Terminable o s) ∧ (o.alive s' = true → Terminable o s') ∧
        (o.alive s = true → o.alive s' = true → Awaited o s) := by
  by_cases h : o.alive s = true
  swap
  · have := cleansUp_one (o := o) s' pid' (m := m) (by simp [hm])
    unfold CleansUp at this ⊢
    rw [cleanUp_cons, if_neg h]
    simp_all
  by_cases hT : Terminable o s
  swap
  · refine iff_of_false (fun hall => hT ?_) fun hall => hT (hall.1 h)
    have hs := hall s (by simp) h
    obtain ⟨ended, he, hended⟩ := cleanUp_extends (o := o) [(s, pid), (s', pid')] m
    rw [he, hm, List.append_nil] at hs
    exact (hended s hs).2
  rcases terminated (o := o) s pid m with ⟨-, r, hr, ha⟩ | ⟨hn, -⟩
  swap
  · exact absurd hT hn
  unfold CleansUp
  rw [cleanUp_cons, if_pos h, hr]
  rcases r with e | _
  · -- the Bridge is not reached
    have hna : ¬Awaited o s := fun hA => nomatch ha.mpr hA
    simp only [List.map_cons, List.map_nil, List.mem_cons, List.not_mem_nil, or_false,
      forall_eq_or_imp, forall_eq, Machine.terminate, hm, h, hT, hna, hne.symm, true_and,
      implies_true, forall_const]
    tauto
  · have hone := cleansUp_one (o := o) s' pid' (m := m.terminate s) (by
      simp [Machine.terminate, hm, hne.symm])
    have hA : Awaited o s := ha.mp rfl
    obtain ⟨ended, he, -⟩ := cleanUp_extends (o := o) [(s', pid')] (m.terminate s)
    have hs : s ∈ ((cleanUp o [(s', pid')]).run (m.terminate s)).2.ended := by
      rw [he]
      exact List.mem_append_right _ List.mem_cons_self
    unfold CleansUp at hone
    simp only [List.map_cons, List.map_nil, List.mem_cons, List.not_mem_nil, or_false,
      forall_eq_or_imp, forall_eq] at hone ⊢
    tauto

/-! ## The steps of a start -/

theorem run_popenBackground (s : Service) (m : Machine) :
    match spawnFailure o s with
    | none => ∃ pid, (popenBackground o s).run m = (.ok pid, { m with spawned := s :: m.spawned })
    | some (e, spawned) => (popenBackground o s).run m =
        (.error e, if spawned then { m with spawned := s :: m.spawned } else m) := by
  unfold spawnFailure popenBackground
  rw [run_bind, run_outcome]
  rcases o.openLog s with e | _
  · rfl
  · dsimp only
    rw [run_ensuring, run_bind, run_outcome]
    rcases o.popen s with e | pid <;> dsimp only <;> try rw [run_bind, run_change]
    all_goals rcases o.closeLog s with e' | _
    · rfl
    · rfl
    · rfl
    · exact ⟨_, rfl⟩

theorem run_requireHealthy (s : Service) (m : Machine) :
    match healthFailure o s with
    | none => (requireHealthy o s).run m = (.ok (), m)
    | some e => ∃ e', e'.isException = e.isException ∧
        (requireHealthy o s).run m = (.error e', m) := by
  unfold healthFailure requireHealthy
  rw [run_bind, run_outcome]
  rcases o.waitEndpoint s with e | health
  · exact ⟨e, rfl, rfl⟩
  · dsimp only
    by_cases h : health.ok = true
    · rw [if_pos h, if_pos h]
      rfl
    · rw [if_neg h, if_neg h]
      refine ⟨_, ?_, run_throw m _⟩
      rfl

theorem captureProcessState_failure (s : Service) (pid : ℕ) :
    match captureFailure o s with
    | none => ∃ identity, captureProcessState o s.category s pid 0 = .ok identity
    | some e => ∃ e', e'.isException = e.isException ∧
        captureProcessState o s.category s pid 0 = .error e' := by
  unfold captureFailure captureProcessState
  rcases o.reading s 0 with e | ⟨marker, group, executable⟩
  · exact ⟨e, rfl, rfl⟩
  · simp only [bind, Except.bind]
    rcases marker with _ | marker
    · refine ⟨_, ?_, rfl⟩
      rfl
    by_cases hw : o.windows = true
    · simp only [if_pos hw]
      exact ⟨_, rfl⟩
    · simp only [if_neg hw]
      rcases group with _ | pgid
      · refine ⟨_, ?_, rfl⟩
        rfl
      by_cases hg : pgid ≤ 1 ∨ pgid = o.ownGroup
      · simp only [if_pos hg]
        refine ⟨_, ?_, rfl⟩
        rfl
      · simp only [if_neg hg]
        rcases executable with _ | executable
        · refine ⟨_, ?_, rfl⟩
          rfl
        · exact ⟨_, rfl⟩

/-- How a start ends at a step that fails. -/
def EndsAt (f : Failure) (r : Except Exn Unit × Machine) : Prop :=
  ∃ (e : Exn) (pid : Service → ℕ), r.1 = .error e ∧
    r.2 = if f.exn.isException then
        ((cleanUp o (f.known.map fun s => (s, pid s))).run ⟨f.spawned, [], f.stateFile⟩).2
      else ⟨f.spawned, [], f.stateFile⟩

theorem run_exceptException_error {α : Type} {x : Start α} {e : Exn} {m m' : Machine}
    (hx : x.run m = (.error e, m')) (y : Start Unit) :
    ∃ e', (exceptException x y).run m =
      (.error e', if e.isException then (y.run m').2 else m') := by
  rw [run_exceptException, hx]
  dsimp only
  by_cases h : e.isException = true
  · rw [if_pos h, if_pos h]
    rcases y.run m' with ⟨_ | _, m''⟩ <;> exact ⟨_, rfl⟩
  · rw [if_neg h, if_neg h]
    exact ⟨_, rfl⟩

theorem run_failed {α : Type} (processes : List (Service × ℕ)) {x : Start α} {e : Exn}
    {m m' : Machine} (hx : x.run m = (.error e, m')) {f : Failure} (pid : Service → ℕ)
    (he : e.isException = f.exn.isException) (hm : m' = ⟨f.spawned, [], f.stateFile⟩)
    (hk : processes = f.known.map fun s => (s, pid s)) :
    ∃ e', (exceptException x (cleanUp o processes)).run m =
      (.error e', if f.exn.isException then
          ((cleanUp o (f.known.map fun s => (s, pid s))).run ⟨f.spawned, [], f.stateFile⟩).2
        else ⟨f.spawned, [], f.stateFile⟩) := by
  obtain ⟨e', hr⟩ := run_exceptException_error hx (cleanUp o processes)
  exact ⟨e', by rw [hr, he, hk, hm]⟩

/-- The last steps of a start, with two processes. -/
theorem run_completion (bridge tunnel : ℕ) (m : Machine) :
    let completion : Start Unit := do
      requireHealthy o .tunnel
      let _ ← outcome (captureProcessState o "bridge" .bridge bridge 0)
      let _ ← outcome (captureProcessState o "tunnel" .tunnel tunnel 0)
      writeState o
    match healthFailure o .tunnel <|> captureFailure o .bridge <|> captureFailure o .tunnel with
    | some e => ∃ e', e'.isException = e.isException ∧ completion.run m = (.error e', m)
    | none => match o.writeState with
      | .failed e inPlace => completion.run m = (.error e, { m with stateFile := inPlace })
      | .written => completion.run m = (.ok (), { m with stateFile := true }) := by
  have hh := run_requireHealthy (o := o) .tunnel m
  have hb := captureProcessState_failure (o := o) .bridge bridge
  have ht := captureProcessState_failure (o := o) .tunnel tunnel
  dsimp only
  rw [run_bind]
  rcases hs : healthFailure o .tunnel with _ | e <;> rw [hs] at hh
  swap
  · obtain ⟨e', he, hh⟩ := hh
    rw [hh]
    exact ⟨e', he, rfl⟩
  rw [hh]
  dsimp only
  rw [run_bind, run_outcome]
  rcases hs : captureFailure o .bridge with _ | e <;> rw [hs] at hb
  swap
  · obtain ⟨e', he, hb⟩ := hb
    rw [show captureProcessState o "bridge" .bridge bridge 0 = .error e' from hb]
    exact ⟨e', he, rfl⟩
  obtain ⟨_, hb⟩ := hb
  rw [show captureProcessState o "bridge" .bridge bridge 0 = .ok _ from hb]
  dsimp only
  rw [run_bind, run_outcome]
  rcases hs : captureFailure o .tunnel with _ | e <;> rw [hs] at ht
  swap
  · obtain ⟨e', he, ht⟩ := ht
    rw [show captureProcessState o "tunnel" .tunnel tunnel 0 = .error e' from ht]
    exact ⟨e', he, rfl⟩
  obtain ⟨_, ht⟩ := ht
  rw [show captureProcessState o "tunnel" .tunnel tunnel 0 = .ok _ from ht]
  unfold writeState
  rcases o.writeState with _ | ⟨e, inPlace⟩ <;> rfl

theorem start_ends : match failure o with
    | none => (start o).1 = .ok ()
    | some f => EndsAt (o := o) f (start o) := by
  unfold failure start coldStart
  have hb := run_popenBackground (o := o) .bridge ⟨[], [], false⟩
  rw [run_bind]
  rcases hs : spawnFailure o .bridge with _ | ⟨e, spawned⟩ <;> rw [hs] at hb
  swap
  · obtain ⟨e', hr⟩ := run_failed (o := o) [] hb
      (f := ⟨e, if spawned then [.bridge] else [], [], false⟩) (fun _ => 0) rfl
      (by cases spawned <;> rfl) rfl
    rw [hr]
    exact ⟨_, _, rfl, rfl⟩
  obtain ⟨bridge, hb⟩ := hb
  rw [run_exceptException, hb]
  dsimp only
  rw [run_bind]
  have hh := run_requireHealthy (o := o) .bridge ⟨[.bridge], [], false⟩
  rcases hs : healthFailure o .bridge with _ | e <;> rw [hs] at hh
  swap
  · obtain ⟨e₁, he, hh⟩ := hh
    have hx : (requireHealthy o .bridge >>= fun _ => popenBackground o .tunnel).run
        ⟨[.bridge], [], false⟩ = (.error e₁, ⟨[.bridge], [], false⟩) := by
      rw [run_bind, hh]
    obtain ⟨e', hr⟩ := run_failed (o := o) [(.bridge, bridge)] hx
      (f := ⟨e, [.bridge], [.bridge], false⟩) (fun _ => bridge) he rfl rfl
    rw [hr]
    exact ⟨_, _, rfl, rfl⟩
  have ht := run_popenBackground (o := o) .tunnel ⟨[.bridge], [], false⟩
  rcases hs : spawnFailure o .tunnel with _ | ⟨e, spawned⟩ <;> rw [hs] at ht
  swap
  · have hx := run_bind ⟨[.bridge], [], false⟩ (requireHealthy o .bridge)
      fun _ => popenBackground o .tunnel
    rw [hh] at hx
    dsimp only at hx
    rw [ht] at hx
    obtain ⟨e', hr⟩ := run_failed (o := o) [(.bridge, bridge)] hx
      (f := ⟨e, if spawned then [.tunnel, .bridge] else [.bridge], [.bridge], false⟩)
      (fun _ => bridge) rfl (by cases spawned <;> rfl) rfl
    rw [hr]
    exact ⟨_, _, rfl, rfl⟩
  obtain ⟨tunnel, ht⟩ := ht
  rw [run_exceptException, run_bind, hh]
  dsimp only
  rw [ht]
  dsimp only
  have hc := run_completion (o := o) bridge tunnel ⟨[.tunnel, .bridge], [], false⟩
  dsimp only at hc
  let pid : Service → ℕ := fun s => if s = .bridge then bridge else tunnel
  rcases hs : healthFailure o .tunnel <|> captureFailure o .bridge <|> captureFailure o .tunnel
    with _ | e <;> rw [hs] at hc
  swap
  · obtain ⟨e₁, he, hx⟩ := hc
    obtain ⟨e', hr⟩ := run_failed (o := o) [(.tunnel, tunnel), (.bridge, bridge)] hx
      (f := ⟨e, [.tunnel, .bridge], [.tunnel, .bridge], false⟩) pid he rfl rfl
    rw [hr]
    exact ⟨_, _, rfl, rfl⟩
  rcases hs : o.writeState with _ | ⟨e, inPlace⟩ <;> rw [hs] at hc
  · dsimp only at hc ⊢
    rw [run_exceptException, hc]
  · dsimp only at hc
    obtain ⟨e', hr⟩ := run_failed (o := o) [(.tunnel, tunnel), (.bridge, bridge)] hc
      (f := ⟨e, [.tunnel, .bridge], [.tunnel, .bridge], inPlace⟩) pid rfl rfl rfl
    rw [hr]
    exact ⟨_, _, rfl, rfl⟩

/-- A failure whose handler knows no process, the Bridge, or both of them. -/
theorem failure_known {f : Failure} (h : failure o = some f) :
    f.known = [] ∨ f.known = [.bridge] ∨
      f.known = [.tunnel, .bridge] ∧ f.spawned = [.tunnel, .bridge] := by
  unfold failure at h
  repeat' split at h
  all_goals
    cases h
    try simp

/-- A start that fails leaves nothing running and no state file exactly if it is recoverable. -/
theorem coldStart_leavesNothing_iff (o : Outcomes) : LeavesNothing o ↔ Recoverable o := by
  have hstart := start_ends (o := o)
  unfold LeavesNothing Recoverable
  rcases hf : failure o with _ | f
  · rw [hf] at hstart
    simp [hstart]
  rw [hf] at hstart
  obtain ⟨e, pid, he, hm⟩ := hstart
  simp only [he, hm, Except.error.injEq, forall_eq', Option.some.injEq, forall_eq']
  rw [and_comm]
  have hknown := failure_known hf
  by_cases hx : f.exn.isException = true
  swap
  · -- nothing is cleaned up
    rw [if_neg hx]
    refine and_congr_right fun _ => ?_
    constructor
    · intro h
      refine ⟨fun s hs ha => absurd (h s hs ha) List.not_mem_nil, fun ht ha _ => ?_⟩
      rcases hknown with hk | hk | ⟨-, hk⟩
      · simp [hk] at ht
      · simp [hk] at ht
      · exact absurd (h .tunnel (by simp [hk]) ha) List.not_mem_nil
    · rintro ⟨h, -⟩ s hs ha
      exact absurd (h s hs ha).2.1 hx
  rw [if_pos hx]
  obtain ⟨ended, hc, hended⟩ :=
    cleanUp_extends (o := o) (f.known.map fun s => (s, pid s)) ⟨f.spawned, [], f.stateFile⟩
  rw [List.map_map, show (Prod.fst ∘ fun s => (s, pid s)) = id from rfl, List.map_id] at hended
  rw [List.append_nil] at hc
  rw [hc]
  refine and_congr_right fun _ => ?_
  dsimp only
  rcases hknown with hk | hk | ⟨hk, hs⟩
  · rw [hk] at hended ⊢
    have : ended = [] := by
      rw [List.eq_nil_iff_forall_not_mem]
      intro s hs
      exact List.not_mem_nil (hended s hs).1
    simp [this]
  · have hone := cleansUp_one (o := o) .bridge (pid .bridge) (m := ⟨f.spawned, [], f.stateFile⟩)
      List.not_mem_nil
    rw [hk] at hc hended ⊢
    simp only [List.map_cons, List.map_nil] at hc
    unfold CleansUp at hone
    simp only [hc, List.map_cons, List.map_nil, List.mem_singleton, forall_eq] at hone
    simp only [List.mem_singleton, hx, true_and, reduceCtorEq, false_implies, and_true]
    refine forall_congr' fun s => forall_congr' fun _ => ?_
    constructor
    · intro h ha
      exact hended s (h ha) |>.imp_left List.mem_singleton.mp
    · intro h ha
      obtain ⟨rfl, hT⟩ := h ha
      exact hone.mpr (fun _ => hT) ha
  · have htwo := cleansUp_two (o := o) .tunnel .bridge (by simp) (pid .tunnel)
      (pid .bridge) (m := ⟨f.spawned, [], f.stateFile⟩) rfl
    rw [hk] at hc ⊢
    simp only [List.map_cons, List.map_nil] at hc
    unfold CleansUp at htwo
    simp only [hc, List.map_cons, List.map_nil, List.mem_cons, List.not_mem_nil, or_false,
      forall_eq_or_imp, forall_eq] at htwo
    simp only [hs, List.mem_cons, List.not_mem_nil, or_false, forall_eq_or_imp, forall_eq, hx,
      true_and, true_or, or_true, forall_const]
    rw [htwo, and_assoc]

/-- The start time of neither process can be read, so that no identity is ever established. -/
def unidentified : Outcomes where
  windows := false
  ownGroup := 500
  openLog := fun _ => .ok ()
  popen := fun s => .ok (match s with
    | .bridge => 4000
    | .tunnel => 4001)
  closeLog := fun _ => .ok ()
  waitEndpoint := fun _ => .ok ⟨true, "\x7b\x7d"⟩
  writeState := .written
  alive := fun _ => true
  reading := fun s _ => .ok (match s with
    | .bridge => ⟨none, some 4000, none⟩
    | .tunnel => ⟨none, some 4001, none⟩)
  taskkill := fun _ => .ok (0, "")
  sigterm := fun _ => .ok ()
  sigkill := fun _ => .ok ()
  checks := fun _ => 100

theorem unidentified_keepsRunning :
    (start unidentified).1 = .error (.lifecycleError
        "cannot establish bridge process start marker for PID 4000") ∧
      (start unidentified).2 = ⟨[.tunnel, .bridge], [], false⟩ ∧
      ¬LeavesNothing unidentified := by
  refine ⟨by rfl, by rfl, fun h => ?_⟩
  exact absurd ((h _ (by rfl)).1 .bridge (by decide) (by rfl)) (by decide)

end Lifecycle

end CodemcpBridge
