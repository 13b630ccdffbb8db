import CodemcpBridge.Async.Drain
import CodemcpBridge.Properties.Locks

/-!
# Every call on its way ends

The surroundings can answer every question but one, a mutation lock that is taken.  Its owner waits
for something else, so there is always a call that can go on; if no new one is let in, all of them
come to their end and give back what they have taken.
-/

namespace CodemcpBridge

open Async Async.Machine

/-! ## What can be answered -/

/-- A plain answer to every question, with `id` for a new text. -/
def plainAnswer (id : String) : (q : Ask) → Except Exn q.Result
  | .quiet (.acquire _) => .ok ()
  | .quiet .uuid | .quiet .token => .ok id
  | .quiet .now => .ok 0
  | .quiet (.adapterActive _) => .ok false
  | .communicate .. => .ok { returncode := 0, stdout := .empty, stderr := .empty }
  | .terminate _ => .ok ()
  | _ => .error .other

section Answerable

variable {settings : PolicySettings} {t : ℕ} {w : World}

/-- There is always a text that names nothing yet. -/
theorem exists_isFresh (db : Database) : ∃ id, isFresh db id = true := by
  obtain ⟨id, hid⟩ := Infinite.exists_notMem_finset
    (db.sessions.map SessionRecord.sessionId ++ db.operations.map OperationRecord.operationId ++
      db.approvals.map ApprovalRecord.approvalId ++ db.approvals.map (fun a => a.tokenHash.token) ++
      db.checkpoints.map CheckpointRecord.checkpointId).toFinset
  refine ⟨id, ?_⟩
  simp only [List.mem_toFinset, List.mem_append, List.mem_map, not_or, not_exists, not_and] at hid
  obtain ⟨⟨⟨⟨hs, ho⟩, ha⟩, ht⟩, hc⟩ := hid
  simp only [isFresh, Bool.not_eq_true', Bool.or_eq_false_iff, List.any_eq_false, beq_iff_eq]
  exact ⟨⟨⟨hs, ho⟩, fun a h => by simpa using ⟨ha a h, ht a h⟩⟩, hc⟩

theorem exists_execQuiet (q : Quiet) (hq : ∀ p, q = .acquire p → p ∉ w.locks) :
    ∃ e r, execQuiet w e q = some r := by
  obtain ⟨id, hid⟩ := exists_isFresh w.db
  refine ⟨{ answer := plainAnswer id }, ?_⟩
  cases q with
  | store c =>
    simp only [execQuiet, Bool.false_eq_true, if_false]
    split <;> exact ⟨_, rfl⟩
  | acquire p =>
    have hp : p ∉ w.locks := hq p rfl
    exact ⟨_, if_neg hp⟩
  | uuid | token => exact ⟨_, if_pos hid⟩
  | _ => exact ⟨_, rfl⟩

/-- Every question can be answered, but that for a taken lock. -/
theorem exists_exec (q : Ask) (hq : ∀ p, q = .quiet (.acquire p) → p ∉ w.locks) :
    ∃ e r, exec {} t q w e = some r := by
  cases q with
  | quiet q => exact exists_execQuiet q fun p hp => hq p (by rw [hp])
  | mark m => cases m <;> exact ⟨{ answer := plainAnswer "" }, _, rfl⟩
  | _ => exact ⟨{ answer := plainAnswer "" }, _, rfl⟩

/-- What does not suspend can be answered at once. -/
theorem exists_exec_floor (t : ℕ) (q : Ask) (w : World) (hq : q.suspends = false) :
    ∃ e r, exec {} t q w e = some r := by
  refine exists_exec q fun p hp => ?_
  subst hp
  have hq : true = false := hq
  cases hq

end Answerable

section Progress

variable {settings : PolicySettings} {p : BridgePool}

/-- While calls are on their way one of them can be answered. -/
theorem Reached.exists_resumes (h : Reached settings {} p) (hlive : p.live ≠ []) :
    ∃ p', Resumes (bridge settings {}) p p' := by
  have go : ∀ l ∈ p.live, ∀ q k, l.2.2 = .ask q k →
      (∀ i, q = .quiet (.acquire i) → i ∉ p.world.locks) →
      ∃ p', Resumes (bridge settings {}) p p' := fun l hl q k hx hq => by
    obtain ⟨t, c, x⟩ := l
    subst hx
    obtain ⟨e, ⟨a, w⟩, he⟩ := exists_exec (t := t) q hq
    obtain ⟨es, ⟨x', w'⟩, ha⟩ := exists_advance (M := bridge settings {}) exists_exec_floor e
      (t := t) (x := k a) w
    exact ⟨_, .resume e es hl he ha⟩
  obtain ⟨l, hl⟩ := List.exists_mem_of_ne_nil _ hlive
  obtain ⟨q, k, hx⟩ := h.waiting.waits l hl
  by_cases hlock : ∃ i, q = .quiet (.acquire i) ∧ i ∈ p.world.locks
  · -- The owner of the lock does not wait for another.
    obtain ⟨i, -, hi⟩ := hlock
    obtain ⟨m, hm, ho⟩ := (h.owes_iff i).1 hi
    obtain ⟨q', k', hy⟩ := h.waiting.waits m hm
    rw [hy] at ho
    refine go m hm q' k' hy fun j hj => ?_
    rcases ho with rfl | ⟨hne, -⟩
    · cases hj
    · exact absurd hj (hne j)
  · exact go l hl q k hx fun i hq hi => hlock ⟨i, hq, hi⟩

/-- **No call waits for ever.**  From every state of every run, with whatever calls on their way,
there is no endless run in which calls are only answered; and where such a run cannot go on, every
one of those calls has been answered to its end, none is left and no mutation lock is taken. -/
theorem calls_end (settings : PolicySettings) {p} (h : Reached settings {} p) :
    (∀ run : ℕ → BridgePool, run 0 = p →
      ∃ n, ¬Resumes (bridge settings {}) (run n) (run (n + 1))) ∧
    ∀ p', Relation.ReflTransGen (Resumes (bridge settings {})) p p' →
      (∀ p'', ¬Resumes (bridge settings {}) p' p'') →
      p'.live = [] ∧ p'.world.locks = [] ∧ ∀ l ∈ p.live, ∃ a, (l.1, l.2.1, a) ∈ p'.ended := by
  refine ⟨fun run h₀ => h.waiting.ends run h₀, fun p' hrun hstuck => ?_⟩
  have h' : Reached settings {} p' := Reachable.resumes h hrun
  have hlive : p'.live = [] := by
    by_contra hne
    obtain ⟨p'', hgo⟩ := h'.exists_resumes hne
    exact hstuck p'' hgo
  refine ⟨hlive, List.eq_nil_iff_forall_not_mem.2 fun i hi => ?_, fun l hl => ?_⟩
  · obtain ⟨l, hl, -⟩ := (h'.owes_iff i).1 hi
    rw [hlive] at hl
    exact List.not_mem_nil hl
  · rcases (Resumes.run hrun h.waiting).2.1 l hl with ⟨x, hx⟩ | ha
    · rw [hlive] at hx
      exact absurd hx List.not_mem_nil
    · exact ha

/-- An approved command that works under its lock comes to its end and gives the lock back. -/
theorem calls_end_confirmed : ∃ p : BridgePool, Reached {} {} p ∧ "p" ∈ p.world.locks ∧
    ∀ p', Relation.ReflTransGen (Resumes (bridge {} {})) p p' →
      (∀ p'', ¬Resumes (bridge {} {}) p' p'') →
      p'.live = [] ∧ p'.world.locks = [] ∧ ∀ l ∈ p.live, ∃ a, (l.1, l.2.1, a) ∈ p'.ended := by
  obtain ⟨p, hp, hlocks⟩ := exists_locked
  exact ⟨p, hp, hlocks, (calls_end {} hp).2⟩

end Progress

end CodemcpBridge
