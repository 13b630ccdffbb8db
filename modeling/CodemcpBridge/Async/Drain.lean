import CodemcpBridge.Async.Pool
import CodemcpBridge.Async.Table
import Mathlib.Data.Multiset.AddSub
import Mathlib.Logic.Hydra

/-!
# Runs that let nothing in

A task is a finite tree, so a run in which only suspended tasks are answered comes to an end.  Where
it ends every task waits for an answer that cannot be given; if some task can always be answered,
none is left then, and all of them have been done.
-/

namespace Async

variable {T C Q : Type} {A : Q → Type} {W E X α : Type}

/-! ## What is left of a task -/

/-- One answer leaves `x'` of `x`. -/
def Task.Rest (x' x : Task Q A α) : Prop := ∃ q k, x = .ask q k ∧ ∃ a, x' = k a

/-- One answer or more leave `x'` of `x`. -/
def Task.Remains : Task Q A α → Task Q A α → Prop := Relation.TransGen Task.Rest

theorem Task.wellFounded_rest : WellFounded (Task.Rest : Task Q A α → Task Q A α → Prop) := by
  refine ⟨fun x => ?_⟩
  induction x with
  | done a =>
    refine ⟨_, ?_⟩
    rintro y ⟨q, k, h, -⟩
    cases h
  | ask q k ih =>
    refine ⟨_, ?_⟩
    rintro y ⟨q', k', h, a, rfl⟩
    cases h
    exact ih a

namespace Machine

variable {M : Machine T C Q A W E X α}

/-- A turn leaves the task, or what some answers leave of it. -/
theorem advance_rest {t : T} {x : Task Q A α} : ∀ {w : W} {es : ℕ → E} {x' w'},
    M.advance t x w es = some (x', w') → Relation.ReflTransGen Task.Rest x' x := by
  induction x with
  | done a =>
    intro w es x' w' h
    cases h
    exact .refl
  | ask q k ih =>
    intro w es x' w' h
    unfold advance at h
    by_cases hs : M.suspends q = true
    · rw [if_pos hs] at h
      cases h
      exact .refl
    · rw [if_neg hs] at h
      obtain ⟨⟨a, w₁⟩, he, h⟩ := Option.bind_eq_some_iff.1 h
      exact (ih a h).tail ⟨q, k, rfl, a, rfl⟩

/-- If what does not suspend can be answered, a task can keep the floor as long as it should. -/
theorem exists_advance (floor : ∀ t q w, M.suspends q = false → ∃ e r, M.exec t q w e = some r)
    (e : E) {t : T} {x : Task Q A α} : ∀ w, ∃ es r, M.advance t x w es = some r := by
  induction x with
  | done a => exact fun w => ⟨fun _ => e, _, rfl⟩
  | ask q k ih =>
    intro w
    unfold advance
    by_cases hs : M.suspends q = true
    · exact ⟨fun _ => e, _, if_pos hs⟩
    · obtain ⟨e₀, ⟨a, w₁⟩, he⟩ := floor t q w (by simpa using hs)
      obtain ⟨es, r, hr⟩ := ih a w₁
      refine ⟨fun n => Nat.casesOn n e₀ es, r, ?_⟩
      rw [if_neg hs]
      exact Option.bind_eq_some_iff.2 ⟨_, he, hr⟩

/-! ## The suspended tasks -/

/-- The suspended tasks have different names, and each waits for an answer. -/
structure Pool.Waiting (p : Pool T C Q A W α) : Prop where
  nodup : (p.live.map Prod.fst).Nodup
  waits : ∀ l ∈ p.live, ∃ q k, l.2.2 = Task.ask q k

/-- What the suspended tasks have to do. -/
def Pool.todo (p : Pool T C Q A W α) : Multiset (Task Q A α) := p.live.map fun l => l.2.2

variable [DecidableEq T] {p p' : Pool T C Q A W α}

theorem Pool.Waiting.yield (h : p.Waiting) (t : T) (c : C) (x : Task Q A α) (w : W) :
    (p.yield t c x w).Waiting := by
  have hnodup := Pool.nodup_yield h.nodup t c x w
  have hwaits : ∀ l ∈ p.live.filter (fun l => l.1 ≠ t), ∃ q k, l.2.2 = Task.ask q k :=
    fun l hl => h.waits l (List.mem_of_mem_filter hl)
  cases x with
  | done a => exact ⟨hnodup, hwaits⟩
  | ask q k =>
    refine ⟨hnodup, fun l hl => ?_⟩
    rcases List.mem_cons.1 hl with rfl | hl
    · exact ⟨q, k, rfl⟩
    · exact hwaits l hl

theorem Reachable.waiting {w₀ : W} (h : Reachable M w₀ p) : p.Waiting := by
  have none : ∀ {p : Pool T C Q A W α}, p.live = [] → p.Waiting := fun hp => by
    refine ⟨?_, ?_⟩ <;> simp [hp]
  induction h with
  | init => exact none rfl
  | step _ hs ih =>
    cases hs with
    | turn es floor ran => exact ih.yield _ _ _ _
    | crash x lost => exact none rfl
    | crashIn es n x floor ran lost => exact none rfl
    | quit x idle left => exact none idle

/-! ## Resuming only -/

/-- A suspended task is answered, and keeps the floor as long as it should. -/
inductive Resumes (M : Machine T C Q A W E X α) : Pool T C Q A W α → Pool T C Q A W α → Prop
  | resume {p t c q k a w x w'} (e : E) (es : ℕ → E) (waiting : (t, c, Task.ask q k) ∈ p.live)
      (given : M.exec t q p.world e = some (a, w))
      (ran : M.advance t (k a) w es = some (x, w')) : Resumes M p (p.yield t c x w')

theorem Resumes.step (h : Resumes M p p') : Step M p p' := by
  cases h with
  | resume e es waiting given ran => exact .turn es (.next e waiting given) ran

theorem Resumes.waiting (h : Resumes M p p') (hp : p.Waiting) : p'.Waiting := by
  cases h with
  | resume e es waiting given ran => exact hp.yield _ _ _ _

/-- An answer leaves less to do. -/
theorem Resumes.cutExpand (h : Resumes M p p') (hp : p.Waiting) :
    Relation.CutExpand Task.Remains p'.todo p.todo := by
  cases h with
  | @resume t c q k a w x w' e es waiting given ran =>
    have hx : Task.Remains x (.ask q k) :=
      Relation.TransGen.tail' (advance_rest ran) ⟨q, k, rfl, a, rfl⟩
    have htodo : p.todo = .ask q k ::ₘ
        ((p.live.filter fun m => m.1 ≠ t).map fun l => l.2.2 : List (Task Q A α)) :=
      Multiset.coe_eq_coe.2 ((Table.perm_cons_filter hp.nodup waiting).map _)
    rw [htodo]
    cases x with
    | done a =>
      refine ⟨0, .ask q k, by simp, ?_⟩
      rw [add_zero, ← Multiset.singleton_add, add_comm]
      rfl
    | ask q' k' =>
      refine ⟨{.ask q' k'}, .ask q k, by simpa using hx, ?_⟩
      rw [← Multiset.singleton_add, add_comm, add_assoc]
      refine congrArg _ ?_
      rw [add_comm, Multiset.singleton_add]
      rfl

/-- Only so many tasks can be resumed. -/
theorem Pool.Waiting.acc (hp : p.Waiting) :
    Acc (fun p' p : Pool T C Q A W α => Resumes M p p') p := by
  have hacc : Acc (Relation.CutExpand Task.Remains) p.todo :=
    Task.wellFounded_rest.transGen.cutExpand.apply _
  generalize hm : p.todo = m at hacc
  induction hacc generalizing p with
  | intro m _ ih =>
    subst hm
    exact ⟨_, fun p' h => ih _ (h.cutExpand hp) (h.waiting hp) rfl⟩

/-- No run goes on for ever with answers only. -/
theorem Pool.Waiting.ends (hp : p.Waiting) (run : ℕ → Pool T C Q A W α) (h₀ : run 0 = p) :
    ∃ n, ¬Resumes M (run n) (run (n + 1)) := by
  have hacc := hp.acc (M := M)
  clear hp
  induction hacc generalizing run with
  | intro p _ ih =>
    by_contra hrun
    have hrun : ∀ n, Resumes M (run n) (run (n + 1)) := fun n => by
      by_contra hn
      exact hrun ⟨n, hn⟩
    obtain ⟨n, hn⟩ := ih (run 1) (h₀ ▸ hrun 0) (fun n => run (n + 1)) rfl
    exact hn (hrun (n + 1))

/-- Every task of `p` is still suspended in `p'`, or has been done. -/
def Accounted (p p' : Pool T C Q A W α) : Prop :=
  ∀ l ∈ p.live, (∃ x, (l.1, l.2.1, x) ∈ p'.live) ∨ ∃ a, (l.1, l.2.1, a) ∈ p'.ended

theorem Resumes.accounted (h : Resumes M p p') (hp : p.Waiting) :
    Accounted p p' ∧ ∀ m ∈ p.ended, m ∈ p'.ended := by
  cases h with
  | @resume t c q k a w x w' e es waiting given ran =>
    have own : ∀ l ∈ p.live, l.1 = t → l.2.1 = c := fun l hl ht => by
      rcases List.mem_cons.1 ((Table.perm_cons_filter hp.nodup waiting).mem_iff.1 hl) with rfl | hm
      · rfl
      · exact absurd ht (by simpa using (List.mem_filter.1 hm).2)
    have others : ∀ l ∈ p.live, l.1 ≠ t → l ∈ p.live.filter fun m => m.1 ≠ t := fun l hl ht =>
      List.mem_filter.2 ⟨hl, by simpa using ht⟩
    cases x with
    | done a =>
      refine ⟨fun l hl => ?_, fun m hm => List.mem_cons_of_mem _ hm⟩
      by_cases ht : l.1 = t
      · exact .inr ⟨a, by rw [ht, own l hl ht]; exact List.mem_cons_self⟩
      · exact .inl ⟨l.2.2, others l hl ht⟩
    | ask q' k' =>
      refine ⟨fun l hl => .inl ?_, fun m hm => hm⟩
      by_cases ht : l.1 = t
      · exact ⟨_, by rw [ht, own l hl ht]; exact List.mem_cons_self⟩
      · exact ⟨l.2.2, List.mem_cons_of_mem _ (others l hl ht)⟩

theorem Reachable.resumes {w₀ : W} (h : Reachable M w₀ p)
    (hrun : Relation.ReflTransGen (Resumes M) p p') : Reachable M w₀ p' := by
  induction hrun with
  | refl => exact h
  | tail _ hs ih => exact ih.step hs.step

/-- No task is lost. -/
theorem Resumes.run (h : Relation.ReflTransGen (Resumes M) p p') (hp : p.Waiting) :
    p'.Waiting ∧ Accounted p p' ∧ ∀ m ∈ p.ended, m ∈ p'.ended := by
  induction h with
  | refl => exact ⟨hp, fun l hl => .inl ⟨_, hl⟩, fun m hm => hm⟩
  | tail _ hs ih =>
    obtain ⟨hw, hacc, hended⟩ := ih
    obtain ⟨hacc', hended'⟩ := hs.accounted hw
    refine ⟨hs.waiting hw, fun l hl => ?_, fun m hm => hended' m (hended m hm)⟩
    rcases hacc l hl with ⟨x, hx⟩ | ⟨a, ha⟩
    · exact hacc' (l.1, l.2.1, x) hx
    · exact .inr ⟨a, hended' _ ha⟩

end Machine

end Async
