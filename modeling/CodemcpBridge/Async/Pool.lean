import CodemcpBridge.Async.Rules
import Mathlib.Data.List.Basic

/-!
# Cooperative tasks over a shared world

A `Machine` runs calls as tasks over one world.  A task keeps the floor from the answer to one
suspending question until it asks the next one or is done; only then may another task act.
A crash may strike between any two questions, also in the middle of such a turn; it forgets every
task and keeps what `crash` keeps of the world.  An orderly end waits for the tasks.

A `Discipline` is a rely–guarantee proof that the calls of a machine keep an invariant: every
question is asked where it is legal, which keeps the invariant and what the other tasks rely on.
`Discipline.reachable` is its adequacy theorem, over every reachable pool.
-/

namespace Async

/-- How calls `C`, run as tasks named by `T`, act on a world `W`; `E` is what the surroundings
choose at each question and `X` what they choose when all tasks end. -/
structure Machine (T C Q : Type) (A : Q → Type) (W E X α : Type) where
  program : C → Task Q A α
  /-- Whether the task gives up the floor while it waits for the answer. -/
  suspends : Q → Bool
  /-- Answer a question, if the surroundings' choice is a possible one. -/
  exec : T → (q : Q) → W → E → Option (A q × W)
  /-- Let a new call in. -/
  arrive : T → C → W → Option W
  /-- All tasks are lost. -/
  crash : X → W → Option W
  /-- The machine ends with no task on its way. -/
  quit : X → W → Option W

namespace Machine

variable {T C Q : Type} {A : Q → Type} {W E X α : Type} (M : Machine T C Q A W E X α)

/-- Answer questions until the task is done or suspends. -/
def advance {β : Type} (t : T) : Task Q A β → W → (ℕ → E) → Option (Task Q A β × W)
  | .done a, w, _ => some (.done a, w)
  | .ask q k, w, es =>
    if M.suspends q then some (.ask q k, w)
    else (M.exec t q w (es 0)).bind fun r => advance t (k r.1) r.2 fun n => es (n + 1)

/-- Answer at most `n` questions of a turn, and keep the world only. -/
def interrupted {β : Type} (t : T) : ℕ → Task Q A β → W → (ℕ → E) → Option W
  | 0, _, w, _ => some w
  | _ + 1, .done _, w, _ => some w
  | n + 1, .ask q k, w, es =>
    if M.suspends q then some w
    else (M.exec t q w (es 0)).bind fun r => interrupted t n (k r.1) r.2 fun n => es (n + 1)

/-- The world with the tasks that are suspended in it, every call so far and every result. -/
structure Pool (T C Q : Type) (A : Q → Type) (W α : Type) where
  world : W
  live : List (T × C × Task Q A α) := []
  calls : List (T × C) := []
  ended : List (T × C × α) := []

variable {M}

/-- Task `t` serving `c` takes the floor of `p`: it has `x` to do in the world `w`. -/
inductive Turn (M : Machine T C Q A W E X α) (p : Pool T C Q A W α) :
    T → C → Task Q A α → W → Prop
  | first {t c w} (fresh : t ∉ p.calls.map Prod.fst) (arrived : M.arrive t c p.world = some w) :
      Turn M p t c (M.program c) w
  | next {t c q k w a} (e : E) (waiting : (t, c, Task.ask q k) ∈ p.live)
      (given : M.exec t q p.world e = some (a, w)) : Turn M p t c (k a) w

/-- The pool after a turn of `t` that left `x` to do. -/
def Pool.yield [DecidableEq T] (p : Pool T C Q A W α) (t : T) (c : C) (x : Task Q A α) (w : W) :
    Pool T C Q A W α where
  world := w
  live := match x with
    | .done _ => p.live.filter fun l => l.1 ≠ t
    | .ask q k => (t, c, .ask q k) :: p.live.filter fun l => l.1 ≠ t
  calls := if t ∈ p.calls.map Prod.fst then p.calls else (t, c) :: p.calls
  ended := match x with
    | .done a => (t, c, a) :: p.ended
    | .ask _ _ => p.ended

/-- The names of the suspended tasks stay different. -/
theorem Pool.nodup_yield [DecidableEq T] {p : Pool T C Q A W α}
    (h : (p.live.map Prod.fst).Nodup) (t : T) (c : C)
    (x : Task Q A α) (w : W) : ((p.yield t c x w).live.map Prod.fst).Nodup := by
  have hrest : ((p.live.filter fun l => l.1 ≠ t).map Prod.fst).Nodup :=
    h.sublist (List.filter_sublist.map _)
  cases x with
  | done a => exact hrest
  | ask q k =>
    refine List.nodup_cons.2 ⟨fun ht => ?_, hrest⟩
    obtain ⟨l, hl, he⟩ := List.mem_map.1 ht
    exact absurd he (by simpa using (List.mem_filter.1 hl).2)

/-- One step of the pool. -/
inductive Step [DecidableEq T] (M : Machine T C Q A W E X α) :
    Pool T C Q A W α → Pool T C Q A W α → Prop
  | turn {p t c x w x' w'} (es : ℕ → E) (floor : Turn M p t c x w)
      (ran : M.advance t x w es = some (x', w')) : Step M p (p.yield t c x' w')
  | crash {p w'} (x : X) (lost : M.crash x p.world = some w') :
      Step M p { p with world := w', live := [] }
  | crashIn {p t c k w w₁ w'} (es : ℕ → E) (n : ℕ) (x : X) (floor : Turn M p t c k w)
      (ran : M.interrupted t n k w es = some w₁) (lost : M.crash x w₁ = some w') :
      Step M p { world := w', live := [], calls := (t, c) :: p.calls, ended := p.ended }
  | quit {p w'} (x : X) (idle : p.live = []) (left : M.quit x p.world = some w') :
      Step M p { p with world := w' }

/-- The pools that runs from the world `w₀` reach. -/
inductive Reachable [DecidableEq T] (M : Machine T C Q A W E X α) (w₀ : W) :
    Pool T C Q A W α → Prop
  | init : Reachable M w₀ { world := w₀ }
  | step {p p'} : Reachable M w₀ p → Step M p p' → Reachable M w₀ p'

section Always

variable {I : W → Prop}

/-- What every answer keeps, a turn keeps. -/
theorem advance_always (exec : ∀ {t q w e a w'}, I w → M.exec t q w e = some (a, w') → I w')
    {t : T} : ∀ {x : Task Q A α} {w : W} {es : ℕ → E} {x' w'}, I w →
      M.advance t x w es = some (x', w') → I w'
  | .done a, w, es, x', w', hi, h => by
      cases h
      exact hi
  | .ask q k, w, es, x', w', hi, h => by
      unfold advance at h
      split at h
      · cases h
        exact hi
      · obtain ⟨⟨a, w₁⟩, he, h⟩ := Option.bind_eq_some_iff.1 h
        exact advance_always exec (exec hi he) h

theorem interrupted_always (exec : ∀ {t q w e a w'}, I w → M.exec t q w e = some (a, w') → I w')
    {t : T} {β : Type} : ∀ {n : ℕ} {x : Task Q A β} {w : W} {es : ℕ → E} {w'}, I w →
      M.interrupted t n x w es = some w' → I w'
  | 0, _, _, _, _, hi, h => by
      cases h
      exact hi
  | _ + 1, .done _, _, _, _, hi, h => by
      cases h
      exact hi
  | n + 1, .ask q k, w, es, w', hi, h => by
      unfold interrupted at h
      split at h
      · cases h
        exact hi
      · obtain ⟨⟨a, w₁⟩, he, h⟩ := Option.bind_eq_some_iff.1 h
        exact interrupted_always exec (exec hi he) h

theorem Turn.always {p : Pool T C Q A W α} {t : T} {c : C} {x : Task Q A α} {w : W}
    (exec : ∀ {t q w e a w'}, I w → M.exec t q w e = some (a, w') → I w')
    (arrive : ∀ {t c w w'}, I w → M.arrive t c w = some w' → I w') (hi : I p.world)
    (h : Turn M p t c x w) : I w := by
  cases h with
  | first fresh arrived => exact arrive hi arrived
  | next e waiting given => exact exec hi given

/-- What every answer keeps, a step keeps. -/
theorem Step.always [DecidableEq T] {p p' : Pool T C Q A W α}
    (exec : ∀ {t q w e a w'}, I w → M.exec t q w e = some (a, w') → I w')
    (arrive : ∀ {t c w w'}, I w → M.arrive t c w = some w' → I w')
    (crash : ∀ {x w w'}, I w → M.crash x w = some w' → I w')
    (quit : ∀ {x w w'}, I w → M.quit x w = some w' → I w') (hi : I p.world)
    (h : Step M p p') : I p'.world := by
  cases h with
  | turn es floor ran => exact advance_always exec (floor.always exec arrive hi) ran
  | crash x lost => exact crash hi lost
  | crashIn es n x floor ran lost =>
    exact crash (interrupted_always exec (floor.always exec arrive hi) ran) lost
  | quit x idle left => exact quit hi left

/-- What every step of the machine keeps of the world, whatever is asked of it, holds in every
reachable pool. -/
theorem Reachable.always [DecidableEq T] {w₀ : W} {p : Pool T C Q A W α}
    (exec : ∀ {t q w e a w'}, I w → M.exec t q w e = some (a, w') → I w')
    (arrive : ∀ {t c w w'}, I w → M.arrive t c w = some w' → I w')
    (crash : ∀ {x w w'}, I w → M.crash x w = some w' → I w')
    (quit : ∀ {x w w'}, I w → M.quit x w = some w' → I w') (hi : I w₀)
    (h : Reachable M w₀ p) : I p.world := by
  induction h with
  | init => exact hi
  | step _ hs ih => exact hs.always exec arrive crash quit ih

end Always

/-! ## Within a turn -/

/-- The rules of a task that keeps the floor: nobody acts before its questions are answered. -/
def prompt (M : Machine T C Q A W E X α) (t : T) : Rules Q A W where
  asked q _ := M.suspends q = false
  before q w w₁ := M.suspends q = false ∧ w₁ = w
  legal _ _ := True
  answer q w a w' := ∃ e, M.exec t q w e = some (a, w')

/-- In a run from `w₀` task `t` serving `c` has the floor, and `x` to do in the world `w`. -/
inductive HasFloor [DecidableEq T] (M : Machine T C Q A W E X α) (w₀ : W) (t : T) (c : C) :
    Task Q A α → W → Prop
  | turn {p x w} (reached : Reachable M w₀ p) (floor : Turn M p t c x w) : HasFloor M w₀ t c x w
  | answer {q k w a w'} (e : E) (before : HasFloor M w₀ t c (.ask q k) w)
      (keeps : M.suspends q = false) (given : M.exec t q w e = some (a, w')) :
      HasFloor M w₀ t c (k a) w'

/-- A task that keeps the floor goes on where its run leads. -/
theorem HasFloor.runs [DecidableEq T] {w₀ : W} {t : T} {c : C} {β : Type} {x : Task Q A β}
    {k : β → Task Q A α} {w w' : W} {b : β} (h : HasFloor M w₀ t c (x.bind k) w)
    (hx : Task.Runs (M.prompt t) x w b w') : HasFloor M w₀ t c (k b) w' := by
  induction hx with
  | done b w => exact h
  | ask early given _ ih =>
    obtain ⟨e, given⟩ := given
    obtain ⟨keeps, rfl⟩ := early
    exact ih (.answer e h keeps given)

/-- What can be answered until the task is done is a run of it without suspension. -/
theorem runs_of_advance {t : T} {β : Type} : ∀ {x : Task Q A β} {w : W} {es : ℕ → E}
    {b : β} {w' : W}, advance M t x w es = some (.done b, w') → Task.Runs (M.prompt t) x w b w'
  | .done a, w, es, b, w', h => by
      cases h
      exact .done a w
  | .ask q k, w, es, b, w', h => by
      unfold advance at h
      split at h
      · cases h
      · rename_i hs
        obtain ⟨⟨a, w₁⟩, he, h⟩ := Option.bind_eq_some_iff.1 h
        exact .ask ⟨by simpa using hs, rfl⟩ ⟨_, he⟩ (runs_of_advance h)

/-- The rules of a task that keeps the floor and asks its questions in worlds that satisfy `I`. -/
def passing (M : Machine T C Q A W E X α) (I : W → Prop) (t : T) : Rules Q A W where
  asked q w := M.suspends q = false ∧ I w
  before q w w₁ := M.suspends q = false ∧ w₁ = w
  legal _ _ := True
  answer q w a w' := ∃ e, M.exec t q w e = some (a, w')

/-- What a task leaves is seen without the assertion too. -/
theorem wp_prompt {I : W → Prop} {t : T} {β : Type} {P : β → W → Prop} :
    ∀ {x : Task Q A β} {w : W}, x.wp (M.passing I t) P w → x.wp (M.prompt t) P w
  | .done _, _, h => h
  | .ask _ _, _, h => ⟨h.1.1, fun w₁ hb => ⟨trivial, fun a w' ha =>
      wp_prompt ((h.2 w₁ hb).2 a w' ha)⟩⟩

/-- Wherever such a task is interrupted, the world satisfies `I`. -/
theorem interrupted_passing {I : W → Prop} {t : T} {β : Type} :
    ∀ {n : ℕ} {x : Task Q A β} {w : W} {es : ℕ → E} {w' : W},
      x.wp (M.passing I t) (fun _ => I) w → M.interrupted t n x w es = some w' → I w'
  | 0, .done _, _, _, _, hwp, h => by
      cases h
      exact hwp
  | _ + 1, .done _, _, _, _, hwp, h => by
      cases h
      exact hwp
  | 0, .ask q k, w, es, w', hwp, h => by
      cases h
      exact hwp.1.2
  | n + 1, .ask q k, w, es, w', hwp, h => by
      unfold interrupted at h
      rw [if_neg (by simp [hwp.1.1])] at h
      obtain ⟨⟨a, w₁⟩, he, h⟩ := Option.bind_eq_some_iff.1 h
      exact interrupted_passing ((hwp.2 w ⟨hwp.1.1, rfl⟩).2 a w₁ ⟨_, he⟩) h

/-- Whatever a run passes keeps what every step of the machine keeps. -/
theorem HasFloor.always [DecidableEq T] {I : W → Prop} {w₀ : W} {t : T} {c : C} {x : Task Q A α}
    {w : W} (exec : ∀ {t q w e a w'}, I w → M.exec t q w e = some (a, w') → I w')
    (arrive : ∀ {t c w w'}, I w → M.arrive t c w = some w' → I w')
    (crash : ∀ {x w w'}, I w → M.crash x w = some w' → I w')
    (quit : ∀ {x w w'}, I w → M.quit x w = some w' → I w') (hi : I w₀)
    (h : HasFloor M w₀ t c x w) : I w := by
  induction h with
  | turn reached floor => exact floor.always exec arrive (reached.always exec arrive crash quit hi)
  | answer e _ _ given ih => exact exec ih given

end Machine

open Machine

/-- A rely–guarantee proof about the calls of a machine. -/
structure Discipline {T C Q : Type} {A : Q → Type} {W E X α : Type}
    (M : Machine T C Q A W E X α) where
  inv : W → Prop
  /-- What holds besides while no task has the floor. -/
  calm : W → Prop
  /-- What task `t` may rely on between two worlds while others act. -/
  rely : T → W → W → Prop
  /-- Where task `t` may ask a question. -/
  legal : T → (q : Q) → W → Prop
  /-- What a call is proved to end in. -/
  post : T → C → α → W → Prop
  rely_refl : ∀ t w, rely t w w
  rely_trans : ∀ {t w w' w''}, rely t w w' → rely t w' w'' → rely t w w''
  post_calm : ∀ {t c a w}, post t c a w → calm w
  exec_inv : ∀ {t q w e a w'}, inv w → legal t q w → M.exec t q w e = some (a, w') → inv w'
  exec_rely : ∀ {t t' q w e a w'}, t' ≠ t → inv w → legal t q w →
    M.exec t q w e = some (a, w') → rely t' w w'
  arrive_inv : ∀ {t c w w'}, inv w → M.arrive t c w = some w' → inv w'
  arrive_rely : ∀ {t t' c w w'}, t' ≠ t → inv w → M.arrive t c w = some w' → rely t' w w'
  crash_inv : ∀ {x w w'}, inv w → M.crash x w = some w' → inv w'
  crash_calm : ∀ {x w w'}, M.crash x w = some w' → calm w'
  quit_inv : ∀ {x w w'}, inv w → M.quit x w = some w' → inv w'
  quit_calm : ∀ {x w w'}, calm w → M.quit x w = some w' → calm w'

namespace Discipline

variable {T C Q : Type} {A : Q → Type} {W E X α : Type} {M : Machine T C Q A W E X α}
  (D : Discipline M)

/-- The rules under which task `t` runs: while it is suspended the others act as it relies on. -/
def rules (t : T) : Rules Q A W where
  asked q w := M.suspends q = true → D.calm w
  before q w w₁ := if M.suspends q then D.rely t w w₁ ∧ D.inv w₁ ∧ D.calm w₁ else w₁ = w
  legal := D.legal t
  answer q w a w' := (∃ e, M.exec t q w e = some (a, w')) ∧ D.inv w'

/-- The task is suspended, and whatever happens meanwhile it will end well. -/
def Waits (t : T) (c : C) (x : Task Q A α) (w : W) : Prop :=
  ∃ q k, x = .ask q k ∧ M.suspends q = true ∧ x.wp (D.rules t) (D.post t c) w

variable {D}

theorem Waits.rely {t : T} {c : C} {x : Task Q A α} {w w' : W} (h : D.Waits t c x w)
    (hr : D.rely t w w') (hc : D.calm w') : D.Waits t c x w' := by
  obtain ⟨q, k, rfl, hs, -, hwp⟩ := h
  refine ⟨q, k, rfl, hs, fun _ => hc, fun w₁ hb => hwp w₁ ?_⟩
  simp only [rules, hs, if_true] at hb ⊢
  exact ⟨D.rely_trans hr hb.1, hb.2⟩

/-- What a turn of `t` leaves: the invariant, and for the others what they rely on. -/
structure Left (D : Discipline M) (t : T) (w w' : W) : Prop where
  inv : D.inv w'
  rely : ∀ t', t' ≠ t → D.rely t' w w'

theorem Left.refl {t : T} {w : W} (hi : D.inv w) : D.Left t w w :=
  ⟨hi, fun _ _ => D.rely_refl _ _⟩

theorem Left.trans {t : T} {w w' w'' : W} (h : D.Left t w w') (h' : D.Left t w' w'') :
    D.Left t w w'' :=
  ⟨h'.inv, fun t' ht => D.rely_trans (h.rely t' ht) (h'.rely t' ht)⟩

theorem Left.exec {t : T} {q : Q} {w w' : W} {e : E} {a : A q} (hi : D.inv w)
    (hl : D.legal t q w) (he : M.exec t q w e = some (a, w')) : D.Left t w w' :=
  ⟨D.exec_inv hi hl he, fun _ ht => D.exec_rely ht hi hl he⟩

/-- How a turn of `t` ends: the call has its result, or the task waits for an answer. -/
def Ends (D : Discipline M) (t : T) (c : C) (x : Task Q A α) (w : W) : Prop :=
  (∃ a, x = .done a ∧ D.post t c a w) ∨ D.Waits t c x w

/-- The world is calm when a turn has ended. -/
theorem Ends.calm {t : T} {c : C} {x : Task Q A α} {w : W} (h : D.Ends t c x w) : D.calm w := by
  rcases h with ⟨a, -, hpost⟩ | ⟨q, k, rfl, hs, hasked, -⟩
  · exact D.post_calm hpost
  · exact hasked hs

/-- A turn that the task's weakest precondition covers ends suspended or with the call's result. -/
theorem advance_left {t : T} {c : C} : ∀ {x : Task Q A α} {w : W} {es : ℕ → E} {x' w'},
    D.inv w → x.wp (D.rules t) (D.post t c) w → M.advance t x w es = some (x', w') →
    D.Left t w w' ∧ D.Ends t c x' w'
  | .done a, w, es, x', w', hi, hwp, h => by
      simp only [advance, Option.some.injEq, Prod.mk.injEq] at h
      obtain ⟨rfl, rfl⟩ := h
      exact ⟨Left.refl hi, .inl ⟨a, rfl, hwp⟩⟩
  | .ask q k, w, es, x', w', hi, hwp, h => by
      unfold advance at h
      split at h
      · rename_i hs
        simp only [Option.some.injEq, Prod.mk.injEq] at h
        obtain ⟨rfl, rfl⟩ := h
        exact ⟨Left.refl hi, .inr ⟨q, k, rfl, hs, hwp⟩⟩
      · rename_i hs
        obtain ⟨⟨a, w₁⟩, he, h⟩ := Option.bind_eq_some_iff.1 h
        obtain ⟨hl, hk⟩ := hwp.2 w (by simp [rules, hs])
        have left := Left.exec hi hl he
        obtain ⟨rest, hend⟩ := advance_left left.inv (hk a w₁ ⟨⟨_, he⟩, left.inv⟩) h
        exact ⟨left.trans rest, hend⟩

/-- Wherever a turn is interrupted, the invariant holds. -/
theorem interrupted_inv {t : T} {β : Type} {P : β → W → Prop} :
    ∀ {n : ℕ} {x : Task Q A β} {w : W} {es : ℕ → E} {w'},
    D.inv w → x.wp (D.rules t) P w → M.interrupted t n x w es = some w' → D.inv w'
  | 0, _, w, _, w', hi, _, h => by
      cases h
      exact hi
  | _ + 1, .done _, w, _, w', hi, _, h => by
      cases h
      exact hi
  | n + 1, .ask q k, w, es, w', hi, hwp, h => by
      unfold interrupted at h
      split at h
      · cases h
        exact hi
      · rename_i hs
        obtain ⟨⟨a, w₁⟩, he, h⟩ := Option.bind_eq_some_iff.1 h
        obtain ⟨hl, hk⟩ := hwp.2 w (by simp [rules, hs])
        have hi₁ := D.exec_inv hi hl he
        exact interrupted_inv hi₁ (hk a w₁ ⟨⟨_, he⟩, hi₁⟩) h

/-- What holds of every reachable pool. -/
structure Good (D : Discipline M) (p : Pool T C Q A W α) : Prop where
  inv : D.inv p.world
  calm : D.calm p.world
  waits : ∀ t c x, (t, c, x) ∈ p.live → D.Waits t c x p.world

/-- The calls of the machine obey the discipline from the moment they are let in. -/
def Starts (D : Discipline M) : Prop :=
  ∀ t c w w', D.inv w → D.calm w → M.arrive t c w = some w' →
    (M.program c).wp (D.rules t) (D.post t c) w'

/-- A task with the floor is covered by its weakest precondition. -/
theorem Good.turn {p : Pool T C Q A W α} (hp : D.Good p) (start : D.Starts) {t : T} {c : C}
    {x : Task Q A α} {w : W} (h : Turn M p t c x w) :
    D.Left t p.world w ∧ x.wp (D.rules t) (D.post t c) w := by
  cases h with
  | first fresh arrived =>
    exact ⟨⟨D.arrive_inv hp.inv arrived, fun _ ht => D.arrive_rely ht hp.inv arrived⟩,
      start _ _ _ _ hp.inv hp.calm arrived⟩
  | next e waiting given =>
    obtain ⟨q, k, hx, -, -, hwp⟩ := hp.waits _ _ _ waiting
    obtain ⟨hl, hk⟩ := hwp p.world (by simp [rules, D.rely_refl, hp.inv, hp.calm])
    have left := Left.exec hp.inv hl given
    exact ⟨left, hk _ _ ⟨⟨e, given⟩, left.inv⟩⟩

section Adequacy

variable [DecidableEq T] {w₀ : W}

theorem mem_yield_live {p : Pool T C Q A W α} {t t' : T} {c c' : C} {x x' : Task Q A α} {w : W}
    (h : (t', c', x') ∈ (p.yield t c x w).live) :
    (t' = t ∧ c' = c ∧ x' = x) ∨ (t' ≠ t ∧ (t', c', x') ∈ p.live) := by
  cases x with
  | done a =>
    simp only [Pool.yield, List.mem_filter, decide_eq_true_eq, ne_eq] at h
    exact .inr ⟨h.2, h.1⟩
  | ask q k =>
    simp only [Pool.yield, List.mem_cons, Prod.mk.injEq, List.mem_filter, decide_eq_true_eq,
      ne_eq] at h
    rcases h with h | h
    · exact .inl h
    · exact .inr ⟨h.2, h.1⟩

/-- A turn leaves a good pool, and its task as `Ends` says. -/
theorem Good.turn_step (start : D.Starts) {p : Pool T C Q A W α} (hp : D.Good p) {t : T} {c : C}
    {x x' : Task Q A α} {w w' : W} {es : ℕ → E} (floor : Turn M p t c x w)
    (ran : M.advance t x w es = some (x', w')) :
    D.Good (p.yield t c x' w') ∧ D.Ends t c x' w' := by
  obtain ⟨left₀, hwp⟩ := hp.turn start floor
  obtain ⟨left₁, hend⟩ := advance_left left₀.inv hwp ran
  have left := left₀.trans left₁
  refine ⟨⟨left.inv, hend.calm, ?_⟩, hend⟩
  intro t' c' y hy
  rcases mem_yield_live hy with ⟨rfl, rfl, rfl⟩ | ⟨ht, hy⟩
  · rcases hend with ⟨a, rfl, -⟩ | hw
    · simp [Pool.yield] at hy
    · exact hw
  · exact (hp.waits _ _ _ hy).rely (left.rely _ ht) hend.calm

theorem Good.step (start : D.Starts) {p p' : Pool T C Q A W α} (hp : D.Good p)
    (h : Step M p p') : D.Good p' := by
  cases h with
  | turn es floor ran => exact (hp.turn_step start floor ran).1
  | crash x lost => exact ⟨D.crash_inv hp.inv lost, D.crash_calm lost, by simp⟩
  | crashIn es n x floor ran lost =>
    obtain ⟨left, hwp⟩ := hp.turn start floor
    have hi := interrupted_inv left.inv hwp ran
    exact ⟨D.crash_inv hi lost, D.crash_calm lost, by simp⟩
  | quit x idle left => exact ⟨D.quit_inv hp.inv left, D.quit_calm hp.calm left, by simp [idle]⟩

/-- **Adequacy.** Calls that obey the discipline keep its invariant in every reachable pool, and
every suspended task will end well. -/
theorem reachable (start : D.Starts) (hi : D.inv w₀) (hc : D.calm w₀)
    {p : Pool T C Q A W α} (h : Reachable M w₀ p) : D.Good p := by
  induction h with
  | init => exact ⟨hi, hc, by simp⟩
  | step _ hs ih => exact ih.step start hs

/-- A task with the floor is covered by its weakest precondition, wherever it stands in its turn. -/
theorem hasFloor (start : D.Starts) (hi : D.inv w₀) (hc : D.calm w₀) {t : T} {c : C}
    {x : Task Q A α} {w : W} (h : HasFloor M w₀ t c x w) :
    D.inv w ∧ x.wp (D.rules t) (D.post t c) w := by
  induction h with
  | turn reached floor =>
    obtain ⟨left, hwp⟩ := (D.reachable start hi hc reached).turn start floor
    exact ⟨left.inv, hwp⟩
  | @answer q k w a w' e before keeps given ih =>
    obtain ⟨hi, -, hwp⟩ := ih
    obtain ⟨hl, hk⟩ := hwp w (by simp [rules, keeps])
    have hi' := D.exec_inv hi hl given
    exact ⟨hi', hk a w' ⟨⟨e, given⟩, hi'⟩⟩

/-- A step that ends a call ends it as the discipline says. -/
theorem Good.ends (start : D.Starts) {p p' : Pool T C Q A W α} (hp : D.Good p)
    (h : Step M p p') {t : T} {c : C} {a : α} (ended : (t, c, a) ∈ p'.ended)
    (before : (t, c, a) ∉ p.ended) : D.post t c a p'.world := by
  cases h with
  | @turn t₁ c₁ x w x' w' es floor ran =>
    obtain ⟨-, hend⟩ := hp.turn_step start floor ran
    rcases hend with ⟨a₁, rfl, hpost⟩ | ⟨q, k, rfl, -⟩
    · rcases List.mem_cons.1 ended with h | h
      · cases h
        exact hpost
      · exact absurd h before
    · exact absurd ended before
  | crash x lost => exact absurd ended before
  | crashIn es n x floor ran lost => exact absurd ended before
  | quit x idle left => exact absurd ended before

end Adequacy

end Discipline

end Async
