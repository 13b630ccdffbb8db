import CodemcpBridge.Async.Rules
import Mathlib.Data.List.Forall2

/-!
# Programs under a stream of answers

A program that runs alone is answered by one choice of its surroundings after another.  `run` is
what it ends with and what is left of the stream, `asked` the questions it asked, each with the
choice that answered it.

A program *exposes* the wild ones among the answers it may be given when such an answer ends it at
once with an exception outside a set `C`, and nothing else does.  Whether it ends so can then be
read off what was asked.
-/

namespace Async

namespace Task

variable {Q : Type} {A : Q → Type} {E α β : Type} (f : (q : Q) → E → A q)

/-- The value of a task and the choices it has left over. -/
def run : Task Q A α → (ℕ → E) → α × (ℕ → E)
  | done a, es => (a, es)
  | ask q k, es => run (k (f q (es 0))) fun n => es (n + 1)

/-- The questions of a task, with the choices that answered them. -/
def asked : Task Q A α → (ℕ → E) → List (Q × E)
  | done _, _ => []
  | ask q k, es => (q, es 0) :: asked (k (f q (es 0))) fun n => es (n + 1)

theorem run_bind (x : Task Q A α) (g : α → Task Q A β) (es : ℕ → E) :
    (x.bind g).run f es = (g (x.run f es).1).run f (x.run f es).2 := by
  induction x generalizing es with
  | done _ => rfl
  | ask q k ih => exact ih _ _

theorem asked_bind (x : Task Q A α) (g : α → Task Q A β) (es : ℕ → E) :
    (x.bind g).asked f es = x.asked f es ++ (g (x.run f es).1).asked f (x.run f es).2 := by
  induction x generalizing es with
  | done _ => rfl
  | ask q k ih => exact congrArg (List.cons _) (ih _ _)

/-- Under one choice for ever, what is left over is that choice for ever. -/
theorem run_const (x : Task Q A α) (e : E) : (x.run f fun _ => e).2 = fun _ => e := by
  induction x with
  | done _ => rfl
  | ask q k ih => exact ih _

end Task

namespace Prog

variable {Q : Type} {R : Q → Type} {E Z α β : Type}

/-- Run `f` on the members of a list in turn. -/
def collect (f : α → Prog Q R E β) : List α → Prog Q R E (List β)
  | [] => ret []
  | a :: l => do
    let b ← f a
    let bs ← collect f l
    pure (b :: bs)

section Run

variable (f : (q : Q) → Z → Except E (R q))

def run (x : Prog Q R E α) (es : ℕ → Z) : Except E α × (ℕ → Z) := x.task.run f es

def asked (x : Prog Q R E α) (es : ℕ → Z) : List (Q × Z) := x.task.asked f es

theorem run_ask (q : Q) (es : ℕ → Z) :
    (ask q : Prog Q R E (R q)).run f es = (f q (es 0), fun n => es (n + 1)) := rfl

theorem run_andThen (x : Prog Q R E α) (g : Except E α → Prog Q R E β) (es : ℕ → Z) :
    (x.andThen g).run f es = (g (x.run f es).1).run f (x.run f es).2 :=
  Task.run_bind f x g es

theorem asked_andThen (x : Prog Q R E α) (g : Except E α → Prog Q R E β) (es : ℕ → Z) :
    (x.andThen g).asked f es = x.asked f es ++ (g (x.run f es).1).asked f (x.run f es).2 :=
  Task.asked_bind f x g es

/-- A program in sequence that ends with a value has had one from its first part. -/
theorem run_bind_eq_ok {x : Prog Q R E α} {g : α → Prog Q R E β} {es rest : ℕ → Z} {b : β}
    (h : (x >>= g).run f es = (.ok b, rest)) : ∃ a es', x.run f es = (.ok a, es') ∧
      (g a).run f es' = (.ok b, rest) ∧
      (x >>= g).asked f es = x.asked f es ++ (g a).asked f es' := by
  have hrun := (run_andThen f x _ es).symm.trans h
  have hasked : (x >>= g).asked f es = _ := asked_andThen f x _ es
  rcases hx : x.run f es with ⟨r, es'⟩
  rw [hx] at hrun hasked
  cases r with
  | ok a => exact ⟨a, es', rfl, hrun, hasked⟩
  | error e => cases hrun

theorem run_const (x : Prog Q R E α) (z : Z) : (x.run f fun _ => z).2 = fun _ => z :=
  Task.run_const f x z

end Run

/-! ## One answer for ever -/

section Under

variable (f : (q : Q) → Z → Except E (R q)) (z : Z)

/-- What a program ends with under one choice for ever. -/
def under (x : Prog Q R E α) : Except E α := (x.run f fun _ => z).1

theorem under_andThen (x : Prog Q R E α) (g : Except E α → Prog Q R E β) :
    (x.andThen g).under f z = (g (x.under f z)).under f z := by
  unfold under
  rw [run_andThen, run_const]

@[simp] theorem under_pure (a : α) : (pure a : Prog Q R E α).under f z = .ok a := rfl

@[simp] theorem under_raise (e : E) : (raise e : Prog Q R E α).under f z = .error e := rfl

@[simp] theorem under_ask (q : Q) : (ask q : Prog Q R E (R q)).under f z = f q z := rfl

@[simp] theorem under_bind (x : Prog Q R E α) (g : α → Prog Q R E β) :
    (x >>= g).under f z = match x.under f z with
      | .ok a => (g a).under f z
      | .error e => .error e := by
  refine (under_andThen f z x _).trans ?_
  cases x.under f z <;> rfl

@[simp] theorem under_attempt (x : Prog Q R E α) : x.attempt.under f z = .ok (x.under f z) :=
  under_andThen f z x _

theorem under_handle (x : Prog Q R E α) (h : E → Option (Prog Q R E α)) :
    (x.handle h).under f z = match x.under f z with
      | .ok a => .ok a
      | .error e => ((h e).getD (raise e)).under f z := by
  refine (under_andThen f z x _).trans ?_
  cases x.under f z <;> rfl

end Under

/-! ## Results -/

section Yields

variable (may : (q : Q) → Except E (R q) → Prop) (P : α → Prop)

/-- Whatever the answers that it may be given, a value that the program ends with is in `P`. -/
def Yields : Prog Q R E α → Prop
  | Task.done (.ok a) => P a
  | Task.done (.error _) => True
  | Task.ask q k => ∀ a, may q a → Yields (k a)

variable {may P}

theorem yields_pure {a : α} (h : P a) : (pure a : Prog Q R E α).Yields may P := h

theorem yields_raise (e : E) : (raise e : Prog Q R E α).Yields may P := trivial

theorem yields_ask {q : Q} {O : R q → Prop} (h : ∀ a, may q (.ok a) → O a) :
    (ask q : Prog Q R E (R q)).Yields may O := by
  intro a ha
  cases a with
  | ok a => exact h a ha
  | error e => trivial

theorem yields_true (x : Prog Q R E α) : x.Yields may fun _ => True := by
  induction x with
  | done r => cases r <;> trivial
  | ask q k ih => exact fun a _ => ih a

theorem Yields.mono {P' : α → Prop} {x : Prog Q R E α} (h : x.Yields may P)
    (hP : ∀ a, P a → P' a) : x.Yields may P' := by
  induction x with
  | done r =>
    cases r with
    | ok a => exact hP a h
    | error e => trivial
  | ask q k ih => exact fun a ha => ih a (h a ha)

theorem yields_bind {O : β → Prop} {x : Prog Q R E β} {g : β → Prog Q R E α}
    (hx : x.Yields may O) (hg : ∀ b, O b → (g b).Yields may P) : (x >>= g).Yields may P := by
  induction x with
  | done r =>
    cases r with
    | ok b => exact hg b hx
    | error e => trivial
  | ask q k ih => exact fun a ha => ih a (hx a ha)

theorem yields_ite {c : Prop} [Decidable c] {x y : Prog Q R E α} (hx : c → x.Yields may P)
    (hy : ¬c → y.Yields may P) : (if c then x else y).Yields may P := by
  by_cases h : c
  · rw [if_pos h]
    exact hx h
  · rw [if_neg h]
    exact hy h

theorem yields_handle {x : Prog Q R E α} {h : E → Option (Prog Q R E α)}
    (hx : x.Yields may P) (hh : ∀ e y, h e = some y → y.Yields may P) :
    (x.handle h).Yields may P := by
  induction x with
  | done r =>
    cases r with
    | ok a => exact hx
    | error e =>
      change ((h e).getD (raise e)).Yields may P
      cases he : h e with
      | none => trivial
      | some y => exact hh e y he
  | ask q k ih => exact fun a ha => ih a (hx a ha)

/-- The results of a function on the members of a list, each in what its member allows. -/
theorem yields_collect {O : β → α → Prop} {g : β → Prog Q R E α}
    (hg : ∀ b, (g b).Yields may (O b)) :
    ∀ l : List β, (collect g l).Yields may fun as => List.Forall₂ O l as
  | [] => yields_pure .nil
  | b :: l => yields_bind (hg b) fun _ ha =>
      yields_bind (yields_collect hg l) fun _ has => yields_pure (.cons ha has)

/-- Every result is that of a member. -/
theorem exists_of_results {O : β → α → Prop} {l : List β} {as : List α}
    (h : List.Forall₂ O l as) : ∀ a ∈ as, ∃ b ∈ l, O b a := by
  induction h with
  | nil => simp
  | cons hab _ ih =>
    intro a ha
    rcases List.mem_cons.1 ha with rfl | ha
    · exact ⟨_, List.mem_cons_self, hab⟩
    · obtain ⟨b, hb, hO⟩ := ih a ha
      exact ⟨b, List.mem_cons_of_mem _ hb, hO⟩

/-- What a program yields whatever it is answered, it yields in every run under rules. -/
theorem Yields.wp {W : Type} {S : Rules Q (fun q => Except E (R q)) W} {T : Except E α → W → Prop}
    {x : Prog Q R E α} {w : W} (h : x.Yields (fun _ _ => True) P) (hx : x.wp S T w) :
    x.wp S (fun r w' => T r w' ∧ ∀ a, r = .ok a → P a) w := by
  induction x generalizing w with
  | done r =>
    refine ⟨hx, ?_⟩
    rintro a rfl
    exact h
  | ask q k ih =>
    exact ⟨hx.1, fun w₁ hb => ⟨(hx.2 w₁ hb).1, fun a w' ha =>
      ih a (h a trivial) ((hx.2 w₁ hb).2 a w' ha)⟩⟩

/-- What is yielded after whatever a task ends with. -/
theorem yields_after {y : Async.Task Q (fun q => Except E (R q)) β} {g : β → Prog Q R E α}
    (hg : ∀ b, (g b).Yields may P) : Yields may P (y.bind g) := by
  induction y with
  | done b => exact hg b
  | ask q k ih => exact fun a _ => ih a

theorem yields_andThen {O : β → Prop} {x : Prog Q R E β} {g : Except E β → Prog Q R E α}
    (hx : x.Yields may O) (hok : ∀ b, O b → (g (.ok b)).Yields may P)
    (herror : ∀ e, (g (.error e)).Yields may P) : (x.andThen g).Yields may P := by
  induction x with
  | done r =>
    cases r with
    | ok b => exact hok b hx
    | error e => exact herror e
  | ask q k ih => exact fun a ha => ih a (hx a ha)

theorem Yields.ensuring {x : Prog Q R E α} {y : Prog Q R E Unit} (hx : x.Yields may P) :
    (x.ensuring y).Yields may P := by
  refine yields_andThen hx (fun b hb => ?_) fun e => ?_
  · exact yields_andThen (yields_true y) (fun _ _ => hb) fun e => yields_raise e
  · exact yields_andThen (yields_true y) (fun _ _ => yields_raise e) fun e => yields_raise e

/-- Programs that carry the questions out change nothing of what is yielded. -/
theorem Yields.via {Q' : Type} {R' : Q' → Type} {f : (q : Q) → Prog Q' R' E (R q)}
    {x : Prog Q R E α} (h : x.Yields (fun _ _ => True) P) :
    (x.via f).Yields (fun _ _ => True) P := by
  induction x with
  | done r => cases r with
    | ok a => exact h
    | error e => trivial
  | ask q k ih => exact yields_after fun a => ih a (h a trivial)

theorem Yields.run {x : Prog Q R E α} (h : x.Yields may P) {f : (q : Q) → Z → Except E (R q)}
    {es : ℕ → Z} (hf : ∀ q n, may q (f q (es n))) {a : α} (hr : (x.run f es).1 = .ok a) : P a := by
  induction x generalizing es with
  | done r =>
    cases hr
    exact h
  | ask q k ih => exact ih _ (h _ (hf q 0)) (fun q n => hf q (n + 1)) hr

end Yields

/-! ## Exposed answers -/

variable (may wild : (q : Q) → Except E (R q) → Prop) (C : E → Prop)

/-- A wild answer ends the program with an exception outside `C`, and nothing else does. -/
def Exposes : Prog Q R E α → Prop
  | Task.done (.ok _) => True
  | Task.done (.error e) => C e
  | Task.ask q k => ∀ a, may q a →
      (wild q a → ∃ e, k a = raise e ∧ ¬C e) ∧ (¬wild q a → Exposes (k a))

variable {may wild C}

theorem exposes_ret (a : α) : (ret a : Prog Q R E α).Exposes may wild C := trivial

theorem exposes_pure (a : α) : (pure a : Prog Q R E α).Exposes may wild C := trivial

theorem exposes_raise {e : E} (h : C e) : (raise e : Prog Q R E α).Exposes may wild C := h

/-- A question whose exceptions are met by a handler, or are wild and pass. -/
theorem exposes_handle {q : Q} {h : E → Option (Prog Q R E (R q))}
    (hok : ∀ b, ¬wild q (.ok b))
    (hmet : ∀ e x, may q (.error e) → h e = some x → ¬wild q (.error e) ∧ x.Exposes may wild C)
    (hpass : ∀ e, may q (.error e) → h e = none → wild q (.error e) ∧ ¬C e) :
    ((ask q).handle h : Prog Q R E (R q)).Exposes may wild C := by
  intro a ha
  cases a with
  | ok b => exact ⟨fun hw => absurd hw (hok b), fun _ => trivial⟩
  | error e =>
    cases hx : h e with
    | some x =>
      obtain ⟨hw, he⟩ := hmet e x ha hx
      refine ⟨fun hw' => absurd hw' hw, fun _ => ?_⟩
      simpa only [Task.bind, hx, Option.getD_some] using he
    | none =>
      obtain ⟨hw, hc⟩ := hpass e ha hx
      refine ⟨fun _ => ⟨e, ?_, hc⟩, fun hw' => absurd hw hw'⟩
      simp only [Task.bind, hx]
      rfl

/-- A question all of whose exceptions are wild and pass. -/
theorem exposes_ask {q : Q} (hok : ∀ b, ¬wild q (.ok b))
    (hpass : ∀ e, may q (.error e) → wild q (.error e) ∧ ¬C e) :
    (ask q : Prog Q R E (R q)).Exposes may wild C := by
  intro a ha
  cases a with
  | ok b => exact ⟨fun hw => absurd hw (hok b), fun _ => trivial⟩
  | error e =>
    obtain ⟨hw, hc⟩ := hpass e ha
    exact ⟨fun _ => ⟨e, rfl, hc⟩, fun hw' => absurd hw hw'⟩

/-- Programs in sequence: what leaves the first outside `C` has to leave the second. -/
theorem Exposes.andThen {D : E → Prop} {x : Prog Q R E α} {g : Except E α → Prog Q R E β}
    (hx : x.Exposes may wild C) (hok : ∀ a, (g (.ok a)).Exposes may wild D)
    (hcaught : ∀ e, C e → (g (.error e)).Exposes may wild D)
    (hpassed : ∀ e, ¬C e → ∃ e', g (.error e) = raise e' ∧ ¬D e') :
    (x.andThen g).Exposes may wild D := by
  induction x with
  | done r =>
    cases r with
    | ok a => exact hok a
    | error e => exact hcaught e hx
  | ask q k ih =>
    intro a ha
    constructor
    · intro hw
      obtain ⟨e, hk, he⟩ := (hx a ha).1 hw
      obtain ⟨e', hg, he'⟩ := hpassed e he
      refine ⟨e', ?_, he'⟩
      exact (congrArg (Prog.andThen · g) hk).trans hg
    · intro hw
      exact ih a ((hx a ha).2 hw)

/-- Programs in sequence, with what is known of the value between them. -/
theorem Exposes.bind_of {P : α → Prop} {x : Prog Q R E α} {g : α → Prog Q R E β}
    (hx : x.Exposes may wild C) (hy : x.Yields may P) (hg : ∀ a, P a → (g a).Exposes may wild C) :
    (x >>= g).Exposes may wild C := by
  induction x with
  | done r =>
    cases r with
    | ok a => exact hg a hy
    | error e => exact hx
  | ask q k ih =>
    intro a ha
    constructor
    · intro hw
      obtain ⟨e, hk, he⟩ := (hx a ha).1 hw
      exact ⟨e, congrArg (fun y : Prog Q R E α => y >>= g) hk, he⟩
    · intro hw
      exact ih a ((hx a ha).2 hw) (hy a ha)

theorem Exposes.bind {x : Prog Q R E α} {g : α → Prog Q R E β} (hx : x.Exposes may wild C)
    (hg : ∀ a, (g a).Exposes may wild C) : (x >>= g).Exposes may wild C :=
  hx.andThen hg (fun _ he => he) fun e he => ⟨e, rfl, he⟩

theorem exposes_collect {g : α → Prog Q R E β} (hg : ∀ a, (g a).Exposes may wild C) :
    ∀ l : List α, (collect g l).Exposes may wild C
  | [] => exposes_ret _
  | a :: l => (hg a).bind fun _ => (exposes_collect hg l).bind fun _ => exposes_pure _

/-- A program that exposes an answer ends outside `C` if and only if it has met one. -/
theorem Exposes.iff {x : Prog Q R E α} (h : x.Exposes may wild C)
    {f : (q : Q) → Z → Except E (R q)} (hf : ∀ q z, may q (f q z)) (es : ℕ → Z) :
    (∃ e, (x.run f es).1 = .error e ∧ ¬C e) ↔ ∃ s ∈ x.asked f es, wild s.1 (f s.1 s.2) := by
  induction x generalizing es with
  | done r =>
    cases r with
    | ok a => simp [run, asked, task, Task.run, Task.asked]
    | error e =>
      have he : C e := h
      simpa [run, asked, task, Task.run, Task.asked] using he
  | ask q k ih =>
    by_cases hw : wild q (f q (es 0))
    · obtain ⟨e, hk, he⟩ := (h (f q (es 0)) (hf _ _)).1 hw
      refine iff_of_true ⟨e, ?_, he⟩ ⟨_, List.mem_cons_self, hw⟩
      exact congrArg (fun x : Prog Q R E α => (x.run f fun n => es (n + 1)).1) hk
    · refine (ih _ ((h _ (hf _ _)).2 hw) fun n => es (n + 1)).trans ?_
      simp only [asked, task, Task.asked, List.mem_cons, exists_eq_or_imp, hw, false_or]

end Prog

end Async
