import CodemcpBridge.Async.Rules
import Mathlib.Data.Nat.Notation

/-!
# What a task may ask, and where its runs lead

`Task.Asks P` says of the text of a task alone that every question of it satisfies `P`; what those
questions keep, the task keeps.  `Task.Leads` is a run that need not be complete, and `Task.follow`
computes one from an oracle that gives every question a possible answer.
-/

namespace Async

variable {Q : Type} {A : Q → Type} {W α β : Type}

namespace Task

/-- Every question that the task may come to ask satisfies `P`. -/
def Asks (P : Q → Prop) : Task Q A α → Prop
  | done _ => True
  | ask q k => P q ∧ ∀ a, (k a).Asks P

theorem Asks.bind {P : Q → Prop} {x : Task Q A α} {f : α → Task Q A β} (hx : x.Asks P)
    (hf : ∀ a, (f a).Asks P) : (x.bind f).Asks P := by
  induction x with
  | done a => exact hf a
  | ask q k ih => exact ⟨hx.1, fun a => ih a (hx.2 a)⟩

/-- What the tasks ask that carry the questions of another task out. -/
theorem Asks.via {Q' : Type} {A' : Q' → Type} {P : Q → Prop} {P' : Q' → Prop}
    {f : (q : Q) → Task Q' A' (A q)} (hf : ∀ q, P q → (f q).Asks P') {x : Task Q A α}
    (hx : x.Asks P) : (x.via f).Asks P' := by
  induction x with
  | done a => trivial
  | ask q k ih => exact (hf q hx.1).bind fun a => ih a (hx.2 a)

theorem Asks.mono {P P' : Q → Prop} (h : ∀ q, P q → P' q) {x : Task Q A α} (hx : x.Asks P) :
    x.Asks P' := by
  induction x with
  | done _ => trivial
  | ask q k ih => exact ⟨h q hx.1, fun a => ih a (hx.2 a)⟩

/-- What the questions of a task keep, the task keeps. -/
theorem Asks.wp {P : Q → Prop} {S : Rules Q A W} {J : W → Prop}
    (asked : ∀ {q w}, P q → J w → S.asked q w)
    (step : ∀ {q w w₁}, P q → J w → S.before q w w₁ →
      S.legal q w₁ ∧ ∀ a w', S.answer q w₁ a w' → J w') :
    ∀ {x : Task Q A α} {w : W}, x.Asks P → J w → x.wp S (fun _ => J) w
  | done _, _, _, hw => hw
  | ask _ _, _, hx, hw => ⟨asked hx.1 hw, fun _ hb => ⟨(step hx.1 hw hb).1, fun a w' ha =>
      Asks.wp asked step (hx.2 a) ((step hx.1 hw hb).2 a w' ha)⟩⟩

/-! ## Incomplete runs -/

/-- A run of a task from a world to what is left of it in another. -/
inductive Leads (S : Rules Q A W) : Task Q A α → W → Task Q A α → W → Prop
  | here (x : Task Q A α) (w : W) : Leads S x w x w
  | ask {q k w w₁ a w' x w''} (early : S.before q w w₁) (given : S.answer q w₁ a w')
      (rest : Leads S (k a) w' x w'') : Leads S (ask q k) w x w''

/-- Wherever a run has led, what is left is covered by the weakest precondition. -/
theorem Leads.wp {S : Rules Q A W} {P : α → W → Prop} {x x' : Task Q A α} {w w' : W}
    (h : Leads S x w x' w') (hx : x.wp S P w) : x'.wp S P w' := by
  induction h with
  | here x w => exact hx
  | ask early given _ ih => exact ih ((hx.2 _ early).2 _ _ given)

/-- Answer `n` questions as an oracle says. -/
def follow (o : (q : Q) → W → A q × W) : ℕ → Task Q A α → W → Task Q A α × W
  | n + 1, ask q k, w => follow o n (k (o q w).1) (o q w).2
  | _, x, w => (x, w)

/-- An oracle whose answers are possible leads along a run. -/
theorem leads_follow {S : Rules Q A W} {o : (q : Q) → W → A q × W}
    (ho : ∀ q w, ∃ w₁, S.before q w w₁ ∧ S.answer q w₁ (o q w).1 (o q w).2) :
    ∀ (n : ℕ) (x : Task Q A α) (w : W), Leads S x w (follow o n x w).1 (follow o n x w).2
  | 0, x, w => by cases x <;> exact .here _ w
  | n + 1, done a, w => .here _ w
  | n + 1, ask q k, w => by
      obtain ⟨w₁, early, given⟩ := ho q w
      exact .ask early given (leads_follow ho n _ _)

/-- The same where the answers are possible in the worlds that they lead to. -/
theorem leads_follow_of {S : Rules Q A W} {o : (q : Q) → W → A q × W} {J : W → Prop}
    (ho : ∀ q w, J w → (∃ w₁, S.before q w w₁ ∧ S.answer q w₁ (o q w).1 (o q w).2) ∧ J (o q w).2) :
    ∀ (n : ℕ) (x : Task Q A α) (w : W), J w →
      Leads S x w (follow o n x w).1 (follow o n x w).2 ∧ J (follow o n x w).2
  | 0, x, w, hw => by cases x <;> exact ⟨.here _ w, hw⟩
  | n + 1, done a, w, hw => ⟨.here _ w, hw⟩
  | n + 1, ask q k, w, hw => by
      obtain ⟨⟨w₁, early, given⟩, hj⟩ := ho q w hw
      obtain ⟨rest, hend⟩ := leads_follow_of ho n (k (o q w).1) (o q w).2 hj
      exact ⟨.ask early given rest, hend⟩

/-- The question that the task asks next. -/
def asking? : Task Q A α → Option Q
  | done _ => none
  | ask q _ => some q

theorem legal_of_asking {S : Rules Q A W} {P : α → W → Prop} {x : Task Q A α} {q : Q} {w w₁ : W}
    (hx : x.wp S P w) (hq : x.asking? = some q) (hb : S.before q w w₁) : S.legal q w₁ := by
  cases x with
  | done a => cases hq
  | ask q' k =>
    cases hq
    exact (hx.2 w₁ hb).1

end Task

namespace Prog

variable {R : Q → Type} {E : Type} {P : Q → Prop}

/-- Every question that the program may come to ask satisfies `P`. -/
structure Asks (P : Q → Prop) (x : Prog Q R E α) : Prop where
  task : x.task.Asks P

theorem asks_pure (a : α) : (pure a : Prog Q R E α).Asks P := ⟨trivial⟩

theorem asks_raise (e : E) : (raise e : Prog Q R E α).Asks P := ⟨trivial⟩

theorem asks_lift (r : Except E α) : (lift r : Prog Q R E α).Asks P := ⟨trivial⟩

theorem asks_ask {q : Q} (h : P q) : (ask q : Prog Q R E (R q)).Asks P := ⟨h, fun _ => trivial⟩

theorem Asks.andThen {x : Prog Q R E α} {f : Except E α → Prog Q R E β} (hx : x.Asks P)
    (hf : ∀ r, (f r).Asks P) : (x.andThen f).Asks P :=
  ⟨Task.Asks.bind hx.task fun r => (hf r).task⟩

theorem Asks.bind {x : Prog Q R E α} {f : α → Prog Q R E β} (hx : x.Asks P)
    (hf : ∀ a, (f a).Asks P) : (x >>= f).Asks P :=
  Asks.andThen hx fun
    | .ok a => hf a
    | .error e => asks_raise e

theorem Asks.map {f : α → β} {x : Prog Q R E α} (hx : x.Asks P) : (f <$> x).Asks P :=
  Asks.andThen hx fun
    | .ok a => asks_pure (f a)
    | .error e => asks_raise e

theorem Asks.attempt {x : Prog Q R E α} (hx : x.Asks P) : x.attempt.Asks P :=
  Asks.andThen hx fun r => asks_pure r

theorem Asks.handle {x : Prog Q R E α} {h : E → Option (Prog Q R E α)} (hx : x.Asks P)
    (hh : ∀ e y, h e = some y → y.Asks P) : (x.handle h).Asks P :=
  Asks.andThen hx fun
    | .ok a => asks_pure a
    | .error e => by
      cases he : h e with
      | none => simpa [he] using asks_raise e
      | some y => simpa [he] using hh e y he

theorem asks_ite {c : Prop} [Decidable c] {x y : Prog Q R E α} (hx : x.Asks P) (hy : y.Asks P) :
    (if c then x else y).Asks P := by
  by_cases h : c
  · rwa [if_pos h]
  · rwa [if_neg h]

theorem Asks.ensuring {x : Prog Q R E α} {y : Prog Q R E Unit} (hx : x.Asks P) (hy : y.Asks P) :
    (x.ensuring y).Asks P :=
  Asks.andThen hx fun _ => Asks.andThen hy fun
    | .ok _ => ⟨trivial⟩
    | .error e => asks_raise e

theorem Asks.via {Q' : Type} {R' : Q' → Type} {P' : Q' → Prop} {f : (q : Q) → Prog Q' R' E (R q)}
    (hf : ∀ q, P q → (f q).Asks P') {x : Prog Q R E α} (hx : x.Asks P) : (x.via f).Asks P' :=
  ⟨hx.task.via fun q hq => (hf q hq).task⟩

theorem Asks.mono {P' : Q → Prop} (h : ∀ q, P q → P' q) {x : Prog Q R E α} (hx : x.Asks P) :
    x.Asks P' :=
  ⟨hx.task.mono h⟩

/-- Wherever a run of a program has led, the value that it still may return says what it must. -/
theorem wpOk_leads {S : Rules Q (fun q => Except E (R q)) W} {T : α → W → Prop} {x : Prog Q R E α}
    {w w' : W} {rest : Task Q (fun q => Except E (R q)) (Except E α)} (hx : x.wpOk S T w)
    (h : Task.Leads S x.task w rest w') : rest.wp S (fun r w => ∀ a, r = .ok a → T a w) w' :=
  h.wp hx

/-- What the questions of a program keep, the program keeps. -/
theorem Asks.wp {S : Rules Q (fun q => Except E (R q)) W} {J : W → Prop}
    (asked : ∀ {q w}, P q → J w → S.asked q w)
    (step : ∀ {q w w₁}, P q → J w → S.before q w w₁ →
      S.legal q w₁ ∧ ∀ a w', S.answer q w₁ a w' → J w') {x : Prog Q R E α} {w : W}
    (hx : x.Asks P) (hw : J w) : x.wp S (fun _ => J) w :=
  Task.Asks.wp asked step hx.task hw

end Prog

end Async
