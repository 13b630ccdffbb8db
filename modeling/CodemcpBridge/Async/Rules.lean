import CodemcpBridge.Async.Task

/-!
# Running a task under rules

`Rules` say how the questions of one task are answered in a world: what may happen to the world
between question and answer, what the question demands of it, and which answers are possible.
`Runs` is the operational reading (one run, from a world to a result and a world) and `wp` the
weakest precondition; `wp_runs` connects the two.  The rules of the `Prog` combinators are stated
for `Prog.wp`, whose postcondition speaks of the result and the world.
-/

namespace Async

/-- How the questions of a task are answered in a world `W`. -/
structure Rules (Q : Type) (A : Q → Type) (W : Type) where
  /-- What the question demands of the world in which it is asked. -/
  asked : Q → W → Prop
  /-- What may happen to the world before the question is answered. -/
  before : Q → W → W → Prop
  /-- What the question demands of the world in which it is answered. -/
  legal : Q → W → Prop
  /-- The possible answers, and the world each one leaves. -/
  answer : (q : Q) → W → A q → W → Prop

variable {Q : Type} {A : Q → Type} {W α β : Type}

namespace Task

/-- Every run of the task from `w` is legal and ends in a value and a world that satisfy `P`. -/
def wp (S : Rules Q A W) : Task Q A α → (α → W → Prop) → W → Prop
  | done a, P, w => P a w
  | ask q k, P, w => S.asked q w ∧ ∀ w₁, S.before q w w₁ → S.legal q w₁ ∧
      ∀ a w', S.answer q w₁ a w' → (k a).wp S P w'

/-- One complete run of a task. -/
inductive Runs (S : Rules Q A W) : Task Q A α → W → α → W → Prop
  | done (a : α) (w : W) : Runs S (done a) w a w
  | ask {q k w w₁ a w' b w''} (early : S.before q w w₁) (given : S.answer q w₁ a w')
      (rest : Runs S (k a) w' b w'') : Runs S (ask q k) w b w''

theorem wp_mono {S : Rules Q A W} {P P' : α → W → Prop} (h : ∀ a w, P a w → P' a w) :
    ∀ {x : Task Q A α} {w : W}, x.wp S P w → x.wp S P' w
  | done a, w, hx => h a w hx
  | ask _ _, _, hx => ⟨hx.1, fun w₁ hb =>
      ⟨(hx.2 w₁ hb).1, fun a w' ha => wp_mono h ((hx.2 w₁ hb).2 a w' ha)⟩⟩

theorem wp_bind (S : Rules Q A W) (f : α → Task Q A β) (P : β → W → Prop) :
    ∀ (x : Task Q A α) (w : W), (x.bind f).wp S P w ↔ x.wp S (fun a w' => (f a).wp S P w') w
  | done _, _ => Iff.rfl
  | ask _ k, _ => by
      refine and_congr_right fun _ => ?_
      refine forall_congr' fun w₁ => imp_congr_right fun _ => and_congr_right fun _ => ?_
      exact forall_congr' fun a => forall_congr' fun w' => imp_congr_right fun _ =>
        wp_bind S f P (k a) w'

theorem wp_and {S : Rules Q A W} {P P' : α → W → Prop} :
    ∀ {x : Task Q A α} {w : W}, x.wp S P w → x.wp S P' w → x.wp S (fun a w => P a w ∧ P' a w) w
  | done _, _, h, h' => ⟨h, h'⟩
  | ask _ _, _, h, h' => ⟨h.1, fun w₁ hb =>
      ⟨(h.2 w₁ hb).1, fun a w' ha => wp_and ((h.2 w₁ hb).2 a w' ha) ((h'.2 w₁ hb).2 a w' ha)⟩⟩

/-- What every answering task keeps, the whole task keeps. -/
theorem wp_via {Q' : Type} {A' : Q' → Type} {S : Rules Q' A' W} {J : W → Prop}
    {f : (q : Q) → Task Q' A' (A q)} (hf : ∀ q w, J w → (f q).wp S (fun _ w' => J w') w) :
    ∀ {x : Task Q A α} {w : W}, J w → (x.via f).wp S (fun _ w' => J w') w
  | done _, _, hw => hw
  | ask q k, w, hw => (wp_bind S _ _ (f q) w).2
      (wp_mono (fun a _ hw' => wp_via (x := k a) hf hw') (hf q w hw))

/-- A run of a task ends where its weakest precondition says. -/
theorem Runs.sound {S : Rules Q A W} {x : Task Q A α} {w w' : W} {a : α} {P : α → W → Prop}
    (h : Runs S x w a w') (hx : x.wp S P w) : P a w' := by
  induction h with
  | done a w => exact hx
  | ask hb ha _ ih => exact ih ((hx.2 _ hb).2 _ _ ha)

/-- A run of `x`, then one of what goes on with its value. -/
theorem Runs.bind {S : Rules Q A W} {x : Task Q A α} {f : α → Task Q A β} {w w' w'' : W} {a : α}
    {b : β} (hx : Runs S x w a w') (hf : Runs S (f a) w' b w'') : Runs S (x.bind f) w b w'' := by
  induction hx with
  | done a w => exact hf
  | ask early given _ ih => exact .ask early given (ih hf)

end Task

namespace Prog

variable {R : Q → Type} {E : Type}

/-- Every run of the program from `w` is legal and ends in a result and a world satisfying `P`. -/
def wp (S : Rules Q (fun q => Except E (R q)) W) (x : Prog Q R E α) (P : Except E α → W → Prop)
    (w : W) : Prop :=
  x.task.wp S P w

variable {S : Rules Q (fun q => Except E (R q)) W} {P P' : Except E α → W → Prop} {w : W}

theorem wp_mono {x : Prog Q R E α} (h : ∀ r w, P r w → P' r w) (hx : x.wp S P w) : x.wp S P' w :=
  Task.wp_mono h hx

theorem wp_and {x : Prog Q R E α} (h : x.wp S P w) (h' : x.wp S P' w) :
    x.wp S (fun r w => P r w ∧ P' r w) w :=
  Task.wp_and h h'

@[simp] theorem wp_ret (a : α) : (ret a : Prog Q R E α).wp S P w ↔ P (.ok a) w := Iff.rfl

@[simp] theorem wp_pure (a : α) : (pure a : Prog Q R E α).wp S P w ↔ P (.ok a) w := Iff.rfl

@[simp] theorem wp_raise (e : E) : (raise e : Prog Q R E α).wp S P w ↔ P (.error e) w := Iff.rfl

@[simp] theorem wp_lift (r : Except E α) : (lift r : Prog Q R E α).wp S P w ↔ P r w := Iff.rfl

theorem wp_ask (q : Q) (P : Except E (R q) → W → Prop) : (ask q : Prog Q R E (R q)).wp S P w ↔
    S.asked q w ∧ ∀ w₁, S.before q w w₁ → S.legal q w₁ ∧ ∀ a w', S.answer q w₁ a w' → P a w' :=
  Iff.rfl

theorem wp_andThen (x : Prog Q R E α) (f : Except E α → Prog Q R E β)
    (P : Except E β → W → Prop) :
    (x.andThen f).wp S P w ↔ x.wp S (fun r w' => (f r).wp S P w') w :=
  Task.wp_bind S f P x w

theorem wp_bind {x : Prog Q R E α} {f : α → Prog Q R E β} {P : Except E β → W → Prop}
    (h : x.wp S (fun r w' => (∀ a, r = .ok a → (f a).wp S P w') ∧
      ∀ e, r = .error e → P (.error e) w') w) :
    (x >>= f).wp S P w := by
  refine (wp_andThen x _ P).2 (wp_mono ?_ h)
  rintro (e | a) w' ⟨hok, herr⟩
  · exact herr e rfl
  · exact hok a rfl

theorem wp_map {f : α → β} {x : Prog Q R E α} {P : Except E β → W → Prop}
    (h : x.wp S (fun r w' => P (r.map f) w') w) : (f <$> x).wp S P w := by
  refine (wp_andThen x _ P).2 (wp_mono ?_ h)
  rintro (e | a) w' hP <;> exact hP

/-- Sequencing under what `x` leaves however it ends. -/
theorem wp_bind_of {x : Prog Q R E α} {f : α → Prog Q R E β} {J : W → Prop}
    {P : Except E β → W → Prop} (hx : x.wp S (fun _ w' => J w') w)
    (hok : ∀ a w', J w' → (f a).wp S P w') (herr : ∀ e w', J w' → P (.error e) w') :
    (x >>= f).wp S P w :=
  wp_bind (wp_mono (fun _ w' hJ => ⟨fun a _ => hok a w' hJ, fun e _ => herr e w' hJ⟩) hx)

theorem wp_attempt {x : Prog Q R E α} {P : Except E (Except E α) → W → Prop}
    (h : x.wp S (fun r w' => P (.ok r) w') w) : x.attempt.wp S P w :=
  (wp_andThen x _ P).2 h

theorem wp_handle {x : Prog Q R E α} {h : E → Option (Prog Q R E α)}
    (hx : x.wp S (fun r w' => (∀ a, r = .ok a → P (.ok a) w') ∧
      ∀ e, r = .error e → ((h e).getD (raise e)).wp S P w') w) :
    (x.handle h).wp S P w := by
  refine (wp_andThen x _ P).2 (wp_mono ?_ hx)
  rintro (e | a) w' ⟨hok, herr⟩
  · exact herr e rfl
  · exact hok a rfl

theorem wp_ensuring {x : Prog Q R E α} {y : Prog Q R E Unit}
    (hx : x.wp S (fun r w' => y.wp S (fun s w'' => (s = .ok () → P r w'') ∧
      ∀ e, s = .error e → P (.error e) w'') w') w) :
    (x.ensuring y).wp S P w := by
  refine (wp_andThen x _ P).2 (wp_mono (fun r w' hy => ?_) hx)
  refine (wp_andThen y _ P).2 (wp_mono ?_ hy)
  rintro (e | ⟨⟩) w'' ⟨hok, herr⟩
  · exact herr e rfl
  · exact hok rfl

theorem wp_via {Q' : Type} {R' : Q' → Type} {S : Rules Q' (fun q => Except E (R' q)) W}
    {J : W → Prop} {f : (q : Q) → Prog Q' R' E (R q)}
    (hf : ∀ q w, J w → (f q).wp S (fun _ w' => J w') w) {x : Prog Q R E α} {w : W} (hw : J w) :
    (x.via f).wp S (fun _ w' => J w') w :=
  Task.wp_via hf hw

/-! ## What a value says -/

/-- Every run is legal, and a run that returns a value does so in a world that satisfies `P`. -/
def wpOk (S : Rules Q (fun q => Except E (R q)) W) (x : Prog Q R E α) (P : α → W → Prop) (w : W) :
    Prop :=
  x.wp S (fun r w' => ∀ a, r = .ok a → P a w') w

variable {T : α → W → Prop}

theorem wpOk_mono {T' : α → W → Prop} {x : Prog Q R E α} (h : ∀ a w, T a w → T' a w)
    (hx : x.wpOk S T w) : x.wpOk S T' w :=
  wp_mono (fun _ w hT a ha => h a w (hT a ha)) hx

theorem wpOk_pure {a : α} (h : T a w) : (pure a : Prog Q R E α).wpOk S T w := by
  rintro _ ⟨⟩
  exact h

theorem wpOk_lift {r : Except E α} (h : ∀ a, r = .ok a → T a w) :
    (lift r : Prog Q R E α).wpOk S T w := h

theorem wpOk_raise {e : E} : (raise e : Prog Q R E α).wpOk S T w := nofun

theorem wpOk_bind {x : Prog Q R E α} {f : α → Prog Q R E β} {T : β → W → Prop}
    (h : x.wpOk S (fun a w' => (f a).wpOk S T w') w) : (x >>= f).wpOk S T w :=
  wp_bind (wp_mono (fun _ _ hok => ⟨hok, fun _ _ => nofun⟩) h)

/-- Handlers that return the right values or none, in whichever world they are called. -/
theorem wpOk_handle {x : Prog Q R E α} {h : E → Option (Prog Q R E α)} (hx : x.wpOk S T w)
    (hh : ∀ e y w', h e = some y → y.wpOk S T w') : (x.handle h).wpOk S T w := by
  refine wp_handle (wp_mono (fun r w' hT => ⟨fun a ha => ?_, fun e _ => ?_⟩) hx)
  · rintro b ⟨⟩
    exact hT a ha
  · cases he : h e with
    | none => exact wpOk_raise
    | some y => exact hh e y w' he

theorem wpOk_ensuring {x : Prog Q R E α} {y : Prog Q R E Unit} {J : Except E α → W → Prop}
    (hx : x.wp S J w) (hy : ∀ r w', J r w' → y.wp S (fun _ => J r) w')
    (h : ∀ a w', J (.ok a) w' → T a w') : (x.ensuring y).wpOk S T w := by
  refine wp_ensuring (wp_mono (fun r w' hJ => wp_mono (fun s w'' hJ => ⟨?_, ?_⟩) (hy r w' hJ)) hx)
  · rintro - a rfl
    exact h a w'' hJ
  · exact fun _ _ => nofun

end Prog

end Async
