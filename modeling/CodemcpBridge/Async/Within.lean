import CodemcpBridge.Async.Pool

/-!
# A part of a machine

A machine is part of another when it serves the same calls and its every move is one of the other.
`Machine.within` leaves out the moves into a world outside `J`: its runs are the runs of the machine
that stay within `J`.  `Machine.answering` leaves out the answers that `K` does not allow where they
are given.
-/

namespace Async

namespace Machine

variable {T C Q : Type} {A : Q → Type} {W E X α : Type}

/-- The machine with those moves only that lead into a world within `J`. -/
def within (M : Machine T C Q A W E X α) (J : W → Prop) [DecidablePred J] :
    Machine T C Q A W E X α where
  program := M.program
  suspends := M.suspends
  exec t q w e := (M.exec t q w e).filter fun r => J r.2
  arrive t c w := (M.arrive t c w).filter fun w => J w
  crash x w := (M.crash x w).filter fun w => J w
  quit x w := (M.quit x w).filter fun w => J w

/-- The machine with those answers only that `K` allows in the world in which they are given. -/
def answering (M : Machine T C Q A W E X α) (K : T → W → (q : Q) → A q → Prop)
    [∀ t w q a, Decidable (K t w q a)] : Machine T C Q A W E X α where
  program := M.program
  suspends := M.suspends
  exec t q w e := (M.exec t q w e).filter fun r => K t w q r.1
  arrive := M.arrive
  crash := M.crash
  quit := M.quit

/-- Every move of `M` is one of `M'`, which serves the same calls. -/
structure Part (M M' : Machine T C Q A W E X α) : Prop where
  program : M.program = M'.program
  suspends : M.suspends = M'.suspends
  exec : ∀ {t q w e r}, M.exec t q w e = some r → M'.exec t q w e = some r
  arrive : ∀ {t c w w'}, M.arrive t c w = some w' → M'.arrive t c w = some w'
  crash : ∀ {x w w'}, M.crash x w = some w' → M'.crash x w = some w'
  quit : ∀ {x w w'}, M.quit x w = some w' → M'.quit x w = some w'

theorem filter_weaken {β : Type} {J K : β → Prop} [DecidablePred J] [DecidablePred K]
    (h : ∀ b, J b → K b) {x : Option β} {b : β} (hx : x.filter (fun b => J b) = some b) :
    x.filter (fun b => K b) = some b := by
  rw [Option.filter_eq_some_iff] at hx ⊢
  exact ⟨hx.1, by simpa using h b (by simpa using hx.2)⟩

/-- A machine that stays within `J` stays within whatever `J` implies. -/
theorem part_within (M : Machine T C Q A W E X α) {J K : W → Prop} [DecidablePred J]
    [DecidablePred K] (h : ∀ w, J w → K w) : Part (M.within J) (M.within K) where
  program := rfl
  suspends := rfl
  exec {_ q _ _ _} hx := filter_weaken (J := fun r : A q × W => J r.2) (K := fun r => K r.2)
    (fun r => h r.2) hx
  arrive hx := filter_weaken h hx
  crash hx := filter_weaken h hx
  quit hx := filter_weaken h hx

/-- A machine whose worlds are all within `J` loses nothing. -/
theorem part_within_all (M : Machine T C Q A W E X α) {J : W → Prop} [DecidablePred J]
    (h : ∀ w, J w) : Part M (M.within J) where
  program := rfl
  suspends := rfl
  exec {_ _ _ _ r} hx := Option.filter_eq_some_iff.2 ⟨hx, by simpa using h r.2⟩
  arrive {_ _ _ w'} hx := Option.filter_eq_some_iff.2 ⟨hx, by simpa using h w'⟩
  crash {_ _ w'} hx := Option.filter_eq_some_iff.2 ⟨hx, by simpa using h w'⟩
  quit {_ _ w'} hx := Option.filter_eq_some_iff.2 ⟨hx, by simpa using h w'⟩

theorem part_of_answering (M : Machine T C Q A W E X α) (K : T → W → (q : Q) → A q → Prop)
    [∀ t w q a, Decidable (K t w q a)] : Part (M.answering K) M where
  program := rfl
  suspends := rfl
  exec hx := (Option.filter_eq_some_iff.1 hx).1
  arrive hx := hx
  crash hx := hx
  quit hx := hx

/-- A machine whose answers `K` allows is given answers that whatever `K` implies allows. -/
theorem part_answering_mono (M : Machine T C Q A W E X α) {K K' : T → W → (q : Q) → A q → Prop}
    [∀ t w q a, Decidable (K t w q a)] [∀ t w q a, Decidable (K' t w q a)]
    (h : ∀ t w q a, K t w q a → K' t w q a) : Part (M.answering K) (M.answering K') where
  program := rfl
  suspends := rfl
  exec {t q w _ _} hx := Option.filter_eq_some_iff.2 ⟨(Option.filter_eq_some_iff.1 hx).1, by
    simpa using h t w q _ (by simpa using (Option.filter_eq_some_iff.1 hx).2)⟩
  arrive hx := hx
  crash hx := hx
  quit hx := hx

/-- A machine whose answers are all allowed loses nothing. -/
theorem part_answering (M : Machine T C Q A W E X α) {K : T → W → (q : Q) → A q → Prop}
    [∀ t w q a, Decidable (K t w q a)] (h : ∀ t w q a, K t w q a) : Part M (M.answering K) where
  program := rfl
  suspends := rfl
  exec {t q w _ r} hx := Option.filter_eq_some_iff.2 ⟨hx, by simpa using h t w q r.1⟩
  arrive hx := hx
  crash hx := hx
  quit hx := hx

namespace Part

variable {M M' : Machine T C Q A W E X α}

theorem trans {M'' : Machine T C Q A W E X α} (h : Part M M') (h' : Part M' M'') : Part M M'' where
  program := h.program.trans h'.program
  suspends := h.suspends.trans h'.suspends
  exec hx := h'.exec (h.exec hx)
  arrive hx := h'.arrive (h.arrive hx)
  crash hx := h'.crash (h.crash hx)
  quit hx := h'.quit (h.quit hx)

theorem within (h : Part M M') (J : W → Prop) [DecidablePred J] :
    Part (M.within J) (M'.within J) where
  program := h.program
  suspends := h.suspends
  exec hx := Option.filter_eq_some_iff.2
    ⟨h.exec (Option.filter_eq_some_iff.1 hx).1, (Option.filter_eq_some_iff.1 hx).2⟩
  arrive hx := Option.filter_eq_some_iff.2
    ⟨h.arrive (Option.filter_eq_some_iff.1 hx).1, (Option.filter_eq_some_iff.1 hx).2⟩
  crash hx := Option.filter_eq_some_iff.2
    ⟨h.crash (Option.filter_eq_some_iff.1 hx).1, (Option.filter_eq_some_iff.1 hx).2⟩
  quit hx := Option.filter_eq_some_iff.2
    ⟨h.quit (Option.filter_eq_some_iff.1 hx).1, (Option.filter_eq_some_iff.1 hx).2⟩

theorem advance (h : Part M M') {β : Type} {t : T} : ∀ {x : Task Q A β} {w : W} {es : ℕ → E} {r},
    M.advance t x w es = some r → M'.advance t x w es = some r
  | .done a, w, es, r, hr => hr
  | .ask q k, w, es, r, hr => by
      unfold Machine.advance at hr ⊢
      rw [← h.suspends]
      split_ifs at hr ⊢ with hs
      · exact hr
      · obtain ⟨a, ha, hr⟩ := Option.bind_eq_some_iff.1 hr
        rw [h.exec ha]
        exact advance h hr

theorem interrupted (h : Part M M') {β : Type} {t : T} : ∀ {n : ℕ} {x : Task Q A β} {w : W}
    {es : ℕ → E} {w'}, M.interrupted t n x w es = some w' → M'.interrupted t n x w es = some w'
  | 0, _, _, _, _, hr => hr
  | _ + 1, .done _, _, _, _, hr => hr
  | n + 1, .ask q k, w, es, w', hr => by
      unfold Machine.interrupted at hr ⊢
      rw [← h.suspends]
      split_ifs at hr ⊢ with hs
      · exact hr
      · obtain ⟨a, ha, hr⟩ := Option.bind_eq_some_iff.1 hr
        rw [h.exec ha]
        exact interrupted h hr

theorem turn (h : Part M M') {p : Pool T C Q A W α} {t : T} {c : C} {x : Task Q A α} {w : W}
    (hx : Turn M p t c x w) : Turn M' p t c x w := by
  cases hx with
  | first fresh arrived =>
    rw [h.program]
    exact .first fresh (h.arrive arrived)
  | next e waiting given => exact .next e waiting (h.exec given)

variable [DecidableEq T] {w₀ : W}

theorem step (h : Part M M') {p p' : Pool T C Q A W α} (hs : Step M p p') : Step M' p p' := by
  cases hs with
  | turn es floor ran => exact .turn es (h.turn floor) (h.advance ran)
  | crash x lost => exact .crash x (h.crash lost)
  | crashIn es n x floor ran lost =>
    exact .crashIn es n x (h.turn floor) (h.interrupted ran) (h.crash lost)
  | quit x idle left => exact .quit x idle (h.quit left)

/-- What a part reaches the machine reaches. -/
theorem reachable (h : Part M M') {p : Pool T C Q A W α} (hp : Reachable M w₀ p) :
    Reachable M' w₀ p := by
  induction hp with
  | init => exact .init
  | step _ hs ih => exact .step ih (h.step hs)

/-- Where a task of a part stands, a task of the machine stands. -/
theorem hasFloor (h : Part M M') {t : T} {c : C} {x : Task Q A α} {w : W}
    (hx : HasFloor M w₀ t c x w) : HasFloor M' w₀ t c x w := by
  induction hx with
  | turn reached floor => exact .turn (h.reachable reached) (h.turn floor)
  | answer e _ keeps given ih => exact .answer e ih (h.suspends ▸ keeps) (h.exec given)

end Part

end Machine

end Async
