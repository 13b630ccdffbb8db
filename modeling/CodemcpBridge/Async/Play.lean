import CodemcpBridge.Async.Pool

/-!
# Playing a machine

`Pool.play` makes one move of a machine if the move is possible, so that a run can be computed from
the list of its moves.  What can be played is reachable.
-/

namespace Async

open Machine

variable {T C Q : Type} {A : Q → Type} {W E X α : Type}

/-- One move: which task takes the floor, and what the surroundings choose. -/
inductive Move (T C E X : Type)
  /-- A new call has its first turn. -/
  | call (t : T) (c : C) (es : ℕ → E)
  /-- A suspended task gets its answer and has its next turn. -/
  | wake (t : T) (e : E) (es : ℕ → E)
  | crash (x : X)
  /-- A new call is cut off after `n` questions of its first turn. -/
  | crashIn (t : T) (c : C) (es : ℕ → E) (n : ℕ) (x : X)
  | quit (x : X)

/-- Make one move, if it is possible. -/
def Machine.Pool.play [DecidableEq T] (M : Machine T C Q A W E X α) (p : Pool T C Q A W α) :
    Move T C E X → Option (Pool T C Q A W α)
  | .call t c es =>
    if t ∈ p.calls.map Prod.fst then none
    else (M.arrive t c p.world).bind fun w =>
      (M.advance t (M.program c) w es).map fun r => p.yield t c r.1 r.2
  | .wake t e es => match p.live.find? fun l => l.1 = t with
    | some (t, c, .ask q k) => (M.exec t q p.world e).bind fun r =>
      (M.advance t (k r.1) r.2 es).map fun r => p.yield t c r.1 r.2
    | _ => none
  | .crash x => (M.crash x p.world).map fun w => { p with world := w, live := [] }
  | .crashIn t c es n x =>
    if t ∈ p.calls.map Prod.fst then none
    else (M.arrive t c p.world).bind fun w =>
      (M.interrupted t n (M.program c) w es).bind fun w =>
        (M.crash x w).map fun w =>
          { world := w, live := [], calls := (t, c) :: p.calls, ended := p.ended }
  | .quit x =>
    if p.live.isEmpty then (M.quit x p.world).map fun w => { p with world := w } else none

/-- Make one move after the other. -/
def Machine.Pool.plays [DecidableEq T] (M : Machine T C Q A W E X α) :
    List (Move T C E X) → Pool T C Q A W α → Option (Pool T C Q A W α)
  | [], p => some p
  | m :: ms, p => (p.play M m).bind (plays M ms)

variable [DecidableEq T] {M : Machine T C Q A W E X α} {p p' : Pool T C Q A W α}

theorem Machine.Pool.play_step {m : Move T C E X} (h : p.play M m = some p') : Step M p p' := by
  cases m with
  | call t c es =>
    simp only [play] at h
    split at h
    · cases h
    · rename_i fresh
      obtain ⟨w, arrived, h⟩ := Option.bind_eq_some_iff.1 h
      obtain ⟨⟨x, w'⟩, ran, rfl⟩ := Option.map_eq_some_iff.1 h
      exact .turn es (.first fresh arrived) ran
  | wake t e es =>
    simp only [play] at h
    split at h
    · rename_i t' c q k hfind
      obtain ⟨⟨a, w⟩, given, h⟩ := Option.bind_eq_some_iff.1 h
      obtain ⟨⟨x, w'⟩, ran, rfl⟩ := Option.map_eq_some_iff.1 h
      exact .turn es (.next e (List.mem_of_find?_eq_some hfind) given) ran
    · cases h
  | crash x =>
    obtain ⟨w, lost, rfl⟩ := Option.map_eq_some_iff.1 h
    exact .crash x lost
  | crashIn t c es n x =>
    simp only [play] at h
    split at h
    · cases h
    · rename_i fresh
      obtain ⟨w, arrived, h⟩ := Option.bind_eq_some_iff.1 h
      obtain ⟨w₁, ran, h⟩ := Option.bind_eq_some_iff.1 h
      obtain ⟨w', lost, rfl⟩ := Option.map_eq_some_iff.1 h
      exact .crashIn es n x (.first fresh arrived) ran lost
  | quit x =>
    simp only [play] at h
    split at h
    · rename_i idle
      obtain ⟨w, left, rfl⟩ := Option.map_eq_some_iff.1 h
      exact .quit x (List.isEmpty_iff.1 idle) left
    · cases h

/-- What can be played from a reachable pool is reachable. -/
theorem Machine.Reachable.plays {w₀ : W} {ms : List (Move T C E X)} (hp : Reachable M w₀ p)
    (h : p.plays M ms = some p') : Reachable M w₀ p' := by
  induction ms generalizing p with
  | nil => cases h; exact hp
  | cons m ms ih =>
    obtain ⟨p₁, hm, h⟩ := Option.bind_eq_some_iff.1 h
    exact ih (hp.step (Pool.play_step hm)) h

/-- What a played run is seen to reach, some run reaches. -/
theorem Machine.reachable_of_plays {w₀ : W} {ms : List (Move T C E X)}
    {check : Pool T C Q A W α → Bool} (h : (Pool.plays M ms { world := w₀ }).any check = true) :
    ∃ p, Reachable M w₀ p ∧ check p = true := by
  obtain ⟨p, hp, hc⟩ := (Option.any_eq_true _ _).1 h
  exact ⟨p, .plays .init hp, hc⟩

/-- What a played run and one more move are seen to do, some run and one more step do. -/
theorem Machine.step_of_plays {w₀ : W} {ms : List (Move T C E X)} {m : Move T C E X}
    {check : Pool T C Q A W α → Pool T C Q A W α → Bool}
    (h : (Pool.plays M ms { world := w₀ }).any (fun p => (p.play M m).any (check p)) = true) :
    ∃ p p', Reachable M w₀ p ∧ Step M p p' ∧ check p p' = true := by
  obtain ⟨p, hp, hstep⟩ := reachable_of_plays h
  obtain ⟨p', hp', hc⟩ := (Option.any_eq_true _ _).1 hstep
  exact ⟨p, p', hp, Pool.play_step hp', hc⟩

/-! ## Stopping within a turn -/

/-- Answer questions of a turn until one is asked at which to stop. -/
def Machine.upTo (M : Machine T C Q A W E X α) (stop : Q → Bool) (t : T) :
    Task Q A α → W → (ℕ → E) → Option (Task Q A α × W)
  | .done _, _, _ => none
  | .ask q k, w, es =>
    if stop q then some (.ask q k, w)
    else if M.suspends q then none
    else (M.exec t q w (es 0)).bind fun r => upTo M stop t (k r.1) r.2 fun n => es (n + 1)

/-- A task with the floor has it still where it stops. -/
theorem Machine.HasFloor.upTo {w₀ : W} {stop : Q → Bool} {t : T} {c : C} {x x' : Task Q A α}
    {w w' : W} {es : ℕ → E} (h : HasFloor M w₀ t c x w)
    (hx : M.upTo stop t x w es = some (x', w')) : HasFloor M w₀ t c x' w' := by
  induction x generalizing w es with
  | done a => cases hx
  | ask q k ih =>
    unfold Machine.upTo at hx
    split_ifs at hx with hstop hs
    · cases hx
      exact h
    · obtain ⟨⟨a, w₁⟩, he, hx⟩ := Option.bind_eq_some_iff.1 hx
      exact ih a (h.answer (es 0) (by simpa using hs) he) hx

/-- Where the task of a move stops, with the world it stops in. -/
def Machine.Pool.stops (M : Machine T C Q A W E X α) (p : Pool T C Q A W α) (stop : Q → Bool) :
    Move T C E X → Option (T × C × Task Q A α × W)
  | .call t c es =>
    if t ∈ p.calls.map Prod.fst then none
    else (M.arrive t c p.world).bind fun w =>
      (M.upTo stop t (M.program c) w es).map fun r => (t, c, r)
  | .wake t e es => match p.live.find? fun l => l.1 = t with
    | some (t, c, .ask q k) => (M.exec t q p.world e).bind fun r =>
      (M.upTo stop t (k r.1) r.2 es).map fun r => (t, c, r)
    | _ => none
  | _ => none

/-- Where a task stops it has the floor. -/
theorem Machine.HasFloor.of_stops {w₀ : W} {stop : Q → Bool} {m : Move T C E X} {t : T} {c : C}
    {x : Task Q A α} {w : W} (hp : Reachable M w₀ p) (h : p.stops M stop m = some (t, c, x, w)) :
    HasFloor M w₀ t c x w := by
  cases m with
  | call t' c' es =>
    simp only [Pool.stops] at h
    split at h
    · cases h
    · rename_i fresh
      obtain ⟨w₁, arrived, h⟩ := Option.bind_eq_some_iff.1 h
      obtain ⟨⟨x', w'⟩, ran, heq⟩ := Option.map_eq_some_iff.1 h
      cases heq
      exact (HasFloor.turn hp (.first fresh arrived)).upTo ran
  | wake t' e es =>
    simp only [Pool.stops] at h
    split at h
    · rename_i t'' c' q k hfind
      obtain ⟨⟨a, w₁⟩, given, h⟩ := Option.bind_eq_some_iff.1 h
      obtain ⟨⟨x', w'⟩, ran, heq⟩ := Option.map_eq_some_iff.1 h
      cases heq
      exact (HasFloor.turn hp (.next e (List.mem_of_find?_eq_some hfind) given)).upTo ran
    · cases h
  | crash x => cases h
  | crashIn t c es n x => cases h
  | quit x => cases h

/-- Where a task of a played run is seen to stop, a task of some run has the floor. -/
theorem Machine.hasFloor_of_played {w₀ : W} {ms : List (Move T C E X)} {m : Move T C E X}
    {stop : Q → Bool} {check : T × C × Task Q A α × W → Bool}
    (h : ((Pool.plays M ms { world := w₀ }).bind fun p => p.stops M stop m).any check = true) :
    ∃ t c x w, HasFloor M w₀ t c x w ∧ check (t, c, x, w) = true := by
  obtain ⟨⟨t, c, x, w⟩, hstop, hcheck⟩ := (Option.any_eq_true _ _).1 h
  obtain ⟨p, hplay, hstop⟩ := Option.bind_eq_some_iff.1 hstop
  exact ⟨t, c, x, w, .of_stops (.plays .init hplay) hstop, hcheck⟩

end Async
