import CodemcpBridge.Async.Asks
import CodemcpBridge.Async.Pool
import CodemcpBridge.Async.Table

/-!
# What the tasks of a machine hold between them

A `Conduct` is what a task has to observe by itself, whatever the others do: a state of its own that
the answers to its questions change, and where it may ask a question.  A `Ledger` is a conduct whose
states say what the task holds, when all that is held in the world is held by some task; if every
call ends with nothing in its hands, then at every point of every run the shares of the suspended
tasks make up what is held.
-/

namespace Async

open Machine

variable {T C Q : Type} {A : Q → Type} {W E X α β K G : Type}

/-! ## What has been answered -/

/-- The questions of a task have been answered as the list says, and `x'` is left to do. -/
inductive Task.Heard : Task Q A α → List (Σ q, A q) → Task Q A α → Prop
  | none (x : Task Q A α) : Heard x [] x
  | answer {q k a l x} (rest : Heard (k a) l x) : Heard (.ask q k) (⟨q, a⟩ :: l) x

/-- Answer `n` questions as an oracle says. -/
def Task.hear (o : (q : Q) → A q) : ℕ → Task Q A α → List (Σ q, A q) × Task Q A α
  | n + 1, ask q k =>
    let r := hear o n (k (o q))
    (⟨q, o q⟩ :: r.1, r.2)
  | _, x => ([], x)

theorem Task.heard_hear (o : (q : Q) → A q) :
    ∀ (n : ℕ) (x : Task Q A α), x.Heard (x.hear o n).1 (x.hear o n).2
  | 0, x => by cases x <;> exact .none _
  | n + 1, done a => .none _
  | n + 1, ask q k => .answer (heard_hear o n (k (o q)))

/-- A state that the answers to questions change, and where a question may be asked. -/
structure Conduct (Q : Type) (A : Q → Type) (G : Type) where
  legal : Q → G → Prop
  after : (q : Q) → A q → G → G

namespace Conduct

variable (D : Conduct Q A G)

/-- The rules of a task that nobody else touches the state of. -/
def rules : Rules Q A G where
  asked := D.legal
  before _ g g' := g' = g
  legal _ _ := True
  answer q g a g' := g' = D.after q a g

/-- The state when questions have been answered. -/
def state (g : G) (l : List (Σ q, A q)) : G := l.foldl (fun g qa => D.after qa.1 qa.2 g) g

variable {D} {P : α → G → Prop} {g : G} {q : Q} {k : A q → Task Q A α} {x x' : Task Q A α}

theorem wp_ask_iff :
    (Task.ask q k).wp D.rules P g ↔ D.legal q g ∧ ∀ a, (k a).wp D.rules P (D.after q a g) := by
  constructor
  · intro h
    exact ⟨h.1, fun a => (h.2 g rfl).2 a _ rfl⟩
  · intro h
    refine ⟨h.1, fun g' hg => ⟨trivial, fun a g'' ha => ?_⟩⟩
    have hg : g' = g := hg
    have ha : g'' = D.after q a g' := ha
    subst ha hg
    exact h.2 a

/-- Every question has been asked where it may be. -/
theorem legal_heard {l before after : List (Σ q, A q)} {qa : Σ q, A q} (h : x.Heard l x')
    (hl : l = before ++ qa :: after) (hx : x.wp D.rules P g) :
    D.legal qa.1 (D.state g before) := by
  induction h generalizing before g with
  | none x => exact absurd hl (by simp)
  | @answer q k a l' x rest ih =>
    cases before with
    | nil =>
      rw [List.nil_append, List.cons.injEq] at hl
      rw [← hl.1]
      exact (wp_ask_iff.1 hx).1
    | cons b before =>
      rw [List.cons_append, List.cons.injEq] at hl
      rw [← hl.1]
      have hrest := ih hl.2 ((wp_ask_iff.1 hx).2 a)
      exact hrest

/-- A program whose questions may be asked in the state, and leave it. -/
theorem wp_of_asks {R : Q → Type} {Z : Type} {D : Conduct Q (fun q => Except Z (R q)) G}
    {P : Q → Prop} {x : Prog Q R Z α} (hx : x.Asks P)
    (hP : ∀ q, P q → D.legal q g ∧ ∀ a, D.after q a g = g) :
    x.wp D.rules (fun _ g' => g' = g) g :=
  Prog.Asks.wp (J := fun g' => g' = g)
    (fun {q g'} hq hg => by
      subst hg
      exact (hP q hq).1)
    (fun {q g' g''} hq hg hb => by
      refine ⟨trivial, fun a g₃ ha => ?_⟩
      have hb : g'' = g' := hb
      have ha : g₃ = D.after q a g'' := ha
      subst ha hb hg
      exact (hP q hq).2 a) hx rfl

end Conduct

/-- A conduct is observed by the tasks that carry out another, where each of them does for its
question what the conduct says of it; `R` relates the two states. -/
theorem Conduct.wp_via {Q' : Type} {A' : Q' → Type} {G' : Type} {D : Conduct Q A G}
    {D' : Conduct Q' A' G'} {R : G → G' → Prop} {f : (q : Q) → Task Q' A' (A q)}
    (hf : ∀ q g g', R g g' → D.legal q g →
      (f q).wp D'.rules (fun a g' => R (D.after q a g) g') g') {P : α → G → Prop}
    {x : Task Q A α} : ∀ {g : G} {g' : G'}, R g g' → x.wp D.rules P g →
      (x.via f).wp D'.rules (fun a g' => ∃ g, R g g' ∧ P a g) g' := by
  induction x with
  | done a => exact fun {g g'} hr hx => ⟨g, hr, hx⟩
  | ask q k ih =>
    intro g g' hr hx
    obtain ⟨hlegal, hk⟩ := Conduct.wp_ask_iff.1 hx
    refine (Task.wp_bind _ _ _ _ _).2 (Task.wp_mono (fun a g₁ hr' => ?_) (hf q g g' hr hlegal))
    exact ih a hr' (hk a)

/-! ## Shares -/

/-- A conduct whose states say what a task holds. -/
structure Ledger (Q : Type) (A : Q → Type) (G K : Type) extends Conduct Q A G where
  share : G → List K

namespace Ledger

variable (L : Ledger Q A G K)

/-- However the task goes on, it ends with nothing in its hands. -/
def Settles (x : Task Q A α) (g : G) : Prop := x.wp L.rules (fun _ g => L.share g = []) g

/-- The machine keeps the ledger: its calls start with nothing and end with nothing, and what a task
takes and gives back is taken and given back in the world. -/
structure Kept (M : Machine T C Q A W E X α) (held : W → List K) (g₀ : G) : Prop where
  nothing : L.share g₀ = []
  settles : ∀ c, L.Settles (M.program c) g₀
  exec : ∀ {t q w e a w' g rest}, L.legal q g → (held w).Perm (L.share g ++ rest) →
    M.exec t q w e = some (a, w') → (held w').Perm (L.share (L.after q a g) ++ rest)
  arrive : ∀ {t c w w'}, M.arrive t c w = some w' → held w' = held w
  crash : ∀ {x w w'}, M.crash x w = some w' → held w' = []
  quit : ∀ {x w w'}, M.quit x w = some w' → held w' = []

/-- The states of the suspended tasks account for what is held. -/
structure Shared (held : W → List K) (p : Pool T C Q A W α) (state : T → G) : Prop where
  nodup : (p.live.map Prod.fst).Nodup
  known : ∀ l ∈ p.live, l.1 ∈ p.calls.map Prod.fst
  settles : ∀ l ∈ p.live, L.Settles l.2.2 (state l.1)
  held : (held p.world).Perm (p.live.flatMap fun l => L.share (state l.1))

variable {L} {M : Machine T C Q A W E X α} {held : W → List K} {g₀ : G}

/-- A turn that starts with its share ends with it. -/
theorem Kept.advance (h : L.Kept M held g₀) {t : T} {rest : List K} {x : Task Q A α} :
    ∀ {g : G} {w : W} {es : ℕ → E} {x' w'}, L.Settles x g → (held w).Perm (L.share g ++ rest) →
      M.advance t x w es = some (x', w') →
      ∃ g', L.Settles x' g' ∧ (held w').Perm (L.share g' ++ rest) := by
  induction x with
  | done a =>
    intro g w es x' w' hx hw hr
    cases hr
    exact ⟨g, hx, hw⟩
  | ask q k ih =>
    intro g w es x' w' hx hw hr
    unfold Machine.advance at hr
    by_cases hs : M.suspends q = true
    · rw [if_pos hs] at hr
      cases hr
      exact ⟨g, hx, hw⟩
    · rw [if_neg hs] at hr
      obtain ⟨⟨a, w₁⟩, he, hr⟩ := Option.bind_eq_some_iff.1 hr
      obtain ⟨hlegal, hk⟩ := Conduct.wp_ask_iff.1 hx
      exact ih a (hk a) (h.exec hlegal hw he) hr

/-- What is held, some suspended task holds. -/
theorem Shared.holder {p : Pool T C Q A W α} {state : T → G} (h : L.Shared held p state) {k : K}
    (hk : k ∈ held p.world) : ∃ l ∈ p.live, k ∈ L.share (state l.1) :=
  List.mem_flatMap.1 (h.held.mem_iff.1 hk)

variable [DecidableEq T] {p : Pool T C Q A W α} {state : T → G}

/-- What the tasks other than `t` hold. -/
def others (L : Ledger Q A G K) (p : Pool T C Q A W α) (state : T → G) (t : T) : List K :=
  (p.live.filter fun l => l.1 ≠ t).flatMap fun l => L.share (state l.1)

/-- The share of one task, and the others. -/
theorem Shared.split (h : L.Shared held p state) {l : T × C × Task Q A α} (hl : l ∈ p.live) :
    (held p.world).Perm (L.share (state l.1) ++ L.others p state l.1) := by
  have hlive := (Table.perm_cons_filter h.nodup hl).flatMap_right fun m => L.share (state m.1)
  rw [List.flatMap_cons] at hlive
  exact h.held.trans hlive

/-- A task that is not on its way holds nothing. -/
theorem Shared.others_perm (h : L.Shared held p state) {t : T} (ht : t ∉ p.live.map Prod.fst) :
    (held p.world).Perm (L.others p state t) := by
  unfold others
  rw [Table.filter_ne_of_not_mem ht]
  exact h.held

/-- Where a task takes the floor, its state and what the others hold account for what is held. -/
theorem Shared.turn (hk : L.Kept M held g₀) (h : L.Shared held p state) {t : T} {c : C}
    {x : Task Q A α} {w : W} (hturn : Turn M p t c x w) :
    ∃ g, L.Settles x g ∧ (held w).Perm (L.share g ++ L.others p state t) := by
  cases hturn with
  | first fresh arrived =>
    refine ⟨g₀, hk.settles c, ?_⟩
    have hout : t ∉ p.live.map Prod.fst := fun ht => by
      obtain ⟨l, hl, rfl⟩ := List.mem_map.1 ht
      exact fresh (h.known l hl)
    rw [hk.arrive arrived, hk.nothing, List.nil_append]
    exact h.others_perm hout
  | next e waiting given =>
    obtain ⟨hlegal, hx⟩ := Conduct.wp_ask_iff.1 (h.settles _ waiting)
    exact ⟨_, hx _, hk.exec hlegal (h.split waiting) given⟩

/-- A turn leaves the states of the other tasks, and a state for its own. -/
theorem Shared.yield (h : L.Shared held p state) {t : T} {c : C} {x : Task Q A α} {w : W} {g : G}
    (hx : L.Settles x g) (hw : (held w).Perm (L.share g ++ L.others p state t)) :
    L.Shared held (p.yield t c x w) (Function.update state t g) := by
  have hmem : ∀ l ∈ p.live.filter (fun l => l.1 ≠ t), l ∈ p.live ∧ l.1 ≠ t := fun l hl => by
    obtain ⟨hl, hne⟩ := List.mem_filter.1 hl
    exact ⟨hl, by simpa using hne⟩
  have hstate : ∀ l ∈ p.live.filter (fun l => l.1 ≠ t),
      Function.update state t g l.1 = state l.1 := fun l hl =>
    Function.update_of_ne (hmem l hl).2 g state
  have hothers : ((p.live.filter fun l => l.1 ≠ t).flatMap
      fun l => L.share (Function.update state t g l.1)) = L.others p state t :=
    List.flatMap_congr fun l hl => congrArg L.share (hstate l hl)
  have hnodup := Pool.nodup_yield h.nodup t c x w
  have hcalls : ∀ s, s ∈ p.calls.map Prod.fst ∨ s = t →
      s ∈ (p.yield t c x w).calls.map Prod.fst := by
    intro s hs
    show s ∈ (if t ∈ p.calls.map Prod.fst then p.calls else (t, c) :: p.calls).map Prod.fst
    split_ifs with ht
    · rcases hs with hs | rfl
      · exact hs
      · exact ht
    · rcases hs with hs | rfl
      · exact List.mem_cons_of_mem _ hs
      · exact List.mem_cons_self
  have hsettled : ∀ l ∈ p.live.filter (fun l => l.1 ≠ t),
      L.Settles l.2.2 (Function.update state t g l.1) := fun l hl => by
    rw [hstate l hl]
    exact h.settles l (hmem l hl).1
  cases x with
  | done a =>
    refine ⟨hnodup, fun l hl => hcalls _ (.inl (h.known l (hmem l hl).1)), hsettled, ?_⟩
    have hnil : L.share g = [] := hx
    rw [hnil, List.nil_append, ← hothers] at hw
    exact hw
  | ask q k =>
    refine ⟨hnodup, fun l hl => ?_, fun l hl => ?_, ?_⟩
    · rcases List.mem_cons.1 hl with rfl | hl
      · exact hcalls t (.inr rfl)
      · exact hcalls _ (.inl (h.known l (hmem l hl).1))
    · rcases List.mem_cons.1 hl with rfl | hl
      · rw [Function.update_self]
        exact hx
      · exact hsettled l hl
    · show (held w).Perm (((t, c, Task.ask q k) :: p.live.filter fun l => l.1 ≠ t).flatMap _)
      rw [List.flatMap_cons, hothers, Function.update_self]
      exact hw

/-- **The shares of the suspended tasks make up what is held**, in every reachable pool. -/
theorem Kept.shared (hk : L.Kept M held g₀) {w₀ : W} (h₀ : held w₀ = [])
    (h : Reachable M w₀ p) : ∃ state, L.Shared held p state := by
  have empty : ∀ {p : Pool T C Q A W α}, p.live = [] → held p.world = [] →
      L.Shared held p fun _ => g₀ := fun {p} hl hw => by
    refine ⟨?_, ?_, ?_, ?_⟩ <;> simp [hl, hw]
  induction h with
  | init => exact ⟨_, empty rfl h₀⟩
  | step hp hs ih =>
    obtain ⟨state, ih⟩ := ih
    cases hs with
    | turn es floor ran =>
      obtain ⟨g, hx, hw⟩ := ih.turn hk floor
      obtain ⟨g', hx', hw'⟩ := hk.advance hx hw ran
      exact ⟨_, ih.yield hx' hw'⟩
    | crash x lost => exact ⟨_, empty rfl (hk.crash lost)⟩
    | crashIn es n x floor ran lost => exact ⟨_, empty rfl (hk.crash lost)⟩
    | quit x idle left => exact ⟨_, empty idle (hk.quit left)⟩

/-- What one task holds no other does, if nothing is held twice. -/
theorem Shared.disjoint (h : L.Shared held p state) (hn : (held p.world).Nodup)
    {l m : T × C × Task Q A α} (hl : l ∈ p.live) (hm : m ∈ p.live) (hne : l.1 ≠ m.1) {k : K}
    (hk : k ∈ L.share (state l.1)) : k ∉ L.share (state m.1) := fun hkm => by
  have hnodup := (h.split hl).nodup_iff.1 hn
  refine (List.disjoint_of_nodup_append hnodup) hk ?_
  exact List.mem_flatMap.2 ⟨m, List.mem_filter.2 ⟨hm, by simpa using hne.symm⟩, hkm⟩

end Ledger

end Async
