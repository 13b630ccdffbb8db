import CodemcpBridge.Async.Oracle
import CodemcpBridge.Async.Within
import CodemcpBridge.Config.Reload
import CodemcpBridge.Discipline.Instance
import CodemcpBridge.Discipline.Plain

/-!
# Watching where registered commands are started

A `Watch` says in which worlds and under which answers the Bridge is watched, and where a task may
start a registered command.
Every call starts its commands where a watch allows it, if the watch allows what was resolved before
the body of an operation without approval, and what is resolved after the consumption of one.
-/

namespace CodemcpBridge

open Async (Prog)
open Database (Sound)

variable {settings : PolicySettings} {d : Discretion} {t t' : ℕ} {w w' w'' : World}

/-- What a task may count on while it does not start a body. -/
structure Follows (t : ℕ) (w w' : World) : Prop where
  started : w.started = true → w'.started = true
  log : ∃ new, w'.log = new ++ w.log
  current : w'.current t = w.current t

namespace Follows

theorem refl (t : ℕ) (w : World) : Follows t w w := ⟨id, ⟨[], rfl⟩, rfl⟩

theorem trans (h : Follows t w w') (h' : Follows t w' w'') : Follows t w w'' := by
  obtain ⟨new, hnew⟩ := h.log
  obtain ⟨new', hnew'⟩ := h'.log
  exact ⟨fun hs => h'.started (h.started hs), ⟨new' ++ new, by rw [hnew', hnew, List.append_assoc]⟩,
    h'.current.trans h.current⟩

theorem mem (h : Follows t w w') {e : Entry} (he : e ∈ w.log) : e ∈ w'.log := by
  obtain ⟨new, hnew⟩ := h.log
  rw [hnew]
  exact List.mem_append_right new he

end Follows

theorem World.Keeps.follows (h : w.Keeps w') (t : ℕ) : Follows t w w' :=
  ⟨fun hs => h.started.trans hs, ⟨[], h.log⟩, by rw [h.current]⟩

theorem follows_note {event : Event} {db : Database} {o : Option String} :
    Follows t' w ((w.note t event db).claim t o) :=
  ⟨fun hs => by simpa using hs, ⟨[_], World.note_log.symm ▸ World.claim_log⟩, by simp⟩

theorem follows_execWait {α : Type} {h : ℕ} {r a : Except Exn α}
    (he : execWait d w h r = some (a, w')) : Follows t w w' := by
  rcases execWait_cases he with rfl | rfl | ⟨-, rfl⟩
  · exact ⟨id, ⟨[], rfl⟩, rfl⟩
  · exact .refl t _
  · exact ⟨id, ⟨[], rfl⟩, rfl⟩

/-- Only the start of a body of its own moves a task. -/
theorem follows_exec {q : Ask} {e : Choice} {a : Except Exn q.Result}
    (hb : ∀ b, q = .setStarted b → b = true) (ht : t' ≠ t ∨ ∀ o, q ≠ .mark (.enter o))
    (h : exec d t q w e = some (a, w')) : Follows t' w w' := by
  cases q with
  | quiet q => exact (execQuiet_keeps h).follows t'
  | operation c =>
    simp only [exec, execOperation, Option.some.injEq] at h
    split at h
    · cases h
      exact .refl t' _
    · cases h
      exact follows_note
  | invocation p c => exact (answered_keeps h).follows t'
  | spawn i =>
    simp only [exec] at h
    split at h
    · split at h
      · cases h
      · cases h
        exact ⟨id, ⟨[], rfl⟩, rfl⟩
    · cases h
      exact .refl t' _
  | communicate p s => exact follows_execWait h
  | terminate p =>
    simp only [exec] at h
    split at h
    · cases h
    · exact follows_execWait h
  | started =>
    cases h
    exact .refl t' _
  | setStarted b =>
    cases h
    exact ⟨fun _ => hb b rfl, ⟨[], rfl⟩, rfl⟩
  | mark m =>
    rw [exec_mark h]
    obtain ⟨current, heq, hother, hown⟩ := execMark_eq t m w
    refine ⟨fun hs => by simpa [heq] using hs,
      ⟨[_], by rw [heq]; exact World.note_log.symm ▸ World.claim_log⟩, ?_⟩
    rw [heq]
    by_cases htt : t' = t
    · subst htt
      cases m with
      | enter o => exact absurd rfl (ht.resolve_left (by simp) o)
      | _ => exact hown
    · exact hother t' htt

/-- The store stays sound, whatever is asked of the process. -/
theorem sound_exec {q : Ask} {e : Choice} {a : Except Exn q.Result} (hs : w.db.Sound)
    (h : exec d t q w e = some (a, w')) : w'.db.Sound := by
  cases q with
  | quiet q => exact hs.same (execQuiet_keeps h).db
  | operation c =>
    simp only [exec, execOperation, Option.some.injEq] at h
    split at h
    · cases h
      exact hs
    · rename_i hrun
      cases h
      simpa using (OperationCall.run_sound hs hrun).1
  | invocation p c => exact hs.same (answered_keeps h).db
  | spawn i =>
    simp only [exec] at h
    split at h
    · split at h
      · cases h
      · cases h
        exact hs
    · cases h
      exact hs
  | communicate p s => rcases execWait_cases h with rfl | rfl | ⟨-, rfl⟩ <;> exact hs
  | terminate p =>
    simp only [exec] at h
    split at h
    · cases h
    · rcases execWait_cases h with rfl | rfl | ⟨-, rfl⟩ <;> exact hs
  | started =>
    cases h
    exact hs
  | setStarted b =>
    cases h
    exact hs
  | mark m =>
    obtain ⟨current, heq, -⟩ := execMark_eq t m w
    rw [exec_mark h, heq]
    simpa using hs

/-! ## Questions that change nothing -/

/-- The question is answered at once, and its answer leaves the world alone. -/
def Quiet.Still (q : Quiet) : Prop :=
  q.suspends = false ∧ ∀ w e a w', execQuiet w e q = some (a, w') → w' = w

def Ask.Still (q : Ask) : Prop := ∃ q', q = .quiet q' ∧ q'.Still

def Act.Still : Act → Prop
  | .quiet q => q.Still
  | _ => False

theorem answered_still {α : Type} {b : Bool} {r a : Except Exn α}
    (h : answered b w r = some (a, w')) : w' = w := by
  unfold answered at h
  split at h
  · split at h <;> cases h
    rfl
  · cases h
    rfl

/-- A look at `codemcp.toml` changes nothing. -/
theorem Act.Verifies.still : ∀ {a : Act}, a.Verifies → a.Still
  | .quiet (.lstatConfig _), _ | .quiet (.canGenerateConfig _), _
  | .quiet (.configuredArgv ..), _ => ⟨rfl, fun _ _ _ _ h => answered_still h⟩

/-- What a body asks is still when it is carried out. -/
theorem still_carry {α : Type} {x : Body α} (hx : x.Asks Act.Still) :
    (carry settings x).Asks Ask.Still :=
  hx.via fun a ha => match a, ha with
    | .quiet q, ha => Prog.asks_ask ⟨q, rfl, ha⟩

/-! ## Watches -/

/-- In which worlds and under which answers the Bridge is watched, and where a task may start a
registered command. -/
structure Watch where
  within : World → Prop
  answers : ℕ → World → (q : Quiet) → Except Exn q.Result → Prop
  allows : ℕ → World → ProjectSpec → CommandSpec → Prop
  allows_follows : ∀ {t w w' p c}, Follows t w w' → allows t w p c → allows t w' p c

namespace Watch

variable {V : Watch}

/-- An answer to any question, as the watch has it. -/
def given (V : Watch) (t : ℕ) (w : World) : (q : Ask) → Except Exn q.Result → Prop
  | .quiet q, a => V.answers t w q a
  | _, _ => True

/-- An answer to what a body does, as the watch has it. -/
def shown (V : Watch) (t : ℕ) (w : World) : (a : Act) → Except Exn a.Result → Prop
  | .quiet q, a => V.answers t w q a
  | _, _ => True

/-- What a body yields under the answers that a watch has, it yields when it is carried out. -/
theorem yields_carry {α : Type} {P : α → Prop} {x : Body α} (h : x.Yields (V.shown t w) P) :
    (carry settings x).Yields (V.given t w) P := by
  induction x with
  | done r => cases r with
    | ok a => exact h
    | error e => trivial
  | ask q k ih => cases q with
    | quiet q => exact fun a ha => ih a (h a ha)
    | git root arguments => exact Prog.yields_after fun a => ih a (h a trivial)
    | command project command => exact Prog.yields_after fun a => ih a (h a trivial)

open scoped Classical in
/-- The Bridge, as long as it is watched. -/
noncomputable def bridge (V : Watch) [DecidablePred V.within] (settings : PolicySettings)
    (d : Discretion) :=
  ((CodemcpBridge.bridge settings d).answering V.given).within V.within

/-- The world is watched, and its store is sound. -/
structure Inv (V : Watch) (w : World) : Prop where
  within : V.within w
  sound : w.db.Sound

/-- What a task that has started no body knows of a later world. -/
structure Kept (V : Watch) (t : ℕ) (w w' : World) : Prop where
  follows : Follows t w w'
  inv : V.Inv w'

theorem Kept.refl (h : V.Inv w) : V.Kept t w w := ⟨.refl t w, h⟩

theorem Kept.trans (h : V.Kept t w w') (h' : V.Kept t w' w'') : V.Kept t w w'' :=
  ⟨h.follows.trans h'.follows, h'.inv⟩

theorem Kept.allows (h : V.Kept t w w') {p : ProjectSpec} {c : CommandSpec}
    (ha : V.allows t w p c) : V.allows t w' p c :=
  V.allows_follows h.follows ha

variable [DecidablePred V.within]

theorem exec_some {q : Ask} {e : Choice} {a : Except Exn q.Result}
    (h : (V.bridge settings d).exec t q w e = some (a, w')) :
    exec d t q w e = some (a, w') ∧ V.within w' ∧ V.given t w q a := by
  obtain ⟨h, hJ⟩ := Option.filter_eq_some_iff.1 h
  obtain ⟨h, hK⟩ := Option.filter_eq_some_iff.1 h
  exact ⟨h, by simpa using hJ, by simpa using hK⟩

theorem stopped_some {b : Bool} {v : World} (hs : v.db.Sound) {registry : Registry}
    (h : (if b then some (v.stopped registry) else none).filter (fun w => V.within w) = some w') :
    V.Inv w' := by
  obtain ⟨h, hJ⟩ := Option.filter_eq_some_iff.1 h
  split_ifs at h
  cases h
  exact ⟨by simpa using hJ, hs⟩

/-- Every registered command is started where the watch allows it. -/
noncomputable def discipline (V : Watch) [DecidablePred V.within] (settings : PolicySettings)
    (d : Discretion) : Async.Discipline (V.bridge settings d) where
  inv := V.Inv
  calm _ := True
  rely := Follows
  legal t q w := (∀ b, q = .setStarted b → b = true) ∧
    ∀ p c, q = .invocation p c → V.allows t w p c
  post _ _ _ _ := True
  rely_refl := Follows.refl
  rely_trans := Follows.trans
  post_calm _ := trivial
  exec_inv hi _ h := ⟨(exec_some h).2.1, sound_exec hi.sound (exec_some h).1⟩
  exec_rely ht _ hl h := follows_exec hl.1 (.inl ht) (exec_some h).1
  arrive_inv {t c w w'} hi h := by
    obtain ⟨h, hJ⟩ := Option.filter_eq_some_iff.1 h
    simp only [Async.Machine.answering, CodemcpBridge.bridge] at h
    split at h
    · cases h
    · cases h
      exact ⟨by simpa using hJ, hi.sound⟩
  arrive_rely {t t' c w w'} _ _ h := by
    have h := (Option.filter_eq_some_iff.1 h).1
    simp only [Async.Machine.answering, CodemcpBridge.bridge] at h
    split at h
    · cases h
    · cases h
      exact ⟨id, ⟨[], rfl⟩, rfl⟩
  crash_inv {_ w _} hi h := stopped_some (v := w) hi.sound h
  crash_calm _ := trivial
  quit_inv {x w _} hi h := stopped_some (v := { w with db := closeBridge w.db x.2 })
    (hi.sound.same (closeBridge_same x.2)) h
  quit_calm _ _ := trivial

/-- The rules that a watched task runs under. -/
noncomputable abbrev rules (V : Watch) [DecidablePred V.within] (settings : PolicySettings)
  (d : Discretion) (t : ℕ) :=
  (V.discipline settings d).rules t

/-- A question that does not suspend is answered at once. -/
theorem wp_step {q : Ask} {P : Except Exn q.Result → World → Prop} (hs : q.suspends = false)
    (hb : ∀ b, q = .setStarted b → b = true)
    (hc : ∀ p c, q = .invocation p c → V.allows t w p c)
    (h : ∀ e a w', exec d t q w e = some (a, w') → V.Inv w' → P a w') :
    (Prog.ask q : Service q.Result).wp (V.rules settings d t) P w := by
  refine ⟨fun _ => trivial, fun w₁ hw => ?_⟩
  have hw : w₁ = w := by
    simpa [Async.Discipline.rules, bridge, Async.Machine.within, Async.Machine.answering,
      CodemcpBridge.bridge, hs] using hw
  subst hw
  exact ⟨⟨hb, hc⟩, fun a w' ha => ha.1.elim fun e he => h e a w' (exec_some he).1 ha.2⟩

/-- A program of still questions ends where it starts, with what it yields under the answers that
the watch has there. -/
theorem wp_still {α : Type} {P : α → Prop} {x : Service α} (hx : x.Asks Ask.Still)
    (hy : x.Yields (V.given t w) P) (hw : V.Inv w) :
    x.wp (V.rules settings d t) (fun r w' => w' = w ∧ ∀ a, r = .ok a → P a) w := by
  induction x with
  | done r =>
    refine ⟨rfl, ?_⟩
    rintro a rfl
    exact hy
  | ask q k ih =>
    refine ⟨fun _ => trivial, fun w₁ hw₁ => ?_⟩
    obtain ⟨q, rfl, hs, hstill⟩ := hx.task.1
    have : w₁ = w := by
      simpa [Async.Discipline.rules, bridge, Async.Machine.within, Async.Machine.answering,
        CodemcpBridge.bridge, Ask.suspends, hs] using hw₁
    subst this
    refine ⟨⟨fun b h => (by cases h), fun p c h => (by cases h)⟩, fun a w' ha => ?_⟩
    obtain ⟨⟨e, he⟩, -⟩ := ha
    obtain ⟨hexec, -, hgiven⟩ := exec_some he
    obtain rfl := hstill _ _ _ _ hexec
    exact ih a ⟨hx.task.2 a⟩ (hy a hgiven)

/-- The answer to a question that may suspend, but starts no body. -/
theorem wp_kept {q : Ask} (hb : ∀ b, q = .setStarted b → b = true)
    (he : ∀ o, q ≠ .mark (.enter o))
    (hc : ∀ w', V.Kept t w w' → ∀ p c, q = .invocation p c → V.allows t w' p c)
    (hw : V.Inv w) :
    (Prog.ask q : Service q.Result).wp (V.rules settings d t) (fun _ w' => V.Kept t w w') w := by
  refine ⟨fun _ => trivial, fun w₁ hw₁ => ?_⟩
  have hk : V.Kept t w w₁ := by
    simp only [Async.Discipline.rules] at hw₁
    split at hw₁
    · exact ⟨hw₁.1, hw₁.2.1⟩
    · subst hw₁
      exact .refl hw
  exact ⟨⟨hb, hc w₁ hk⟩, fun a w' ha => ha.1.elim fun e hx =>
    hk.trans ⟨follows_exec hb (.inr he) (exec_some hx).1, ha.2⟩⟩

/-- A program that starts no body, and no command but where the watch allows it. -/
theorem wp_asks {α : Type} {x : Service α}
    (hx : x.Asks fun q => q.Plain ∨ ∃ p c, q = .invocation p c ∧ V.allows t w p c)
    (hw : V.Inv w) : x.wp (V.rules settings d t) (fun _ w' => V.Kept t w w') w := by
  refine Prog.Asks.wp (J := V.Kept t w) (fun _ _ _ => trivial) (fun {q w₁ w₂} hq hk hb => ?_) hx
    (.refl hw)
  have step : (Prog.ask q : Service q.Result).wp (V.rules settings d t)
      (fun _ w' => V.Kept t w₁ w') w₁ := by
    rcases hq with hq | ⟨p, c, rfl, hc⟩
    · refine wp_kept (fun b hb => ?_) (fun o ho => ?_) (fun _ _ p c hc => ?_) hk.inv
      · subst hb
        exact hq
      · subst ho
        exact hq.elim
      · subst hc
        exact hq.elim
    · refine wp_kept (fun _ => nofun) (fun _ => nofun) (fun w' hk' p' c' heq => ?_) hk.inv
      cases heq
      exact (hk.trans hk').allows hc
  exact ⟨(step.2 w₂ hb).1, fun a w' ha => hk.trans ((step.2 w₂ hb).2 a w' ha)⟩

theorem wp_plain {α : Type} {x : Service α} (hx : x.Asks Ask.Plain) (hw : V.Inv w) :
    x.wp (V.rules settings d t) (fun _ w' => V.Kept t w w') w :=
  wp_asks (hx.mono fun _ h => .inl h) hw

end Watch

end CodemcpBridge
