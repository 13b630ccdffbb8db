import CodemcpBridge.Discipline.Conduct
import CodemcpBridge.Properties.OneTime

/-!
# The mutation locks

Every mutation lock that is taken in some state of a run is owed by exactly one call that is on its
way, which gives it back however it goes on and does not wait for another lock before; a project is
worked on only under such a lock, and the reading tools never take one.
-/

namespace CodemcpBridge

open Async Async.Machine

/-! ## Who owes a lock -/

/-- However the task is answered it comes to give the lock back, and it asks for no lock before. -/
def Owes {α : Type} (projectId : String) :
    Task Ask (fun q => Except Exn q.Result) α → Prop
  | .done _ => False
  | .ask q k => q = .quiet (.release projectId) ∨
      ((∀ other, q ≠ .quiet (.acquire other)) ∧ ∀ a, Owes projectId (k a))

section Hold

variable {α : Type} {p : String} {h : Hands}

theorem Quiet.mem_hold {q : Quiet} {r : Except Exn q.Result} {held : List String} (hp : p ∈ held)
    (hq : q ≠ .release p) : p ∈ q.hold r held := by
  cases q with
  | acquire other =>
    cases r with
    | ok u => exact List.mem_cons_of_mem other hp
    | error e => exact hp
  | release other =>
    have hne : p ≠ other := fun he => hq (by rw [he])
    exact (List.mem_erase_of_ne hne).2 hp
  | _ => exact hp

theorem Quiet.mem_of_hold {q : Quiet} {r : Except Exn q.Result} {held : List String}
    (hp : p ∈ q.hold r held) (hq : ∀ other, q ≠ .acquire other) : p ∈ held := by
  cases q with
  | acquire other => exact absurd rfl (hq other)
  | release other => exact List.mem_of_mem_erase hp
  | _ => exact hp

/-- The locks of a call change by its questions about locks only. -/
theorem held_after (q : Ask) (r : Except Exn q.Result) (h : Hands) :
    (∃ q' r', q = .quiet q' ∧ ((callConduct true).after q r h).held = q'.hold r' h.held) ∨
      ((callConduct true).after q r h).held = h.held := by
  cases q with
  | quiet q => exact .inl ⟨q, r, rfl, rfl⟩
  | invocation project command =>
    cases r with
    | ok i => exact .inr rfl
    | error e => exact .inr rfl
  | _ => exact .inr rfl

/-- A call that keeps order owes the locks that it holds. -/
theorem owes_of_mem {x : Task Ask (fun q => Except Exn q.Result) α} :
    ∀ {h : Hands}, (callLedger true).Settles x h → p ∈ h.held → Owes p x := by
  induction x with
  | done a =>
    intro h hx hp
    have hnil : h.held = [] := hx
    rw [hnil] at hp
    exact absurd hp List.not_mem_nil
  | ask q k ih =>
    intro h hx hp
    obtain ⟨hlegal, hk⟩ := Conduct.wp_ask_iff.1 hx
    by_cases hq : q = .quiet (.release p)
    · exact .inl hq
    · refine .inr ⟨fun other he => ?_, fun a => ih a (hk a) ?_⟩
      · subst he
        have hnil : h.held = [] := hlegal
        rw [hnil] at hp
        exact absurd hp List.not_mem_nil
      · rcases held_after q a h with ⟨q', r', rfl, he⟩ | he
        · show p ∈ ((callConduct true).after _ a h).held
          rw [he]
          exact Quiet.mem_hold hp fun hr => hq (by rw [hr])
        · show p ∈ ((callConduct true).after q a h).held
          rw [he]
          exact hp

/-- And it owes no others. -/
theorem mem_of_owes {x : Task Ask (fun q => Except Exn q.Result) α} :
    ∀ {h : Hands}, (callLedger true).Settles x h → Owes p x → p ∈ h.held := by
  induction x with
  | done a => exact fun hx ho => ho.elim
  | ask q k ih =>
    intro h hx ho
    obtain ⟨hlegal, hk⟩ := Conduct.wp_ask_iff.1 hx
    rcases ho with rfl | ⟨hq, ho⟩
    · exact hlegal
    · have hp : p ∈ ((callConduct true).after q (.error .other) h).held := ih _ (hk _) (ho _)
      rcases held_after q (.error .other) h with ⟨q', r', rfl, he⟩ | he
      · rw [he] at hp
        exact Quiet.mem_of_hold hp fun other hr => hq other (by rw [hr])
      · rwa [he] at hp

end Hold

/-! ## The locks of the process -/

section Process

variable {settings : PolicySettings} {d : Discretion} {t : ℕ} {w w' : World}

theorem locks_answered {α : Type} {s : Bool} {r a : Except Exn α}
    (he : answered s w r = some (a, w')) : w'.locks = w.locks := by
  unfold answered at he
  split at he
  · split at he <;> cases he
    rfl
  · cases he
    rfl

theorem locks_execQuiet {e : Choice} {q : Quiet} {a : Except Exn q.Result}
    (he : execQuiet w e q = some (a, w')) :
    w'.locks = q.hold a w.locks ∧ (w.locks.Nodup → w'.locks.Nodup) := by
  have same : ∀ {w' : World}, w'.locks = w.locks → q.hold a w.locks = w.locks →
      w'.locks = q.hold a w.locks ∧ (w.locks.Nodup → w'.locks.Nodup) := fun hw hq =>
    ⟨hw.trans hq.symm, fun hn => hw ▸ hn⟩
  cases q with
  | store c =>
    simp only [execQuiet] at he
    split at he
    · cases he
      exact same rfl rfl
    · split at he <;> cases he <;> exact same rfl rfl
  | snapshot =>
    cases he
    exact same rfl rfl
  | refreshIfChanged =>
    simp only [execQuiet] at he
    split at he
    · cases he
      exact same rfl rfl
    · exact same (locks_answered he) rfl
  | acquire p =>
    simp only [execQuiet] at he
    split at he
    · split at he
      · cases he
      · rename_i hfree
        cases he
        exact ⟨rfl, fun hn => List.nodup_cons.2 ⟨hfree, hn⟩⟩
    · cases he
      exact same rfl rfl
    · cases he
  | release p =>
    cases he
    exact ⟨rfl, fun hn => hn.erase p⟩
  | uuid | token =>
    simp only [execQuiet, drawn] at he
    split at he
    · split at he <;> cases he
      exact same rfl rfl
    · cases he
  | now | adapterActive p =>
    simp only [execQuiet, certain] at he
    split at he <;> cases he
    exact same rfl rfl
  | _ => exact same (locks_answered he) rfl

/-- An answer changes the locks of the process as it changes those of the call. -/
theorem locks_exec {q : Ask} {e : Choice} {a : Except Exn q.Result}
    (he : exec d t q w e = some (a, w')) :
    w'.locks = ((callConduct true).after q a { held := w.locks }).held ∧
      (w.locks.Nodup → w'.locks.Nodup) := by
  have same : ∀ {w' : World}, w'.locks = w.locks →
      ((callConduct true).after q a { held := w.locks }).held = w.locks →
      w'.locks = ((callConduct true).after q a { held := w.locks }).held ∧
        (w.locks.Nodup → w'.locks.Nodup) := fun hw hq => ⟨hw.trans hq.symm, fun hn => hw ▸ hn⟩
  cases q with
  | quiet q => exact locks_execQuiet he
  | operation c =>
    simp only [exec, execOperation, Option.some.injEq] at he
    split at he
    · cases he
      exact same rfl rfl
    · rename_i x db hrun
      cases he
      refine same ?_ rfl
      unfold World.claim
      split <;> rfl
  | started | setStarted b =>
    cases he
    exact same rfl rfl
  | mark m =>
    have hw := exec_mark he
    subst hw
    refine same ?_ rfl
    cases m <;> rfl
  | invocation p c =>
    refine same (locks_answered he) ?_
    cases a <;> rfl
  | spawn i =>
    simp only [exec] at he
    split at he
    · split at he <;> cases he
      exact same rfl rfl
    · cases he
      exact same rfl rfl
  | communicate handle s =>
    rcases execWait_cases he with rfl | rfl | ⟨-, rfl⟩ <;> exact same rfl rfl
  | terminate handle =>
    simp only [exec] at he
    split at he
    · cases he
    · rcases execWait_cases he with rfl | rfl | ⟨-, rfl⟩ <;> exact same rfl rfl

/-- What a call takes and gives back is taken and given back in the process. -/
theorem perm_after {q : Ask} {a : Except Exn q.Result} {h : Hands} {locks rest : List String}
    (hlegal : (callConduct true).legal q h) (hlocks : locks.Perm (h.held ++ rest)) :
    ((callConduct true).after q a { held := locks }).held.Perm
      (((callConduct true).after q a h).held ++ rest) := by
  cases q with
  | quiet q =>
    cases q with
    | acquire p =>
      cases a with
      | ok u => exact hlocks.cons p
      | error e => exact hlocks
    | release p =>
      have hp : p ∈ h.held := hlegal
      show (locks.erase p).Perm (h.held.erase p ++ rest)
      rw [← List.erase_append_left rest hp]
      exact hlocks.erase p
    | _ => exact hlocks
  | invocation project command => cases a <;> exact hlocks
  | _ => exact hlocks

theorem callLedger_kept (settings : PolicySettings) (d : Discretion) :
    (callLedger true).Kept (bridge settings d) World.locks {} where
  nothing := rfl
  settles c := Service.orderly_program settings c.1 c.2 (fun _ => rfl) {} rfl
  exec hlegal hlocks he := by
    rw [(locks_exec he).1]
    exact perm_after hlegal hlocks
  arrive {t c w w'} ha := by
    simp only [bridge] at ha
    split at ha <;> cases ha
    rfl
  crash {x w w'} hl := by
    simp only [bridge] at hl
    split at hl <;> cases hl
    rfl
  quit {x w w'} hl := by
    simp only [bridge] at hl
    split at hl <;> cases hl
    rfl

theorem Reached.locks_nodup {p} (h : Reached settings d p) : p.world.locks.Nodup := by
  refine h.always (I := fun w => w.locks.Nodup) (fun hn he => (locks_exec he).2 hn)
    (fun {t c w w'} hn ha => ?_) (fun {x w w'} _ hl => ?_) (fun {x w w'} _ hl => ?_) List.nodup_nil
  all_goals simp only [bridge] at *
  · split at ha <;> cases ha
    exact hn
  · split at hl <;> cases hl
    exact List.nodup_nil
  · split at hl <;> cases hl
    exact List.nodup_nil

/-- A lock is taken exactly where a call on its way owes it. -/
theorem Reached.owes_iff {p} (h : Reached settings d p) (projectId : String) :
    projectId ∈ p.world.locks ↔ ∃ l ∈ p.live, Owes projectId l.2.2 := by
  obtain ⟨state, hs⟩ := (callLedger_kept settings d).shared rfl h
  constructor
  · intro hp
    obtain ⟨l, hl, hp⟩ := hs.holder hp
    exact ⟨l, hl, owes_of_mem (hs.settles l hl) hp⟩
  · rintro ⟨l, hl, ho⟩
    exact (hs.split hl).mem_iff.2 (List.mem_append_left _ (mem_of_owes (hs.settles l hl) ho))

/-- **A mutation lock has one owner, who gives it back.**  In every state of a run a lock is taken
exactly where a call on its way owes it: however that call goes on, also where it is cancelled or an
exception passes, it gives the lock back, and it asks for no lock before.  No two calls owe the same
lock. -/
theorem locks_owed (settings : PolicySettings) (d : Discretion) {p} (h : Reached settings d p) :
    p.world.locks.Nodup ∧
    (∀ projectId, projectId ∈ p.world.locks ↔ ∃ l ∈ p.live, Owes projectId l.2.2) ∧
    ∀ projectId, ∀ l ∈ p.live, ∀ l' ∈ p.live, Owes projectId l.2.2 → Owes projectId l'.2.2 →
      l.1 = l'.1 := by
  obtain ⟨state, hs⟩ := (callLedger_kept settings d).shared rfl h
  refine ⟨h.locks_nodup, h.owes_iff, fun projectId l hl l' hl' ho ho' => ?_⟩
  by_contra hne
  exact hs.disjoint h.locks_nodup hl hl' hne (mem_of_owes (hs.settles l hl) ho)
    (mem_of_owes (hs.settles l' hl') ho')

/-- An approved command works under its lock while Git is asked for the worktree. -/
theorem exists_locked : ∃ p : BridgePool, Reached {} {} p ∧ "p" ∈ p.world.locks := by
  have check : (played {} {} (confirmedRun ++ proceeds 3 31 [""])).any
      (fun p => p.world.locks.contains "p") = true := by
    decide +kernel
  obtain ⟨p, hp, hlocks⟩ := reached_of_played check
  exact ⟨p, hp, by simpa using hlocks⟩

/-- The approved command owes its lock. -/
theorem locks_owed_confirmed : ∃ p : BridgePool, Reached {} {} p ∧ "p" ∈ p.world.locks ∧
    ∃ l ∈ p.live, Owes "p" l.2.2 := by
  obtain ⟨p, hp, hlocks⟩ := exists_locked
  exact ⟨p, hp, hlocks, ((locks_owed {} {} hp).2.1 "p").1 hlocks⟩

end Process

end CodemcpBridge
