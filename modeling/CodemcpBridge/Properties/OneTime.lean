import CodemcpBridge.Properties.Runs

/-!
# Approvals are for one operation and one time

Whatever is confirmed, cancelled or recovered in whichever order, the body of an operation that was
judged to need an approval starts after the one consumption of its own approval, and never again.
-/

namespace CodemcpBridge

open Database (Sound)

variable {settings : PolicySettings} {d : Discretion} {o : String} {e e' : Entry}
  {newer older : List Entry}

/-- A recovery settles every operation that is there. -/
theorem Reached.recovered {p} (h : Reached settings d p)
    (hlog : p.world.log = newer ++ e :: older) (he : e.Recovers) :
    ∀ r ∈ e.after.operations, 5 ≤ r.state.rank := by
  have hmem : e ∈ p.world.log := by simp [hlog]
  obtain ⟨st, a, hrun⟩ := h.method hmem he
  have hs := (h.entry hlog).sound.1
  obtain ⟨r, db', hrec, hr⟩ := hs.recoverAfterRestart st
  cases hrec.symm.trans hrun
  exact fun r' hr' => hr.rank hr'

/-- No body starts after a recovery that found its operation. -/
theorem Reached.not_entered_of_recovered {p} (h : Reached settings d p)
    (hlog : p.world.log = newer ++ e :: older) (he : e.Enters o) (he' : e' ∈ older)
    (hrec : e'.Recovers) : e'.before.operation? o = none := by
  by_contra hne
  obtain ⟨r, hr⟩ := Option.ne_none_iff_exists'.1 hne
  have hok := h.entry hlog
  obtain ⟨new', old', rfl⟩ := List.append_of_mem he'
  have hlog' : p.world.log = (newer ++ e :: new') ++ e' :: old' := by simp [hlog]
  have hok' := h.entry hlog'
  obtain ⟨r₁, hr₁, -⟩ := hok'.forward.operation? hok'.sound.2 hr
  have h5 := h.recovered hlog' hrec r₁ (Database.operation?_some hr₁).1
  obtain ⟨r₂, hr₂, hb⟩ := (hok.past e' he').operation? hok.sound.1 hr₁
  obtain ⟨⟨r₃, hr₃, hrun⟩, -⟩ := hok.enter o he
  cases hr₂.symm.trans hr₃
  have := hb.rank
  rw [hrun] at this
  exact absurd (Nat.le_trans h5 this) (by decide)

/-- An approval is consumed once at most. -/
theorem Reached.consumed_once {p} (h : Reached settings d p)
    (hlog : p.world.log = newer ++ e :: older) (he : e.Consumes o) :
    ∀ e' ∈ newer ++ older, ¬ e'.Consumes o := by
  intro e' he' hc
  obtain ⟨k, now, hev⟩ := he
  rcases List.mem_append.1 he' with hn | hold
  · obtain ⟨n₁, n₂, rfl⟩ := List.append_of_mem hn
    have hlog' : p.world.log = n₁ ++ e' :: (n₂ ++ e :: older) := by simp [hlog]
    obtain ⟨k', now', hev'⟩ := hc
    exact (((h.entry hlog').consume o k' now' hev').2 e (by simp)).1 ⟨k, now, hev⟩
  · exact (((h.entry hlog).consume o k now hev).2 e' hold).1 hc

/-- A body starts once at most. -/
theorem Reached.entered_once {p} (h : Reached settings d p)
    (hlog : p.world.log = newer ++ e :: older) (he : e.Enters o) :
    ∀ e' ∈ newer ++ older, ¬ e'.Enters o := by
  intro e' he' hc
  rcases List.mem_append.1 he' with hn | hold
  · obtain ⟨n₁, n₂, rfl⟩ := List.append_of_mem hn
    have hlog' : p.world.log = n₁ ++ e' :: (n₂ ++ e :: older) := by simp [hlog]
    exact (((h.entry hlog').enter o hc).2.1 e (by simp)).1 he
  · exact (((h.entry hlog).enter o he).2.1 e' hold).1 hc

/-- In every run the body of an operation that needed an approval starts only after exactly one
consumption for it: with the token issued for it, while its approval was pending and not expired and
the operation awaited it, by a call from the operation's own active session.  An approval is
consumed once at most, and no body starts twice, after a cancellation of its approval, or after a
recovery that found its operation. -/
theorem approvals_one_time (settings : PolicySettings) (d : Discretion) {p}
    (h : Reached settings d p) (o : String) :
    (∀ newer e older, p.world.log = newer ++ e :: older → e.Enters o →
      (∃ e' ∈ older, e'.Judges o true) →
        ∃ newer₁ e₁ older₁ k now, older = newer₁ ++ e₁ :: older₁ ∧
          e₁.event = .done (.consumeApproval o k now) ∧ Consumption p.world.calls e₁ o k now ∧
          ∀ e' ∈ (newer ++ e :: newer₁) ++ older₁, ¬ e'.Consumes o) ∧
    (∀ newer e older, p.world.log = newer ++ e :: older → e.Consumes o →
      ∀ e' ∈ newer ++ older, ¬ e'.Consumes o) ∧
    ∀ newer e older, p.world.log = newer ++ e :: older → e.Enters o →
      (∀ e' ∈ newer ++ older, ¬ e'.Enters o) ∧ (∀ e' ∈ older, ¬ e'.Cancels o) ∧
      ∀ e' ∈ older, e'.Recovers → e'.before.operation? o = none := by
  refine ⟨fun newer e older hlog he hj => ?_, fun newer e older hlog he => h.consumed_once hlog he,
    fun newer e older hlog he => ⟨h.entered_once hlog he, fun e' he' => ?_, fun e' he' hr => ?_⟩⟩
  · obtain ⟨-, -, hcons⟩ := (h.entry hlog).enter o he
    obtain ⟨e₁, he₁, k, now, hev⟩ := hcons hj
    obtain ⟨newer₁, older₁, rfl⟩ := List.append_of_mem he₁
    have hlog' : p.world.log = (newer ++ e :: newer₁) ++ e₁ :: older₁ := by simp [hlog]
    exact ⟨newer₁, e₁, older₁, k, now, rfl, hev, ((h.entry hlog').consume o k now hev).1,
      h.consumed_once hlog' ⟨k, now, hev⟩⟩
  · exact (((h.entry hlog).enter o he).2.1 e' he').2
  · exact h.not_entered_of_recovered hlog he he' hr

/-- A run in which a command waits for its approval and is confirmed. -/
def confirmedRun : List BridgeMove :=
  opening 1 10 {} ++
    [arrives none 2 20 {} (.runCommand "p" (openedSession 10) "c" none
        (keyFor "run" (commandInput "c" none))),
      arrives none 3 30 {} (.approvalConfirm (drawnId 20 4) (openedSession 10) (drawnId 20 18)
        (keyFor "confirm" [("operation_id", .str (drawnId 20 4)),
          ("approval_token_digest", textDigest (drawnId 20 18))]))]

/-- The newest entry is the start of the body of `o`, which was judged to need an approval. -/
def justEntered (o : String) : List Entry → Bool
  | ⟨_, .mark (.enter o'), _, _⟩ :: older => o' == o && older.any fun e => match e.event with
    | .mark (.judged o' needsApproval _) => o' == o && needsApproval
    | _ => false
  | _ => false

theorem justEntered_spec {o : String} {log : List Entry} (h : justEntered o log = true) :
    ∃ e older, log = e :: older ∧ e.Enters o ∧ ∃ e' ∈ older, e'.Judges o true := by
  unfold justEntered at h
  split at h
  · simp only [Bool.and_eq_true, beq_iff_eq, List.any_eq_true] at h
    obtain ⟨rfl, e', he', hj⟩ := h
    refine ⟨_, _, rfl, rfl, e', he', ?_⟩
    split at hj
    · rename_i hev
      simp only [Bool.and_eq_true, beq_iff_eq] at hj
      exact ⟨_, by rw [hev, hj.1, hj.2]⟩
    · cases hj
  · cases h

theorem approvals_one_time_confirmed : ∃ p e older, Reached {} {} p ∧ p.world.log = e :: older ∧
    e.Enters (drawnId 20 4) ∧ ∃ newer₁ e₁ older₁ k now, older = newer₁ ++ e₁ :: older₁ ∧
      e₁.event = .done (.consumeApproval (drawnId 20 4) k now) ∧
      Consumption p.world.calls e₁ (drawnId 20 4) k now ∧
      ∀ e' ∈ ([] ++ e :: newer₁) ++ older₁, ¬ e'.Consumes (drawnId 20 4) := by
  have check : (played {} {} confirmedRun).any
      (fun p => justEntered (drawnId 20 4) p.world.log) = true := by
    decide +kernel
  obtain ⟨p, hreached, hlog⟩ := reached_of_played check
  obtain ⟨e, older, hlog, henter, hjudged⟩ := justEntered_spec hlog
  exact ⟨p, e, older, hreached, hlog, henter,
    (approvals_one_time {} {} hreached (drawnId 20 4)).1 [] e older hlog henter hjudged⟩

end CodemcpBridge
