import CodemcpBridge.Properties.Runs

/-!
# Subprocesses and the operations they serve

As long as nothing breaks off the wait for a subprocess, a subprocess that was started in the body
of an operation runs only while that operation does; so the subprocesses of two mutations of one
project never run side by side.
-/

namespace CodemcpBridge

/-- A subprocess of a mutation runs only while the mutation does, and while no other mutation of the
project is running. -/
def NoOverlap (settings : PolicySettings) (d : Discretion) : Prop :=
  ∀ p, Reached settings d p → ∀ x ∈ p.world.processes, ∀ o r, x.operation = some o →
    p.world.db.operation? o = some r → r.mutation = true →
      r.state = .running ∧ ∀ r' ∈ p.world.db.operations, r'.projectId = r.projectId →
        r'.mutation = true → r'.state = .running → r' = r

/-- Side effects do not overlap in any run in which no cancellation reaches a call while it waits
for a subprocess and the process does not die while one is running. -/
theorem side_effects_exclusive (settings : PolicySettings) (d : Discretion)
    (hd : d.attended = true) : NoOverlap settings d := by
  intro p hp x hx o r ho hr hm
  have hi := hp.inv
  obtain ⟨-, r₁, hr₁, hrun⟩ := hi.attached x hx (hi.attended hd x hx) o ho
  cases hr.symm.trans hr₁
  refine ⟨hrun, fun r' hr' hproject hm' hrun' => ?_⟩
  have blocks : ∀ {s : OperationRecord}, s.mutation = true → s.state = .running →
      s.blocks = true := fun hm hs => by
    simp only [OperationRecord.blocks, hm, hs, Bool.true_and]
    decide
  exact hi.rows.sound.eq_of_blocks hr' (Database.operation?_some hr).1 hproject
    (blocks hm' hrun') (blocks hm hrun)

/-- The session has been opened, and the deletion that a subprocess serves is the one mutation of
its project that runs. -/
theorem side_effects_exclusive_attended : ∃ p o, Reached {} { attended := true } p ∧
    hasEnded p 1 false = true ∧ (∃ x ∈ p.world.processes, x.operation = some (drawnId 20 4)) ∧
    p.world.db.operation? (drawnId 20 4) = some o ∧ o.state = .running ∧
    ∀ r ∈ p.world.db.operations, r.projectId = o.projectId → r.mutation = true →
      r.state = .running → r = o := by
  have check : (played {} { attended := true } deleting).any (fun p => hasEnded p 1 false &&
      (p.world.processes.any fun x => x.operation == some (drawnId 20 4)) &&
      (p.world.db.operation? (drawnId 20 4)).any fun o => o.mutation) = true := by
    decide +kernel
  obtain ⟨p, hp, hc⟩ := reached_of_played check
  simp only [Bool.and_eq_true, List.any_eq_true, beq_iff_eq, Option.any_eq_true] at hc
  obtain ⟨⟨ended, x, hx, hxo⟩, o, ho, hm⟩ := hc
  exact ⟨p, o, hp, ended, ⟨x, hx, hxo⟩, ho,
    side_effects_exclusive {} _ rfl p hp x hx _ o hxo ho hm⟩

/-- A subprocess of the operation runs although the operation is unknown. -/
def outlived (w : World) (o : String) : Bool :=
  (w.processes.any fun x => x.operation == some o) &&
    (w.db.operation? o).any fun r => r.mutation && r.state == .unknown

/-- The `git rm` of a cancelled deletion still runs when the deletion is unknown and may be
reconciled. -/
theorem cancelled_delete_overlaps : ¬ NoOverlap {} {} := by
  have check : (played {} {} (deleting ++ [cancels 2 60])).any
      (fun p => outlived p.world (drawnId 20 4)) = true := by
    decide +kernel
  obtain ⟨p, hp, hc⟩ := reached_of_played check
  simp only [outlived, Bool.and_eq_true, List.any_eq_true, beq_iff_eq, Option.any_eq_true] at hc
  obtain ⟨⟨x, hx, ho⟩, r, hr, hm, hst⟩ := hc
  intro h
  have := (h p hp x hx _ r ho hr hm).1
  rw [hst] at this
  cases this

end CodemcpBridge
