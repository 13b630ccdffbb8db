import CodemcpBridge.Properties.Runs

/-!
# One mutation of a project at a time

No store method breaks the exclusion of active mutations, whoever calls it and in whichever order;
so no body of a mutation starts while another mutation of its project is in the active set.
-/

namespace CodemcpBridge

/-- In every store that methods can leave, in whichever order and with whatever arguments, a project
has at most one active mutation, and no permitted transition and no recovery breaks the index that
says so.  The stores of the process are such stores; and where a run starts the body of a mutation,
no other mutation of its project is in the active set. -/
theorem mutations_exclusive :
    (∀ db, Stored db →
      (∀ projectId, (db.activeMutations projectId).length ≤ 1) ∧
      (∀ st o current s expected result error, db.operation? o = some current →
        (∀ s', expected = some s' → current.state = s') → current.state.mayBecome s = true →
        ∃ row db', db.transitionOperation st o s expected result error = .ok (row, db')) ∧
      ∀ st, ∃ recovered db', db.recoverAfterRestart st = .ok (recovered, db')) ∧
    ∀ settings d p, Reached settings d p → Stored p.world.db ∧
      ∀ e ∈ p.world.log, ∀ o, e.Enters o → ∀ r, e.before.operation? o = some r →
        r.mutation = true → ∀ r' ∈ e.before.operations, r'.projectId = r.projectId →
          r'.mutation = true → r'.state.active = true → r' = r := by
  refine ⟨fun db hdb => ⟨hdb.sound.activeMutations_le, ?_, fun st => ?_⟩,
    fun settings d p hp => ⟨hp.stored, ?_⟩⟩
  · intro st o current s expected result error hrow hexp hmay
    obtain ⟨db', hdb'⟩ := hdb.sound.transitionOperation st (r := result) (x := error) hrow hexp hmay
    exact ⟨_, db', hdb'⟩
  · obtain ⟨recovered, db', h, -⟩ := hdb.sound.recoverAfterRestart st
    exact ⟨recovered, db', h⟩
  · intro e he o henter r hr hm r' hr' hproject hm' hactive
    obtain ⟨newer, older, hlog⟩ := List.append_of_mem he
    have hok := hp.entry hlog
    obtain ⟨⟨x, hx, hrun⟩, -⟩ := hok.enter o henter
    cases hr.symm.trans hx
    refine hok.sound.1.eq_of_blocks hr' (Database.operation?_some hr).1 hproject ?_ ?_
    · simp [OperationRecord.blocks, hm', hactive]
    · simp [OperationRecord.blocks, hm, hrun]
      decide

end CodemcpBridge
