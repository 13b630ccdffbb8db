import CodemcpBridge.Db.Checkpoints
import CodemcpBridge.Db.Sound

/-!
# What the store methods do

For each method on operations and approvals: what its success says of the store before it and what
it leaves.  Callers use these facts and never look into a method.
-/

namespace CodemcpBridge

namespace Database

open OperationRecord (Becomes becomes_transitioned)

variable {db db' : Database} {st : Stamp}

/-! ## Methods that leave operations and approvals alone -/

theorem sameOperations_sessions {sessions : List SessionRecord} :
    db.SameOperations { db with sessions } := ⟨rfl, rfl, rfl⟩

theorem sameOperations_checkpoints {checkpoints : List CheckpointRecord} :
    db.SameOperations { db with checkpoints } := ⟨rfl, rfl, rfl⟩

theorem createSession_same {s p w : String} {d : Option Dict} {row : SessionRecord}
    (h : db.createSession st s p w d = .ok (row, db')) : db.SameOperations db' := by
  simp only [createSession, insertSession, bind, Except.bind] at h
  split at h
  · cases h
  · rename_i db₁ hi
    split at hi
    · cases hi
    · cases hi
      simp only [pure, Except.pure, Except.ok.injEq, Prod.mk.injEq] at h
      obtain ⟨-, rfl⟩ := h
      split
      · exact sameOperations_sessions.trans <| (sameOperations_audit (by decide)).trans <|
          sameOperations_updateSession.trans <| (sameOperations_audit (by decide)).trans <|
          sameOperations_audit (by decide)
      · exact sameOperations_sessions.trans <| (sameOperations_audit (by decide)).trans <|
          sameOperations_updateSession.trans <| sameOperations_audit (by decide)

theorem transitionSession_same {s : String} {s' : SessionStatus} {r : Option String}
    {row : SessionRecord} (h : db.transitionSession st s s' r = .ok (row, db')) :
    db.SameOperations db' := by
  unfold transitionSession at h
  split at h
  · cases h
  · split at h
    · cases h
    · simp only [Except.ok.injEq, Prod.mk.injEq] at h
      obtain ⟨-, rfl⟩ := h
      split
      · exact sameOperations_updateSession.trans (sameOperations_audit (by decide))
      · exact sameOperations_updateSession

theorem createCheckpoint_same {c p : String} {s o : Option String} {w : String}
    {k : CheckpointKind} {b n r : String} {j : Json} {row : CheckpointRecord}
    (h : db.createCheckpoint st c p s o w k b n r j = .ok (row, db')) : db.SameOperations db' := by
  simp only [createCheckpoint, insertCheckpoint, bind, Except.bind] at h
  split at h
  · cases h
  · rename_i db₁ hi
    split at hi
    · cases hi
    · cases hi
      simp only [pure, Except.pure, Except.ok.injEq, Prod.mk.injEq] at h
      obtain ⟨-, rfl⟩ := h
      exact sameOperations_checkpoints.trans (sameOperations_audit (by decide))

theorem finalizeCheckpoint_same {c : String} {d : Dict} {j : Json} {row : CheckpointRecord}
    (h : db.finalizeCheckpoint st c d j = .ok (row, db')) : db.SameOperations db' := by
  unfold finalizeCheckpoint at h
  split at h
  · cases h
  · simp only [Except.ok.injEq, Prod.mk.injEq] at h
    obtain ⟨-, rfl⟩ := h
    exact sameOperations_updateCheckpoint.trans (sameOperations_audit (by decide))

theorem markCheckpointRestored_same {c : String} {row : CheckpointRecord}
    (h : db.markCheckpointRestored st c = .ok (row, db')) : db.SameOperations db' := by
  unfold markCheckpointRestored at h
  split at h
  · cases h
  · simp only [Except.ok.injEq, Prod.mk.injEq] at h
    obtain ⟨-, rfl⟩ := h
    exact sameOperations_updateCheckpoint.trans (sameOperations_audit (by decide))

/-! ## Creating an operation -/

/-- A new operation has been added. -/
structure Created (db : Database) (row : OperationRecord) (db' : Database) : Prop where
  id : ∀ o ∈ db.operations, o.operationId ≠ row.operationId
  slot : ∀ o ∈ db.operations, o.slot ≠ row.slot
  exclusive : ∀ o ∈ db.operations, Exclusive o row
  same : SameOperations { db with operations := db.operations ++ [row] } db'

theorem operationIn?_some {p : String} {s : Option String} {k : ReplayKey} {o : OperationRecord}
    (h : db.operationIn? p s k = some o) : o ∈ db.operations ∧ o.slot = (p, s, k) :=
  ⟨List.mem_of_find?_eq_some h, by simpa using List.find?_some h⟩

theorem operationIn?_none {p : String} {s : Option String} {k : ReplayKey} :
    db.operationIn? p s k = none ↔ ∀ o ∈ db.operations, o.slot ≠ (p, s, k) := by
  simp [operationIn?]

theorem Sound.operationIn?_iff (h : db.Sound) {p : String} {s : Option String} {k : ReplayKey}
    {o : OperationRecord} :
    db.operationIn? p s k = some o ↔ o ∈ db.operations ∧ o.slot = (p, s, k) := by
  have : db.operationIn? p s k = Table.row? OperationRecord.slot (p, s, k) db.operations := by
    simp only [operationIn?, Table.row?, beq_eq_decide]
  rw [this]
  exact Table.row?_eq_some_iff h.slots

/-- `create_operation` finds the row that is there, or adds one that was received. -/
theorem createOperation_ok {o p w : String} {s : Option String} {k : ReplayKey} {n : Json}
    {kind : OperationKind} {m : Bool} {i : Dict} {row : OperationRecord} {existing : Bool}
    (h : db.createOperation st o p s w k n kind m i = .ok ((row, existing), db')) :
    (existing = true ∧ db' = db ∧ db.operationIn? p s k = some row) ∨
    (existing = false ∧ (∃ now, row = {
        operationId := o, projectId := p, sessionId := s, ownerId := w, replayKey := k
        requestHash := n, kind, state := .received, mutation := m, input := i, createdAt := now
        updatedAt := now }) ∧ db.Created row db') := by
  unfold createOperation at h
  split at h
  · rename_i r hr
    simp only [Except.ok.injEq, Prod.mk.injEq] at h
    obtain ⟨⟨rfl, rfl⟩, rfl⟩ := h
    exact .inl ⟨rfl, rfl, hr⟩
  · rename_i hnone
    split at h
    · cases h
    · rename_i hactive
      simp only [insertOperation, bind, Except.bind] at h
      split at h
      · cases h
      · rename_i db₁ hi
        split at hi
        · cases hi
        · rename_i hclash
          cases hi
          simp only [pure, Except.pure, Except.ok.injEq, Prod.mk.injEq] at h
          obtain ⟨⟨rfl, rfl⟩, rfl⟩ := h
          simp only [operationClash, Bool.not_eq_true, List.any_eq_false, Bool.or_eq_true,
            not_or, beq_iff_eq] at hclash
          refine .inr ⟨rfl, ⟨_, rfl⟩, fun r hr => (hclash r hr).1.1, operationIn?_none.1 hnone,
            fun r hr hp hb => ?_, sameOperations_audit (by decide)⟩
          have := (hclash r hr).2
          simp_all

/-- `create_operation` fails on a conflict or on a broken index. -/
theorem createOperation_error {o p w : String} {s : Option String} {k : ReplayKey} {n : Json}
    {kind : OperationKind} {m : Bool} {i : Dict} {e : Exn}
    (h : db.createOperation st o p s w k n kind m i = .error e) :
    e = .integrityError ∨ ∃ id s, e = .activeOperationConflict id s := by
  unfold createOperation at h
  split at h
  · cases h
  · split at h
    · cases h
      exact .inr ⟨_, _, rfl⟩
    · simp only [insertOperation, bind, Except.bind] at h
      split at h
      · rename_i hi
        split at hi <;> cases hi
        cases h
        exact .inl rfl
      · cases h

theorem Created.later {row : OperationRecord} (h : db.Created row db') : db.Later db' := by
  have added : db.Later { db with operations := db.operations ++ [row] } :=
    ⟨fun o ho => ⟨o, List.mem_append_left _ ho, .refl o⟩, fun a ha => ⟨a, ha, .refl a⟩⟩
  exact added.trans h.same.later

theorem Created.mem_iff {row o : OperationRecord} (h : db.Created row db') :
    o ∈ db'.operations ↔ o ∈ db.operations ∨ o = row := by
  simp [h.same.operations]

theorem Created.sound {row : OperationRecord} (h : db.Created row db') (hs : db.Sound) :
    db'.Sound := by
  suffices added : Sound { db with operations := db.operations ++ [row] } from added.same h.same
  refine ⟨?_, ?_, ?_, hs.approvalIds, hs.approvalOps, fun a ha => ?_⟩
  · simpa [List.nodup_append, hs.ids] using h.id
  · simpa [List.nodup_append, hs.slots] using h.slot
  · simpa [List.pairwise_append, hs.active] using h.exclusive
  · simpa using .inl (by simpa using hs.known a ha)

theorem Created.operation?_self {row : OperationRecord} (h : db.Created row db') :
    db'.operation? row.operationId = some row := by
  have hnone : db.operation? row.operationId = none := Table.row?_none.2 h.id
  rw [h.same.operation?]
  simp only [Database.operation?] at hnone ⊢
  simp [Table.row?_append, hnone]

theorem Created.operation?_of_ne {row : OperationRecord} {id : String} (h : db.Created row db')
    (hid : id ≠ row.operationId) : db'.operation? id = db.operation? id := by
  rw [h.same.operation?]
  simp [Database.operation?, Table.row?_append, hid.symm]

/-! ## Transitions -/

/-- The operation `current` has been moved to `row`. -/
structure Moved (db : Database) (current row : OperationRecord) (db' : Database) : Prop where
  found : db.operation? current.operationId = some current
  forward : current.Becomes row
  same : SameOperations (db.withOperation current.operationId fun _ => row) db'

theorem Moved.sound {current row : OperationRecord} (h : db.Moved current row db')
    (hs : db.Sound) : db'.Sound := by
  refine Sound.same (hs.withOperation fun o ho hid => ?_) h.same
  have : o = current :=
    Option.some.inj ((hs.operation?_iff.2 ⟨ho, hid⟩).symm.trans h.found)
  exact this ▸ h.forward

theorem Moved.later {current row : OperationRecord} (h : db.Moved current row db')
    (hs : db.Sound) : db.Later db' := by
  refine (later_withOperation fun o ho hid => ?_).trans h.same.later
  have : o = current :=
    Option.some.inj ((hs.operation?_iff.2 ⟨ho, hid⟩).symm.trans h.found)
  exact this ▸ h.forward

theorem Moved.operation?_self {current row : OperationRecord} (h : db.Moved current row db') :
    db'.operation? current.operationId = some row := by
  rw [h.same.operation?]
  simp only [Database.operation?, withOperation]
  rw [Table.row?_update_self fun _ _ => h.forward.operationId]
  simpa [Database.operation?] using ⟨current, h.found⟩

theorem Moved.operation?_of_ne {current row : OperationRecord} {id : String}
    (h : db.Moved current row db') (hid : id ≠ current.operationId) :
    db'.operation? id = db.operation? id := by
  rw [h.same.operation?]
  exact Table.row?_update_of_ne hid fun _ _ => h.forward.operationId

/-- `transition_operation` makes a permitted transition. -/
theorem transitionOperation_ok {id : String} {s : OperationState} {e : Option OperationState}
    {r : Option Payload} {x : Option ErrorData} {row : OperationRecord}
    (h : db.transitionOperation st id s e r x = .ok (row, db')) :
    ∃ current, current.operationId = id ∧ (∀ s', e = some s' → current.state = s') ∧
      current.state.mayBecome s = true ∧ row = transitioned current (db.clock st) s r x ∧
      db.Moved current row db' := by
  unfold transitionOperation at h
  split at h
  · cases h
  · rename_i current hc
    split at h
    · cases h
    · rename_i he
      split at h
      · cases h
      · rename_i ht
        simp only [bind, Except.bind] at h
        split at h
        · cases h
        · rename_i db₁ hu
          simp only [pure, Except.pure, Except.ok.injEq, Prod.mk.injEq] at h
          obtain ⟨rfl, rfl⟩ := h
          have hid := (operation?_some hc).2
          have hm : current.state.mayBecome s = true := by
            simp only [OperationState.mayBecome, Bool.or_eq_true, beq_iff_eq,
              List.contains_iff_mem]
            tauto
          refine ⟨current, hid, ?_, hm, rfl, hid ▸ hc, becomes_transitioned hm, ?_⟩
          · rintro s' rfl
            simpa using he
          · rw [updateOperation_ok hu, hid]
            split
            · exact sameOperations_audit (by decide)
            · exact .refl _

theorem transitionOperation_error {id : String} {s : OperationState} {e : Option OperationState}
    {r : Option Payload} {x : Option ErrorData} {err : Exn}
    (h : db.transitionOperation st id s e r x = .error err) :
    err = .persistenceError ∨ err = .invalidTransition ∨ err = .integrityError := by
  unfold transitionOperation at h
  split at h
  · cases h
    exact .inl rfl
  · split at h
    · cases h
      exact .inr (.inl rfl)
    · split at h
      · cases h
        exact .inr (.inl rfl)
      · simp only [bind, Except.bind, updateOperation] at h
        split at h
        · rename_i hu
          split at hu <;> cases hu
          cases h
          exact .inr (.inr rfl)
        · cases h

/-- A permitted transition of an operation that is there succeeds. -/
theorem Sound.transitionOperation (st : Stamp) (hs : db.Sound) {id : String} {s : OperationState}
    {e : Option OperationState} {r : Option Payload} {x : Option ErrorData}
    {current : OperationRecord} (hc : db.operation? id = some current)
    (he : ∀ s', e = some s' → current.state = s') (hm : current.state.mayBecome s = true) :
    ∃ db', db.transitionOperation st id s e r x =
      .ok (transitioned current (db.clock st) s r x, db') := by
  have hu : db.updateOperation id (fun _ => transitioned current (db.clock st) s r x) = _ :=
    hs.updateOperation fun o ho hid => by
      have : o = current := Option.some.inj ((hs.operation?_iff.2 ⟨ho, hid⟩).symm.trans hc)
      subst this
      exact becomes_transitioned hm
  have he' : (e.any fun s => current.state != s) = false := by
    cases e with
    | none => rfl
    | some s' => simpa using he s' rfl
  have hm' : ¬(s ≠ current.state ∧ s ∉ operationTransitions current.state) := by
    simp only [OperationState.mayBecome, Bool.or_eq_true, beq_iff_eq,
      List.contains_iff_mem] at hm
    tauto
  simp only [Database.transitionOperation, hc, he', hm', hu]
  exact ⟨_, rfl⟩

/-! ## Who created an operation -/

theorem recordOperationAuthContext_ok {id : String} {d : Dict}
    (h : db.recordOperationAuthContext st id d = .ok db') :
    ∃ o, db.operation? id = some o ∧ db' = db.audit st o.operationId o.projectId o.sessionId
      o.ownerId "auth.context" none none d := by
  unfold recordOperationAuthContext at h
  split at h
  · cases h
  · rename_i o ho
    exact ⟨o, ho, (Except.ok.inj h).symm⟩

theorem recordOperationAuthContext_error {id : String} {d : Dict} {e : Exn}
    (h : db.recordOperationAuthContext st id d = .error e) : e = .persistenceError := by
  unfold recordOperationAuthContext at h
  split at h
  · cases h
    rfl
  · cases h

/-! ## Approvals -/

/-- `create_approval` adds a pending approval for an operation that had none. -/
theorem createApproval_ok {id : String} {o : OperationRecord} {n : String} {k : TokenHash} {e : ℕ}
    (h : db.createApproval st id o n k e = .ok db') :
    ∃ a : ApprovalRecord, a.approvalId = id ∧ a.operationId = o.operationId ∧
      a.tokenHash = k ∧ a.status = .pending ∧ a.expiresAt = e ∧
      (db.operation? o.operationId).isSome ∧
      (∀ b ∈ db.approvals, b.approvalId ≠ id ∧ b.operationId ≠ o.operationId ∧ b.tokenHash ≠ k) ∧
      SameOperations { db with approvals := db.approvals ++ [a] } db' := by
  simp only [createApproval, insertApproval, bind, Except.bind] at h
  split at h
  · cases h
  · rename_i db₁ hi
    split at hi
    · cases hi
    · rename_i hn
      cases hi
      cases h
      simp only [Bool.or_eq_true, not_or, Bool.not_eq_true, List.any_eq_false, beq_iff_eq,
        Option.isNone_eq_false_iff] at hn
      exact ⟨_, rfl, rfl, rfl, rfl, rfl, hn.1, fun b hb => and_assoc.1 (hn.2 b hb),
        sameOperations_audit (by decide)⟩

/-- An approval with a new id and a new token can be issued for an operation that has none. -/
theorem createApproval_total (st : Stamp) {id : String} {o : OperationRecord} {n : String}
    {k : TokenHash} {e : ℕ} (ho : (db.operation? o.operationId).isSome)
    (hn : ∀ b ∈ db.approvals, b.approvalId ≠ id ∧ b.operationId ≠ o.operationId ∧ b.tokenHash ≠ k) :
    ∃ db', db.createApproval st id o n k e = .ok db' := by
  have hany : (db.approvals.any fun b => b.approvalId == id || b.operationId == o.operationId ||
      b.tokenHash == k) = false := by
    simp only [List.any_eq_false, Bool.or_eq_true, beq_iff_eq, not_or]
    exact fun b hb => and_assoc.2 (hn b hb)
  have hnone : (db.operation? o.operationId).isNone = false := by simpa using ho
  exact ⟨_, by simp [createApproval, insertApproval, bind, Except.bind, hany, hnone]; rfl⟩

/-- The approval of an operation has left the pending state. -/
structure Settled (db : Database) (a a' : ApprovalRecord) (db' : Database) : Prop where
  found : db.approval? a.operationId = some a
  pending : a.status = .pending
  forward : a.Becomes a'
  left : a'.status ≠ .pending
  same : SameOperations (db.updateApproval a.operationId fun _ => a') db'

theorem updateApproval_eq {id : String} {a : ApprovalRecord} {g : ApprovalRecord → ApprovalRecord}
    (hs : db.Sound) (ha : db.approval? id = some a) :
    db.updateApproval id g = db.updateApproval id fun _ => g a := by
  simp only [Database.updateApproval, Table.update]
  congr 1
  refine List.map_congr_left fun b hb => ?_
  split_ifs with hk
  · have : b = a := Option.some.inj ((hs.approval?_iff.2 ⟨hb, hk⟩).symm.trans ha)
    rw [this]
  · rfl

/-- `consume_approval` consumes a pending approval in time, for its own token. -/
theorem consumeApproval_ok (hs : db.Sound) {id : String} {k : TokenHash} {now : ℕ}
    {o : OperationRecord} (h : db.consumeApproval st id k now = .ok (o, db')) :
    ∃ a a', a.operationId = id ∧ db.operation? id = some o ∧ a.tokenHash = k ∧
      now < a.expiresAt ∧ a'.status = .consumed ∧ db.Settled a a' db' := by
  unfold consumeApproval at h
  split at h
  · rename_i a o' ha ho
    split_ifs at h with hk hp he hx
    simp only [Except.ok.injEq, Prod.mk.injEq] at h
    obtain ⟨rfl, rfl⟩ := h
    simp only [ne_eq, not_not] at hk hp
    have hid := (approval?_some ha).2
    refine ⟨a, { a with status := .consumed, consumedAt := some now }, hid, ho, hk, by omega, rfl,
      hid ▸ ha, hp, ⟨rfl, fun hn => absurd hp hn⟩, by simp, ?_⟩
    rw [updateApproval_eq hs ha, hid]
    exact sameOperations_audit (by decide)
  · cases h

/-- `cancel_approval` cancels a pending approval. -/
theorem cancelApproval_ok (hs : db.Sound) {id r : String}
    (h : db.cancelApproval st id r = .ok db') :
    ∃ a a', a.operationId = id ∧ a'.status = .cancelled ∧ db.Settled a a' db' := by
  unfold cancelApproval at h
  split at h
  · rename_i a o ha ho
    cases h
    have hm : a ∈ db.approvals := List.mem_of_find?_eq_some ha
    have hp : a.operationId = id ∧ a.status = .pending := by
      simpa using List.find?_some ha
    have hf : db.approval? id = some a := hs.approval?_iff.2 ⟨hm, hp.1⟩
    refine ⟨a, { a with status := .cancelled }, hp.1, rfl, hp.1 ▸ hf, hp.2,
      ⟨rfl, fun hn => absurd hp.2 hn⟩, by simp, ?_⟩
    rw [updateApproval_eq hs hf, hp.1]
    exact sameOperations_audit (by decide)
  · cases h

namespace Settled

variable {a a' : ApprovalRecord}

theorem becomes (h : db.Settled a a' db') (hs : db.Sound) :
    ∀ b ∈ db.approvals, b.operationId = a.operationId → b.Becomes a' := fun b hb hid => by
  have : b = a := Option.some.inj ((hs.approval?_iff.2 ⟨hb, hid⟩).symm.trans h.found)
  exact this ▸ h.forward

theorem sound (h : db.Settled a a' db') (hs : db.Sound) : db'.Sound :=
  (hs.updateApproval (h.becomes hs)).same h.same

theorem later (h : db.Settled a a' db') (hs : db.Sound) : db.Later db' :=
  (later_updateApproval (h.becomes hs)).trans h.same.later

theorem approval?_self (h : db.Settled a a' db') :
    db'.approval? a.operationId = some a' := by
  rw [h.same.approval?]
  simp only [Database.approval?, updateApproval]
  rw [Table.row?_update_self fun _ _ => h.forward.operationId]
  simpa [Database.approval?] using ⟨a, h.found⟩

theorem approval?_of_ne {id : String} (h : db.Settled a a' db') (hid : id ≠ a.operationId) :
    db'.approval? id = db.approval? id := by
  rw [h.same.approval?]
  exact Table.row?_update_of_ne hid fun _ _ => h.forward.operationId

theorem operations (h : db.Settled a a' db') : db'.operations = db.operations :=
  h.same.operations

theorem operation? (h : db.Settled a a' db') (id : String) :
    db'.operation? id = db.operation? id :=
  h.same.operation? id

end Settled

end Database

end CodemcpBridge
