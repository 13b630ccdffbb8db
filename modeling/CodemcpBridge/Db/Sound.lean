import CodemcpBridge.Db.Recovery

/-!
# What the schema guarantees

`Sound` is what the keys and the indexes of the schema say of the tables.  `Becomes` is what any
number of store methods may make of an operation, which only ever moves forward, and `Later` is what
they may make of a store.  In a sound store no update that moves an operation forward runs into the
index of active mutations.
-/

namespace CodemcpBridge

/-! ## Rows that move forward -/

/-- The active set is left at the end of the way only. -/
theorem OperationState.active_iff {s : OperationState} : s.active = true ↔ s.rank ≤ 5 := by
  cases s <;> decide

namespace OperationRecord

/-- The fields of an operation that are written once. -/
def origin (o : OperationRecord) : OperationRecord :=
  { o with state := .received, result := none, error := none, updatedAt := 0, startedAt := none
           finishedAt := none }

/-- What an operation may have become later. -/
structure Becomes (o o' : OperationRecord) : Prop where
  origin : o'.origin = o.origin
  rank : o.state.rank ≤ o'.state.rank

namespace Becomes

variable {o o' o'' : OperationRecord}

theorem refl (o : OperationRecord) : o.Becomes o := ⟨rfl, Nat.le_refl _⟩

theorem trans (h : o.Becomes o') (h' : o'.Becomes o'') : o.Becomes o'' :=
  ⟨h'.origin.trans h.origin, Nat.le_trans h.rank h'.rank⟩

/-- A field that is written once is kept. -/
theorem keeps {β : Type} (h : o.Becomes o') (field : OperationRecord → β)
    (once : ∀ o : OperationRecord, field o.origin = field o) : field o' = field o := by
  rw [← once o', ← once o, h.origin]

theorem operationId (h : o.Becomes o') : o'.operationId = o.operationId :=
  h.keeps _ fun _ => rfl

theorem projectId (h : o.Becomes o') : o'.projectId = o.projectId := h.keeps _ fun _ => rfl

theorem sessionId (h : o.Becomes o') : o'.sessionId = o.sessionId := h.keeps _ fun _ => rfl

theorem replayKey (h : o.Becomes o') : o'.replayKey = o.replayKey := h.keeps _ fun _ => rfl

theorem requestHash (h : o.Becomes o') : o'.requestHash = o.requestHash :=
  h.keeps _ fun _ => rfl

theorem mutation (h : o.Becomes o') : o'.mutation = o.mutation := h.keeps _ fun _ => rfl

theorem slot (h : o.Becomes o') : o'.slot = o.slot := h.keeps _ fun _ => rfl

theorem blocks (h : o.Becomes o') (hb : o'.blocks = true) : o.blocks = true := by
  simp only [OperationRecord.blocks, Bool.and_eq_true, OperationState.active_iff] at hb ⊢
  exact ⟨h.mutation ▸ hb.1, Nat.le_trans h.rank hb.2⟩

end Becomes

/-- A permitted transition moves the operation forward. -/
theorem becomes_transitioned {o : OperationRecord} {now : ℕ} {s : OperationState}
    {result : Option Payload} {error : Option ErrorData} (h : o.state.mayBecome s = true) :
    o.Becomes (Database.transitioned o now s result error) :=
  ⟨rfl, OperationState.rank_le_of_mayBecome h⟩

end OperationRecord

/-- What an approval may have become later: once it is not pending it stays as it is. -/
structure ApprovalRecord.Becomes (a a' : ApprovalRecord) : Prop where
  origin : { a' with status := .pending, consumedAt := none } =
    { a with status := .pending, consumedAt := none }
  settled : a.status ≠ .pending → a' = a

namespace ApprovalRecord.Becomes

variable {a a' a'' : ApprovalRecord}

theorem refl (a : ApprovalRecord) : a.Becomes a := ⟨rfl, fun _ => rfl⟩

theorem trans (h : a.Becomes a') (h' : a'.Becomes a'') : a.Becomes a'' := by
  refine ⟨h'.origin.trans h.origin, fun hs => ?_⟩
  have := h.settled hs
  subst this
  exact h'.settled hs

theorem operationId (h : a.Becomes a') : a'.operationId = a.operationId :=
  (congrArg ApprovalRecord.operationId h.origin :)

theorem approvalId (h : a.Becomes a') : a'.approvalId = a.approvalId :=
  (congrArg ApprovalRecord.approvalId h.origin :)

theorem tokenHash (h : a.Becomes a') : a'.tokenHash = a.tokenHash :=
  (congrArg ApprovalRecord.tokenHash h.origin :)

theorem pending (h : a.Becomes a') (hp : a'.status = .pending) : a.status = .pending := by
  by_contra hn
  exact hn (h.settled hn ▸ hp)

end ApprovalRecord.Becomes

open OperationRecord (Becomes)

namespace Database

/-! ## Soundness -/

/-- Two operations do not both block one project. -/
def Exclusive (a b : OperationRecord) : Prop :=
  a.projectId = b.projectId → ¬(a.blocks = true ∧ b.blocks = true)

structure Sound (db : Database) : Prop where
  ids : (db.operations.map OperationRecord.operationId).Nodup
  slots : (db.operations.map OperationRecord.slot).Nodup
  active : db.operations.Pairwise Exclusive
  approvalIds : (db.approvals.map ApprovalRecord.approvalId).Nodup
  approvalOps : (db.approvals.map ApprovalRecord.operationId).Nodup
  known : ∀ a ∈ db.approvals, a.operationId ∈ db.operations.map OperationRecord.operationId

theorem sound_empty : Sound {} := by
  constructor <;> simp

/-- A project of a sound store has one mutation in the active set at most. -/
theorem Sound.activeMutations_le {db : Database} (h : db.Sound) (projectId : String) :
    (db.activeMutations projectId).length ≤ 1 := by
  have hp : (db.activeMutations projectId).Pairwise fun _ _ => False := by
    refine List.Pairwise.imp_of_mem ?_ (h.active.filter _)
    intro a b ha hb hab
    simp only [activeMutations, List.mem_filter, Bool.and_eq_true, beq_iff_eq] at ha hb
    exact hab (ha.2.1.trans hb.2.1.symm) ⟨ha.2.2, hb.2.2⟩
  rcases hl : db.activeMutations projectId with _ | ⟨a, _ | ⟨b, l⟩⟩
  · simp
  · simp
  · rw [hl] at hp
    exact absurd ((List.pairwise_cons.1 hp).1 b List.mem_cons_self) id

section Rows

variable {db : Database} {id : String} {o : OperationRecord} {a : ApprovalRecord}

theorem operation?_some (h : db.operation? id = some o) : o ∈ db.operations ∧ o.operationId = id :=
  Table.row?_some h

theorem approval?_some (h : db.approval? id = some a) : a ∈ db.approvals ∧ a.operationId = id :=
  Table.row?_some h

theorem Sound.operation?_iff (h : db.Sound) :
    db.operation? id = some o ↔ o ∈ db.operations ∧ o.operationId = id :=
  Table.row?_eq_some_iff h.ids

theorem Sound.approval?_iff (h : db.Sound) :
    db.approval? id = some a ↔ a ∈ db.approvals ∧ a.operationId = id :=
  Table.row?_eq_some_iff h.approvalOps

theorem Sound.operation?_self (h : db.Sound) (ho : o ∈ db.operations) :
    db.operation? o.operationId = some o :=
  h.operation?_iff.2 ⟨ho, rfl⟩

/-- The operation of an approval is there. -/
theorem Sound.operation_of_approval (h : db.Sound) (ha : a ∈ db.approvals) :
    ∃ o, db.operation? a.operationId = some o := by
  obtain ⟨o, ho, hid⟩ := List.mem_map.1 (h.known a ha)
  exact ⟨o, h.operation?_iff.2 ⟨ho, hid⟩⟩

/-- Two rows that block one project are one row. -/
theorem Sound.eq_of_blocks (h : db.Sound) {o' : OperationRecord} (ho : o ∈ db.operations)
    (ho' : o' ∈ db.operations) (hp : o.projectId = o'.projectId) (hb : o.blocks = true)
    (hb' : o'.blocks = true) : o = o' := by
  have : Std.Symm Exclusive := ⟨fun _ _ h hp hb => h hp.symm ⟨hb.2, hb.1⟩⟩
  by_contra hne
  exact h.active.forall ho ho' hne hp ⟨hb, hb'⟩

end Rows

/-! ## Later stores -/

/-- The events that record who created an operation. -/
def authEvents (db : Database) : List AuditEvent :=
  db.auditEvents.filter fun e => e.eventType == "auth.context"

/-- What any number of methods may make of the operations and approvals of a store. -/
structure Later (db db' : Database) : Prop where
  operations : ∀ o ∈ db.operations, ∃ o' ∈ db'.operations, o.Becomes o'
  approvals : ∀ a ∈ db.approvals, ∃ a' ∈ db'.approvals, a.Becomes a'

namespace Later

variable {db db' db'' : Database}

theorem refl (db : Database) : db.Later db :=
  ⟨fun o ho => ⟨o, ho, .refl o⟩, fun a ha => ⟨a, ha, .refl a⟩⟩

theorem trans (h : db.Later db') (h' : db'.Later db'') : db.Later db'' := by
  constructor
  · intro o ho
    obtain ⟨o', ho', hb⟩ := h.operations o ho
    obtain ⟨o'', ho'', hb'⟩ := h'.operations o' ho'
    exact ⟨o'', ho'', hb.trans hb'⟩
  · intro a ha
    obtain ⟨a', ha', hb⟩ := h.approvals a ha
    obtain ⟨a'', ha'', hb'⟩ := h'.approvals a' ha'
    exact ⟨a'', ha'', hb.trans hb'⟩

theorem operation? (h : db.Later db') (hs : db'.Sound) {id : String} {o : OperationRecord}
    (ho : db.operation? id = some o) : ∃ o', db'.operation? id = some o' ∧ o.Becomes o' := by
  obtain ⟨hm, hid⟩ := operation?_some ho
  obtain ⟨o', ho', hb⟩ := h.operations o hm
  exact ⟨o', hs.operation?_iff.2 ⟨ho', hb.operationId.trans hid⟩, hb⟩

theorem approval? (h : db.Later db') (hs : db'.Sound) {id : String} {a : ApprovalRecord}
    (ha : db.approval? id = some a) : ∃ a', db'.approval? id = some a' ∧ a.Becomes a' := by
  obtain ⟨hm, hid⟩ := approval?_some ha
  obtain ⟨a', ha', hb⟩ := h.approvals a hm
  exact ⟨a', hs.approval?_iff.2 ⟨ha', hb.operationId.trans hid⟩, hb⟩

end Later

/-- The operations, the approvals and the records of who created an operation are the same. -/
structure SameOperations (db db' : Database) : Prop where
  operations : db'.operations = db.operations
  approvals : db'.approvals = db.approvals
  authEvents : db'.authEvents = db.authEvents

namespace SameOperations

variable {db db' db'' : Database}

theorem refl (db : Database) : db.SameOperations db := ⟨rfl, rfl, rfl⟩

theorem trans (h : db.SameOperations db') (h' : db'.SameOperations db'') :
    db.SameOperations db'' :=
  ⟨h'.operations.trans h.operations, h'.approvals.trans h.approvals,
    h'.authEvents.trans h.authEvents⟩

theorem later (h : db.SameOperations db') : db.Later db' := by
  refine ⟨fun o ho => ⟨o, ?_, .refl o⟩, fun a ha => ⟨a, ?_, .refl a⟩⟩
  · rwa [h.operations]
  · rwa [h.approvals]

theorem operation? (h : db.SameOperations db') (id : String) :
    db'.operation? id = db.operation? id := by
  rw [Database.operation?, Database.operation?, h.operations]

theorem approval? (h : db.SameOperations db') (id : String) :
    db'.approval? id = db.approval? id := by
  rw [Database.approval?, Database.approval?, h.approvals]

end SameOperations

/-- The context that is read back for an operation is one of the recorded ones. -/
theorem operationAuthContext?_eq (db : Database) (id : String) : db.operationAuthContext? id =
    ((orderBy (fun e : AuditEvent => (e.createdAt, e.eventId)) (db.authEvents.filter fun e =>
      e.operationId == some id)).head?).map AuditEvent.details := by
  simp only [operationAuthContext?, authEvents, List.filter_filter]

theorem SameOperations.operationAuthContext? {db db' : Database} (h : db.SameOperations db')
    (id : String) : db'.operationAuthContext? id = db.operationAuthContext? id := by
  rw [operationAuthContext?_eq, operationAuthContext?_eq, h.authEvents]

/-- The soundness of a store is one of its operations and approvals. -/
theorem Sound.same {db db' : Database} (h : db.Sound) (hs : db.SameOperations db') :
    db'.Sound := by
  constructor
  · simpa only [hs.operations] using h.ids
  · simpa only [hs.operations] using h.slots
  · simpa only [hs.operations] using h.active
  · simpa only [hs.approvals] using h.approvalIds
  · simpa only [hs.approvals] using h.approvalOps
  · simpa only [hs.operations, hs.approvals] using h.known

theorem sameOperations_audit {db : Database} {st : Stamp} {o p s : Option String} {w e : String}
    {f t : Option String} {d : Dict} (h : e ≠ "auth.context") :
    db.SameOperations (db.audit st o p s w e f t d) := by
  refine ⟨rfl, rfl, ?_⟩
  simp [authEvents, audit, h]

theorem sameOperations_updateSession {db : Database} {id : String}
    {f : SessionRecord → SessionRecord} : db.SameOperations (db.updateSession id f) :=
  ⟨rfl, rfl, rfl⟩

theorem sameOperations_updateCheckpoint {db : Database} {id : String}
    {f : CheckpointRecord → CheckpointRecord} : db.SameOperations (db.updateCheckpoint id f) :=
  ⟨rfl, rfl, rfl⟩

/-! ## Updates -/

section Update

variable {db : Database} {id : String} {f : OperationRecord → OperationRecord}
  {g : ApprovalRecord → ApprovalRecord}

/-- The store with one operation changed. -/
def withOperation (db : Database) (id : String) (f : OperationRecord → OperationRecord) :
    Database :=
  { db with operations := Table.update OperationRecord.operationId id f db.operations }

/-- Moving one operation forward keeps the store sound. -/
theorem Sound.withOperation (h : db.Sound)
    (hf : ∀ o ∈ db.operations, o.operationId = id → o.Becomes (f o)) :
    (db.withOperation id f).Sound := by
  have hb : ∀ o ∈ db.operations, o.Becomes (if o.operationId = id then f o else o) :=
    fun o ho => by
      split_ifs with hk
      · exact hf o ho hk
      · exact Becomes.refl o
  have hids : (db.withOperation id f).operations.map OperationRecord.operationId =
      db.operations.map OperationRecord.operationId :=
    Table.map_update fun o ho hk => (hf o ho hk).operationId
  have hslots : (db.withOperation id f).operations.map OperationRecord.slot =
      db.operations.map OperationRecord.slot :=
    Table.map_update fun o ho hk => (hf o ho hk).slot
  refine ⟨hids ▸ h.ids, hslots ▸ h.slots, ?_, h.approvalIds, h.approvalOps, ?_⟩
  · exact Table.pairwise_update h.active fun a ha b hb' hab hp hblocks =>
      hab ((hb a ha).projectId ▸ (hb b hb').projectId ▸ hp)
        ⟨(hb a ha).blocks hblocks.1, (hb b hb').blocks hblocks.2⟩
  · intro a ha
    rw [hids]
    exact h.known a ha

theorem later_withOperation (hf : ∀ o ∈ db.operations, o.operationId = id → o.Becomes (f o)) :
    db.Later (db.withOperation id f) := by
  refine ⟨fun o ho => ?_, fun a ha => ⟨a, ha, .refl a⟩⟩
  by_cases hk : o.operationId = id
  · exact ⟨f o, Table.mem_update_of_eq ho hk, hf o ho hk⟩
  · exact ⟨o, Table.mem_update_of_ne ho hk, .refl o⟩

/-- Moving one operation forward never runs into the index of active mutations. -/
theorem Sound.updateOperation (h : db.Sound)
    (hf : ∀ o ∈ db.operations, o.operationId = id → o.Becomes (f o)) :
    db.updateOperation id f = .ok (db.withOperation id f) := by
  have hs := h.withOperation hf
  simp only [Database.updateOperation]
  rw [if_pos]
  · rfl
  · simp only [List.all_eq_true, decide_eq_true_eq]
    exact fun o _ => hs.activeMutations_le o.projectId

/-- What a successful `updateOperation` leaves. -/
theorem updateOperation_ok {db' : Database} (h : db.updateOperation id f = .ok db') :
    db' = db.withOperation id f := by
  simp only [Database.updateOperation] at h
  split at h
  · exact (Except.ok.inj h).symm
  · cases h

theorem Sound.updateApproval (h : db.Sound)
    (hg : ∀ a ∈ db.approvals, a.operationId = id → a.Becomes (g a)) :
    (db.updateApproval id g).Sound := by
  have hids : (db.updateApproval id g).approvals.map ApprovalRecord.approvalId =
      db.approvals.map ApprovalRecord.approvalId :=
    Table.map_update fun a ha hk => (hg a ha hk).approvalId
  have hops : (db.updateApproval id g).approvals.map ApprovalRecord.operationId =
      db.approvals.map ApprovalRecord.operationId :=
    Table.map_update fun a ha hk => (hg a ha hk).operationId
  refine ⟨h.ids, h.slots, h.active, hids ▸ h.approvalIds, hops ▸ h.approvalOps, fun a ha => ?_⟩
  obtain ⟨b, hb, hab⟩ := List.mem_map.1 (hops ▸ List.mem_map_of_mem
    (f := ApprovalRecord.operationId) ha)
  exact hab ▸ h.known b hb

theorem later_updateApproval (hg : ∀ a ∈ db.approvals, a.operationId = id → a.Becomes (g a)) :
    db.Later (db.updateApproval id g) := by
  refine ⟨fun o ho => ⟨o, ho, .refl o⟩, fun a ha => ?_⟩
  by_cases hk : a.operationId = id
  · exact ⟨g a, Table.mem_update_of_eq ha hk, hg a ha hk⟩
  · exact ⟨a, Table.mem_update_of_ne ha hk, .refl a⟩

end Update

end Database

end CodemcpBridge
