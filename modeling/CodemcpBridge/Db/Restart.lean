import CodemcpBridge.Db.Effects

/-!
# What a recovery leaves

The recovery never fails on a sound store.  It settles every operation that was in flight, leaves
every other as it was, and no approval pending.
-/

namespace CodemcpBridge

open OperationRecord (Becomes)

namespace Database

variable {db db' db'' : Database} {st : Stamp}

theorem inFlight_iff {s : OperationState} : inFlight s = true ↔ s.rank ≤ 4 := by
  cases s <;> decide

theorem recoveredState_rank (m : Bool) (s : OperationState) : 5 ≤ (recoveredState m s).rank := by
  cases m <;> cases s <;> decide

/-- What the recovery makes of an operation: it is settled, or it was. -/
structure Recovery (o o' : OperationRecord) : Prop where
  origin : o'.origin = o.origin
  result : o'.result = o.result
  state : o'.state = if inFlight o.state then recoveredState o.mutation o.state else o.state

theorem Recovery.becomes {o o' : OperationRecord} (h : Recovery o o') : o.Becomes o' := by
  refine ⟨h.origin, ?_⟩
  rw [h.state]
  split
  · have := inFlight_iff.1 ‹_›
    have := recoveredState_rank o.mutation o.state
    omega
  · exact Nat.le_refl _

/-- Whatever it was, it is on its way no longer. -/
theorem Recovery.rank {o o' : OperationRecord} (h : Recovery o o') : 5 ≤ o'.state.rank := by
  rw [h.state]
  split
  · exact recoveredState_rank _ _
  · have := mt inFlight_iff.2 ‹_›
    omega

/-- What the recovery may make of an approval. -/
def Cancels (a a' : ApprovalRecord) : Prop :=
  a' = a ∨ a.status = .pending ∧ a' = { a with status := .cancelled }

theorem Cancels.becomes {a a' : ApprovalRecord} (h : Cancels a a') : a.Becomes a' := by
  rcases h with rfl | ⟨hp, rfl⟩
  · exact .refl _
  · exact ⟨rfl, fun hn => absurd hp hn⟩

theorem Cancels.trans {a a' a'' : ApprovalRecord} (h : Cancels a a') (h' : Cancels a' a'') :
    Cancels a a'' := by
  rcases h' with rfl | ⟨hp, rfl⟩
  · exact h
  · rcases h with rfl | ⟨hp', rfl⟩
    · exact .inr ⟨hp, rfl⟩
    · cases hp

/-- Every operation has changed as `R` says, and every approval as `Cancels` does. -/
structure Swept (R : OperationRecord → OperationRecord → Prop) (db db' : Database) : Prop where
  operations : ∃ f, db'.operations = db.operations.map f ∧ ∀ o ∈ db.operations, R o (f o)
  approvals : ∃ g, db'.approvals = db.approvals.map g ∧ ∀ a ∈ db.approvals, Cancels a (g a)
  authEvents : db'.authEvents = db.authEvents

namespace Swept

variable {R R' R'' : OperationRecord → OperationRecord → Prop}

theorem same (h : db.SameOperations db') : Swept Eq db db' :=
  ⟨⟨id, by simp [h.operations], fun _ _ => rfl⟩,
    ⟨id, by simp [h.approvals], fun _ _ => .inl rfl⟩, h.authEvents⟩

theorem trans (h : Swept R db db') (h' : Swept R' db' db'')
    (hr : ∀ o ∈ db.operations, ∀ o', R o o' → ∀ o'', R' o' o'' → R'' o o'') :
    Swept R'' db db'' := by
  obtain ⟨f, hf, hR⟩ := h.operations
  obtain ⟨f', hf', hR'⟩ := h'.operations
  obtain ⟨g, hg, hC⟩ := h.approvals
  obtain ⟨g', hg', hC'⟩ := h'.approvals
  refine ⟨⟨f' ∘ f, by simp [hf', hf], fun o ho => hr o ho _ (hR o ho) _ (hR' _ ?_)⟩,
    ⟨g' ∘ g, by simp [hg', hg], fun a ha => (hC a ha).trans (hC' _ ?_)⟩,
    h'.authEvents.trans h.authEvents⟩
  · exact hf ▸ List.mem_map_of_mem ho
  · exact hg ▸ List.mem_map_of_mem ha

theorem later (h : Swept R db db') (hr : ∀ o o', R o o' → o.Becomes o') : db.Later db' := by
  obtain ⟨f, hf, hR⟩ := h.operations
  obtain ⟨g, hg, hC⟩ := h.approvals
  exact ⟨fun o ho => ⟨f o, hf ▸ List.mem_map_of_mem ho, hr _ _ (hR o ho)⟩,
    fun a ha => ⟨g a, hg ▸ List.mem_map_of_mem ha, (hC a ha).becomes⟩⟩

theorem sound (h : Swept R db db') (hr : ∀ o o', R o o' → o.Becomes o') (hs : db.Sound) :
    db'.Sound := by
  obtain ⟨f, hf, hR⟩ := h.operations
  obtain ⟨g, hg, hC⟩ := h.approvals
  have hb : ∀ o ∈ db.operations, o.Becomes (f o) := fun o ho => hr _ _ (hR o ho)
  have ops : ∀ {β : Type} (col : OperationRecord → β), (∀ o ∈ db.operations, col (f o) = col o) →
      db'.operations.map col = db.operations.map col := fun col hcol => by
    rw [hf, List.map_map]
    exact List.map_congr_left hcol
  have apps : ∀ {β : Type} (col : ApprovalRecord → β), (∀ a ∈ db.approvals, col (g a) = col a) →
      db'.approvals.map col = db.approvals.map col := fun col hcol => by
    rw [hg, List.map_map]
    exact List.map_congr_left hcol
  have hids := ops OperationRecord.operationId fun o ho => (hb o ho).operationId
  have happ := apps ApprovalRecord.operationId fun a ha => (hC a ha).becomes.operationId
  refine ⟨hids ▸ hs.ids, ?_, ?_, ?_, happ ▸ hs.approvalOps, fun a ha => ?_⟩
  · exact ops OperationRecord.slot (fun o ho => (hb o ho).slot) ▸ hs.slots
  · rw [hf]
    refine List.pairwise_map.2 (hs.active.imp_of_mem fun {o o'} ho ho' hex hp hbb => ?_)
    exact hex ((hb o ho).projectId ▸ (hb o' ho').projectId ▸ hp)
      ⟨(hb o ho).blocks hbb.1, (hb o' ho').blocks hbb.2⟩
  · exact apps ApprovalRecord.approvalId (fun a ha => (hC a ha).becomes.approvalId) ▸
      hs.approvalIds
  · obtain ⟨b, hb', hab⟩ := List.mem_map.1
      (happ ▸ List.mem_map_of_mem (f := ApprovalRecord.operationId) ha)
    rw [hids, ← hab]
    exact hs.known b hb'

/-- An approval that is pending afterwards was pending before. -/
theorem of_pending (h : Swept R db db') {a : ApprovalRecord} (ha : a ∈ db'.approvals)
    (hp : a.status = .pending) : a ∈ db.approvals := by
  obtain ⟨g, hg, hC⟩ := h.approvals
  rw [hg] at ha
  obtain ⟨b, hb, rfl⟩ := List.mem_map.1 ha
  rcases hC b hb with h | ⟨-, h⟩
  · rwa [h]
  · rw [h] at hp
    cases hp

end Swept

/-! ## The passes -/

theorem recoverSessions_same (st : Stamp) : ∀ (l : List SessionRecord) (db : Database),
    db.SameOperations (l.foldl (recoverSession st) db)
  | [], db => .refl db
  | s :: l, db => by
      refine SameOperations.trans ?_ (recoverSessions_same st l (recoverSession st db s))
      exact sameOperations_updateSession.trans (sameOperations_audit (by decide))

theorem swept_cancelPending (p : ApprovalRecord → Bool) : Swept Eq db (db.cancelPending p) := by
  refine ⟨⟨id, by simp [cancelPending], fun _ _ => rfl⟩, ⟨_, rfl, fun a _ => ?_⟩, rfl⟩
  split
  · rename_i h
    exact .inr ⟨h.2, rfl⟩
  · exact .inl rfl

theorem auditCancelled_same {o : OperationRecord} {p : String} {s : Option String} {d : Dict} :
    db.SameOperations (auditCancelled st db o p s d) :=
  sameOperations_audit (by decide)

theorem auditsCancelled_same {o : OperationRecord} {d : ApprovalRecord → Dict} :
    ∀ (l : List ApprovalRecord) (db : Database), db.SameOperations
      (l.foldl (fun db a => auditCancelled st db o o.projectId o.sessionId (d a)) db)
  | [], _ => .refl _
  | _ :: l, _ => auditCancelled_same.trans (auditsCancelled_same l _)

/-- Recovering one operation in flight. -/
theorem recoverOperation_ok (st : Stamp) (hs : db.Sound) {o : OperationRecord}
    (ho : o ∈ db.operations)
    (hf : inFlight o.state = true) : ∃ db', recoverOperation st db o = .ok db' ∧
      Swept (fun r r' => if r.operationId = o.operationId then Recovery r r' else r' = r)
        db db' := by
  obtain ⟨db₁, hdb₁, hsw⟩ : ∃ db₁, db₁ = (if o.state = .awaitingApproval then
      (db.pendingApprovals o.operationId).foldl (fun db a =>
        auditCancelled st db o o.projectId o.sessionId [("approval_id", .str a.approvalId),
          ("action", .str a.action), ("reason", .str "bridge_restart")])
        (db.cancelPending fun a => a.operationId == o.operationId)
    else db) ∧ Swept Eq db db₁ := by
    refine ⟨_, rfl, ?_⟩
    split
    · exact (swept_cancelPending _).trans (.same (auditsCancelled_same _ _))
        fun _ _ _ h _ h' => h.trans h'
    · exact .same (.refl db)
  have hops : db₁.operations = db.operations := by
    obtain ⟨f, hf, hR⟩ := hsw.operations
    rw [hf, List.map_congr_left fun o ho => (hR o ho).symm, List.map_id']
  have hs₁ := hsw.sound (fun o o' h => h ▸ .refl o) hs
  have hrow : ∀ r ∈ db₁.operations, r.operationId = o.operationId → r = o := fun r hr hid =>
    Option.some.inj ((hs₁.operation?_iff.2 ⟨hr, hid⟩).symm.trans
      (hs₁.operation?_iff.2 ⟨hops ▸ ho, rfl⟩))
  have hrec : ∀ r ∈ db₁.operations, r.operationId = o.operationId → Recovery r { r with
      state := recoveredState o.mutation o.state
      updatedAt := db₁.clock st
      finishedAt := some (db₁.clock st)
      error := some (recoveryError o.mutation o.state) } := fun r hr hid => by
    refine ⟨rfl, rfl, ?_⟩
    rw [hrow r hr hid, if_pos hf]
  have hu := hs₁.updateOperation fun r hr hid => (hrec r hr hid).becomes
  have hsw' : Swept (fun r r' => if r.operationId = o.operationId then Recovery r r' else r' = r)
      db₁ (db₁.withOperation o.operationId fun r => { r with
        state := recoveredState o.mutation o.state
        updatedAt := db₁.clock st
        finishedAt := some (db₁.clock st)
        error := some (recoveryError o.mutation o.state) }) := by
    refine ⟨⟨_, rfl, fun r hr => ?_⟩, ⟨id, by simp [withOperation], fun _ _ => .inl rfl⟩, rfl⟩
    by_cases hid : r.operationId = o.operationId
    · simpa [hid] using hrec r hr hid
    · simp [hid]
  simp only [recoverOperation, ← hdb₁, hu, bind, Except.bind, pure, Except.pure]
  refine ⟨_, rfl, (hsw.trans hsw' fun r _ r' h r'' h' => h ▸ h').trans
    (.same (sameOperations_audit ?_)) fun r _ r' h r'' h' => h' ▸ h⟩
  decide

/-- Recovering operations in flight, one after the other. -/
theorem recoverOperations_ok (st : Stamp) : ∀ (l : List OperationRecord) (db : Database),
    db.Sound → (∀ o ∈ l, o ∈ db.operations ∧ inFlight o.state = true) →
    (l.map OperationRecord.operationId).Nodup →
    ∃ db', l.foldlM (recoverOperation st) db = .ok db' ∧
      Swept (fun r r' => if r.operationId ∈ l.map OperationRecord.operationId then Recovery r r'
        else r' = r) db db'
  | [], db, _, _, _ => ⟨db, rfl, by simpa [eq_comm] using Swept.same (.refl db)⟩
  | o :: l, db, hs, hl, hn => by
      obtain ⟨ho, hf⟩ := hl o List.mem_cons_self
      obtain ⟨db₁, hdb₁, hsw⟩ := recoverOperation_ok st hs ho hf
      have hbecomes : ∀ r r', (if r.operationId = o.operationId then Recovery r r' else r' = r) →
          r.Becomes r' := fun r r' h => by
        split at h
        · exact h.becomes
        · exact h ▸ .refl r
      obtain ⟨f, hops, hR⟩ := hsw.operations
      simp only [List.map_cons, List.nodup_cons, List.mem_map, not_exists, not_and] at hn
      have hl' : ∀ r ∈ l, r ∈ db₁.operations ∧ inFlight r.state = true := fun r hr => by
        obtain ⟨hr', hfr⟩ := hl r (List.mem_cons_of_mem _ hr)
        have := hR r hr'
        rw [if_neg (hn.1 r hr)] at this
        exact ⟨hops ▸ List.mem_map.2 ⟨r, hr', this⟩, hfr⟩
      obtain ⟨db', hdb', hsw'⟩ := recoverOperations_ok st l db₁ (hsw.sound hbecomes hs) hl' hn.2
      refine ⟨db', by simpa [List.foldlM, hdb₁, bind, Except.bind] using hdb', hsw.trans hsw' ?_⟩
      intro r _ r' h r'' h'
      by_cases hid : r.operationId = o.operationId
      · rw [if_pos hid] at h
        have hnot : r'.operationId ∉ l.map OperationRecord.operationId := by
          rw [h.becomes.operationId, hid]
          simpa using hn.1
        rw [if_neg hnot] at h'
        simpa [hid, h'] using h
      · rw [if_neg hid] at h
        subst h
        simpa [hid] using h'

theorem recoverOrphan_swept {oa : OperationRecord × ApprovalRecord} :
    Swept Eq db (recoverOrphan st db oa) :=
  (swept_cancelPending _).trans (.same auditCancelled_same) fun _ _ _ h _ h' => h.trans h'

theorem recoverOrphans_swept (st : Stamp) : ∀ (l : List (OperationRecord × ApprovalRecord))
    (db : Database), Swept Eq db (l.foldl (recoverOrphan st) db)
  | [], db => .same (.refl db)
  | _ :: l, _ => recoverOrphan_swept.trans (recoverOrphans_swept st l _)
      fun _ _ _ h _ h' => h.trans h'

/-- The approvals of the orphans are pending no longer. -/
theorem recoverOrphans_pending (st : Stamp) : ∀ (l : List (OperationRecord × ApprovalRecord))
    (db : Database) (a : ApprovalRecord), a ∈ (l.foldl (recoverOrphan st) db).approvals →
    a.status = .pending → a.approvalId ∉ l.map fun oa => oa.2.approvalId
  | [], _, _, _, _ => by simp
  | oa :: l, db, a, ha, hp => by
      have hrest := recoverOrphans_pending st l (recoverOrphan st db oa) a ha hp
      have ha' := (recoverOrphans_swept st l (recoverOrphan st db oa)).of_pending ha hp
      have hne : a.approvalId ≠ oa.2.approvalId := fun hid => by
        have hm : a ∈ (db.cancelPending fun a => a.approvalId == oa.2.approvalId).approvals := ha'
        obtain ⟨b, hb, hab⟩ := List.mem_map.1 hm
        split at hab
        · subst hab
          cases hp
        · rename_i hnot
          subst hab
          exact hnot ⟨by simpa using hid, hp⟩
      simpa [hne] using hrest

/-! ## The whole recovery -/

/-- What the recovery leaves. -/
structure Recovers (db db' : Database) : Prop where
  swept : Swept Recovery db db'
  settled : ∀ a ∈ db'.approvals, a.status ≠ .pending

/-- A recovery succeeds on every sound store. -/
theorem Sound.recoverAfterRestart (hs : db.Sound) (st : Stamp) :
    ∃ r db', db.recoverAfterRestart st = .ok (r, db') ∧ db.Recovers db' := by
  have h₁ := recoverSessions_same st
    (db.sessions.filter fun s => [.active, .closing].contains s.status) db
  obtain ⟨db₁, hdb₁⟩ : ∃ db₁, db₁ =
    (db.sessions.filter fun s => [.active, .closing].contains s.status).foldl
      (recoverSession st) db := ⟨_, rfl⟩
  rw [← hdb₁] at h₁
  have hs₁ := hs.same h₁
  obtain ⟨db₂, hdb₂, h₂⟩ := recoverOperations_ok st
    (db₁.operations.filter fun o => inFlight o.state) db₁ hs₁
    (fun o ho => by simpa using ho) (hs₁.ids.sublist (List.filter_sublist.map _))
  have hrec : Swept Recovery db₁ db₂ := h₂.trans (.same (.refl db₂)) fun o ho o' h o'' heq => by
    subst heq
    by_cases hf : inFlight o.state = true
    · have : o.operationId ∈ (db₁.operations.filter fun o => inFlight o.state).map
          OperationRecord.operationId :=
        List.mem_map_of_mem (List.mem_filter.2 ⟨ho, hf⟩)
      rwa [if_pos this] at h
    · have : o.operationId ∉ (db₁.operations.filter fun o => inFlight o.state).map
          OperationRecord.operationId := fun hm => by
        obtain ⟨r, hr, hid⟩ := List.mem_map.1 hm
        obtain ⟨hr, hfr⟩ := List.mem_filter.1 hr
        have : r = o := Option.some.inj ((hs₁.operation?_iff.2 ⟨hr, hid⟩).symm.trans
          (hs₁.operation?_self ho))
        exact hf (this ▸ hfr)
      rw [if_neg this] at h
      subst h
      exact ⟨rfl, rfl, by simp [hf]⟩
  have hs₂ := hrec.sound (fun _ _ h => h.becomes) hs₁
  have h₃ := recoverOrphans_swept st db₂.orphanedApprovals db₂
  simp only [Database.recoverAfterRestart, ← hdb₁, hdb₂, bind, Except.bind, pure, Except.pure]
  refine ⟨_, _, rfl, ?_, fun a ha hp => ?_⟩
  · refine Swept.trans (.same h₁) (hrec.trans h₃ fun o _ o' h o'' h' => h' ▸ h)
      fun o _ o' h o'' h' => h ▸ h'
  · refine recoverOrphans_pending st _ _ a ha hp ?_
    have ha₂ := h₃.of_pending ha hp
    obtain ⟨o, ho⟩ := hs₂.operation_of_approval ha₂
    have hstate : o.state ≠ .awaitingApproval := fun hst => by
      obtain ⟨f, hf, hR⟩ := hrec.operations
      obtain ⟨r, hr, rfl⟩ := List.mem_map.1 (hf ▸ (operation?_some ho).1)
      have := (hR r hr).rank
      rw [hst] at this
      exact absurd this (by decide)
    refine List.mem_map.2 ⟨(o, a), List.mem_filterMap.2 ⟨a, ha₂, ?_⟩, rfl⟩
    simp [hp, ho, hstate]

namespace Recovers

theorem sound (h : db.Recovers db') (hs : db.Sound) : db'.Sound :=
  h.swept.sound (fun _ _ h => h.becomes) hs

theorem later (h : db.Recovers db') : db.Later db' := h.swept.later fun _ _ h => h.becomes

/-- Every operation that is there after the recovery has been settled. -/
theorem rank (h : db.Recovers db') {o : OperationRecord} (ho : o ∈ db'.operations) :
    5 ≤ o.state.rank := by
  obtain ⟨f, hf, hR⟩ := h.swept.operations
  obtain ⟨r, hr, rfl⟩ := List.mem_map.1 (hf ▸ ho)
  exact (hR r hr).rank

/-- Every operation that is there after the recovery was there before. -/
theorem origin (h : db.Recovers db') {o' : OperationRecord} (ho : o' ∈ db'.operations) :
    ∃ o ∈ db.operations, Recovery o o' := by
  obtain ⟨f, hf, hR⟩ := h.swept.operations
  obtain ⟨r, hr, rfl⟩ := List.mem_map.1 (hf ▸ ho)
  exact ⟨r, hr, hR r hr⟩

end Recovers

end Database

end CodemcpBridge
