import CodemcpBridge.Db.Sessions

/-!
# What a recovery records

Every row that a recovery changes makes one step of its life cycle, and an audit event records it; a
second recovery finds nothing to do.
-/

namespace CodemcpBridge

namespace Database

variable {db db' db'' : Database} {st : Stamp}

/-! ## The steps -/

/-- The event records that a session in use was blocked. -/
structure SessionStep (s s' : SessionRecord) (e : AuditEvent) : Prop where
  kind : e.eventType = "session.recovered_blocked"
  whose : e.sessionId = some s.sessionId
  fromState : e.fromState = some s.status.text
  toState : e.toState = some s'.status.text
  found : s.status = .active ∨ s.status = .closing
  left : ∃ now, s' = { s with
    status := .blocked, updatedAt := now, closedAt := some now, reason := some "bridge_restart" }

/-- The event records that an operation in flight was settled. -/
structure OperationStep (o o' : OperationRecord) (e : AuditEvent) : Prop where
  kind : e.eventType = "operation.recovered"
  whose : e.operationId = some o.operationId
  fromState : e.fromState = some o.state.text
  toState : e.toState = some o'.state.text
  found : inFlight o.state = true
  left : ∃ now, o' = { o with
    state := recoveredState o.mutation o.state, updatedAt := now, finishedAt := some now
    error := some (recoveryError o.mutation o.state) }

/-- The event records that a pending approval was cancelled. -/
structure ApprovalStep (a a' : ApprovalRecord) (e : AuditEvent) : Prop where
  kind : e.eventType = "approval.recovered_cancelled"
  whose : e.operationId = some a.operationId
  action : Dict.get? e.details "action" = some (.str a.action)
  fromState : e.fromState = some a.status.text
  toState : e.toState = some a'.status.text
  found : a.status = .pending
  left : a' = { a with status := .cancelled }

theorem SessionStep.once {s s' s'' : SessionRecord} {e e' : AuditEvent} (h : SessionStep s s' e) :
    ¬ SessionStep s' s'' e' := by
  obtain ⟨now, rfl⟩ := h.left
  exact fun h' => by simpa using h'.found

theorem OperationStep.once {o o' o'' : OperationRecord} {e e' : AuditEvent}
    (h : OperationStep o o' e) : ¬ OperationStep o' o'' e' := by
  obtain ⟨now, rfl⟩ := h.left
  intro h'
  have h4 := inFlight_iff.1 h'.found
  have h5 := recoveredState_rank o.mutation o.state
  exact absurd (Nat.le_trans h5 h4) (by decide)

theorem ApprovalStep.once {a a' a'' : ApprovalRecord} {e e' : AuditEvent}
    (h : ApprovalStep a a' e) : ¬ ApprovalStep a' a'' e' := by
  have := h.left
  subst this
  exact fun h' => by simpa using h'.found

/-- The events between two stores record every change of a session, an operation or an approval, and
nothing else; the checkpoints have not changed. -/
structure AuditedBy (db db' : Database) (events : List AuditEvent) : Prop where
  log : db'.auditEvents = db.auditEvents ++ events
  sessions : Table.Recorded SessionStep (fun e => e.eventType = "session.recovered_blocked")
    db.sessions db'.sessions events
  operations : Table.Recorded OperationStep (fun e => e.eventType = "operation.recovered")
    db.operations db'.operations events
  approvals : Table.Recorded ApprovalStep (fun e => e.eventType = "approval.recovered_cancelled")
    db.approvals db'.approvals events
  only : ∀ e ∈ events, e.eventType ∈
    ["session.recovered_blocked", "operation.recovered", "approval.recovered_cancelled"]
  checkpoints : db'.checkpoints = db.checkpoints

/-- The store has changed by steps that the audit log records. -/
def Audited (db db' : Database) : Prop := ∃ events, db.AuditedBy db' events

theorem Audited.refl (db : Database) : db.Audited db :=
  ⟨[], by simp, .other (by simp), .other (by simp), .other (by simp), by simp, rfl⟩

theorem Audited.trans (h : db.Audited db') (h' : db'.Audited db'') : db.Audited db'' := by
  obtain ⟨events, h⟩ := h
  obtain ⟨events', h'⟩ := h'
  refine ⟨events ++ events', ?_, h.sessions.trans SessionStep.once h'.sessions,
    h.operations.trans OperationStep.once h'.operations,
    h.approvals.trans ApprovalStep.once h'.approvals, ?_, h'.checkpoints.trans h.checkpoints⟩
  · rw [h'.log, h.log, List.append_assoc]
  · intro e he
    rcases List.mem_append.1 he with he | he
    · exact h.only e he
    · exact h'.only e he

/-! ## Sessions -/

/-- The session is in use. -/
def inUse (s : SessionRecord) : Bool := [.active, .closing].contains s.status

theorem inUse_iff {s : SessionRecord} : inUse s = true ↔
    s.status = .active ∨ s.status = .closing := by
  simp [inUse]

theorem recoverSession_ids (s : SessionRecord) :
    (recoverSession st db s).sessions.map SessionRecord.sessionId =
      db.sessions.map SessionRecord.sessionId :=
  Table.map_update fun _ _ _ => rfl

theorem recoverSession_audited {s : SessionRecord}
    (hn : (db.sessions.map SessionRecord.sessionId).Nodup) (hs : s ∈ db.sessions)
      (hu : inUse s = true) :
    db.Audited (recoverSession st db s) := by
  refine ⟨[_], rfl, .update hn hs ?_, .other (by simp), .other (by simp), by simp, rfl⟩
  exact ⟨rfl, rfl, rfl, rfl, inUse_iff.1 hu, ⟨_, rfl⟩⟩

/-- Blocking sessions in use, one after the other: what every step keeps is kept, and what is left
is blocked or was not to be blocked. -/
theorem recoverSessions_related {R : Database → Database → Prop} (refl : ∀ db, R db db)
    (trans : ∀ {db db' db''}, R db db' → R db' db'' → R db db'')
    (step : ∀ {db : Database} {s : SessionRecord}, (db.sessions.map SessionRecord.sessionId).Nodup →
      s ∈ db.sessions → inUse s = true → R db (recoverSession st db s)) :
    ∀ (l : List SessionRecord) (db : Database),
    (db.sessions.map SessionRecord.sessionId).Nodup → (∀ s ∈ l, s ∈ db.sessions ∧ inUse s = true) →
    (l.map SessionRecord.sessionId).Nodup →
    R db (l.foldl (recoverSession st) db) ∧
      ∀ s ∈ (l.foldl (recoverSession st) db).sessions, s.status = .blocked ∨
        (s ∈ db.sessions ∧ s.sessionId ∉ l.map SessionRecord.sessionId)
  | [], db, _, _, _ => ⟨refl db, fun s hs => .inr ⟨hs, by simp⟩⟩
  | s :: l, db, hn, hl, hd => by
      obtain ⟨hs, hu⟩ := hl s List.mem_cons_self
      simp only [List.map_cons, List.nodup_cons] at hd
      have hl' : ∀ r ∈ l, r ∈ (recoverSession st db s).sessions ∧ inUse r = true := fun r hr => by
        obtain ⟨hr', hur⟩ := hl r (List.mem_cons_of_mem _ hr)
        refine ⟨Table.mem_update_of_ne hr' fun hid => hd.1 ?_, hur⟩
        exact hid ▸ List.mem_map_of_mem hr
      obtain ⟨hrelated, hleft⟩ := recoverSessions_related refl trans step l (recoverSession st db s)
        (by rwa [recoverSession_ids]) hl' hd.2
      refine ⟨trans (step hn hs hu) hrelated, fun r hr => ?_⟩
      rcases hleft r hr with h | ⟨hr, hid⟩
      · exact .inl h
      · rcases Table.of_mem_update hr with ⟨hr, hne⟩ | ⟨x, -, -, rfl⟩
        · exact .inr ⟨hr, by simpa [hne] using hid⟩
        · exact .inl rfl

/-! ## Operations and their approvals -/

/-- The events that record the cancellation of an operation's approvals. -/
theorem auditsCancelled_events {o : OperationRecord} : ∀ (l : List ApprovalRecord) (db : Database),
    ∃ events, l.foldl (fun db a => auditCancelled st db o o.projectId o.sessionId
        [("approval_id", .str a.approvalId), ("action", .str a.action),
          ("reason", .str "bridge_restart")]) db =
        { db with auditEvents := db.auditEvents ++ events } ∧
      (∀ a ∈ l, a.operationId = o.operationId → a.status = .pending →
        ∃ e ∈ events, ApprovalStep a { a with status := .cancelled } e) ∧
      ∀ e ∈ events, e.eventType = "approval.recovered_cancelled" ∧ ∃ a ∈ l,
        a.operationId = o.operationId → a.status = .pending →
          ApprovalStep a { a with status := .cancelled } e
  | [], db => ⟨[], by simp, by simp, by simp⟩
  | a :: l, db => by
      obtain ⟨events, hfold, hall, honly⟩ := auditsCancelled_events l (auditCancelled st db o
        o.projectId o.sessionId [("approval_id", .str a.approvalId), ("action", .str a.action),
          ("reason", .str "bridge_restart")])
      obtain ⟨e, he, hdb⟩ : ∃ e : AuditEvent, (e.eventType = "approval.recovered_cancelled" ∧
          (a.operationId = o.operationId → a.status = .pending →
            ApprovalStep a { a with status := .cancelled } e)) ∧
          auditCancelled st db o o.projectId o.sessionId [("approval_id", .str a.approvalId),
            ("action", .str a.action), ("reason", .str "bridge_restart")] =
            { db with auditEvents := db.auditEvents ++ [e] } := by
        refine ⟨_, ⟨?_, fun hid hp => ⟨?_, ?_, ?_, ?_, ?_, hp, rfl⟩⟩, rfl⟩
        · rfl
        · rfl
        · rw [hid]
        · rfl
        · rw [hp]
          rfl
        · rfl
      refine ⟨e :: events, ?_, ?_, ?_⟩
      · rw [List.foldl_cons, hfold, hdb]
        simp
      · intro b hb hid hp
        rcases List.mem_cons.1 hb with rfl | hb
        · exact ⟨e, List.mem_cons_self, he.2 hid hp⟩
        · obtain ⟨e', he', hstep⟩ := hall b hb hid hp
          exact ⟨e', List.mem_cons_of_mem _ he', hstep⟩
      · intro e' he'
        rcases List.mem_cons.1 he' with rfl | he'
        · exact ⟨he.1, a, List.mem_cons_self, he.2⟩
        · obtain ⟨hk, b, hb, hstep⟩ := honly e' he'
          exact ⟨hk, b, List.mem_cons_of_mem _ hb, hstep⟩

/-- Cancelling the pending approvals of an operation. -/
theorem cancelApprovals_audited (o : OperationRecord) : db.Audited
    ((db.pendingApprovals o.operationId).foldl (fun db a =>
      auditCancelled st db o o.projectId o.sessionId [("approval_id", .str a.approvalId),
        ("action", .str a.action), ("reason", .str "bridge_restart")])
      (db.cancelPending fun a => a.operationId == o.operationId)) := by
  obtain ⟨events, hfold, hall, honly⟩ := @auditsCancelled_events st o
    (db.pendingApprovals o.operationId) (db.cancelPending fun a => a.operationId == o.operationId)
  have pending : ∀ a, a ∈ db.pendingApprovals o.operationId ↔
      a ∈ db.approvals ∧ a.operationId = o.operationId ∧ a.status = .pending := fun a => by
    simp [pendingApprovals]
  rw [hfold]
  refine ⟨events, rfl, .other fun e he h => ?_, .other fun e he h => ?_,
    ⟨_, rfl, fun a ha => ?_, fun e he _ => ?_⟩, fun e he => by simp [(honly e he).1], rfl⟩
  · exact absurd ((honly e he).1.symm.trans h) (by decide)
  · exact absurd ((honly e he).1.symm.trans h) (by decide)
  · by_cases hp : a.operationId = o.operationId ∧ a.status = .pending
    · obtain ⟨e, he, hstep⟩ := hall a ((pending a).2 ⟨ha, hp⟩) hp.1 hp.2
      exact .inr ⟨e, he, by simpa [hp] using hstep⟩
    · exact .inl (if_neg (by simpa using hp))
  · obtain ⟨-, a, ha, hstep⟩ := honly e he
    obtain ⟨ha, hp⟩ := (pending a).1 ha
    exact ⟨a, ha, by simpa [hp] using hstep hp.1 hp.2⟩

theorem recoverOperation_audited {o : OperationRecord} (hs : db.Sound) (ho : o ∈ db.operations)
    (hf : inFlight o.state = true) (h : recoverOperation st db o = .ok db') : db.Audited db' := by
  obtain ⟨db₁, hdb₁, haudit⟩ : ∃ db₁, db₁ = (if o.state = .awaitingApproval then
      (db.pendingApprovals o.operationId).foldl (fun db a =>
        auditCancelled st db o o.projectId o.sessionId [("approval_id", .str a.approvalId),
          ("action", .str a.action), ("reason", .str "bridge_restart")])
        (db.cancelPending fun a => a.operationId == o.operationId)
    else db) ∧ db.Audited db₁ ∧ db₁.operations = db.operations := by
    refine ⟨_, rfl, ?_⟩
    split
    · refine ⟨cancelApprovals_audited o, ?_⟩
      obtain ⟨events, hfold, -⟩ := @auditsCancelled_events st o
        (db.pendingApprovals o.operationId)
        (db.cancelPending fun a => a.operationId == o.operationId)
      rw [hfold]
      rfl
    · exact ⟨.refl db, rfl⟩
  obtain ⟨haudit, hops⟩ := haudit
  simp only [recoverOperation, ← hdb₁, bind, Except.bind] at h
  split at h
  · cases h
  · rename_i db₂ hu
    cases h
    rw [updateOperation_ok hu]
    refine haudit.trans ⟨[_], rfl, .other (by simp), ?_, .other (by simp), by simp, rfl⟩
    refine .update (hops ▸ hs.ids) (hops ▸ ho) ?_
    exact ⟨rfl, rfl, rfl, rfl, hf, ⟨_, rfl⟩⟩

/-- Settling operations in flight, one after the other. -/
theorem recoverOperations_related {R : Database → Database → Prop} (refl : ∀ db, R db db)
    (trans : ∀ {db db' db''}, R db db' → R db' db'' → R db db'')
    (step : ∀ {db db' : Database} {o : OperationRecord}, db.Sound → o ∈ db.operations →
      inFlight o.state = true → recoverOperation st db o = .ok db' → R db db') :
    ∀ (l : List OperationRecord) (db db' : Database),
    db.Sound → (∀ o ∈ l, o ∈ db.operations ∧ inFlight o.state = true) →
    (l.map OperationRecord.operationId).Nodup → l.foldlM (recoverOperation st) db = .ok db' →
    R db db'
  | [], db, db', _, _, _, h => by
      cases h
      exact refl db
  | o :: l, db, db', hs, hl, hn, h => by
      obtain ⟨ho, hf⟩ := hl o List.mem_cons_self
      obtain ⟨db₁, hdb₁, hsw⟩ := recoverOperation_ok st hs ho hf
      simp only [List.foldlM, hdb₁, bind, Except.bind] at h
      simp only [List.map_cons, List.nodup_cons, List.mem_map, not_exists, not_and] at hn
      obtain ⟨f, hops, hR⟩ := hsw.operations
      have hs₁ : db₁.Sound := hsw.sound (fun r r' h => by
        split at h
        · exact h.becomes
        · exact h ▸ .refl r) hs
      have hl' : ∀ r ∈ l, r ∈ db₁.operations ∧ inFlight r.state = true := fun r hr => by
        obtain ⟨hr', hfr⟩ := hl r (List.mem_cons_of_mem _ hr)
        have := hR r hr'
        rw [if_neg (hn.1 r hr)] at this
        exact ⟨hops ▸ List.mem_map.2 ⟨r, hr', this⟩, hfr⟩
      exact trans (step hs ho hf hdb₁)
        (recoverOperations_related refl trans step l db₁ db' hs₁ hl' hn.2 h)

/-! ## Orphaned approvals -/

theorem mem_orphanedApprovals {o : OperationRecord} {a : ApprovalRecord}
    (h : (o, a) ∈ db.orphanedApprovals) :
    a ∈ db.approvals ∧ a.status = .pending ∧ o.operationId = a.operationId := by
  obtain ⟨b, hb, hsome⟩ := List.mem_filterMap.1 h
  split at hsome
  · rename_i hp
    obtain ⟨r, hr, hsome⟩ := Option.bind_eq_some_iff.1 hsome
    split at hsome
    · cases hsome
    · cases hsome
      exact ⟨hb, hp, (operation?_some hr).2⟩
  · cases hsome

theorem sublist_of_filterMap {α β : Type} {f : α → Option β} {g : β → α}
    (hfg : ∀ x y, f x = some y → g y = x) : ∀ l : List α, ((l.filterMap f).map g).Sublist l
  | [] => by simp
  | x :: l => by
      cases hx : f x with
      | none => simpa [hx] using (sublist_of_filterMap hfg l).cons x
      | some y => simpa [hx, hfg x y hx] using sublist_of_filterMap hfg l

theorem orphanedApprovals_nodup (hs : db.Sound) :
    (db.orphanedApprovals.map fun oa => oa.2.approvalId).Nodup := by
  have hsub : (db.orphanedApprovals.map Prod.snd).Sublist db.approvals := by
    refine sublist_of_filterMap (fun a oa h => ?_) _
    split at h
    · obtain ⟨r, -, h⟩ := Option.bind_eq_some_iff.1 h
      split at h <;> cases h
      rfl
    · cases h
  have := hs.approvalIds.sublist (hsub.map ApprovalRecord.approvalId)
  rwa [List.map_map] at this

theorem recoverOrphan_audited {o : OperationRecord} {a : ApprovalRecord} (hs : db.Sound)
    (ha : a ∈ db.approvals) (hp : a.status = .pending) (hid : o.operationId = a.operationId) :
    db.Audited (recoverOrphan st db (o, a)) := by
  have hcancel : (db.cancelPending fun b => b.approvalId == a.approvalId).approvals =
      Table.update ApprovalRecord.approvalId a.approvalId (fun b => { b with status := .cancelled })
        db.approvals := by
    refine List.map_congr_left fun b hb => ?_
    by_cases hk : b.approvalId = a.approvalId
    · obtain rfl := List.inj_on_of_nodup_map hs.approvalIds hb ha hk
      simp [hp]
    · simp [hk]
  refine ⟨[_], rfl, .other (by simp), .other (by simp), ?_, by simp, rfl⟩
  show Table.Recorded _ _ _ (db.cancelPending fun b => b.approvalId == a.approvalId).approvals _
  rw [hcancel]
  refine .update hs.approvalIds ha ⟨rfl, ?_, rfl, ?_, rfl, hp, rfl⟩
  · rw [← hid]
  · rw [hp]
    rfl

/-- Cancelling orphaned approvals, one after the other. -/
theorem recoverOrphans_related {R : Database → Database → Prop} (refl : ∀ db, R db db)
    (trans : ∀ {db db' db''}, R db db' → R db' db'' → R db db'')
    (step : ∀ {db : Database} {o : OperationRecord} {a : ApprovalRecord}, db.Sound →
      a ∈ db.approvals → a.status = .pending → o.operationId = a.operationId →
        R db (recoverOrphan st db (o, a))) :
    ∀ (l : List (OperationRecord × ApprovalRecord))
    (db : Database), db.Sound → (∀ oa ∈ l, oa.2 ∈ db.approvals ∧ oa.2.status = .pending ∧
      oa.1.operationId = oa.2.operationId) → (l.map fun oa => oa.2.approvalId).Nodup →
    R db (l.foldl (recoverOrphan st) db)
  | [], db, _, _, _ => refl db
  | (o, a) :: l, db, hs, hl, hn => by
      obtain ⟨ha, hp, hid⟩ := hl (o, a) List.mem_cons_self
      simp only [List.map_cons, List.nodup_cons, List.mem_map, not_exists, not_and] at hn
      refine trans (step hs ha hp hid) (recoverOrphans_related refl trans step l _
        (recoverOrphan_swept.sound (fun r r' h => h ▸ .refl r) hs) (fun oa hoa => ?_) hn.2)
      obtain ⟨ha', hp', hid'⟩ := hl oa (List.mem_cons_of_mem _ hoa)
      refine ⟨List.mem_map.2 ⟨oa.2, ha', if_neg fun h => hn.1 oa hoa ?_⟩, hp', hid'⟩
      simpa using h.1

/-! ## The whole recovery -/

/-- The stores between the three passes of a recovery. -/
theorem recoverAfterRestart_passes {r : Recovered} (h : db.recoverAfterRestart st = .ok (r, db')) :
    ∃ db₁ db₂, (db.sessions.filter inUse).foldl (recoverSession st) db = db₁ ∧
      (db₁.operations.filter fun o => inFlight o.state).foldlM (recoverOperation st) db₁ = .ok db₂ ∧
      db₂.orphanedApprovals.foldl (recoverOrphan st) db₂ = db' := by
  simp only [recoverAfterRestart, bind, Except.bind] at h
  split at h
  · cases h
  · rename_i db₂ hdb₂
    cases h
    exact ⟨_, db₂, rfl, hdb₂, rfl⟩

/-- What settling operations and cancelling orphaned approvals keep, the recovery keeps once it has
blocked the sessions. -/
theorem Sound.recoverAfterRestart_settled {R : Database → Database → Prop} (refl : ∀ db, R db db)
    (trans : ∀ {db db' db''}, R db db' → R db' db'' → R db db'')
    (operation : ∀ {db db' : Database} {o : OperationRecord}, db.Sound → o ∈ db.operations →
      inFlight o.state = true → recoverOperation st db o = .ok db' → R db db')
    (orphan : ∀ {db : Database} {o : OperationRecord} {a : ApprovalRecord}, db.Sound →
      a ∈ db.approvals → a.status = .pending → o.operationId = a.operationId →
        R db (recoverOrphan st db (o, a)))
    (hs : db.Sound) {r : Recovered} (h : db.recoverAfterRestart st = .ok (r, db')) :
    R ((db.sessions.filter inUse).foldl (recoverSession st) db) db' := by
  obtain ⟨db₁, db₂, rfl, h₂, h₃⟩ := recoverAfterRestart_passes h
  have hs₁ := hs.same (recoverSessions_same st (db.sessions.filter inUse) db)
  have hn₁ := hs₁.ids.sublist ((List.filter_sublist (p := fun o : OperationRecord =>
    inFlight o.state)).map OperationRecord.operationId)
  have hl₁ : ∀ o ∈ ((db.sessions.filter inUse).foldl (recoverSession st) db).operations.filter
      (fun o => inFlight o.state), o ∈ ((db.sessions.filter inUse).foldl (recoverSession st)
        db).operations ∧ inFlight o.state = true := fun o ho => by simpa using ho
  have second := recoverOperations_related refl trans operation _ _ db₂ hs₁ hl₁ hn₁ h₂
  obtain ⟨db₂', h₂', hsw⟩ := recoverOperations_ok st _ _ hs₁ hl₁ hn₁
  obtain rfl : db₂' = db₂ := Except.ok.inj (h₂'.symm.trans h₂)
  have hs₂ : db₂'.Sound := hsw.sound (fun o o' h => by
    split at h
    · exact h.becomes
    · exact h ▸ .refl o) hs₁
  have third := recoverOrphans_related refl trans orphan db₂'.orphanedApprovals db₂' hs₂
    (fun oa hoa => mem_orphanedApprovals hoa) (orphanedApprovals_nodup hs₂)
  rw [h₃] at third
  exact trans second third

/-- What every step of a recovery keeps, the recovery keeps. -/
theorem Sound.recoverAfterRestart_related {R : Database → Database → Prop} (refl : ∀ db, R db db)
    (trans : ∀ {db db' db''}, R db db' → R db' db'' → R db db'')
    (session : ∀ {db : Database} {s : SessionRecord},
      (db.sessions.map SessionRecord.sessionId).Nodup → s ∈ db.sessions → inUse s = true →
        R db (recoverSession st db s))
    (operation : ∀ {db db' : Database} {o : OperationRecord}, db.Sound → o ∈ db.operations →
      inFlight o.state = true → recoverOperation st db o = .ok db' → R db db')
    (orphan : ∀ {db : Database} {o : OperationRecord} {a : ApprovalRecord}, db.Sound →
      a ∈ db.approvals → a.status = .pending → o.operationId = a.operationId →
        R db (recoverOrphan st db (o, a)))
    (hs : db.Sound) (hn : (db.sessions.map SessionRecord.sessionId).Nodup) {r : Recovered}
    (h : db.recoverAfterRestart st = .ok (r, db')) : R db db' := by
  have first := (recoverSessions_related refl trans session (db.sessions.filter inUse) db hn
    (fun s hs => by simpa using hs) (hn.sublist (List.filter_sublist.map _))).1
  exact trans first (hs.recoverAfterRestart_settled refl trans operation orphan h)

/-- Every step of a recovery is recorded, and it leaves no session in use. -/
theorem Sound.recoverAfterRestart_audited (hs : db.Sound)
    (hn : (db.sessions.map SessionRecord.sessionId).Nodup) {r : Recovered}
    (h : db.recoverAfterRestart st = .ok (r, db')) :
    db.Audited db' ∧ ∀ s ∈ db'.sessions, inUse s = false := by
  refine ⟨hs.recoverAfterRestart_related (R := Audited) .refl .trans
    recoverSession_audited recoverOperation_audited recoverOrphan_audited hn h, fun s hmem => ?_⟩
  obtain ⟨-, hleft⟩ := recoverSessions_related (R := Audited) .refl .trans
    recoverSession_audited (db.sessions.filter inUse) db hn (fun s hs => by simpa using hs)
    (hn.sublist (List.filter_sublist.map _))
  have ended : ∀ s ∈ ((db.sessions.filter inUse).foldl (recoverSession st) db).sessions,
      inUse s = false := fun s hs => by
    rcases hleft s hs with hb | ⟨hs, hid⟩
    · simp [inUse, hb]
    · by_contra hu
      refine hid (List.mem_map_of_mem (List.mem_filter.2 ⟨hs, ?_⟩))
      simpa using hu
  obtain ⟨events, later⟩ := hs.recoverAfterRestart_settled (R := Audited) .refl .trans
    recoverOperation_audited recoverOrphan_audited h
  obtain ⟨f, hf, hstep, -⟩ := later.sessions
  rw [hf] at hmem
  obtain ⟨x, hx, rfl⟩ := List.mem_map.1 hmem
  rcases hstep x hx with h | ⟨e, -, h⟩
  · rw [h]
    exact ended x hx
  · have := inUse_iff.2 h.found
    rw [ended x hx] at this
    cases this

/-- A recovery of a store that has just been recovered finds nothing to do. -/
theorem recoverAfterRestart_idle (hu : ∀ s ∈ db.sessions, inUse s = false)
    (ho : ∀ o ∈ db.operations, inFlight o.state = false)
    (ha : ∀ a ∈ db.approvals, a.status ≠ .pending) :
    db.recoverAfterRestart st = .ok ({}, db) := by
  have sessions : (db.sessions.filter fun s => [.active, .closing].contains s.status) = [] :=
    List.filter_eq_nil_iff.2 fun s hs => by simpa [inUse] using hu s hs
  have operations : (db.operations.filter fun o => inFlight o.state) = [] :=
    List.filter_eq_nil_iff.2 fun o h => by simp [ho o h]
  have orphans : db.orphanedApprovals = [] :=
    List.filterMap_eq_nil_iff.2 fun a h => if_neg (ha a h)
  simp only [recoverAfterRestart, sessions, List.foldl_nil, operations, List.foldlM_nil, bind,
    Except.bind, pure, Except.pure, orphans, List.map_nil, List.filter_nil, List.flatMap_nil,
    List.append_nil]

end Database

end CodemcpBridge
