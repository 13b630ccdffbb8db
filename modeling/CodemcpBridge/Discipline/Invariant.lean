import CodemcpBridge.Discipline.History

/-!
# The invariant of the Bridge process

`Inv` holds of the world at every point of every run; `Rely` is what a task may count on while
others have the floor, above all that nobody touches an operation it has in hand; `Legal` says where
a task may ask a question.  The next module shows that legal questions keep the invariant and what
the others rely on.
-/

namespace CodemcpBridge

open Database (Sound Later SameOperations)

/-! ## The store by itself -/

/-- What holds of the store by itself. -/
structure Rows (db : Database) : Prop where
  sound : db.Sound
  hashed : ∀ r ∈ db.operations, r.requestHash = requestHash (.obj r.input)
  pending : ∀ a ∈ db.approvals, a.status = .pending → ∀ r, db.operation? a.operationId = some r →
    r.state = .validated ∨ r.state = .awaitingApproval
  contexts : ∀ e ∈ db.authEvents, ∃ r ∈ db.operations, ∃ c : AuthContext,
    e.operationId = some r.operationId ∧ e.details = authAuditDetails c ∧
      r.replayKey.namespace_ = some c.replayNamespace

namespace Rows

variable {db db' : Database}

theorem empty : Rows {} := by
  refine ⟨Database.sound_empty, ?_, ?_, ?_⟩ <;> simp [Database.authEvents]

theorem same (h : Rows db) (hs : db.SameOperations db') : Rows db' where
  sound := h.sound.same hs
  hashed r hr := h.hashed r (hs.operations ▸ hr)
  pending a ha hp r hr := by
    rw [hs.operation?] at hr
    exact h.pending a (hs.approvals ▸ ha) hp r hr
  contexts e he := by
    obtain ⟨r, hr, c, hrest⟩ := h.contexts e (hs.authEvents ▸ he)
    exact ⟨r, hs.operations ▸ hr, c, hrest⟩

/-- The recorded contexts fit the operations that are there later. -/
theorem contexts_later (h : Rows db) (hl : db.Later db') (he : db'.authEvents = db.authEvents) :
    ∀ e ∈ db'.authEvents, ∃ r ∈ db'.operations, ∃ c : AuthContext,
      e.operationId = some r.operationId ∧ e.details = authAuditDetails c ∧
        r.replayKey.namespace_ = some c.replayNamespace := fun e hm => by
  obtain ⟨r, hr, c, hid, hd, hn⟩ := h.contexts e (he ▸ hm)
  obtain ⟨r', hr', hb⟩ := hl.operations r hr
  exact ⟨r', hr', c, hb.operationId ▸ hid, hd, hb.replayKey ▸ hn⟩

theorem created (h : Rows db) {row : OperationRecord} (hc : db.Created row db')
    (hh : row.requestHash = requestHash (.obj row.input)) : Rows db' where
  sound := hc.sound h.sound
  hashed r hr := by
    rcases hc.mem_iff.1 hr with hr | rfl
    · exact h.hashed r hr
    · exact hh
  pending a ha hp r hr := by
    have ha' : a ∈ db.approvals := hc.same.approvals ▸ ha
    obtain ⟨o, ho⟩ := h.sound.operation_of_approval ha'
    have hne : a.operationId ≠ row.operationId := fun hid =>
      hc.id o (Database.operation?_some ho).1 ((Database.operation?_some ho).2.trans hid)
    rw [hc.operation?_of_ne hne] at hr
    exact h.pending a ha' hp r hr
  contexts := h.contexts_later hc.later hc.same.authEvents

/-- An operation may leave the states around an approval when its approval is not pending. -/
theorem moved (h : Rows db) {current row : OperationRecord} (hm : db.Moved current row db')
    (hp : row.state = .validated ∨ row.state = .awaitingApproval ∨
      ∀ a, db.approval? current.operationId = some a → a.status ≠ .pending) : Rows db' where
  sound := hm.sound h.sound
  hashed r hr := by
    rw [hm.same.operations] at hr
    rcases Table.of_mem_update hr with ⟨hr, -⟩ | ⟨x, hx, -, rfl⟩
    · exact h.hashed r hr
    · have hc := (Database.operation?_some hm.found).1
      have hi : r.input = current.input := hm.forward.keeps _ fun _ => rfl
      rw [hm.forward.requestHash, hi]
      exact h.hashed current hc
  pending a ha hpend r hr := by
    have ha' : a ∈ db.approvals := hm.same.approvals ▸ ha
    by_cases hid : a.operationId = current.operationId
    · rw [hid, hm.operation?_self] at hr
      cases hr
      rcases hp with hp | hp | hp
      · exact .inl hp
      · exact .inr hp
      · exact absurd hpend (hp a (h.sound.approval?_iff.2 ⟨ha', hid⟩))
    · rw [hm.operation?_of_ne hid] at hr
      exact h.pending a ha' hpend r hr
  contexts := h.contexts_later (hm.later h.sound) hm.same.authEvents

/-- Settling an approval leaves fewer pending ones. -/
theorem settled (h : Rows db) {a a' : ApprovalRecord} (hs : db.Settled a a' db') : Rows db' where
  sound := hs.sound h.sound
  hashed r hr := h.hashed r (hs.operations ▸ hr)
  pending b hb hp r hr := by
    rw [hs.operation?] at hr
    rw [hs.same.approvals] at hb
    rcases Table.of_mem_update hb with ⟨hb, -⟩ | ⟨x, hx, -, rfl⟩
    · exact h.pending b hb hp r hr
    · exact absurd hp hs.left
  contexts := h.contexts_later (hs.later h.sound) hs.same.authEvents

theorem recovered (h : Rows db) (hr : db.Recovers db') : Rows db' where
  sound := hr.sound h.sound
  hashed r' hr' := by
    obtain ⟨r, hm, hrec⟩ := hr.origin hr'
    have hi : r'.input = r.input := hrec.becomes.keeps _ fun _ => rfl
    rw [hrec.becomes.requestHash, hi]
    exact h.hashed r hm
  pending a ha hp := absurd hp (hr.settled a ha)
  contexts := h.contexts_later hr.later hr.swept.authEvents

/-- A new approval is one of an operation that has been validated. -/
theorem approved (h : Rows db) {st : Stamp} {id : String} {o : OperationRecord} {n : String}
    {k : TokenHash} {e : ℕ} (hc : db.createApproval st id o n k e = .ok db')
    (ho : ∀ r, db.operation? o.operationId = some r → r.state = .validated) : Rows db' := by
  obtain ⟨hs, hl⟩ := h.sound.createApproval hc
  obtain ⟨a, -, hop, -, -, -, -, -, hsame⟩ := Database.createApproval_ok hc
  refine ⟨hs, fun r hr => h.hashed r (hsame.operations ▸ hr), fun b hb hp r hr => ?_,
    h.contexts_later hl hsame.authEvents⟩
  rw [hsame.operation?] at hr
  rw [hsame.approvals] at hb
  rcases List.mem_append.1 hb with hb | hb
  · exact h.pending b hb hp r hr
  · rw [List.mem_singleton.1 hb, hop] at hr
    exact .inl (ho r hr)

/-- The context of the caller is recorded for an operation under its namespace. -/
theorem recordedContext (h : Rows db) {st : Stamp} {id : String} {c : AuthContext}
    (hc : db.recordOperationAuthContext st id (authAuditDetails c) = .ok db')
    (hn : ∀ r, db.operation? id = some r → r.replayKey.namespace_ = some c.replayNamespace) :
    Rows db' := by
  obtain ⟨o, ho, rfl⟩ := Database.recordOperationAuthContext_ok hc
  refine ⟨⟨h.sound.ids, h.sound.slots, h.sound.active, h.sound.approvalIds, h.sound.approvalOps,
    h.sound.known⟩, h.hashed, h.pending, fun e he => ?_⟩
  simp only [Database.authEvents, Database.audit, List.filter_append, List.mem_append] at he
  rcases he with he | he
  · exact h.contexts e he
  · have hm := (List.mem_filter.1 he).1
    rw [List.mem_singleton.1 hm]
    exact ⟨o, (Database.operation?_some ho).1, c, rfl, rfl, hn o ho⟩

/-- What is read back of who created an operation is the identity of its namespace. -/
theorem operationAuthContext? (h : Rows db) {r : OperationRecord} (hr : r ∈ db.operations)
    {d : Dict} (hd : db.operationAuthContext? r.operationId = some d) :
    ∃ c : AuthContext, d = authAuditDetails c ∧
      r.replayKey.namespace_ = some c.replayNamespace := by
  rw [Database.operationAuthContext?_eq, Option.map_eq_some_iff] at hd
  obtain ⟨e, he, rfl⟩ := hd
  have hm := List.mem_of_mem_head? he
  simp only [mem_orderBy, List.mem_filter, beq_iff_eq] at hm
  obtain ⟨r', hr', c, hid, hdet, hn⟩ := h.contexts e hm.1
  have hid' : r'.operationId = r.operationId := by
    rw [hm.2] at hid
    exact (Option.some.inj hid).symm
  have : r' = r := List.inj_on_of_nodup_map h.sound.ids hr' hr hid'
  exact ⟨c, hdet, this ▸ hn⟩

end Rows

/-! ## The world -/

namespace World

/-- No subprocess is left that the task waits for. -/
def noProcess (w : World) (t : ℕ) : Prop := ∀ p ∈ w.processes, p.task = t → p.attached = false

/-- The task has the operation in hand: it is on its way, and no token can take it away. -/
def inHand (w : World) (t : ℕ) (o : String) : Prop :=
  w.owner o = some t ∧ (∃ r, w.db.operation? o = some r ∧ r.state.rank ≤ 4) ∧
    ∀ a, w.db.approval? o = some a → a.status ≠ .pending

/-- The operation is running. -/
def isRunning (w : World) (o : String) : Prop :=
  ∃ r, w.db.operation? o = some r ∧ r.state = .running

end World

/-- The invariant. -/
structure Inv (d : Discretion) (w : World) : Prop where
  rows : Rows w.db
  history : History w.calls w.db w.log
  idle : w.started = false → (∀ o, w.owner o = none) ∧ (∀ t, w.current t = none) ∧
    ∀ p ∈ w.processes, p.attached = false
  owners : ∀ o t, w.owner o = some t → t ∈ w.calls.map Prod.fst ∧ (w.db.operation? o).isSome
  currents : ∀ t o, w.current t = some o → t ∈ w.calls.map Prod.fst
  tasks : (∀ p ∈ w.processes, p.task ∈ w.calls.map Prod.fst) ∧
    ∀ e ∈ w.log, e.task ∈ w.calls.map Prod.fst
  attached : ∀ p ∈ w.processes, p.attached = true → ∀ o, p.operation = some o →
    w.owner o = some p.task ∧ w.isRunning o
  attended : d.attended = true → ∀ p ∈ w.processes, p.attached = true
  handles : (w.processes.map Process.handle).Nodup

theorem inv_init (d : Discretion) : Inv d {} := by
  refine ⟨Rows.empty, ⟨trivial, ?_, ?_, ?_, ?_, ?_, ?_⟩, ?_, ?_, ?_, ?_, ?_, ?_, ?_⟩ <;> simp

/-- What task `t` may rely on while others act. -/
structure Rely (t : ℕ) (w w' : World) : Prop where
  started : w.started = true → w'.started = true
  hand : ∀ o, w.inHand t o → w'.owner o = some t ∧ w'.db.operation? o = w.db.operation? o ∧
    w'.db.approval? o = w.db.approval? o
  later : w.db.Later w'.db
  log : ∃ new, w'.log = new ++ w.log ∧ ∀ e ∈ new, e.task ≠ t ∧
    ∀ o, w.inHand t o → e.event.subject ≠ some o
  current : w'.current t = w.current t
  processes : ∀ p : Process, p.task = t → p.attached = true →
    (p ∈ w'.processes ↔ p ∈ w.processes)
  calls : ∀ c ∈ w.calls, c ∈ w'.calls

namespace Rely

variable {t : ℕ} {w w' w'' : World}

theorem inHand (h : Rely t w w') {o : String} (ho : w.inHand t o) : w'.inHand t o := by
  obtain ⟨hown, hop, hap⟩ := h.hand o ho
  exact ⟨hown, hop ▸ ho.2.1, hap ▸ ho.2.2⟩

theorem refl (t : ℕ) (w : World) : Rely t w w :=
  ⟨id, fun _ ho => ⟨ho.1, rfl, rfl⟩, .refl _, ⟨[], rfl, by simp⟩, rfl, fun _ _ _ => Iff.rfl,
    fun _ h => h⟩

theorem trans (h : Rely t w w') (h' : Rely t w' w'') : Rely t w w'' where
  started hs := h'.started (h.started hs)
  hand o ho := by
    obtain ⟨-, hop, hap⟩ := h.hand o ho
    obtain ⟨hown, hop', hap'⟩ := h'.hand o (h.inHand ho)
    exact ⟨hown, hop'.trans hop, hap'.trans hap⟩
  later := h.later.trans h'.later
  log := by
    obtain ⟨new, hnew, hother⟩ := h.log
    obtain ⟨new', hnew', hother'⟩ := h'.log
    refine ⟨new' ++ new, by rw [hnew', hnew, List.append_assoc], fun e he => ?_⟩
    rcases List.mem_append.1 he with he | he
    · exact ⟨(hother' e he).1, fun o ho => (hother' e he).2 o (h.inHand ho)⟩
    · exact hother e he
  current := h'.current.trans h.current
  processes p hp ha := (h'.processes p hp ha).trans (h.processes p hp ha)
  calls c hc := h'.calls c (h.calls c hc)

theorem noProcess (h : Rely t w w') (hn : w.noProcess t) : w'.noProcess t := fun p hp ht => by
  by_contra ha
  have ha : p.attached = true := by simpa using ha
  simp [hn p ((h.processes p ht ha).1 hp) ht] at ha

theorem isRunning (h : Rely t w w') {o : String} (ho : w.inHand t o) (hr : w.isRunning o) :
    w'.isRunning o := by
  obtain ⟨r, hr, hs⟩ := hr
  exact ⟨r, (h.hand o ho).2.1.trans hr, hs⟩

end Rely

/-! ## Where a question may be asked -/

/-- The call that consumes an approval, seen from its own store. -/
def mayConsume (t : ℕ) (o : String) (k : TokenHash) (w : World) : Prop :=
  ∃ r s caller token key session, w.db.operation? o = some r ∧ 2 ≤ r.state.rank ∧
    r.sessionId = some s ∧ (t, (caller, ToolCall.approvalConfirm o s token key)) ∈ w.calls ∧
    k = ⟨token⟩ ∧ w.db.session? s = some session ∧ session.projectId = r.projectId ∧
    session.ownerId = Database.localOwnerId ∧ session.status = .active

/-- Where task `t` may use a store method on operations. -/
def LegalCall (t : ℕ) (w : World) : OperationCall → Prop
  | .create _ p s _ k n _ _ i => n = requestHash (.obj i) ∧ w.db.operationIn? p s k = none
  | .transition o s _ _ _ => ∀ r, w.db.operation? o = some r → 5 ≤ r.state.rank ∨
      (w.owner o = some t ∧ (s = .validated ∨ s = .awaitingApproval ∨
        ∀ a, w.db.approval? o = some a → a.status ≠ .pending) ∧
        (r.state = .running → w.noProcess t))
  | .recordAuthContext o details => w.owner o = some t ∧ ∃ r c, w.db.operation? o = some r ∧
      details = authAuditDetails c ∧ r.replayKey.namespace_ = some c.replayNamespace
  | .createApproval _ r _ _ _ => w.owner r.operationId = some t ∧
      w.db.operation? r.operationId = some r ∧ r.state = .validated ∧
      ∃ e ∈ w.log, e.Judges r.operationId true
  | .consumeApproval o k _ => mayConsume t o k w
  | .cancelApproval o _ => ∀ r, w.db.operation? o = some r → 2 ≤ r.state.rank
  | .recoverAfterRestart => w.started = false

/-- Where task `t` may pass a point. -/
def LegalMark (t : ℕ) (w : World) : Mark → Prop
  | .judged o _ _ => w.owner o = some t ∧ (∃ r, w.db.operation? o = some r ∧ r.state = .validated) ∧
      ∀ e ∈ w.log, ∀ b, ¬ e.Judges o b
  | .enter o => w.owner o = some t ∧ w.isRunning o ∧ (∀ e ∈ w.log, ¬ e.Enters o) ∧
      ((∃ e ∈ w.log, e.Judges o true) → ∃ e ∈ w.log, e.Consumes o)
  | .dropped o => w.owner o = some t

/-- Where task `t` may ask a question. -/
def Legal (t : ℕ) (q : Ask) (w : World) : Prop :=
  t ∈ w.calls.map Prod.fst ∧ match q with
  | .operation c => (c = .recoverAfterRestart ∨ w.started = true) ∧ LegalCall t w c
  | .spawn _ => w.started = true ∧
      ∀ o, w.current t = some o → w.owner o = some t ∧ w.isRunning o
  | .communicate h _ | .terminate h => ∀ p ∈ w.processes, p.handle = h → p.task = t
  | .setStarted b => b = true
  | .mark m => w.started = true ∧ LegalMark t w m
  | _ => True

end CodemcpBridge
