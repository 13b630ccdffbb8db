import CodemcpBridge.Properties.Calls

/-!
# The expiry of an approval

`consume_approval` writes that an approval has expired, and raises `ApprovalExpired` inside the same
transaction.  The transaction is rolled back by that, so the expiry is answered and never stored.
-/

namespace CodemcpBridge

namespace Database

/-! ## The transaction -/

/-- `_transaction`: what the statements have written is committed if they return, and rolled back if
they raise. -/
def transaction {α : Type} (statements : Database → Except Exn α × Database) (db : Database) :
    Except Exn α × Database :=
  match statements db with
  | (.ok a, db') => (.ok a, db')
  | (.error e, _) => (.error e, db)

/-- The statements of `consume_approval`, with what each branch has written when it ends. -/
def consumeStatements (st : Stamp) (operationId : String) (tokenHash : TokenHash) (now : ℕ)
    (db : Database) : Except Exn OperationRecord × Database :=
  match db.approval? operationId, db.operation? operationId with
  | some a, some o =>
    if a.tokenHash ≠ tokenHash then (.error .approvalTokenMismatch, db)
    else if a.status ≠ .pending then
      if a.status = .expired then (.error .approvalExpired, db)
      else (.error .approvalAlreadyUsed, db)
    else if a.expiresAt ≤ now then
      (.error .approvalExpired,
        (db.updateApproval operationId fun a => { a with status := .expired }).audit st operationId
          o.projectId o.sessionId o.ownerId "approval.expired" "pending" "expired" [])
    else
      (.ok o, (db.updateApproval operationId fun a =>
        { a with status := .consumed, consumedAt := some now }).audit st operationId o.projectId
          o.sessionId o.ownerId "approval.consumed" "pending" "consumed" [])
  | _, _ => (.error .approvalNotFound, db)

/-- An attempt to consume the approval of an operation: the answer, and the store it leaves. -/
def attempt (db : Database) (st : Stamp) (operationId : String) (tokenHash : TokenHash) (now : ℕ) :
    Except Exn OperationRecord × Database :=
  transaction (consumeStatements st operationId tokenHash now) db

variable {db : Database} {st : Stamp} {o : String} {k : TokenHash} {now : ℕ}

/-- The transaction comes to what `consumeApproval` says. -/
theorem attempt_eq : db.attempt st o k now = match db.consumeApproval st o k now with
    | .ok (row, db') => (.ok row, db')
    | .error e => (.error e, db) := by
  unfold attempt transaction consumeStatements consumeApproval
  cases db.approval? o with
  | none => rfl
  | some a =>
    cases db.operation? o with
    | none => rfl
    | some r =>
      dsimp only
      split_ifs <;> rfl

theorem attempt_expired (h : (db.attempt st o k now).1 = .error .approvalExpired) :
    (db.attempt st o k now).2 = db ∧ ∃ a, db.approval? o = some a ∧ a.tokenHash = k ∧
      (a.status = .expired ∨ (a.status = .pending ∧ a.expiresAt ≤ now)) := by
  rw [attempt_eq] at h ⊢
  unfold consumeApproval at h ⊢
  cases ha : db.approval? o with
  | none => simp [ha] at h
  | some a =>
    cases hr : db.operation? o with
    | none => simp [ha, hr] at h
    | some r =>
      simp only [ha, hr] at h ⊢
      by_cases hk : a.tokenHash = k
      · by_cases hp : a.status = .pending
        · by_cases hx : a.expiresAt ≤ now
          · simp only [hk, hp, hx, ne_eq, not_true_eq_false, if_false, if_true]
            exact ⟨trivial, a, rfl, hk, .inr ⟨hp, hx⟩⟩
          · simp [hk, hp, hx] at h
        · by_cases he : a.status = .expired
          · simp only [hk, he, ne_eq, not_true_eq_false, if_false, reduceCtorEq, not_false_eq_true,
              if_true]
            exact ⟨trivial, a, rfl, hk, .inl he⟩
          · simp [hk, hp, he] at h
      · simp [hk] at h

/-- An attempt with the right token on a pending approval whose time is up. -/
theorem attempt_late (hs : db.Sound) {a : ApprovalRecord} (ha : db.approval? o = some a)
    (hp : a.status = .pending) (hx : a.expiresAt ≤ now) :
    db.attempt st o a.tokenHash now = (.error .approvalExpired, db) := by
  obtain ⟨r, hr⟩ := hs.operation_of_approval (approval?_some ha).1
  rw [(approval?_some ha).2] at hr
  rw [attempt_eq]
  simp [consumeApproval, ha, hr, hp, hx]

/-! ## No approval is ever stored as expired -/

/-- A recovery cancels approvals, and changes none otherwise. -/
theorem Swept.not_expired {R : OperationRecord → OperationRecord → Prop} {db db' : Database}
    (h : Swept R db db') (hdb : ∀ a ∈ db.approvals, a.status ≠ .expired) :
    ∀ a ∈ db'.approvals, a.status ≠ .expired := by
  obtain ⟨g, hg, hcancels⟩ := h.approvals
  rw [hg]
  intro a ha
  obtain ⟨b, hb, rfl⟩ := List.mem_map.1 ha
  rcases hcancels b hb with hsame | ⟨-, hcancelled⟩
  · rw [hsame]
    exact hdb b hb
  · rw [hcancelled]
    exact nofun

/-- Of a settled approval only its own row has changed. -/
theorem Settled.status {db db' : Database} {a a' : ApprovalRecord} (h : db.Settled a a' db')
    (ha' : a'.status ≠ .expired) (hdb : ∀ b ∈ db.approvals, b.status ≠ .expired) :
    ∀ b ∈ db'.approvals, b.status ≠ .expired := by
  intro b hb
  rw [h.same.approvals] at hb
  rcases Table.of_mem_update hb with ⟨hb, -⟩ | ⟨c, -, -, rfl⟩
  · exact hdb b hb
  · exact ha'

end Database

theorem Stored.not_expired {db : Database} (h : Stored db) :
    ∀ a ∈ db.approvals, a.status ≠ .expired := by
  induction h with
  | empty => simp
  | @operation db db' st c r hdb hrun ih =>
    have same : db'.approvals = db.approvals → ∀ a ∈ db'.approvals, a.status ≠ .expired :=
      fun happrovals => happrovals ▸ ih
    cases c with
    | create id p s w k n kind b i =>
      obtain ⟨row, existing⟩ := r
      rcases Database.createOperation_ok hrun with ⟨-, rfl, -⟩ | ⟨-, -, hc⟩
      · exact ih
      · exact same hc.same.approvals
    | transition id s e p x =>
      obtain ⟨_, -, -, -, -, hmoved⟩ := Database.transitionOperation_ok hrun
      exact same hmoved.same.approvals
    | recordAuthContext id d => exact same (sameRows_recordAuthContext (ok_of_map hrun)).2
    | createApproval i row n k e =>
      obtain ⟨a, -, -, -, hp, -, -, -, hsame⟩ := Database.createApproval_ok (ok_of_map hrun)
      intro b hb
      rw [hsame.approvals] at hb
      rcases List.mem_append.1 hb with hb | hb
      · exact ih b hb
      · rw [List.mem_singleton.1 hb, hp]
        decide
    | consumeApproval id k now =>
      obtain ⟨_, a', -, -, -, -, hc, hset⟩ := Database.consumeApproval_ok hdb.sound hrun
      exact hset.status (by rw [hc]; decide) ih
    | cancelApproval id reason =>
      obtain ⟨_, a', -, hc, hset⟩ := Database.cancelApproval_ok hdb.sound (ok_of_map hrun)
      exact hset.status (by rw [hc]; decide) ih
    | recoverAfterRestart =>
      exact hdb.sound.recoverAfterRestart_related
        (R := fun db db' => (∀ a ∈ db.approvals, a.status ≠ .expired) →
          ∀ a ∈ db'.approvals, a.status ≠ .expired)
        (fun _ h => h) (fun h h' hdb => h' (h hdb)) (fun _ _ _ h => h)
        (fun hs ho hf hrun => by
          obtain ⟨db₁, hrun', hswept⟩ := Database.recoverOperation_ok _ hs ho hf
          obtain rfl := Except.ok.inj (hrun'.symm.trans hrun)
          exact hswept.not_expired)
        (fun _ _ _ _ => Database.recoverOrphan_swept.not_expired) hdb.sessionIds hrun ih
  | other _ hrun ih => exact (StoreCall.run_same hrun).approvals ▸ ih

/-! ## What durable would be -/

/-- The expiry of an approval is on record, and it cannot be consumed any more. -/
structure DurablyExpired (db : Database) (operationId : String) : Prop where
  status : ∃ a, db.approval? operationId = some a ∧ a.status = .expired
  event : ∃ e ∈ db.auditEvents, e.operationId = some operationId ∧ e.eventType = "approval.expired"
  later : ∀ calls st tokenHash now row,
    ((db.afterAll calls).attempt st operationId tokenHash now).1 ≠ .ok row

/-- An attempt that is answered with `ApprovalExpired` leaves a durable expiry. -/
def ExpiresDurably (db : Database) (st : Stamp) (operationId : String) (tokenHash : TokenHash)
    (now : ℕ) : Prop :=
  (db.attempt st operationId tokenHash now).1 = .error .approvalExpired →
    DurablyExpired (db.attempt st operationId tokenHash now).2 operationId

/-- **An expiry is durable** only where none is met: an attempt with the right token, on an approval
that is pending still, after its time is up, is answered with an expiry that is not stored. -/
theorem expires_durably_iff (calls : List (Stamp × StoreMethod)) (st : Stamp) (operationId : String)
    (tokenHash : TokenHash) (now : ℕ) :
    ExpiresDurably (Database.ofCalls calls) st operationId tokenHash now ↔
      ∀ a, (Database.ofCalls calls).approval? operationId = some a → a.tokenHash = tokenHash →
        a.status = .pending → now < a.expiresAt := by
  have hstored := Database.stored_ofCalls calls
  constructor
  · rintro h a ha rfl hp
    by_contra hlate
    have hattempt := @Database.attempt_late _ st _ _ hstored.sound a ha hp (Nat.le_of_not_lt hlate)
    obtain ⟨b, hb, hexpired⟩ := (h (by rw [hattempt])).status
    rw [hattempt] at hb
    obtain rfl := Option.some.inj (ha.symm.trans hb)
    rw [hp] at hexpired
    cases hexpired
  · intro h hanswer
    obtain ⟨-, a, ha, hk, hexpired | ⟨hp, hx⟩⟩ := Database.attempt_expired hanswer
    · exact absurd hexpired (hstored.not_expired a (Database.approval?_some ha).1)
    · exact absurd hx (Nat.not_le_of_lt (h a ha hk hp))

/-! ## A clock that steps back -/

/-- An operation that waits for an approval, which expires at 300000. -/
def awaitingApproval : List (Stamp × StoreMethod) :=
  let row : OperationRecord := {
    operationId := "o", projectId := "p", sessionId := some "s"
    ownerId := Database.localOwnerId, replayKey := encodeReplayKey none "k", requestHash := .null
    kind := .testRun, state := .validated, mutation := true, input := [], createdAt := 0
    updatedAt := 0 }
  [.create "o" "p" (some "s") Database.localOwnerId (encodeReplayKey none "k")
      .null .testRun true [],
    .transition "o" .validated (some .received) none none,
    .createApproval "a" row "test:t" ⟨"token"⟩ 300000,
    .transition "o" .awaitingApproval (some .validated) none none].map fun c =>
      (Stamp.still, .operation c)

/-- An attempt at 300000 is told that the approval has expired; one that reads 299999 after it
consumes the approval. -/
theorem expired_then_consumed : ¬ ∀ calls st operationId tokenHash now,
    ExpiresDurably (Database.ofCalls calls) st operationId tokenHash now := by
  intro h
  have hdurable := h awaitingApproval Stamp.still "o" ⟨"token"⟩ 300000
  have hanswer : ((Database.ofCalls awaitingApproval).attempt Stamp.still "o" ⟨"token"⟩ 300000).1 =
      .error .approvalExpired := by decide +kernel
  have hlater := (hdurable hanswer).later [] Stamp.still ⟨"token"⟩ 299999
  have hconsumed : (((Database.ofCalls awaitingApproval).attempt Stamp.still "o" ⟨"token"⟩
      300000).2.attempt Stamp.still "o" ⟨"token"⟩ 299999).1.isOk = true := by decide +kernel
  cases hattempt : (((Database.ofCalls awaitingApproval).attempt Stamp.still "o" ⟨"token"⟩
      300000).2.attempt Stamp.still "o" ⟨"token"⟩ 299999).1 with
  | error e =>
    rw [hattempt] at hconsumed
    cases hconsumed
  | ok row => exact hlater row hattempt

end CodemcpBridge
