import CodemcpBridge.Properties.AuditLog

/-!
# Settled records

A call may ask a record for the state that it has already.  The store takes such a call, and writes
the payload, the time and the reason anew.  Where no call does that to a settled record, nothing
changes one: an operation that has ended and a session that has ended stay as they are, and an
unknown operation changes by its one recorded transition.
-/

namespace CodemcpBridge

/-! ## What stays -/

/-- The operation has ended, for good. -/
def OperationState.isFinal (s : OperationState) : Bool := [succeeded, failed, cancelled].contains s

/-- The session has ended. -/
def SessionStatus.isEnded (s : SessionStatus) : Bool := [closed, blocked].contains s

/-- What a settled operation is remembered by. -/
def OperationRecord.outcome (o : OperationRecord) :
    OperationState × Option Payload × Option ErrorData × Option ℕ :=
  (o.state, o.result, o.error, o.finishedAt)

/-- What an ended session is remembered by. -/
def SessionRecord.ending (s : SessionRecord) : SessionStatus × Option ℕ × Option String :=
  (s.status, s.closedAt, s.reason)

/-- The records that were settled are as they were. -/
structure KeepsSettled (db db' : Database) : Prop where
  operations : ∀ o r, db.operation? o = some r → r.state.isFinal = true →
    ∃ r', db'.operation? o = some r' ∧ r'.outcome = r.outcome
  /-- An unknown operation is as it was, or one event records its one transition. -/
  unknown : ∀ o r, db.operation? o = some r → r.state = .unknown →
    ∃ r', db'.operation? o = some r' ∧ (r'.outcome = r.outcome ∨
      (r'.state = .failed ∨ r'.state = .succeeded) ∧
        ∃ events, db'.auditEvents = db.auditEvents ++ events ∧
          (Subject.operation o).steps events = [(some r.state.text, some r'.state.text)])
  sessions : ∀ s r, db.session? s = some r → r.status.isEnded = true →
    ∃ r', db'.session? s = some r' ∧ r'.ending = r.ending

/-- The call asks a settled record for the state that it has. -/
def StoreMethod.restates (db : Database) : StoreMethod → Bool
  | operation (.transition o s expected _ _) => (db.operation? o).any fun r =>
      r.state == s && terminalOperationStates.contains s && expected.all (r.state == ·)
  | other (.transitionSession id s _) => (db.session? id).any fun r => r.status == s && s.isEnded
  | _ => false

/-- None of the calls, made one after the other, asks a settled record for the state that it has. -/
def NoneRestates : Database → List (Stamp × StoreMethod) → Prop
  | _, [] => True
  | db, call :: calls =>
    call.2.restates db = false ∧ NoneRestates (db.after call.1 call.2) calls

/-! ## One call -/

variable {db : Database} {st : Stamp} {m : StoreMethod}

/-- A settled operation is left as it is, or it was unknown and has made its transition. -/
theorem settled_operation (h : Stored db) (hm : m.restates db = false) {o : String}
    {r : OperationRecord} (hr : db.operation? o = some r)
    (hs : r.state ∈ terminalOperationStates) :
    (db.after st m).operation? o = some r ∨ (r.state = .unknown ∧
      ∃ r', (db.after st m).operation? o = some r' ∧ r'.state.isFinal = true) := by
  have same : ∀ {db' : Database}, db'.operations = db.operations → db'.operation? o = some r :=
    fun hops => by rw [Database.operation?, hops]; exact hr
  rcases Database.after_cases db st m with hsame | ⟨c, a, rfl, hrun⟩ | ⟨c, a, rfl, hrun⟩
  · rw [hsame]
    exact .inl hr
  · cases c with
    | create id p s w k n kind b i =>
      obtain ⟨row, existing⟩ := a
      rcases Database.createOperation_ok hrun with ⟨-, hdb, -⟩ | ⟨-, -, hc⟩
      · rw [hdb]
        exact .inl hr
      · left
        obtain ⟨hmem, hid⟩ := Database.operation?_some hr
        rw [hc.operation?_of_ne fun heq => hc.id r hmem (hid.trans heq)]
        exact hr
    | transition id s e p x =>
      obtain ⟨current, hid, he, hmove, hrow, hmoved⟩ := Database.transitionOperation_ok hrun
      by_cases ho : o = current.operationId
      · subst ho
        obtain rfl : current = r := Option.some.inj (hmoved.found.symm.trans hr)
        have hne : s ≠ current.state := by
          intro hsame
          subst hid
          simp only [StoreMethod.restates, hr, Option.any_some, hsame, beq_self_eq_true,
            Bool.true_and, List.contains_iff_mem.2 hs] at hm
          cases e with
          | none => simp at hm
          | some s' => simp [he s' rfl] at hm
        refine .inr ⟨?_, a, hmoved.operation?_self, ?_⟩
        · revert hs hmove hne
          cases current.state <;> cases s <;> decide
        · rw [hrow]
          show s.isFinal = true
          revert hs hmove hne
          cases current.state <;> cases s <;> decide
      · left
        rw [hmoved.operation?_of_ne ho]
        exact hr
    | recordAuthContext id d => exact .inl (same (sameRows_recordAuthContext (ok_of_map hrun)).1)
    | createApproval i row n k e =>
      obtain ⟨_, -, -, -, -, -, -, -, hsame⟩ := Database.createApproval_ok (ok_of_map hrun)
      exact .inl (same hsame.operations)
    | consumeApproval id k now =>
      obtain ⟨_, _, -, -, -, -, -, hset⟩ := Database.consumeApproval_ok h.sound hrun
      exact .inl (same hset.operations)
    | cancelApproval id reason =>
      obtain ⟨_, _, -, -, hset⟩ := Database.cancelApproval_ok h.sound (ok_of_map hrun)
      exact .inl (same hset.operations)
    | recoverAfterRestart =>
      obtain ⟨recovered, db', hrun', hrestart⟩ := h.restarted st
      obtain ⟨-, hdb⟩ := Prod.mk.inj (Except.ok.inj (hrun'.symm.trans hrun))
      obtain ⟨hmem, hid⟩ := Database.operation?_some hr
      have hsound := (h.written (Database.written_after db st
        (.operation .recoverAfterRestart))).sound
      exact .inl (hsound.operation?_iff.2 ⟨hdb ▸ hrestart.settledOperations r hmem hs, hid⟩)
  · exact .inl (same (StoreCall.run_same hrun).operations)

/-- An ended session is left as it is. -/
theorem settled_session (h : Stored db) (hm : m.restates db = false) {s : String}
    {r : SessionRecord} (hr : db.session? s = some r) (hs : r.status.isEnded = true) :
    (db.after st m).session? s = some r := by
  have same : ∀ {db' : Database}, db'.sessions = db.sessions → db'.session? s = some r :=
    fun hsessions => by rw [Database.session?, hsessions]; exact hr
  obtain ⟨hmem, hid⟩ := Table.row?_some hr
  rcases Database.after_cases db st m with hsame | ⟨c, a, rfl, hrun⟩ | ⟨c, a, rfl, hrun⟩
  · rw [hsame]
    exact hr
  · by_cases hc : c = .recoverAfterRestart
    · subst hc
      obtain ⟨recovered, db', hrun', hrestart⟩ := h.restarted st
      obtain ⟨-, hdb⟩ := Prod.mk.inj (Except.ok.inj (hrun'.symm.trans hrun))
      have hids := (h.written
        (Database.written_after db st (.operation .recoverAfterRestart))).sessionIds
      refine (Table.row?_eq_some_iff hids).2 ⟨hdb ▸ hrestart.settledSessions r hmem ?_ ?_, hid⟩
      · rintro hactive
        simp [hactive, SessionStatus.isEnded] at hs
      · rintro hclosing
        simp [hclosing, SessionStatus.isEnded] at hs
    · exact same (OperationCall.run_sessions hrun hc).1.sessions
  · cases c with
    | createSession id p w d =>
      obtain ⟨hnone, hsessions, -⟩ := Database.createSession_ok hrun
      rw [Database.session?, hsessions, Table.row?_append]
      rw [Database.session?] at hr
      rw [hr, Option.some_or]
    | transitionSession id s' reason =>
      obtain ⟨current, hc, hmove, ⟨now, hrow⟩, hsessions, -⟩ := Database.transitionSession_ok hrun
      have hne : s ≠ id := by
        rintro rfl
        obtain rfl : current = r := Option.some.inj (hc.symm.trans hr)
        simp only [StoreMethod.restates, hc, Option.any_some, Bool.and_eq_false_iff,
          beq_eq_false_iff_ne] at hm
        rcases hmove with rfl | hmove
        · rcases hm with hm | hm
          · exact hm rfl
          · exact absurd hs (by simp [hm])
        · revert hmove hs
          cases current.status <;> cases s' <;> decide
      rw [Database.session?, hsessions, Table.row?_update_of_ne hne fun x hx => ?_]
      · exact hr
      · rw [hrow]
        exact (Table.row?_some hc).2
    | _ => exact same (StoreCall.run_sessions hrun (by simp) (by simp)).sessions

/-! ## Any number of calls -/

variable {calls : List (Stamp × StoreMethod)}

theorem settled_operation_run (h : Stored db) (hn : NoneRestates db calls) {o : String}
    {r : OperationRecord} (hr : db.operation? o = some r)
    (hs : r.state ∈ terminalOperationStates) :
    (db.afterAll calls).operation? o = some r ∨ (r.state = .unknown ∧
      ∃ r', (db.afterAll calls).operation? o = some r' ∧ r'.state.isFinal = true) := by
  induction calls generalizing db r with
  | nil => exact .inl hr
  | cons call calls ih =>
    have hstored := h.written (Database.written_after db call.1 call.2)
    rcases settled_operation h hn.1 hr hs with hr | ⟨hunknown, r', hr', hfinal⟩
    · exact ih hstored hn.2 hr hs
    · refine .inr ⟨hunknown, r', ?_, hfinal⟩
      rcases ih hstored hn.2 hr' (by revert hfinal; cases r'.state <;> decide) with hr' | ⟨hu, -⟩
      · exact hr'
      · rw [hu] at hfinal
        cases hfinal

theorem settled_session_run (h : Stored db) (hn : NoneRestates db calls) {s : String}
    {r : SessionRecord} (hr : db.session? s = some r) (hs : r.status.isEnded = true) :
    (db.afterAll calls).session? s = some r := by
  induction calls generalizing db with
  | nil => exact hr
  | cons call calls ih =>
    exact ih (h.written (Database.written_after db call.1 call.2)) hn.2
      (settled_session h hn.1 hr hs)

theorem OperationState.text_injective {s s' : OperationState} (h : s.text = s'.text) : s = s' := by
  revert h
  cases s <;> cases s' <;> decide

/-- No step leads on from a final state. -/
theorem not_edge_of_isFinal {o : String} {s : OperationState} (hs : s.isFinal = true)
    (t : Option String) : ¬ (Subject.operation o).edge (some s.text) t := by
  rintro (⟨h, -⟩ | ⟨s₁, s₂, hmem, h, -⟩)
  · cases h
  · obtain rfl := OperationState.text_injective (Option.some.inj h)
    revert hs hmem
    cases s <;> cases s₂ <;> decide

/-- The log of an operation that was unknown and has ended is its one transition. -/
theorem steps_of_unknown {o : String} {steps : List (Option String × Option String)}
    {s : OperationState} (hs : s.isFinal = true)
    (h : Trail.Leads (Subject.operation o).edge (some OperationState.unknown.text) steps
      (some s.text)) :
    (s = .failed ∨ s = .succeeded) ∧
      steps = [(some OperationState.unknown.text, some s.text)] := by
  cases steps with
  | nil =>
    obtain rfl := OperationState.text_injective (Option.some.inj h)
    cases hs
  | cons step steps =>
    obtain ⟨f, t⟩ := step
    obtain ⟨hf, hedge, hrest⟩ := h
    dsimp only at hf hedge hrest
    subst hf
    rcases hedge with ⟨hnone, -⟩ | ⟨s₁, s₂, hmem, hfrom, rfl⟩
    · cases hnone
    · obtain rfl := OperationState.text_injective (Option.some.inj hfrom)
      have hsent : s₂ = .failed ∨ s₂ = .succeeded := by simpa [operationTransitions] using hmem
      have hfinal : s₂.isFinal = true := by rcases hsent with rfl | rfl <;> decide
      obtain ⟨rfl, hlast⟩ := hrest.stuck (not_edge_of_isFinal hfinal)
      obtain rfl := OperationState.text_injective (Option.some.inj hlast)
      exact ⟨hsent, rfl⟩

theorem KeepsSettled.of_stored (h : Stored db) (hn : NoneRestates db calls) :
    KeepsSettled db (db.afterAll calls) where
  operations o r hr hfinal := by
    have hs : r.state ∈ terminalOperationStates := by revert hfinal; cases r.state <;> decide
    rcases settled_operation_run h hn hr hs with hr' | ⟨hu, -⟩
    · exact ⟨r, hr', rfl⟩
    · rw [hu] at hfinal
      cases hfinal
  unknown o r hr hu := by
    rcases settled_operation_run h hn hr (by rw [hu]; decide) with hr' | ⟨-, r', hr', hfinal⟩
    · exact ⟨r, hr', .inl rfl⟩
    · refine ⟨r', hr', .inr ?_⟩
      obtain ⟨events, hlog, hleads⟩ := Database.accounts_afterAll h calls
      have hstep := hleads (.operation o)
      simp only [Database.stateOf, hr, hr', Option.map_some, hu] at hstep
      obtain ⟨hsent, hsteps⟩ := steps_of_unknown hfinal hstep
      exact ⟨hsent, events, hlog, by rw [hu]; exact hsteps⟩
  sessions s r hr hended := ⟨r, settled_session_run h hn hr hended, rfl⟩

/-- **Settled records stay as they are** in every sequence of calls, none of which asks a settled
record for the state that it has. -/
theorem settled_records_immutable (calls later : List (Stamp × StoreMethod))
    (hn : NoneRestates (Database.ofCalls calls) later) :
    KeepsSettled (Database.ofCalls calls) ((Database.ofCalls calls).afterAll later) :=
  .of_stored (Database.stored_ofCalls calls) hn

/-! ## Settling twice -/

/-- A mutation whose outcome is unknown. -/
def leftUnknown : List (Stamp × StoreMethod) :=
  [.create "o" "p" (some "s") Database.localOwnerId (encodeReplayKey none "k")
      .null .fileDelete true [],
    .transition "o" .validated (some .received) none none,
    .transition "o" .dispatched (some .validated) none none,
    .transition "o" .running (some .dispatched) none none,
    .transition "o" .unknown none none none].map fun c => (Stamp.still, .operation c)

/-- The operation is settled as failed on the given evidence, as `operation_reconcile` does. -/
def reconciling (evidence : String) : Stamp × StoreMethod :=
  let payload := errorPayload "r" (some "s") (some "p") "o" {
    code := .bridgeRestarted, message := "operation was reconciled as not executed"
    details := [("evidence", .str evidence), ("reconciled", .bool true)], status := .failed }
  (Stamp.still, .operation (.transition "o" .failed none (some payload.persistable)
    (payload.error.map ErrorData.withoutToken)))

theorem settled_records_immutable_reconciled :
    NoneRestates (Database.ofCalls leftUnknown) [reconciling "first"] ∧
    KeepsSettled (Database.ofCalls leftUnknown)
      ((Database.ofCalls leftUnknown).afterAll [reconciling "first"]) := by
  have hn : NoneRestates (Database.ofCalls leftUnknown) [reconciling "first"] :=
    ⟨by decide +kernel, trivial⟩
  exact ⟨hn, settled_records_immutable _ _ hn⟩

/-- A second call of `finish` for an operation that has been settled as failed replaces what the
first one has stored. -/
theorem reconciled_twice_rewritten :
    ¬ ∀ calls later, KeepsSettled (Database.ofCalls calls)
      ((Database.ofCalls calls).afterAll later) := by
  intro h
  have hkept := h (leftUnknown ++ [reconciling "first"]) [reconciling "second"]
  have hrow : ((Database.ofCalls (leftUnknown ++ [reconciling "first"])).operation? "o").any
      (fun r => r.state.isFinal) = true := by decide +kernel
  obtain ⟨r, hr, hfinal⟩ := (Option.any_eq_true _ _).1 hrow
  obtain ⟨r', hr', houtcome⟩ := hkept.operations "o" r hr hfinal
  have hne : ((Database.ofCalls (leftUnknown ++ [reconciling "first"])).operation? "o").map
      OperationRecord.error ≠ (((Database.ofCalls (leftUnknown ++ [reconciling "first"])).afterAll
        [reconciling "second"]).operation? "o").map OperationRecord.error := by decide +kernel
  rw [hr, hr'] at hne
  simp only [OperationRecord.outcome, Prod.mk.injEq] at houtcome
  exact hne (by rw [Option.map_some, Option.map_some, houtcome.2.2.1])

end CodemcpBridge
