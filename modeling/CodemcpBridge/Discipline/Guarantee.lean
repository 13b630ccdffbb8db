import CodemcpBridge.Discipline.Invariant

/-!
# Legal questions keep the invariant

Every legal question of a task, however it is answered, keeps the invariant and what the other tasks
rely on.  So do the arrival of a call, a crash and an orderly end.
-/

namespace CodemcpBridge

open Database (Sound Later SameOperations)

variable {d : Discretion} {t t' : ℕ} {w w' : World}

/-! ## Questions that touch no operation -/

/-- The step leaves the operations, the subprocesses and the ghosts alone. -/
structure World.Keeps (w w' : World) : Prop where
  db : w.db.SameOperations w'.db
  started : w'.started = w.started
  processes : w'.processes = w.processes
  calls : w'.calls = w.calls
  owner : w'.owner = w.owner
  current : w'.current = w.current
  log : w'.log = w.log

theorem World.Keeps.refl (w : World) : w.Keeps w := ⟨.refl _, rfl, rfl, rfl, rfl, rfl, rfl⟩

theorem keeps_db {db : Database} (h : w.db.SameOperations db) : w.Keeps { w with db } :=
  ⟨h, rfl, rfl, rfl, rfl, rfl, rfl⟩

theorem answered_keeps {α : Type} {s : Bool} {r a : Except Exn α}
    (h : answered s w r = some (a, w')) : w.Keeps w' := by
  unfold answered at h
  split at h
  · split at h
    · cases h
      exact .refl _
    · cases h
  · cases h
    exact .refl _

theorem certain_keeps {α : Type} {r a : Except Exn α} (h : certain w r = some (a, w')) :
    w.Keeps w' := by
  unfold certain at h
  split at h
  · cases h
    exact .refl _
  · cases h

theorem drawn_keeps {r a : Except Exn String} (h : drawn w r = some (a, w')) : w.Keeps w' := by
  unfold drawn at h
  split at h
  · split at h
    · cases h
      exact .refl _
    · cases h
  · cases h

theorem execQuiet_keeps {e : Choice} {q : Quiet} {a : Except Exn q.Result}
    (h : execQuiet w e q = some (a, w')) : w.Keeps w' := by
  cases q with
  | store c =>
    simp only [execQuiet] at h
    split at h
    · cases h
      exact .refl _
    · split at h
      · rename_i hrun
        cases h
        exact keeps_db (StoreCall.run_same hrun)
      · cases h
        exact .refl _
  | snapshot =>
    cases h
    exact .refl _
  | refreshIfChanged =>
    simp only [execQuiet] at h
    split at h
    · cases h
      exact ⟨.refl _, rfl, rfl, rfl, rfl, rfl, rfl⟩
    · exact answered_keeps h
  | acquire p =>
    simp only [execQuiet] at h
    split at h
    · split at h
      · cases h
      · cases h
        exact ⟨.refl _, rfl, rfl, rfl, rfl, rfl, rfl⟩
    · cases h
      exact .refl _
    · cases h
  | release p =>
    cases h
    exact ⟨.refl _, rfl, rfl, rfl, rfl, rfl, rfl⟩
  | uuid => exact drawn_keeps h
  | token => exact drawn_keeps h
  | now => exact certain_keeps h
  | adapterActive p => exact certain_keeps h
  | _ => exact answered_keeps h

theorem World.Keeps.rely (h : w.Keeps w') (t : ℕ) : Rely t w w' where
  started := by simp [h.started]
  hand o ho := by
    rw [h.owner, h.db.operation?, h.db.approval?]
    exact ⟨ho.1, rfl, rfl⟩
  later := h.db.later
  log := ⟨[], by simp [h.log], by simp⟩
  current := by rw [h.current]
  processes := by simp [h.processes]
  calls := by simp [h.calls]

theorem World.Keeps.isRunning (h : w.Keeps w') {o : String} (ho : w.isRunning o) :
    w'.isRunning o := by
  obtain ⟨r, hr, hs⟩ := ho
  exact ⟨r, (h.db.operation? o).trans hr, hs⟩

theorem Inv.keeps (hi : Inv d w) (h : w.Keeps w') : Inv d w' where
  rows := hi.rows.same h.db
  history := by
    rw [h.calls, h.log]
    exact hi.history.same h.db
  idle hs := by
    rw [h.owner, h.current, h.processes]
    exact hi.idle (h.started ▸ hs)
  owners o t ho := by
    rw [h.calls, h.db.operation?]
    exact hi.owners o t (h.owner ▸ ho)
  currents t o ho := by
    rw [h.calls]
    exact hi.currents t o (h.current ▸ ho)
  tasks := by
    rw [h.calls, h.processes, h.log]
    exact hi.tasks
  attached p hp ha o ho := by
    obtain ⟨hown, hrun⟩ := hi.attached p (h.processes ▸ hp) ha o ho
    exact ⟨h.owner ▸ hown, h.isRunning hrun⟩
  attended := by
    rw [h.processes]
    exact hi.attended
  handles := by
    rw [h.processes]
    exact hi.handles

/-! ## Store methods on operations -/

/-- A method touches the operation it is about at most, unless it is a recovery. -/
theorem OperationCall.run_of_ne {db db' : Database} {st : Stamp} (hs : db.Sound)
    {c : OperationCall} {a : c.Result} (h : c.run db st = .ok (a, db'))
    (hc : c ≠ .recoverAfterRestart) {o : String} (ho : (Event.done c).subject ≠ some o) :
    db'.operation? o = db.operation? o ∧ db'.approval? o = db.approval? o := by
  cases c with
  | create o' p s w k n m i =>
    obtain ⟨row, existing⟩ := a
    rcases Database.createOperation_ok h with ⟨-, rfl, -⟩ | ⟨-, ⟨now, hrow⟩, hcr⟩
    · exact ⟨rfl, rfl⟩
    · refine ⟨hcr.operation?_of_ne fun hid => ho ?_, hcr.same.approval? o⟩
      simp [Event.subject, hid, hrow]
  | transition o' s e r d =>
    obtain ⟨current, hid, -, -, -, hm⟩ := Database.transitionOperation_ok h
    refine ⟨hm.operation?_of_ne fun hh => ho ?_, hm.same.approval? o⟩
    simp [Event.subject, hh, hid]
  | recordAuthContext o' d =>
    obtain ⟨r, -, rfl⟩ := Database.recordOperationAuthContext_ok (ok_of_map h)
    exact ⟨rfl, rfl⟩
  | createApproval a r n t e =>
    obtain ⟨b, -, hop, -, -, -, -, -, hsame⟩ := Database.createApproval_ok (ok_of_map h)
    refine ⟨hsame.operation? o, ?_⟩
    have hne : b.operationId ≠ o := fun hh => ho (by simp [Event.subject, ← hop, hh])
    rw [hsame.approval?]
    simp [Database.approval?, Table.row?_append, hne]
  | consumeApproval o' t n =>
    obtain ⟨a, a', hid, -, -, -, -, hset⟩ := Database.consumeApproval_ok hs h
    have hne : o ≠ a.operationId := fun hh => ho (by simp [Event.subject, hh, hid])
    exact ⟨hset.operation? o, hset.approval?_of_ne hne⟩
  | cancelApproval o' r =>
    obtain ⟨a, a', hid, -, hset⟩ := Database.cancelApproval_ok hs (ok_of_map h)
    have hne : o ≠ a.operationId := fun hh => ho (by simp [Event.subject, hh, hid])
    exact ⟨hset.operation? o, hset.approval?_of_ne hne⟩
  | recoverAfterRestart => exact absurd rfl hc

namespace World

variable {event : Event} {db : Database} {claimed : Option String}

@[simp] theorem note_db : (w.note t event db).db = db := rfl
@[simp] theorem note_log :
    (w.note t event db).log = ⟨t, event, w.db, db⟩ :: w.log := rfl
@[simp] theorem note_started : (w.note t event db).started = w.started := rfl
@[simp] theorem note_processes : (w.note t event db).processes = w.processes := rfl
@[simp] theorem note_calls : (w.note t event db).calls = w.calls := rfl
@[simp] theorem note_owner : (w.note t event db).owner = w.owner := rfl
@[simp] theorem note_current : (w.note t event db).current = w.current := rfl

@[simp] theorem claim_db : (w.claim t claimed).db = w.db := by cases claimed <;> rfl
@[simp] theorem claim_log : (w.claim t claimed).log = w.log := by cases claimed <;> rfl
@[simp] theorem claim_started : (w.claim t claimed).started = w.started := by
  cases claimed <;> rfl
@[simp] theorem claim_processes : (w.claim t claimed).processes = w.processes := by
  cases claimed <;> rfl
@[simp] theorem claim_calls : (w.claim t claimed).calls = w.calls := by cases claimed <;> rfl
@[simp] theorem claim_current : (w.claim t claimed).current = w.current := by cases claimed <;> rfl

theorem claim_owner (o : String) :
    (w.claim t claimed).owner o = if claimed = some o then some t else w.owner o := by
  cases claimed with
  | none => rfl
  | some o' =>
    by_cases h : o = o'
    · subst h
      simp [claim]
    · simp [claim, h, Ne.symm h]

end World

/-- A running operation has no pending approval. -/
theorem Rows.not_pending {db : Database} (h : Rows db) {o : String} {r : OperationRecord}
    (hr : db.operation? o = some r) (hs : r.state = .running) {a : ApprovalRecord}
    (ha : db.approval? o = some a) : a.status ≠ .pending := fun hp => by
  obtain ⟨hm, hid⟩ := Database.approval?_some ha
  rcases h.pending a hm hp r (hid ▸ hr) with h | h <;> simp [hs] at h

/-- A task whose method has succeeded did not touch what another task has in hand. -/
theorem Legal.subject_ne (hi : Inv d w) {c : OperationCall} (hl : Legal t (.operation c) w)
    {st : Stamp} {a : c.Result} {db' : Database} (h : c.run w.db st = .ok (a, db'))
    (ht : t' ≠ t) {o : String} (ho : w.inHand t' o) :
    c ≠ .recoverAfterRestart ∧ (Event.done c).subject ≠ some o := by
  obtain ⟨hown, ⟨r, hr, hrank⟩, hap⟩ := ho
  have hne : w.owner o ≠ some t := by
    rw [hown]
    simpa using ht
  obtain ⟨-, hst, hlegal⟩ := hl
  constructor
  · rintro rfl
    have := (hi.idle hlegal).1 o
    rw [hown] at this
    cases this
  · intro hs
    cases c with
    | create o' p s w' k n m i =>
      cases hs
      obtain ⟨row, existing⟩ := a
      rcases Database.createOperation_ok h with ⟨-, -, hin⟩ | ⟨-, ⟨now, hrow⟩, hcr⟩
      · simp [hlegal.2] at hin
      · refine hcr.id r (Database.operation?_some hr).1 ?_
        rw [(Database.operation?_some hr).2, hrow]
    | transition o' s e r' x =>
      cases hs
      rcases hlegal r hr with h5 | ⟨hown', -⟩
      · omega
      · exact hne hown'
    | recordAuthContext o' x =>
      cases hs
      exact hne hlegal.1
    | createApproval a' r' n k e =>
      cases hs
      exact hne hlegal.1
    | consumeApproval o' k n =>
      cases hs
      obtain ⟨b, b', hid, -, -, -, -, hset⟩ := Database.consumeApproval_ok hi.rows.sound h
      exact hap b (hid ▸ hset.found) hset.pending
    | cancelApproval o' x =>
      cases hs
      obtain ⟨b, b', hid, -, hset⟩ := Database.cancelApproval_ok hi.rows.sound (ok_of_map h)
      exact hap b (hid ▸ hset.found) hset.pending
    | recoverAfterRestart => cases hs

/-- A claimed operation is the one that the method is about. -/
theorem OperationCall.claims_subject {c : OperationCall} {a : c.Result} {o : String}
    (h : c.claims a = some o) : (Event.done c).subject = some o := by
  cases c with
  | create o' p s w k n m i =>
    obtain ⟨row, existing⟩ := a
    cases existing
    · simpa [claims, Event.subject] using h
    · cases h
  | consumeApproval o' k n => exact h
  | cancelApproval o' r => exact h
  | _ => cases h

/-- What a successful method of one task leaves to the others. -/
theorem rely_operation (hi : Inv d w) {c : OperationCall} (hl : Legal t (.operation c) w)
    {st : Stamp} {a : c.Result} {db' : Database} (h : c.run w.db st = .ok (a, db'))
    (ht : t' ≠ t) : Rely t' w ((w.note t (.done c) db').claim t (c.claims a)) where
  started := by simp
  hand o ho := by
    obtain ⟨hc, hs⟩ := hl.subject_ne hi h ht ho
    obtain ⟨hop, hap⟩ := OperationCall.run_of_ne hi.rows.sound h hc hs
    refine ⟨?_, by simpa using hop, by simpa using hap⟩
    rw [World.claim_owner, if_neg fun hcl => hs (OperationCall.claims_subject hcl)]
    exact ho.1
  later := by simpa using (OperationCall.run_sound hi.rows.sound h).2
  log := by
    refine ⟨[⟨t, .done c, w.db, db'⟩], by simp, fun e he => ?_⟩
    rw [List.mem_singleton.1 he]
    exact ⟨ht.symm, fun o ho => (hl.subject_ne hi h ht ho).2⟩
  current := by simp
  processes := by simp
  calls := by simp

/-! ## The invariant after a method -/

/-- An event leaves the invariant if it leaves the rows, the history and what is attached. -/
theorem Inv.note (hi : Inv d w) {event : Event} {db' : Database} {claimed : Option String}
    (ht : t ∈ w.calls.map Prod.fst) (hrows : Rows db') (hl : w.db.Later db')
    (hist : History w.calls db' (⟨t, event, w.db, db'⟩ :: w.log))
    (hstarted : w.started = false → claimed = none)
    (hclaimed : ∀ o, claimed = some o → (db'.operation? o).isSome)
    (hatt : ∀ p ∈ w.processes, p.attached = true → ∀ o, p.operation = some o →
      claimed ≠ some o ∧ ∃ r, db'.operation? o = some r ∧ r.state = .running) :
    Inv d ((w.note t event db').claim t claimed) where
  rows := by simpa using hrows
  history := by simpa using hist
  idle hs := by
    have hs' : w.started = false := by simpa using hs
    have := hi.idle hs'
    simpa [World.claim_owner, hstarted hs'] using this
  owners o t' ho := by
    rw [World.claim_owner] at ho
    split at ho
    · rename_i hcl
      cases ho
      exact ⟨by simpa using ht, by simpa using hclaimed o hcl⟩
    · obtain ⟨hc, hsome⟩ := hi.owners o t' ho
      obtain ⟨r, hr⟩ := Option.isSome_iff_exists.1 hsome
      obtain ⟨r', hr', -⟩ := hl.operation? hrows.sound hr
      exact ⟨by simpa using hc, by simp [hr']⟩
  currents t' o ho := by simpa using hi.currents t' o (by simpa using ho)
  tasks := by
    refine ⟨by simpa using hi.tasks.1, fun e he => ?_⟩
    rw [World.claim_log, World.note_log] at he
    rcases List.mem_cons.1 he with rfl | he
    · simpa using ht
    · simpa using hi.tasks.2 e he
  attached p hp ha o ho := by
    have hp' : p ∈ w.processes := by simpa using hp
    obtain ⟨hown, -⟩ := hi.attached p hp' ha o ho
    obtain ⟨hne, hrun⟩ := hatt p hp' ha o ho
    rw [World.claim_owner, if_neg hne]
    exact ⟨hown, by simpa [World.isRunning] using hrun⟩
  attended h := by simpa using hi.attended h
  handles := by simpa using hi.handles

/-- A subprocess that a task waits for keeps its operation running through every method. -/
theorem attached_operation (hi : Inv d w) {c : OperationCall} (hl : Legal t (.operation c) w)
    {st : Stamp} {a : c.Result} {db' : Database} (h : c.run w.db st = .ok (a, db')) :
    ∀ p ∈ w.processes, p.attached = true → ∀ o, p.operation = some o →
      c.claims a ≠ some o ∧ ∃ r, db'.operation? o = some r ∧ r.state = .running := by
  intro p hp ha o ho
  obtain ⟨hown, r, hr, hrun⟩ := hi.attached p hp ha o ho
  have hap := fun b => hi.rows.not_pending hr hrun (a := b)
  have hhand : w.inHand p.task o := ⟨hown, ⟨r, hr, by simp [hrun, OperationState.rank]⟩, hap⟩
  by_cases ht : p.task = t
  · -- The task is between two steps of its own: only its own transitions could move the operation.
    obtain ⟨-, hst, hlegal⟩ := hl
    by_cases hs : (Event.done c).subject = some o
    · cases c with
      | create o' p' s w' k n m i =>
        cases hs
        obtain ⟨row, existing⟩ := a
        rcases Database.createOperation_ok h with ⟨-, -, hin⟩ | ⟨-, ⟨now, hrow⟩, hcr⟩
        · simp [hlegal.2] at hin
        · refine absurd ?_ (hcr.id r (Database.operation?_some hr).1)
          rw [(Database.operation?_some hr).2, hrow]
      | transition o' s e r' x =>
        cases hs
        rcases hlegal r hr with h5 | ⟨-, -, hno⟩
        · simp [hrun, OperationState.rank] at h5
        · simp [hno hrun p hp ht] at ha
      | recordAuthContext o' x =>
        cases hs
        obtain ⟨b, -, rfl⟩ := Database.recordOperationAuthContext_ok (ok_of_map h)
        exact ⟨by simp [OperationCall.claims], r, hr, hrun⟩
      | createApproval a' r' n k e =>
        cases hs
        obtain ⟨-, hrow, hval, -⟩ := hlegal
        cases hr.symm.trans hrow
        simp [hrun] at hval
      | consumeApproval o' k n =>
        cases hs
        obtain ⟨b, b', hid, -, -, -, -, hset⟩ := Database.consumeApproval_ok hi.rows.sound h
        exact absurd hset.pending (hap b (hid ▸ hset.found))
      | cancelApproval o' x =>
        cases hs
        obtain ⟨b, b', hid, -, hset⟩ := Database.cancelApproval_ok hi.rows.sound (ok_of_map h)
        exact absurd hset.pending (hap b (hid ▸ hset.found))
      | recoverAfterRestart => cases hs
    · have hc : c ≠ .recoverAfterRestart := by
        rintro rfl
        simp [(hi.idle hlegal).1 o] at hown
      refine ⟨fun hcl => hs (OperationCall.claims_subject hcl), r, ?_, hrun⟩
      exact (OperationCall.run_of_ne hi.rows.sound h hc hs).1.trans hr
  · obtain ⟨hc, hs⟩ := hl.subject_ne hi h ht hhand
    refine ⟨fun hcl => hs (OperationCall.claims_subject hcl), r, ?_, hrun⟩
    exact (OperationCall.run_of_ne hi.rows.sound h hc hs).1.trans hr

theorem rows_operation (hi : Inv d w) {c : OperationCall} (hl : Legal t (.operation c) w)
    {st : Stamp} {a : c.Result} {db' : Database} (h : c.run w.db st = .ok (a, db')) :
    Rows db' := by
  obtain ⟨-, -, hlegal⟩ := hl
  cases c with
  | create o p s w' k n m i =>
    obtain ⟨row, existing⟩ := a
    rcases Database.createOperation_ok h with ⟨-, -, hin⟩ | ⟨-, ⟨now, hrow⟩, hcr⟩
    · simp [hlegal.2] at hin
    · exact hi.rows.created hcr (by simpa [hrow] using hlegal.1)
  | transition o s e r x =>
    obtain ⟨current, rfl, -, -, hrow, hm⟩ := Database.transitionOperation_ok h
    refine hi.rows.moved hm ?_
    have hstate : a.state = s := by rw [hrow]; rfl
    rcases hlegal current hm.found with h5 | ⟨-, hs, -⟩
    · refine .inr (.inr fun b hb hp => ?_)
      obtain ⟨hb', hid⟩ := Database.approval?_some hb
      rcases hi.rows.pending b hb' hp current (hid ▸ hm.found) with h | h <;>
        simp [h, OperationState.rank] at h5
    · exact hstate ▸ hs
  | recordAuthContext o x =>
    obtain ⟨-, r, c, hr, rfl, hn⟩ := hlegal
    refine hi.rows.recordedContext (ok_of_map h) fun r' hr' => ?_
    cases hr.symm.trans hr'
    exact hn
  | createApproval a' r n k e =>
    obtain ⟨-, hr, hval, -⟩ := hlegal
    refine hi.rows.approved (ok_of_map h) fun r' hr' => ?_
    cases hr.symm.trans hr'
    exact hval
  | consumeApproval o k n =>
    obtain ⟨b, b', -, -, -, -, -, hset⟩ := Database.consumeApproval_ok hi.rows.sound h
    exact hi.rows.settled hset
  | cancelApproval o x =>
    obtain ⟨b, b', -, -, hset⟩ := Database.cancelApproval_ok hi.rows.sound (ok_of_map h)
    exact hi.rows.settled hset
  | recoverAfterRestart =>
    obtain ⟨r, db₁, hr, hrec⟩ := hi.rows.sound.recoverAfterRestart st
    have hrun := hr.symm.trans h
    simp only [Except.ok.injEq, Prod.mk.injEq] at hrun
    exact hi.rows.recovered (hrun.2 ▸ hrec)

/-- The operation that a successful method is about is there afterwards. -/
theorem subject_operation (hi : Inv d w) {c : OperationCall} (hl : Legal t (.operation c) w)
    {st : Stamp} {a : c.Result} {db' : Database} (h : c.run w.db st = .ok (a, db')) {o : String}
    (ho : (Event.done c).subject = some o) : (db'.operation? o).isSome := by
  obtain ⟨-, -, hlegal⟩ := hl
  obtain ⟨hs', hlater⟩ := OperationCall.run_sound hi.rows.sound h
  have later : ∀ {r}, w.db.operation? o = some r → (db'.operation? o).isSome := fun hr => by
    obtain ⟨r', hr', -⟩ := hlater.operation? hs' hr
    simp [hr']
  cases c with
  | create o' p s w' k n m i =>
    cases ho
    obtain ⟨row, existing⟩ := a
    rcases Database.createOperation_ok h with ⟨-, -, hin⟩ | ⟨-, ⟨now, hrow⟩, hcr⟩
    · simp [hlegal.2] at hin
    · have := hcr.operation?_self
      rw [hrow] at this
      simp [this]
  | transition o' s e r x =>
    cases ho
    obtain ⟨current, rfl, -, -, -, hm⟩ := Database.transitionOperation_ok h
    exact later hm.found
  | recordAuthContext o' x =>
    cases ho
    obtain ⟨r, hr, -⟩ := Database.recordOperationAuthContext_ok (ok_of_map h)
    exact later hr
  | createApproval a' r n k e =>
    cases ho
    exact later hlegal.2.1
  | consumeApproval o' k n =>
    cases ho
    obtain ⟨b, b', -, hr, -⟩ := Database.consumeApproval_ok hi.rows.sound h
    exact later hr
  | cancelApproval o' x =>
    cases ho
    obtain ⟨b, b', hid, -, hset⟩ := Database.cancelApproval_ok hi.rows.sound (ok_of_map h)
    obtain ⟨r, hr⟩ := hi.rows.sound.operation_of_approval (Database.approval?_some hset.found).1
    exact later (hid ▸ hr)
  | recoverAfterRestart => cases ho

/-- The results of the operations are those that the log says. -/
theorem results_operation (hi : Inv d w) {c : OperationCall} (hl : Legal t (.operation c) w)
    {st : Stamp} {a : c.Result} {db' : Database} (h : c.run w.db st = .ok (a, db')) :
    ∀ r ∈ db'.operations, r.result =
      settled? r.operationId (⟨t, .done c, w.db, db'⟩ :: w.log) := by
  intro r hr
  have same : ∀ {x : String}, (⟨t, .done c, w.db, db'⟩ : Entry).payload? x = none →
      settled? x (⟨t, .done c, w.db, db'⟩ :: w.log) = settled? x w.log := fun h => by
    simp [settled?, h]
  have old := hi.history.results
  cases c with
  | create o p s w' k n m i =>
    obtain ⟨row, existing⟩ := a
    rw [same rfl]
    rcases Database.createOperation_ok h with ⟨-, rfl, -⟩ | ⟨-, ⟨now, hrow⟩, hcr⟩
    · exact old r hr
    · rcases hcr.mem_iff.1 hr with hr | rfl
      · exact old r hr
      · have hnone : w.db.operation? r.operationId = none := Table.row?_none.2 hcr.id
        rw [settled?_of_subject fun e he => hi.history.subject_ne hnone he, hrow]
  | transition o s e p x =>
    obtain ⟨current, rfl, -, -, hrow, hm⟩ := Database.transitionOperation_ok h
    rw [hm.same.operations] at hr
    rcases Table.of_mem_update hr with ⟨hr, hne⟩ | ⟨y, -, -, rfl⟩
    · rw [same (by simp [Entry.payload?, Ne.symm hne])]
      exact old r hr
    · have hid : r.operationId = current.operationId := hm.forward.operationId
      have hres : r.result = (p <|> current.result) := by rw [hrow]; rfl
      rw [hres, old current (Database.operation?_some hm.found).1]
      simp [settled?, Entry.payload?, hid]
  | recordAuthContext o x =>
    rw [same rfl]
    exact old r ((sameRows_recordAuthContext (ok_of_map h)).1 ▸ hr)
  | createApproval a' r' n k e =>
    rw [same rfl]
    obtain ⟨b, -, -, -, -, -, -, -, hsame⟩ := Database.createApproval_ok (ok_of_map h)
    exact old r (hsame.operations ▸ hr)
  | consumeApproval o k n =>
    rw [same rfl]
    obtain ⟨b, b', -, -, -, -, -, hset⟩ := Database.consumeApproval_ok hi.rows.sound h
    exact old r (hset.operations ▸ hr)
  | cancelApproval o x =>
    rw [same rfl]
    obtain ⟨b, b', -, -, hset⟩ := Database.cancelApproval_ok hi.rows.sound (ok_of_map h)
    exact old r (hset.operations ▸ hr)
  | recoverAfterRestart =>
    rw [same rfl]
    obtain ⟨_, db₁, hrun, hrec⟩ := hi.rows.sound.recoverAfterRestart st
    have heq := hrun.symm.trans h
    simp only [Except.ok.injEq, Prod.mk.injEq] at heq
    obtain ⟨r', hr', hrr⟩ := (heq.2 ▸ hrec).origin hr
    rw [hrr.result, hrr.becomes.operationId]
    exact old r' hr'

/-- No method but `create_approval` makes an approval. -/
theorem issued_operation (hi : Inv d w) {c : OperationCall} (hl : Legal t (.operation c) w)
    {st : Stamp} {a : c.Result} {db' : Database} (h : c.run w.db st = .ok (a, db')) :
    ∀ b ∈ db'.approvals, (∃ b' ∈ w.db.approvals, b'.operationId = b.operationId) ∨
      ∃ e ∈ w.log, e.Judges b.operationId true := by
  intro b hb
  have settled : ∀ {x x' : ApprovalRecord}, w.db.Settled x x' db' →
      ∃ b' ∈ w.db.approvals, b'.operationId = b.operationId := fun {x x'} hs => by
    rw [hs.same.approvals] at hb
    rcases Table.of_mem_update hb with ⟨hb, -⟩ | ⟨y, hy, hid, rfl⟩
    · exact ⟨b, hb, rfl⟩
    · exact ⟨y, hy, hid.trans hs.forward.operationId.symm⟩
  cases c with
  | create o p s w' k n m i =>
    obtain ⟨row, existing⟩ := a
    rcases Database.createOperation_ok h with ⟨-, rfl, -⟩ | ⟨-, -, hcr⟩
    · exact .inl ⟨b, hb, rfl⟩
    · exact .inl ⟨b, hcr.same.approvals ▸ hb, rfl⟩
  | transition o s e p x =>
    obtain ⟨current, -, -, -, -, hm⟩ := Database.transitionOperation_ok h
    exact .inl ⟨b, hm.same.approvals ▸ hb, rfl⟩
  | recordAuthContext o x =>
    exact .inl ⟨b, (sameRows_recordAuthContext (ok_of_map h)).2 ▸ hb, rfl⟩
  | createApproval a' r' n k e =>
    obtain ⟨x, -, hop, -, -, -, -, -, hsame⟩ := Database.createApproval_ok (ok_of_map h)
    rw [hsame.approvals] at hb
    rcases List.mem_append.1 hb with hb | hb
    · exact .inl ⟨b, hb, rfl⟩
    · rw [List.mem_singleton.1 hb, hop]
      exact .inr hl.2.2.2.2.2
  | consumeApproval o k n =>
    obtain ⟨x, x', -, -, -, -, -, hset⟩ := Database.consumeApproval_ok hi.rows.sound h
    exact .inl (settled hset)
  | cancelApproval o x =>
    obtain ⟨y, y', -, -, hset⟩ := Database.cancelApproval_ok hi.rows.sound (ok_of_map h)
    exact .inl (settled hset)
  | recoverAfterRestart =>
    obtain ⟨_, db₁, hrun, hrec⟩ := hi.rows.sound.recoverAfterRestart st
    have heq := hrun.symm.trans h
    simp only [Except.ok.injEq, Prod.mk.injEq] at heq
    obtain ⟨g, hg, hcan⟩ := (heq.2 ▸ hrec).swept.approvals
    rw [hg] at hb
    obtain ⟨b', hb', rfl⟩ := List.mem_map.1 hb
    exact .inl ⟨b', hb', (hcan b' hb').becomes.operationId.symm⟩

/-- A consumption that was legal and succeeded is as its entry says. -/
theorem consumption_operation (hi : Inv d w) {o : String} {k : TokenHash} {now : ℕ}
    (hl : mayConsume t o k w) {st : Stamp} {r : OperationRecord} {db' : Database}
    (h : w.db.consumeApproval st o k now = .ok (r, db')) :
    Consumption w.calls ⟨t, .done (.consumeApproval o k now), w.db, db'⟩ o k now ∧
      ∃ a, db'.approval? o = some a ∧ a.status = .consumed := by
  obtain ⟨a, a', hid, hr, hk, hlt, hst, hset⟩ := Database.consumeApproval_ok hi.rows.sound h
  obtain ⟨r', s, caller, token, key, session, hr', h2, hs, hcall, hrest⟩ := hl
  cases hr.symm.trans hr'
  have hfound : w.db.approval? o = some a := hid ▸ hset.found
  have hm := (Database.approval?_some hfound).1
  have hstate : r.state = .awaitingApproval := by
    rcases hi.rows.pending a hm hset.pending r (hid ▸ hr) with h | h
    · simp [h, OperationState.rank] at h2
    · exact h
  exact ⟨⟨⟨a, hfound, hset.pending, hk, hlt⟩, ⟨r, hr, hstate⟩,
    r, s, caller, token, key, session, hr, hs, hcall, hrest⟩, a', hid ▸ hset.approval?_self, hst⟩

theorem inv_operation (hi : Inv d w) {c : OperationCall} (hl : Legal t (.operation c) w)
    {st : Stamp} {a : c.Result} {db' : Database} (h : c.run w.db st = .ok (a, db')) :
    Inv d ((w.note t (.done c) db').claim t (c.claims a)) := by
  have hrows := rows_operation hi hl h
  have hlater := (OperationCall.run_sound hi.rows.sound h).2
  refine hi.note hl.1 hrows hlater ?_ ?_ ?_ (attached_operation hi hl h)
  · refine hi.history.cons hlater hi.rows.sound hrows.sound
      (fun o ho => subject_operation hi hl h ho) (issued_operation hi hl h)
      (fun o b S he => by cases he) (fun o k now he => ?_) (fun o r he => ?_)
      (fun o he => by cases he) (results_operation hi hl h)
    · cases he
      exact consumption_operation hi hl.2.2 h
    · cases he
      obtain ⟨x, x', hid, hst, hset⟩ := Database.cancelApproval_ok hi.rows.sound (ok_of_map h)
      exact ⟨x', hid ▸ hset.approval?_self, hst⟩
  · intro hs
    rcases hl.2.1 with rfl | hst
    · rfl
    · simp [hs] at hst
  · exact fun o ho => subject_operation hi hl h (OperationCall.claims_subject ho)

/-! ## Points and subprocesses -/

theorem Inv.subject_mark (hi : Inv d w) {m : Mark} (hl : LegalMark t w m) {o : String}
    (ho : (Event.mark m).subject = some o) : w.owner o = some t ∧ (w.db.operation? o).isSome := by
  have hown : w.owner o = some t := by
    cases m <;> cases ho
    · exact hl.1
    · exact hl.1
    · exact hl
  exact ⟨hown, (hi.owners o t hown).2⟩

theorem execMark_eq (t : ℕ) (m : Mark) (w : World) : ∃ current,
    execMark t m w = { (w.note t (.mark m) w.db).claim t none with current := current } ∧
      (∀ t', t' ≠ t → current t' = w.current t') ∧
      current t = match m with
        | .enter o => some o
        | _ => w.current t := by
  cases m with
  | enter o => exact ⟨_, rfl, fun t' ht => Function.update_of_ne ht _ _, Function.update_self _ _ _⟩
  | _ => exact ⟨_, rfl, fun _ _ => rfl, rfl⟩

theorem inv_mark (hi : Inv d w) {m : Mark} (hl : Legal t (.mark m) w) :
    Inv d (execMark t m w) := by
  obtain ⟨ht, hst, hlegal⟩ := hl
  have hn : Inv d ((w.note t (.mark m) w.db).claim t none) := by
    refine hi.note ht hi.rows (.refl _) ?_ (fun _ => rfl) (fun o h => by cases h)
      fun p hp ha o ho => ⟨by simp, (hi.attached p hp ha o ho).2⟩
    refine hi.history.cons (.refl _) hi.rows.sound hi.rows.sound
      (fun o ho => (hi.subject_mark hlegal ho).2) (fun b hb => .inl ⟨b, hb, rfl⟩)
      (fun o b S he => ?_) (fun o k now he => by cases he) (fun o r he => by cases he)
      (fun o he => ?_) fun r hr => hi.history.results r hr
    · cases he
      exact hlegal.2
    · cases he
      exact hlegal.2
  obtain ⟨current, heq, hother, -⟩ := execMark_eq t m w
  rw [heq]
  refine { hn with
    idle := fun hs => by simp [hst] at hs
    currents := fun t' o ho => ?_ }
  by_cases htt : t' = t
  · simpa [htt] using ht
  · exact hn.currents t' o (by simpa [hother t' htt] using ho)

theorem rely_mark (hi : Inv d w) {m : Mark} (hl : Legal t (.mark m) w) (ht : t' ≠ t) :
    Rely t' w (execMark t m w) := by
  obtain ⟨current, heq, hother, -⟩ := execMark_eq t m w
  rw [heq]
  refine ⟨by simp, fun o ho => ⟨by simpa [World.claim_owner] using ho.1, by simp, by simp⟩,
    by simpa using Later.refl _, ⟨[_], by simp; rfl, fun e he => ?_⟩, hother t' ht, by simp,
    by simp⟩
  rw [List.mem_singleton.1 he]
  refine ⟨ht.symm, fun o ho hs => ?_⟩
  have := (hi.subject_mark hl.2.2 hs).1
  rw [ho.1] at this
  exact ht (Option.some.inj this)

theorem inv_addProcess (hi : Inv d w) {i : Invocation} (hl : Legal t (.spawn i) w) {h : ℕ}
    (hh : h ∉ w.processes.map Process.handle) : Inv d (w.addProcess t h) := by
  obtain ⟨ht, hst, hrun⟩ := hl
  refine { hi with
    handles := List.nodup_cons.2 ⟨hh, hi.handles⟩
    idle := fun hs => by simp [World.addProcess, hst] at hs
    tasks := ⟨fun p hp => ?_, hi.tasks.2⟩
    attached := fun p hp ha o ho => ?_
    attended := fun hd p hp => ?_ } <;>
    rcases List.mem_cons.1 hp with rfl | hp
  · exact ht
  · exact hi.tasks.1 p hp
  · exact hrun o ho
  · exact hi.attached p hp ha o ho
  · rfl
  · exact hi.attended hd p hp

theorem rely_addProcess (ht : t' ≠ t) (h : ℕ) : Rely t' w (w.addProcess t h) :=
  ⟨id, fun _ ho => ⟨ho.1, rfl, rfl⟩, .refl _, ⟨[], rfl, by simp⟩, rfl, fun p hp _ => by
    have hne : p ≠ { handle := h, task := t, operation := w.current t, attached := true } := by
      rintro rfl
      exact ht hp.symm
    simp [World.addProcess, hne], fun _ hc => hc⟩

/-- Leaving processes out keeps the invariant. -/
theorem inv_removeProcess (hi : Inv d w) (h : ℕ) : Inv d (w.removeProcess h) := by
  have sub : ∀ p ∈ (w.removeProcess h).processes, p ∈ w.processes := fun p hp =>
    (List.mem_filter.1 hp).1
  exact { hi with
    idle := fun hs => ⟨(hi.idle hs).1, (hi.idle hs).2.1, fun p hp => (hi.idle hs).2.2 p (sub p hp)⟩
    tasks := ⟨fun p hp => hi.tasks.1 p (sub p hp), hi.tasks.2⟩
    attached := fun p hp => hi.attached p (sub p hp)
    attended := fun hd p hp => hi.attended hd p (sub p hp)
    handles := hi.handles.sublist (List.filter_sublist.map _) }

theorem rely_removeProcess {h : ℕ} (hl : ∀ p ∈ w.processes, p.handle = h → p.task = t)
    (ht : t' ≠ t) : Rely t' w (w.removeProcess h) :=
  ⟨id, fun _ ho => ⟨ho.1, rfl, rfl⟩, .refl _, ⟨[], rfl, by simp⟩, rfl, fun p hp _ => by
    simp only [World.removeProcess, List.mem_filter, decide_eq_true_eq, ne_eq,
      and_iff_left_iff_imp]
    exact fun hm hh => ht (hp.symm.trans (hl p hm hh)), fun _ hc => hc⟩

theorem inv_orphan (hi : Inv d w) (hd : d.attended = false) (h : ℕ) : Inv d (w.orphan h) := by
  have sub : ∀ p ∈ (w.orphan h).processes, ∃ q ∈ w.processes, p.task = q.task ∧
      p.operation = q.operation ∧ (p.attached = true → q.attached = true) := fun p hp => by
    obtain ⟨q, hq, rfl⟩ := List.mem_map.1 hp
    refine ⟨q, hq, ?_⟩
    split_ifs <;> simp
  have handles : (w.orphan h).processes.map Process.handle = w.processes.map Process.handle := by
    rw [World.orphan, List.map_map]
    refine List.map_congr_left fun p _ => ?_
    simp only [Function.comp_apply]
    split_ifs <;> rfl
  refine { hi with
    handles := handles ▸ hi.handles
    idle := fun hs => ⟨(hi.idle hs).1, (hi.idle hs).2.1, fun p hp => ?_⟩
    tasks := ⟨fun p hp => ?_, hi.tasks.2⟩
    attached := fun p hp ha o ho => ?_
    attended := fun hd' => by simp [hd] at hd' } <;>
    obtain ⟨q, hq, htask, hop, hatt⟩ := sub p hp
  · by_contra hp'
    simp [(hi.idle hs).2.2 q hq] at hatt
    exact hp' hatt
  · exact htask ▸ hi.tasks.1 q hq
  · exact htask ▸ hi.attached q hq (hatt ha) o (hop ▸ ho)

theorem rely_orphan {h : ℕ} (hl : ∀ p ∈ w.processes, p.handle = h → p.task = t)
    (ht : t' ≠ t) : Rely t' w (w.orphan h) := by
  refine ⟨id, fun _ ho => ⟨ho.1, rfl, rfl⟩, .refl _, ⟨[], rfl, by simp⟩, rfl, fun p hp _ => ?_,
    fun _ hc => hc⟩
  simp only [World.orphan, List.mem_map]
  constructor
  · rintro ⟨q, hq, rfl⟩
    split_ifs at hp ⊢ with hh
    · exact absurd (hp.symm.trans (hl q hq hh)) ht
    · exact hq
  · refine fun hm => ⟨p, hm, if_neg fun hh => ht (hp.symm.trans (hl p hm hh))⟩

theorem execWait_cases {α : Type} {h : ℕ} {r a : Except Exn α}
    (he : execWait d w h r = some (a, w')) :
    w' = w.removeProcess h ∨ w' = w ∨ (d.attended = false ∧ w' = w.orphan h) := by
  unfold execWait at he
  split at he
  · cases he
    exact .inl rfl
  · cases he
    exact .inr (.inl rfl)
  · split at he
    · cases he
    · rename_i hd
      cases he
      exact .inr (.inr ⟨by simpa using hd, rfl⟩)
  · cases he

theorem inv_wait {α : Type} (hi : Inv d w) {h : ℕ} {r a : Except Exn α}
    (he : execWait d w h r = some (a, w')) : Inv d w' := by
  rcases execWait_cases he with rfl | rfl | ⟨hd, rfl⟩
  · exact inv_removeProcess hi h
  · exact hi
  · exact inv_orphan hi hd h

theorem rely_wait {α : Type} {h : ℕ} {r a : Except Exn α}
    (hl : ∀ p ∈ w.processes, p.handle = h → p.task = t) (ht : t' ≠ t)
    (he : execWait d w h r = some (a, w')) : Rely t' w w' := by
  rcases execWait_cases he with rfl | rfl | ⟨-, rfl⟩
  · exact rely_removeProcess hl ht
  · exact .refl t' _
  · exact rely_orphan hl ht

/-! ## Every question -/

theorem exec_mark {m : Mark} {e : Choice} {a : Except Exn Unit}
    (h : exec d t (.mark m) w e = some (a, w')) : w' = execMark t m w := by
  cases m with
  | dropped o =>
    simp only [exec] at h
    split at h
    · cases h
    · cases h
      rfl
  | _ =>
    cases h
    rfl

theorem exec_inv {q : Ask} {e : Choice} {a : Except Exn q.Result} (hi : Inv d w)
    (hl : Legal t q w) (h : exec d t q w e = some (a, w')) : Inv d w' := by
  cases q with
  | quiet q => exact hi.keeps (execQuiet_keeps h)
  | operation c =>
    simp only [exec, execOperation, Option.some.injEq] at h
    split at h
    · cases h
      exact hi
    · rename_i hrun
      cases h
      exact inv_operation hi hl hrun
  | invocation p c => exact hi.keeps (answered_keeps h)
  | spawn i =>
    simp only [exec] at h
    split at h
    · split at h
      · cases h
      · rename_i hh
        cases h
        exact inv_addProcess hi hl (by simpa using hh)
    · cases h
      exact hi
  | communicate p s => exact inv_wait hi h
  | terminate p =>
    simp only [exec] at h
    split at h
    · cases h
    · exact inv_wait hi h
  | started =>
    cases h
    exact hi
  | setStarted b =>
    cases h
    refine { hi with idle := fun hs => ?_ }
    have hb : b = true := hl.2
    simp [hb] at hs
  | mark m =>
    exact exec_mark h ▸ inv_mark hi hl

theorem exec_rely {q : Ask} {e : Choice} {a : Except Exn q.Result} (ht : t' ≠ t) (hi : Inv d w)
    (hl : Legal t q w) (h : exec d t q w e = some (a, w')) : Rely t' w w' := by
  cases q with
  | quiet q => exact (execQuiet_keeps h).rely t'
  | operation c =>
    simp only [exec, execOperation, Option.some.injEq] at h
    split at h
    · cases h
      exact .refl t' w
    · rename_i hrun
      cases h
      exact rely_operation hi hl hrun ht
  | invocation p c => exact (answered_keeps h).rely t'
  | spawn i =>
    simp only [exec] at h
    split at h
    · split at h
      · cases h
      · cases h
        exact rely_addProcess ht _
    · cases h
      exact .refl t' w
  | communicate p s => exact rely_wait hl.2 ht h
  | terminate p =>
    simp only [exec] at h
    split at h
    · cases h
    · exact rely_wait hl.2 ht h
  | started =>
    cases h
    exact .refl t' w
  | setStarted b =>
    cases h
    have hb : b = true := hl.2
    exact { Rely.refl t' w with started := fun _ => hb }
  | mark m =>
    exact exec_mark h ▸ rely_mark hi hl ht

end CodemcpBridge
