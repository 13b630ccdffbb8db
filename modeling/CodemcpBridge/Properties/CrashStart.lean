import CodemcpBridge.Properties.Recovery
import CodemcpBridge.Properties.Replay

/-!
# A start that is cut off

`start` writes an operation in three transactions: the row, the record of who created it, and its
validation.  The process may die between any two of them; after the restart the recovery settles the
row, and the client asks again.
-/

namespace CodemcpBridge

open Async (Machine Prog Task)
open Database (Sound)

variable {settings : PolicySettings} {d : Discretion} {t : ℕ} {c : Call} {w w' : World}
  {principal : Option AuthContext} {r r' : StartRequest} {res : Except Exn OperationStart}

/-! ## The points that `start` passes -/

/-- The row that `start` has made: nobody has dispatched it. -/
structure Begun (principal : Option AuthContext) (r : StartRequest) (db : Database)
    (o : OperationRecord) : Prop where
  mem : o ∈ db.operations
  slot : o.slot = (r.projectId, r.sessionId, r.key principal)
  id : o.operationId = r.operationId
  hash : o.requestHash = r.digest
  early : o.state = .received ∨ o.state = .validated
  result : o.result = none

/-- The store is sound, and `start` has made nothing or its row of what it found. -/
def Starting (principal : Option AuthContext) (r : StartRequest) (db : Database)
    (w : World) : Prop :=
  w.db.Sound ∧ (w.db = db ∨ ∃ o, Begun principal r w.db o)

/-- A new row is one of the start. -/
theorem Begun.created {db : Database} {row : OperationRecord} (hnew : w.db.Created row db)
    (hrow : ∃ now, row = {
      operationId := r.operationId, projectId := r.projectId, sessionId := r.sessionId
      ownerId := Database.localOwnerId, replayKey := r.key principal, requestHash := r.digest
      kind := r.kind, state := .received, mutation := r.mutation, input := r.input
      createdAt := now, updatedAt := now }) : Begun principal r db row := by
  obtain ⟨now, rfl⟩ := hrow
  exact ⟨hnew.mem_iff.2 (.inr rfl), rfl, rfl, rfl, .inl rfl, rfl⟩

/-- The row of the start is validated. -/
theorem Begun.moved {db db' : Database} {current row o : OperationRecord} {now : ℕ}
    (ho : Begun principal r db o) (hsound : db.Sound) (hmoved : db.Moved current row db')
    (hcurrent : current.operationId = o.operationId)
    (hrow : row = Database.transitioned current now .validated none none) :
    Begun principal r db' row := by
  have heq : current = o := by
    have := hmoved.found
    rw [hcurrent, hsound.operation?_self ho.mem] at this
    exact (Option.some.inj this).symm
  subst heq
  refine ⟨(Database.operation?_some hmoved.operation?_self).1, hmoved.forward.slot.trans ho.slot,
    hmoved.forward.operationId.trans ho.id, hmoved.forward.requestHash.trans ho.hash, .inr ?_, ?_⟩
  · rw [hrow]
    rfl
  · rw [hrow]
    exact ho.result

theorem passing_startNew {db : Database} {o : OperationRecord} (hs : w.db.Sound)
    (ho : Begun principal r w.db o) :
    (startNew principal o).wp ((bridge settings d).passing (Starting principal r db) t)
      (fun _ => Starting principal r db) w := by
  have validated : ∀ w : World, w.db.Sound → Begun principal r w.db o →
      (Service.operation (.transition o.operationId .validated (some .received) none none) >>=
        fun record => pure { record, replay := none } : Service OperationStart).wp
          ((bridge settings d).passing (Starting principal r db) t)
          (fun _ => Starting principal r db) w := fun w hs ho => by
    have here : Starting principal r db w := ⟨hs, .inr ⟨o, ho⟩⟩
    refine Prog.wp_bind_of (J := Starting principal r db)
      (passing_operation here (fun _ _ _ => here) fun st a db' hrun => ?_)
      (fun _ _ h => h) fun _ _ h => h
    obtain ⟨current, hcurrent, -, -, hrow, hmoved⟩ := Database.transitionOperation_ok hrun
    exact ⟨hmoved.sound hs, .inr ⟨a, ho.moved hs hmoved hcurrent hrow⟩⟩
  have here : Starting principal r db w := ⟨hs, .inr ⟨o, ho⟩⟩
  refine Prog.wp_bind (Prog.wp_handle (passing_read (fun _ _ => rfl) here ⟨?_, by simp⟩
    ⟨by simp, ?_⟩))
  · rintro stored ⟨⟩
    refine ⟨?_, by simp⟩
    rintro _ ⟨⟩
    refine Prog.wp_bind ?_
    cases principal with
    | none => exact ⟨fun _ _ => validated w hs ho, by simp⟩
    | some c =>
      refine passing_operation here (fun _ _ _ => ⟨by simp, fun _ _ => here⟩)
        fun st a db' hrun => ⟨fun _ _ => ?_, by simp⟩
      obtain ⟨db₁, hrec, h⟩ : ∃ db₁, w.db.recordOperationAuthContext st o.operationId
          (authAuditDetails c) = .ok db₁ ∧ db₁ = db' := by
        cases h : w.db.recordOperationAuthContext st o.operationId (authAuditDetails c) with
        | error e => simp [OperationCall.run, h, Except.map] at hrun
        | ok db₁ => exact ⟨db₁, rfl, by simpa [OperationCall.run, h, Except.map] using hrun⟩
      subst h
      obtain ⟨o', -, rfl⟩ := Database.recordOperationAuthContext_ok hrec
      exact validated _ ⟨hs.ids, hs.slots, hs.active, hs.approvalIds, hs.approvalOps, hs.known⟩
        ⟨ho.mem, ho.slot, ho.id, ho.hash, ho.early, ho.result⟩
  · rintro e ⟨⟩
    refine Prog.wp_bind (passing_ask rfl here fun e a w' he => ⟨?_, ?_⟩)
    · have hw := exec_mark he
      subst hw
      intro _ _
      exact ⟨by simp, fun _ _ => here⟩
    · have hw := exec_mark he
      subst hw
      intro e' _
      exact ⟨by simp, fun _ _ => here⟩

/-- Wherever `start` stands that finds no row, it has made nothing or its row. -/
theorem passing_startOperation (hs : w.db.Sound) (hnew : existingRow principal r w.db = none) :
    (startOperation principal r).wp ((bridge settings d).passing (Starting principal r w.db) t)
      (fun _ => Starting principal r w.db) w := by
  have here : Starting principal r w.db w := ⟨hs, .inl rfl⟩
  refine Prog.wp_bind ((Prog.wp_lift _).2 ⟨fun _ _ => ?_, fun _ _ => here⟩)
  refine Prog.wp_bind (Prog.wp_mono (fun res w₁ hfound => ⟨?_, ?_⟩)
    (passing_findExisting here principal r))
  · rintro found rfl
    obtain ⟨rfl, hfound | hfound⟩ := hfound
    · rw [hnew] at hfound
      cases hfound
      refine Prog.wp_bind (Prog.wp_handle (passing_operation here
        (fun st e _ => ⟨by simp, ?_⟩) fun st a db' hrun => ⟨?_, by simp⟩))
      · rintro e' ⟨⟩
        cases e <;> exact ⟨fun _ _ => by contradiction, fun _ _ => here⟩
      · rintro _ ⟨⟩
        refine ⟨?_, by simp⟩
        rintro ⟨row, existing⟩ hrow
        cases hrow
        rcases Database.createOperation_ok hrun with ⟨-, -, hin⟩ | ⟨rfl, hrow, hcreated⟩
        · simp [existingRow, hin] at hnew
        · exact passing_startNew (hcreated.sound hs) (.created hcreated hrow)
    · cases hfound
  · rintro e rfl
    obtain ⟨rfl, -⟩ := hfound
    exact here

/-- What a start that finds no row has made of the store where it is cut off. -/
theorem Standing.starting (hstand : Standing settings d t c principal r w)
    (hnew : existingRow principal r w.db = none) {n : ℕ} {es : ℕ → Choice} {w₁ : World}
    (hcut : (bridge settings d).interrupted t n (startOperation principal r).task w es = some w₁) :
    Inv d w₁ ∧ (w₁.db = w.db ∨ ∃ o, Begun principal r w₁.db o) := by
  obtain ⟨hi, P, hwp⟩ := hstand.wp
  exact ⟨Async.Discipline.interrupted_inv hi hwp hcut,
    (Machine.interrupted_passing (passing_startOperation hi.rows.sound hnew) hcut).2⟩

theorem Standing.stored (hstand : Standing settings d t c principal r w) {n : ℕ}
    {es : ℕ → Choice} {w₁ : World}
    (hcut : (bridge settings d).interrupted t n (startOperation principal r).task w es = some w₁) :
    Stored w₁.db := by
  obtain ⟨k, hk⟩ := hstand
  have hw : Stored w.db :=
    hk.always (I := fun w => Stored w.db) stored_exec stored_arrive stored_crash stored_quit .empty
  exact Machine.interrupted_always (I := fun w : World => Stored w.db) stored_exec hw hcut

/-! ## What the recovery makes of it -/

/-- The recovery settles the row as failed. -/
theorem Begun.recovered {db db' : Database} {o : OperationRecord} (ho : Begun principal r db o)
    (hstored : Stored db) {st : Stamp} {found : Database.Recovered}
    (hrec : db.recoverAfterRestart st = .ok (found, db')) :
    ∃ o' ∈ db'.operations, o'.slot = (r.projectId, r.sessionId, r.key principal) ∧
      o'.operationId = o.operationId ∧ o'.requestHash = r.digest ∧ o'.result = none ∧
      o'.state = .failed ∧ ∃ e, o'.error = some e ∧ e.code = .bridgeRestarted := by
  obtain ⟨⟨events, haudit⟩, -⟩ :=
    hstored.sound.recoverAfterRestart_audited hstored.sessionIds hrec
  obtain ⟨recovered', db'', hrun, hrecovers⟩ := hstored.sound.recoverAfterRestart st
  obtain rfl : db' = db'' := by
    rw [hrec] at hrun
    cases hrun
    rfl
  obtain ⟨f, hf, hstep, -⟩ := haudit.operations
  have hmem : f o ∈ db'.operations := hf ▸ List.mem_map_of_mem ho.mem
  have hstate : Database.recoveredState o.mutation o.state = .failed := by
    rcases ho.early with h | h <;> rw [h] <;> cases o.mutation <;> rfl
  rcases hstep o ho.mem with h | ⟨e, -, h⟩
  · have hsettled := hrecovers.rank hmem
    rw [h] at hsettled
    rcases ho.early with h | h <;> rw [h] at hsettled <;> exact absurd hsettled (by decide)
  · obtain ⟨now, h⟩ := h.left
    refine ⟨f o, hmem, ?_⟩
    rw [h]
    refine ⟨ho.slot, rfl, ho.hash, ho.result, hstate, _, rfl, ?_⟩
    simp [Database.recoveryError, hstate]

theorem Database.Recovers.operationAuthContext? {db db' : Database} (h : db.Recovers db')
    (id : String) : db'.operationAuthContext? id = db.operationAuthContext? id := by
  rw [Database.operationAuthContext?_eq, Database.operationAuthContext?_eq, h.swept.authEvents]

/-- The recovery brings no row that answers. -/
theorem existingRow_recovered {db db' : Database} (h : db.Recovers db')
    (hnone : existingRow principal r db = none) : existingRow principal r db' = none := by
  have hin := operationIn?_of_existingRow hnone
  have hin' : db'.operationIn? r.projectId r.sessionId (r.key principal) = none := by
    rw [Database.operationIn?_none] at hin ⊢
    intro o' ho'
    obtain ⟨o, ho, hrec⟩ := h.origin ho'
    rw [hrec.becomes.slot]
    exact hin o ho
  simp only [existingRow, hin] at hnone
  simp only [existingRow, hin']
  split_ifs at hnone ⊢
  · rw [List.find?_eq_none] at hnone ⊢
    intro o' ho'
    simp only [Database.operationsByClientRequestId, mem_orderBy, List.mem_filter] at ho' hnone
    obtain ⟨o, ho, hrec⟩ := h.origin ho'.1
    have hb := hrec.becomes
    have hfits : legacyFits db' o' = legacyFits db o := by
      simp only [legacyFits, h.operationAuthContext?, hb.operationId]
    rw [hfits]
    refine hnone o ⟨ho, ?_⟩
    have := ho'.2
    simpa only [OperationRecord.clientRequestId, hb.projectId, hb.sessionId, hb.replayKey]
      using this
  · rfl

/-! ## Asking again -/

/-- `r'` asks again for what `r` has asked for. -/
structure AsksAgain (r r' : StartRequest) : Prop where
  projectId : r'.projectId = r.projectId
  sessionId : r'.sessionId = r.sessionId
  clientRequestId : r'.clientRequestId = r.clientRequestId
  input : r'.input = r.input

/-- A proper answer to a client that asks again, `row?` being the row under its key. -/
inductive RetryAnswer : Option OperationRecord → Except Exn OperationStart → Prop
  /-- The failure that the recovery has stored. -/
  | recovered {o : OperationRecord} {e : ErrorData} (state : o.state = .failed)
      (stored : o.error = some e) (code : e.code = .bridgeRestarted) :
      RetryAnswer (some o) (.ok { record := o, replay := some (errorFromRecord o e) })
  | inProgress {o : OperationRecord} :
      RetryAnswer (some o) (.error (.bridge (replayOf.inProgress o)))
  /-- There is no such operation: this one is the first. -/
  | first {res : Except Exn OperationStart} (first : FirstAnswer res) : RetryAnswer none res
  | fails {row? : Option OperationRecord} {e : Exn} (ofStore : e.ofStore = true) :
      RetryAnswer row? (.error e)

/-- The row is there, but not the record of who asked for it. -/
def Unrecorded (principal : Option AuthContext) (r : StartRequest) (db : Database) : Prop :=
  principal.isSome = true ∧ ∃ o, db.operationIn? r.projectId r.sessionId
    (r.key principal) = some o ∧
    db.operationAuthContext? o.operationId = none

/-- Every client that asks again on the store that the recovery has left is properly answered. -/
def RetriedWell (settings : PolicySettings) (d : Discretion) (principal : Option AuthContext)
    (r : StartRequest) (db : Database) : Prop :=
  ∀ t w res w', w.db = db → StartRun settings d t principal r w res w' →
    RetryAnswer (db.operationIn? r.projectId r.sessionId (r.key principal)) res

theorem AsksAgain.key (h : AsksAgain r r') : r'.key principal = r.key principal := by
  simp [StartRequest.key, h.clientRequestId]

theorem AsksAgain.digest (h : AsksAgain r r') : r'.digest = r.digest := by
  simp [StartRequest.digest, h.input]

theorem AsksAgain.existingRow (h : AsksAgain r r') (db : Database) :
    existingRow principal r' db = existingRow principal r db := by
  simp only [CodemcpBridge.existingRow, h.key, h.projectId, h.sessionId, h.clientRequestId]

/-- What a failed row without a result answers to its client. -/
theorem rowAnswer_failed {db : Database} {o : OperationRecord} {e : ErrorData}
    (hid : (db.operationAuthContext? o.operationId).bind authContextIdentity =
      (principal.map authAuditDetails).bind authContextIdentity)
    (hhash : o.requestHash = r.digest) (hresult : o.result = none) (hstate : o.state = .failed)
    (herror : o.error = some e) :
    rowAnswer principal r db o = .ok { record := o, replay := some (errorFromRecord o e) } := by
  simp [rowAnswer, existingStart, hid, hhash, replayOf, hresult, hstate, herror, Except.map]

/-- A client that is not recorded is refused. -/
theorem rowAnswer_unrecorded {db : Database} {o : OperationRecord} (hsome : principal.isSome = true)
    (hnone : db.operationAuthContext? o.operationId = none) :
    ∃ e : BridgeError, rowAnswer principal r db o = .error (.bridge e) ∧
      e.code = .idempotencyConflict := by
  obtain ⟨context, rfl⟩ := Option.isSome_iff_exists.1 hsome
  simp [rowAnswer, existingStart, hnone, authContextIdentity_authAuditDetails]

/-- A start that finds no row is cut off in the world `w`, and the recovery leaves the store `db`.
-/
inductive CutStart (settings : PolicySettings) (d : Discretion) (principal : Option AuthContext)
    (r : StartRequest) : World → Database → Prop
  | mk {t : ℕ} {c : Call} {w w₁ : World} {n : ℕ} {es : ℕ → Choice} {st : Stamp}
      {found : Database.Recovered} {db : Database}
      (stand : Standing settings d t c principal r w)
      (new : existingRow principal r w.db = none)
      (cut : (bridge settings d).interrupted t n (startOperation principal r).task w es = some w₁)
      (recovered : w₁.db.recoverAfterRestart st = .ok (found, db)) :
      CutStart settings d principal r w₁ db

/-- What a cut leaves: no row that answers, or one that the recovery has settled as failed. -/
inductive CutLeft (principal : Option AuthContext) (r : StartRequest) (db db' : Database) : Prop
  | nothing (before : existingRow principal r db = none)
    (after : existingRow principal r db' = none)
  | failed {o o' : OperationRecord} {e : ErrorData}
      (before : db.operationIn? r.projectId r.sessionId (r.key principal) = some o)
      (after : db'.operationIn? r.projectId r.sessionId (r.key principal) = some o')
      (hash : o'.requestHash = r.digest) (result : o'.result = none) (state : o'.state = .failed)
      (error : o'.error = some e) (code : e.code = .bridgeRestarted)
      (context : db'.operationAuthContext? o'.operationId = db.operationAuthContext? o.operationId)
      (identity : (principal.isSome = true → db.operationAuthContext? o.operationId ≠ none) →
        (db.operationAuthContext? o.operationId).bind authContextIdentity =
          (principal.map authAuditDetails).bind authContextIdentity)

theorem CutStart.left {db : Database} (h : CutStart settings d principal r w db) :
    CutLeft principal r w.db db := by
  obtain ⟨hstand, hnew, hcut, hrec⟩ := h
  have hstored := hstand.stored hcut
  obtain ⟨hi, hstart⟩ := hstand.starting hnew hcut
  obtain ⟨found', db', hrun, hrecovers⟩ := hstored.sound.recoverAfterRestart _
  rw [hrec] at hrun
  cases hrun
  rcases hstart with heq | ⟨o, ho⟩
  · rw [← heq] at hnew
    exact .nothing hnew (existingRow_recovered hrecovers hnew)
  · obtain ⟨o', hmem, hslot, hid, hhash, hresult, hstate, e, herror, hcode⟩ :=
      ho.recovered hstored hrec
    have hns : o.replayKey.namespace_ = principal.map AuthContext.replayNamespace := by
      rw [show o.replayKey = r.key principal from congrArg (fun s => s.2.2) ho.slot]
      rfl
    exact .failed (hstored.sound.operationIn?_iff.2 ⟨ho.mem, ho.slot⟩)
      ((hrecovers.sound hstored.sound).operationIn?_iff.2 ⟨hmem, hslot⟩) hhash hresult hstate herror
      hcode (by rw [hrecovers.operationAuthContext?, hid]) (hi.rows.identity ho.mem hns)

/-- A client that is not recorded finds itself refused. -/
theorem CutLeft.refused {before db : Database} (h : CutLeft principal r before db)
    (hagain : AsksAgain r r') (hcheck : r'.check = .ok ())
    (hunrecorded : Unrecorded principal r before) : ¬ RetriedWell settings d principal r' db := by
  obtain ⟨hsome, o₁, ho₁, hnone⟩ := hunrecorded
  intro hwell
  cases h with
  | nothing hbefore =>
    rw [operationIn?_of_existingRow hbefore] at ho₁
    cases ho₁
  | @failed o o' e hbefore hafter _ _ _ _ _ hcontext _ =>
    obtain rfl : o = o₁ := Option.some.inj (hbefore.symm.trans ho₁)
    have hin : db.operationIn? r'.projectId r'.sessionId (r'.key principal) = some o' := by
      rw [hagain.projectId, hagain.sessionId, hagain.key]
      exact hafter
    have hrow : existingRow principal r' db = some o' := by simp [existingRow, hin]
    have hrun : StartRun settings d 0 principal r' { db } (rowAnswer principal r' db o') { db } :=
      startRun_existing hcheck hrow
    obtain ⟨e', hanswer, hconflict⟩ := rowAnswer_unrecorded (r := r') hsome (hcontext.trans hnone)
    have := hwell 0 { db } _ _ rfl hrun
    rw [hin, hanswer] at this
    cases this with
    | inProgress => cases hconflict
    | fails ofStore => cases ofStore

/-- Any other client is answered. -/
theorem CutLeft.answered {before db : Database} (h : CutLeft principal r before db)
    (hagain : AsksAgain r r') (hcheck : r'.check = .ok ())
    (hrecorded : ¬ Unrecorded principal r before) : RetriedWell settings d principal r' db := by
  rintro t w res w' rfl hrun
  rw [hagain.projectId, hagain.sessionId, hagain.key]
  cases h with
  | nothing hbefore hafter =>
    rw [operationIn?_of_existingRow hafter]
    exact .first (hrun.first hcheck (by rw [hagain.existingRow, hafter]))
  | @failed o o' e hbefore hafter hhash hresult hstate herror hcode hcontext hidentity =>
    have hid := hidentity fun hsome hnone => hrecorded ⟨hsome, o, hbefore, hnone⟩
    rw [← hcontext] at hid
    have hrow : existingRow principal r' w.db = some o' := by
      rw [hagain.existingRow]
      simp [existingRow, hafter]
    rw [hafter]
    obtain ⟨-, rfl | rfl⟩ := hrun.existing hcheck hrow
    · rw [rowAnswer_failed hid (hhash.trans hagain.digest.symm) hresult hstate herror]
      exact .recovered hstate herror hcode
    · exact .fails rfl

/-- Wherever a start is cut off, the recovery lets the same client go on with the same request, if
and only if the cut does not fall between the row and the record of who asked for it. -/
theorem start_crash_consistent {db : Database} (hcut : CutStart settings d principal r w db)
    (hagain : AsksAgain r r') (hcheck : r'.check = .ok ()) :
    RetriedWell settings d principal r' db ↔ ¬ Unrecorded principal r w.db :=
  ⟨fun hwell hunrecorded => hcut.left.refused hagain hcheck hunrecorded hwell,
    hcut.left.answered hagain hcheck⟩

/-! ## A cut between the row and the record of its client -/

/-- Every start that is cut off anywhere lets its client go on after the recovery. -/
def CrashConsistent (settings : PolicySettings) (d : Discretion) : Prop :=
  ∀ principal r w db, CutStart settings d principal r w db →
    ∀ r', AsksAgain r r' → r'.check = .ok () → RetriedWell settings d principal r' db

/-- The sample call asks `start`, which is cut off after `n` answers, and the store is recovered. -/
def cutAt (n : ℕ) : Option (Asked × World × Database) :=
  (sampleDelete.execution { settings := {}, principal := sampleCaller.principal }).bind fun x =>
    (Asked.of {} {} { world := {} } 1 sampleCaller sampleDelete x (fair none "" 10)
      (fair none "" 11)).bind fun a =>
        ((bridge {} {}).interrupted 1 n (startOperation sampleCaller.principal
          a.request).task a.world (fair none "" 11)).bind fun w₁ =>
            match w₁.db.recoverAfterRestart { now := fun _ => 0, eventId := fun _ => "" } with
            | .ok (_, db) => some (a, w₁, db)
            | .error _ => none

theorem cutAt_some {n : ℕ} {a : Asked} {w₁ : World} {db : Database}
    (h : cutAt n = some (a, w₁, db))
    (hnew : existingRow sampleCaller.principal a.request a.world.db = none) :
    CutStart {} {} sampleCaller.principal a.request w₁ db := by
  obtain ⟨x, hx, h⟩ := Option.bind_eq_some_iff.1 h
  obtain ⟨a', ha, h⟩ := Option.bind_eq_some_iff.1 h
  obtain ⟨w₁', hcut, h⟩ := Option.bind_eq_some_iff.1 h
  split at h
  · rename_i found db' hrec
    cases h
    have hprogram : sampleDelete.program {} sampleCaller = some <$> execute {} sampleCaller x := by
      cases hx
      rfl
    exact .mk (Asked.standing .init hprogram ha).1 hnew hcut hrec
  · cases h

/-- The cut leaves the row and no record. -/
def Asked.unrecorded (a : Asked) (w₁ : World) : Bool :=
  a.request.check.isOk && (existingRow sampleCaller.principal a.request a.world.db).isNone &&
    (w₁.db.operationIn? a.request.projectId a.request.sessionId
      (a.request.key sampleCaller.principal)).any fun o =>
        (w₁.db.operationAuthContext? o.operationId).isNone

/-- A cut after two answers. -/
theorem cut_unrecorded : ∃ r w db, CutStart {} {} sampleCaller.principal r w db ∧
    r.check = .ok () ∧ Unrecorded sampleCaller.principal r w.db := by
  have h : (cutAt 2).any (fun x => x.1.unrecorded x.2.1) = true := by decide +kernel
  obtain ⟨⟨a, w, db⟩, hcut, h⟩ := (Option.any_eq_true _ _).1 h
  simp only [Asked.unrecorded, Bool.and_eq_true, Option.any_eq_true, Option.isNone_iff_eq_none] at h
  obtain ⟨⟨hcheck, hnew⟩, o, ho, hnone⟩ := h
  refine ⟨a.request, w, db, cutAt_some hcut hnew, ?_, rfl, o, ho, hnone⟩
  revert hcheck
  cases a.request.check <;> simp [Except.isOk, Except.toBool]

/-- Cut off between the row and the record of its client, a start refuses that client for good. -/
theorem cut_start_inconsistent : ¬ CrashConsistent {} {} := by
  obtain ⟨r, w, db, hcut, hcheck, hunrecorded⟩ := cut_unrecorded
  have hagain : AsksAgain r r := ⟨rfl, rfl, rfl, rfl⟩
  exact fun hall => hcut.left.refused hagain hcheck hunrecorded (hall _ _ _ _ hcut _ hagain hcheck)

/-- The cut of the sample call. -/
theorem start_crash_consistent_sample : ∃ r w db, CutStart {} {} sampleCaller.principal r w db ∧
    (RetriedWell {} {} sampleCaller.principal r db ↔
      ¬ Unrecorded sampleCaller.principal r w.db) := by
  obtain ⟨r, w, db, hcut, hcheck, -⟩ := cut_unrecorded
  exact ⟨r, w, db, hcut, start_crash_consistent hcut ⟨rfl, rfl, rfl, rfl⟩ hcheck⟩

end CodemcpBridge
