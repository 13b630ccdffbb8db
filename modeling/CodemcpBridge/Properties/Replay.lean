import CodemcpBridge.Properties.OneTime
import CodemcpBridge.Properties.Start

/-!
# One operation for one key

Whatever calls, retries, confirmations, reconciliations and crashes come in whichever order, a key
has one row, the body of its operation starts once at most, and a later request under the key is
answered by the row as the log has left it.
-/

namespace CodemcpBridge

open Async (Machine Prog Task)

variable {settings : PolicySettings} {d : Discretion} {t : ℕ} {c : Call} {w w' : World}
  {principal : Option AuthContext} {r : StartRequest} {res : Except Exn OperationStart}

/-! ## Where a call of a run stands before `start` -/

/-- In some run task `t`, serving the call `c`, is about to ask `start` for `r`. -/
def Standing (settings : PolicySettings) (d : Discretion) (t : ℕ) (c : Call)
    (principal : Option AuthContext) (r : StartRequest) (w : World) : Prop :=
  ∃ k, Machine.HasFloor (bridge settings d) {} t c ((startOperation principal r).task.bind k) w

theorem Standing.wp (h : Standing settings d t c principal r w) :
    Inv d w ∧ ∃ P, (startOperation principal r).task.wp (rules settings d t) P w := by
  obtain ⟨k, hk⟩ := h
  obtain ⟨hi, hwp⟩ := (discipline settings d).hasFloor (starts settings d) (inv_init d)
    (fun _ => rfl) hk
  exact ⟨hi, _, (Task.wp_bind _ _ _ _ _).1 hwp⟩

/-- The store in which a request is looked up is calm. -/
theorem Standing.calm (h : Standing settings d t c principal r w) (hcheck : r.check = .ok ()) :
    Calm d w := by
  obtain ⟨-, P, hwp⟩ := h.wp
  unfold startOperation at hwp
  rw [hcheck] at hwp
  exact (hwp.2 w (by simp [Async.Discipline.rules, bridge, Ask.suspends, Quiet.suspends])).1.2 rfl

/-- A task goes on with the value of what it has run. -/
theorem hasFloor_bind {α β : Type} {x : Service α} {f : α → Service β}
    {k : Except Exn β → Task Ask (fun q => Except Exn q.Result) (Except Exn (Option Payload))}
    {a : α} (h : Machine.HasFloor (bridge settings d) {} t c ((x >>= f : Service β).task.bind k) w)
    (hrun : Task.Runs (atOnce settings d t) x.task w (.ok a) w') :
    Machine.HasFloor (bridge settings d) {} t c ((f a).task.bind k) w' := by
  obtain ⟨g, hg, hok⟩ : ∃ g, (x >>= f) = x.andThen g ∧ g (.ok a) = f a := ⟨_, rfl, rfl⟩
  rw [hg] at h
  have h' : Machine.HasFloor (bridge settings d) {} t c
      (x.task.bind fun res => (g res).task.bind k) w := by
    rw [← Task.bind_bind]
    exact h
  exact hok ▸ h'.runs hrun

/-- A call that goes through `_execute` stands before `start` when it has drawn its ids. -/
theorem standing_of_execute {caller : Caller} {x : Execution}
    {k : Except Exn Payload → Task Ask (fun q => Except Exn q.Result) (Except Exn (Option Payload))}
    {ids : String × String}
    (h : Machine.HasFloor (bridge settings d) {} t c ((execute settings caller x).task.bind k) w)
    (hrun : Task.Runs (atOnce settings d t) (beforeStart settings caller).task w (.ok ids) w') :
    Standing settings d t c caller.principal (startRequest x ids.1 ids.2) w' := by
  rw [execute_eq] at h
  have h' := hasFloor_bind h hrun
  refine ⟨fun res => (afterStart settings x ids res).task.bind k, ?_⟩
  rw [← Task.bind_bind]
  exact h'

/-- A call asks `start` in its first turn: the request, the world in which it asks, and the answer.
-/
structure Asked where
  request : StartRequest
  world : World
  answer : Except Exn OperationStart

/-- Let a call in and run it until `start` has answered. -/
def Asked.of (settings : PolicySettings) (d : Discretion) (p : BridgePool) (t : ℕ) (caller : Caller)
    (call : ToolCall) (x : Execution) (es es' : ℕ → Choice) : Option Asked :=
  if t ∈ p.calls.map Prod.fst then none
  else ((bridge settings d).arrive t (caller, call) p.world).bind fun w =>
    match (bridge settings d).advance t (beforeStart settings caller).task w es with
    | some (.done (.ok ids), w) =>
      match (bridge settings d).advance t
        (startOperation caller.principal (startRequest x ids.1 ids.2)).task w es' with
      | some (.done res, _) => some ⟨startRequest x ids.1 ids.2, w, res⟩
      | _ => none
    | _ => none

/-- What is seen to be asked, some call of some run asks. -/
theorem Asked.standing {p : BridgePool} (hp : Reached settings d p) {caller : Caller}
    {call : ToolCall} {x : Execution} {es es' : ℕ → Choice} {a : Asked}
    (hx : call.program settings caller = some <$> execute settings caller x)
    (h : Asked.of settings d p t caller call x es es' = some a) :
    Standing settings d t (caller, call) caller.principal a.request a.world ∧
      ∃ w', StartRun settings d t caller.principal a.request a.world a.answer w' := by
  unfold Asked.of at h
  split at h
  · cases h
  · rename_i fresh
    obtain ⟨w, arrived, h⟩ := Option.bind_eq_some_iff.1 h
    split at h
    · rename_i ids w₁ hbefore
      split at h
      · rename_i res w₂ hstart
        cases h
        have floor := Machine.HasFloor.turn hp (.first fresh arrived)
        have hprogram : (bridge settings d).program (caller, call) =
            (some <$> execute settings caller x : Service _).task := congrArg Prog.task hx
        rw [hprogram] at floor
        exact ⟨standing_of_execute floor (Machine.runs_of_advance hbefore), w₂,
          Machine.runs_of_advance hstart⟩
      · cases h
    · cases h

/-- A recorded context has the identity of the row's namespace. -/
theorem Rows.identity {db : Database} (h : Rows db) {o : OperationRecord} (ho : o ∈ db.operations)
    (hkey : o.replayKey.namespace_ = principal.map AuthContext.replayNamespace)
    (hrec : principal.isSome = true → db.operationAuthContext? o.operationId ≠ none) :
    (db.operationAuthContext? o.operationId).bind authContextIdentity =
      (principal.map authAuditDetails).bind authContextIdentity := by
  cases hd : db.operationAuthContext? o.operationId with
  | none =>
    cases principal with
    | none => rfl
    | some c => exact absurd hd (hrec rfl)
  | some details =>
    obtain ⟨c, rfl, hns⟩ := h.operationAuthContext? ho hd
    rw [hkey] at hns
    obtain ⟨c', rfl, hc⟩ := Option.map_eq_some_iff.1 hns
    simp [authContextIdentity_authAuditDetails, identity_eq_of_replayNamespace hc]

theorem recorded_of_all {db : Database} (hrec : allRecorded db = true) {o : OperationRecord}
    (ho : o ∈ db.operations)
    (hkey : o.replayKey.namespace_ = principal.map AuthContext.replayNamespace)
    (hsome : principal.isSome = true) : db.operationAuthContext? o.operationId ≠ none := by
  have := List.all_eq_true.1 hrec o ho
  rw [hkey] at this
  cases principal with
  | none => cases hsome
  | some c => exact Option.isSome_iff_ne_none.1 (by simpa using this)

/-! ## Faithful answers -/

/-- An answer to a later request that fits the row and what the log says of it; a failing store
answers with its own exception. -/
inductive Faithful (log : List Entry) (o : OperationRecord) : Except Exn OperationStart → Prop
  /-- The payload that was stored when the operation was last settled. -/
  | persisted {payload : Payload} (last : settled? o.operationId log = some payload) :
      Faithful log o (.ok { record := o, replay := some payload })
  | unknown (state : o.state = .unknown) (last : settled? o.operationId log = none) :
      Faithful log o (.ok { record := o, replay := some (unknownPayload o) })
  | error {e : ErrorData} (stored : o.error = some e) (last : settled? o.operationId log = none) :
      Faithful log o (.ok { record := o, replay := some (errorFromRecord o e) })
  | inProgress : Faithful log o (.error (.bridge (replayOf.inProgress o)))
  | storeFails : Faithful log o (.error .other)

theorem faithful_rowAnswer {log : List Entry} {db : Database} {o : OperationRecord}
    (hresult : o.result = settled? o.operationId log)
    (hid : (db.operationAuthContext? o.operationId).bind authContextIdentity =
      (principal.map authAuditDetails).bind authContextIdentity)
    (hhash : o.requestHash = r.digest) : Faithful log o (rowAnswer principal r db o) := by
  have hstart : existingStart o (db.operationAuthContext? o.operationId)
      (principal.map authAuditDetails) r.digest =
        (replayOf o).map fun payload => { record := o, replay := some payload } := by
    simp [existingStart, hid, hhash]
  simp only [rowAnswer, hstart, replayOf]
  cases hr : o.result with
  | some payload => exact .persisted (hresult ▸ hr)
  | none =>
    rw [hr] at hresult
    by_cases hunknown : o.state = .unknown
    · simp only [hunknown, if_true]
      exact .unknown hunknown hresult.symm
    · simp only [hunknown, if_false]
      cases he : o.error with
      | none => exact .inProgress
      | some e =>
        by_cases hend : o.state = .failed ∨ o.state = .cancelled
        · simp only [hend, if_true]
          exact .error he hresult.symm
        · simp only [hend, if_false]
          exact .inProgress

/-- The request has been refused because its id is taken. -/
def isConflict : Except Exn OperationStart → Bool
  | .error (.bridge e) => e.code == .idempotencyConflict
  | _ => false

/-- For every key there is one row, its body starts once at most, and a later request under the key
leaves the store alone: it is answered faithfully where it asks for the same input, and refused
where it does not. -/
def AtMostOnce (settings : PolicySettings) (d : Discretion) : Prop :=
  (∀ p, Reached settings d p →
    (∀ o ∈ p.world.db.operations, ∀ o' ∈ p.world.db.operations, o.slot = o'.slot → o = o') ∧
    ∀ newer e older, p.world.log = newer ++ e :: older → ∀ o, e.Enters o →
      ∀ e' ∈ newer ++ older, ¬ e'.Enters o) ∧
  ∀ t c principal r w res w', Standing settings d t c principal r w → r.check = .ok () →
    StartRun settings d t principal r w res w' → ∀ o ∈ w.db.operations,
      o.slot = (r.projectId, r.sessionId, r.key principal) →
        w' = w ∧ (o.requestHash = r.digest → Faithful w.log o res) ∧
        (o.requestHash ≠ r.digest → isConflict res = true ∨ res = .error .other)

/-- Every run in which neither a crash nor a failing read strikes between the creation of an
operation and the record of who created it executes every request once at most and replays it
faithfully. -/
theorem requests_at_most_once (settings : PolicySettings) (d : Discretion)
    (hd : d.recorded = true) : AtMostOnce settings d := by
  refine ⟨fun p hp => ⟨fun o ho o' ho' h => ?_, fun newer e older hlog o he =>
    hp.entered_once hlog he⟩, ?_⟩
  · exact List.inj_on_of_nodup_map hp.inv.rows.sound.slots ho ho' h
  · intro t c principal r w res w' hstand hcheck hrun o ho hslot
    obtain ⟨hi, -⟩ := hstand.wp
    have hin : w.db.operationIn? r.projectId r.sessionId (r.key principal) = some o :=
      hi.rows.sound.operationIn?_iff.2 ⟨ho, hslot⟩
    have hrow : existingRow principal r w.db = some o := by simp [existingRow, hin]
    have hkey : o.replayKey = r.key principal := congrArg (fun s => s.2.2) hslot
    have hns : o.replayKey.namespace_ = principal.map AuthContext.replayNamespace := by
      rw [hkey]
      rfl
    have hid := hi.rows.identity ho hns (recorded_of_all (hstand.calm hcheck hd) ho hns)
    obtain ⟨rfl, h⟩ := hrun.existing hcheck hrow
    refine ⟨rfl, fun hhash => ?_, fun hhash => ?_⟩
    · rcases h with rfl | rfl
      · exact faithful_rowAnswer (hi.history.results o ho) hid hhash
      · exact .storeFails
    · refine h.imp (fun h => ?_) id
      rw [h]
      simp [rowAnswer, existingStart, hid, hhash, isConflict]

/-! ## A client that asks again -/

/-- A deletion, asked for by the network-trusted client. -/
def sampleCaller : Caller := { principal := some (.networkTrusted none) }

def sampleDelete : ToolCall :=
  .fileDelete "p" "s" "a" "" (keyFor "k" [("path", .str "a"), ("description", .str "")])

/-- The Bridge dies when it has created the operation and not yet recorded who asked for it. -/
def cutStart : List BridgeMove :=
  [.crashIn 1 (sampleCaller, sampleDelete) (fair none "" 10) 9
    ([], { now := fun _ => 0, eventId := fun _ => "" })]

/-- What the Bridge answers when the client asks again. -/
def retried (d : Discretion) (p : BridgePool) : Option Asked :=
  (sampleDelete.execution { settings := {}, principal := sampleCaller.principal }).bind fun x =>
    Asked.of {} d p 2 sampleCaller sampleDelete x (fair none "" 11) (fair none "" 12)

theorem retried_standing {p : BridgePool} {a : Asked} (hp : Reached {} d p)
    (h : retried d p = some a) :
    Standing {} d 2 (sampleCaller, sampleDelete) sampleCaller.principal a.request a.world ∧
      ∃ w', StartRun {} d 2 sampleCaller.principal a.request a.world a.answer w' := by
  obtain ⟨x, hx, ha⟩ := Option.bind_eq_some_iff.1 h
  have hprogram : sampleDelete.program {} sampleCaller = some <$> execute {} sampleCaller x := by
    cases hx
    rfl
  exact Asked.standing hp hprogram ha

/-- A row has the key and the input of the request. -/
def Asked.repeats (a : Asked) (principal : Option AuthContext) : Bool :=
  a.request.check.isOk && a.world.db.operations.any fun o =>
    o.slot = (a.request.projectId, a.request.sessionId, a.request.key principal) ∧
      o.requestHash = a.request.digest

theorem Asked.faithful {a : Asked} (h : a.repeats principal = true)
    (hstand : Standing settings d t c principal a.request a.world)
    (hrun : StartRun settings d t principal a.request a.world a.answer w')
    (hall : AtMostOnce settings d) :
    ∃ o ∈ a.world.db.operations, Faithful a.world.log o a.answer := by
  simp only [Asked.repeats, Bool.and_eq_true, List.any_eq_true, decide_eq_true_eq] at h
  obtain ⟨hcheck, o, ho, hslot, hhash⟩ := h
  have hcheck : a.request.check = .ok () := by
    cases hc : a.request.check with
    | ok u => rfl
    | error e =>
      rw [hc] at hcheck
      cases hcheck
  exact ⟨o, ho, (hall.2 _ _ _ _ _ _ _ hstand hcheck hrun o ho hslot).2.1 hhash⟩

theorem Faithful.not_conflict {log : List Entry} {o : OperationRecord} (h : Faithful log o res) :
    isConflict res = false := by
  cases h <;> rfl

/-- Where every start records its caller, a client that repeats a deletion which has ended is
answered by its row. -/
theorem requests_at_most_once_recorded : ∃ p a, Reached {} { recorded := true } p ∧
    hasEnded p 1 false = true ∧ retried { recorded := true } p = some a ∧
    ∃ o ∈ a.world.db.operations, Faithful a.world.log o a.answer := by
  obtain ⟨p, hp, h⟩ := @reached_of_played {} { recorded := true }
    [arrives none 1 10 sampleCaller sampleDelete]
    (fun p => hasEnded p 1 false && (retried { recorded := true } p).any fun a =>
      a.repeats sampleCaller.principal) (by decide +kernel)
  obtain ⟨ended, h⟩ := Bool.and_eq_true_iff.1 h
  obtain ⟨a, ha, hrepeats⟩ := (Option.any_eq_true _ _).1 h
  obtain ⟨hstand, w', hrun⟩ := retried_standing hp ha
  exact ⟨p, a, hp, ended, ha,
    Asked.faithful hrepeats hstand hrun (requests_at_most_once {} { recorded := true } rfl)⟩

/-- A start that was cut off makes its client a stranger to the operation. -/
theorem cut_start_conflicts : ¬ AtMostOnce {} {} := by
  obtain ⟨p, hp, h⟩ := @reached_of_played {} {} cutStart
    (fun p => (retried {} p).any fun a => a.repeats sampleCaller.principal && isConflict a.answer)
    (by decide +kernel)
  obtain ⟨a, ha, h⟩ := (Option.any_eq_true _ _).1 h
  obtain ⟨hrepeats, hconflict⟩ := Bool.and_eq_true_iff.1 h
  obtain ⟨hstand, w', hrun⟩ := retried_standing hp ha
  intro hall
  obtain ⟨o, -, hfaithful⟩ := Asked.faithful hrepeats hstand hrun hall
  exact Bool.noConfusion (hfaithful.not_conflict.symm.trans hconflict)

end CodemcpBridge
