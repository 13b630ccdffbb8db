import CodemcpBridge.Properties.Runs

/-!
# What `start` answers

`start` asks nothing that suspends, so it acts at once on the store that it finds.  If a row answers
to the key of the request, the store stays as it is and the row alone decides the answer; only a new
operation is ever returned without a payload.
-/

namespace CodemcpBridge

open Async (Machine Prog Task)

variable {settings : PolicySettings} {d : Discretion} {t : ℕ} {w w' : World}

/-! ## Programs that keep the floor -/

/-- The rules of a task of the Bridge that keeps the floor. -/
abbrev atOnce (settings : PolicySettings) (d : Discretion) (t : ℕ) :=
  (bridge settings d).prompt t

section Passing

variable {I : World → Prop}

theorem passing_ask {q : Ask} {P : Except Exn q.Result → World → Prop} (hs : q.suspends = false)
    (hI : I w) (h : ∀ e a w', exec d t q w e = some (a, w') → P a w') :
    (Prog.ask q : Service q.Result).wp ((bridge settings d).passing I t) P w := by
  refine ⟨⟨hs, hI⟩, fun w₁ hb => ⟨trivial, fun a w' ⟨e, he⟩ => ?_⟩⟩
  obtain ⟨-, rfl⟩ := hb
  exact h e a w' he

/-- A store method that only reads. -/
theorem passing_read {c : StoreCall} {f : Database → c.Result}
    (hread : ∀ db st, c.run db st = .ok (f db, db)) (hI : I w)
    {P : Except Exn c.Result → World → Prop} (hok : P (.ok (f w.db)) w)
    (herr : P (.error .other) w) :
    (Service.store c).wp ((bridge settings d).passing I t) P w := by
  refine passing_ask rfl hI fun e a w' he => ?_
  simp only [exec, execQuiet, hread] at he
  split at he
  · cases he
    exact herr
  · cases he
    exact hok

/-- A store method on operations. -/
theorem passing_operation {c : OperationCall} (hI : I w) {P : Except Exn c.Result → World → Prop}
    (herr : ∀ st e, c.run w.db st = .error e → P (.error e) w)
    (hok : ∀ st a db', c.run w.db st = .ok (a, db') →
      P (.ok a) ((w.note t (.done c) db').claim t (c.claims a))) :
    (Service.operation c).wp ((bridge settings d).passing I t) P w := by
  refine passing_ask rfl hI fun e a w' he => ?_
  simp only [exec, execOperation, Option.some.injEq] at he
  split at he
  · rename_i hrun
    cases he
    exact herr _ _ hrun
  · rename_i hrun
    cases he
    exact hok _ _ _ hrun

end Passing

theorem prompt_ask {q : Ask} {P : Except Exn q.Result → World → Prop} (hs : q.suspends = false)
    (h : ∀ e a w', exec d t q w e = some (a, w') → P a w') :
    (Prog.ask q : Service q.Result).wp (atOnce settings d t) P w :=
  Machine.wp_prompt (passing_ask (I := fun _ => True) hs trivial h)

theorem prompt_read {c : StoreCall} {f : Database → c.Result}
    (hread : ∀ db st, c.run db st = .ok (f db, db)) {P : Except Exn c.Result → World → Prop}
    (hok : P (.ok (f w.db)) w) (herr : P (.error .other) w) :
    (Service.store c).wp (atOnce settings d t) P w :=
  Machine.wp_prompt (passing_read (I := fun _ => True) hread trivial hok herr)

theorem prompt_operation {c : OperationCall} {P : Except Exn c.Result → World → Prop}
    (herr : ∀ st e, c.run w.db st = .error e → P (.error e) w)
    (hok : ∀ st a db', c.run w.db st = .ok (a, db') →
      P (.ok a) ((w.note t (.done c) db').claim t (c.claims a))) :
    (Service.operation c).wp (atOnce settings d t) P w :=
  Machine.wp_prompt (passing_operation (I := fun _ => True) trivial herr hok)

/-- A read that does not fail. -/
theorem runs_read {c : StoreCall} {f : Database → c.Result}
    (hread : ∀ db st, c.run db st = .ok (f db, db)) :
    Task.Runs (atOnce settings d t) (Service.store c).task w (.ok (f w.db)) w := by
  have hanswer : ∃ e, (bridge settings d).exec t (.quiet (.store c)) w e =
      some (.ok (f w.db), w) := by
    refine ⟨{ answer := fun _ => .error .other }, ?_⟩
    simp [bridge, exec, execQuiet, hread]
  exact .ask ⟨rfl, rfl⟩ hanswer (.done _ _)

/-! ## `_execute` around `start` -/

/-- What `_execute` does before it asks `start`: it draws a request id and an operation id. -/
def beforeStart (settings : PolicySettings) (caller : Caller) : Service (String × String) := do
  startBridge
  carry settings refreshProjectRegistry
  let requestId ← requestIdOf caller
  let operationId ← Service.quiet .uuid
  pure (requestId, operationId)

/-- How `_execute` goes on with the answer of `start`. -/
def afterStart (settings : PolicySettings) (x : Execution) (ids : String × String) :
    Except Exn OperationStart → Service Payload
  | .ok started => match started.replay with
    | some payload => pure payload
    | none => executeStarted settings x ids.1 started.record
  | .error (.bridge e) => pure (errorPayload ids.1 x.sessionId x.projectId ids.2 e)
  | .error e => Prog.raise e

theorem execute_eq (settings : PolicySettings) (caller : Caller) (x : Execution) :
    execute settings caller x = beforeStart settings caller >>= fun ids =>
      (startOperation caller.principal (startRequest x ids.1 ids.2)).andThen
        (afterStart settings x ids) := by
  simp only [execute, beforeStart, Prog.bind_assoc]
  refine congrArg _ (funext fun _ => congrArg _ (funext fun _ => ?_))
  refine congrArg _ (funext fun requestId => congrArg _ (funext fun operationId => ?_))
  refine (Prog.andThen_assoc _ _ _).trans ((Prog.andThen_assoc _ _ _).trans ?_)
  refine congrArg _ (funext fun res => ?_)
  rcases res with (_ | ⟨e⟩ | _) | started <;> rfl

/-! ## The row that answers -/

/-- A row without namespace that an OAuth caller may be bound to. -/
def legacyFits (db : Database) (o : OperationRecord) : Bool :=
  match (db.operationAuthContext? o.operationId).bind authContextIdentity with
  | none => true
  | some identity => identity.1 == "oauth-resource-server"

/-- The row that `start` finds for a request. -/
def existingRow (principal : Option AuthContext) (r : StartRequest) (db : Database) :
    Option OperationRecord :=
  match db.operationIn? r.projectId r.sessionId (r.key principal) with
  | some row => some row
  | none =>
    if isOAuth principal then
      (db.operationsByClientRequestId r.projectId r.sessionId r.clientRequestId).find?
        (legacyFits db)
    else none

theorem mem_of_existingRow {principal : Option AuthContext} {r : StartRequest} {db : Database}
    {row : OperationRecord}
    (h : existingRow principal r db = some row) : row ∈ db.operations := by
  unfold existingRow at h
  split at h
  · rename_i hin
    cases h
    exact (Database.operationIn?_some hin).1
  · split_ifs at h
    have hmem := List.mem_of_find?_eq_some h
    simp only [Database.operationsByClientRequestId, mem_orderBy, List.mem_filter] at hmem
    exact hmem.1

theorem operationIn?_of_existingRow {principal : Option AuthContext} {r : StartRequest}
    {db : Database} (h : existingRow principal r db = none) :
    db.operationIn? r.projectId r.sessionId (r.key principal) = none := by
  unfold existingRow at h
  split at h
  · cases h
  · assumption

theorem passing_legacyRecord {I : World → Prop} (hI : I w) : ∀ l : List OperationRecord,
    (legacyRecord l).wp ((bridge settings d).passing I t) (fun res w' => w' = w ∧
      (res = .ok (l.find? (legacyFits w.db)) ∨ res = .error .other)) w
  | [] => ⟨rfl, .inl rfl⟩
  | candidate :: rest => by
      refine Prog.wp_bind (passing_read (fun _ _ => rfl) hI ⟨?_, by simp⟩ ⟨by simp, ?_⟩)
      · rintro stored ⟨⟩
        split
        · rename_i hnone
          refine ⟨rfl, .inl ?_⟩
          simp [legacyFits, hnone]
        · rename_i identity hsome
          split_ifs with hkind
          · refine ⟨rfl, .inl ?_⟩
            simp [legacyFits, hsome, hkind]
          · have hnot : legacyFits w.db candidate = false := by simp [legacyFits, hsome, hkind]
            simpa [List.find?_cons, hnot] using passing_legacyRecord hI rest
      · rintro e ⟨⟩
        exact ⟨rfl, .inr rfl⟩

theorem passing_findExisting {I : World → Prop} (hI : I w) (principal : Option AuthContext)
    (r : StartRequest) :
    (findExisting principal r).wp ((bridge settings d).passing I t) (fun res w' => w' = w ∧
      (res = .ok (existingRow principal r w.db) ∨ res = .error .other)) w := by
  unfold findExisting
  refine Prog.wp_bind (passing_read (fun _ _ => rfl) hI ⟨?_, by simp⟩ ⟨by simp, ?_⟩)
  · rintro found hfound
    simp only [Except.ok.injEq] at hfound
    subst hfound
    split
    · rename_i row hrow
      refine ⟨rfl, .inl ?_⟩
      simp [existingRow, hrow]
    · rename_i hnone
      split_ifs with hoauth
      · refine Prog.wp_bind (passing_read (fun _ _ => rfl) hI ⟨?_, by simp⟩ ⟨by simp, ?_⟩)
        · rintro candidates ⟨⟩
          simpa [existingRow, hnone, hoauth] using passing_legacyRecord hI _
        · rintro e ⟨⟩
          exact ⟨rfl, .inr rfl⟩
      · refine ⟨rfl, .inl ?_⟩
        simp [existingRow, hnone, hoauth]
  · rintro e ⟨⟩
    exact ⟨rfl, .inr rfl⟩

theorem prompt_findExisting (principal : Option AuthContext) (r : StartRequest) :
    (findExisting principal r).wp (atOnce settings d t) (fun res w' => w' = w ∧
      (res = .ok (existingRow principal r w.db) ∨ res = .error .other)) w :=
  Machine.wp_prompt (passing_findExisting (I := fun _ => True) trivial principal r)

/-- The answer that an existing row gives to a request. -/
def rowAnswer (principal : Option AuthContext) (r : StartRequest) (db : Database)
    (row : OperationRecord) : Except Exn OperationStart :=
  match existingStart row (db.operationAuthContext? row.operationId)
      (principal.map authAuditDetails) r.digest with
  | .ok start => .ok start
  | .error e => .error (.bridge e)

theorem prompt_startExisting (principal : Option AuthContext) (r : StartRequest)
    (row : OperationRecord) :
    (startExisting principal r row).wp (atOnce settings d t) (fun res w' => w' = w ∧
      (res = rowAnswer principal r w.db row ∨ res = .error .other)) w := by
  refine Prog.wp_bind (prompt_read (fun _ _ => rfl) ⟨?_, by simp⟩ ⟨by simp, ?_⟩)
  · rintro stored ⟨⟩
    split
    · rename_i start hstart
      refine ⟨rfl, .inl ?_⟩
      simp [rowAnswer, hstart]
    · rename_i e hstart
      refine ⟨rfl, .inl ?_⟩
      simp [rowAnswer, hstart]
  · rintro e ⟨⟩
    exact ⟨rfl, .inr rfl⟩

/-! ## The whole start -/

/-- A run of `start` by task `t`. -/
abbrev StartRun (settings : PolicySettings) (d : Discretion) (t : ℕ)
    (principal : Option AuthContext) (r : StartRequest) (w : World)
    (res : Except Exn OperationStart) (w' : World) : Prop :=
  Task.Runs (atOnce settings d t) (startOperation principal r).task w res w'

variable {principal : Option AuthContext} {r : StartRequest} {res : Except Exn OperationStart}

/-- An exception of the store, which `start` lets through. -/
def Exn.ofStore : Exn → Bool
  | .other | .persistenceError | .invalidTransition | .integrityError => true
  | _ => false

/-- How `start` answers a request that no row answers to: with a new operation, or with a refusal
that names no other request. -/
inductive FirstAnswer : Except Exn OperationStart → Prop
  | started {start : OperationStart} (new : start.replay = none) : FirstAnswer (.ok start)
  | blocked {e : BridgeError} (code : e.code = .operationBlocked) : FirstAnswer (.error (.bridge e))
  | fails {e : Exn} (ofStore : e.ofStore = true) : FirstAnswer (.error e)

theorem prompt_startNew {row : OperationRecord} :
    (startNew principal row).wp (atOnce settings d t) (fun res _ => FirstAnswer res) w := by
  have validated : ∀ w : World, (Service.operation (.transition row.operationId .validated
      (some .received) none none) >>= fun record => pure { record, replay := none } :
        Service OperationStart).wp (atOnce settings d t) (fun res _ => FirstAnswer res) w := by
    refine fun w => Prog.wp_bind (prompt_operation (fun _ e herr => ⟨by simp, ?_⟩)
      fun _ _ _ _ => ⟨fun _ _ => .started rfl, by simp⟩)
    rintro _ ⟨⟩
    obtain rfl | rfl | rfl := Database.transitionOperation_error herr <;> exact .fails rfl
  refine Prog.wp_bind (Prog.wp_handle (prompt_read (fun _ _ => rfl) ⟨?_, by simp⟩ ⟨by simp, ?_⟩))
  · rintro stored ⟨⟩
    refine ⟨?_, by simp⟩
    rintro _ ⟨⟩
    refine Prog.wp_bind ?_
    cases principal with
    | none => exact ⟨fun _ _ => validated _, by simp⟩
    | some c =>
      refine prompt_operation (fun st e herr => ⟨by simp, ?_⟩)
        fun _ _ _ _ => ⟨fun _ _ => validated _, by simp⟩
      rintro _ ⟨⟩
      cases h : w.db.recordOperationAuthContext st row.operationId (authAuditDetails c) with
      | error e' =>
        obtain rfl := Database.recordOperationAuthContext_error h
        simp only [OperationCall.run, h, Except.map, Except.error.injEq] at herr
        exact herr ▸ .fails rfl
      | ok db => simp [OperationCall.run, h, Except.map] at herr
  · rintro e ⟨⟩
    refine Prog.wp_bind (prompt_ask rfl fun e a w' he => ?_)
    have ha : a = .ok () := by
      revert he
      simp only [exec]
      split_ifs
      · simp
      · rintro ⟨⟩
        rfl
    subst ha
    refine ⟨fun _ _ => ⟨by simp, ?_⟩, by simp⟩
    rintro _ ⟨⟩
    exact .fails rfl

/-- Where a row answers to the key of a request, `start` changes nothing, and the row alone decides,
unless the store fails. -/
theorem StartRun.existing (h : StartRun settings d t principal r w res w')
    (hcheck : r.check = .ok ()) {row : OperationRecord}
    (hrow : existingRow principal r w.db = some row) :
    w' = w ∧ (res = rowAnswer principal r w.db row ∨ res = .error .other) := by
  refine h.sound (P := fun res w' => w' = w ∧ (res = rowAnswer principal r w.db row ∨
    res = .error .other)) (Prog.wp_bind ((Prog.wp_lift _).2 ⟨fun _ _ => ?_, by simp [hcheck]⟩))
  refine Prog.wp_bind (Prog.wp_mono (fun res w₁ hfound => ⟨?_, ?_⟩)
    (prompt_findExisting principal r))
  · rintro found rfl
    obtain ⟨rfl, hfound | hfound⟩ := hfound
    · rw [hrow] at hfound
      cases hfound
      exact prompt_startExisting principal r row
    · cases hfound
  · rintro e rfl
    obtain ⟨rfl, hfound | hfound⟩ := hfound
    · cases hfound
    · cases hfound
      exact ⟨rfl, .inr rfl⟩

/-- Going on with a value. -/
theorem runs_andThen {α β : Type} {x : Service α} {f : α → Service β} {a : α} {b : Except Exn β}
    {w₁ w₂ : World} (hx : Task.Runs (atOnce settings d t) x.task w (.ok a) w₁)
    (hf : Task.Runs (atOnce settings d t) (f a).task w₁ b w₂) :
    Task.Runs (atOnce settings d t) (x >>= f : Service β).task w b w₂ :=
  Task.Runs.bind hx hf

theorem runs_legacyRecord : ∀ l : List OperationRecord,
    Task.Runs (atOnce settings d t) (legacyRecord l).task w (.ok (l.find? (legacyFits w.db))) w
  | [] => .done _ _
  | candidate :: rest => by
      refine runs_andThen (runs_read (fun _ _ => rfl)) ?_
      split
      · rename_i hnone
        have hfits : legacyFits w.db candidate = true := by simp [legacyFits, hnone]
        rw [List.find?_cons, hfits]
        exact .done _ _
      · rename_i identity hsome
        split_ifs with hkind
        · have hfits : legacyFits w.db candidate = true := by simp [legacyFits, hsome, hkind]
          rw [List.find?_cons, hfits]
          exact .done _ _
        · have hfits : legacyFits w.db candidate = false := by simp [legacyFits, hsome, hkind]
          rw [List.find?_cons, hfits]
          exact runs_legacyRecord rest

theorem runs_findExisting (principal : Option AuthContext) (r : StartRequest) :
    Task.Runs (atOnce settings d t) (findExisting principal r).task w
      (.ok (existingRow principal r w.db)) w := by
  refine runs_andThen (runs_read (fun _ _ => rfl)) ?_
  unfold existingRow
  split
  · rename_i row hrow
    rw [hrow]
    exact .done _ _
  · rename_i hnone
    rw [hnone]
    split_ifs with hoauth
    · exact runs_andThen (runs_read (fun _ _ => rfl)) (runs_legacyRecord _)
    · exact .done _ _

/-- Such a run of `start` is possible: the store need not fail. -/
theorem startRun_existing (hcheck : r.check = .ok ()) {row : OperationRecord}
    (hrow : existingRow principal r w.db = some row) :
    StartRun settings d t principal r w (rowAnswer principal r w.db row) w := by
  have hexist : Task.Runs (atOnce settings d t) (startExisting principal r row).task w
      (rowAnswer principal r w.db row) w := by
    refine runs_andThen (runs_read (fun _ _ => rfl)) ?_
    unfold rowAnswer
    cases existingStart row (w.db.operationAuthContext? row.operationId)
      (principal.map authAuditDetails) r.digest with
    | ok start => exact .done _ _
    | error e => exact .done _ _
  have hfind : Task.Runs (atOnce settings d t) (findExisting principal r).task w
      (.ok (some row)) w := hrow ▸ runs_findExisting principal r
  unfold StartRun startOperation
  rw [hcheck]
  exact runs_andThen (.done _ _) (runs_andThen hfind hexist)

/-- A row that is created is new where none was under the key. -/
theorem prompt_createRow (hnone : w.db.operationIn? r.projectId r.sessionId
    (r.key principal) = none) : (createRow principal r).wp (atOnce settings d t)
      (fun res _ => (∀ row existing, res = .ok (row, existing) → existing = false) ∧
        ∀ e, res = .error e → FirstAnswer (.error e)) w := by
  refine Prog.wp_handle (prompt_operation (fun st e herr => ⟨by simp, ?_⟩)
    fun st a db' hrun => ⟨?_, by simp⟩)
  · rintro _ ⟨⟩
    obtain rfl | ⟨id, s, rfl⟩ := Database.createOperation_error herr
    · refine ⟨by simp, fun _ h => ?_⟩
      cases h
      exact .fails rfl
    · refine ⟨fun _ _ h => (by cases h), fun _ h => ?_⟩
      cases h
      exact .blocked rfl
  · rintro _ ⟨⟩
    refine ⟨fun row existing h => ?_, by simp⟩
    cases h
    rcases Database.createOperation_ok hrun with ⟨-, -, hin⟩ | ⟨hnew, -⟩
    · rw [hnone] at hin
      cases hin
    · exact hnew

/-- A request that no row answers to is not replayed. -/
theorem StartRun.first (h : StartRun settings d t principal r w res w')
    (hcheck : r.check = .ok ()) (hnew : existingRow principal r w.db = none) : FirstAnswer res := by
  have hnone := operationIn?_of_existingRow hnew
  refine h.sound (P := fun res _ => FirstAnswer res)
    (Prog.wp_bind ((Prog.wp_lift _).2 ⟨fun _ _ => ?_, by simp [hcheck]⟩))
  refine Prog.wp_bind (Prog.wp_mono (fun res w₁ hfound => ⟨?_, ?_⟩)
    (prompt_findExisting principal r))
  · rintro found rfl
    obtain ⟨rfl, hfound | hfound⟩ := hfound
    · rw [hnew] at hfound
      cases hfound
      refine Prog.wp_bind (Prog.wp_mono (fun res w₂ hrow => ⟨?_, hrow.2⟩) (prompt_createRow hnone))
      rintro ⟨row, existing⟩ hok
      rw [hrow.1 row existing hok]
      exact prompt_startNew
    · cases hfound
  · rintro e rfl
    obtain ⟨rfl, hfound | hfound⟩ := hfound
    · cases hfound
    · cases hfound
      exact .fails rfl

/-- `start` replays the row that answers to the request and no other. -/
theorem StartRun.replay (h : StartRun settings d t principal r w res w') {start : OperationStart}
    {payload : Payload} (hres : res = .ok start) (hreplay : start.replay = some payload) :
    w' = w ∧ r.check = .ok () ∧ ∃ row, existingRow principal r w.db = some row ∧
      res = rowAnswer principal r w.db row := by
  cases hcheck : r.check with
  | error e =>
    unfold StartRun startOperation at h
    rw [hcheck] at h
    cases h
    cases hres
  | ok u =>
    cases hrow : existingRow principal r w.db with
    | some row =>
      obtain ⟨hw, h | h⟩ := h.existing hcheck hrow
      · exact ⟨hw, rfl, row, rfl, h⟩
      · rw [h] at hres
        cases hres
    | none =>
      subst hres
      cases h.first hcheck hrow with
      | started new =>
        rw [hreplay] at new
        cases new

end CodemcpBridge
