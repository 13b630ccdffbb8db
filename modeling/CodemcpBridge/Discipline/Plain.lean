import CodemcpBridge.Discipline.Ordinary

/-!
# Services that start nothing

Most of what the process does for a call starts neither a registered command nor the body of an
operation; the lemmas say so service by service.
-/

namespace CodemcpBridge

open Async Service

/-- A question that neither starts a registered command nor a body. -/
def Ask.Plain : Ask → Prop
  | invocation .. | mark (.enter _) => False
  | setStarted b => b = true
  | _ => True

variable {α : Type} {settings : PolicySettings} {x : Service α}

theorem plain_quiet {q : Quiet} : (Service.quiet q).Asks Ask.Plain := Prog.asks_ask trivial

theorem plain_store {c : StoreCall} : (Service.store c).Asks Ask.Plain := Prog.asks_ask trivial

theorem plain_operation {c : OperationCall} : (operation c).Asks Ask.Plain := Prog.asks_ask trivial

theorem plain_dropped {o : String} : (mark (.dropped o)).Asks Ask.Plain := Prog.asks_ask trivial

theorem plain_raise {e : BridgeError} : (Service.raise e : Service α).Asks Ask.Plain := ⟨trivial⟩

theorem plain_reject {code : ErrorCode} {message : String} {details : Dict} {status : Status}
    {retryable : Bool} :
    (Service.reject code message details status retryable : Service α).Asks Ask.Plain := ⟨trivial⟩

theorem plain_exceptBridge {h : BridgeError → Service α} (hx : x.Asks Ask.Plain)
    (hh : ∀ e, (h e).Asks Ask.Plain) : (Service.exceptBridge x h).Asks Ask.Plain :=
  .handle hx fun e y he => by
    cases e <;> cases he
    exact hh _

theorem plain_check {c : Prop} [Decidable c] {code : ErrorCode} {message : String}
    {details : Dict} {status : Status} {retryable : Bool} {f : Unit → Service α}
    (hf : ∀ u, (f u).Asks Ask.Plain) :
    (if c then Service.reject code message details status retryable >>= f else f ()).Asks
      Ask.Plain :=
  Prog.asks_ite (.bind plain_reject hf) (hf ())

/-! ## Bodies -/

theorem plain_runGit {root : String} {arguments : List String} :
    (runGit root arguments).Asks Ask.Plain := by
  refine .bind (.handle (Prog.asks_ask trivial) fun e y he => ?_) fun process =>
    .bind (.handle (Prog.asks_ask trivial) fun e y he => ?_) fun completed =>
    plain_check fun _ => Prog.asks_pure _
  · split_ifs at he
    cases he
    exact plain_reject
  · split at he
    · cases he
      exact .bind (Prog.asks_ask trivial) fun _ => plain_reject
    · cases he

/-- The run of a registered command asks for its invocation, and for nothing else that is not
plain. -/
theorem asks_runCommand {project : ProjectSpec} {command : CommandSpec} :
    (runCommand settings project command).Asks
      fun q => q.Plain ∨ q = .invocation project command := by
  have wait : ∀ process, (awaitCommand settings command process).Asks Ask.Plain := fun process => by
    refine .andThen (Prog.asks_ask trivial) fun r => ?_
    split
    · exact Prog.asks_pure _
    · exact .bind (Prog.asks_ask trivial) fun _ => Prog.asks_pure _
    · exact Prog.asks_raise _
  refine .bind (Prog.asks_ask (.inr rfl)) fun i => .mono (fun _ h => .inl h)
    (.andThen (Prog.asks_ask trivial) fun r => ?_)
  split
  · exact wait _
  · exact Prog.asks_ite (Prog.asks_pure _) (Prog.asks_raise _)

theorem plain_carry {y : Body α} (hy : y.Asks Act.Ordinary) : (carry settings y).Asks Ask.Plain :=
  hy.via fun a ha => by
    cases a with
    | quiet q => exact plain_quiet
    | git root arguments => exact plain_runGit
    | command p c => exact ha.elim

/-- A body that runs one registered command only. -/
theorem asks_carry {y : Body α} {project : ProjectSpec} {command : CommandSpec}
    (hy : y.Asks fun a => a.Ordinary ∨ a = .command project command) :
    (carry settings y).Asks fun q => q.Plain ∨ q = .invocation project command :=
  hy.via fun a ha => by
    rcases ha with ha | rfl
    · have one : (carry settings (Body.act a)).Asks Ask.Plain := plain_carry (Prog.asks_ask ha)
      rw [carry, Body.act, Prog.via_ask] at one
      exact one.mono fun _ h => .inl h
    · exact asks_runCommand

/-- The body of a registered command runs this command only. -/
theorem asks_runCommandBody {env : Env} {project : ProjectSpec} {command : CommandSpec}
    {s o : String} : (runCommandBody env project command s o).Asks
      fun a => a.Ordinary ∨ a = .command project command := by
  have ordinary {α : Type} {x : Body α} (hx : x.Asks Act.Ordinary) :
      x.Asks fun a => a.Ordinary ∨ a = .command project command := hx.mono fun _ h => .inl h
  refine .bind (.bind (ordinary ordinary_quiet) fun _ => .ensuring
    (.bind (ordinary (ordinary_of_idle idle_beginMutation)) fun mutation => ?_)
    (ordinary ordinary_quiet)) fun _ => Prog.asks_pure _
  refine .bind (Prog.asks_ask (.inr rfl)) fun result => ordinary ?_
  exact .bind (ordinary_of_idle idle_status) fun _ => asks_check fun _ => asks_check fun _ =>
    .bind (ordinary_of_idle idle_finishMutation) fun _ => Prog.asks_pure _

/-! ## Starting and settling an operation -/

section Operations

variable {principal : Option AuthContext} {r : StartRequest} {o : String} {record : OperationRecord}

theorem plain_startBridge : startBridge.Asks Ask.Plain :=
  .bind (Prog.asks_ask trivial) fun _ => Prog.asks_ite
    (.bind plain_operation fun _ => Prog.asks_ask rfl) (Prog.asks_pure _)

theorem plain_refresh : (carry settings refreshProjectRegistry).Asks Ask.Plain :=
  plain_carry (ordinary_of_passive passive_refresh)

theorem plain_requestIdOf {caller : Caller} : (requestIdOf caller).Asks Ask.Plain := by
  unfold requestIdOf
  split
  · exact Prog.asks_pure _
  · exact plain_quiet

theorem plain_legacyRecord : ∀ candidates, (legacyRecord candidates).Asks Ask.Plain
  | [] => Prog.asks_pure _
  | _ :: candidates => .bind plain_store fun stored => by
      split
      · exact Prog.asks_pure _
      · exact Prog.asks_ite (Prog.asks_pure _) (plain_legacyRecord candidates)

theorem plain_findExisting : (findExisting principal r).Asks Ask.Plain := by
  refine .bind plain_store fun found => ?_
  split
  · exact Prog.asks_pure _
  · exact Prog.asks_ite (.bind plain_store fun _ => plain_legacyRecord _) (Prog.asks_pure _)

theorem plain_createRow : (createRow principal r).Asks Ask.Plain :=
  .handle plain_operation fun e y he => by
    split at he
    · cases he
      exact plain_reject
    · cases he

theorem plain_startExisting : (startExisting principal r record).Asks Ask.Plain :=
  .bind plain_store fun stored => by
    split
    · exact Prog.asks_pure _
    · exact plain_raise

theorem plain_startNew : (startNew principal record).Asks Ask.Plain := by
  refine .bind (.handle plain_store fun e y he => ?_) fun _ => .bind ?_ fun _ =>
    .bind plain_operation fun _ => Prog.asks_pure _
  · cases he
    exact .bind plain_dropped fun _ => Prog.asks_raise _
  · cases principal with
    | none => exact Prog.asks_pure _
    | some context => exact plain_operation

theorem plain_startOperation : (startOperation principal r).Asks Ask.Plain := by
  refine .bind (Prog.asks_lift _) fun _ => .bind plain_findExisting fun found => ?_
  split
  · exact plain_startExisting
  · exact .bind plain_createRow fun _ => Prog.asks_ite plain_startExisting plain_startNew

theorem plain_dispatch {s : OperationState} : (dispatch o s).Asks Ask.Plain :=
  .bind plain_operation fun _ => plain_operation

theorem plain_operationRecord : (operationRecord o).Asks Ask.Plain :=
  .bind plain_store fun found => by
    split
    · exact Prog.asks_pure _
    · exact plain_reject

theorem plain_settleError {x : Execution} {requestId : String} {s : OperationState}
    {error : BridgeError} : (settleError x requestId o s error).Asks Ask.Plain :=
  .bind plain_operation fun _ => Prog.asks_pure _

theorem plain_settle {x : Execution} {requestId : String} {e : Exn} :
    (settle x requestId o e).Asks Ask.Plain := by
  unfold settle
  split
  · exact plain_settleError
  · refine Prog.asks_ite (.bind plain_dropped fun _ => ?_) ?_
    all_goals
      exact .bind (Prog.asks_lift _) fun _ => .bind (.attempt plain_settleError) fun _ =>
        Prog.asks_raise _
  · exact plain_settleError

theorem plain_requireApproval {x : Execution} {requestId : String} :
    (requireApproval settings x requestId record).Asks Ask.Plain := by
  refine .bind (.bind plain_quiet fun _ => .bind plain_quiet fun _ => .bind plain_quiet fun _ =>
    .bind plain_operation fun _ => Prog.asks_pure _) fun grant => ?_
  exact .bind plain_operation fun _ => Prog.asks_pure _

theorem plain_cancelApproval {reason : String} : (cancelApproval o reason).Asks Ask.Plain :=
  .handle plain_operation fun e y he => by
    split at he <;> cases he
    exact plain_reject

end Operations

/-! ## Operations on another operation -/

section Approvals

variable {env : Env} {caller : Caller} {o s : String} {original running : OperationRecord}

theorem plain_requireActive {principal : Option AuthContext} {p : String} {s : Option String} :
    (carry settings (requireActive principal p s)).Asks Ask.Plain :=
  plain_carry (ordinary_of_passive passive_requireActive)

theorem plain_requireOperationForSession :
    (requireOperationForSession env o s).Asks Ask.Plain :=
  .bind plain_refresh fun _ => .bind plain_operationRecord fun _ => plain_check fun _ =>
    .bind plain_requireActive fun _ => Prog.asks_pure _

theorem plain_requireOperationForReconcile :
    (requireOperationForReconcile env o s).Asks Ask.Plain := by
  refine .bind plain_refresh fun _ => .bind plain_operationRecord fun record =>
    Prog.asks_ite plain_reject (.bind plain_requireActive fun successor =>
      Prog.asks_ite (Prog.asks_pure _) ?_)
  split
  · exact plain_reject
  · refine Prog.asks_ite plain_reject (.bind plain_store fun found => ?_)
    split
    · exact plain_reject
    · exact Prog.asks_ite plain_reject (.bind plain_store fun _ => .bind plain_store fun _ =>
        Prog.asks_ite (Prog.asks_pure _) plain_reject)

theorem plain_settleApproved {state : OperationState} {final : Payload}
    {changedFiles : List String} {truncated : Bool} {status : Status} :
    (settleApproved o state final changedFiles truncated status).Asks Ask.Plain :=
  .bind plain_operation fun _ => Prog.asks_pure _

theorem plain_approvedEnd (r : Except Exn Outcome) :
    (approvedEnd caller s running r).Asks Ask.Plain := by
  unfold approvedEnd
  split
  · exact .bind plain_requestIdOf fun _ => plain_settleApproved
  · exact .bind plain_dropped fun _ => Prog.asks_raise _
  · exact .bind plain_requestIdOf fun _ => plain_settleApproved
  · exact .bind plain_requestIdOf fun _ => plain_settleApproved

theorem plain_cancelBody : (cancelBody env caller original o s).Asks Ask.Plain :=
  .bind plain_requireOperationForSession fun _ => plain_check fun _ =>
    .bind plain_cancelApproval fun _ => .bind plain_requestIdOf fun _ =>
    .bind plain_operation fun _ => Prog.asks_pure _

theorem plain_settleReconciled {state : OperationState} {final : Payload} {status : Status} :
    (settleReconciled o state final status).Asks Ask.Plain :=
  .bind plain_operation fun _ => Prog.asks_pure _

theorem plain_reconcileSucceeded {evidence : String} :
    (reconcileSucceeded env caller original o s evidence).Asks Ask.Plain :=
  .bind (plain_carry ordinary_getProject) fun _ => .bind plain_quiet fun _ =>
    .ensuring (.bind (plain_carry ordinary_finalizeReconciled) fun _ =>
      .bind plain_requestIdOf fun _ => plain_settleReconciled) plain_quiet

theorem plain_reconcileBody {decision : Decision} {evidence : String} :
    (reconcileBody env caller original o s decision evidence).Asks Ask.Plain := by
  refine .bind plain_requireOperationForReconcile fun _ => ?_
  extract_lets settle checked given
  have hsettle : ∀ u, (settle u).Asks Ask.Plain := fun _ =>
    Prog.asks_ite (.bind plain_requestIdOf fun _ => plain_settleReconciled) plain_reconcileSucceeded
  have hgiven : ∀ u, (given u).Asks Ask.Plain := fun _ =>
    plain_check fun _ => plain_check hsettle
  split
  · exact .bind plain_reject hgiven
  · exact hgiven ()

theorem plain_operationStatus : (operationStatus env caller o s).Asks Ask.Plain :=
  .bind plain_startBridge fun _ => .bind plain_requestIdOf fun _ => plain_exceptBridge
    (.bind plain_requireOperationForReconcile fun _ => .bind plain_store fun _ =>
      .bind (Prog.asks_lift _) fun _ => .bind plain_store fun _ => Prog.asks_pure _)
    fun _ => Prog.asks_pure _

end Approvals

end CodemcpBridge
