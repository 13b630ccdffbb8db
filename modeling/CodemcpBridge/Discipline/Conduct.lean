import CodemcpBridge.Discipline.Orderly

/-!
# The conduct of calls

What a body observes, its call observes where the process carries the body out; around the body a
call asks for nothing that changes a project.  At the end every call of the public surface keeps
order; the calls of the reading tools do no more than look, but for the recovery after a restart and
for what they have the codemcp worker of a project do.
-/

namespace CodemcpBridge

open Async Service

/-! ## Questions that only look -/

/-- A method that creates no mutation, is about no approval and recovers nothing, unless mutations
are looked at too. -/
def OperationCall.looks (mutation : Bool) : OperationCall → Bool
  | create _ _ _ _ _ _ _ m _ => !m || mutation
  | createApproval .. | consumeApproval .. | cancelApproval .. | recoverAfterRestart => mutation
  | _ => true

/-- A question that changes no project. -/
def Ask.Looks (mutation : Bool) : Ask → Prop
  | quiet q => q.looks = true
  | operation c => c.looks mutation = true
  | spawn i => i.executable = "git" ∧ GitGuard.Looks i.arguments
  | invocation .. => False
  | _ => True

/-- A question of a call that only looks: it changes no project, or it is one of two that do more,
the recovery after a restart, and a call of the adapter where the call may go to it. -/
def Ask.Reads (adapter : Bool) (q : Ask) : Prop :=
  q.Looks false ∨ q = .operation .recoverAfterRestart ∨
    (adapter = true ∧ ∃ project subtool, q = .quiet (.adapterCall project subtool))

namespace Ask

variable {α : Type} {m b : Bool} {settings : PolicySettings} {x : Service α}

theorem looks_quiet {q : Quiet} (h : q.looks = true) : (Service.quiet q).Asks (Looks m) :=
  Prog.asks_ask h

theorem looks_store {c : StoreCall} (h : c.looks = true) : (Service.store c).Asks (Looks m) :=
  Prog.asks_ask h

theorem looks_operation {c : OperationCall} (h : c.looks m = true) :
    (Service.operation c).Asks (Looks m) :=
  Prog.asks_ask h

theorem looks_mark {k : Mark} : (Service.mark k).Asks (Looks m) := Prog.asks_ask trivial

theorem looks_reject {code : ErrorCode} {message : String} {details : Dict} {status : Status}
    {retryable : Bool} :
    (Service.reject code message details status retryable : Service α).Asks (Looks m) := ⟨trivial⟩

theorem looks_exceptBridge {h : BridgeError → Service α} (hx : x.Asks (Looks m))
    (hh : ∀ e, (h e).Asks (Looks m)) : (Service.exceptBridge x h).Asks (Looks m) :=
  .handle hx fun e y he => by
    cases e <;> cases he
    exact hh _

theorem looks_check {c : Prop} [Decidable c] {code : ErrorCode} {message : String}
    {details : Dict} {status : Status} {retryable : Bool} {f : Unit → Service α}
    (hf : ∀ u, (f u).Asks (Looks m)) :
    (if c then Service.reject code message details status retryable >>= f else f ()).Asks
      (Looks m) :=
  Prog.asks_ite (.bind looks_reject hf) (hf ())

/-- A Git step starts one subprocess. -/
theorem asks_runGit {root : String} {arguments : List String} : (runGit root arguments).Asks
    fun q => q.Looks m ∨ q = .spawn { executable := "git", arguments, cwd := root } := by
  refine .bind (.handle (Prog.asks_ask (.inr rfl)) fun e y he => ?_) fun process =>
    .mono (fun _ h => .inl h) (.bind (.handle (Prog.asks_ask trivial) fun e y he => ?_)
      fun completed => looks_check fun _ => Prog.asks_pure _)
  · split_ifs at he
    cases he
    exact ⟨trivial⟩
  · split at he
    · cases he
      exact .bind (Prog.asks_ask trivial) fun _ => looks_reject
    · cases he

theorem looks_runGit {root : String} {arguments : List String} (h : GitGuard.Looks arguments) :
    (runGit root arguments).Asks (Looks m) :=
  asks_runGit.mono fun _ hq => hq.elim id fun he => he ▸ ⟨rfl, h⟩

theorem looks_awaitCommand {command : CommandSpec} {process : ℕ} :
    (awaitCommand settings command process).Asks (Looks m) := by
  refine .andThen (Prog.asks_ask trivial) fun r => ?_
  split
  · exact Prog.asks_pure _
  · exact .bind (Prog.asks_ask trivial) fun _ => Prog.asks_pure _
  · exact Prog.asks_raise _

theorem looks_carry {y : Body α} (hy : y.Asks Act.Looks) : (carry settings y).Asks (Looks m) :=
  hy.via fun a ha => by
    cases a with
    | quiet q => exact looks_quiet ha
    | git root arguments => exact looks_runGit ha
    | command p c => exact ha.elim

theorem Reads.looks {q : Ask} (h : q.Reads false) : q.Looks true := by
  rcases h with h | rfl | ⟨hfalse, -⟩
  · cases q with
    | operation c =>
      cases c with
      | create => exact Bool.or_true _
      | transition => rfl
      | recordAuthContext => rfl
      | createApproval => rfl
      | consumeApproval => rfl
      | cancelApproval => rfl
      | recoverAfterRestart => rfl
    | _ => exact h
  · rfl
  · cases hfalse

theorem reads_of_looks (hx : x.Asks (Looks false)) : x.Asks (Reads b) := hx.mono fun _ hq => .inl hq

theorem looks_of_reads (hx : x.Asks (Reads false)) : x.Asks (Looks true) :=
  hx.mono fun _ hq => hq.looks

theorem reads_carry {y : Body α} (hy : y.Asks Act.Reads) : (carry settings y).Asks (Reads true) :=
  hy.via fun a ha => by
    rcases ha with ha | ⟨project, subtool, rfl⟩
    · cases a with
      | quiet q => exact reads_of_looks (looks_quiet ha)
      | git root arguments => exact reads_of_looks (looks_runGit ha)
      | command p c => exact ha.elim
    · exact Prog.asks_ask (.inr (.inr ⟨rfl, project, subtool, rfl⟩))

/-! ### Starting and settling an operation -/

variable {principal : Option AuthContext} {r : StartRequest} {o s : String} {env : Env}
  {record original : OperationRecord} {caller : Caller}

theorem reads_startBridge : startBridge.Asks (Reads b) :=
  .bind (Prog.asks_ask (.inl trivial)) fun _ => Prog.asks_ite
    (.bind (Prog.asks_ask (.inr (.inl rfl))) fun _ => Prog.asks_ask (.inl trivial))
    (Prog.asks_pure _)

theorem looks_requestIdOf : (requestIdOf caller).Asks (Looks m) := by
  unfold requestIdOf
  split
  · exact Prog.asks_pure _
  · exact looks_quiet rfl

theorem looks_legacyRecord : ∀ candidates, (legacyRecord candidates).Asks (Looks m)
  | [] => Prog.asks_pure _
  | _ :: candidates => .bind (looks_store rfl) fun stored => by
      split
      · exact Prog.asks_pure _
      · exact Prog.asks_ite (Prog.asks_pure _) (looks_legacyRecord candidates)

theorem looks_findExisting : (findExisting principal r).Asks (Looks m) := by
  refine .bind (looks_store rfl) fun found => ?_
  split
  · exact Prog.asks_pure _
  · exact Prog.asks_ite (.bind (looks_store rfl) fun _ => looks_legacyRecord _) (Prog.asks_pure _)

theorem looks_createRow (h : r.mutation = true → m = true) :
    (createRow principal r).Asks (Looks m) := by
  refine .handle (looks_operation ?_) fun e y he => ?_
  · show (!r.mutation || m) = true
    cases hm : r.mutation with
    | false => rfl
    | true => exact h hm
  · split at he
    · cases he
      exact looks_reject
    · cases he

theorem looks_startExisting : (startExisting principal r record).Asks (Looks m) :=
  .bind (looks_store rfl) fun stored => by
    split
    · exact Prog.asks_pure _
    · exact Prog.asks_raise _

theorem looks_startNew : (startNew principal record).Asks (Looks m) := by
  refine .bind (.handle (looks_store rfl) fun e y he => ?_) fun _ => .bind ?_ fun _ =>
    .bind (looks_operation rfl) fun _ => Prog.asks_pure _
  · cases he
    exact .bind looks_mark fun _ => Prog.asks_raise _
  · cases principal with
    | none => exact Prog.asks_pure _
    | some context => exact looks_operation rfl

theorem looks_startOperation (h : r.mutation = true → m = true) :
    (startOperation principal r).Asks (Looks m) := by
  refine .bind (Prog.asks_lift _) fun _ => .bind looks_findExisting fun found => ?_
  split
  · exact looks_startExisting
  · exact .bind (looks_createRow h) fun _ => Prog.asks_ite looks_startExisting looks_startNew

theorem looks_dispatch {s : OperationState} : (dispatch o s).Asks (Looks m) :=
  .bind (looks_operation rfl) fun _ => looks_operation rfl

theorem looks_operationRecord : (operationRecord o).Asks (Looks m) :=
  .bind (looks_store rfl) fun found => by
    split
    · exact Prog.asks_pure _
    · exact looks_reject

theorem looks_settleError {x : Execution} {requestId : String} {s : OperationState}
    {error : BridgeError} : (settleError x requestId o s error).Asks (Looks m) :=
  .bind (looks_operation rfl) fun _ => Prog.asks_pure _

theorem looks_settle {x : Execution} {requestId : String} {e : Exn} :
    (settle x requestId o e).Asks (Looks m) := by
  unfold settle
  split
  · exact looks_settleError
  · refine Prog.asks_ite (.bind looks_mark fun _ => ?_) ?_
    all_goals
      exact .bind (Prog.asks_lift _) fun _ => .bind (.attempt looks_settleError) fun _ =>
        Prog.asks_raise _
  · exact looks_settleError

theorem looks_requireApproval {x : Execution} {requestId : String} :
    (requireApproval settings x requestId record).Asks (Looks true) := by
  refine .bind (.bind (looks_quiet rfl) fun _ => .bind (looks_quiet rfl) fun _ =>
    .bind (looks_quiet rfl) fun _ => .bind (looks_operation rfl) fun _ => Prog.asks_pure _)
    fun grant => ?_
  exact .bind (looks_operation rfl) fun _ => Prog.asks_pure _

theorem looks_consumeApproval {token : String} :
    (consumeApproval o token).Asks (Looks true) := by
  unfold consumeApproval
  refine looks_check fun _ => .bind (looks_quiet rfl) fun _ =>
    .handle (looks_operation rfl) fun e y he => ?_
  split at he <;> cases he <;> exact looks_reject

theorem looks_cancelApproval {reason : String} : (cancelApproval o reason).Asks (Looks true) :=
  .handle (looks_operation rfl) fun e y he => by
    split at he <;> cases he
    exact looks_reject

/-! ### Operations on another operation -/

theorem looks_requireOperationForSession : (requireOperationForSession env o s).Asks (Looks m) :=
  .bind (looks_carry looks_refresh) fun _ => .bind looks_operationRecord fun _ =>
    looks_check fun _ => .bind (looks_carry looks_requireActive) fun _ => Prog.asks_pure _

theorem looks_requireOperationForReconcile :
    (requireOperationForReconcile env o s).Asks (Looks m) := by
  refine .bind (looks_carry looks_refresh) fun _ => .bind looks_operationRecord fun record =>
    Prog.asks_ite looks_reject (.bind (looks_carry looks_requireActive) fun successor =>
      Prog.asks_ite (Prog.asks_pure _) ?_)
  split
  · exact looks_reject
  · refine Prog.asks_ite looks_reject (.bind (looks_store rfl) fun found => ?_)
    split
    · exact looks_reject
    · exact Prog.asks_ite looks_reject (.bind (looks_store rfl) fun _ =>
        .bind (looks_store rfl) fun _ => Prog.asks_ite (Prog.asks_pure _) looks_reject)

theorem looks_settleApproved {state : OperationState} {final : Payload}
    {changedFiles : List String} {truncated : Bool} {status : Status} :
    (settleApproved o state final changedFiles truncated status).Asks (Looks m) :=
  .bind (looks_operation rfl) fun _ => Prog.asks_pure _

theorem looks_approvedEnd (r : Except Exn Outcome) :
    (approvedEnd caller s record r).Asks (Looks m) := by
  unfold approvedEnd
  split
  · exact .bind looks_requestIdOf fun _ => looks_settleApproved
  · exact .bind looks_mark fun _ => Prog.asks_raise _
  · exact .bind looks_requestIdOf fun _ => looks_settleApproved
  · exact .bind looks_requestIdOf fun _ => looks_settleApproved

theorem looks_cancelBody : (cancelBody env caller original o s).Asks (Looks true) :=
  .bind looks_requireOperationForSession fun _ => looks_check fun _ =>
    .bind looks_cancelApproval fun _ => .bind looks_requestIdOf fun _ =>
    .bind (looks_operation rfl) fun _ => Prog.asks_pure _

theorem reads_operationStatus : (operationStatus env caller o s).Asks (Reads b) :=
  .bind reads_startBridge fun _ => reads_of_looks <| .bind looks_requestIdOf fun _ =>
    looks_exceptBridge (.bind looks_requireOperationForReconcile fun _ =>
      .bind (looks_store rfl) fun _ => .bind (Prog.asks_lift _) fun _ =>
      .bind (looks_store rfl) fun _ => Prog.asks_pure _) fun _ => Prog.asks_pure _

/-- An execution without an approval whose body only looks. -/
theorem reads_execute {x : Execution} (hm : x.mutation = false) (hcheck : x.approvalCheck = none)
    (hx : ∀ prepared o, (x.operation prepared o).Asks (Reads b)) :
    (execute settings caller x).Asks (Reads b) := by
  have hstart : ∀ {requestId o : String}, (startRequest x requestId o).mutation = true →
      false = true := fun h => by rw [← hm]; exact h
  refine .bind reads_startBridge fun _ => .bind (reads_of_looks (looks_carry looks_refresh))
    fun _ => .bind (reads_of_looks looks_requestIdOf) fun requestId =>
    .bind (reads_of_looks (looks_quiet rfl)) fun o => .bind (reads_of_looks (looks_exceptBridge
      (.map (looks_startOperation hstart)) fun _ => Prog.asks_pure _)) fun started => ?_
  split
  · exact Prog.asks_pure _
  · split
    · exact Prog.asks_pure _
    · unfold executeStarted judge
      rw [hcheck]
      show (afterCheck _ _ _ _ (.ok (false, none))).Asks (Reads b)
      refine .bind (reads_of_looks looks_mark) fun _ => ?_
      rw [if_neg Bool.false_ne_true]
      refine .handle (.bind (reads_of_looks looks_dispatch) fun _ =>
        .bind (reads_of_looks looks_mark) fun _ => .bind (hx _ _) fun _ =>
        .bind (reads_of_looks (looks_operation rfl)) fun _ => Prog.asks_pure _) fun e y he => ?_
      cases he
      exact reads_of_looks looks_settle

end Ask

/-! ## Keeping order -/

/-- What a call has in its hands: the locks that it holds, and the invocations of registered
commands that it has been told. -/
structure Hands where
  held : List String := []
  told : List Invocation := []

/-- What a call has to observe; it may go to a worker or not. -/
def callConduct (adapter : Bool) : Conduct Ask (fun q => Except Exn q.Result) Hands where
  legal
    | .quiet q, h => q.Fits adapter h.held
    | .spawn i, h => (i.executable = "git" ∧ GitGuard.Looks i.arguments) ∨
        (h.held ≠ [] ∧ ((i.executable = "git" ∧ GitGuard.Works i.arguments) ∨ i ∈ h.told))
    | _, _ => True
  after
    | .quiet q, r, h => { h with held := q.hold r h.held }
    | .invocation .., .ok i, h => { h with told := i :: h.told }
    | _, _, h => h

/-- The locks that calls hold. -/
def callLedger (adapter : Bool) : Ledger Ask (fun q => Except Exn q.Result) Hands String where
  toConduct := callConduct adapter
  share := Hands.held

/-- The call keeps order: it starts and ends without a lock, and it leaves the workers alone unless
it may go to them. -/
def Service.Orderly {α : Type} (adapter : Bool) (x : Service α) : Prop :=
  ∀ h : Hands, h.held = [] → x.wp (callConduct adapter).rules (fun _ h => h.held = []) h

/-- The tools that go to the codemcp worker of a project. -/
def ToolCall.adapts : ToolCall → Bool
  | fileRead .. | codeSearch .. => true
  | _ => false

section Calls

variable {α β : Type} {b : Bool} {settings : PolicySettings} {x : Service α} {f : α → Service β}
  {o s : String}
  {env : Env} {caller : Caller} {original record : OperationRecord}

theorem Ask.Looks.legal {q : Ask} (hq : q.Looks true) (h : Hands) :
    (callConduct b).legal q h ∧ ∀ r, (callConduct b).after q r h = h := by
  cases q with
  | quiet q =>
    refine ⟨q.fits_of_looks hq h.held, fun r => ?_⟩
    show { h with held := q.hold r h.held } = h
    rw [q.hold_of_works (Quiet.works_of_looks hq)]
  | spawn i => exact ⟨.inl hq, fun _ => rfl⟩
  | invocation p c => exact hq.elim
  | _ => exact ⟨trivial, fun _ => rfl⟩

/-- What only looks keeps whatever is in the hands of the call. -/
theorem keeps_of_looks (hx : x.Asks (Ask.Looks true)) (h : Hands) :
    x.wp (callConduct b).rules (fun _ h' => h' = h) h :=
  Conduct.wp_of_asks hx fun _ hq => hq.legal h

namespace Service

theorem orderly_of_looks (hx : x.Asks (Ask.Looks true)) : x.Orderly b := fun h hh =>
  Prog.wp_mono (fun _ h' he => by rw [he, hh]) (keeps_of_looks hx h)

theorem orderly_andThen {f : Except Exn α → Service β} (hx : x.Orderly b)
    (hf : ∀ r, (f r).Orderly b) : Service.Orderly b (x.andThen f) := fun h hh =>
  (Prog.wp_andThen x f _).2 (Prog.wp_mono (fun r h' hh' => hf r h' hh') (hx h hh))

theorem orderly_bind (hx : x.Orderly b) (hf : ∀ a, (f a).Orderly b) :
    (x >>= f).Orderly b := fun h hh =>
  Prog.wp_bind_of (hx h hh) (fun a h' hh' => hf a h' hh') fun _ _ hh' => hh'

theorem orderly_map {f : α → β} (hx : x.Orderly b) : (f <$> x).Orderly b := fun h hh =>
  Prog.wp_map (hx h hh)

theorem orderly_handle {g : Exn → Option (Service α)} (hx : x.Orderly b)
    (hg : ∀ e y, g e = some y → y.Orderly b) : Service.Orderly b (x.handle g) := fun h hh => by
  refine Prog.wp_handle (Prog.wp_mono (fun r h' hh' => ⟨fun _ _ => hh', fun e _ => ?_⟩) (hx h hh))
  cases he : g e with
  | none => exact hh'
  | some y => exact hg e y he h' hh'

theorem orderly_pure (a : α) : (pure a : Service α).Orderly b := fun _ hh => hh

theorem orderly_ite {c : Prop} [Decidable c] {y : Service α} (hx : x.Orderly b) (hy : y.Orderly b) :
    (if c then x else y).Orderly b := by
  split_ifs
  · exact hx
  · exact hy

/-! ### Carrying a body out -/

theorem wp_runGit {root : String} {arguments : List String} {h : Hands}
    (hlegal : (callConduct b).legal (.spawn { executable := "git", arguments, cwd := root }) h) :
    (runGit root arguments).wp (callConduct b).rules (fun _ h' => h' = h) h :=
  Conduct.wp_of_asks Ask.asks_runGit fun q hq => hq.elim (fun hq => hq.legal h) fun he => by
    subst he
    exact ⟨hlegal, fun _ => rfl⟩

theorem wp_runCommand {project : ProjectSpec} {command : CommandSpec} {h : Hands}
    (hheld : h.held ≠ []) : (runCommand settings project command).wp (callConduct b).rules
      (fun _ h' => h'.held = h.held) h := by
  refine Prog.wp_bind (Conduct.wp_ask_iff.2 ⟨trivial, fun r => ⟨fun i hi => ?_, fun e he => ?_⟩⟩)
  · subst hi
    have started : (callConduct b).legal (.spawn i) { h with told := i :: h.told } :=
      .inr ⟨hheld, .inr List.mem_cons_self⟩
    refine (Prog.wp_andThen _ _ _).2 (Conduct.wp_ask_iff.2 ⟨started, fun r => ?_⟩)
    cases r with
    | ok process =>
      have waited : (awaitCommand settings command process).wp (callConduct b).rules
          (fun _ h' => h'.held = h.held) { h with told := i :: h.told } :=
        Prog.wp_mono (fun _ h' he => by rw [he]) (keeps_of_looks Ask.looks_awaitCommand _)
      exact waited
    | error e =>
      have failed : (if e.isOSError then
          pure (commandError settings.title command ("could not be started: " ++ e.text))
        else Prog.raise e : Service CommandRunResult).wp (callConduct b).rules
          (fun _ h' => h'.held = h.held) { h with told := i :: h.told } := by
        split_ifs <;> rfl
      exact failed
  · subst he
    rfl

/-- What is legal for a body is carried out legally, and the locks are the same afterwards. -/
theorem wp_perform (a : Act) (held : List String) (h : Hands) (hheld : h.held = held)
    (hlegal : (bodyConduct b).legal a held) : (perform settings a).task.wp (callConduct b).rules
      (fun r h' => h'.held = (bodyConduct b).after a r held) h := by
  subst hheld
  cases a with
  | quiet q => exact Conduct.wp_ask_iff.2 ⟨hlegal, fun r => rfl⟩
  | git root arguments =>
    refine Prog.wp_mono (fun _ h' he => congrArg Hands.held he) (wp_runGit ?_)
    rcases hlegal with hlooks | ⟨hworks, hheld⟩
    · exact .inl ⟨rfl, hlooks⟩
    · exact .inr ⟨hheld, .inl ⟨rfl, hworks⟩⟩
  | command project command => exact wp_runCommand hlegal

theorem wp_carry {y : Body α} {P : Except Exn α → List String → Prop} {h : Hands}
    (hy : y.wp (bodyConduct b).rules P h.held) :
    (carry settings y).wp (callConduct b).rules (fun r h' => P r h'.held) h :=
  Task.wp_mono (fun r h' hend => by
      obtain ⟨held, hheld, hP⟩ := hend
      exact hheld.symm ▸ hP)
    (Conduct.wp_via (R := fun held (h : Hands) => h.held = held) wp_perform rfl hy)

/-- A body that keeps order keeps it where the process carries it out. -/
theorem orderly_carry {y : Body α} (hy : y.Orderly b) :
    (carry settings y).Orderly b := fun h hh => by
  refine wp_carry (P := fun _ held => held = []) ?_
  rw [hh]
  exact hy

/-! ### Calls -/

/-- An execution whose check only looks and whose body keeps order. -/
theorem orderly_execute {x : Execution}
    (hcheck : ∀ check, x.approvalCheck = some check → check.Asks Act.Looks)
    (hx : ∀ prepared o, (x.operation prepared o).Orderly b) :
    (execute settings caller x).Orderly b := by
  refine orderly_bind (orderly_of_looks (Ask.looks_of_reads Ask.reads_startBridge)) fun _ =>
    orderly_bind (orderly_of_looks (Ask.looks_carry looks_refresh)) fun _ =>
    orderly_bind (orderly_of_looks Ask.looks_requestIdOf) fun requestId =>
    orderly_bind (orderly_of_looks (Ask.looks_quiet rfl)) fun o =>
    orderly_bind (orderly_of_looks (Ask.looks_exceptBridge
      (.map (Ask.looks_startOperation fun _ => rfl)) fun _ => Prog.asks_pure _)) fun started => ?_
  have hrun : ∀ prepared o, (runOperation x prepared requestId o).Orderly b := fun prepared o =>
    orderly_handle (orderly_bind (orderly_of_looks Ask.looks_dispatch) fun _ =>
      orderly_bind (orderly_of_looks Ask.looks_mark) fun _ => orderly_bind (hx prepared o) fun _ =>
      orderly_bind (orderly_of_looks (Ask.looks_operation rfl)) fun _ => orderly_pure _)
      fun e y he => by
        rw [← Option.some.inj he]
        exact orderly_of_looks Ask.looks_settle
  split
  · exact orderly_pure _
  · split
    · exact orderly_pure _
    · refine orderly_andThen ?_ fun r => ?_
      · unfold judge
        split
        · exact orderly_of_looks (Ask.looks_carry (hcheck _ ‹_›))
        · exact orderly_pure _
      · unfold afterCheck
        split
        · exact orderly_bind (orderly_of_looks Ask.looks_mark) fun _ =>
            orderly_ite (orderly_of_looks Ask.looks_requireApproval) (hrun _ _)
        · exact orderly_of_looks Ask.looks_settleError
        · exact orderly_of_looks (.bind Ask.looks_mark fun _ => Prog.asks_raise _)

theorem orderly_confirmBody {token : String} :
    (confirmBody env caller original o s token).Orderly b := by
  have run : ∀ operationId, (runApproved env caller s operationId).Orderly b := fun _ =>
    orderly_bind (orderly_of_looks Ask.looks_dispatch) fun _ =>
      orderly_bind (orderly_of_looks Ask.looks_mark) fun _ =>
      orderly_andThen (orderly_carry orderly_runApprovedOperation) fun r =>
        orderly_of_looks (Ask.looks_approvedEnd r)
  refine orderly_bind (orderly_of_looks Ask.looks_requireOperationForSession) fun _ => ?_
  have rest : (do
      let approved ← consumeApproval o token
      runApproved env caller s approved.operationId : Service Outcome).Orderly b :=
    orderly_bind (orderly_of_looks Ask.looks_consumeApproval) fun _ => run _
  exact orderly_ite (orderly_bind (orderly_of_looks Ask.looks_reject) fun _ => rest) rest

theorem works_finalizeReconciled {project : ProjectSpec} :
    (finalizeReconciled env project o).Asks Act.Works := by
  refine .bind (.bind works_store fun found => ?_) fun _ => .bind (works_of_looks looks_verifyRef)
    fun _ => .bind works_finalizeCurrent fun _ => Prog.asks_lift _
  split
  · exact Prog.asks_ite asks_reject (Prog.asks_pure _)
  · exact asks_reject

theorem orderly_reconcileSucceeded {evidence : String} :
    (reconcileSucceeded env caller original o s evidence).Orderly b := by
  refine orderly_bind (orderly_carry orderly_getProject) fun project h hh => ?_
  refine Prog.wp_bind (Conduct.wp_ask_iff.2 ⟨hh, fun r => ?_⟩)
  cases r with
  | error e =>
    refine ⟨fun a ha => ?_, fun _ _ => hh⟩
    cases ha
  | ok u =>
    refine ⟨fun _ _ => Prog.wp_ensuring ?_, fun e he => ?_⟩
    · have hheld : (((callConduct b).after (.quiet (.acquire project.projectId)) (.ok u) h).held) =
          [project.projectId] := congrArg (List.cons _) hh
      have hgive : ∀ h' : Hands, h'.held = [project.projectId] →
          (Service.quiet (.release project.projectId)).wp (callConduct b).rules
            (fun r h'' => h''.held = []) h' := fun h' hh' => by
        refine Conduct.wp_ask_iff.2 ⟨?_, fun r => ?_⟩
        · show project.projectId ∈ h'.held
          rw [hh']
          exact List.mem_cons_self
        · show h'.held.erase project.projectId = []
          rw [hh', List.erase_cons_head]
      refine Prog.wp_mono (fun r h' hh' => Prog.wp_mono (fun r h'' hh'' =>
        ⟨fun _ => hh'', fun _ _ => hh''⟩) (hgive h' hh')) (Prog.wp_bind_of
        (J := fun h' => h'.held = [project.projectId]) (wp_carry
        (P := fun _ held => held = [project.projectId]) ?_) (fun data h' hh' => ?_)
        fun _ _ hh' => hh')
      · rw [hheld]
        exact keeps_of_works (List.cons_ne_nil _ _) works_finalizeReconciled
      · have looks : ∀ final : String → Payload, (do
            let requestId ← requestIdOf caller
            settleReconciled o .succeeded (final requestId) .succeeded : Service Outcome).Asks
              (Ask.Looks true) := fun final =>
          .bind Ask.looks_requestIdOf fun _ => .bind (Ask.looks_operation rfl) fun _ =>
            Prog.asks_pure _
        exact Prog.wp_mono (fun _ h'' he => by rw [he, hh']) (keeps_of_looks (looks _) h')
    · cases he

theorem orderly_reconcileBody {decision : Decision} {evidence : String} :
    (reconcileBody env caller original o s decision evidence).Orderly b := by
  refine orderly_bind (orderly_of_looks Ask.looks_requireOperationForReconcile) fun _ => ?_
  extract_lets settle checked given
  have hsettle : ∀ u, (settle u).Orderly b := fun _ =>
    orderly_ite (orderly_of_looks (.bind Ask.looks_requestIdOf fun _ =>
      .bind (Ask.looks_operation rfl) fun _ => Prog.asks_pure _)) orderly_reconcileSucceeded
  have hreject : ∀ {α : Type} {code : ErrorCode} {message : String} {details : Dict},
      (Service.reject code message details : Service α).Orderly b :=
        orderly_of_looks Ask.looks_reject
  have hchecked : ∀ u, (checked u).Orderly b := fun _ =>
    orderly_ite (orderly_bind hreject hsettle) (hsettle ())
  have hgiven : ∀ u, (given u).Orderly b := fun _ =>
    orderly_ite (orderly_bind hreject hchecked) (hchecked ())
  split
  · exact orderly_bind hreject hgiven
  · exact hgiven ()

theorem orderly_withOriginal {find : Service OperationRecord}
    {run : OperationRecord → Service Payload} (hfind : find.Asks (Ask.Looks true))
    (hrun : ∀ record, (run record).Orderly b) : (withOriginal caller o s find run).Orderly b := by
  refine orderly_bind (orderly_of_looks (Ask.looks_of_reads Ask.reads_startBridge)) fun _ =>
    orderly_bind (orderly_of_looks (Ask.looks_exceptBridge (.map hfind) fun _ =>
      .bind Ask.looks_requestIdOf fun _ => Prog.asks_pure _)) fun found => ?_
  split
  · exact orderly_pure _
  · exact hrun _

/-- The check of an execution before its approval only looks. -/
theorem looks_approvalCheck {call : ToolCall} {x : Execution} (hx : call.execution env = some x) :
    ∀ check, x.approvalCheck = some check → check.Asks Act.Looks := by
  intro check hcheck
  cases call <;> cases hx <;> cases hcheck
  · exact .bind looks_requireSession fun _ => .bind looks_getProject fun _ =>
      .bind looks_resolveCommand fun _ => Prog.asks_pure _
  · exact .bind looks_requireSession fun _ => .bind looks_getProject fun _ =>
      .bind looks_requireMutationPreconditions fun _ => Prog.asks_pure _
  · exact .bind looks_validateExpectedHead fun _ => .bind looks_requireSession fun _ =>
      .bind looks_getProject fun _ => .bind looks_rollbackPreconditions fun _ => Prog.asks_pure _

theorem orderly_operation {call : ToolCall} {x : Execution} (hb : call.adapts = true → b = true)
    (hx : call.execution env = some x) (prepared : Prepared) (o : String) :
    (x.operation prepared o).Orderly b := by
  cases call <;> cases hx <;> refine orderly_carry ?_
  case projectOpen => exact CodemcpBridge.orderly_of_looks looks_projectOpenBody
  case projectStatus => exact CodemcpBridge.orderly_of_looks looks_projectStatusBody
  case fileRead =>
    rw [hb rfl]
    exact orderly_of_reads reads_fileReadBody
  case codeSearch =>
    rw [hb rfl]
    exact orderly_of_reads reads_codeSearchBody
  case fileList => exact CodemcpBridge.orderly_of_looks looks_fileListBody
  case fileEdit => exact orderly_fileEditBody
  case fileCreate => exact orderly_fileCreateBody
  case fileWrite => exact orderly_fileWriteBody
  case fileMove => exact orderly_fileMoveBody
  case fileDelete => exact orderly_fileDeleteBody
  case directoryCreate => exact orderly_directoryCreateBody
  case runCommand => exact orderly_commandBody
  case gitStatus => exact CodemcpBridge.orderly_of_looks looks_gitStatusBody
  case gitDiff => exact CodemcpBridge.orderly_of_looks looks_gitDiffBody
  case checkpointCreate =>
    exact CodemcpBridge.orderly_bind orderly_requireSession fun _ => orderly_createCheckpointBody
  case checkpointRestore => exact orderly_restoreCheckpointBody

/-- **Every call keeps order**, and but for the tools that go to a worker it leaves the workers
alone. -/
theorem orderly_program (settings : PolicySettings) (caller : Caller) (call : ToolCall)
    (hb : call.adapts = true → b = true) : (call.program settings caller).Orderly b := by
  have execution : ∀ {env : Env} {call : ToolCall} {x : Execution},
      (call.adapts = true → b = true) → call.execution env = some x →
      (execute settings caller x).Orderly b := fun hb hx =>
    orderly_execute (looks_approvalCheck hx) (orderly_operation hb hx)
  have lifecycle : ∀ {original : OperationRecord} {s : String} {kind : OperationKind}
      {input : Dict} {key : RequestKey} {body : Service Outcome}, body.Orderly b →
      (execute settings caller (lifecycleExecution original s kind input key body)).Orderly b :=
    fun hbody => orderly_execute (fun check hcheck => by cases hcheck) fun _ _ => hbody
  unfold ToolCall.program
  dsimp only
  split
  · exact orderly_map (orderly_withOriginal Ask.looks_requireOperationForSession fun _ =>
      lifecycle orderly_confirmBody)
  · exact orderly_map (orderly_withOriginal Ask.looks_requireOperationForSession fun _ =>
      lifecycle (orderly_of_looks Ask.looks_cancelBody))
  · exact orderly_map (orderly_withOriginal Ask.looks_requireOperationForReconcile fun _ =>
      lifecycle orderly_reconcileBody)
  · exact orderly_map (orderly_of_looks (Ask.looks_of_reads Ask.reads_operationStatus))
  · exact orderly_map (orderly_of_looks (.bind (Ask.looks_of_reads Ask.reads_startBridge)
      fun _ => Ask.looks_carry looks_refresh))
  · exact orderly_map (orderly_bind (orderly_of_looks (Ask.looks_quiet rfl)) fun _ =>
      orderly_execute (fun check hcheck => by cases hcheck) fun _ _ =>
        orderly_carry (CodemcpBridge.orderly_of_looks looks_projectOpenBody))
  · split
    · exact orderly_map (execution hb ‹_›)
    · exact orderly_pure _

end Service

end Calls

end CodemcpBridge
