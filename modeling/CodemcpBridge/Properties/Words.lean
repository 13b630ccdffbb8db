import CodemcpBridge.Discipline.Conduct
import CodemcpBridge.Properties.OneTime

/-!
# What the Bridge runs

Every subprocess that a call starts by itself is a Git command of the Bridge's own vocabulary or a
registered command that has been resolved before; everything that changes a project is done under a
mutation lock; and the reading tools do none of it.  Two of these go to the codemcp worker of a
project, which the adapter starts where none is running.
-/

namespace CodemcpBridge

open Async Service

/-! ## Calls that only look -/

/-- The tools that only look at a project, and the health route. -/
def ToolCall.reads : ToolCall → Bool
  | projectOpen _ | projectStatus .. | fileRead .. | codeSearch .. | fileList .. | gitStatus ..
  | gitDiff .. | operationStatus .. | health => true
  | _ => false

section Reads

variable {env : Env} {call : ToolCall} {x : Execution}

theorem reads_operation (hreads : call.reads = true) (hx : call.execution env = some x)
    (prepared : Prepared) (o : String) : (x.operation prepared o).Asks (Ask.Reads call.adapts) := by
  cases call <;> cases hreads <;> cases hx
  case projectOpen => exact Ask.reads_of_looks (Ask.looks_carry looks_projectOpenBody)
  case projectStatus => exact Ask.reads_of_looks (Ask.looks_carry looks_projectStatusBody)
  case fileRead => exact Ask.reads_carry reads_fileReadBody
  case codeSearch => exact Ask.reads_carry reads_codeSearchBody
  case fileList => exact Ask.reads_of_looks (Ask.looks_carry looks_fileListBody)
  case gitStatus => exact Ask.reads_of_looks (Ask.looks_carry looks_gitStatusBody)
  case gitDiff => exact Ask.reads_of_looks (Ask.looks_carry looks_gitDiffBody)

theorem mutation_of_reads (hreads : call.reads = true) (hx : call.execution env = some x) :
    x.mutation = false ∧ x.approvalCheck = none := by
  cases call <;> cases hreads <;> cases hx <;> exact ⟨rfl, rfl⟩

end Reads

/-- **A reading tool only looks.**  Whatever a call of one is answered, it asks for nothing that
changes a file, a checkpoint, a lock or an approval, creates no mutation, and starts no subprocess
but the Git commands that look at a project.  It does more in two places: it may have the recovery
after a restart carried out, and the two tools that go to the codemcp worker of a project call the
adapter. -/
theorem reads_look (settings : PolicySettings) (caller : Caller) (call : ToolCall)
    (hreads : call.reads = true) :
    (call.program settings caller).Asks (Ask.Reads call.adapts) := by
  have execution : ∀ {env : Env} {call : ToolCall} {x : Execution}, call.reads = true →
      call.execution env = some x → (execute settings caller x).Asks (Ask.Reads call.adapts) :=
    fun hr hx => by
      obtain ⟨hm, hc⟩ := mutation_of_reads hr hx
      exact Ask.reads_execute hm hc (reads_operation hr hx)
  unfold ToolCall.program
  dsimp only
  split
  · cases hreads
  · cases hreads
  · cases hreads
  · exact .map Ask.reads_operationStatus
  · exact .map (.bind Ask.reads_startBridge fun _ =>
      Ask.reads_of_looks (Ask.looks_carry looks_refresh))
  · exact .map (.bind (Ask.reads_of_looks (Ask.looks_quiet rfl)) fun _ =>
      Ask.reads_execute rfl rfl fun _ _ =>
        Ask.reads_of_looks (Ask.looks_carry looks_projectOpenBody))
  · split
    · exact .map (execution hreads ‹_›)
    · exact Prog.asks_pure _

theorem reads_look_search : ((ToolCall.codeSearch "p" "s" "pattern" none none).program {} {}).Asks
    (Ask.Reads true) ∧
    ((ToolCall.gitDiff "p" "s" none).program {} {}).Asks (Ask.Reads false) :=
  ⟨reads_look {} {} (.codeSearch "p" "s" "pattern" none none) rfl,
    reads_look {} {} (.gitDiff "p" "s" none) rfl⟩

/-! ## What is run, and under which locks -/

/-- The locks that a call holds when its questions have been answered so far. -/
def locksHeld (answered : List (Σ q : Ask, Except Exn q.Result)) : List String :=
  ((callConduct true).state {} answered).held

/-- What a call has been told, an answer has told it. -/
theorem told_state {b : Bool} {i : Invocation} :
    ∀ {answered : List (Σ q : Ask, Except Exn q.Result)}
    {h : Hands}, i ∈ ((callConduct b).state h answered).told → i ∈ h.told ∨
      ∃ p c, (⟨.invocation p c, .ok i⟩ : Σ q : Ask, Except Exn q.Result) ∈ answered := by
  intro answered
  induction answered with
  | nil => exact fun hi => .inl hi
  | cons qa answered ih =>
    intro h hi
    rcases ih (h := (callConduct b).after qa.1 qa.2 h) hi with hi | ⟨p, c, hmem⟩
    · obtain ⟨q, a⟩ := qa
      cases q with
      | invocation p c =>
        cases a with
        | ok j =>
          rcases List.mem_cons.1 hi with rfl | hi
          · exact .inr ⟨p, c, List.mem_cons_self⟩
          · exact .inl hi
        | error e => exact .inl hi
      | _ => exact .inl hi
    · exact .inr ⟨p, c, List.mem_cons_of_mem _ hmem⟩

/-- **What a call runs and what it works under.**  However the questions of a call are answered,
each subprocess that it starts by itself is a Git command that looks at a project, or it is started
under a mutation lock and is a Git command that works on one or the invocation of a registered
command that the call has resolved before; and every other question of it that changes a file or a
checkpoint is asked under a mutation lock.  Only a call of one of two tools goes to the codemcp
worker of a project, for which it needs no lock. -/
theorem works_under_lock (settings : PolicySettings) (caller : Caller) (call : ToolCall)
    {answered : List (Σ q : Ask, Except Exn q.Result)}
    {rest : Task Ask (fun q => Except Exn q.Result) (Except Exn (Option Payload))}
    (h : (call.program settings caller).task.Heard answered rest)
    {before after : List (Σ q : Ask, Except Exn q.Result)} {q : Ask} {a : Except Exn q.Result}
    (hl : answered = before ++ ⟨q, a⟩ :: after) :
    (∀ i, q = .spawn i → (i.executable = "git" ∧ GitGuard.Looks i.arguments) ∨
      (locksHeld before ≠ [] ∧ ((i.executable = "git" ∧ GitGuard.Works i.arguments) ∨
        ∃ p c, (⟨.invocation p c, .ok i⟩ : Σ q : Ask, Except Exn q.Result) ∈ before))) ∧
    (∀ q', q = .quiet q' → q'.works = true → q'.looks = true ∨ locksHeld before ≠ []) ∧
    ∀ project subtool, q = .quiet (.adapterCall project subtool) → call.adapts = true := by
  have hlegal : (callConduct call.adapts).legal q ((callConduct call.adapts).state {} before) :=
    Conduct.legal_heard h hl (Service.orderly_program settings caller call id {} rfl)
  refine ⟨?_, ?_, ?_⟩
  · rintro i rfl
    rcases hlegal with hlooks | ⟨hheld, hworks | htold⟩
    · exact .inl hlooks
    · exact .inr ⟨hheld, .inl hworks⟩
    · rcases told_state htold with hnone | hmem
      · exact absurd hnone List.not_mem_nil
      · exact .inr ⟨hheld, .inr hmem⟩
  · rintro q rfl hq
    have hfits : q.Fits call.adapts (locksHeld before) := hlegal
    cases q with
    | acquire p => cases hq
    | release p => cases hq
    | adapterCall project subtool => cases hq
    | _ => exact hfits
  · rintro project subtool rfl
    exact hlegal

/-- Surroundings in which a tracked file of the sample project can be deleted: a Git process is
known by what it has been asked. -/
def obliging : (q : Ask) → Except Exn q.Result
  | .started => .ok true
  | .operation (.create o p s w k h n m i) =>
    .ok ({ operationId := o, projectId := p, sessionId := s, ownerId := w, replayKey := k
           requestHash := h, kind := n, state := .received, mutation := m, input := i
           createdAt := 0, updatedAt := 0 }, false)
  | .operation (.transition o s _ _ _) =>
    .ok { operationId := o, projectId := "p", sessionId := some "s"
          ownerId := Database.localOwnerId, replayKey := encodeReplayKey none "k"
          requestHash := .null, kind := .fileDelete, state := s, mutation := true, input := []
          createdAt := 0, updatedAt := 0 }
  | .mark _ => .ok ()
  | .quiet .refreshIfChanged => .ok none
  | .quiet .snapshot => .ok [("p", sampleProject)]
  | .quiet (.store (.getOperationByClientRequestId ..)) => .ok none
  | .quiet (.store (.getOperationAuthContext _)) => .ok none
  | .quiet (.store (.getSession s)) =>
    .ok (some { sessionId := s, projectId := "p", ownerId := Database.localOwnerId
                status := .active, createdAt := 0, updatedAt := 0 })
  | .quiet (.store (.getSessionAuthContext _)) => .ok none
  | .spawn i => .ok (if i.arguments = ["rev-parse", "HEAD"] then 1
      else if i.arguments = ["rev-parse", "--abbrev-ref", "HEAD"] then 2 else 0)
  | .communicate handle _ =>
    .ok { returncode := 0, stderr := ByteArray.empty
          stdout := (if handle = 1 then sampleHead else if handle = 2 then "main" else "").toUTF8 }
  | .quiet (.resolved _) => .ok "/p"
  | q => (fair none "" 0 0).answer q

/-- The Git command that creates a ref. -/
def Ask.createsRef : Ask → Bool
  | .spawn i => i.arguments.head? == some "update-ref"
  | _ => false

theorem createsRef_eq {q : Ask} (h : q.createsRef = true) :
    ∃ i, q = .spawn i ∧ i.arguments.head? = some "update-ref" := by
  cases q with
  | spawn i => exact ⟨i, rfl, beq_iff_eq.1 h⟩
  | _ => cases h

theorem works_under_lock_delete : ∃ before i, i.arguments.head? = some "update-ref" ∧
    ((i.executable = "git" ∧ GitGuard.Looks i.arguments) ∨
      (locksHeld before ≠ [] ∧ ((i.executable = "git" ∧ GitGuard.Works i.arguments) ∨
        ∃ p c, (⟨.invocation p c, .ok i⟩ : Σ q : Ask, Except Exn q.Result) ∈ before))) := by
  have check : ((((ToolCall.fileDelete "p" "s" "f" "gone" (keyFor "k" [("path", .str "f"),
      ("description", .str "gone")])).program {} {}).task.hear obliging 80).1.any
        fun qa => qa.1.createsRef) = true := by
    decide +kernel
  obtain ⟨⟨q, a⟩, hmem, hcreates⟩ := List.any_eq_true.1 check
  obtain ⟨before, after, hl⟩ := List.append_of_mem hmem
  obtain ⟨i, hi, hhead⟩ := createsRef_eq hcreates
  exact ⟨before, i, hhead, (works_under_lock _ _ _ (Task.heard_hear obliging 80 _) hl).1 i hi⟩

end CodemcpBridge
