import CodemcpBridge.Async.Ledger
import CodemcpBridge.Tools
import CodemcpBridge.Vocabulary

/-!
# Calls that keep order

What a call has to observe by itself: it takes a mutation lock only while it holds none, gives back
what it has taken, and works on a project only while it holds one.  `bodyConduct` says so of the
body of an operation, `callConduct` of the whole call.
-/

namespace CodemcpBridge

open Async

/-! ## The conduct of bodies -/

/-- The locks that the asker holds after an answer. -/
def Quiet.hold : (q : Quiet) → Except Exn q.Result → List String → List String
  | .acquire p, .ok _, held => p :: held
  | .release p, _, held => held.erase p
  | _, _, held => held

/-- Where one who holds the locks, and may go to a worker or not, may ask a question. -/
def Quiet.Fits (adapter : Bool) : Quiet → List String → Prop
  | .acquire _, held => held = []
  | .release p, held => p ∈ held
  | .adapterCall .., _ => adapter = true
  | q, held => q.looks = true ∨ held ≠ []

/-- What a body has to observe; its state is the locks that it holds. -/
def bodyConduct (adapter : Bool) : Conduct Act (fun a => Except Exn a.Result) (List String) where
  legal
    | .quiet q, held => q.Fits adapter held
    | .git _ arguments, held =>
      GitGuard.Looks arguments ∨ (GitGuard.Works arguments ∧ held ≠ [])
    | .command .., held => held ≠ []
  after
    | .quiet q, r, held => q.hold r held
    | .git .., _, held => held
    | .command .., _, held => held

section Answers

variable {adapter : Bool} {q : Quiet} {held : List String}

theorem Quiet.hold_of_works (h : q.works = true) (r : Except Exn q.Result) (held : List String) :
    q.hold r held = held := by
  cases q with
  | acquire p => cases h
  | release p => cases h
  | _ => rfl

theorem Quiet.fits_of_looks (h : q.looks = true) (held : List String) : q.Fits adapter held := by
  cases q with
  | acquire p => cases h
  | release p => cases h
  | adapterCall project subtool => cases h
  | _ => exact .inl h

theorem Quiet.fits_of_works (h : q.works = true) (hh : held ≠ []) : q.Fits adapter held := by
  cases q with
  | acquire p => cases h
  | release p => cases h
  | adapterCall project subtool => cases h
  | _ => exact .inr hh

end Answers

/-- The body keeps order: it starts and ends without a lock, and leaves the workers alone unless it
may go to them. -/
def Body.Orderly {α : Type} (adapter : Bool) (x : Body α) : Prop :=
  x.wp (bodyConduct adapter).rules (fun _ held => held = []) []

section Bodies

variable {α β : Type} {b : Bool} {x : Body α} {f : α → Body β} {p s o : String}

theorem orderly_of_looks (hx : x.Asks Act.Looks) : x.Orderly b :=
  Conduct.wp_of_asks hx fun a ha => by
    cases a with
    | quiet q =>
      exact ⟨q.fits_of_looks ha [], fun r => q.hold_of_works (Quiet.works_of_looks ha) r []⟩
    | git root arguments => exact ⟨.inl ha, fun _ => rfl⟩
    | command project command => exact ha.elim

theorem orderly_of_reads (hx : x.Asks Act.Reads) : x.Orderly true :=
  Conduct.wp_of_asks hx fun a ha => by
    rcases ha with ha | ⟨project, subtool, rfl⟩
    · cases a with
      | quiet q =>
        exact ⟨q.fits_of_looks ha [], fun r => q.hold_of_works (Quiet.works_of_looks ha) r []⟩
      | git root arguments => exact ⟨.inl ha, fun _ => rfl⟩
      | command project command => exact ha.elim
    · exact ⟨rfl, fun _ => rfl⟩

/-- Under a lock a body may work. -/
theorem keeps_of_works {held : List String} (hh : held ≠ []) (hx : x.Asks Act.Works) :
    x.wp (bodyConduct b).rules (fun _ held' => held' = held) held :=
  Conduct.wp_of_asks hx fun a ha => by
    cases a with
    | quiet q => exact ⟨q.fits_of_works ha hh, fun r => q.hold_of_works ha r held⟩
    | git root arguments =>
      refine ⟨?_, fun _ => rfl⟩
      rcases ha with ha | ha
      · exact .inl ha
      · exact .inr ⟨ha, hh⟩
    | command project command => exact ⟨hh, fun _ => rfl⟩

theorem orderly_bind (hx : x.Orderly b) (hf : ∀ a, (f a).Orderly b) : (x >>= f).Orderly b :=
  Prog.wp_bind_of hx
    (fun a held hheld => by
      subst hheld
      exact hf a)
    fun _ _ hheld => hheld

theorem orderly_ite {c : Prop} [Decidable c] {y : Body α} (hx : x.Orderly b) (hy : y.Orderly b) :
    (if c then x else y).Orderly b := by
  split_ifs
  · exact hx
  · exact hy

theorem orderly_pure (a : α) : (pure a : Body α).Orderly b := rfl

theorem orderly_reject {code : ErrorCode} {message : String} {details : Dict} {status : Status}
    {retryable : Bool} :
    (Body.reject code message details status retryable : Body α).Orderly b := rfl

theorem orderly_check {c : Prop} [Decidable c] {code : ErrorCode} {message : String}
    {details : Dict} {status : Status} {retryable : Bool} {f : Unit → Body α}
    (hf : ∀ u, (f u).Orderly b) :
    (if c then Body.reject code message details status retryable >>= f else f ()).Orderly b :=
  orderly_ite (orderly_bind orderly_reject hf) (hf ())

/-- `async with` gives the lock back however its block ends. -/
theorem orderly_withLock (hx : x.Asks Act.Works) : (withLock p x).Orderly b := by
  refine Prog.wp_bind (Conduct.wp_ask_iff.2 ⟨rfl, fun r => ?_⟩)
  cases r with
  | error e =>
    refine ⟨fun a ha => ?_, fun _ _ => rfl⟩
    cases ha
  | ok u =>
    refine ⟨fun _ _ => Prog.wp_ensuring (Prog.wp_mono (fun r held hheld => ?_)
      (keeps_of_works (List.cons_ne_nil p []) hx)), fun e he => ?_⟩
    · subst hheld
      have hempty : [p].erase p = [] := List.erase_cons_head p []
      exact Conduct.wp_ask_iff.2 ⟨List.mem_cons_self, fun r =>
        ⟨fun _ => hempty, fun _ _ => hempty⟩⟩
    · cases he

/-! ### The bodies of the mutations -/

variable {env : Env} {project : ProjectSpec} {path description : String}

theorem orderly_requireSession {session : Option String} {principal : Option AuthContext} :
    (requireSession principal p session).Orderly b := orderly_of_looks looks_requireSession

theorem orderly_quiet {q : Quiet} (h : q.looks = true) : (Body.quiet q).Orderly b :=
  orderly_of_looks (looks_quiet h)

theorem orderly_requireDescription : (requireDescription description).Orderly b :=
  orderly_ite orderly_reject (orderly_pure _)

theorem orderly_requireSize {settings : PolicySettings} {name value : String} :
    (requireSize settings name value).Orderly b := orderly_ite orderly_reject (orderly_pure _)

theorem orderly_requireNoNul {content : String} : (requireNoNul content).Orderly b :=
  orderly_ite orderly_reject (orderly_pure _)

theorem works_decodeText {raw : ByteArray} : (decodeText raw path).Asks Act.Works := by
  unfold decodeText
  split
  · exact Prog.asks_pure _
  · exact asks_reject

theorem works_replaceExactText {raw : ByteArray} {old new : String} :
    (replaceExactText raw path old new).Asks Act.Works :=
  .bind works_decodeText fun _ => asks_check fun _ => asks_check fun _ => Prog.asks_pure _

theorem works_requireTracked {checkpoint : CheckpointRecord} {message : String} :
    (requireTracked checkpoint path message).Asks Act.Works :=
  .bind (Prog.asks_lift _) fun _ => Prog.asks_ite asks_reject (Prog.asks_pure _)

theorem orderly_fileEditBody {old new : String} :
    (fileEditBody env p s path old new description o).Orderly b :=
  orderly_bind orderly_requireSession fun _ => orderly_bind orderly_requireDescription fun _ =>
    orderly_bind orderly_requireSize fun _ => orderly_bind orderly_requireSize fun _ =>
    orderly_bind (orderly_quiet rfl) fun _ =>
    orderly_bind (orderly_of_looks looks_requireReadable) fun _ =>
    orderly_bind (orderly_withLock <| .bind works_beginMutation fun _ =>
      .bind (works_of_looks looks_requireReadable) fun _ =>
      .bind (works_of_looks looks_readFile) fun _ => .bind works_replaceExactText fun _ =>
      asks_check fun _ => .bind works_commitFileBytes fun _ => .bind works_finishMutation fun _ =>
      Prog.asks_pure _) fun _ => orderly_pure _

theorem orderly_fileCreateBody {content : String} :
    (fileCreateBody env p s path content description o).Orderly b :=
  orderly_bind orderly_requireSession fun _ => orderly_bind orderly_requireDescription fun _ =>
    orderly_bind orderly_requireSize fun _ => orderly_bind orderly_requireNoNul fun _ =>
    orderly_bind (orderly_quiet rfl) fun _ =>
    orderly_bind (orderly_of_looks looks_requireDirectory) fun _ =>
    orderly_bind (orderly_withLock <| .bind (works_of_looks looks_requireAbsent) fun _ =>
      .bind works_beginMutation fun _ => .bind (works_of_looks looks_requireAbsent) fun _ =>
      .bind works_commitFileBytes fun _ => .bind works_finishMutation fun _ =>
      Prog.asks_pure _) fun _ => orderly_pure _

theorem orderly_fileWriteBody {content : String} {expected : HashText} :
    (fileWriteBody env p s path content expected description o).Orderly b := by
  refine orderly_bind orderly_requireSession fun _ =>
    orderly_bind orderly_requireDescription fun _ => ?_
  extract_lets go
  have hgo : ∀ u, (go u).Orderly b := fun _ =>
    orderly_bind orderly_requireSize fun _ => orderly_bind orderly_requireNoNul fun _ =>
    orderly_bind (orderly_quiet rfl) fun _ =>
    orderly_bind (orderly_of_looks looks_requireReadable) fun _ =>
    orderly_bind (orderly_withLock <| .bind works_beginMutation fun _ =>
      .bind (works_of_looks looks_requireReadable) fun _ =>
      .bind (works_of_looks looks_readFile) fun _ => asks_check fun _ =>
      .bind (.bind works_decodeText fun _ => Prog.asks_pure _) fun _ => asks_check fun _ =>
      .bind works_commitFileBytes fun _ => .bind works_finishMutation fun _ =>
      Prog.asks_pure _) fun _ => orderly_pure _
  cases expected with
  | malformed text => exact orderly_bind orderly_reject hgo
  | hex digest => exact hgo ()

theorem orderly_fileMoveBody {destination : String} :
    (fileMoveBody env p s path destination description o).Orderly b :=
  orderly_bind orderly_requireSession fun _ => orderly_bind orderly_requireDescription fun _ =>
    orderly_bind (orderly_quiet rfl) fun _ => orderly_bind (orderly_quiet rfl) fun _ =>
    orderly_check fun _ => orderly_bind (orderly_of_looks looks_requireRegularFile) fun _ =>
    orderly_bind (orderly_of_looks looks_requireDirectory) fun _ =>
    orderly_bind (orderly_withLock <| .bind (works_of_looks looks_requireAbsent) fun _ =>
      .bind works_beginMutation fun _ => .bind works_requireTracked fun _ =>
      .bind (works_quiet rfl) fun _ => .bind (works_quiet rfl) fun _ =>
      .bind (works_of_looks looks_requireRegularFile) fun _ =>
      .bind (works_of_looks looks_requireDirectory) fun _ =>
      .bind (works_of_looks looks_requireAbsent) fun _ => .bind works_moveTrackedFile fun _ =>
      .bind works_finishMutation fun _ => Prog.asks_pure _) fun _ => orderly_pure _

theorem orderly_fileDeleteBody : (fileDeleteBody env p s path description o).Orderly b :=
  orderly_bind orderly_requireSession fun _ => orderly_bind orderly_requireDescription fun _ =>
    orderly_bind (orderly_quiet rfl) fun _ =>
    orderly_bind (orderly_of_looks looks_requireRegularFile) fun _ =>
    orderly_bind (orderly_withLock <| .bind works_beginMutation fun _ =>
      .bind works_requireTracked fun _ => .bind (works_quiet rfl) fun _ =>
      .bind (works_of_looks looks_requireRegularFile) fun _ =>
      .bind works_deleteTrackedFile fun _ => .bind works_finishMutation fun _ =>
      Prog.asks_pure _) fun _ => orderly_pure _

theorem works_removeDirectory {target marker : String} :
    (removeDirectory target marker).Asks Act.Works :=
  .bind (works_quiet rfl) fun _ => Prog.asks_ite (Prog.asks_pure _) (.attempt (works_quiet rfl))

theorem orderly_directoryCreateBody :
    (directoryCreateBody env p s path description o).Orderly b := by
  refine orderly_bind orderly_requireSession fun _ =>
    orderly_bind orderly_requireDescription fun _ => orderly_bind (orderly_quiet rfl) fun _ =>
    orderly_bind (orderly_of_looks looks_requireDirectory) fun _ =>
    orderly_bind (orderly_withLock <| .bind (works_of_looks looks_requireAbsent) fun _ =>
      .bind works_beginMutation fun _ => .bind (works_of_looks looks_requireAbsent) fun _ =>
      .bind (.handle (works_quiet rfl) fun e y he => ?_) fun _ => .bind (works_quiet rfl) fun _ =>
      .bind (.handle works_commitFileBytes fun e y he => ?_) fun _ =>
      .bind works_finishMutation fun _ => Prog.asks_pure _) fun _ => orderly_pure _
  · split_ifs at he <;> cases he <;> exact asks_reject
  · cases he
    refine .bind works_removeDirectory fun removed => ?_
    cases removed with
    | ok _ => exact Prog.asks_raise _
    | error cleanup =>
      exact Prog.asks_ite (Prog.asks_raise _) (Prog.asks_ite (Prog.asks_raise _) asks_reject)

theorem orderly_lift (r : Except Exn α) : Body.Orderly b (Prog.lift r : Body α) := rfl

theorem orderly_getProject : (getProject p).Orderly b := orderly_of_looks looks_getProject

theorem orderly_runCommandBody {command : CommandSpec} :
    (runCommandBody env project command s o).Orderly b :=
  orderly_bind (orderly_withLock <| .bind works_beginMutation fun _ =>
    .bind (Prog.asks_ask trivial) fun _ => .bind (works_of_looks looks_status) fun _ =>
    asks_check fun _ => asks_check fun _ => .bind works_finishMutation fun _ =>
    Prog.asks_pure _) fun _ => orderly_pure _

theorem orderly_commandBody {commandId : String} {kind : Option CommandTool}
    {prepared : Prepared} : (commandBody env p s commandId kind prepared o).Orderly b := by
  refine orderly_bind orderly_requireSession fun _ => ?_
  cases prepared with
  | some found => exact orderly_runCommandBody
  | none =>
    exact orderly_bind orderly_getProject fun _ =>
      orderly_bind (orderly_of_looks looks_resolveCommand) fun _ => orderly_runCommandBody

theorem orderly_createCheckpointBody : (createCheckpointBody p s o).Orderly b :=
  orderly_bind orderly_getProject fun _ => orderly_bind (orderly_withLock works_create) fun _ =>
    orderly_bind (orderly_lift _) fun _ => orderly_pure _

theorem orderly_restoreCheckpointBody {c head : String} :
    (restoreCheckpointBody env p s c head o).Orderly b :=
  orderly_bind (orderly_of_looks looks_validateExpectedHead) fun _ =>
    orderly_bind orderly_requireSession fun _ => orderly_bind orderly_getProject fun _ =>
    orderly_bind (orderly_withLock <| .bind (works_of_looks looks_rollbackPreconditions) fun _ =>
      .bind works_create fun _ =>
      .bind (asks_exceptBridge works_resetToCheckpoint fun _ => asks_reject) fun _ =>
      .bind (asks_exceptBridge (.bind (works_of_looks looks_snapshot) fun _ => asks_check fun _ =>
        works_finalize) fun _ => Prog.asks_ite (Prog.asks_raise _) asks_reject) fun _ =>
      .bind works_store fun _ => Prog.asks_pure _) fun _ =>
    orderly_bind (orderly_lift _) fun _ => orderly_bind (orderly_lift _) fun _ => orderly_pure _

theorem orderly_runApprovedOperation {record : OperationRecord} :
    (runApprovedOperation env record).Orderly b := by
  have command : (runCommandForOperation env record).Orderly b := by
    unfold runCommandForOperation
    split
    · exact orderly_reject
    · refine orderly_bind orderly_getProject fun project => ?_
      extract_lets run
      have hrun : ∀ c, (run c).Orderly b := fun _ => by
        dsimp only [run]
        split
        · exact orderly_reject
        · exact orderly_runCommandBody
      split
      · exact orderly_bind (orderly_of_looks looks_commandOfKind) hrun
      · exact orderly_ite (orderly_bind (orderly_of_looks looks_registeredCommand) hrun)
          (orderly_bind orderly_reject hrun)
      · exact orderly_ite (orderly_bind (orderly_of_looks looks_registeredCommand) hrun)
          (orderly_bind orderly_reject hrun)
      · exact orderly_bind orderly_reject hrun
  unfold runApprovedOperation
  split
  · split
    · exact orderly_reject
    · exact orderly_createCheckpointBody
  · split
    · exact orderly_reject
    · split
      · exact orderly_restoreCheckpointBody
      · exact orderly_reject
  · exact command

end Bodies

end CodemcpBridge
