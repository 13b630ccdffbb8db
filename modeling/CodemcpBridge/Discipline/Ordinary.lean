import CodemcpBridge.Idle
import CodemcpBridge.Tools

/-!
# Bodies that run no registered command

Only one body has a registered command run; every other body asks for Git steps and quiet acts
alone, whatever it is answered.
-/

namespace CodemcpBridge

open Async Body

/-- An act other than the run of a registered command. -/
def Act.Ordinary : Act → Prop
  | command .. => False
  | _ => True

variable {α : Type} {x : Body α}

theorem ordinary_of_idle (h : x.Asks Act.Idle) : x.Asks Act.Ordinary :=
  h.mono fun a ha => by
    cases a with
    | command p c => exact ha.elim
    | _ => trivial

theorem ordinary_of_passive (h : x.Asks Act.Passive) : x.Asks Act.Ordinary :=
  ordinary_of_idle (idle_of_passive h)

theorem ordinary_quiet {q : Quiet} : (quiet q).Asks Act.Ordinary := Prog.asks_ask trivial

theorem ordinary_store {c : StoreCall} : (store c).Asks Act.Ordinary := Prog.asks_ask trivial

theorem ordinary_run {root : String} {arguments : List String} :
    (GitGuard.run root arguments).Asks Act.Ordinary := Prog.asks_ask trivial

theorem ordinary_withLock {p : String} (hx : x.Asks Act.Ordinary) :
    (withLock p x).Asks Act.Ordinary :=
  .bind ordinary_quiet fun _ => .ensuring hx ordinary_quiet

/-! ## Git -/

section Git

open GitGuard

variable {root ref head : String}

theorem ordinary_commitAndVerify {arguments : List String} {mode : CommitMode}
    {branch : Option String} {message : String} :
    (commitAndVerify root arguments mode head branch message).Asks Act.Ordinary :=
  asks_commitAndVerify (ordinary_of_idle idle_status)
    (asks_verifyAmendTarget (ordinary_of_idle idle_status) fun _ => trivial) trivial

theorem ordinary_commitFileBytes {path description : String} {content : ByteArray}
    {b : Option Bool} {mode : Option CommitMode} {s branch : Option String} :
    (commitFileBytes root path content head description b mode s branch).Asks Act.Ordinary := by
  refine .bind asks_requireHead fun _ => .bind asks_fileCommitArguments fun arguments =>
    .bind (ordinary_of_idle idle_requireBaseline) fun before => ?_
  extract_lets target add finish write compare start absent
  have hadd : ∀ u, (add u).Asks Act.Ordinary := fun _ =>
    .bind ordinary_run fun _ => ordinary_commitAndVerify
  have hfinish : finish.Asks Act.Ordinary :=
    .bind (ordinary_of_idle idle_status) fun _ => .bind asks_requireIsolated fun _ =>
      Prog.asks_ite (Prog.asks_pure _) (asks_check hadd)
  have hwrite : ∀ same, (write same).Asks Act.Ordinary := fun _ =>
    Prog.asks_ite (Prog.asks_pure _) (.bind (asks_writeFile fun _ => trivial) fun _ =>
      asks_exceptBridge hfinish fun _ => asks_reject)
  have hcompare : ∀ u, (compare u).Asks Act.Ordinary := fun _ =>
    .bind ordinary_quiet fun _ => Prog.asks_ite
      (.bind (asks_orReject ordinary_quiet) fun _ => .bind (Prog.asks_pure _) hwrite)
      (.bind (Prog.asks_pure _) hwrite)
  have hstart : ∀ u, (start u).Asks Act.Ordinary := fun _ =>
    .bind ordinary_quiet fun _ => Prog.asks_ite
      (.bind ordinary_quiet fun _ => asks_check hcompare) (hcompare ())
  have habsent : ∀ u, (absent u).Asks Act.Ordinary := fun _ =>
    Prog.asks_ite (.bind ordinary_quiet fun _ => asks_check hstart) (hstart ())
  exact Prog.asks_ite (.bind ordinary_quiet fun _ => asks_check habsent) (habsent ())

theorem ordinary_moveTrackedFile {source destination description s : String} {mode : CommitMode}
    {branch : Option String} :
    (moveTrackedFile root source destination head description mode s branch).Asks Act.Ordinary :=
  .bind asks_requireHead fun _ => .bind asks_commitArguments fun _ =>
    .bind (ordinary_of_idle idle_requireBaseline) fun _ =>
    .bind (asks_exceptBridge ordinary_run fun _ => asks_reject) fun _ =>
    asks_exceptBridge (.bind (ordinary_of_idle idle_status) fun _ =>
      .bind asks_requireIsolated fun _ => ordinary_commitAndVerify) fun _ => asks_reject

theorem ordinary_deleteTrackedFile {path description s : String} {mode : CommitMode}
    {branch : Option String} :
    (deleteTrackedFile root path head description mode s branch).Asks Act.Ordinary :=
  .bind asks_requireHead fun _ => .bind asks_commitArguments fun _ =>
    .bind (ordinary_of_idle idle_requireBaseline) fun _ =>
    .bind (asks_exceptBridge ordinary_run fun _ => asks_reject) fun _ =>
    asks_exceptBridge (.bind (ordinary_of_idle idle_status) fun _ =>
      .bind asks_requireIsolated fun _ => ordinary_commitAndVerify) fun _ => asks_reject

theorem ordinary_resetToCheckpoint : (resetToCheckpoint root ref).Asks Act.Ordinary :=
  .bind (ordinary_of_passive passive_requireCheckpointRef) fun _ => .bind ordinary_run fun _ =>
    Prog.asks_pure _

end Git

/-! ## The policy -/

section Policy

variable {settings : PolicySettings} {project : ProjectSpec} {principal : Option AuthContext}
  {p path : String} {session : Option String}

theorem ordinary_getProject : (getProject p).Asks Act.Ordinary :=
  ordinary_of_passive passive_getProject

theorem ordinary_requireSession : (requireSession principal p session).Asks Act.Ordinary :=
  ordinary_of_passive passive_requireSession

/-- The act is a look at `codemcp.toml`. -/
def Act.Verifies : Act → Prop
  | .quiet (.lstatConfig _) | .quiet (.canGenerateConfig _) | .quiet (.configuredArgv ..) => True
  | _ => False

theorem verifies_verifyCodemcpCommand {command : CommandSpec} :
    (verifyCodemcpCommand project command).Asks Act.Verifies := by
  refine .bind (.attempt (Prog.asks_ask trivial)) fun generated => ?_
  extract_lets rejected compare
  have hcompare : ∀ b, (compare b).Asks Act.Verifies := fun _ =>
    Prog.asks_ite (.bind (.handle (Prog.asks_ask trivial) fun e y he => by
      split_ifs at he
      cases he
      exact .bind asks_reject fun _ => Prog.asks_pure _) fun _ =>
        Prog.asks_ite asks_reject (Prog.asks_pure _)) (Prog.asks_pure _)
  split
  · exact .bind (Prog.asks_ask trivial) hcompare
  · exact Prog.asks_ite (.bind (Prog.asks_pure _) hcompare)
      (.bind (Prog.asks_raise _) hcompare)
  · exact .bind (Prog.asks_pure _) hcompare

theorem verifies_allowedCommand {command : CommandSpec} :
    (allowedCommand project command).Asks Act.Verifies :=
  .bind verifies_verifyCodemcpCommand fun _ => Prog.asks_pure _

theorem verifies_registeredCommand {commandId : String} :
    (registeredCommand settings project commandId).Asks Act.Verifies := by
  refine Prog.asks_ite (.bind asks_reject fun _ => ?_) ?_
  all_goals
    split
    · exact asks_reject
    · exact verifies_allowedCommand

theorem verifies_commandOfKind {commandId kind : String} :
    (commandOfKind settings project commandId kind).Asks Act.Verifies := by
  refine Prog.asks_ite (.bind asks_reject fun _ => ?_) ?_
  all_goals
    split
    · exact asks_reject
    · exact verifies_allowedCommand

theorem verifies_resolveCommand {env : Env} {commandId : String} {kind : Option String} :
    (resolveCommand env project commandId kind).Asks Act.Verifies := by
  cases kind with
  | none => exact verifies_registeredCommand
  | some kind => exact verifies_commandOfKind

theorem Act.Verifies.ordinary : ∀ {a : Act}, a.Verifies → a.Ordinary
  | .quiet _, _ => trivial
  | .git .., h => h.elim
  | .command .., h => h.elim

theorem ordinary_resolveCommand {env : Env} {commandId : String} {kind : Option String} :
    (resolveCommand env project commandId kind).Asks Act.Ordinary :=
  verifies_resolveCommand.mono fun _ h => h.ordinary

end Policy

/-! ## Checkpoints -/

section Checkpoints

open Checkpoints

variable {settings : PolicySettings} {project : ProjectSpec} {checkpoint : CheckpointRecord}
  {s o head branch : String}

theorem ordinary_verifyRef : (verifyRef project checkpoint).Asks Act.Ordinary :=
  ordinary_of_passive passive_verifyRef

theorem ordinary_getForSession {c p : String} : (getForSession c p s).Asks Act.Ordinary :=
  ordinary_of_passive passive_getForSession

end Checkpoints

/-! ## Mutations -/

section Mutations

variable {env : Env} {project : ProjectSpec} {p s path description o : String}

theorem ordinary_requireDescription : (requireDescription description).Asks Act.Ordinary :=
  Prog.asks_ite asks_reject (Prog.asks_pure _)

theorem ordinary_requireSize {settings : PolicySettings} {name value : String} :
    (requireSize settings name value).Asks Act.Ordinary :=
  Prog.asks_ite asks_reject (Prog.asks_pure _)

theorem ordinary_requireNoNul {content : String} : (requireNoNul content).Asks Act.Ordinary :=
  Prog.asks_ite asks_reject (Prog.asks_pure _)

theorem ordinary_readFile : (readFile path).Asks Act.Ordinary := asks_orReject ordinary_quiet

theorem ordinary_requireDirectory {message normalized : String} :
    (requireDirectory path message normalized).Asks Act.Ordinary :=
  .bind ordinary_quiet fun _ => Prog.asks_ite asks_reject <| .bind ordinary_quiet fun _ =>
    Prog.asks_ite asks_reject (Prog.asks_pure _)

theorem ordinary_requireAbsent {message normalized : String} :
    (requireAbsent path message normalized).Asks Act.Ordinary :=
  .bind ordinary_quiet fun _ => Prog.asks_ite asks_reject (Prog.asks_pure _)

theorem ordinary_decodeText {raw : ByteArray} : (decodeText raw path).Asks Act.Ordinary := by
  unfold decodeText
  split
  · exact Prog.asks_pure _
  · exact asks_reject

theorem ordinary_replaceExactText {raw : ByteArray} {old new : String} :
    (replaceExactText raw path old new).Asks Act.Ordinary :=
  .bind ordinary_decodeText fun _ => asks_check fun _ => asks_check fun _ =>
    Prog.asks_pure _

theorem ordinary_fileEditBody {old new : String} :
    (fileEditBody env p s path old new description o).Asks Act.Ordinary :=
  .bind ordinary_requireSession fun _ => .bind ordinary_requireDescription fun _ =>
    .bind ordinary_requireSize fun _ => .bind ordinary_requireSize fun _ =>
    .bind ordinary_quiet fun _ => .bind (ordinary_of_idle idle_requireReadable) fun _ =>
    .bind (ordinary_withLock <| .bind (ordinary_of_idle idle_beginMutation) fun _ =>
      .bind (ordinary_of_idle idle_requireReadable) fun _ => .bind ordinary_readFile fun _ =>
      .bind ordinary_replaceExactText fun _ => asks_check fun _ =>
      .bind ordinary_commitFileBytes fun _ => .bind (ordinary_of_idle idle_finishMutation) fun _ =>
      Prog.asks_pure _) fun _ => Prog.asks_pure _

theorem ordinary_fileCreateBody {content : String} :
    (fileCreateBody env p s path content description o).Asks Act.Ordinary :=
  .bind ordinary_requireSession fun _ => .bind ordinary_requireDescription fun _ =>
    .bind ordinary_requireSize fun _ => .bind ordinary_requireNoNul fun _ =>
    .bind ordinary_quiet fun _ => .bind ordinary_requireDirectory fun _ =>
    .bind (ordinary_withLock <| .bind ordinary_requireAbsent fun _ =>
      .bind (ordinary_of_idle idle_beginMutation) fun _ => .bind ordinary_requireAbsent fun _ =>
      .bind ordinary_commitFileBytes fun _ => .bind (ordinary_of_idle idle_finishMutation) fun _ =>
      Prog.asks_pure _) fun _ => Prog.asks_pure _

theorem ordinary_fileWriteBody {content : String} {expected : HashText} :
    (fileWriteBody env p s path content expected description o).Asks Act.Ordinary := by
  refine .bind ordinary_requireSession fun _ => .bind ordinary_requireDescription fun _ => ?_
  extract_lets go
  have hgo : ∀ u, (go u).Asks Act.Ordinary := fun _ =>
    .bind ordinary_requireSize fun _ => .bind ordinary_requireNoNul fun _ =>
    .bind ordinary_quiet fun _ => .bind (ordinary_of_idle idle_requireReadable) fun _ =>
    .bind (ordinary_withLock <| .bind (ordinary_of_idle idle_beginMutation) fun _ =>
      .bind (ordinary_of_idle idle_requireReadable) fun _ => .bind ordinary_readFile fun _ =>
      asks_check fun _ => .bind (.bind ordinary_decodeText fun _ => Prog.asks_pure _)
      fun _ => asks_check fun _ => .bind ordinary_commitFileBytes fun _ =>
      .bind (ordinary_of_idle idle_finishMutation) fun _ => Prog.asks_pure _) fun _ =>
    Prog.asks_pure _
  cases expected with
  | malformed text => exact .bind asks_reject hgo
  | hex digest => exact hgo ()

theorem ordinary_requireTracked {checkpoint : CheckpointRecord} {message : String} :
    (requireTracked checkpoint path message).Asks Act.Ordinary :=
  .bind (Prog.asks_lift _) fun _ => Prog.asks_ite asks_reject (Prog.asks_pure _)

theorem ordinary_fileMoveBody {destination : String} :
    (fileMoveBody env p s path destination description o).Asks Act.Ordinary :=
  .bind ordinary_requireSession fun _ => .bind ordinary_requireDescription fun _ =>
    .bind ordinary_quiet fun _ => .bind ordinary_quiet fun _ => asks_check fun _ =>
    .bind (ordinary_of_idle idle_requireRegularFile) fun _ =>
    .bind ordinary_requireDirectory fun _ =>
    .bind (ordinary_withLock <| .bind ordinary_requireAbsent fun _ =>
      .bind (ordinary_of_idle idle_beginMutation) fun _ => .bind ordinary_requireTracked fun _ =>
      .bind ordinary_quiet fun _ => .bind ordinary_quiet fun _ =>
      .bind (ordinary_of_idle idle_requireRegularFile) fun _ =>
    .bind ordinary_requireDirectory fun _ =>
      .bind ordinary_requireAbsent fun _ => .bind ordinary_moveTrackedFile fun _ =>
      .bind (ordinary_of_idle idle_finishMutation) fun _ => Prog.asks_pure _) fun _ =>
    Prog.asks_pure _

theorem ordinary_fileDeleteBody :
    (fileDeleteBody env p s path description o).Asks Act.Ordinary :=
  .bind ordinary_requireSession fun _ => .bind ordinary_requireDescription fun _ =>
    .bind ordinary_quiet fun _ => .bind (ordinary_of_idle idle_requireRegularFile) fun _ =>
    .bind (ordinary_withLock <| .bind (ordinary_of_idle idle_beginMutation) fun _ =>
      .bind ordinary_requireTracked fun _ => .bind ordinary_quiet fun _ =>
      .bind (ordinary_of_idle idle_requireRegularFile) fun _ =>
      .bind ordinary_deleteTrackedFile fun _ =>
      .bind (ordinary_of_idle idle_finishMutation) fun _ => Prog.asks_pure _) fun _ =>
    Prog.asks_pure _

theorem ordinary_removeDirectory {target marker : String} :
    (removeDirectory target marker).Asks Act.Ordinary :=
  .bind ordinary_quiet fun _ => Prog.asks_ite (Prog.asks_pure _) (.attempt ordinary_quiet)

theorem ordinary_directoryCreateBody :
    (directoryCreateBody env p s path description o).Asks Act.Ordinary := by
  refine .bind ordinary_requireSession fun _ => .bind ordinary_requireDescription fun _ =>
    .bind ordinary_quiet fun _ => .bind ordinary_requireDirectory fun _ =>
    .bind (ordinary_withLock <| .bind ordinary_requireAbsent fun _ =>
      .bind (ordinary_of_idle idle_beginMutation) fun _ => .bind ordinary_requireAbsent fun _ =>
      .bind (.handle ordinary_quiet fun e y he => ?_) fun _ => .bind ordinary_quiet fun _ =>
      .bind (.handle ordinary_commitFileBytes fun e y he => ?_) fun _ =>
      .bind (ordinary_of_idle idle_finishMutation) fun _ => Prog.asks_pure _) fun _ =>
    Prog.asks_pure _
  · split_ifs at he <;> cases he <;> exact asks_reject
  · cases he
    refine .bind ordinary_removeDirectory fun removed => ?_
    cases removed with
    | ok _ => exact Prog.asks_raise _
    | error cleanup =>
      exact Prog.asks_ite (Prog.asks_raise _) (Prog.asks_ite (Prog.asks_raise _) asks_reject)

theorem ordinary_createCheckpointBody : (createCheckpointBody p s o).Asks Act.Ordinary :=
  .bind ordinary_getProject fun _ =>
    .bind (ordinary_withLock (ordinary_of_idle idle_create)) fun _ =>
    .bind (Prog.asks_lift _) fun _ => Prog.asks_pure _

theorem ordinary_rollbackPreconditions {c head : String} :
    (rollbackPreconditions env project p s c head).Asks Act.Ordinary :=
  .bind ordinary_getForSession fun _ => .bind ordinary_verifyRef fun _ =>
    .bind (ordinary_of_idle idle_inspectProject) fun _ => .bind (asks_check fun _ =>
      .bind (ordinary_of_passive passive_requireAllowedBranch) fun _ =>
        ordinary_of_passive passive_requireCleanWorkspace) fun _ => Prog.asks_pure _

theorem ordinary_restoreCheckpointBody {c head : String} :
    (restoreCheckpointBody env p s c head o).Asks Act.Ordinary := by
  refine .bind (ordinary_of_idle idle_validateExpectedHead) fun _ =>
    .bind ordinary_requireSession fun _ =>
    .bind ordinary_getProject fun _ => .bind (ordinary_withLock <|
      .bind ordinary_rollbackPreconditions fun _ => .bind (ordinary_of_idle idle_create) fun _ =>
      .bind (asks_exceptBridge ordinary_resetToCheckpoint fun _ => asks_reject) fun _ =>
      .bind (asks_exceptBridge (.bind (ordinary_of_idle idle_snapshot) fun _ => asks_check fun _ =>
        ordinary_of_idle idle_finalize) fun e =>
        Prog.asks_ite (Prog.asks_raise _) asks_reject) fun _ =>
      .bind ordinary_store fun _ => Prog.asks_pure _) fun _ => ?_
  exact .bind (Prog.asks_lift _) fun _ => .bind (Prog.asks_lift _) fun _ => Prog.asks_pure _

end Mutations

/-! ## Reads -/

section Reads

variable {env : Env} {p s : String} {path : Option String}

theorem ordinary_projectOpenBody : (projectOpenBody env p).Asks Act.Ordinary :=
  .bind ordinary_getProject fun _ => .bind (ordinary_of_idle idle_inspectProject) fun _ =>
    .bind (.bind ordinary_quiet fun _ => ordinary_store) fun _ => .bind ordinary_quiet fun _ =>
    Prog.asks_pure _

theorem ordinary_projectStatusBody {session : Option String} :
    (projectStatusBody env p session).Asks Act.Ordinary := by
  refine .bind ordinary_getProject fun project => ?_
  extract_lets go
  have hgo : ∀ u, (go u).Asks Act.Ordinary := fun _ =>
    .bind (ordinary_of_idle idle_inspectProject) fun _ => .bind ordinary_quiet fun _ =>
      .bind ordinary_quiet fun _ => Prog.asks_pure _
  exact Prog.asks_ite (.bind ordinary_requireSession fun _ => hgo ()) (hgo ())

theorem ordinary_fileReadBody {path : String} {offset limit : Option Int} :
    (fileReadBody env p s path offset limit).Asks Act.Ordinary := by
  refine .bind ordinary_requireSession fun _ => asks_check fun _ => asks_check fun _ =>
    .bind ordinary_quiet fun _ => .bind (ordinary_of_idle idle_requireReadable) fun _ =>
    .bind ordinary_readFile fun _ => .bind ordinary_quiet fun _ => asks_check fun _ =>
    .bind (ordinary_of_idle idle_validateFileSize) fun _ => .bind ordinary_readFile fun _ => ?_
  extract_lets answer
  have hanswer : ∀ u, (answer u).Asks Act.Ordinary := fun _ =>
    .bind ordinary_quiet fun _ => Prog.asks_pure _
  exact Prog.asks_ite (.bind ordinary_quiet fun _ => .bind asks_reject hanswer) (hanswer ())

theorem ordinary_searchPaths {project : ProjectSpec} {pattern target : String}
    {glob : Option String} :
    ∀ paths, (searchPaths project s pattern target glob paths).Asks Act.Ordinary
  | [] => Prog.asks_pure _
  | path :: paths => by
    unfold searchPaths
    extract_lets go
    have hgo : ∀ skipped, (go skipped).Asks Act.Ordinary := fun _ =>
      Prog.asks_ite (ordinary_searchPaths paths) (.bind ordinary_quiet fun _ =>
        asks_check fun _ => .bind ordinary_quiet fun _ =>
        .bind (ordinary_searchPaths paths) fun _ => Prog.asks_pure _)
    split
    · exact Prog.asks_ite (.bind ordinary_quiet fun _ => .bind (Prog.asks_pure _) hgo)
        (.bind (Prog.asks_pure _) hgo)
    · exact .bind (Prog.asks_pure _) hgo

theorem ordinary_codeSearchBody {pattern : String} {glob : Option String} :
    (codeSearchBody env p s pattern path glob).Asks Act.Ordinary :=
  .bind ordinary_requireSession fun _ => .bind (Prog.asks_ite asks_reject (Prog.asks_pure _))
    fun _ => .bind ordinary_quiet fun _ => .bind ordinary_quiet fun _ =>
    .bind (ordinary_searchPaths _) fun _ => .bind ordinary_quiet fun _ => Prog.asks_pure _

theorem ordinary_fileListBody : (fileListBody env p s path).Asks Act.Ordinary :=
  .bind ordinary_requireSession fun _ => .bind ordinary_quiet fun _ => .bind ordinary_quiet
    fun _ => asks_check fun _ => .bind ordinary_quiet fun _ => .bind ordinary_quiet fun _ =>
    Prog.asks_pure _

theorem ordinary_gitStatusBody : (gitStatusBody env p s).Asks Act.Ordinary :=
  .bind ordinary_requireSession fun _ => .bind ordinary_getProject fun _ =>
    .bind (ordinary_of_idle idle_inspectProject) fun _ => Prog.asks_pure _

theorem ordinary_gitDiffBody {checkpointId : Option String} :
    (gitDiffBody env p s checkpointId).Asks Act.Ordinary := by
  refine .bind ordinary_requireSession fun _ => .bind ordinary_getProject fun _ =>
    .bind (ordinary_of_idle idle_inspectProject) fun _ => ?_
  cases checkpointId with
  | none => exact .bind (ordinary_of_idle idle_diff) fun _ => Prog.asks_pure _
  | some checkpointId =>
    exact .bind ordinary_getForSession fun _ => .bind ordinary_verifyRef fun _ =>
      .bind (ordinary_of_idle idle_diffNamesFrom) fun _ =>
      .bind (ordinary_of_idle idle_diffFrom) fun _ =>
      .bind (Prog.asks_lift _) fun _ => Prog.asks_pure _

end Reads

/-! ## Checks before an approval and after a reconciliation -/

theorem ordinary_checkpointCreateCheck {env : Env} {p s : String} :
    (checkpointCreateCheck env p s).Asks Act.Ordinary :=
  .bind ordinary_requireSession fun _ => .bind ordinary_getProject fun _ =>
    .bind (ordinary_of_idle idle_requireMutationPreconditions) fun _ => Prog.asks_pure _

theorem ordinary_checkpointRestoreCheck {env : Env} {p s c head : String} :
    (checkpointRestoreCheck env p s c head).Asks Act.Ordinary :=
  .bind (ordinary_of_idle idle_validateExpectedHead) fun _ => .bind ordinary_requireSession fun _ =>
    .bind ordinary_getProject fun _ => .bind ordinary_rollbackPreconditions fun _ =>
    Prog.asks_pure _

theorem ordinary_finalizeReconciled {env : Env} {project : ProjectSpec} {o : String} :
    (finalizeReconciled env project o).Asks Act.Ordinary := by
  refine .bind (.bind ordinary_store fun found => ?_) fun _ => .bind ordinary_verifyRef fun _ =>
    .bind (ordinary_of_idle idle_finalizeCurrent) fun _ => Prog.asks_lift _
  split
  · exact Prog.asks_ite asks_reject (Prog.asks_pure _)
  · exact asks_reject

end CodemcpBridge
