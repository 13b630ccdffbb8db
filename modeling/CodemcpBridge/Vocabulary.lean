import CodemcpBridge.Checkout
import CodemcpBridge.GitAsks
import CodemcpBridge.Reads

/-!
# The vocabulary of the Bridge

The Git commands that the Bridge runs of its own accord, word by word: those that look at a project
and those that work on it.  Whatever a caller sends stands behind a `--`, is the value of `-m`, or
has been checked to be a commit's hash or one of the Bridge's own refs.  The lemmas say of every
part of a body which of them it may come to run.
-/

namespace CodemcpBridge

open Async (Prog)
open Body

namespace GitGuard

/-- What a diff may be taken of. -/
inductive Revision : String → Prop
  | head : Revision "HEAD"
  | checkpoint {ref : String} (own : isCheckpointRef ref = true) : Revision ref
  | commit {hash : String} (hex : isHead hash = true) : Revision hash

/-- The Git commands that look at a project. -/
inductive Looks : List String → Prop
  | branch : Looks ["rev-parse", "--abbrev-ref", "HEAD"]
  | head : Looks ["rev-parse", "HEAD"]
  | changes : Looks ["status", "--porcelain=v1", "--untracked-files=all", "-z"]
  | toplevel : Looks ["rev-parse", "--show-toplevel"]
  | tree : Looks ["ls-tree", "-r", "-z", "--full-tree", "HEAD"]
  | resolve {ref : String} (own : isCheckpointRef ref = true) :
      Looks ["rev-parse", "--verify", ref ++ "^\x7bcommit\x7d"]
  | message {hash : String} (hex : isHead hash = true) :
      Looks ["show", "--no-patch", "--no-notes", "--format=%B", hash]
  | containing {hash : String} (hex : isHead hash = true) :
      Looks ["for-each-ref", "--format=%(refname)", "--contains", hash, "refs/heads",
        "refs/remotes", "refs/tags"]
  | names {revisions : List String} (all : ∀ r ∈ revisions, Revision r) :
      Looks (diffArguments (["--name-only", "-z"] ++ revisions ++ ["--"]))
  | diff {revisions : List String} (all : ∀ r ∈ revisions, Revision r) :
      Looks (diffArguments (["--unified=3"] ++ revisions ++ ["--"]))

/-- The Git commands that work on a project. -/
inductive Works : List String → Prop
  | createRef {ref hash : String} (own : isCheckpointRef ref = true) (hex : isHead hash = true) :
      Works ["update-ref", "--no-deref", ref, hash]
  | deleteRef {ref : String} (own : isCheckpointRef ref = true) :
      Works ["update-ref", "--no-deref", "-d", ref]
  | add (path : String) : Works ["add", "--", path]
  | move (source destination : String) : Works ["mv", "--", source, destination]
  | remove (path : String) : Works ["rm", "--", path]
  | commit (mode : CommitMode) (description sessionId : String) (paths : List String) :
      Works ("commit" :: commitOptions description sessionId mode ++ ["--only", "--"] ++ paths)
  | reset {ref : String} (own : isCheckpointRef ref = true) : Works ["reset", "--hard", ref]

end GitGuard

/-- A store method that a look at a project may use: it leaves the checkpoints alone. -/
def StoreCall.looks : StoreCall → Bool
  | createCheckpoint .. | finalizeCheckpoint .. | markCheckpointRestored _ => false
  | _ => true

/-- A question about a mutation lock. -/
def Quiet.locks : Quiet → Bool
  | acquire _ | release _ => true
  | _ => false

/-- A question to the codemcp worker of a project, which is started where none runs. -/
def Quiet.adapts : Quiet → Bool
  | adapterCall .. => true
  | _ => false

/-- A question that is about no lock and goes to no worker. -/
def Quiet.works (q : Quiet) : Bool := !q.locks && !q.adapts

/-- A question that changes no file and no checkpoint, is about no lock and goes to no worker. -/
def Quiet.looks : Quiet → Bool
  | store c => c.looks
  | q => !q.changes && q.works

/-- An act that looks at a project. -/
def Act.Looks : Act → Prop
  | quiet q => q.looks = true
  | git _ arguments => GitGuard.Looks arguments
  | command .. => False

/-- An act that looks at a project or has its worker look at it. -/
def Act.Reads (a : Act) : Prop :=
  a.Looks ∨ ∃ project subtool, a = .quiet (.adapterCall project subtool)

/-- An act that looks at a project or works on it, but takes and gives back no lock. -/
def Act.Works : Act → Prop
  | quiet q => q.works = true
  | git _ arguments => GitGuard.Looks arguments ∨ GitGuard.Works arguments
  | command .. => True

theorem Quiet.works_of_looks {q : Quiet} (h : q.looks = true) : q.works = true := by
  cases q with
  | acquire p => cases h
  | release p => cases h
  | adapterCall project subtool => cases h
  | _ => rfl

theorem Act.Looks.works {a : Act} (h : a.Looks) : a.Works := by
  cases a with
  | quiet q => exact Quiet.works_of_looks h
  | git root arguments => exact .inl h
  | command p c => exact h.elim

theorem works_of_looks {α : Type} {x : Body α} (h : x.Asks Act.Looks) : x.Asks Act.Works :=
  h.mono fun _ ha => ha.works

theorem reads_of_looks {α : Type} {x : Body α} (h : x.Asks Act.Looks) : x.Asks Act.Reads :=
  h.mono fun _ ha => .inl ha

/-! ## Checks whose outcome is used -/

section Checks

variable {α : Type} {P : Act → Prop} {ref hash : String}

theorem asks_requireHead_bind {f : Unit → Body α}
    (hf : GitGuard.isHead hash = true → (f ()).Asks P) :
    (GitGuard.requireHead hash >>= f).Asks P := by
  unfold GitGuard.requireHead
  by_cases h : GitGuard.isHead hash = true
  · rw [if_pos h]
    exact hf h
  · rw [if_neg h]
    exact ⟨trivial⟩

theorem asks_commitArguments_bind {paths : List String} {mode : CommitMode}
    {description sessionId : String} {f : List String → Body α}
    (hf : ∀ arguments, GitGuard.Works arguments → (f arguments).Asks P) :
    (GitGuard.commitArguments paths mode description sessionId >>= f).Asks P := by
  rcases GitGuard.commitArguments_eq paths mode description sessionId with he | ⟨e, he⟩
  · rw [he]
    exact hf _ (.commit mode description sessionId paths)
  · rw [he]
    exact ⟨trivial⟩

end Checks

/-! ## Looking -/

section Looking

variable {α : Type} {root ref hash path p s c : String} {project : ProjectSpec}
  {principal : Option AuthContext} {session : Option String} {settings : PolicySettings}

theorem looks_quiet {q : Quiet} (h : q.looks = true) : (quiet q).Asks Act.Looks := Prog.asks_ask h

theorem looks_store {c : StoreCall} (h : c.looks = true) : (store c).Asks Act.Looks :=
  Prog.asks_ask h

theorem looks_run {arguments : List String} (h : GitGuard.Looks arguments) :
    (GitGuard.run root arguments).Asks Act.Looks := Prog.asks_ask h

theorem looks_getProject : (getProject p).Asks Act.Looks :=
  .bind (looks_quiet rfl) fun _ => by
    unfold registryGet
    split
    · exact Prog.asks_pure _
    · exact asks_reject

theorem looks_blockSession {reason : String} : (blockSession reason s).Asks Act.Looks :=
  .bind (looks_store rfl) fun _ => by
    split
    · exact Prog.asks_ite (.bind (looks_store rfl) fun _ => Prog.asks_pure _) (Prog.asks_pure _)
    · exact Prog.asks_pure _

theorem looks_forM {f : String → Body PUnit} (hf : ∀ a, (f a).Asks Act.Looks) (l : List String) :
    (l.forM f).Asks Act.Looks := by
  induction l with
  | nil => exact Prog.asks_pure _
  | cons a l ih => exact .bind (hf a) fun _ => ih

theorem looks_revokeProject : (revokeProject p).Asks Act.Looks :=
  .bind (looks_store rfl) fun _ => looks_forM (fun _ => looks_blockSession) _

theorem looks_refresh : refreshProjectRegistry.Asks Act.Looks :=
  .bind (looks_quiet rfl) fun _ => .bind (looks_quiet rfl) fun _ => by
    split
    · exact Prog.asks_pure _
    · exact looks_forM (fun _ => looks_revokeProject) _

theorem looks_requireActive : (requireActive principal p session).Asks Act.Looks := by
  unfold requireActive
  split
  · exact asks_reject
  · refine .bind (looks_store rfl) fun _ => ?_
    split
    · exact asks_reject
    · exact Prog.asks_ite asks_reject (Prog.asks_ite asks_reject
        (.bind (looks_store rfl) fun _ => Prog.asks_ite (Prog.asks_pure _) asks_reject))

theorem looks_requireSession : (requireSession principal p session).Asks Act.Looks :=
  .bind looks_refresh fun _ => .bind looks_getProject fun _ => looks_requireActive

theorem looks_status : (GitGuard.status root).Asks Act.Looks :=
  GitGuard.asks_status .branch .head .changes

theorem looks_snapshot : (GitGuard.snapshot root).Asks Act.Looks :=
  .bind looks_status fun _ => .bind (looks_run .tree) fun _ => Prog.asks_pure _

theorem looks_requireWorktreeRoot : (GitGuard.requireWorktreeRoot root).Asks Act.Looks :=
  .bind (looks_run .toplevel) fun _ => .bind (looks_quiet rfl) fun _ =>
    .bind (looks_quiet rfl) fun _ => Prog.asks_ite asks_reject (Prog.asks_pure _)

theorem looks_resolveCheckpointRef : (GitGuard.resolveCheckpointRef root ref).Asks Act.Looks :=
  GitGuard.asks_requireCheckpointRef_bind fun own => .bind (looks_run (.resolve own)) fun _ =>
    .bind GitGuard.asks_requireHead fun _ => Prog.asks_pure _

theorem looks_verifyRef {checkpoint : CheckpointRecord} :
    (Checkpoints.verifyRef project checkpoint).Asks Act.Looks :=
  .bind (asks_exceptBridge looks_resolveCheckpointRef fun _ => asks_reject) fun _ =>
    Prog.asks_ite asks_reject (Prog.asks_pure _)

theorem looks_getForSession : (Checkpoints.getForSession c p s).Asks Act.Looks :=
  .bind (looks_store rfl) fun _ => by
    split
    · exact Prog.asks_pure _
    · exact asks_reject

theorem looks_hasSessionFooter : (GitGuard.hasSessionFooter root hash s).Asks Act.Looks :=
  .bind (Prog.asks_ite (Prog.asks_pure _) asks_reject) fun _ =>
    .bind (asks_requireHead_bind fun hex => .bind (looks_run (.message hex)) fun _ =>
      Prog.asks_pure _) fun _ => Prog.asks_pure _

theorem looks_sharedRefsContainingHead {branch : String} :
    (GitGuard.sharedRefsContainingHead root hash branch).Asks Act.Looks :=
  asks_requireHead_bind fun hex => asks_check fun _ => .bind (looks_run (.containing hex)) fun _ =>
    GitGuard.asks_sharedRefs _

theorem looks_verifyAmendTarget {branch : Option String} :
    (GitGuard.verifyAmendTarget root hash branch).Asks Act.Looks :=
  .bind looks_status fun _ => asks_check fun _ => .bind looks_sharedRefsContainingHead fun _ =>
    Prog.asks_ite asks_reject (Prog.asks_pure _)

theorem looks_sensitiveNames : ∀ names, (GitGuard.sensitiveNames names).Asks Act.Looks
  | [] => Prog.asks_pure _
  | _ :: names => .bind (looks_quiet rfl) fun _ => .bind (looks_sensitiveNames names) fun _ =>
      Prog.asks_pure _

theorem looks_rejectSensitiveNames {names : List String} :
    (GitGuard.rejectSensitiveNames names).Asks Act.Looks :=
  .bind (looks_sensitiveNames names) fun _ => Prog.asks_ite asks_reject (Prog.asks_pure _)

/-- One revision, or two, that a diff may be taken of. -/
theorem revisions_one {r : String} (h : GitGuard.Revision r) : ∀ r' ∈ [r], GitGuard.Revision r' :=
  fun _ hr => List.mem_singleton.1 hr ▸ h

theorem revisions_two {r r' : String} (h : GitGuard.Revision r) (h' : GitGuard.Revision r') :
    ∀ r'' ∈ [r, r'], GitGuard.Revision r'' := fun r'' hr => by
  rcases List.mem_cons.1 hr with rfl | hr
  · exact h
  · exact revisions_one h' r'' hr

theorem looks_diff {n : ℕ} : (GitGuard.diff root n).Asks Act.Looks :=
  .bind looks_status fun _ => .bind looks_rejectSensitiveNames fun _ =>
    .bind (looks_run (.names (revisions_one .head))) fun _ => .bind looks_rejectSensitiveNames
    fun _ => .bind (looks_run (.diff (revisions_one .head))) fun _ => Prog.asks_pure _

theorem looks_diffNamesFrom : (GitGuard.diffNamesFrom root ref).Asks Act.Looks :=
  GitGuard.asks_requireCheckpointRef_bind fun own => .bind looks_status fun _ =>
    .bind looks_rejectSensitiveNames fun _ =>
    .bind (looks_run (.names (revisions_one (.checkpoint own)))) fun _ =>
    .bind looks_rejectSensitiveNames fun _ => Prog.asks_pure _

theorem looks_diffNamesBetween : (GitGuard.diffNamesBetween root ref hash).Asks Act.Looks :=
  GitGuard.asks_requireCheckpointRef_bind fun own => asks_requireHead_bind fun hex =>
    .bind (looks_run (.names (revisions_two (.checkpoint own) (.commit hex)))) fun _ =>
    .bind looks_rejectSensitiveNames fun _ => Prog.asks_pure _

theorem looks_diffFrom {n : ℕ} : (GitGuard.diffFrom root ref n).Asks Act.Looks :=
  GitGuard.asks_requireCheckpointRef_bind fun own => .bind looks_diffNamesFrom fun _ =>
    .bind (looks_run (.diff (revisions_one (.checkpoint own)))) fun _ => Prog.asks_pure _

theorem looks_diffBetween {n : ℕ} : (GitGuard.diffBetween root ref hash n).Asks Act.Looks :=
  GitGuard.asks_requireCheckpointRef_bind fun own => asks_requireHead_bind fun hex =>
    .bind looks_diffNamesBetween fun _ =>
    .bind (looks_run (.diff (revisions_two (.checkpoint own) (.commit hex)))) fun _ =>
    Prog.asks_pure _

theorem looks_requireAllowedBranch {branch : String} :
    (requireAllowedBranch project branch).Asks Act.Looks :=
  Prog.asks_ite (Prog.asks_pure _) asks_reject

theorem looks_requireCleanWorkspace {status : GitStatus} :
    (requireCleanWorkspace settings project status).Asks Act.Looks :=
  Prog.asks_ite asks_reject (Prog.asks_pure _)

theorem looks_inspectProject {b : Bool} : (inspectProject project b).Asks Act.Looks :=
  .bind (looks_quiet rfl) fun _ => asks_check fun _ => .bind looks_requireWorktreeRoot fun _ =>
    .bind looks_status fun _ => Prog.asks_ite (.bind looks_requireAllowedBranch fun _ =>
      Prog.asks_pure _) (Prog.asks_pure _)

theorem looks_requireMutationPreconditions :
    (requireMutationPreconditions settings project).Asks Act.Looks :=
  .bind looks_inspectProject fun _ => looks_requireCleanWorkspace

theorem looks_validateFileSize : (validateFileSize settings path).Asks Act.Looks :=
  .bind (asks_orReject (looks_quiet rfl)) fun _ => asks_check fun _ => Prog.asks_pure _

theorem looks_requireRegularFile : (requireRegularFile path).Asks Act.Looks :=
  .bind (looks_quiet rfl) fun _ => asks_check fun _ => .bind (looks_quiet rfl) fun _ =>
    Prog.asks_ite asks_reject (Prog.asks_pure _)

theorem looks_requireReadable : (requireReadable settings path).Asks Act.Looks :=
  .bind looks_requireRegularFile fun _ => .bind looks_validateFileSize fun _ =>
    .bind (asks_orReject (looks_quiet rfl)) fun _ => Prog.asks_ite asks_reject (Prog.asks_pure _)

theorem looks_readFile : (readFile path).Asks Act.Looks := asks_orReject (looks_quiet rfl)

theorem looks_requireDirectory {message normalized : String} :
    (requireDirectory path message normalized).Asks Act.Looks :=
  .bind (looks_quiet rfl) fun _ => Prog.asks_ite asks_reject <| .bind (looks_quiet rfl) fun _ =>
    Prog.asks_ite asks_reject (Prog.asks_pure _)

theorem looks_requireAbsent {message normalized : String} :
    (requireAbsent path message normalized).Asks Act.Looks :=
  .bind (looks_quiet rfl) fun _ => Prog.asks_ite asks_reject (Prog.asks_pure _)

theorem looks_validateExpectedHead : (Checkpoints.validateExpectedHead hash).Asks Act.Looks :=
  Prog.asks_ite (Prog.asks_pure _) asks_reject

theorem looks_rollbackPreconditions {env : Env} :
    (rollbackPreconditions env project p s c hash).Asks Act.Looks :=
  .bind looks_getForSession fun _ => .bind looks_verifyRef fun _ => .bind looks_inspectProject
    fun _ => .bind (asks_check fun _ => .bind looks_requireAllowedBranch fun _ =>
      looks_requireCleanWorkspace) fun _ => Prog.asks_pure _

/-! ### Commands -/

theorem looks_verifyCodemcpCommand {command : CommandSpec} :
    (verifyCodemcpCommand project command).Asks Act.Looks := by
  refine .bind (.attempt (looks_quiet rfl)) fun generated => ?_
  extract_lets rejected compare
  have hcompare : ∀ b, (compare b).Asks Act.Looks := fun _ =>
    Prog.asks_ite (.bind (.handle (looks_quiet rfl) fun e y he => by
      split_ifs at he
      cases he
      exact .bind asks_reject fun _ => Prog.asks_pure _) fun _ =>
        Prog.asks_ite asks_reject (Prog.asks_pure _)) (Prog.asks_pure _)
  split
  · exact .bind (looks_quiet rfl) hcompare
  · exact Prog.asks_ite (.bind (Prog.asks_pure _) hcompare) (.bind (Prog.asks_raise _) hcompare)
  · exact .bind (Prog.asks_pure _) hcompare

theorem looks_allowedCommand {command : CommandSpec} :
    (allowedCommand project command).Asks Act.Looks :=
  .bind looks_verifyCodemcpCommand fun _ => Prog.asks_pure _

theorem looks_registeredCommand {commandId : String} :
    (registeredCommand settings project commandId).Asks Act.Looks := by
  refine Prog.asks_ite (.bind asks_reject fun _ => ?_) ?_
  all_goals
    split
    · exact asks_reject
    · exact looks_allowedCommand

theorem looks_commandOfKind {commandId kind : String} :
    (commandOfKind settings project commandId kind).Asks Act.Looks := by
  refine Prog.asks_ite (.bind asks_reject fun _ => ?_) ?_
  all_goals
    split
    · exact asks_reject
    · exact looks_allowedCommand

theorem looks_resolveCommand {env : Env} {commandId : String} {kind : Option String} :
    (resolveCommand env project commandId kind).Asks Act.Looks := by
  cases kind with
  | none => exact looks_registeredCommand
  | some kind => exact looks_commandOfKind

end Looking

/-! ## The bodies of the reads -/

section Reads

variable {env : Env} {p s : String} {path : Option String}

theorem looks_projectOpenBody : (projectOpenBody env p).Asks Act.Looks :=
  .bind looks_getProject fun _ => .bind looks_inspectProject fun _ =>
    .bind (.bind (looks_quiet rfl) fun _ => looks_store rfl) fun _ => .bind (looks_quiet rfl)
    fun _ => Prog.asks_pure _

theorem looks_projectStatusBody {session : Option String} :
    (projectStatusBody env p session).Asks Act.Looks := by
  refine .bind looks_getProject fun project => ?_
  extract_lets go
  have hgo : ∀ u, (go u).Asks Act.Looks := fun _ =>
    .bind looks_inspectProject fun _ => .bind (looks_quiet rfl) fun _ => .bind (looks_quiet rfl)
      fun _ => Prog.asks_pure _
  exact Prog.asks_ite (.bind looks_requireSession fun _ => hgo ()) (hgo ())

theorem reads_adapterCall {project : ProjectSpec} {subtool : Subtool} :
    (quiet (.adapterCall project subtool)).Asks Act.Reads :=
  Prog.asks_ask (.inr ⟨project, subtool, rfl⟩)

theorem reads_quiet {q : Quiet} (h : q.looks = true) : (quiet q).Asks Act.Reads :=
  reads_of_looks (looks_quiet h)

theorem reads_fileReadBody {path : String} {offset limit : Option Int} :
    (fileReadBody env p s path offset limit).Asks Act.Reads := by
  refine .bind (reads_of_looks looks_requireSession) fun _ =>
    asks_check fun _ => asks_check fun _ =>
    .bind (reads_quiet rfl) fun _ => .bind (reads_of_looks looks_requireReadable) fun _ =>
    .bind (reads_of_looks looks_readFile) fun _ => .bind reads_adapterCall fun _ =>
    asks_check fun _ => .bind (reads_of_looks looks_validateFileSize) fun _ =>
    .bind (reads_of_looks looks_readFile) fun _ => ?_
  extract_lets answer
  have hanswer : ∀ u, (answer u).Asks Act.Reads := fun _ =>
    .bind (reads_quiet rfl) fun _ => Prog.asks_pure _
  exact Prog.asks_ite (.bind (reads_quiet rfl) fun _ => .bind asks_reject hanswer) (hanswer ())

theorem reads_searchPaths {project : ProjectSpec} {pattern target : String}
    {glob : Option String} :
    ∀ paths, (searchPaths project s pattern target glob paths).Asks Act.Reads
  | [] => Prog.asks_pure _
  | path :: paths => by
    unfold searchPaths
    extract_lets go
    have hgo : ∀ skipped, (go skipped).Asks Act.Reads := fun _ =>
      Prog.asks_ite (reads_searchPaths paths) (.bind reads_adapterCall fun _ =>
        asks_check fun _ => .bind (reads_quiet rfl) fun _ => .bind (reads_searchPaths paths)
        fun _ => Prog.asks_pure _)
    split
    · exact Prog.asks_ite (.bind (reads_quiet rfl) fun _ => .bind (Prog.asks_pure _) hgo)
        (.bind (Prog.asks_pure _) hgo)
    · exact .bind (Prog.asks_pure _) hgo

theorem reads_codeSearchBody {pattern : String} {glob : Option String} :
    (codeSearchBody env p s pattern path glob).Asks Act.Reads :=
  .bind (reads_of_looks looks_requireSession) fun _ =>
    .bind (Prog.asks_ite asks_reject (Prog.asks_pure _)) fun _ => .bind (reads_quiet rfl) fun _ =>
    .bind (reads_quiet rfl) fun _ => .bind (reads_searchPaths _) fun _ =>
    .bind (reads_quiet rfl) fun _ => Prog.asks_pure _

theorem looks_fileListBody : (fileListBody env p s path).Asks Act.Looks :=
  .bind looks_requireSession fun _ => .bind (looks_quiet rfl) fun _ => .bind (looks_quiet rfl)
    fun _ => asks_check fun _ => .bind (looks_quiet rfl) fun _ => .bind (looks_quiet rfl) fun _ =>
    Prog.asks_pure _

theorem looks_gitStatusBody : (gitStatusBody env p s).Asks Act.Looks :=
  .bind looks_requireSession fun _ => .bind looks_getProject fun _ => .bind looks_inspectProject
    fun _ => Prog.asks_pure _

theorem looks_gitDiffBody {checkpointId : Option String} :
    (gitDiffBody env p s checkpointId).Asks Act.Looks := by
  refine .bind looks_requireSession fun _ => .bind looks_getProject fun _ =>
    .bind looks_inspectProject fun _ => ?_
  cases checkpointId with
  | none => exact .bind looks_diff fun _ => Prog.asks_pure _
  | some checkpointId =>
    exact .bind looks_getForSession fun _ => .bind looks_verifyRef fun _ =>
      .bind looks_diffNamesFrom fun _ => .bind looks_diffFrom fun _ => .bind (Prog.asks_lift _)
      fun _ => Prog.asks_pure _

end Reads

/-! ## Working -/

section Working

variable {root path ref hash p s o : String} {project : ProjectSpec} {env : Env}
  {settings : PolicySettings} {checkpoint : CheckpointRecord}

theorem works_quiet {q : Quiet} (h : q.works = true) : (quiet q).Asks Act.Works := Prog.asks_ask h

theorem works_store {c : StoreCall} : (store c).Asks Act.Works := works_quiet rfl

theorem works_run {arguments : List String} (h : GitGuard.Works arguments) :
    (GitGuard.run root arguments).Asks Act.Works := Prog.asks_ask (.inr h)

theorem works_commitAndVerify {arguments : List String} {mode : CommitMode}
    {branch : Option String} {message : String} (h : GitGuard.Works arguments) :
    (GitGuard.commitAndVerify root arguments mode hash branch message).Asks Act.Works :=
  GitGuard.asks_commitAndVerify (works_of_looks looks_status)
    (works_of_looks looks_verifyAmendTarget) (.inr h)

theorem works_writeFile {target : String} {content : ByteArray} :
    (GitGuard.writeFile target path content).Asks Act.Works := by
  refine .bind (asks_orReject (works_quiet rfl)) fun temp => .handle
    (.bind (works_quiet rfl) fun _ => works_quiet rfl) fun e y he => ?_
  split_ifs at he
  cases he
  refine .bind (.handle (works_quiet rfl) fun e y he => ?_) fun _ => asks_reject
  split_ifs at he
  cases he
  exact Prog.asks_pure _

theorem works_commitFileBytes {description : String} {content : ByteArray} {b : Option Bool}
    {mode : CommitMode} {branch : Option String} :
    (GitGuard.commitFileBytes root path content hash description b mode s branch).Asks
      Act.Works := by
  rw [GitGuard.commitFileBytes_eq, GitGuard.fileCommitArguments_some]
  refine .bind GitGuard.asks_requireHead fun _ => asks_commitArguments_bind fun arguments h =>
    .bind (GitGuard.asks_requireBaseline (works_of_looks looks_status)) fun _ =>
    .bind (GitGuard.asks_checkTarget rfl rfl rfl) fun _ => Prog.asks_ite (Prog.asks_pure _)
    (.bind works_writeFile fun _ => asks_exceptBridge ?_ fun _ => asks_reject)
  exact GitGuard.asks_finishFile (works_of_looks looks_status)
    (works_of_looks looks_verifyAmendTarget) (.inr (.add path)) (.inr h)

theorem works_moveTrackedFile {source destination description : String} {mode : CommitMode}
    {branch : Option String} :
    (GitGuard.moveTrackedFile root source destination hash description mode s branch).Asks
      Act.Works :=
  .bind GitGuard.asks_requireHead fun _ => asks_commitArguments_bind fun _ h =>
    .bind (GitGuard.asks_requireBaseline (works_of_looks looks_status)) fun _ =>
    .bind (asks_exceptBridge (works_run (.move source destination)) fun _ => asks_reject) fun _ =>
    asks_exceptBridge (.bind (works_of_looks looks_status) fun _ =>
      .bind GitGuard.asks_requireIsolated fun _ => works_commitAndVerify h) fun _ => asks_reject

theorem works_deleteTrackedFile {description : String} {mode : CommitMode}
    {branch : Option String} :
    (GitGuard.deleteTrackedFile root path hash description mode s branch).Asks Act.Works :=
  .bind GitGuard.asks_requireHead fun _ => asks_commitArguments_bind fun _ h =>
    .bind (GitGuard.asks_requireBaseline (works_of_looks looks_status)) fun _ =>
    .bind (asks_exceptBridge (works_run (.remove path)) fun _ => asks_reject) fun _ =>
    asks_exceptBridge (.bind (works_of_looks looks_status) fun _ =>
      .bind GitGuard.asks_requireIsolated fun _ => works_commitAndVerify h) fun _ => asks_reject

theorem works_resetToCheckpoint : (GitGuard.resetToCheckpoint root ref).Asks Act.Works :=
  GitGuard.asks_requireCheckpointRef_bind fun own => .bind (works_run (.reset own)) fun _ =>
    Prog.asks_pure _

/-! ### Checkpoints -/

theorem works_create {kind : CheckpointKind} :
    (Checkpoints.create project s o kind).Asks Act.Works := by
  refine .bind (works_of_looks looks_requireWorktreeRoot) fun _ =>
    .bind (works_of_looks looks_snapshot) fun _ => asks_check fun _ => .bind (works_quiet rfl)
    fun _ => .bind (GitGuard.asks_requireCheckpointRef_bind fun own =>
      asks_requireHead_bind fun hex => .bind (works_run (.createRef own hex)) fun _ =>
      Prog.asks_pure _) fun _ =>
    .handle works_store fun e y he => ?_
  split_ifs at he
  cases he
  exact .bind (asks_exceptBridge (GitGuard.asks_requireCheckpointRef_bind fun own =>
    .bind (works_run (.deleteRef own)) fun _ => Prog.asks_pure _) fun _ => Prog.asks_pure _)
    fun _ => Prog.asks_raise _

theorem works_requireAfter {message branch : String} {after : GitSnapshot} :
    (Checkpoints.requireAfter checkpoint message after hash branch).Asks Act.Works :=
  Prog.asks_ite asks_reject (Prog.asks_pure _)

theorem works_finalize {branch : String} :
    (Checkpoints.finalize settings project checkpoint hash branch).Asks Act.Works :=
  .bind (works_of_looks looks_validateExpectedHead) fun _ => asks_check fun _ =>
    .bind (works_of_looks looks_snapshot) fun _ => .bind works_requireAfter fun _ =>
    .bind (works_of_looks looks_diffNamesBetween) fun _ =>
    .bind (works_of_looks looks_diffBetween) fun _ => .bind (works_of_looks looks_snapshot)
    fun _ => .bind works_requireAfter fun _ => works_store

theorem works_finalizeCurrent :
    (Checkpoints.finalizeCurrent settings project checkpoint).Asks Act.Works :=
  .bind (works_of_looks looks_snapshot) fun _ => .bind (works_of_looks looks_diffNamesFrom)
    fun _ => .bind (works_of_looks looks_diffFrom) fun _ => works_store

theorem works_determineCommitMode :
    (Checkpoints.determineCommitMode project s checkpoint).Asks Act.Works := by
  refine works_of_looks (Prog.asks_ite (Prog.asks_pure _) (.bind (.handle ?_ fun e y he => ?_)
    fun _ => Prog.asks_pure _))
  · exact .bind looks_status fun _ => Prog.asks_ite (Prog.asks_pure _) <|
      Prog.asks_ite (Prog.asks_pure _) <| Prog.asks_ite (Prog.asks_pure _) <|
      .bind (looks_store rfl) fun _ => Prog.asks_ite (Prog.asks_pure _) <|
      .bind looks_hasSessionFooter fun _ => Prog.asks_ite (Prog.asks_pure _) <|
      .bind looks_sharedRefsContainingHead fun _ => Prog.asks_pure _
  · split_ifs at he
    cases he
    exact Prog.asks_pure _

theorem works_beginMutation : (beginMutation env project s o).Asks Act.Works :=
  .bind (works_of_looks looks_requireMutationPreconditions) fun _ => .bind works_create fun _ =>
    .bind works_determineCommitMode fun _ => Prog.asks_pure _

theorem works_finishMutation : (finishMutation env project checkpoint hash).Asks Act.Works :=
  .bind (asks_exceptBridge works_finalize fun _ => asks_reject) fun _ => Prog.asks_lift _

end Working

end CodemcpBridge
