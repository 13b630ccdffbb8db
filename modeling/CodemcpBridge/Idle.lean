import CodemcpBridge.Checkout
import CodemcpBridge.GitAsks

/-!
# Parts of a body that change nothing

Between its changes a body looks at the registry, its session, Git and the filesystem, and stores
what it has seen.  Such parts ask for acts that change nothing of the project; the passive ones do
not even see anything of it.
-/

namespace CodemcpBridge

open Async (Prog)
open Body

/-- The act neither changes a file nor reads what is in it. -/
def Quiet.plain : Quiet → Bool
  | readBytes _ => false
  | q => !q.changes

/-- An act that changes nothing and reads no file. -/
def Act.Idle : Act → Prop
  | quiet q => q.plain = true
  | git _ arguments => gitChanges arguments = false
  | command .. => False

/-- An idle act that shows nothing of the checkout. -/
def Act.Passive : Act → Prop
  | quiet q => q.plain = true
  | git _ arguments => gitChanges arguments = false ∧ sightOf arguments "" = none
  | command .. => False

theorem Quiet.unchanging {q : Quiet} (h : q.plain = true) : q.changes = false := by
  cases q <;> first | rfl | cases h

theorem idle_of_passive {α : Type} {x : Body α} (h : x.Asks Act.Passive) : x.Asks Act.Idle :=
  h.mono fun a ha => by
    cases a with
    | quiet q => exact ha
    | git root arguments => exact ha.1
    | command p c => exact ha.elim

theorem blind_of_passive {α : Type} {x : Body α} (h : x.Asks Act.Passive) : x.Asks (·.blind) :=
  h.mono fun a ha => by
    cases a with
    | quiet q => simp [Act.blind, Act.changes, Quiet.unchanging ha]
    | git root arguments => simp [Act.blind, ha.1, ha.2]
    | command p c => exact ha.elim

/-! ## Programs that look at nothing -/

section Passive

variable {α : Type} {principal : Option AuthContext} {p c : String} {s : Option String}

theorem passive_quiet {q : Quiet} (h : q.plain = true) : (quiet q).Asks Act.Passive :=
  Prog.asks_ask h

theorem passive_store {c : StoreCall} : (Body.store c).Asks Act.Passive := passive_quiet rfl

theorem passive_getProject : (getProject p).Asks Act.Passive := by
  refine .bind (passive_quiet rfl) fun projects => ?_
  unfold registryGet
  split <;> exact ⟨trivial⟩

theorem passive_revokeProject : (revokeProject p).Asks Act.Passive := by
  have block : ∀ s, (blockSession "project_removed" s).Asks Act.Passive := by
    intro s
    refine .bind passive_store fun found => ?_
    split
    · split_ifs
      · exact .bind passive_store fun _ => ⟨trivial⟩
      · exact ⟨trivial⟩
    · exact ⟨trivial⟩
  refine .bind passive_store fun ids => ?_
  induction ids with
  | nil => exact ⟨trivial⟩
  | cons s ids ih => exact .bind (block s) fun _ => ih

theorem passive_refresh : refreshProjectRegistry.Asks Act.Passive := by
  refine .bind (passive_quiet rfl) fun before => .bind (passive_quiet rfl) fun after => ?_
  cases after with
  | none => exact ⟨trivial⟩
  | some after =>
    dsimp only
    induction (before.map Prod.fst).filter fun p => !(after.map Prod.fst).contains p with
    | nil => exact ⟨trivial⟩
    | cons p ps ih => exact .bind passive_revokeProject fun _ => ih

theorem passive_requireActive : (requireActive principal p s).Asks Act.Passive := by
  unfold requireActive
  split
  · exact ⟨trivial⟩
  · refine .bind passive_store fun found => ?_
    split
    · exact ⟨trivial⟩
    · split_ifs
      · exact ⟨trivial⟩
      · exact ⟨trivial⟩
      · refine .bind passive_store fun stored => ?_
        split_ifs <;> exact ⟨trivial⟩

theorem passive_requireSession : (requireSession principal p s).Asks Act.Passive :=
  .bind passive_refresh fun _ => .bind passive_getProject fun _ => passive_requireActive

theorem passive_run {root : String} {arguments : List String} (hc : gitChanges arguments = false)
    (hs : sightOf arguments "" = none) : (GitGuard.run root arguments).Asks Act.Passive :=
  Prog.asks_ask ⟨hc, hs⟩

theorem passive_requireWorktreeRoot {root : String} :
    (GitGuard.requireWorktreeRoot root).Asks Act.Passive := by
  refine .bind (passive_run (by rfl) (by rfl)) fun _ => .bind (passive_quiet rfl) fun _ =>
    .bind (passive_quiet rfl) fun _ => ?_
  split_ifs <;> exact ⟨trivial⟩

theorem passive_requireAllowedBranch {project : ProjectSpec} {branch : String} :
    (requireAllowedBranch project branch).Asks Act.Passive := by
  unfold requireAllowedBranch
  split_ifs <;> exact ⟨trivial⟩

theorem passive_requireCleanWorkspace {settings : PolicySettings} {project : ProjectSpec}
    {status : GitStatus} : (requireCleanWorkspace settings project status).Asks Act.Passive := by
  unfold requireCleanWorkspace
  split_ifs <;> exact ⟨trivial⟩

theorem passive_getForSession {c p s : String} :
    (Checkpoints.getForSession c p s).Asks Act.Passive := by
  refine .bind passive_store fun found => ?_
  split <;> exact ⟨trivial⟩

theorem passive_requireCheckpointRef {ref : String} :
    (GitGuard.requireCheckpointRef ref).Asks Act.Passive := by
  unfold GitGuard.requireCheckpointRef
  split_ifs <;> exact ⟨trivial⟩

theorem passive_resolveCheckpointRef {root ref : String} :
    (GitGuard.resolveCheckpointRef root ref).Asks Act.Passive := by
  unfold GitGuard.resolveCheckpointRef
  refine Prog.Asks.bind passive_requireCheckpointRef fun _ => ?_
  refine Prog.Asks.bind (passive_run (by rfl) (by simp [sightOf])) fun output => ?_
  generalize Text.strip output = head
  exact Prog.Asks.bind GitGuard.asks_requireHead fun _ => ⟨trivial⟩

theorem passive_verifyRef {project : ProjectSpec} {checkpoint : CheckpointRecord} :
    (Checkpoints.verifyRef project checkpoint).Asks Act.Passive := by
  refine Prog.Asks.bind (asks_exceptBridge passive_resolveCheckpointRef fun _ => ⟨trivial⟩)
    fun resolved => ?_
  generalize Text.lower resolved = actual
  split_ifs <;> exact ⟨trivial⟩

theorem passive_createCheckpointRef {root ref head : String} :
    (GitGuard.createCheckpointRef root ref head).Asks Act.Passive :=
  GitGuard.asks_requireCheckpointRef_bind fun own => .bind GitGuard.asks_requireHead fun _ =>
    .bind (passive_run (by simp [gitChanges, movesCheckpointRef, own]) (by simp [sightOf])) fun _ =>
      ⟨trivial⟩

theorem passive_deleteCheckpointRef {root ref : String} :
    (GitGuard.deleteCheckpointRef root ref).Asks Act.Passive :=
  GitGuard.asks_requireCheckpointRef_bind fun own =>
    .bind (passive_run (by simp [gitChanges, movesCheckpointRef, own]) (by simp [sightOf])) fun _ =>
      ⟨trivial⟩

end Passive

/-! ## Programs that look at the checkout -/

section Idle

theorem idle_quiet {q : Quiet} (h : q.plain = true) : (quiet q).Asks Act.Idle := Prog.asks_ask h

theorem idle_run {root : String} {arguments : List String} (h : gitChanges arguments = false) :
    (GitGuard.run root arguments).Asks Act.Idle := Prog.asks_ask h

section Git

open GitGuard

variable {root ref head : String}

theorem idle_status : (status root).Asks Act.Idle :=
  .bind (idle_run rfl) fun _ => .bind (idle_run rfl) fun _ => .bind (idle_run rfl) fun _ =>
    Prog.asks_pure _

theorem idle_snapshot : (snapshot root).Asks Act.Idle :=
  .bind idle_status fun _ => .bind (idle_run rfl) fun _ => Prog.asks_pure _

theorem idle_sensitiveNames : ∀ names, (sensitiveNames names).Asks Act.Idle
  | [] => Prog.asks_pure _
  | _ :: names => .bind (idle_quiet rfl) fun _ => .bind (idle_sensitiveNames names) fun _ =>
      Prog.asks_pure _

theorem idle_rejectSensitiveNames {names : List String} :
    (rejectSensitiveNames names).Asks Act.Idle :=
  .bind (idle_sensitiveNames names) fun _ => Prog.asks_ite asks_reject (Prog.asks_pure _)

theorem idle_sessionFooter {s : String} : (sessionFooter s).Asks Act.Idle :=
  Prog.asks_ite (Prog.asks_pure _) asks_reject

theorem idle_hasSessionFooter {s : String} : (hasSessionFooter root head s).Asks Act.Idle :=
  .bind idle_sessionFooter fun _ => .bind (.bind asks_requireHead fun _ =>
    .bind (idle_run rfl) fun _ => Prog.asks_pure _) fun _ => Prog.asks_pure _

theorem idle_requireBaseline {moved dirty : String} :
    (requireBaseline root head moved dirty).Asks Act.Idle :=
  .bind idle_status fun _ => asks_check fun _ => asks_check fun _ => Prog.asks_pure _

theorem idle_diff {n : ℕ} : (diff root n).Asks Act.Idle :=
  .bind idle_status fun _ => .bind idle_rejectSensitiveNames fun _ =>
    .bind (idle_run rfl) fun _ => .bind idle_rejectSensitiveNames fun _ =>
    .bind (idle_run rfl) fun _ => Prog.asks_pure _

theorem idle_diffNamesFrom : (diffNamesFrom root ref).Asks Act.Idle :=
  .bind (idle_of_passive passive_requireCheckpointRef) fun _ => .bind idle_status fun _ =>
    .bind idle_rejectSensitiveNames fun _ => .bind (idle_run rfl) fun _ =>
    .bind idle_rejectSensitiveNames fun _ => Prog.asks_pure _

theorem idle_diffNamesBetween : (diffNamesBetween root ref head).Asks Act.Idle :=
  .bind (idle_of_passive passive_requireCheckpointRef) fun _ => .bind asks_requireHead fun _ =>
    .bind (idle_run rfl) fun _ => .bind idle_rejectSensitiveNames fun _ => Prog.asks_pure _

theorem idle_diffFrom {n : ℕ} : (diffFrom root ref n).Asks Act.Idle :=
  .bind (idle_of_passive passive_requireCheckpointRef) fun _ => .bind idle_diffNamesFrom fun _ =>
    .bind (idle_run rfl) fun _ => Prog.asks_pure _

theorem idle_diffBetween {n : ℕ} : (diffBetween root ref head n).Asks Act.Idle :=
  .bind (idle_of_passive passive_requireCheckpointRef) fun _ => .bind asks_requireHead fun _ =>
    .bind idle_diffNamesBetween fun _ => .bind (idle_run rfl) fun _ => Prog.asks_pure _

end Git

section Policy

variable {settings : PolicySettings} {project : ProjectSpec} {path : String}

theorem idle_inspectProject {b : Bool} : (inspectProject project b).Asks Act.Idle := by
  refine .bind (idle_quiet rfl) fun _ => asks_check fun _ =>
    .bind (idle_of_passive passive_requireWorktreeRoot) fun _ => .bind idle_status fun _ => ?_
  exact Prog.asks_ite (.bind (idle_of_passive passive_requireAllowedBranch) fun _ =>
    Prog.asks_pure _) (Prog.asks_pure _)

theorem idle_requireMutationPreconditions :
    (requireMutationPreconditions settings project).Asks Act.Idle :=
  .bind idle_inspectProject fun _ => idle_of_passive passive_requireCleanWorkspace

theorem idle_validateFileSize : (validateFileSize settings path).Asks Act.Idle :=
  .bind (asks_orReject (idle_quiet rfl)) fun _ => asks_check fun _ => Prog.asks_pure _

theorem idle_requireRegularFile : (requireRegularFile path).Asks Act.Idle :=
  .bind (idle_quiet rfl) fun _ => asks_check fun _ => .bind (idle_quiet rfl) fun _ =>
    Prog.asks_ite asks_reject (Prog.asks_pure _)

end Policy

section Checkpoints

open Checkpoints

variable {env : Env} {settings : PolicySettings} {project : ProjectSpec}
  {checkpoint : CheckpointRecord} {s o head branch : String}

theorem idle_validateExpectedHead : (validateExpectedHead head).Asks Act.Idle :=
  Prog.asks_ite (Prog.asks_pure _) asks_reject

theorem idle_create {kind : CheckpointKind} :
    (create project s o kind).Asks Act.Idle := by
  refine .bind (idle_of_passive passive_requireWorktreeRoot) fun _ => .bind idle_snapshot
    fun _ => asks_check fun _ => .bind (idle_quiet rfl) fun _ =>
    .bind (idle_of_passive passive_createCheckpointRef) fun _ =>
    .handle (idle_quiet rfl) fun e y he => ?_
  split_ifs at he
  cases he
  exact .bind (asks_exceptBridge (idle_of_passive passive_deleteCheckpointRef) fun _ =>
    Prog.asks_pure _) fun _ => Prog.asks_raise _

theorem idle_requireAfter {message : String} {after : GitSnapshot} :
    (requireAfter checkpoint message after head branch).Asks Act.Idle :=
  Prog.asks_ite asks_reject (Prog.asks_pure _)

theorem idle_finalize :
    (finalize settings project checkpoint head branch).Asks Act.Idle :=
  .bind idle_validateExpectedHead fun _ => asks_check fun _ =>
    .bind idle_snapshot fun _ => .bind idle_requireAfter fun _ =>
    .bind idle_diffNamesBetween fun _ => .bind idle_diffBetween fun _ =>
    .bind idle_snapshot fun _ => .bind idle_requireAfter fun _ => (idle_quiet rfl)

theorem idle_finalizeCurrent :
    (finalizeCurrent settings project checkpoint).Asks Act.Idle :=
  .bind idle_snapshot fun _ => .bind idle_diffNamesFrom fun _ =>
    .bind idle_diffFrom fun _ => (idle_quiet rfl)

theorem idle_determineCommitMode :
    (determineCommitMode project s checkpoint).Asks Act.Idle := by
  refine Prog.asks_ite (Prog.asks_pure _) (.bind (.handle ?_ fun e y he => ?_) fun _ =>
    Prog.asks_pure _)
  · refine .bind idle_status fun _ => Prog.asks_ite (Prog.asks_pure _) <|
      Prog.asks_ite (Prog.asks_pure _) <| Prog.asks_ite (Prog.asks_pure _) <|
      .bind (idle_quiet rfl) fun _ => Prog.asks_ite (Prog.asks_pure _) <|
      .bind idle_hasSessionFooter fun _ => Prog.asks_ite (Prog.asks_pure _) <|
      .bind (GitGuard.asks_sharedRefsContainingHead rfl) fun _ => Prog.asks_pure _
  · split_ifs at he
    cases he
    exact Prog.asks_pure _

theorem idle_beginMutation : (beginMutation env project s o).Asks Act.Idle :=
  .bind idle_requireMutationPreconditions fun _ => .bind idle_create fun _ =>
    .bind idle_determineCommitMode fun _ => Prog.asks_pure _

theorem idle_finishMutation {checkpoint : CheckpointRecord} {head : String} :
    (finishMutation env project checkpoint head).Asks Act.Idle :=
  .bind (asks_exceptBridge idle_finalize fun _ => asks_reject) fun _ => Prog.asks_lift _

theorem idle_requireReadable {settings : PolicySettings} :
    (requireReadable settings path).Asks Act.Idle :=
  .bind idle_requireRegularFile fun _ => .bind idle_validateFileSize fun _ =>
    .bind (asks_orReject (idle_quiet rfl)) fun _ => Prog.asks_ite asks_reject (Prog.asks_pure _)

end Checkpoints

end Idle

end CodemcpBridge
