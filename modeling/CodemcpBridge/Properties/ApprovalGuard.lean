import CodemcpBridge.Config.Terms
import CodemcpBridge.Async.Play
import CodemcpBridge.Async.Within
import CodemcpBridge.Discipline.Watched
import CodemcpBridge.Properties.Runs

/-!
# Configuration cannot switch approval off

However a command gets into `projects.toml` or out of a built-in profile, a command whose kind does
not run by itself is started by a task only after the approval of its operation was consumed; and
the kind, the timeout and the approval of a command stand in `projects.toml`, whatever the project
roots hold.
-/

namespace CodemcpBridge

open Async (Machine)
open scoped Classical

/-- The command stands in a snapshot that `load_projects` accepted. -/
def Registered (project : ProjectSpec) (command : CommandSpec) : Prop :=
  ∃ projects projectId commandId, Loaded projects ∧
    Registry.spec? projects projectId = some project ∧
    project.command? commandId = some command

/-- The task has consumed the approval of the operation whose body it is in. -/
def World.approved (w : World) (t : ℕ) : Prop :=
  ∃ o, w.current t = some o ∧ ∃ e ∈ w.log, e.task = t ∧ e.Consumes o

/-- Every snapshot is loaded; what does not run by itself has been approved. -/
def approvalWatch : Watch where
  within w := Loaded w.registry
  answers _ _ _ _ := True
  allows t w project command := Registered project command ∧
    (command.kind ∉ autoApprovalKinds → w.approved t)
  allows_follows {t w w' project command} hf h := by
    refine ⟨h.1, fun hk => ?_⟩
    obtain ⟨o, ho, e, he, ht, hc⟩ := h.2 hk
    exact ⟨o, hf.current.trans ho, e, hf.mem he, ht, hc⟩

theorem approvalWatch_fits : approvalWatch.Fits where
  direct {t w₁ w projectId commandId o project command} hw hp hc hfree ho hj := by
    refine ⟨⟨w₁.registry, projectId, commandId, hw.within, hp, hc⟩, fun hkind => ?_⟩
    exact absurd (hw.within.guarded hp hc hkind) hfree
  confirmed {t w₀ w o k now st row db project command} hw hs hrun hres ho _ _ _ hlog := by
    simp only [OperationRecord.resolve?, Option.bind_eq_bind, Option.bind_eq_some_iff] at hres
    obtain ⟨commandId, -, project', hp, command', hc, hres⟩ := hres
    have heq : project' = project ∧ command' = command := by
      split at hres
      · split_ifs at hres
        cases hres
        exact ⟨rfl, rfl⟩
      · split_ifs at hres
        cases hres
        exact ⟨rfl, rfl⟩
      · split_ifs at hres
        cases hres
        exact ⟨rfl, rfl⟩
      · cases hres
    obtain ⟨rfl, rfl⟩ := heq
    obtain ⟨new, hnew⟩ := hlog
    refine ⟨⟨w₀.registry, row.projectId, commandId, hw.within, hp, hc⟩, fun _ => ⟨o, ho,
      ⟨t, .done (.consumeApproval o k now), w₀.db, db⟩, ?_, rfl, k, now, rfl⟩⟩
    rw [hnew]
    exact List.mem_append_right new List.mem_cons_self

/-- Surroundings with nothing in the project roots but the script, if there is a text of it. -/
def bareMoment (document : Toml.Table) (script : Option String) : Moment where
  file := .ok { fingerprint := { mtimeNs := 1, size := 0 }, bytes := ByteArray.empty }
  parse _ := .ok document
  bytes _ := match script with
    | some text => .ok text.toUTF8
    | none => .error .osError
  isRegular path := .ok (script.isSome && path == "/p/run_tests.sh")
  expandUser path := .ok path
  resolve path := .ok path

theorem loaded_nil : Loaded [] :=
  ⟨"/c/projects.toml", fun _ => bareMoment [] none, by rfl⟩

/-- In every run of the Bridge whose snapshots `load_projects` has accepted, from whatever documents
and project roots, a command that is started stands in such a snapshot, and if its kind does not run
by itself, the task has consumed the approval of the operation whose body it is in.  Two loads of
one document give a command one kind, one timeout and one approval, whatever the project roots hold.
-/
theorem approval_not_switched_off (settings : PolicySettings) (d : Discretion) :
    (∀ t c x w project command,
      Machine.HasFloor ((bridge settings d).within fun w => Loaded w.registry) {} t c x w →
      x.asking? = some (.invocation project command) → Registered project command ∧
        (command.kind ∉ autoApprovalKinds → w.approved t)) ∧
    ∀ path document (moments moments' : ℕ → Moment) projects projects',
      (∀ n, (moments n).tomlLoad = .ok document) → (∀ n, (moments' n).tomlLoad = .ok document) →
      ((loadProjects path).run Moment.answer moments).1 = .ok projects →
      ((loadProjects path).run Moment.answer moments').1 = .ok projects' →
      ∀ projectId commandId p p' c c', Registry.spec? projects projectId = some p →
        Registry.spec? projects' projectId = some p' → p.command? commandId = some c →
        p'.command? commandId = some c' → c.terms = c'.terms := by
  refine ⟨fun t c x w project command h hx => ?_,
    fun path document moments moments' projects projects' hdoc hdoc' h h' => ?_⟩
  · have given : ∀ t w q a, approvalWatch.given t w q a := fun t w q a => by cases q <;> trivial
    exact Watch.allowed approvalWatch_fits ⟨loaded_nil, Database.sound_empty⟩
      (((Machine.part_answering (bridge settings d) given).within
        fun w => Loaded w.registry).hasFloor h) hx
  · exact fun projectId commandId p p' c c' hp hp' hc hc' =>
      terms_of_document hdoc hdoc' h h' hp hp' hc hc'

/-- A Python project with one more command, of a kind that does not run by itself. -/
def deployDocument : Toml.Table :=
  [("projects", .table [("p", .table [("root", .str "/p"), ("profile", .str "python"),
    ("commands", .table [("c", .table [("kind", .str "deploy"),
    ("argv", .array [.str "run"])])])])])]

/-- What the loader makes of it when the project root holds this script. -/
def deployRegistry (script : Option String) : Registry :=
  match ((loadProjects "/c/projects.toml").run Moment.answer fun _ =>
    bareMoment deployDocument script).1 with
  | .ok projects => projects
  | .error _ => []

theorem loaded_deploy : Loaded (deployRegistry none) :=
  ⟨"/c/projects.toml", fun _ => bareMoment deployDocument none, by decide +kernel⟩

/-- The snapshots of the run below. -/
def onlyDeploy (w : World) : Prop := w.registry = [] ∨ w.registry = deployRegistry none

instance : DecidablePred onlyDeploy := fun w =>
  inferInstanceAs (Decidable (w.registry = [] ∨ w.registry = deployRegistry none))

/-- A run in which the command waits for its approval, is confirmed and gets its checkpoint. -/
def deployRun : List BridgeMove :=
  arrives (some (deployRegistry none)) 1 10 {} (.projectOpen "p") ::
    proceeds 1 11 (printing ["/p", "develop", sampleHead, ""]) ++
  [arrives none 2 20 {} (.runCommand "p" (openedSession 10) "c" none
      (keyFor "run" (commandInput "c" none))),
    arrives none 3 30 {} (.approvalConfirm (drawnId 20 4) (openedSession 10) (drawnId 20 18)
      (keyFor "confirm" [("operation_id", .str (drawnId 20 4)),
        ("approval_token_digest", textDigest (drawnId 20 18))]))] ++
  proceeds 3 40 ("" :: printing ["/p", "develop", sampleHead, "", "/p", "develop", sampleHead,
    "", "", "", "develop", sampleHead] ++ [""])

/-- The question starts a command of a kind that does not run by itself. -/
def startsGuarded : Ask → Bool
  | .invocation _ command => command.kind ∉ autoApprovalKinds
  | _ => false

/-- Where the confirmed command of the run is started. -/
theorem deployRun_starts : ((Async.Machine.Pool.plays ((bridge {} {}).within onlyDeploy) deployRun
    { world := {} }).bind fun p => p.stops ((bridge {} {}).within onlyDeploy) startsGuarded
      (.wake 3 (fair none "" 70 0) fun n => fair none "" 70 (n + 1))).any
        (fun r => r.2.2.1.asking?.any startsGuarded && r.1 == 3) = true := by
  decide +kernel

theorem approval_not_switched_off_deploy :
    (∃ c x w project command,
      Machine.HasFloor ((bridge {} {}).within fun w => Loaded w.registry) {} 3 c x w ∧
      x.asking? = some (.invocation project command) ∧ command.kind ∉ autoApprovalKinds ∧
      Registered project command ∧ w.approved 3) ∧
    ∀ commandId p p' c c', Registry.spec? (deployRegistry none) "p" = some p →
      Registry.spec? (deployRegistry (some "exit 0")) "p" = some p' →
      p.command? commandId = some c → p'.command? commandId = some c' → c.terms = c'.terms := by
  have main := approval_not_switched_off {} {}
  constructor
  · obtain ⟨t, c, x, w, hstop, hask⟩ := Machine.hasFloor_of_played deployRun_starts
    simp only [Bool.and_eq_true, beq_iff_eq] at hask
    obtain ⟨hask, rfl⟩ := hask
    obtain ⟨q, hq, hstarts⟩ := (Option.any_eq_true _ _).1 hask
    unfold startsGuarded at hstarts
    split at hstarts
    · rename_i project command
      have hkind : command.kind ∉ autoApprovalKinds := by simpa using hstarts
      have hloaded : ∀ w, onlyDeploy w → Loaded w.registry := by
        rintro w (h | h) <;> rw [h]
        · exact loaded_nil
        · exact loaded_deploy
      have hfloor := (Machine.part_within (bridge {} {}) hloaded).hasFloor hstop
      obtain ⟨hreg, happroved⟩ := main.1 _ _ _ _ _ _ hfloor hq
      exact ⟨c, x, w, project, command, hfloor, hq, hkind, hreg, happroved hkind⟩
    · cases hstarts
  · exact main.2 "/c/projects.toml" deployDocument (fun _ => bareMoment deployDocument none)
      (fun _ => bareMoment deployDocument (some "exit 0")) _ _ (fun _ => rfl) (fun _ => rfl)
      (by decide +kernel) (by decide +kernel) "p"

end CodemcpBridge
