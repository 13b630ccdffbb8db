import CodemcpBridge.Async.Play
import CodemcpBridge.Db.Onward
import CodemcpBridge.Discipline.Serving

/-!
# What every run leaves

Facts about every reachable pool that rest on no discipline: the store is one that methods have
left, and every entry of the log is a method that ran or a point that was passed.
-/

namespace CodemcpBridge

open Database (Sound)

/-! ## What store methods alone can make of the store -/

/-- A store that some sequence of methods has left, each with any arguments; a method that fails
leaves the store as it was. -/
inductive Stored : Database → Prop
  | empty : Stored {}
  | operation {db db' : Database} {st : Stamp} {c : OperationCall} {a : c.Result} :
      Stored db → c.run db st = .ok (a, db') → Stored db'
  | other {db db' : Database} {st : Stamp} {c : StoreCall} {a : c.Result} :
      Stored db → c.run db st = .ok (a, db') → Stored db'

theorem Stored.sound {db : Database} (h : Stored db) : db.Sound := by
  induction h with
  | empty => exact Database.sound_empty
  | operation _ hrun ih => exact (OperationCall.run_sound ih hrun).1
  | other _ hrun ih => exact ih.same (StoreCall.run_same hrun)

theorem Stored.written {db db' : Database} (h : Stored db) (hw : Written db db') : Stored db' := by
  induction hw with
  | refl => exact h
  | operation _ hrun ih => exact ih.operation hrun
  | other _ hrun ih => exact ih.other hrun

section Runs

variable {settings : PolicySettings} {d : Discretion} {t : ℕ} {w w' : World}

theorem written_answered {α : Type} {s : Bool} {r a : Except Exn α}
    (he : answered s w r = some (a, w')) : Written w.db w'.db := by
  unfold answered at he
  split at he
  · split at he <;> cases he
    exact .refl
  · cases he
    exact .refl

theorem written_execQuiet {e : Choice} {q : Quiet} {a : Except Exn q.Result}
    (he : execQuiet w e q = some (a, w')) : Written w.db w'.db := by
  cases q with
  | store c =>
    simp only [execQuiet] at he
    split at he
    · cases he
      exact .refl
    · split at he
      · rename_i hrun
        cases he
        exact Written.refl.other hrun
      · cases he
        exact .refl
  | snapshot =>
    cases he
    exact .refl
  | refreshIfChanged =>
    simp only [execQuiet] at he
    split at he
    · cases he
      exact .refl
    · exact written_answered he
  | acquire p =>
    simp only [execQuiet] at he
    split at he
    · split at he <;> cases he
      exact .refl
    · cases he
      exact .refl
    · cases he
  | release p =>
    cases he
    exact .refl
  | uuid | token =>
    simp only [execQuiet, drawn] at he
    split at he
    · split at he <;> cases he
      exact .refl
    · cases he
  | now | adapterActive p =>
    simp only [execQuiet, certain] at he
    split at he <;> cases he
    exact .refl
  | _ => exact written_answered he

/-- A question leaves the store as it was, or as a method has made it. -/
theorem written_exec {q : Ask} {e : Choice} {a : Except Exn q.Result}
    (he : exec d t q w e = some (a, w')) : Written w.db w'.db := by
  cases q with
  | quiet q => exact written_execQuiet he
  | operation c =>
    simp only [exec, execOperation, Option.some.injEq] at he
    split at he
    · cases he
      exact .refl
    · rename_i hrun
      cases he
      simpa using Written.refl.operation hrun
  | started | setStarted b =>
    cases he
    exact .refl
  | mark m =>
    have hw := exec_mark he
    subst hw
    cases m <;> exact .refl
  | invocation p c => exact written_answered he
  | spawn i =>
    simp only [exec] at he
    split at he
    · split at he <;> cases he
      exact .refl
    · cases he
      exact .refl
  | communicate handle s =>
    rcases execWait_cases he with rfl | rfl | ⟨-, rfl⟩ <;> exact .refl
  | terminate handle =>
    simp only [exec] at he
    split at he
    · cases he
    · rcases execWait_cases he with rfl | rfl | ⟨-, rfl⟩ <;> exact .refl

theorem written_shutdownStep {db : Database} {st : Stamp} {s : String} {status : SessionStatus} :
    Written db (match db.transitionSession st s status (some "bridge_shutdown") with
      | .ok (_, db) => db
      | .error _ => db) := by
  split
  · next hrun =>
    exact Written.refl.other (c := .transitionSession s status (some "bridge_shutdown")) hrun
  · exact .refl

theorem written_closeBridge {db : Database} {st : Stamp} : Written db (closeBridge db st) := by
  have close : ∀ {db s}, Written db (closeSession st db s) := by
    intro db s
    unfold closeSession
    split
    · dsimp only
      split_ifs
      · exact written_shutdownStep.trans written_shutdownStep
      · exact .refl
      · exact written_shutdownStep
    · exact .refl
  have fold : ∀ (l : List String) (db : Database), Written db (l.foldl (closeSession st) db) := by
    intro l
    induction l with
    | nil => exact fun db => .refl
    | cons s l ih => exact fun db => close.trans (ih _)
  exact fold _ db

theorem written_arrive {c : Call} (ha : (bridge settings d).arrive t c w = some w') :
    Written w.db w'.db := by
  simp only [bridge] at ha
  split at ha <;> cases ha
  exact .refl

theorem written_crash {x : Registry × Stamp} (hl : (bridge settings d).crash x w = some w') :
    Written w.db w'.db := by
  simp only [bridge] at hl
  split at hl <;> cases hl
  exact .refl

theorem written_quit {x : Registry × Stamp} (hl : (bridge settings d).quit x w = some w') :
    Written w.db w'.db := by
  simp only [bridge] at hl
  split at hl <;> cases hl
  exact written_closeBridge

theorem stored_exec {q : Ask} {e : Choice} {a : Except Exn q.Result} (h : Stored w.db)
    (he : exec d t q w e = some (a, w')) : Stored w'.db := h.written (written_exec he)

theorem stored_arrive {c : Call} (h : Stored w.db)
    (ha : (bridge settings d).arrive t c w = some w') : Stored w'.db :=
      h.written (written_arrive ha)

theorem stored_crash {x : Registry × Stamp} (h : Stored w.db)
    (hl : (bridge settings d).crash x w = some w') : Stored w'.db := h.written (written_crash hl)

theorem stored_quit {x : Registry × Stamp} (h : Stored w.db)
    (hl : (bridge settings d).quit x w = some w') : Stored w'.db := h.written (written_quit hl)

/-- Every store that a run of the process reaches is one that methods have left. -/
theorem Reached.stored {p} (h : Reached settings d p) : Stored p.world.db :=
  h.always (I := fun w => Stored w.db) stored_exec stored_arrive stored_crash stored_quit .empty

/-! ## The log -/

/-- The entry is a method that ran on its store, or leaves the store alone. -/
def Entry.Faithful (e : Entry) : Prop :=
  match e.event with
  | .done c => ∃ st a, c.run e.before st = .ok (a, e.after)
  | .mark _ => e.after = e.before

theorem faithful_exec {q : Ask} {e : Choice} {a : Except Exn q.Result}
    (h : ∀ e ∈ w.log, e.Faithful) (he : exec d t q w e = some (a, w')) :
    ∀ e ∈ w'.log, e.Faithful := by
  cases q with
  | quiet q => exact (execQuiet_keeps (q := q) he).log ▸ h
  | operation c =>
    simp only [exec, execOperation, Option.some.injEq] at he
    split at he
    · cases he
      exact h
    · rename_i hrun
      cases he
      simpa [Entry.Faithful] using ⟨⟨_, _, hrun⟩, h⟩
  | started | setStarted b =>
    cases he
    exact h
  | mark m =>
    have hw := exec_mark he
    subst hw
    have : (execMark t m w).log = ⟨t, .mark m, w.db, w.db⟩ :: w.log := by cases m <;> rfl
    simpa [this, Entry.Faithful] using h
  | invocation p c => exact (answered_keeps he).log ▸ h
  | spawn i =>
    simp only [exec] at he
    split at he
    · split at he <;> cases he
      exact h
    · cases he
      exact h
  | communicate handle s =>
    rcases execWait_cases he with rfl | rfl | ⟨-, rfl⟩ <;> exact h
  | terminate handle =>
    simp only [exec] at he
    split at he
    · cases he
    · rcases execWait_cases he with rfl | rfl | ⟨-, rfl⟩ <;> exact h

/-- Every entry of the log of a run is faithful. -/
theorem Reached.faithful {p} (h : Reached settings d p) : ∀ e ∈ p.world.log, e.Faithful := by
  refine h.always (I := fun w => ∀ e ∈ w.log, e.Faithful) faithful_exec (fun {t c w w'} hs ha => ?_)
    (fun {x w w'} hs hl => ?_) (fun {x w w'} hs hl => ?_) (by simp)
  all_goals simp only [bridge] at *
  · split at ha <;> cases ha
    exact hs
  · split at hl <;> cases hl
    exact hs
  · split at hl <;> cases hl
    exact hs

/-- The method that an entry records. -/
theorem Reached.method {p} (h : Reached settings d p) {e : Entry} (he : e ∈ p.world.log)
    {c : OperationCall} (hc : e.event = .done c) : ∃ st a, c.run e.before st =
      .ok (a, e.after) := by
  have := h.faithful e he
  rwa [Entry.Faithful, hc] at this

/-- Every entry of the log of a run, with the older ones, says what it should. -/
theorem Reached.entry {p} (h : Reached settings d p) {newer older : List Entry} {e : Entry}
    (hlog : p.world.log = newer ++ e :: older) : EntryOk p.world.calls older e := by
  have := h.inv.history.lawful
  rw [hlog] at this
  exact this.split

end Runs

/-! ## Runs that can be played -/

/-- A move of the Bridge process. -/
abbrev BridgeMove := Async.Move ℕ Call Choice (Registry × Stamp)

/-- A pool of the Bridge process. -/
abbrev BridgePool :=
  Async.Machine.Pool ℕ Call Ask (fun q => Except Exn q.Result) World (Except Exn (Option Payload))

/-- What the moves make of an empty store. -/
def played (settings : PolicySettings) (d : Discretion) (moves : List BridgeMove) :
    Option BridgePool :=
  Async.Machine.Pool.plays (bridge settings d) moves { world := {} }

/-- What a played run is seen to do, some run does. -/
theorem reached_of_played {settings : PolicySettings} {d : Discretion} {moves : List BridgeMove}
    {check : BridgePool → Bool} (h : (played settings d moves).any check = true) :
    ∃ p, Reached settings d p ∧ check p = true := by
  obtain ⟨p, hp, hc⟩ := (Option.any_eq_true _ _).1 h
  exact ⟨p, Async.Machine.Reachable.plays .init hp, hc⟩

/-- What a played run and one more move are seen to do, some run and one more step do. -/
theorem step_of_played {settings : PolicySettings} {d : Discretion} {moves : List BridgeMove}
    {move : BridgeMove} {check : BridgePool → BridgePool → Bool}
      (h : (played settings d moves).any (fun p =>
      (p.play (bridge settings d) move).any (check p)) = true) :
    ∃ p p', Reached settings d p ∧ Async.Machine.Step (bridge settings d) p p' ∧
      check p p' = true := by
  obtain ⟨p, hp, hstep⟩ := reached_of_played h
  obtain ⟨p', hp', hc⟩ := (Option.any_eq_true _ _).1 hstep
  exact ⟨p, p', hp, Async.Machine.Pool.play_step hp', hc⟩

/-- A project with one command that needs an approval. -/
def sampleProject : ProjectSpec :=
  { projectId := "p", root := "/p", allowedBranches := ["*"], requireCleanWorkspace := true
    codemcpConfig := "codemcp.toml"
    commands := [("c", { commandId := "c", kind := "test", argv := ["run"], timeoutSeconds := 60
                         approval := .required })] }

/-- The id that is drawn at question `n` of turn `k`: 32 digits. -/
def drawnId (k n : ℕ) : String :=
  let digits := (toString (1000 * k + n)).toList
  String.ofList (List.replicate (32 - digits.length) '0' ++ digits)

/-- Surroundings in which all goes well at question `n` of turn `k`: the registry file has changed
to `registry` if that is given, and `out` is what a subprocess prints that has just been waited for.
-/
def fair (registry : Option Registry) (out : String) (k n : ℕ) : Choice where
  answer
    | .quiet .refreshIfChanged => .ok registry
    | .quiet .uuid | .quiet .token => .ok (drawnId k n)
    | .quiet .now => .ok k
    | .quiet (.adapterActive _) => .ok false
    | .quiet (.acquire _) => .ok ()
    | .quiet (.isDir _) | .quiet (.exists_ _) | .quiet (.isFile _) => .ok true
    | .quiet (.resolvePath _ path _) =>
      .ok (sampleProject, "/p/" ++ path.getD "", path.getD "")
    | .quiet (.isSensitive _) => .ok false
    | .quiet (.resolved path) => .ok path
    | .quiet (.lstatConfig _) => .ok ()
    | .quiet (.configuredArgv ..) => .ok (some ["run"])
    | .invocation .. => .ok { executable := "run", arguments := [], cwd := none }
    | .spawn _ => .ok k
    | .communicate .. =>
      .ok { returncode := 0, stdout := out.toUTF8, stderr := ByteArray.empty }
    | .terminate _ => .ok ()
    | _ => .error .other

/-- The wait is cancelled at turn `k`. -/
def cancels (t k : ℕ) : BridgeMove :=
  .wake t { answer := fun _ => .error .cancelled } fun n => fair none "" k (n + 1)

/-- A call of task `t` has its first turn, which is turn `k`. -/
def arrives (registry : Option Registry) (t k : ℕ) (caller : Caller) (call : ToolCall) :
    BridgeMove :=
  .call t (caller, call) (fair registry "" k)

/-- Task `t` gets its next answers one after the other, from turn `k` on. -/
def proceeds (t : ℕ) : ℕ → List String → List BridgeMove
  | _, [] => []
  | k, out :: outs =>
    .wake t (fair none out k 0) (fun n => fair none out k (n + 1)) :: proceeds t (k + 1) outs

/-- What has to be answered while Git commands print `outs`: each one starts and ends. -/
def printing (outs : List String) : List String := outs.flatMap fun out => ["", out]

/-- A key with the right digest of the input. -/
def keyFor (clientRequestId : String) (input : Dict) : RequestKey :=
  { clientRequestId := some clientRequestId, requestHash := some (.hex (requestHash (.obj input))) }

def sampleHead : String := "0123456789012345678901234567890123456789"

/-- A session of the sample project is opened by task `t` from turn `k` on; its id is drawn in the
last one of these turns. -/
def opening (t k : ℕ) (caller : Caller) : List BridgeMove :=
  arrives (some [("p", sampleProject)]) t k caller (.projectOpen "p") ::
    proceeds t (k + 1) (printing ["/p", "main", sampleHead, ""])

/-- The session that `opening` opens from turn `k` on. -/
def openedSession (k : ℕ) : String := drawnId (k + 8) 1

/-- What Git prints for a clean work tree. -/
def cleanStatus : List String := ["main", sampleHead, ""]

/-- A session is opened, and a deletion by task 2 has come to where `git rm` runs. -/
def deleting : List BridgeMove :=
  opening 1 10 {} ++
    arrives none 2 20 {} (.fileDelete "p" (openedSession 10) "x" "d" (keyFor "delete"
      [("path", .str "x"), ("description", .str "d")])) ::
    proceeds 2 21 ("" :: printing (["/p"] ++ cleanStatus ++ ["/p"] ++ cleanStatus ++
      ["100644 blob 0\tx", ""] ++ cleanStatus ++ cleanStatus) ++ [""])

/-- The task has ended, in a cancellation or not. -/
def hasEnded (p : BridgePool) (t : ℕ) (cancelled : Bool) : Bool :=
  p.ended.any fun x => x.1 == t && cancelled == decide (x.2.2 = .error .cancelled)

theorem hasEnded_cancelled {p : BridgePool} {t : ℕ} :
    hasEnded p t true = true ↔ ∃ c, (t, c, .error .cancelled) ∈ p.ended := by
  simp only [hasEnded, List.any_eq_true, Bool.and_eq_true, beq_iff_eq]
  constructor
  · rintro ⟨⟨_, c, r⟩, hin, rfl, hr⟩
    cases of_decide_eq_true hr.symm
    exact ⟨c, hin⟩
  · rintro ⟨c, hin⟩
    exact ⟨_, hin, rfl, (decide_eq_true rfl).symm⟩

end CodemcpBridge
