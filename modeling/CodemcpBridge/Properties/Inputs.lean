import CodemcpBridge.Properties.Replay

/-!
# What a request hash tells apart

The hash of a request covers the input of the call and not the tool.  Most tools build inputs of a
shape of their own; those that share a shape are listed, and a key that two of them share is
answered for the second from the row of the first.
-/

namespace CodemcpBridge

variable {settings : PolicySettings} {d : Discretion} {t : ℕ} {c : Call} {w w' : World}
  {principal : Option AuthContext} {r : StartRequest} {res : Except Exn OperationStart}

/-! ## Shapes of inputs -/

/-- The kind and the input of the operation that a call is stored as, if it is one. -/
def ToolCall.stored (env : Env) : ToolCall → Option (OperationKind × Dict)
  | .approvalConfirm o _ token _ => some (.approvalConfirm,
      [("operation_id", .str o), ("approval_token_digest", textDigest token)])
  | .operationCancel o _ _ => some (.operationCancel, [("operation_id", .str o)])
  | .operationReconcile o _ decision evidence _ => some (.operationReconcile,
      [("operation_id", .str o), ("decision", .str decision.text),
        ("evidence_digest", textDigest evidence)])
  | call => (call.execution env).map fun x => (x.kind, x.input)

/-- The keys of the inputs of a kind. -/
def OperationKind.inputKeys : OperationKind → List String
  | projectOpen => ["project_id"]
  | projectStatus | gitStatus | checkpointCreate => ["project_id", "session_id"]
  | fileRead => ["path", "offset", "limit"]
  | codeSearch => ["pattern", "path", "include"]
  | fileList => ["path"]
  | fileEdit => ["path", "description", "old_string_digest", "new_string_digest"]
  | fileCreate => ["path", "description", "content_digest"]
  | fileWrite => ["path", "description", "expected_sha256", "content_digest"]
  | fileMove => ["source_path", "destination_path", "description"]
  | fileDelete | directoryCreate => ["path", "description"]
  | registeredCommandRun => ["command_id"]
  | formatRun | testRun => ["command_id", "expected_kind"]
  | gitDiff => ["project_id", "session_id", "checkpoint_id"]
  | checkpointRestore => ["project_id", "session_id", "checkpoint_id", "expected_head"]
  | approvalConfirm => ["operation_id", "approval_token_digest"]
  | operationCancel => ["operation_id"]
  | operationReconcile => ["operation_id", "decision", "evidence_digest"]

theorem ToolCall.stored_keys {env : Env} {call : ToolCall} {k : OperationKind} {input : Dict}
    (h : call.stored env = some (k, input)) : input.map Prod.fst = k.inputKeys := by
  cases call with
  | runCommand p s commandId kind key => rcases kind with _ | _ | _ <;> cases h <;> rfl
  | operationStatus | health => cases h
  | _ =>
    cases h
    rfl

theorem Json.insertKey_perm (x : String × Json) : ∀ d : Dict, (Json.insertKey x d).Perm (x :: d)
  | [] => .refl _
  | y :: ys => by
      unfold Json.insertKey
      split_ifs
      · exact .refl _
      · exact ((Json.insertKey_perm x ys).cons y).trans (.swap x y ys)

theorem Json.sortKeys_perm : ∀ d : Dict, (Json.sortKeys d).Perm d
  | [] => .refl _
  | x :: xs => (Json.insertKey_perm x _).trans ((Json.sortKeys_perm xs).cons x)

theorem Json.canonicalFields_keys : ∀ d : Dict,
    (Json.canonicalFields d).map Prod.fst = d.map Prod.fst
  | [] => rfl
  | (k, x) :: xs => by simp [Json.canonicalFields, Json.canonicalFields_keys xs]

/-- Inputs with one hash have the same keys. -/
theorem keys_perm {a b : Dict} (h : requestHash (.obj a) = requestHash (.obj b)) :
    (a.map Prod.fst).Perm (b.map Prod.fst) := by
  have hcanonical := Json.obj.inj (requestHash_inj.1 h)
  have sorted : ∀ d : Dict,
      ((Json.sortKeys (Json.canonicalFields d)).map Prod.fst).Perm (d.map Prod.fst) := fun d => by
    rw [← Json.canonicalFields_keys d]
    exact (Json.sortKeys_perm _).map _
  exact (sorted a).symm.trans (hcanonical ▸ sorted b)

theorem Json.ofOption_eq_str {o : Option String} {s : String} :
    Json.ofOption o = .str s ↔ o = some s := by
  cases o <;> simp [Json.ofOption]

theorem Json.str_eq_ofOption {o : Option String} {s : String} :
    .str s = Json.ofOption o ↔ o = some s := by
  cases o <;> simp [Json.ofOption, eq_comm]

theorem Json.canonical_ofOption (o : Option String) :
    (Json.ofOption o).canonical = Json.ofOption o := by
  cases o <;> rfl

/-- The kinds that share the shape of their inputs. -/
def OperationKind.sharesShape : OperationKind → OperationKind → Bool
  | fileDelete, directoryCreate | directoryCreate, fileDelete => true
  | formatRun, testRun | testRun, formatRun => true
  | projectStatus, gitStatus | projectStatus, checkpointCreate => true
  | gitStatus, projectStatus | gitStatus, checkpointCreate => true
  | checkpointCreate, projectStatus | checkpointCreate, gitStatus => true
  | _, _ => false

theorem OperationKind.sharesShape_of_perm {k k' : OperationKind}
    (h : k.inputKeys.Perm k'.inputKeys) (hne : k ≠ k') : k.sharesShape k' = true := by
  revert h hne
  cases k <;> cases k' <;> decide

/-- Calls of different tools that build the same input. -/
inductive Collides : ToolCall → ToolCall → Prop
  | removal {p s path description key p' s' key'} :
      Collides (.fileDelete p s path description key) (.directoryCreate p' s' path description key')
  | statuses {p s} : Collides (.projectStatus p (some s)) (.gitStatus p s)
  | projectCheckpoint {p s key} : Collides (.projectStatus p (some s)) (.checkpointCreate p s key)
  | gitCheckpoint {p s key} : Collides (.gitStatus p s) (.checkpointCreate p s key)
  | symm {a b} : Collides a b → Collides b a

theorem Collides.stored {env env' : Env} {a b : ToolCall} (h : Collides a b) :
    ∀ {k k' : OperationKind} {i i' : Dict}, a.stored env = some (k, i) →
      b.stored env' = some (k', i') → k ≠ k' ∧ i = i' := by
  induction h generalizing env env' with
  | symm _ ih =>
    intro k k' i i' ha hb
    obtain ⟨hk, hi⟩ := ih hb ha
    exact ⟨hk.symm, hi.symm⟩
  | _ =>
    intro k k' i i' ha hb
    cases ha
    cases hb
    exact ⟨nofun, rfl⟩

/-- The calls whose inputs have a shape that another tool's have too. -/
inductive ToolCall.Shaped : ToolCall → OperationKind → Dict → Prop
  | fileDelete {p s path description key} :
      Shaped (.fileDelete p s path description key) .fileDelete
        [("path", .str path), ("description", .str description)]
  | directoryCreate {p s path description key} :
      Shaped (.directoryCreate p s path description key) .directoryCreate
        [("path", .str path), ("description", .str description)]
  | formatRun {p s commandId key} : Shaped (.runCommand p s commandId (some .format) key) .formatRun
      [("command_id", .str commandId), ("expected_kind", .str "format")]
  | testRun {p s commandId key} : Shaped (.runCommand p s commandId (some .test) key) .testRun
      [("command_id", .str commandId), ("expected_kind", .str "test")]
  | projectStatus {p s} : Shaped (.projectStatus p s) .projectStatus
      [("project_id", .str p), ("session_id", .ofOption s)]
  | gitStatus {p s} : Shaped (.gitStatus p s) .gitStatus
      [("project_id", .str p), ("session_id", .str s)]
  | checkpointCreate {p s key} : Shaped (.checkpointCreate p s key) .checkpointCreate
      [("project_id", .str p), ("session_id", .str s)]

theorem ToolCall.shaped {env : Env} {call : ToolCall} {k k' : OperationKind} {i : Dict}
    (h : call.stored env = some (k, i)) (hshape : k.sharesShape k' = true) : call.Shaped k i := by
  cases call with
  | fileDelete | directoryCreate | projectStatus | gitStatus | checkpointCreate =>
    cases h
    constructor
  | runCommand p s commandId kind key =>
    rcases kind with _ | _ | _ <;> cases h
    · cases k' <;> cases hshape
    · exact .formatRun
    · exact .testRun
  | operationStatus | health => cases h
  | _ =>
    cases h
    cases k' <;> cases hshape

theorem OperationKind.sharesShape_symm {k k' : OperationKind} (h : k.sharesShape k' = true) :
    k'.sharesShape k = true := by
  revert h
  cases k <;> cases k' <;> decide

/-- Two calls of different tools have one hash exactly where they collide. -/
theorem collides_iff {env env' : Env} {a b : ToolCall} {k k' : OperationKind} {i i' : Dict}
    (ha : a.stored env = some (k, i)) (hb : b.stored env' = some (k', i')) :
    k ≠ k' ∧ requestHash (.obj i) = requestHash (.obj i') ↔ Collides a b := by
  refine ⟨fun ⟨hne, hhash⟩ => ?_, fun h => ?_⟩
  · have hperm := keys_perm hhash
    rw [ToolCall.stored_keys ha, ToolCall.stored_keys hb] at hperm
    have hshape := OperationKind.sharesShape_of_perm hperm hne
    have hcanonical := requestHash_inj.1 hhash
    have sorted : Text.le "path" "description" = false ∧ Text.le "project_id" "session_id" = true ∧
        Text.le "command_id" "expected_kind" = true := by decide
    cases ToolCall.shaped ha hshape <;>
      cases ToolCall.shaped hb (OperationKind.sharesShape_symm hshape) <;> cases hshape
    all_goals
      simp only [Json.canonical, Json.canonicalFields, Json.sortKeys, Json.insertKey, sorted,
        Json.canonical_ofOption, Json.obj.injEq, List.cons.injEq, Prod.mk.injEq, Json.str.injEq,
        Json.ofOption_eq_str, Json.str_eq_ofOption, String.reduceEq, and_true, true_and,
        if_true, Bool.false_eq_true, if_false, and_false] at hcanonical
    all_goals obtain ⟨rfl, rfl⟩ := hcanonical
    · exact .removal
    · exact .symm .removal
    · exact .statuses
    · exact .projectCheckpoint
    · exact .symm .statuses
    · exact .gitCheckpoint
    · exact .symm .projectCheckpoint
    · exact .symm .gitCheckpoint
  · obtain ⟨hne, rfl⟩ := h.stored ha hb
    exact ⟨hne, rfl⟩

/-! ## Keys that two calls share -/

/-- The call `b` is about to start under a key of which the row `o`, stored for the call `a`, has
the project, the session, the identity and the request id. -/
structure SharedKey (settings : PolicySettings) (d : Discretion) (a b : ToolCall)
    (principal : Option AuthContext) (r : StartRequest) (o : OperationRecord) (t : ℕ) (w : World) :
    Prop where
  stand : ∃ c, Standing settings d t c principal r w
  check : r.check = .ok ()
  row : existingRow principal r w.db = some o
  identity : (w.db.operationAuthContext? o.operationId).bind authContextIdentity =
    (principal.map authAuditDetails).bind authContextIdentity
  first : ∃ env, a.stored env = some (o.kind, o.input)
  second : ∃ env, b.stored env = some (r.kind, r.input)

/-- What is replayed is the outcome of the same tool on the same input, and a key of another tool is
a conflict. -/
def Belongs (o : OperationRecord) (r : StartRequest) (res : Except Exn OperationStart) : Prop :=
  (∀ start payload, res = .ok start → start.replay = some payload → start.record = o ∧
    o.kind = r.kind ∧ (Json.obj o.input).canonical = (Json.obj r.input).canonical) ∧
  (o.kind ≠ r.kind → isConflict res = true ∨ res = .error .other)

variable {a b : ToolCall} {o : OperationRecord}

theorem replayOf_cases (o : OperationRecord) :
    (∃ payload, replayOf o = .ok payload) ∨ replayOf o = .error (replayOf.inProgress o) := by
  unfold replayOf
  split
  · exact .inl ⟨_, rfl⟩
  · by_cases hunknown : o.state = .unknown
    · exact .inl ⟨_, if_pos hunknown⟩
    · rw [if_neg hunknown]
      split
      · by_cases hend : o.state = .failed ∨ o.state = .cancelled
        · exact .inl ⟨_, if_pos hend⟩
        · exact .inr (if_neg hend)
      · exact .inr rfl

/-- A row whose identity and hash fit is no conflict. -/
theorem rowAnswer_no_conflict {db : Database}
    (hid : (db.operationAuthContext? o.operationId).bind authContextIdentity =
      (principal.map authAuditDetails).bind authContextIdentity)
        (hhash : o.requestHash = r.digest) :
    isConflict (rowAnswer principal r db o) = false ∧
      rowAnswer principal r db o ≠ .error .other := by
  have hstart : existingStart o (db.operationAuthContext? o.operationId)
      (principal.map authAuditDetails) r.digest =
        (replayOf o).map fun payload => { record := o, replay := some payload } := by
    simp [existingStart, hid, hhash]
  simp only [rowAnswer, hstart]
  rcases replayOf_cases o with ⟨payload, h⟩ | h
  · rw [h]
    exact ⟨rfl, fun h => by cases h⟩
  · rw [h]
    exact ⟨rfl, fun h => by cases h⟩

theorem rowAnswer_ok {db : Database} {start : OperationStart}
    (h : rowAnswer principal r db o = .ok start) : start.record = o ∧ o.requestHash = r.digest := by
  unfold rowAnswer at h
  split at h
  · rename_i start' hstart
    cases h
    unfold existingStart at hstart
    split_ifs at hstart with _ hhash
    refine ⟨?_, not_not.1 hhash⟩
    cases hreplay : replayOf o with
    | error e =>
      rw [hreplay] at hstart
      cases hstart
    | ok payload =>
      rw [hreplay] at hstart
      cases hstart
      rfl
  · cases h

/-- Under a key of a call that collides, another tool's outcome is the answer. -/
theorem SharedKey.astray (h : SharedKey settings d a b principal r o t w) (hab : Collides a b) :
    ∃ res w', StartRun settings d t principal r w res w' ∧ ¬ Belongs o r res := by
  obtain ⟨⟨c, hstand⟩, hcheck, hrow, hid, ⟨env, hfirst⟩, ⟨env', hsecond⟩⟩ := h
  have hhashed := hstand.wp.1.rows.hashed o (mem_of_existingRow hrow)
  obtain ⟨hne, hhash⟩ := (collides_iff hfirst hsecond).2 hab
  obtain ⟨hconflict, hfails⟩ := rowAnswer_no_conflict (r := r) hid (hhashed.trans hhash)
  refine ⟨_, _, startRun_existing hcheck hrow, fun hbelongs => ?_⟩
  rcases hbelongs.2 hne with h | h
  · rw [hconflict] at h
    cases h
  · exact hfails h

/-- What is answered from the store belongs to the call, if and only if the key was not used by a
call of another tool that builds the same input. -/
theorem replays_belong (h : SharedKey settings d a b principal r o t w) :
    (∀ res w', StartRun settings d t principal r w res w' → Belongs o r res) ↔ ¬ Collides a b := by
  constructor
  · intro hall hab
    obtain ⟨res, w', hrun, hnot⟩ := h.astray hab
    exact hnot (hall res w' hrun)
  · intro hab res w' hrun
    obtain ⟨⟨c, hstand⟩, hcheck, hrow, hid, ⟨env, hfirst⟩, ⟨env', hsecond⟩⟩ := h
    have hhashed := hstand.wp.1.rows.hashed o (mem_of_existingRow hrow)
    obtain ⟨-, hres⟩ := hrun.existing hcheck hrow
    have hsame : o.requestHash = r.digest → o.kind = r.kind := fun hhash => by
      by_contra hne
      exact hab ((collides_iff hfirst hsecond).1 ⟨hne, hhashed.symm.trans hhash⟩)
    refine ⟨fun start payload hok hreplay => ?_, fun hne => ?_⟩
    · rcases hres with rfl | rfl
      · obtain ⟨hrecord, hhash⟩ := rowAnswer_ok hok
        exact ⟨hrecord, hsame hhash, requestHash_inj.1 (hhashed.symm.trans hhash)⟩
      · cases hok
    · rcases hres with rfl | rfl
      · have hhash : o.requestHash ≠ r.digest := fun hhash => hne (hsame hhash)
        left
        simp [rowAnswer, existingStart, hid, hhash, isConflict]
      · exact .inr rfl

/-! ## A deletion answers for a directory -/

/-- What is answered from the store always belongs to the call that asks. -/
def RepliesBelong (settings : PolicySettings) (d : Discretion) : Prop :=
  ∀ a b principal r o t w, SharedKey settings d a b principal r o t w →
    ∀ res w', StartRun settings d t principal r w res w' → Belongs o r res

/-- A directory of the same name and with the same description as the sample deletion. -/
def sampleDirectory : ToolCall :=
  .directoryCreate "p" "s" "a" "" (keyFor "k" [("path", .str "a"), ("description", .str "")])

/-- What `start` answers to the call of the directory. -/
def directoryAsked (p : BridgePool) : Option Asked :=
  (sampleDirectory.execution { settings := {}, principal := sampleCaller.principal }).bind fun x =>
    Asked.of {} {} p 2 sampleCaller sampleDirectory x (fair none "" 11) (fair none "" 12)

/-- The answer comes from a row of the sample deletion. -/
def Asked.fromDelete (a : Asked) : Bool :=
  a.request.check.isOk && decide (a.request.kind = .directoryCreate) &&
    decide (a.request.input = [("path", .str "a"), ("description", .str "")]) &&
    (existingRow sampleCaller.principal a.request a.world.db).any fun o =>
      decide (o.kind = .fileDelete) &&
        decide (o.input = [("path", .str "a"), ("description", .str "")]) &&
        decide ((a.world.db.operationAuthContext? o.operationId).bind authContextIdentity =
          (sampleCaller.principal.map authAuditDetails).bind authContextIdentity)

theorem shared_key : ∃ r o t w, SharedKey {} {} sampleDelete sampleDirectory sampleCaller.principal
    r o t w := by
  obtain ⟨p, hp, h⟩ := @reached_of_played {} {} [arrives none 1 10 sampleCaller sampleDelete]
    (fun p => (directoryAsked p).any Asked.fromDelete) (by decide +kernel)
  obtain ⟨a, ha, h⟩ := (Option.any_eq_true _ _).1 h
  obtain ⟨x, hx, ha⟩ := Option.bind_eq_some_iff.1 ha
  have hprogram : sampleDirectory.program {} sampleCaller =
      some <$> execute {} sampleCaller x := by
    cases hx
    rfl
  simp only [Asked.fromDelete, Bool.and_eq_true, decide_eq_true_eq, Option.any_eq_true] at h
  obtain ⟨⟨⟨hcheck, hkind⟩, hinput⟩, o, ho, ⟨hkind', hinput'⟩, hid⟩ := h
  refine ⟨a.request, o, 2, a.world, ⟨_, (Asked.standing hp hprogram ha).1⟩, ?_, ho, hid,
    ⟨{}, ?_⟩, ⟨{}, ?_⟩⟩
  · revert hcheck
    cases a.request.check <;> simp [Except.isOk, Except.toBool]
  · rw [hkind', hinput']
    rfl
  · rw [hkind, hinput]
    rfl

/-- The directory is not created: the outcome of the deletion is its answer. -/
theorem delete_answers_directory : ¬ RepliesBelong {} {} := by
  obtain ⟨r, o, t, w, h⟩ := shared_key
  obtain ⟨res, w', hrun, hnot⟩ := h.astray .removal
  exact fun hall => hnot (hall _ _ _ _ _ _ _ h _ _ hrun)

/-- The two calls under one key. -/
theorem replays_belong_directory : ∃ r o t w,
    SharedKey {} {} sampleDelete sampleDirectory sampleCaller.principal r o t w ∧
      ((∀ res w', StartRun {} {} t sampleCaller.principal r w res w' → Belongs o r res) ↔
        ¬ Collides sampleDelete sampleDirectory) := by
  obtain ⟨r, o, t, w, h⟩ := shared_key
  exact ⟨r, o, t, w, h, replays_belong h⟩

end CodemcpBridge
