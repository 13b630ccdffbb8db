import CodemcpBridge.Db.Store

/-!
# Checkpoints in the store

The transactions on the `checkpoints` table, and the query that looks for evidence that the commit
at `HEAD` is work in progress of a session.
-/

namespace CodemcpBridge

namespace Database

/-- `create_checkpoint`. -/
def createCheckpoint (db : Database) (st : Stamp) (checkpointId projectId : String)
    (sessionId operationId : Option String) (ownerId : String) (kind : CheckpointKind)
    (branch head refName : String) (before : Json) :
    Except Exn (CheckpointRecord × Database) := do
  let now := db.clock st
  let row : CheckpointRecord := {
    checkpointId, projectId, sessionId, operationId, ownerId, kind, branch, head, refName
    before := .value before, createdAt := now, updatedAt := now }
  let db₁ ← db.insertCheckpoint row
  pure (row, db₁.audit st operationId projectId sessionId ownerId "checkpoint.created" none
    "created" [("checkpoint_id", .str checkpointId), ("kind", .str kind.text),
      ("branch", .str branch), ("head", .str head), ("ref_name", .str refName)])

/-- `finalize_checkpoint`. -/
def finalizeCheckpoint (db : Database) (st : Stamp) (checkpointId : String) (after : Dict)
    (diffHash : Json) : Except Exn (CheckpointRecord × Database) :=
  match db.checkpoint? checkpointId with
  | none => .error .persistenceError
  | some current =>
    let updated := { current with
      after := some (.value (.obj after)), diffHash := some diffHash, updatedAt := db.clock st }
    let db₁ := db.updateCheckpoint checkpointId fun _ => updated
    .ok (updated, db₁.audit st current.operationId current.projectId current.sessionId
      current.ownerId "checkpoint.finalized" current.status.text current.status.text
      [("checkpoint_id", .str checkpointId), ("after_head", (after.get? "head").getD .null),
        ("diff_hash", diffHash)])

/-- `mark_checkpoint_restored`. -/
def markCheckpointRestored (db : Database) (st : Stamp) (checkpointId : String) :
    Except Exn (CheckpointRecord × Database) :=
  match db.checkpoint? checkpointId with
  | none => .error .persistenceError
  | some current =>
    let updated := { current with status := .restored, updatedAt := db.clock st }
    let db₁ := db.updateCheckpoint checkpointId fun _ => updated
    .ok (updated, db₁.audit st current.operationId current.projectId current.sessionId
      current.ownerId "checkpoint.restored" current.status.text "restored"
      [("checkpoint_id", .str checkpointId), ("head", .str current.head)])

/-- `list_checkpoints` of an operation. -/
def listCheckpoints (db : Database) (operationId : String) : List CheckpointRecord :=
  orderBy (fun c => (c.createdAt, c.checkpointId))
    (db.checkpoints.filter fun c => c.operationId == some operationId)

/-- `list_audit_events` of an operation. -/
def listAuditEvents (db : Database) (operationId : String) : List AuditEvent :=
  orderBy (fun e => (e.createdAt, e.eventId))
    (db.auditEvents.filter fun e => e.operationId == some operationId)

/-! ## Evidence of work in progress -/

/-- `LOCAL_OWNER_ID`. -/
def localOwnerId : String := "local-policy"

/-- The join that `find_session_wip_checkpoint` selects rows by. -/
def isWipRow (db : Database) (projectId sessionId : String) (c : CheckpointRecord) : Bool :=
  c.projectId == projectId && c.sessionId == some sessionId &&
  c.kind == .mutation && c.status == .created && c.after.isSome && c.diffHash.isSome &&
  (match c.operationId with
    | none => false
    | some operationId => db.operations.any fun o => o.operationId == operationId &&
        o.projectId == c.projectId && o.sessionId == c.sessionId &&
        o.ownerId == localOwnerId && o.mutation && o.state == .succeeded) &&
  (db.sessions.any fun s => some s.sessionId == c.sessionId && s.projectId == c.projectId &&
    s.ownerId == localOwnerId && s.status == .active) &&
  c.ownerId == localOwnerId

/-- `_is_sha256` of a stored diff hash: digests are, and strings that look like one. -/
def isSha256 : Option Json → Bool
  | some (.sha256 label _) => label == ""
  | some (.sha256Bytes _) => true
  | some (.str s) => s.length == 64 && s.toList.all Text.isHexDigit
  | _ => false

/-- The `head` and `branch` of a stored document, if it is an object that has both as strings. -/
def headAndBranch? (d : Dict) : Option (String × String) :=
  match Dict.get? d "head", Dict.get? d "branch" with
  | some (.str head), some (.str branch) => some (head, branch)
  | _, _ => none

/-- What the documents of a selected row must say for it to be evidence. -/
def isWipEvidence (branch head : String) (c : CheckpointRecord) : Bool :=
  match c.before, c.after with
  | .value (.obj before), some (.value (.obj after)) =>
    match headAndBranch? before, headAndBranch? after with
    | some (beforeHead, beforeBranch), some (afterHead, afterBranch) =>
      Text.isGitHead beforeHead && Text.isGitHead afterHead &&
      Text.lower c.head == Text.lower beforeHead && c.branch == beforeBranch &&
      Dict.get? after "dirty" == some (.bool false) &&
      Text.lower beforeHead != Text.lower afterHead &&
      afterBranch == branch && Text.lower afterHead == Text.lower head &&
      beforeBranch == afterBranch && isSha256 c.diffHash
    | _, _ => false
  | _, _ => false

/-- `find_session_wip_checkpoint`. -/
def findSessionWipCheckpoint (db : Database) (projectId sessionId branch head : String) :
    Option CheckpointRecord :=
  if !Text.isGitHead head || branch == "" then none
  else (orderBy (fun c => (c.createdAt, c.checkpointId))
    (db.checkpoints.filter (db.isWipRow projectId sessionId))).reverse.find?
      (isWipEvidence branch head)

end Database

end CodemcpBridge
