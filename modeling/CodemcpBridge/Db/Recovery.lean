import CodemcpBridge.Db.Store

/-!
# Recovery after a restart

`recover_after_restart` is one transaction: it blocks the sessions that were in use, settles every
operation that was on its way, and cancels the approvals that are left pending.
-/

namespace CodemcpBridge

namespace Database

/-- What became of the rows that the recovery found. -/
structure Recovered where
  sessionsBlocked : List String := []
  operationsCancelled : List String := []
  operationsFailed : List String := []
  operationsUnknown : List String := []
  approvalsCancelled : List String := []
  deriving DecidableEq

/-- The state the recovery gives an operation that it finds in the given state. -/
def recoveredState (mutation : Bool) : OperationState → OperationState
  | .awaitingApproval => .cancelled
  | s => if mutation && [.dispatched, .running].contains s then .unknown else .failed

/-- The error the recovery stores with it. -/
def recoveryError (mutation : Bool) (s : OperationState) : ErrorData :=
  if recoveredState mutation s = .unknown then
    { code := .unknownSideEffect
      message := "Bridge restarted while mutation was in flight"
      details := none
      retryable := false }
  else
    { code := .bridgeRestarted
      message := if s = .awaitingApproval then "approval was cancelled because Bridge restarted"
        else "operation did not reach execution before Bridge restart"
      details := none
      retryable := true }

/-- The states that the recovery settles. -/
def inFlight (s : OperationState) : Bool :=
  [.received, .validated, .awaitingApproval, .dispatched, .running].contains s

def recoverSession (st : Stamp) (db : Database) (s : SessionRecord) : Database :=
  (db.updateSession s.sessionId fun r => { r with
    status := .blocked, updatedAt := db.clock st, closedAt := some (db.clock st)
    reason := some "bridge_restart" }).audit st none s.projectId s.sessionId s.ownerId
      "session.recovered_blocked" s.status.text "blocked" [("reason", .str "bridge_restart")]

/-- `UPDATE approvals SET status='cancelled' WHERE … AND status='pending'`. -/
def cancelPending (db : Database) (p : ApprovalRecord → Bool) : Database :=
  { db with
    approvals := db.approvals.map fun a =>
      if p a ∧ a.status = .pending then { a with status := .cancelled } else a }

/-- The audit event of an approval that the recovery cancels. -/
def auditCancelled (st : Stamp) (db : Database) (o : OperationRecord) (projectId : String)
    (sessionId : Option String) (details : Dict) : Database :=
  db.audit st o.operationId projectId sessionId o.ownerId "approval.recovered_cancelled"
    "pending" "cancelled" details

def pendingApprovals (db : Database) (operationId : String) : List ApprovalRecord :=
  db.approvals.filter fun a => a.operationId == operationId && a.status == .pending

def recoverOperation (st : Stamp) (db : Database) (o : OperationRecord) :
    Except Exn Database := do
  let db₁ := if o.state = .awaitingApproval then
      (db.pendingApprovals o.operationId).foldl (fun db a =>
        auditCancelled st db o o.projectId o.sessionId [("approval_id", .str a.approvalId),
          ("action", .str a.action), ("reason", .str "bridge_restart")])
        (db.cancelPending fun a => a.operationId == o.operationId)
    else db
  let db₂ ← db₁.updateOperation o.operationId fun r => { r with
    state := recoveredState o.mutation o.state
    updatedAt := db₁.clock st
    finishedAt := some (db₁.clock st)
    error := some (recoveryError o.mutation o.state) }
  pure (db₂.audit st o.operationId o.projectId o.sessionId o.ownerId "operation.recovered"
    o.state.text (recoveredState o.mutation o.state).text
    [("code", .str (recoveryError o.mutation o.state).code.text),
      ("message", .str (recoveryError o.mutation o.state).message),
      ("retryable", .bool (recoveryError o.mutation o.state).retryable)])

/-- The pending approvals whose operation no longer waits for them. -/
def orphanedApprovals (db : Database) : List (OperationRecord × ApprovalRecord) :=
  db.approvals.filterMap fun a =>
    if a.status = .pending then
      (db.operation? a.operationId).bind fun o =>
        if o.state = .awaitingApproval then none else some (o, a)
    else none

def recoverOrphan (st : Stamp) (db : Database) (orphan : OperationRecord × ApprovalRecord) :
    Database :=
  auditCancelled st (db.cancelPending fun a => a.approvalId == orphan.2.approvalId) orphan.1
    orphan.2.projectId orphan.2.sessionId
    [("reason", .str "bridge_restart"), ("action", .str orphan.2.action)]

/-- `recover_after_restart`. -/
def recoverAfterRestart (db : Database) (st : Stamp) : Except Exn (Recovered × Database) := do
  let sessions := db.sessions.filter fun s => [.active, .closing].contains s.status
  let db₁ := sessions.foldl (recoverSession st) db
  let operations := db₁.operations.filter fun o => inFlight o.state
  let db₂ ← operations.foldlM (recoverOperation st) db₁
  let orphans := db₂.orphanedApprovals
  let db₃ := orphans.foldl (recoverOrphan st) db₂
  let sent (s : OperationState) := (operations.filter fun o =>
    recoveredState o.mutation o.state == s).map OperationRecord.operationId
  pure ({
    sessionsBlocked := sessions.map SessionRecord.sessionId
    operationsCancelled := sent .cancelled
    operationsFailed := sent .failed
    operationsUnknown := sent .unknown
    approvalsCancelled := (operations.filter fun o => o.state == .awaitingApproval).flatMap
        (fun o => (db₁.pendingApprovals o.operationId).map ApprovalRecord.approvalId) ++
      orphans.map fun oa => oa.2.approvalId }, db₃)

end Database

end CodemcpBridge
