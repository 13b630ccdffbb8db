import Mathlib.Data.List.Basic

/-!
# States of sessions, operations, approvals and checkpoints

The statuses that the tables allow, and the transitions that the store permits between them.
-/

namespace CodemcpBridge

inductive SessionStatus
  | created | active | closing | closed | blocked
  deriving DecidableEq, Repr

inductive OperationState
  | received | validated | awaitingApproval | dispatched | running
  | succeeded | failed | cancelled | unknown
  deriving DecidableEq, Repr

inductive ApprovalStatus
  | pending | consumed | expired | cancelled
  deriving DecidableEq, Repr

inductive CheckpointKind
  | manual | mutation | rollbackSafety
  deriving DecidableEq, Repr

inductive CheckpointStatus
  | created | restored
  deriving DecidableEq, Repr

/-- `SESSION_TRANSITIONS`. -/
def sessionTransitions : SessionStatus → List SessionStatus
  | .created => [.active, .closed, .blocked]
  | .active => [.closing, .blocked]
  | .closing => [.closed, .blocked]
  | .closed => []
  | .blocked => []

/-- `OPERATION_TRANSITIONS`. -/
def operationTransitions : OperationState → List OperationState
  | .received => [.validated, .failed, .cancelled]
  | .validated => [.awaitingApproval, .dispatched, .failed, .cancelled]
  | .awaitingApproval => [.dispatched, .cancelled, .failed]
  | .dispatched => [.running, .failed, .unknown]
  | .running => [.succeeded, .failed, .unknown, .cancelled]
  | .succeeded => []
  | .failed => []
  | .cancelled => []
  | .unknown => [.failed, .succeeded]

/-- `TERMINAL_OPERATION_STATES`. -/
def terminalOperationStates : List OperationState := [.succeeded, .failed, .cancelled, .unknown]

/-- `ACTIVE_MUTATION_STATES`. -/
def activeMutationStates : List OperationState :=
  [.received, .validated, .awaitingApproval, .dispatched, .running, .unknown]

namespace SessionStatus

def text : SessionStatus → String
  | created => "created"
  | active => "active"
  | closing => "closing"
  | closed => "closed"
  | blocked => "blocked"

end SessionStatus

namespace OperationState

def text : OperationState → String
  | received => "received"
  | validated => "validated"
  | awaitingApproval => "awaiting_approval"
  | dispatched => "dispatched"
  | running => "running"
  | succeeded => "succeeded"
  | failed => "failed"
  | cancelled => "cancelled"
  | unknown => "unknown"

/-- The state blocks every other mutation of the project. -/
def active (s : OperationState) : Bool := activeMutationStates.contains s

/-- Where an update may take the operation: a permitted transition, or the same state again. -/
def mayBecome (s s' : OperationState) : Bool := s' == s || (operationTransitions s).contains s'

/-- How far the operation is on its way; `unknown` comes before its resolutions. -/
def rank : OperationState → ℕ
  | received => 0
  | validated => 1
  | awaitingApproval => 2
  | dispatched => 3
  | running => 4
  | unknown => 5
  | succeeded => 6
  | failed => 6
  | cancelled => 6

theorem rank_le_of_mayBecome {s s' : OperationState} (h : s.mayBecome s' = true) :
    s.rank ≤ s'.rank := by
  revert h
  cases s <;> cases s' <;> decide

end OperationState

namespace ApprovalStatus

def text : ApprovalStatus → String
  | pending => "pending"
  | consumed => "consumed"
  | expired => "expired"
  | cancelled => "cancelled"

end ApprovalStatus

namespace CheckpointKind

def text : CheckpointKind → String
  | manual => "manual"
  | mutation => "mutation"
  | rollbackSafety => "rollback_safety"

end CheckpointKind

namespace CheckpointStatus

def text : CheckpointStatus → String
  | created => "created"
  | restored => "restored"

end CheckpointStatus

end CodemcpBridge
