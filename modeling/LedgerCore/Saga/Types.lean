import LedgerCore.Base

/-! Payout sagas: their statuses, steps, attempts and transitions. -/
namespace LedgerCore.Saga

inductive Status where
  | pending
  | reserved
  | gatewayPending
  | gatewaySucceeded
  | gatewayFailed
  | compensating
  | completed
  | compensated
  | failed
  | needsManualReview
  deriving DecidableEq, Repr

namespace Status

def text : Status → String
  | pending => "PENDING"
  | reserved => "RESERVED"
  | gatewayPending => "GATEWAY_PENDING"
  | gatewaySucceeded => "GATEWAY_SUCCEEDED"
  | gatewayFailed => "GATEWAY_FAILED"
  | compensating => "COMPENSATING"
  | completed => "COMPLETED"
  | compensated => "COMPENSATED"
  | failed => "FAILED"
  | needsManualReview => "NEEDS_MANUAL_REVIEW"

def terminal : Status → Bool
  | completed | compensated | failed | needsManualReview => true
  | _ => false

end Status

inductive Step where
  | reserve
  | gateway
  | settle
  | done
  deriving DecidableEq, Repr

def Step.text : Step → String
  | reserve => "RESERVE"
  | gateway => "GATEWAY"
  | settle => "SETTLE"
  | done => "DONE"

inductive Direction where
  | forward
  | compensation
  deriving DecidableEq, Repr

def Direction.text : Direction → String
  | forward => "FORWARD"
  | compensation => "COMPENSATION"

inductive StepStatus where
  | attempted
  | succeeded
  | failed
  deriving DecidableEq, Repr

/-- The payout's accounts and amounts, fixed when the saga starts. -/
structure Payload where
  customerWalletID : UUID
  suspenseID : UUID
  merchantPayableID : UUID
  feeRevenueID : UUID
  amountMinor : Int64
  feeMinor : Int64
  currency : String
  externalRef : String
  deriving DecidableEq, Repr

structure Instance where
  id : UUID
  sagaType : String
  principalID : String
  currentStep : Step
  status : Status
  payload : Payload
  retryCount : ℕ
  lastError : String
  idempotencyKey : Option String
  leaseOwner : Option String
  leaseExpiresAt : Option Time
  stepDeadlineAt : Time
  createdAt : Time
  deriving DecidableEq, Repr

structure Transition where
  sagaID : UUID
  source : Status
  target : Status
  currentStep : Step
  stepTimeout : ℕ
  retryCount : ℕ
  lastError : String
  releaseLease : Bool
  deriving DecidableEq, Repr

structure Attempt where
  id : UUID
  sagaID : UUID
  step : Step
  number : ℕ
  direction : Direction
  status : StepStatus
  transactionID : Option UUID
  gatewayKey : String
  error : String
  startedAt : Time
  finishedAt : Option Time
  deriving DecidableEq, Repr

structure StartAttempt where
  id : UUID
  sagaID : UUID
  step : Step
  number : ℕ
  direction : Direction
  gatewayKey : String
  deriving DecidableEq, Repr

structure FinishAttempt where
  id : UUID
  status : StepStatus
  transactionID : Option UUID
  error : String
  deriving DecidableEq, Repr

structure StepCommit where
  attempt : Attempt
  transition : Transition
  deriving DecidableEq, Repr

structure StepCompletedEvent where
  sagaID : UUID
  sagaType : String
  step : Step
  direction : Direction
  attempt : ℕ
  status : Status
  transactionID : Option UUID
  occurredAt : Time
  deriving DecidableEq, Repr

structure ManualReviewEvent where
  sagaID : UUID
  sagaType : String
  step : Step
  reason : String
  lastError : String
  attempts : ℕ
  occurredAt : Time
  deriving DecidableEq, Repr

end LedgerCore.Saga
