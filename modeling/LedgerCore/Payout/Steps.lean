import LedgerCore.Payout.Orchestrator

/-! The steps of a payout. -/
namespace LedgerCore.Payout
open LedgerCore.Program LedgerCore.Saga

structure Commit where
  attemptID : UUID
  number : ℕ
  step : Step
  direction : Saga.Direction
  transactionID : Option UUID
  source : Status
  target : Status
  nextStep : Step

def Commit.attempt (inst : Instance) (c : Commit) : Attempt where
  id := c.attemptID
  sagaID := inst.id
  step := c.step
  number := c.number
  direction := c.direction
  status := .succeeded
  transactionID := c.transactionID
  gatewayKey := ""
  error := ""
  startedAt := 0
  finishedAt := none

def Commit.transition (o : Orchestrator) (inst : Instance) (c : Commit) : Transition where
  sagaID := inst.id
  source := c.source
  target := c.target
  currentStep := c.nextStep
  stepTimeout := o.cfg.stepTimeout
  retryCount := 0
  lastError := ""
  releaseLease := true

def Commit.event (inst : Instance) (ev : Stamp) (c : Commit) : Event where
  aggregateType := Outbox.aggregateSaga
  aggregateID := inst.id.string
  eventType := eventTypeSagaStepCompleted
  eventVersion := eventVersion
  occurredAt := ev.occurredAt
  payload := .stepCompleted
    { sagaID := inst.id, sagaType := inst.sagaType, step := c.step, direction := c.direction,
      attempt := c.number, status := c.target, transactionID := c.transactionID,
      occurredAt := ev.payloadAt }

/-- The attempt's row, the transition and the event, inside of the ledger's transaction. -/
def commitStep (o : Orchestrator) (inst : Instance) (ev : Stamp) (c : Commit) : Ledger.TxM Unit := do
  Ledger.Tx.commitSagaStep ⟨c.attempt inst, c.transition o inst⟩
  Ledger.Tx.appendEvent ev.eventID (c.event inst ev)

/-- The `Record` hook of the three steps that move money: the pending amount of the suspense
account, then the step's bookkeeping. -/
def recordStep (o : Orchestrator) (inst : Instance) (p : Payload) (deltaMinor : Int64)
    (ev : Stamp) (c : Commit) : Ledger.Recorder := fun posted => do
  Ledger.Tx.applyPendingDelta ⟨p.suspenseID, deltaMinor⟩
  commitStep o inst ev { c with transactionID := some posted.id }

def nextAttempt (sagaID : UUID) (step : Step) (direction : Saga.Direction) : OrchM (UUID × ℕ) := do
  let number ← Store.nextAttemptNumber sagaID step direction
  let id ← newUUID ("generate attempt id for saga " ++ sagaID.string)
  pure (id, number)

theorem onlyCalls_nextAttempt {P : Call → Prop} {sagaID : UUID} {step : Step}
    {direction : Saga.Direction} (hnumber : P (.nextAttemptNumber sagaID step direction))
    (hid : P .newUUID) : (nextAttempt sagaID step direction).OnlyCalls P :=
  .bind (.bind (Prog.onlyCalls_perform hnumber) onlyCalls_orReturn) fun _ =>
    .bind (onlyCalls_newUUID _ hid) fun _ => trivial

/-- Closes an `ATTEMPTED` row, if there is one. -/
def finish (attemptID : UUID) (status : StepStatus) (txID : Option UUID) (failure : String) :
    OrchM Unit :=
  if attemptID = UUID.nil then pure ()
  else Store.finishAttempt
    { id := attemptID, status, transactionID := txID, error := truncate failure 1000 }

theorem onlyCalls_finish {P : Call → Prop} {attemptID : UUID} {status : StepStatus}
    {txID : Option UUID} {failure : String}
    (h : ∀ f : FinishAttempt, f.transactionID = txID → P (.finishAttempt f)) :
    (finish attemptID status txID failure).OnlyCalls P := by
  unfold finish
  split_ifs
  · trivial
  · exact .bind (Prog.onlyCalls_perform (h _ rfl)) onlyCalls_orReturn

/-- The transaction that the attempts name as the reserve, or the nil id. -/
def reserveTransactionID (attempts : List Attempt) : UUID :=
  (attempts.findSome? fun a =>
    if a.step = .reserve ∧ a.direction = .forward ∧ a.status = .succeeded then a.transactionID
    else none).getD UUID.nil

def mustNewMoney (amountMinor : Int64) (currency : String) : OrchM Ledger.Money :=
  match Ledger.newMoney amountMinor currency with
  | .ok m => .pure m
  | .error e => panic e.text

theorem onlyCalls_mustNewMoney {P : Call → Prop} (amountMinor : Int64) (currency : String) :
    (mustNewMoney amountMinor currency).OnlyCalls P := by
  unfold mustNewMoney
  split <;> trivial

structure Escalation where
  source : Status
  step : Step
  reason : String
  lastErr : String
  attempts : ℕ

def escalate (o : Orchestrator) (inst : Instance) (e : Escalation) : OrchM Unit := do
  let ev ← stamp
  Store.escalate ev.eventID
    { sagaID := inst.id, source := e.source, target := .needsManualReview, currentStep := e.step,
      stepTimeout := o.cfg.stepTimeout, retryCount := e.attempts,
      lastError := truncate e.lastErr 1000, releaseLease := true }
    { aggregateType := Outbox.aggregateSaga, aggregateID := inst.id.string,
      eventType := eventTypeSagaNeedsManualReview, eventVersion, occurredAt := ev.occurredAt
      payload := .manualReview
        { sagaID := inst.id, sagaType := inst.sagaType, step := e.step, reason := e.reason,
          lastError := truncate e.lastErr 1000, attempts := e.attempts,
          occurredAt := ev.payloadAt } }

def failForwardStep (o : Orchestrator) (inst : Instance) (step : Step) (attemptID : UUID)
    (number : ℕ) (cause : Error) : OrchM Unit := do
  let _ ← Store.recordAttempt
    { id := attemptID, sagaID := inst.id, step, number, direction := .forward, status := .failed,
      transactionID := none, gatewayKey := "", error := truncate cause.text 1000, startedAt := 0,
      finishedAt := none }
  let attempts := inst.retryCount + 1
  let terminal := terminalLedgerError cause || decide (attempts ≥ o.cfg.maxStepAttempts)
  if !terminal then
    Store.advance
      { sagaID := inst.id, source := inst.status, target := inst.status, currentStep := step,
        stepTimeout := o.cfg.stepTimeout, retryCount := attempts,
        lastError := truncate cause.text 1000, releaseLease := true }
  else if step = .reserve then
    Store.advance
      { sagaID := inst.id, source := inst.status, target := .failed, currentStep := .done,
        stepTimeout := o.cfg.stepTimeout, retryCount := attempts,
        lastError := truncate cause.text 1000, releaseLease := true }
  else
    Store.advance
      { sagaID := inst.id, source := inst.status, target := .compensating, currentStep := .reserve,
        stepTimeout := o.cfg.stepTimeout, retryCount := 0,
        lastError := truncate cause.text 1000, releaseLease := true }

def failCompensation (o : Orchestrator) (inst : Instance) (attemptID : UUID) (number : ℕ)
    (cause : Error) : OrchM Unit := do
  let _ ← Store.recordAttempt
    { id := attemptID, sagaID := inst.id, step := .reserve, number, direction := .compensation,
      status := .failed, transactionID := none, gatewayKey := "",
      error := truncate cause.text 1000, startedAt := 0, finishedAt := none }
  let attempts := inst.retryCount + 1
  if attempts ≥ o.cfg.maxCompensationAttempts then
    escalate o inst
      { source := .compensating, step := .reserve, reason := "compensation_exhausted",
        lastErr := cause.text, attempts }
  else
    Store.advance
      { sagaID := inst.id, source := .compensating, target := .compensating,
        currentStep := .reserve, stepTimeout := o.cfg.stepTimeout, retryCount := attempts,
        lastError := truncate cause.text 1000, releaseLease := true }

def stepRequest (inst : Instance) (p : Payload) (step : Step)
    (entries : List Ledger.EntryRequest) (record : Ledger.Recorder) :
    Ledger.TransactionRequest where
  principalID := inst.principalID
  type := .payout
  externalRef := externalRef p
  metadata := [(metadataKeySagaID, quote inst.id.string), (metadataKeyStep, quote step.text)]
  entries := entries
  idempotencyKey := some (stepKey inst.id step .forward)
  idempotency := none
  record := some record

def reserveCommit (attemptID : UUID) (number : ℕ) : Commit where
  attemptID
  number
  step := .reserve
  direction := .forward
  transactionID := none
  source := .pending
  target := .reserved
  nextStep := .gateway

def settleCommit (attemptID : UUID) (number : ℕ) : Commit where
  attemptID
  number
  step := .settle
  direction := .forward
  transactionID := none
  source := .gatewaySucceeded
  target := .completed
  nextStep := .done

def compensateCommit (attemptID : UUID) (number : ℕ) : Commit where
  attemptID
  number
  step := .reserve
  direction := .compensation
  transactionID := none
  source := .compensating
  target := .compensated
  nextStep := .done

def reserve (o : Orchestrator) (inst : Instance) (p : Payload) : OrchM Unit := do
  let (attemptID, number) ← nextAttempt inst.id .reserve .forward
  let amount ← mustNewMoney p.amountMinor p.currency
  let ev ← stamp
  let posted ← postTransaction (stepRequest inst p .reserve
    [⟨p.customerWalletID, .debit, amount⟩, ⟨p.suspenseID, .credit, amount⟩]
    (recordStep o inst p p.amountMinor ev (reserveCommit attemptID number)))
  match posted with
  | .ok _ => pure ()
  | .error cause => failForwardStep o inst .reserve attemptID number cause

/-- A zero fee gets no leg. -/
def feeEntries (p : Payload) : OrchM (List Ledger.EntryRequest) :=
  if p.feeMinor > 0 then do
    let fee ← mustNewMoney p.feeMinor p.currency
    pure [⟨p.feeRevenueID, .credit, fee⟩]
  else pure []

theorem onlyCalls_feeEntries {P : Call → Prop} (p : Payload) : (feeEntries p).OnlyCalls P := by
  unfold feeEntries
  split_ifs
  · exact .bind (onlyCalls_mustNewMoney ..) fun _ => trivial
  · trivial

def settle (o : Orchestrator) (inst : Instance) (p : Payload) : OrchM Unit := do
  let (attemptID, number) ← nextAttempt inst.id .settle .forward
  let amount ← mustNewMoney p.amountMinor p.currency
  let merchant ← mustNewMoney (merchantMinor p) p.currency
  let fees ← feeEntries p
  let ev ← stamp
  let posted ← postTransaction (stepRequest inst p .settle
    (⟨p.suspenseID, .debit, amount⟩ :: ⟨p.merchantPayableID, .credit, merchant⟩ :: fees)
    (recordStep o inst p (-p.amountMinor) ev (settleCommit attemptID number)))
  match posted with
  | .ok _ => pure ()
  | .error cause => failForwardStep o inst .settle attemptID number cause

def deferAmbiguity (o : Orchestrator) (inst : Instance) (callErr : Error) : OrchM Unit :=
  let attempts := inst.retryCount + 1
  if attempts ≥ o.cfg.maxProbes then
    escalate o inst
      { source := .gatewayPending, step := .gateway, reason := "gateway_outcome_unknown",
        lastErr := callErr.text, attempts }
  else
    Store.advance
      { sagaID := inst.id, source := .gatewayPending, target := .gatewayPending,
        currentStep := .gateway, stepTimeout := o.cfg.stepTimeout, retryCount := attempts,
        lastError := callErr.text, releaseLease := true }

def settleGatewayOutcome (o : Orchestrator) (inst : Instance) (attemptID : UUID) :
    Except Error Gateway.Payment → OrchM Unit
  | .ok payment =>
    if payment.status = .succeeded then do
      finish attemptID .succeeded none ""
      Store.advance
        { sagaID := inst.id, source := .gatewayPending, target := .gatewaySucceeded,
          currentStep := .settle, stepTimeout := o.cfg.stepTimeout, retryCount := 0,
          lastError := "", releaseLease := true }
    -- No error is conclusive, and the next line reads the error's text.
    else panic "nil pointer dereference"
  | .error callErr =>
    if Gateway.conclusive (some callErr) then do
      finish attemptID .failed none callErr.text
      Store.advance
        { sagaID := inst.id, source := .gatewayPending, target := .gatewayFailed,
          currentStep := .gateway, stepTimeout := o.cfg.stepTimeout, retryCount := 0,
          lastError := callErr.text, releaseLease := true }
    else deferAmbiguity o inst callErr

def callGateway (o : Orchestrator) (inst : Instance) (p : Payload) : OrchM Unit := do
  let (attemptID, number) ← nextAttempt inst.id .gateway .forward
  let key := gatewayKey inst.id
  Store.beginStep
    { id := attemptID, sagaID := inst.id, step := .gateway, number, direction := .forward,
      gatewayKey := key }
    { sagaID := inst.id, source := .reserved, target := .gatewayPending, currentStep := .gateway,
      stepTimeout := o.cfg.stepTimeout, retryCount := inst.retryCount, lastError := "",
      releaseLease := false }
  let outcome ← pay
    { idempotencyKey := key, amountMinor := p.amountMinor, currency := p.currency,
      reference := p.externalRef }
  settleGatewayOutcome o inst attemptID outcome

def resolveGateway (o : Orchestrator) (inst : Instance) : OrchM Unit := do
  let unresolved ← Store.unresolvedAttempt inst.id .gateway
  let attemptID := (unresolved.map fun a => a.id).getD UUID.nil
  let outcome ← probe (gatewayKey inst.id)
  settleGatewayOutcome o inst attemptID outcome

def beginCompensation (o : Orchestrator) (inst : Instance) : OrchM Unit :=
  Store.advance
    { sagaID := inst.id, source := .gatewayFailed, target := .compensating, currentStep := .reserve,
      stepTimeout := o.cfg.stepTimeout, retryCount := 0, lastError := inst.lastError,
      releaseLease := true }

def confirmCompensated (o : Orchestrator) (inst : Instance) (cause : Error) : OrchM Unit := do
  let current ← Store.get inst.id
  if current.status = .compensated then pure ()
  else
    escalate o inst
      { source := current.status, step := .reserve, reason := "reserve_reversed_outside_saga",
        lastErr := cause.text, attempts := inst.retryCount }

/-- The reversal of the reserve, once its transaction is known. -/
def reverseReserve (o : Orchestrator) (inst : Instance) (p : Payload) (reserveTxID : UUID) :
    OrchM Unit := do
  let (attemptID, number) ← nextAttempt inst.id .reserve .compensation
  let ev ← stamp
  let posted ← reverseTransactionRecorded reserveTxID
    ("saga " ++ inst.id.string ++ " compensating: " ++ truncate inst.lastError 200)
    (recordStep o inst p (-p.amountMinor) ev (compensateCommit attemptID number))
  match posted with
  | .ok _ => pure ()
  | .error cause =>
    if cause.is .alreadyReversed || cause.is .staleTransition then confirmCompensated o inst cause
    else failCompensation o inst attemptID number cause

def compensate (o : Orchestrator) (inst : Instance) (p : Payload) : OrchM Unit := do
  let attempts ← Store.attempts inst.id
  let reserveTxID := reserveTransactionID attempts
  if reserveTxID = UUID.nil then
    Store.advance
      { sagaID := inst.id, source := .compensating, target := .compensated, currentStep := .done,
        stepTimeout := o.cfg.stepTimeout, retryCount := 0, lastError := "", releaseLease := true }
  else reverseReserve o inst p reserveTxID

/-- Advances a saga by one step, as its status says. -/
def driveOne (o : Orchestrator) (inst : Instance) : OrchM Unit :=
  if inst.sagaType ≠ o.cfg.sagaType then pure ()
  else
    match inst.status with
    | .pending => reserve o inst inst.payload
    | .reserved => callGateway o inst inst.payload
    | .gatewayPending => resolveGateway o inst
    | .gatewaySucceeded => settle o inst inst.payload
    | .gatewayFailed => beginCompensation o inst
    | .compensating => compensate o inst inst.payload
    | _ => pure ()

end LedgerCore.Payout
