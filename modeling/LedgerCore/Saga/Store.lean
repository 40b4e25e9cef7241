import Mathlib.Data.List.Sort
import LedgerCore.Outbox.Writer
import LedgerCore.Program.Basic

/-! The saga store: what each of its database transactions does. `now` is the transaction's
`now()`. -/
namespace LedgerCore.Saga
open LedgerCore.Program

def toInstance (id : UUID) (r : SagaRow) : Instance where
  id
  sagaType := r.sagaType
  principalID := r.principalID
  currentStep := r.currentStep
  status := r.status
  payload := r.payload
  retryCount := r.retryCount
  lastError := r.lastError.getD ""
  idempotencyKey := r.idempotencyKey
  leaseOwner := r.leaseOwner
  leaseExpiresAt := r.leaseExpiresAt
  stepDeadlineAt := r.stepDeadlineAt
  createdAt := r.createdAt

def toAttempt (id : UUID) (r : StepRow) : Attempt where
  id
  sagaID := r.sagaID
  step := r.step
  number := r.attempt
  direction := r.direction
  status := r.status
  transactionID := r.transactionID
  gatewayKey := r.gatewayKey.getD ""
  error := r.error.getD ""
  startedAt := r.startedAt
  finishedAt := r.finishedAt

def Transition.apply (t : Transition) (now : Time) (r : SagaRow) : SagaRow :=
  { r with
    status := t.target
    currentStep := t.currentStep
    stepDeadlineAt := now + t.stepTimeout
    retryCount := t.retryCount
    lastError := nullIfEmpty t.lastError
    leaseOwner := if t.releaseLease then none else r.leaseOwner
    leaseExpiresAt := if t.releaseLease then none else r.leaseExpiresAt }

/-- `UPDATE saga_instances … WHERE id = $1 AND status = $2`. -/
def advance (now : Time) (t : Transition) (db : DB) : Except Error DB :=
  match db.sagaInstances.find? t.sagaID with
  | some r =>
    if r.status = t.source then
      .ok { db with sagaInstances := db.sagaInstances.modify t.sagaID (t.apply now) }
    else .error (stale t)
  | none => .error (stale t)
where
  stale (t : Transition) : Error :=
    .errorf ("advance saga " ++ t.sagaID.string ++ " from " ++ t.source.text ++ " to " ++
      t.target.text) .staleTransition

/-- `INSERT INTO saga_steps`, with the table's constraints. -/
def insertStep (id : UUID) (r : StepRow) (db : DB) : Except PgError DB := do
  failIf (r.attempt < 1) (.check "saga_steps" "saga_steps_attempt_check")
  failIf (¬(r.status = .attempted ↔ r.finishedAt = none))
    (.check "saga_steps" "saga_steps_finished_at_check")
  failIf (r.step = .done) (.check "saga_steps" "saga_steps_step_check")
  let sagaSteps ← unique "saga_steps_pkey" (db.sagaSteps.insert? id r)
  failIf (db.sagaSteps.values.any fun s => s.sagaID = r.sagaID ∧ s.step = r.step ∧
      s.direction = r.direction ∧ s.attempt = r.attempt) (.unique "saga_steps_attempt_key")
  failIf (db.sagaInstances.find? r.sagaID = none)
    (.foreignKey "saga_steps" "saga_steps_saga_id_fkey")
  failIf (r.transactionID.any fun tx => db.transactions.find? tx = none)
    (.foreignKey "saga_steps" "saga_steps_transaction_id_fkey")
  pure { db with sagaSteps }

def Attempt.toRow (a : Attempt) (now : Time) : StepRow where
  sagaID := a.sagaID
  step := a.step
  attempt := a.number
  direction := a.direction
  status := a.status
  transactionID := a.transactionID
  gatewayKey := nullIfEmpty a.gatewayKey
  error := nullIfEmpty a.error
  startedAt := now
  finishedAt := some now

def recordAttempt (now : Time) (a : Attempt) (db : DB) : Except Error DB :=
  (insertStep a.id (a.toRow now) db).mapError fun e => e.toError.wrap
    (s!"record attempt {a.number} of " ++ a.step.text ++ " on saga " ++ a.sagaID.string)

/-- Inside of a ledger transaction: the attempt's row and the guarded transition. -/
def commitStep (now : Time) (c : StepCommit) (db : DB) : Except Error DB := do
  let db ← recordAttempt now c.attempt db
  advance now c.transition db

def beginStep (now : Time) (a : StartAttempt) (t : Transition) (db : DB) : Except Error DB := do
  let db ← (insertStep a.id
    { sagaID := a.sagaID, step := a.step, attempt := a.number, direction := a.direction,
      status := .attempted, transactionID := none, gatewayKey := nullIfEmpty a.gatewayKey,
      error := none, startedAt := now, finishedAt := none } db).mapError fun e => e.toError.wrap
        (s!"start attempt {a.number} of " ++ a.step.text ++ " on saga " ++ a.sagaID.string)
  advance now t db

def escalate (now : Time) (eventID : UUID) (t : Transition) (alert : Event) (db : DB) :
    Except Error DB := do
  let db ← advance now t db
  (Outbox.append eventID alert db).mapError (Error.wrap ("escalate saga " ++ t.sagaID.string))

/-- `UPDATE saga_steps … WHERE id = $1 AND status = 'ATTEMPTED'`; no matching row is no error. -/
def finishAttempt (now : Time) (f : FinishAttempt) (db : DB) : DB :=
  { db with
    sagaSteps := db.sagaSteps.modify f.id fun r =>
      if r.status = .attempted then
        { r with
          status := f.status, transactionID := f.transactionID, error := nullIfEmpty f.error,
          finishedAt := some now }
      else r }

theorem advance_eq_ok {now : Time} {t : Transition} {db db' : DB} :
    advance now t db = .ok db' ↔ ∃ r, db.sagaInstances.find? t.sagaID = some r ∧
      r.status = t.source ∧
      db' = { db with sagaInstances := db.sagaInstances.modify t.sagaID (t.apply now) } := by
  unfold advance
  cases db.sagaInstances.find? t.sagaID with
  | none => simp
  | some r =>
    by_cases h : r.status = t.source <;> simp [h, @eq_comm DB]

theorem insertStep_eq_ok {id : UUID} {r : StepRow} {db db' : DB} (h : insertStep id r db = .ok db') :
    ∃ sagaSteps, db.sagaSteps.insert? id r = some sagaSteps ∧ db' = { db with sagaSteps } := by
  obtain ⟨_, -, h⟩ := bind_eq_ok.1 h
  obtain ⟨_, -, h⟩ := bind_eq_ok.1 h
  obtain ⟨_, -, h⟩ := bind_eq_ok.1 h
  obtain ⟨sagaSteps, hi, h⟩ := bind_eq_ok.1 h
  obtain ⟨_, -, h⟩ := bind_eq_ok.1 h
  obtain ⟨_, -, h⟩ := bind_eq_ok.1 h
  obtain ⟨_, -, h⟩ := bind_eq_ok.1 h
  exact ⟨sagaSteps, unique_eq_ok.1 hi, (Except.ok.inj h).symm⟩

theorem commitStep_eq_ok {now : Time} {c : StepCommit} {db db' : DB}
    (h : commitStep now c db = .ok db') :
    ∃ sagaSteps r, db.sagaSteps.insert? c.attempt.id (c.attempt.toRow now) = some sagaSteps ∧
      db.sagaInstances.find? c.transition.sagaID = some r ∧ r.status = c.transition.source ∧
      db' = { db with
        sagaSteps
        sagaInstances := db.sagaInstances.modify c.transition.sagaID (c.transition.apply now) } := by
  obtain ⟨db₁, h₁, h⟩ := bind_eq_ok.1 h
  obtain ⟨sagaSteps, hi, rfl⟩ := insertStep_eq_ok (mapError_eq_ok.1 h₁)
  obtain ⟨r, hr, hs, rfl⟩ := advance_eq_ok.1 h
  exact ⟨sagaSteps, r, hi, hr, hs, rfl⟩

theorem commitStep_tables {now : Time} {c : StepCommit} {db db' : DB}
    (h : commitStep now c db = .ok db') :
    ∃ sagaSteps sagaInstances, db' = { db with sagaSteps, sagaInstances } := by
  obtain ⟨sagaSteps, r, -, -, -, rfl⟩ := commitStep_eq_ok h
  exact ⟨_, _, rfl⟩

/-- `INSERT … ON CONFLICT (principal_id, idempotency_key) DO NOTHING`, then the row the key
already names. -/
def create (now : Time) (stepTimeout : ℕ) (i : Instance) (db : DB) : Except Error (Instance × DB) :=
  match i.idempotencyKey.bind (existing i.principalID) with
  | some (id, r) => .ok (toInstance id r, db)
  | none =>
    let row : SagaRow :=
      { sagaType := i.sagaType, principalID := i.principalID, currentStep := i.currentStep,
        status := i.status, payload := i.payload, retryCount := 0, lastError := none,
        idempotencyKey := i.idempotencyKey, leaseOwner := none, leaseExpiresAt := none,
        stepDeadlineAt := now + stepTimeout, createdAt := now }
    match db.sagaInstances.insert? i.id row with
    | none => .error ((PgError.unique "saga_instances_pkey").toError.wrap
        ("insert saga " ++ i.id.string))
    | some sagaInstances => .ok (toInstance i.id row, { db with sagaInstances })
where
  existing (principalID key : String) : Option (UUID × SagaRow) :=
    db.sagaInstances.rows.find? fun r => r.2.principalID = principalID ∧
      r.2.idempotencyKey = some key

/-- The read after an insert that did nothing. -/
def getByIdempotencyKey (principalID key : String) (db : DB) : Except Error Instance :=
  match create.existing db principalID key with
  | some (id, r) => .ok (toInstance id r)
  | none => .error (.errorf ("idempotency key " ++ key) .sagaNotFound)

def get (id : UUID) (db : DB) : Except Error Instance :=
  match db.sagaInstances.find? id with
  | some r => .ok (toInstance id r)
  | none => .error (.errorf ("saga " ++ id.string) .sagaNotFound)

/-- The lease columns of a row another worker may take. -/
def leaseFree (now : Time) (r : SagaRow) : Bool :=
  match r.leaseExpiresAt with
  | none => true
  | some t => t < now

def runnable : Status → Bool
  | .pending | .reserved | .gatewaySucceeded | .gatewayFailed | .compensating => true
  | _ => false

/-- Leases the rows that `eligible` admits, the first `batch` by `order`, and returns them.
Rows locked by others are skipped. -/
def claim (eligible : SagaRow → Bool) (order : SagaRow → Time) (now : Time)
    (sagaType owner : String) (lease batch : ℕ) (locked : UUID → Bool) (db : DB) :
    List Instance × DB :=
  let candidates := db.sagaInstances.rows.filter fun r =>
    r.2.sagaType = sagaType && eligible r.2 && leaseFree now r.2 && !locked r.1
  let ids := ((candidates.insertionSort fun a b => order a.2 ≤ order b.2).take batch).map Prod.fst
  let sagaInstances := db.sagaInstances.map fun id r =>
    if id ∈ ids then { r with leaseOwner := some owner, leaseExpiresAt := some (now + lease) } else r
  ((sagaInstances.rows.filter fun r => r.1 ∈ ids).map fun r => toInstance r.1 r.2,
    { db with sagaInstances })

def claimRunnable (now : Time) :=
  claim (fun r => runnable r.status) (fun r => r.createdAt) now

def claimExpired (now : Time) :=
  claim (fun r => !r.status.terminal && r.stepDeadlineAt < now) (fun r => r.stepDeadlineAt) now

def attempts (sagaID : UUID) (db : DB) : List Attempt :=
  ((db.sagaSteps.rows.filter fun r => r.2.sagaID = sagaID).map fun r => toAttempt r.1 r.2).insertionSort
    fun a b => a.startedAt < b.startedAt ∨ a.startedAt = b.startedAt ∧ a.number ≤ b.number

def unresolvedAttempt (sagaID : UUID) (step : Step) (db : DB) : Option Attempt :=
  (((db.sagaSteps.rows.filter fun r => r.2.sagaID = sagaID ∧ r.2.step = step ∧
    r.2.status = .attempted).map fun r => toAttempt r.1 r.2).insertionSort
      fun a b => b.startedAt ≤ a.startedAt).head?

def nextAttemptNumber (sagaID : UUID) (step : Step) (direction : Direction) (db : DB) : ℕ :=
  ((db.sagaSteps.values.filter fun r => r.sagaID = sagaID ∧ r.step = step ∧
    r.direction = direction).map StepRow.attempt).foldr max 0 + 1

end LedgerCore.Saga
