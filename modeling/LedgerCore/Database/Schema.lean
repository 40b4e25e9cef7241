import LedgerCore.Ledger.Types
import LedgerCore.Saga.Types
import LedgerCore.Table.Basic

/-! The tables the services write. A row type carries the CHECK constraints of its table, so
that a row that breaks one cannot be stored. -/
namespace LedgerCore

inductive PgCode where
  | checkViolation
  | uniqueViolation
  | foreignKeyViolation
  | numericValueOutOfRange
  | raiseException
  | characterNotInRepertoire
  deriving DecidableEq, Repr

def PgCode.sqlState : PgCode → String
  | .checkViolation => "23514"
  | .uniqueViolation => "23505"
  | .foreignKeyViolation => "23503"
  | .numericValueOutOfRange => "22003"
  | .raiseException => "P0001"
  | .characterNotInRepertoire => "22021"

structure PgError where
  code : PgCode
  constraintName : String
  message : String
  deriving DecidableEq, Repr

namespace PgError

def check (table constraint : String) : PgError :=
  ⟨.checkViolation, constraint, "new row for relation " ++ quote table ++
    " violates check constraint " ++ quote constraint⟩

def unique (constraint : String) : PgError :=
  ⟨.uniqueViolation, constraint,
    "duplicate key value violates unique constraint " ++ quote constraint⟩

def foreignKey (table constraint : String) : PgError :=
  ⟨.foreignKeyViolation, constraint, "insert or update on table " ++ quote table ++
    " violates foreign key constraint " ++ quote constraint⟩

def bigintOutOfRange : PgError := ⟨.numericValueOutOfRange, "", "bigint out of range"⟩

def raise (message : String) : PgError := ⟨.raiseException, "", message⟩

/-- No text that a client sends may hold U+0000. -/
def zeroByte : PgError :=
  ⟨.characterNotInRepertoire, "", "invalid byte sequence for encoding " ++ quote "UTF8" ++ ": 0x00"⟩

/-- The driver's error, which wraps no sentinel. -/
def toError (e : PgError) : Error :=
  ⟨[], "ERROR: " ++ e.message ++ " (SQLSTATE " ++ e.code.sqlState ++ ")"⟩

@[simp] theorem sentinels_toError (e : PgError) : e.toError.sentinels = [] := rfl

end PgError

/-- The reply of a unique index to an insert. -/
def unique {α : Type} (constraint : String) : Option α → Except PgError α
  | none => .error (.unique constraint)
  | some a => .ok a

theorem unique_eq_ok {α : Type} {constraint : String} {x : Option α} {a : α} :
    unique constraint x = .ok a ↔ x = some a := by
  cases x <;> simp [unique]

/-- `NULLIF(s, '')`. -/
def nullIfEmpty (s : String) : Option String := if s = "" then none else some s

structure BalanceColumns where
  availableMinor : Int64
  pendingMinor : Int64
  allowNegative : Bool
  lastEntryID : Option UUID
  version : Int64
  updatedAt : Time
  deriving DecidableEq, Repr

structure BalanceRow extends BalanceColumns where
  no_overdraft_check : allowNegative ∨ 0 ≤ availableMinor
  pending_check : 0 ≤ pendingMinor
  version_check : 0 ≤ version
  deriving DecidableEq, Repr

def BalanceColumns.check (b : BalanceColumns) : Except PgError BalanceRow :=
  if h₁ : b.allowNegative ∨ 0 ≤ b.availableMinor then
    if h₂ : 0 ≤ b.pendingMinor then
      if h₃ : 0 ≤ b.version then .ok ⟨b, h₁, h₂, h₃⟩
      else .error (.check "account_balances" "account_balances_version_check")
    else .error (.check "account_balances" "account_balances_pending_check")
  else .error (.check "account_balances" "account_balances_no_overdraft_check")

structure AccountColumns where
  externalRef : String
  type : Ledger.AccountType
  normalBalance : Ledger.Direction
  currency : String
  ownerID : Option String
  allowNegative : Bool
  status : Ledger.AccountStatus
  parentAccountID : Option UUID
  shardIndex : Option ℕ
  shardCount : ℕ
  createdAt : Time
  deriving DecidableEq, Repr

/-- A row of `accounts`, with its row of `account_balances`: a trigger creates the two
together, and nothing deletes either. -/
structure AccountRow extends AccountColumns where
  account_type_check : type.Valid
  currency_check : Ledger.currencyPattern currency
  normal_balance_matches_type_check : normalBalance = type.normalBalance
  no_nested_sharding_check : parentAccountID = none ∨ shardCount = 1
  balance : BalanceRow
  deriving DecidableEq, Repr

/-- The balance row that the trigger `accounts_create_balance` inserts. -/
def BalanceRow.created (allowNegative : Bool) (now : Time) : BalanceRow where
  availableMinor := 0
  pendingMinor := 0
  allowNegative := allowNegative
  lastEntryID := none
  version := 0
  updatedAt := now
  no_overdraft_check := .inr (by decide)
  pending_check := by decide
  version_check := by decide

def AccountColumns.check (a : AccountColumns) (balance : BalanceRow) : Except PgError AccountRow :=
  if h₁ : a.type.Valid then
    if h₂ : Ledger.currencyPattern a.currency then
      if h₃ : a.parentAccountID = none ∨ a.shardCount = 1 then
        if h₄ : a.normalBalance = a.type.normalBalance then .ok ⟨a, h₁, h₂, h₄, h₃, balance⟩
        else .error (.check "accounts" "accounts_normal_balance_matches_type_check")
      else .error (.check "accounts" "accounts_no_nested_sharding_check")
    else .error (.check "accounts" "accounts_currency_check")
  else .error (.check "accounts" "accounts_account_type_check")

structure TransactionColumns where
  idempotencyKey : Option String
  principalID : String
  type : Ledger.TransactionType
  status : Ledger.TransactionStatus
  externalRef : Option String
  metadata : Ledger.Metadata
  createdAt : Time
  postedAt : Option Time
  deriving DecidableEq, Repr

structure TransactionRow extends TransactionColumns where
  posted_at_check : status = .pending ↔ postedAt = none
  type_check : type.Valid
  deriving DecidableEq, Repr

def TransactionColumns.check (t : TransactionColumns) : Except PgError TransactionRow :=
  if h₁ : t.status = .pending ↔ t.postedAt = none then
    if h₂ : t.type.Valid then .ok ⟨t, h₁, h₂⟩
    else .error (.check "transactions" "transactions_type_check")
  else .error (.check "transactions" "transactions_posted_at_check")

structure JournalColumns where
  transactionID : UUID
  accountID : UUID
  direction : Ledger.Direction
  amountMinor : Int64
  currency : String
  entrySeq : ℕ
  createdAt : Time
  deriving DecidableEq, Repr

structure JournalRow extends JournalColumns where
  amount_check : 0 < amountMinor
  direction_check : direction.Valid
  deriving DecidableEq, Repr

def JournalColumns.check (e : JournalColumns) : Except PgError JournalRow :=
  if h₁ : 0 < e.amountMinor then
    if h₂ : e.direction.Valid then .ok ⟨e, h₁, h₂⟩
    else .error (.check "journal_entries" "journal_entries_direction_check")
  else .error (.check "journal_entries" "journal_entries_amount_check")

structure EventEntry where
  entryID : UUID
  accountID : UUID
  direction : Ledger.Direction
  amount : Ledger.Money
  entrySeq : ℕ
  deriving DecidableEq, Repr

structure EventBalance where
  accountID : UUID
  available : Ledger.Money
  version : Int64
  deriving DecidableEq, Repr

structure TransactionEvent where
  transactionID : UUID
  type : Ledger.TransactionType
  status : Ledger.TransactionStatus
  currency : String
  createdAt : Time
  postedAt : Option Time
  reverses : Option UUID
  reason : String
  entries : List EventEntry
  balances : List EventBalance
  deriving DecidableEq, Repr

structure BalanceUpdatedEvent where
  accountID : UUID
  transactionID : UUID
  available : Ledger.Money
  version : Int64
  deriving DecidableEq, Repr

structure AccountCreatedEvent where
  accountID : UUID
  externalRef : String
  type : Ledger.AccountType
  normalBalance : Ledger.Direction
  currency : String
  ownerID : Option String
  allowNegative : Bool
  deriving DecidableEq, Repr

/-- What an event says, before it is encoded. -/
inductive EventPayload where
  | transaction (e : TransactionEvent)
  | balanceUpdated (e : BalanceUpdatedEvent)
  | accountCreated (e : AccountCreatedEvent)
  | stepCompleted (e : Saga.StepCompletedEvent)
  | manualReview (e : Saga.ManualReviewEvent)
  deriving DecidableEq, Repr

structure Event where
  aggregateType : String
  aggregateID : String
  eventType : String
  eventVersion : ℕ
  occurredAt : Time
  payload : EventPayload
  deriving DecidableEq, Repr

inductive RecordStatus where
  | inProgress
  | completed
  | failed
  deriving DecidableEq, Repr

structure RecordColumns where
  fingerprint : Bytes
  status : RecordStatus
  responseStatus : Option ℕ
  responseBody : Option Bytes
  transactionID : Option UUID
  method : String
  route : String
  createdAt : Time
  expiresAt : Time
  leaseExpiresAt : Time
  deriving DecidableEq, Repr

structure RecordRow extends RecordColumns where
  completed_check : status ≠ .completed ∨ responseStatus.isSome ∧ responseBody.isSome
  expiry_check : createdAt < expiresAt
  lease_within_ttl_check : leaseExpiresAt ≤ expiresAt
  deriving DecidableEq, Repr

def RecordColumns.check (r : RecordColumns) : Except PgError RecordRow :=
  if h₁ : r.status ≠ .completed ∨ r.responseStatus.isSome ∧ r.responseBody.isSome then
    if h₂ : r.createdAt < r.expiresAt then
      if h₃ : r.leaseExpiresAt ≤ r.expiresAt then .ok ⟨r, h₁, h₂, h₃⟩
      else .error (.check "idempotency_keys" "idempotency_keys_lease_within_ttl_check")
    else .error (.check "idempotency_keys" "idempotency_keys_expiry_check")
  else .error (.check "idempotency_keys" "idempotency_keys_completed_check")

structure SagaRow where
  sagaType : String
  principalID : String
  currentStep : Saga.Step
  status : Saga.Status
  payload : Saga.Payload
  retryCount : ℕ
  lastError : Option String
  idempotencyKey : Option String
  leaseOwner : Option String
  leaseExpiresAt : Option Time
  stepDeadlineAt : Time
  createdAt : Time
  deriving DecidableEq, Repr

structure StepRow where
  sagaID : UUID
  step : Saga.Step
  attempt : ℕ
  direction : Saga.Direction
  status : Saga.StepStatus
  transactionID : Option UUID
  gatewayKey : Option String
  error : Option String
  startedAt : Time
  finishedAt : Option Time
  deriving DecidableEq, Repr

/-- The database. The outbox is keyed by `event_id`, and `idempotency_keys` by
`(principal_id, key)`. -/
structure DB where
  accounts : Table UUID AccountRow
  transactions : Table UUID TransactionRow
  journal : Table UUID JournalRow
  outbox : Table UUID Event
  idempotencyKeys : Table (String × String) RecordRow
  sagaInstances : Table UUID SagaRow
  sagaSteps : Table UUID StepRow

namespace DB

def empty : DB := ⟨.empty, .empty, .empty, .empty, .empty, .empty, .empty⟩

end DB

end LedgerCore
