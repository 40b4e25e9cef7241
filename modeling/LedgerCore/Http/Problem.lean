import LedgerCore.Base
import Mathlib.Tactic.Common

/-! Errors as HTTP problems. -/
namespace LedgerCore.Http

def problemBase : String := "https://ledger-core.invalid/problems/"

structure Problem where
  type : String
  title : String
  status : ℕ
  detail : String
  instancePath : String
  requestID : String
  deriving DecidableEq, Repr

def problemTable : List (List Sentinel × ℕ × String × String) :=
  [([.missingAPIKey], 401, "missing-api-key", "Authorization header required"),
   ([.invalidAPIKey], 401, "invalid-api-key", "The presented API key did not authenticate"),
   ([.missingKey], 400, "missing-idempotency-key", "Idempotency key required"),
   ([.invalidKey], 400, "invalid-idempotency-key", "Idempotency key must be a UUID"),
   ([.malformedBody], 400, "malformed-body", "Request body is not valid JSON"),
   ([.idempotencyConflict], 422, "idempotency-key-reused",
    "Idempotency key already used with a different request body"),
   ([.requestInProgress], 409, "request-in-progress",
    "A request with this idempotency key is still in progress"),
   ([.keyExpired, .duplicateIdempotencyKey], 409, "idempotency-key-expired",
    "This idempotency key already created a transaction, and its response is no longer available"),
   ([.leaseLost], 409, "request-in-progress",
    "Another request completed this idempotency key first"),
   ([.insufficientFunds], 422, "insufficient-funds",
    "The account has insufficient funds and does not permit a negative balance"),
   ([.unbalancedTransaction], 422, "unbalanced-transaction",
    "Debits and credits do not sum to zero"),
   ([.tooFewEntries], 422, "too-few-entries", "A transaction needs at least two entries"),
   ([.mixedCurrency], 422, "mixed-currency",
    "All entries in a transaction must share one currency"),
   ([.currencyMismatch], 422, "currency-mismatch",
    "An entry's currency does not match the account it posts to"),
   ([.invalidCurrency], 422, "invalid-currency", "Currency must be a three-letter ISO-4217 code"),
   ([.scaleMismatch], 422, "scale-mismatch",
    "The scale does not match the currency's ISO-4217 exponent"),
   ([.moneyOverflow], 422, "amount-overflow",
    "The amount does not fit in a 64-bit integer of minor units"),
   ([.invalidTransactionType], 422, "invalid-transaction-type", "Unknown transaction type"),
   ([.invalidEntry], 422, "invalid-entry", "A journal entry is malformed"),
   ([.reversalReasonRequired], 400, "reversal-reason-required", "A reversal must carry a reason"),
   ([.accountNotPostable], 422, "account-not-postable",
    "The account is frozen or closed and cannot be posted to"),
   ([.sagaNotFound], 404, "saga-not-found", "Saga not found"),
   ([.staleTransition, .sagaLeaseLost], 409, "saga-conflict", "Saga was advanced concurrently"),
   ([.runNotFound], 404, "reconciliation-run-not-found", "Reconciliation run not found"),
   ([.accountNotFound], 404, "account-not-found", "No such account"),
   ([.transactionNotFound], 404, "transaction-not-found", "No such transaction"),
   ([.alreadyReversed], 409, "already-reversed", "The transaction has already been reversed"),
   ([.transactionNotPosted], 422, "transaction-not-posted",
    "Only a posted transaction can be reversed"),
   ([.deadlineExceeded], 503, "timeout", "The request took too long and was abandoned"),
   ([.canceled], 503, "canceled", "The request was canceled")]

def problemFor (e : Error) : ℕ × String × String :=
  ((problemTable.find? fun row => row.1.any e.is).map Prod.snd).getD
    (500, "internal", "Internal error")

/-- Whether a retry of the request would meet the same error. -/
def isDeterministic (e : Error) : Bool :=
  [.unbalancedTransaction, .tooFewEntries, .mixedCurrency, .currencyMismatch, .invalidCurrency,
    .scaleMismatch, .moneyOverflow, .invalidTransactionType, .invalidEntry,
    .reversalReasonRequired, .alreadyReversed, .transactionNotPosted, .malformedBody].any e.is

/-- The problem that `writeProblem` renders. Its detail is kept back when the fault is ours. -/
def problemOf (path requestID : String) (e : Error) : Problem where
  type := problemBase ++ (problemFor e).2.1
  title := (problemFor e).2.2
  status := (problemFor e).1
  detail := if (problemFor e).1 < 500 then e.text else ""
  instancePath := path
  requestID := requestID

theorem problemFor_status (e : Error) : 400 ≤ (problemFor e).1 := by
  have htable : ∀ row ∈ problemTable, 400 ≤ row.2.1 := by decide
  unfold problemFor
  cases h : problemTable.find? fun row => row.1.any e.is with
  | none => decide
  | some row => exact htable row (List.mem_of_find?_eq_some h)

end LedgerCore.Http
