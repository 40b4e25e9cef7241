import LedgerCore.Gateway.Client
import LedgerCore.Ledger.Service

/-! The payout orchestrator. A step is a program over the calls it makes on the saga store, the
ledger and the gateway; an error that ends a step is only logged by its caller. -/
namespace LedgerCore.Payout
open LedgerCore.Program LedgerCore.Saga

def sagaType : String := "MARKETPLACE_PAYOUT"

def metadataKeySagaID : String := "saga_id"

def metadataKeyStep : String := "saga_step"

def eventTypeSagaStepCompleted : String := "SagaStepCompleted"

def eventTypeSagaNeedsManualReview : String := "SagaNeedsManualReview"

def eventVersion : ℕ := 1

structure Config where
  sagaType : String
  workerID : String
  claimBatch : ℕ
  lease : ℕ
  stepTimeout : ℕ
  maxStepAttempts : ℕ
  maxCompensationAttempts : ℕ
  maxProbes : ℕ
  deriving DecidableEq, Repr

structure Orchestrator where
  cfg : Config
  deriving DecidableEq, Repr

/-- `New`, with its defaults. The intervals of the two loops are left out: a claim may come at
any time. -/
def Orchestrator.new (cfg : Config) : Orchestrator where
  cfg :=
    { cfg with
      claimBatch := if cfg.claimBatch = 0 then 50 else cfg.claimBatch
      maxProbes := if cfg.maxProbes = 0 then 6 else cfg.maxProbes
      sagaType := if cfg.sagaType = "" then Payout.sagaType else cfg.sagaType }

def validate (p : Payload) : Except Error Unit := do
  failIf (p.customerWalletID = UUID.nil ∨ p.suspenseID = UUID.nil ∨
      p.merchantPayableID = UUID.nil ∨ p.feeRevenueID = UUID.nil)
    (.errorf "payout: every account id is required" .invalidEntry)
  failIf (p.amountMinor ≤ 0) (.errorf "payout: amount must be positive" .invalidEntry)
  failIf (p.feeMinor < 0) (.errorf "payout: fee must not be negative" .invalidEntry)
  failIf (p.feeMinor ≥ p.amountMinor)
    (.errorf s!"payout: fee {p.feeMinor} must be less than amount {p.amountMinor}" .invalidEntry)
  failIf (p.currency = "") (.errorf "payout: currency is required" .invalidCurrency)

def merchantMinor (p : Payload) : Int64 := p.amountMinor - p.feeMinor

/-- What `validate` makes sure of. -/
structure Validated (p : Payload) : Prop where
  customerWallet : p.customerWalletID ≠ UUID.nil
  suspense : p.suspenseID ≠ UUID.nil
  merchantPayable : p.merchantPayableID ≠ UUID.nil
  feeRevenue : p.feeRevenueID ≠ UUID.nil
  fee_nonneg : 0 ≤ p.feeMinor.toInt
  fee_lt : p.feeMinor.toInt < p.amountMinor.toInt

theorem validate_eq_ok {p : Payload} (h : validate p = .ok ()) : Validated p := by
  obtain ⟨_, hids, h⟩ := bind_eq_ok.1 h
  obtain ⟨_, hamount, h⟩ := bind_eq_ok.1 h
  obtain ⟨_, hfee, h⟩ := bind_eq_ok.1 h
  obtain ⟨_, hless, -⟩ := bind_eq_ok.1 h
  have hids := failIf_eq_ok.1 hids
  have hfee := failIf_eq_ok.1 hfee
  have hless := failIf_eq_ok.1 hless
  simp only [not_or] at hids
  obtain ⟨hwallet, hsuspense, hmerchant, hrevenue⟩ := hids
  rw [Int64.lt_iff_toInt_lt, Ledger.toInt_zero, not_lt] at hfee
  rw [ge_iff_le, Int64.le_iff_toInt_le, not_le] at hless
  exact ⟨hwallet, hsuspense, hmerchant, hrevenue, hfee, hless⟩

theorem Validated.toInt_merchantMinor {p : Payload} (h : Validated p) :
    (merchantMinor p).toInt = p.amountMinor.toInt - p.feeMinor.toInt := by
  have hamount := p.amountMinor.toInt_lt
  have hnonneg := h.fee_nonneg
  have hless := h.fee_lt
  rw [merchantMinor, Int64.toInt_sub, Int.bmod_eq_of_le (by omega) (by omega)]

def gatewayKey (sagaID : UUID) : String := sagaID.string ++ ":GATEWAY"

def stepKey (sagaID : UUID) (step : Step) (direction : Saga.Direction) : String :=
  sagaID.string ++ ":" ++ step.text ++ ":" ++ direction.text

def externalRef (p : Payload) : Option String := nullIfEmpty p.externalRef

/-- The longest run of whole characters that fits in `max` bytes. -/
def takeBytes : ℕ → List Char → List Char
  | _, [] => []
  | max, c :: cs => if c.utf8Size ≤ max then c :: takeBytes (max - c.utf8Size) cs else []

/-- The source cuts between bytes; a character that straddles the bound is dropped whole here. -/
def truncate (s : String) (max : ℕ) : String :=
  if s.utf8ByteSize ≤ max then s else String.ofList (takeBytes max s.toList) ++ "…"

/-- The ledger errors that a retry would meet again. -/
def terminalLedgerError (e : Error) : Bool :=
  [.insufficientFunds, .accountNotPostable, .accountNotFound, .currencyMismatch, .mixedCurrency,
    .invalidCurrency, .scaleMismatch, .invalidEntry, .tooFewEntries, .unbalancedTransaction,
    .moneyOverflow, .invalidTransactionType, .duplicateIdempotencyKey, .alreadyReversed,
    .transactionNotPosted].any e.is

/-- The clock readings and the event id that an event takes when it is made. -/
structure Stamp where
  payloadAt : Time
  occurredAt : Time
  eventID : UUID
  deriving DecidableEq, Repr

inductive Call where
  | newUUID
  | stamp
  | nextAttemptNumber (sagaID : UUID) (step : Step) (direction : Saga.Direction)
  | attempts (sagaID : UUID)
  | unresolvedAttempt (sagaID : UUID) (step : Step)
  | get (sagaID : UUID)
  | advance (t : Transition)
  | beginStep (a : StartAttempt) (t : Transition)
  | recordAttempt (a : Attempt)
  | finishAttempt (f : FinishAttempt)
  | escalate (eventID : UUID) (t : Transition) (alert : Event)
  | postTransaction (req : Ledger.TransactionRequest)
  | reverseTransactionRecorded (txID : UUID) (reason : String) (record : Ledger.Recorder)
  | paySend (req : Gateway.PaymentRequest)
  | payAwait (key : String) (request : ℕ)
  | probe (key : String)

@[reducible] def Reply : Call → Type
  | .newUUID => Except Error UUID
  | .stamp => Stamp
  | .nextAttemptNumber _ _ _ => Except Error ℕ
  | .attempts _ => Except Error (List Attempt)
  | .unresolvedAttempt _ _ => Except Error (Option Attempt)
  | .get _ => Except Error Instance
  | .advance _ => Except Error Unit
  | .beginStep _ _ => Except Error Unit
  | .recordAttempt _ => Except Error Unit
  | .finishAttempt _ => Except Error Unit
  | .escalate _ _ _ => Except Error Unit
  | .postTransaction _ => Except Error Ledger.Transaction
  | .reverseTransactionRecorded _ _ _ => Except Error Ledger.Transaction
  | .paySend _ => ℕ
  | .payAwait _ _ => Except Error Gateway.Payment
  | .probe _ => Except Error Gateway.Payment

/-- How a step ends before its last line: an error is returned, or the process panics. -/
inductive Failure where
  | error (e : Error)
  | panic (text : String)
  deriving DecidableEq, Repr

abbrev OrchM := Prog Reply Failure

/-- `if err != nil { return err }`. -/
def orReturn {α : Type} : Except Error α → OrchM α
  | .ok a => .pure a
  | .error e => .fail (.error e)

theorem onlyCalls_orReturn {α : Type} {P : Call → Prop} (x : Except Error α) :
    (orReturn x).OnlyCalls P := by
  cases x <;> trivial

def panic {α : Type} (text : String) : OrchM α := .fail (.panic text)

namespace Store

def nextAttemptNumber (sagaID : UUID) (step : Step) (direction : Saga.Direction) : OrchM ℕ :=
  .perform (Call.nextAttemptNumber sagaID step direction) >>= orReturn

def attempts (sagaID : UUID) : OrchM (List Attempt) := .perform (Call.attempts sagaID) >>= orReturn

def unresolvedAttempt (sagaID : UUID) (step : Step) : OrchM (Option Attempt) :=
  .perform (Call.unresolvedAttempt sagaID step) >>= orReturn

def get (sagaID : UUID) : OrchM Instance := .perform (Call.get sagaID) >>= orReturn

def advance (t : Transition) : OrchM Unit := .perform (Call.advance t) >>= orReturn

def beginStep (a : StartAttempt) (t : Transition) : OrchM Unit :=
  .perform (Call.beginStep a t) >>= orReturn

/-- Its error is logged and dropped by both callers. -/
def recordAttempt (a : Attempt) : OrchM (Except Error Unit) := .perform (Call.recordAttempt a)

def finishAttempt (f : FinishAttempt) : OrchM Unit := .perform (Call.finishAttempt f) >>= orReturn

def escalate (eventID : UUID) (t : Transition) (alert : Event) : OrchM Unit :=
  .perform (Call.escalate eventID t alert) >>= orReturn

end Store

theorem onlyCalls_advance {P : Call → Prop} {t : Transition} (h : P (.advance t)) :
    (Store.advance t).OnlyCalls P :=
  .bind (Prog.onlyCalls_perform h) onlyCalls_orReturn

def newUUID (context : String) : OrchM UUID := do
  let id ← .perform Call.newUUID
  orReturn (id.mapError (Error.wrap context))

theorem onlyCalls_newUUID {P : Call → Prop} (context : String) (h : P .newUUID) :
    (newUUID context).OnlyCalls P :=
  (Prog.onlyCalls_perform h).bind fun _ => onlyCalls_orReturn _

def stamp : OrchM Stamp := .perform Call.stamp

def postTransaction (req : Ledger.TransactionRequest) : OrchM (Except Error Ledger.Transaction) :=
  .perform (Call.postTransaction req)

def reverseTransactionRecorded (txID : UUID) (reason : String) (record : Ledger.Recorder) :
    OrchM (Except Error Ledger.Transaction) :=
  .perform (Call.reverseTransactionRecorded txID reason record)

/-- The request leaves, and its answer is waited for. -/
def pay (req : Gateway.PaymentRequest) : OrchM (Except Error Gateway.Payment) := do
  let request ← .perform (Call.paySend req)
  .perform (Call.payAwait req.idempotencyKey request)

theorem onlyCalls_posting {P : Call → Prop} {req : Ledger.TransactionRequest}
    {onError : Error → OrchM Unit} (hpost : P (.postTransaction req))
    (h : ∀ e, (onError e).OnlyCalls P) :
    (postTransaction req >>= fun posted => match posted with
      | .ok _ => pure ()
      | .error cause => onError cause).OnlyCalls P := by
  refine .bind (Prog.onlyCalls_perform hpost) fun posted => ?_
  cases posted with
  | ok t => trivial
  | error e => exact h e

def probe (key : String) : OrchM (Except Error Gateway.Payment) := .perform (Call.probe key)

end LedgerCore.Payout
