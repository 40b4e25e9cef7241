import LedgerCore.Ledger.Repository

/-! The posting service. Values that the code draws from generators or a random source are
parameters (`Draws`). -/
namespace LedgerCore.Ledger
open LedgerCore.Program

structure EntryRequest where
  accountID : UUID
  direction : Direction
  amount : Money
  deriving DecidableEq, Repr

/-- Builds the response that is stored with the key, from the transaction about to commit. -/
abbrev ResponseRenderer := Transaction → Except Error (ℕ × Bytes)

/-- Extra writes made inside of the posting transaction. -/
abbrev Recorder := Transaction → TxM Unit

structure Idempotent where
  principalID : String
  key : String
  render : Option ResponseRenderer

structure TransactionRequest where
  principalID : String
  type : TransactionType
  externalRef : Option String
  metadata : Metadata
  entries : List EntryRequest
  idempotencyKey : Option String
  idempotency : Option Idempotent
  record : Option Recorder

/-- One attempt's `now()`, the ids it generates for entries and events, in order, and the
random number it draws for each sharded account. -/
structure Draws where
  now : Time
  entryID : ℕ → UUID
  eventID : ℕ → UUID
  shard : UUID → ℕ

def validateEntry (currency : String) (totals : Money × Money) (entry : EntryRequest × ℕ) :
    Except Error (Money × Money) := do
  let (debits, credits) := totals
  let (e, i) := entry
  failIf (e.accountID = UUID.nil) (.errorf s!"entry {i}: account id is required" .invalidEntry)
  failIf (!e.direction.Valid)
    (.errorf (s!"entry {i}: direction " ++ quote e.direction.text) .invalidEntry)
  e.amount.validate.mapError (Error.wrap s!"entry {i}")
  failIf (e.amount.amountMinor ≤ 0)
    (.errorf (s!"entry {i}: amount " ++ e.amount.string ++ " must be positive") .invalidEntry)
  failIf (e.amount.currency ≠ currency)
    (.errorf (s!"entry {i} is " ++ e.amount.currency ++ ", transaction is " ++ currency)
      .mixedCurrency)
  if e.direction = .debit then
    let debits ← (debits.add e.amount).mapError (Error.wrap s!"total entry {i}")
    pure (debits, credits)
  else
    let credits ← (credits.add e.amount).mapError (Error.wrap s!"total entry {i}")
    pure (debits, credits)

def TransactionRequest.validate (r : TransactionRequest) : Except Error Unit := do
  failIf (!r.type.Valid)
    (.errorf ("transaction type " ++ quote r.type.text) .invalidTransactionType)
  failIf (r.entries.length < 2) (.errorf s!"{r.entries.length} entries" .tooFewEntries)
  let currency := (r.entries.head?.map fun e => e.amount.currency).getD ""
  let zero ← newMoney 0 currency
  let (debits, credits) ← r.entries.zipIdx.foldlM (validateEntry currency) (zero, zero)
  failIf (debits ≠ credits)
    (.errorf ("debits " ++ debits.string ++ ", credits " ++ credits.string) .unbalancedTransaction)

namespace Tx

def resolveShards (ids : List UUID) : TxM (List (UUID × List UUID)) :=
  .perform (TxCall.resolveShards ids)

def lockAccounts (ids : List UUID) : TxM (List LockedAccount) := .perform (TxCall.lockAccounts ids)

def insertAccount (a : Account) : TxM Time := .perform (TxCall.insertAccount a)

def insertTransaction (t : Transaction) : TxM (Time × Option Time) :=
  .perform (TxCall.insertTransaction t)

def insertEntries (entries : List JournalEntry) : TxM (List JournalEntry) :=
  .perform (TxCall.insertEntries entries)

def applyBalanceDelta (d : BalanceDelta) : TxM Balance := .perform (TxCall.applyBalanceDelta d)

def applyPendingDelta (d : PendingDelta) : TxM Unit := .perform (TxCall.applyPendingDelta d)

def loadTransactionForUpdate (id : UUID) : TxM Transaction :=
  .perform (TxCall.loadTransactionForUpdate id)

def markReversed (id : UUID) : TxM Unit := .perform (TxCall.markReversed id)

def appendEvent (eventID : UUID) (e : Event) : TxM Unit := .perform (TxCall.appendEvent eventID e)

def commitSagaStep (c : Saga.StepCommit) : TxM Unit := .perform (TxCall.commitSagaStep c)

def completeIdempotency (c : Idempotency.Completion) : TxM Unit :=
  .perform (TxCall.completeIdempotency c)

end Tx

/-- The distinct accounts of the entries, in the order of their string form. -/
def sortedAccountIDs (entries : List EntryRequest) : List UUID :=
  (entries.map fun e => e.accountID).dedup.insertionSort fun a b => a.string ≤ b.string

/-- The shard drawn for an account, if it has any. -/
def chosenShard (d : Draws) (shards : List (UUID × List UUID)) (accountID : UUID) : Option UUID :=
  (shards.lookup accountID).bind fun ids => ids[d.shard accountID % ids.length]?

def routeToShards (d : Draws) (entries : List EntryRequest) : TxM (List EntryRequest) := do
  let shards ← Tx.resolveShards (sortedAccountIDs entries)
  if shards = [] then pure entries
  else pure (entries.map fun e =>
    { e with accountID := (chosenShard d shards e.accountID).getD e.accountID })

abbrev AccountMap := UUID → Option LockedAccount

def accountMap (locked : List LockedAccount) : AccountMap := fun id =>
  locked.find? fun a => a.id = id

def checkPostable (accounts : AccountMap) (id : UUID) : Except Error Unit :=
  match accounts id with
  | none => .error (.errorf ("account " ++ id.string) .accountNotFound)
  | some account =>
    if account.status.Postable then .ok ()
    else .error (.errorf ("account " ++ id.string ++ " is " ++ account.status.text)
      .accountNotPostable)

def checkCurrency (accounts : AccountMap) (entry : EntryRequest × ℕ) : Except Error Unit :=
  let (e, i) := entry
  let currency := ((accounts e.accountID).map fun a => a.currency).getD ""
  if e.amount.currency = currency then .ok ()
  else .error (.errorf (s!"entry {i} posts " ++ e.amount.currency ++ " to account " ++
    e.accountID.string ++ " which holds " ++ currency) .currencyMismatch)

def lockAndValidate (accountIDs : List UUID) (entries : List EntryRequest) : TxM AccountMap := do
  let locked ← Tx.lockAccounts accountIDs
  let accounts := accountMap locked
  .ofExcept (accountIDs.forM (checkPostable accounts))
  .ofExcept (entries.zipIdx.forM (checkCurrency accounts))
  pure accounts

def buildEntries (d : Draws) (txID : UUID) (requests : List EntryRequest) : List JournalEntry :=
  requests.zipIdx.map fun (r, i) =>
    { id := d.entryID i, transactionID := txID, accountID := r.accountID, direction := r.direction,
      amount := r.amount, entrySeq := i, createdAt := 0 }

/-- The running totals of `applyEntries`: each account's delta and last entry. -/
structure Aggregate where
  deltas : UUID → Int64
  lastEntry : UUID → UUID

def Aggregate.zero : Aggregate := ⟨fun _ => 0, fun _ => UUID.nil⟩

def aggregateEntry (accounts : AccountMap) (g : Aggregate) (e : JournalEntry) :
    Except Error Aggregate := do
  let normalBalance := ((accounts e.accountID).map fun a => a.normalBalance).getD (.other "")
  let signed ← (signedAmount e.direction normalBalance e.amount.amountMinor).mapError
    (Error.wrap ("entry " ++ e.id.string))
  match addInt64 (g.deltas e.accountID) signed with
  | none => throw (.errorf ("aggregate entries for account " ++ e.accountID.string) .moneyOverflow)
  | some total =>
    pure ⟨Function.update g.deltas e.accountID total, Function.update g.lastEntry e.accountID e.id⟩

def checkFunds (account : Option LockedAccount) (id : UUID) (delta : Int64) : Except Error Unit :=
  let available := (account.map fun a => a.availableMinor).getD 0
  match addInt64 available delta with
  | none => .error (.errorf (s!"apply {delta} to account " ++ id.string ++ s!" balance {available}")
      .moneyOverflow)
  | some projected =>
    if projected < 0 ∧ !((account.map fun a => a.allowNegative).getD false) then
      .error (.errorf ("account " ++ id.string ++ s!" would fall to {projected} minor units")
        .insufficientFunds)
    else .ok ()

def applyBalance (accounts : AccountMap) (g : Aggregate) (id : UUID) : TxM EventBalance := do
  let account := accounts id
  .ofExcept (checkFunds account id (g.deltas id))
  let balance ← Tx.applyBalanceDelta
    { accountID := id, deltaMinor := g.deltas id,
      expectedVersion := (account.map fun a => a.version).getD 0, lastEntryID := g.lastEntry id }
  pure ⟨id, balance.available, balance.version⟩

def applyEntries (entries : List JournalEntry) (accounts : AccountMap) (order : List UUID) :
    TxM (List EventBalance) := do
  let g ← .ofExcept (entries.foldlM (aggregateEntry accounts) .zero)
  order.mapM' (applyBalance accounts g)

def eventVersion : ℕ := 1

def uniformCurrency (entries : List JournalEntry) : String :=
  match entries with
  | [] => ""
  | first :: rest =>
    if rest.all fun e => e.amount.currency = first.amount.currency then first.amount.currency
    else ""

/-- `json.Marshal` of a payload fails on an amount that fails to validate. -/
def marshal (context : String) (amounts : List Money) (payload : EventPayload) :
    Except Error EventPayload :=
  (amounts.forM Money.validate).mapError (Error.wrap context) |>.map fun _ => payload

def appendBalanceUpdatedEvents (d : Draws) (header : Transaction) (balances : List EventBalance)
    (occurredAt : Time) : TxM Unit :=
  balances.zipIdx.forM fun (b, i) => do
    let payload ← .ofExcept (marshal ("marshal BalanceUpdated event for account " ++
      b.accountID.string) [b.available]
      (.balanceUpdated ⟨b.accountID, header.id, b.available, b.version⟩))
    Tx.appendEvent (d.eventID (i + 1))
      { aggregateType := Outbox.aggregateAccount, aggregateID := b.accountID.string,
        eventType := "BalanceUpdated", eventVersion, occurredAt, payload }

def appendTransactionEvent (d : Draws) (eventType : String) (header : Transaction)
    (balances : List EventBalance) (reverses : Option UUID) (reason : String) : TxM Unit := do
  let entries := header.entries.map fun e =>
    ({ entryID := e.id, accountID := e.accountID, direction := e.direction, amount := e.amount,
       entrySeq := e.entrySeq } : EventEntry)
  let payload ← .ofExcept (marshal ("marshal " ++ eventType ++ " event for " ++ header.id.string)
    (header.entries.map (fun e => e.amount) ++ balances.map fun b => b.available)
    (.transaction
      { transactionID := header.id, type := header.type, status := header.status,
        currency := uniformCurrency header.entries, createdAt := header.createdAt,
        postedAt := header.postedAt, reverses, reason, entries, balances }))
  let occurredAt := header.postedAt.getD header.createdAt
  Tx.appendEvent (d.eventID 0)
    { aggregateType := Outbox.aggregateTransaction, aggregateID := header.id.string, eventType,
      eventVersion, occurredAt, payload }
  appendBalanceUpdatedEvents d header balances occurredAt

def completeIdempotency (idem : Option Idempotent) (header : Transaction) : TxM Unit :=
  match idem with
  | none => pure ()
  | some i =>
    match i.render with
    | none => .fail (.errorf ("idempotency key " ++ i.key) .missingRenderer)
    | some render => do
      let (status, body) ← .ofExcept ((render header).mapError
        (Error.wrap ("render response for transaction " ++ header.id.string)))
      Tx.completeIdempotency
        { principalID := i.principalID, key := i.key, responseStatus := status,
          responseBody := body, transactionID := header.id }

def runRecord (record : Option Recorder) (header : Transaction) : TxM Unit :=
  match record with
  | none => pure ()
  | some record => record header

/-- From the header's insert to the balances: what a posting and a reversal share. -/
def writeTransaction (d : Draws) (header : Transaction) (requests : List EntryRequest)
    (accounts : AccountMap) (accountIDs : List UUID) : TxM (Transaction × List EventBalance) := do
  let (createdAt, postedAt) ← Tx.insertTransaction header
  let entries ← Tx.insertEntries (buildEntries d header.id requests)
  let balances ← applyEntries entries accounts accountIDs
  pure ({ header with createdAt, postedAt, entries }, balances)

def postHeader (txID : UUID) (req : TransactionRequest) : Transaction where
  id := txID
  idempotencyKey := req.idempotencyKey
  principalID := req.principalID
  type := req.type
  status := .posted
  externalRef := req.externalRef
  metadata := req.metadata
  createdAt := 0
  postedAt := none
  entries := []

/-- The closure that `postTransaction` runs in one database transaction. -/
def postTx (d : Draws) (txID : UUID) (req : TransactionRequest) : TxM Transaction := do
  let requests ← routeToShards d req.entries
  let accountIDs := sortedAccountIDs requests
  let accounts ← lockAndValidate accountIDs requests
  let (header, balances) ← writeTransaction d (postHeader txID req) requests accounts accountIDs
  appendTransactionEvent d "TransactionPosted" header balances none ""
  runRecord req.record header
  completeIdempotency req.idempotency header
  pure header

/-- The key of an idempotent request becomes the transaction's key. -/
def TransactionRequest.withKey (req : TransactionRequest) : TransactionRequest :=
  match req.idempotency with
  | none => req
  | some i => { req with idempotencyKey := some i.key }

def postTransaction (d : Draws) (txID : UUID) (req : TransactionRequest) (db : DB) :
    Except Error (Transaction × DB) := do
  req.validate
  inTx d.now (postTx d txID req.withKey) db

def metadataKeyReverses : String := "reverses_transaction_id"

def metadataKeyReason : String := "reversal_reason"

def checkReversible (txID : UUID) (original : Transaction) : Except Error Unit :=
  match original.status with
  | .reversed => .error (.errorf ("reverse transaction " ++ txID.string) .alreadyReversed)
  | .posted =>
    if original.entries = [] then
      .error (.errorf ("reverse transaction " ++ txID.string ++ ": no journal entries")
        .tooFewEntries)
    else .ok ()
  | .pending => .error (.errorf ("reverse transaction " ++ txID.string ++ " in status " ++
      original.status.text) .transactionNotPosted)

/-- Every leg on the other side, on the same account, for the same amount. -/
def mirrored (entries : List JournalEntry) : List EntryRequest :=
  entries.map fun e => ⟨e.accountID, e.direction.opposite, e.amount⟩

def reversalHeader (reversalID txID : UUID) (reason : String) (idem : Option Idempotent) :
    Transaction where
  id := reversalID
  idempotencyKey := idem.map fun i => i.key
  principalID := (idem.map fun i => i.principalID).getD ""
  type := .reversal
  status := .posted
  externalRef := none
  metadata := [(metadataKeyReverses, quote txID.string), (metadataKeyReason, quote reason)]
  createdAt := 0
  postedAt := none
  entries := []

/-- The closure that `doReverse` runs in one database transaction. -/
def reverseTx (d : Draws) (reversalID txID : UUID) (reason : String) (idem : Option Idempotent)
    (record : Option Recorder) : TxM Transaction := do
  let original ← Tx.loadTransactionForUpdate txID
  .ofExcept (checkReversible txID original)
  let requests := mirrored original.entries
  let accountIDs := sortedAccountIDs requests
  let accounts ← lockAndValidate accountIDs requests
  let (header, balances) ← writeTransaction d (reversalHeader reversalID txID reason idem)
    requests accounts accountIDs
  Tx.markReversed txID
  appendTransactionEvent d "TransactionReversed" header balances (some txID) reason
  runRecord record header
  completeIdempotency idem header
  pure header

def doReverse (d : Draws) (reversalID txID : UUID) (reason : String) (idem : Option Idempotent)
    (record : Option Recorder) (db : DB) : Except Error (Transaction × DB) :=
  if reason = "" then .error (.ofSentinel .reversalReasonRequired)
  else inTx d.now (reverseTx d reversalID txID reason idem record) db

def reverseTransaction (d : Draws) (reversalID txID : UUID) (reason : String) (db : DB) :
    Except Error (Transaction × DB) :=
  doReverse d reversalID txID reason none none db

end LedgerCore.Ledger
