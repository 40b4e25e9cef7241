import LedgerCore.Ledger.Events
import LedgerCore.Table.Changes

/-! The projector's read model, and the database transaction in which one event is applied to it. -/
namespace LedgerCore.Projector
open LedgerCore.Program

/-- What `Apply` reads of a message: the outbox row's envelope. -/
structure Envelope where
  eventID : UUID
  eventType : String
  payload : EventPayload
  deriving DecidableEq, Repr

/-- The envelope that `outbox.Append` assembles, and both publishers carry as it is. -/
def Envelope.ofEvent (eventID : UUID) (e : Event) : Envelope := ⟨eventID, e.eventType, e.payload⟩

structure ProjectionColumns where
  availableMinor : Int64
  currency : String
  version : Int64
  lastEventID : UUID
  deriving DecidableEq, Repr

structure ProjectionRow extends ProjectionColumns where
  version_check : 0 ≤ version
  deriving DecidableEq, Repr

def ProjectionColumns.check (p : ProjectionColumns) : Except PgError ProjectionRow :=
  if h : 0 ≤ p.version then .ok ⟨p, h⟩
  else .error (.check "balance_projections" "balance_projections_version_check")

/-- The projector's tables: `processed_events`, with the type of each event, and
`balance_projections`. -/
structure ProjectionDB where
  processedEvents : Table UUID String
  balanceProjections : Table UUID ProjectionRow

def ProjectionDB.empty : ProjectionDB := ⟨.empty, .empty⟩

/-- `INSERT INTO processed_events … ON CONFLICT (event_id) DO NOTHING`; the reply is whether a row
was inserted. -/
def recordEvent (eventID : UUID) (eventType : String) (db : ProjectionDB) : Bool × ProjectionDB :=
  let new := (db.processedEvents.find? eventID).isNone
  (new, { db with
    processedEvents := db.processedEvents.put eventID (if new then some eventType else none) })

/-- The row that an applied balance writes over the account's row, if it writes one. An older
version changes nothing, and a row keeps the currency it was inserted with. -/
def projectedRow (row : ProjectionRow) : Option ProjectionRow → Option ProjectionRow
  | none => some row
  | some old =>
    if old.version < row.version then some { row with currency := old.currency } else none

/-- The constraints of `balance_projections`: a new row's account must be among `accounts`. -/
def balanceWrite (accounts : List UUID) (eventID : UUID) (b : EventBalance)
    (old : Option ProjectionRow) : Except PgError (Option ProjectionRow) := do
  let row ← ProjectionColumns.check
    ⟨b.available.amountMinor, b.available.currency, b.version, eventID⟩
  failIf (old = none ∧ b.accountID ∉ accounts)
    (.foreignKey "balance_projections" "balance_projections_account_id_fkey")
  pure (projectedRow row old)

/-- `INSERT INTO balance_projections … ON CONFLICT (account_id) DO UPDATE … WHERE version < …`. -/
def projectBalance (accounts : List UUID) (eventID : UUID) (b : EventBalance)
    (db : ProjectionDB) : Except PgError ProjectionDB :=
  (balanceWrite accounts eventID b (db.balanceProjections.find? b.accountID)).map fun row =>
    { db with balanceProjections := db.balanceProjections.put b.accountID row }

inductive Call where
  | recordEvent (eventID : UUID) (eventType : String)
  | applyBalance (eventID : UUID) (b : EventBalance)

@[reducible] def Reply : Call → Type
  | .recordEvent _ _ => Bool
  | .applyBalance _ _ => Unit

def exec (accounts : List UUID) : Handler Reply Error ProjectionDB
  | .recordEvent eventID eventType, db => .ok (recordEvent eventID eventType db)
  | .applyBalance eventID b, db =>
    ((projectBalance accounts eventID b db).mapError fun e => e.toError.wrap
      ("apply balance for account " ++ b.accountID.string ++ " from event " ++ eventID.string)).map
      fun db' => ((), db')

/-- `json.Unmarshal` of the payload, as far as `Apply` reads it. -/
def decodeBalances (p : EventPayload) : Except Error (List EventBalance) :=
  ((Ledger.eventBalances p).forM fun b =>
    discard ((Ledger.newMoney b.available.amountMinor b.available.currency).mapError
      (Error.wrap "decode money"))).map fun _ => Ledger.eventBalances p

/-- The event types that `Apply` has logic for. -/
def Known (eventType : String) : Prop :=
  eventType = "TransactionPosted" ∨ eventType = "TransactionReversed"

instance (eventType : String) : Decidable (Known eventType) := inferInstanceAs (Decidable (_ ∨ _))

/-- An envelope as `Apply` sees it: with the balances of its payload, if that can be decoded. -/
structure Decoded where
  eventID : UUID
  eventType : String
  balances : Except Error (List EventBalance)

def Envelope.decoded (envelope : Envelope) : Decoded :=
  ⟨envelope.eventID, envelope.eventType, decodeBalances envelope.payload⟩

/-- What `Apply` does before it begins a transaction. -/
def Decoded.check (e : Decoded) : Except Error (List EventBalance) := do
  failIf (¬Known e.eventType) (.errorf ("event " ++ e.eventID.string ++ " type " ++
    quote e.eventType) .unknownEventType)
  e.balances.mapError (Error.wrap ("decode " ++ e.eventType ++ " payload for event " ++
    e.eventID.string))

/-- The reply is whether the event was applied; `false` is an event that was handled before, after
which the transaction, which has written nothing, is rolled back. -/
def project (eventID : UUID) (eventType : String) (balances : List EventBalance) :
    Prog Reply Error Bool := do
  let recorded ← .perform (Call.recordEvent eventID eventType)
  if recorded then do
    balances.forM fun b => .perform (Call.applyBalance eventID b)
    pure true
  else pure false

def Decoded.apply (e : Decoded) : Prog Reply Error Bool := do
  let balances ← .ofExcept e.check
  project e.eventID e.eventType balances

end LedgerCore.Projector
