import LedgerCore.Http.Problem
import LedgerCore.Ledger.Service

/-! Write requests, and what they call on: the key cache, the key store, the clock, the ledger
and the client's connection. -/
namespace LedgerCore.Http
open LedgerCore.Program LedgerCore.Idempotency

structure EntryResponse where
  id : String
  accountID : String
  direction : String
  amount : Ledger.Money
  entrySeq : ℕ
  createdAt : Time
  deriving DecidableEq, Repr

structure TransactionResponse where
  id : String
  type : String
  status : String
  idempotencyKey : Option String
  externalRef : Option String
  metadata : Ledger.Metadata
  createdAt : Time
  postedAt : Option Time
  entries : List EntryResponse
  deriving DecidableEq, Repr

def newTransactionResponse (t : Ledger.Transaction) : TransactionResponse where
  id := t.id.string
  type := t.type.text
  status := t.status.text
  idempotencyKey := t.idempotencyKey
  externalRef := t.externalRef
  metadata := t.metadata
  createdAt := t.createdAt
  postedAt := t.postedAt
  entries := t.entries.map fun e =>
    { id := e.id.string, accountID := e.accountID.string, direction := e.direction.text,
      amount := e.amount, entrySeq := e.entrySeq, createdAt := e.createdAt }

/-- `json.Marshal`, as one process runs it: times come out in the process's own time zone, and
another build may encode otherwise. -/
structure Encoder where
  transaction : TransactionResponse → Except Error Bytes
  problem : Problem → Bytes

structure Response where
  status : ℕ
  body : Bytes
  replay : Bool
  deriving DecidableEq, Repr

def renderCreated (enc : Encoder) (t : Ledger.Transaction) : Except Error (ℕ × Bytes) :=
  ((enc.transaction (newTransactionResponse t)).mapError
    (Error.wrap ("marshal transaction " ++ t.id.string))).map fun body => (201, body)

inductive Operation where
  | post (type : Ledger.TransactionType) (externalRef : Option String) (metadata : Ledger.Metadata)
      (entries : List Ledger.EntryRequest)
  | reverse (transactionID : UUID) (reason : String)

/-- An authenticated `POST` of one of the two write routes, as far as it parses: its key, the
fingerprint of its body, and the body with the path. -/
structure Request where
  principalID : String
  key : Except Error UUID
  fingerprint : Except Error Bytes
  operation : Except Error Operation
  method : String
  route : String
  path : String
  requestID : String

inductive Call where
  | cacheGet (key : String)
  | cachePut (key : String) (record : Record)
  | now
  | reserve (r : Reservation)
  | lookup (principalID key : String)
  | reclaim (principalID key : String) (lease : ℕ)
  | fail (principalID key : String) (responseStatus : ℕ) (responseBody : Bytes)
  | release (principalID key : String)
  | postTransaction (req : Ledger.TransactionRequest)
  | reverseTransactionIdempotent (txID : UUID) (reason : String) (idem : Ledger.Idempotent)
  | respond (response : Response)

@[reducible] def Reply : Call → Type
  | .cacheGet _ => Option Record
  | .cachePut _ _ => Unit
  | .now => Time
  | .reserve _ => Except Error Bool
  | .lookup _ _ => Except Error (Option Record)
  | .reclaim _ _ _ => Except Error Bool
  | .fail _ _ _ _ => Except Error Unit
  | .release _ _ => Except Error Unit
  | .postTransaction _ => Except Error Ledger.Transaction
  | .reverseTransactionIdempotent _ _ _ => Except Error Ledger.Transaction
  | .respond _ => Unit

/-- A handler returns no error: it answers with it. -/
abbrev HttpM := Prog Reply Empty

end LedgerCore.Http
