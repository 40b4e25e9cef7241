import LedgerCore.Ledger.Service

/-! Opening accounts, and splitting one into shards. -/
namespace LedgerCore.Ledger
open LedgerCore.Program

structure CreateAccountRequest where
  externalRef : String
  type : AccountType
  currency : String
  ownerID : Option String
  allowNegative : Bool
  deriving DecidableEq, Repr

def CreateAccountRequest.validate (r : CreateAccountRequest) : Except Error Unit := do
  failIf (r.externalRef = "") (.errorf "create account: external_ref is required" .invalidEntry)
  failIf (!r.type.Valid)
    (.errorf ("create account: account type " ++ quote r.type.text) .invalidAccountType)
  discard ((newMoney 0 r.currency).mapError (Error.wrap "create account"))

def createAccountTx (d : Draws) (id : UUID) (req : CreateAccountRequest) : TxM Account := do
  let account : Account :=
    { id, externalRef := req.externalRef, type := req.type,
      normalBalance := req.type.normalBalance, currency := req.currency, ownerID := req.ownerID,
      allowNegative := req.allowNegative, status := .active, createdAt := 0 }
  let createdAt ← Tx.insertAccount account
  Tx.appendEvent (d.eventID 0)
    { aggregateType := Outbox.aggregateAccount, aggregateID := id.string,
      eventType := "AccountCreated", eventVersion, occurredAt := createdAt
      payload := .accountCreated
        { accountID := id, externalRef := account.externalRef, type := account.type,
          normalBalance := account.normalBalance, currency := account.currency,
          ownerID := account.ownerID, allowNegative := account.allowNegative } }
  pure { account with createdAt }

def createAccount (d : Draws) (id : UUID) (req : CreateAccountRequest) (db : DB) :
    Except Error (Account × DB) := do
  req.validate
  inTx d.now (createAccountTx d id req) db

/-- The `shard_count` column of an account that is not itself a shard. -/
def shardedRow (shards : ℕ) (r : AccountRow) : AccountRow :=
  if h : r.parentAccountID = none then
    { r with shardCount := shards, no_nested_sharding_check := .inl h }
  else r

def shardColumns (accountID : UUID) (r : AccountRow) (now : Time) (i : ℕ) : AccountColumns where
  externalRef := r.externalRef ++ "#shard-" ++ toString i
  type := r.type
  normalBalance := r.normalBalance
  currency := r.currency
  ownerID := r.ownerID
  allowNegative := r.allowNegative
  status := r.status
  parentAccountID := some accountID
  shardIndex := some i
  shardCount := 1
  createdAt := now

/-- `ledger_shard_account`, with the ids that `gen_random_uuid` draws. -/
def ledgerShardAccount (now : Time) (shardID : ℕ → UUID) (accountID : UUID) (shards : ℕ) (db : DB) :
    Except PgError DB :=
  if shards < 2 then .error (.raise s!"shard count must be at least 2, got {shards}")
  else
    match db.accounts.find? accountID with
    | none => .error (.raise ("account " ++ accountID.string ++ " does not exist"))
    | some r =>
      if r.parentAccountID ≠ none then
        .error (.raise ("account " ++ accountID.string ++
          " is itself a shard and cannot be sharded"))
      else if 1 < r.shardCount then .ok db
      else
        (List.range shards).foldlM
          (fun db i => insertAccountRow (shardID i) (shardColumns accountID r now i) now db)
          { db with accounts := db.accounts.modify accountID (shardedRow shards) }

end LedgerCore.Ledger
