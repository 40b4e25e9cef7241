import LedgerCore.Ledger.Overdraft

/-! The status checks of a posting, which come after the entries are routed to shards. -/
namespace LedgerCore.Ledger
open LedgerCore.Program
variable {d : Draws} {txID id : UUID} {req : TransactionRequest}

/-- What `postTx` does with the entries once they are routed. -/
def postRouted (d : Draws) (txID : UUID) (req : TransactionRequest) (requests : List EntryRequest) :
    TxM Transaction := do
  let accountIDs := sortedAccountIDs requests
  let accounts ← lockAndValidate accountIDs requests
  let (header, balances) ← writeTransaction d (postHeader txID req) requests accounts accountIDs
  appendTransactionEvent d "TransactionPosted" header balances none ""
  runRecord req.record header
  completeIdempotency req.idempotency header
  pure header

/-- `PostTransaction` at READ COMMITTED: the shards are resolved on `before`, and `db` is the
database by the time that the locks are taken. -/
def postTransactionAcross (d : Draws) (txID : UUID) (req : TransactionRequest) (before db : DB) :
    Except Error (Transaction × DB) := do
  req.validate
  inTx d.now (postRouted d txID req.withKey (routed d req.withKey.entries before)) db

/-- Where nothing changes in between, it is the posting that runs alone. -/
theorem postTransactionAcross_self (d : Draws) (txID : UUID) (req : TransactionRequest) (db : DB) :
    postTransactionAcross d txID req db db = postTransaction d txID req db := by
  have hrun : (postTx d txID req.withKey).run (exec d.now) ⟨db, []⟩ =
      (postRouted d txID req.withKey (routed d req.withKey.entries db)).run (exec d.now) ⟨db, []⟩ := by
    change (routeToShards d req.withKey.entries >>= postRouted d txID req.withKey).run _ _ = _
    rw [Prog.run_bind, run_routeToShards]
  simp only [postTransactionAcross, postTransaction, inTx, hrun]

/-- The database after a call; one that fails is rolled back. -/
def settled {α : Type} (db : DB) : Except Error (α × DB) → DB
  | .ok (_, db') => db'
  | .error _ => db

/-- `UPDATE accounts SET status = $2 WHERE id = $1`. -/
def setStatus (id : UUID) (status : AccountStatus) (db : DB) : DB :=
  { db with accounts := db.accounts.modify id fun r => { r with status } }

section Status
variable {id : UUID} {status : AccountStatus}

end Status

/-- The posting fails, and the database is as it was. -/
def Refused (d : Draws) (txID : UUID) (req : TransactionRequest) (before db : DB) : Prop :=
  (∃ err, postTransactionAcross d txID req before db = .error err) ∧
    settled db (postTransactionAcross d txID req before db) = db

end LedgerCore.Ledger
