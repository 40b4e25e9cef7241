import LedgerCore.Idempotency.Store
import LedgerCore.Saga.Store
import LedgerCore.Program.Basic

/-! The ledger's repository: the statements a ledger transaction can make, what each does to
the database, and the commit. -/
namespace LedgerCore.Ledger
open LedgerCore.Program

def containsText (s substr : String) : Bool :=
  s.toList.tails.any fun t => substr.toList.isPrefixOf t

/-- The translation of constraint violations into the domain's errors. -/
def mapError (e : PgError) : Error :=
  match e.code with
  | .checkViolation =>
    if e.constraintName = "account_balances_no_overdraft_check" then
      .errorf e.message .insufficientFunds
    else if containsText e.message "does not balance" then
      .errorf e.message .unbalancedTransaction
    else if e.constraintName = "journal_entries_amount_check" then .errorf e.message .invalidEntry
    else e.toError
  | .uniqueViolation =>
    if e.constraintName = "transactions_idempotency_key_key" then
      .errorf e.message .duplicateIdempotencyKey
    else e.toError
  | .foreignKeyViolation =>
    if e.constraintName = "journal_entries_account_currency_fkey" then
      .errorf e.message .currencyMismatch
    else if e.constraintName = "journal_entries_transaction_id_fkey" then
      .errorf e.message .transactionNotFound
    else e.toError
  | _ => e.toError

/-- `fmt.Errorf("…: %w", mapError(err))`. -/
def mapped {α : Type} (context : String) (x : Except PgError α) : Except Error α :=
  x.mapError fun e => (mapError e).wrap context

/-- What a database transaction sees of the database, its own writes included, and the
transactions whose deferred balance trigger fires at its commit. -/
structure TxState where
  db : DB
  deferred : List UUID

/-- The active shards of each account, by shard index. -/
def resolveShards (ids : List UUID) (db : DB) : List (UUID × List UUID) :=
  ids.filterMap fun parent =>
    let shards := (db.accounts.rows.filter fun r =>
      r.2.parentAccountID = some parent ∧ r.2.status = .active).insertionSort
        fun a b => a.2.shardIndex.getD 0 ≤ b.2.shardIndex.getD 0
    if shards = [] then none else some (parent, shards.map Prod.fst)

def lockedAccount (id : UUID) (r : AccountRow) : LockedAccount where
  id
  currency := r.currency
  type := r.type
  normalBalance := r.normalBalance
  status := r.status
  allowNegative := r.balance.allowNegative
  availableMinor := r.balance.availableMinor
  pendingMinor := r.balance.pendingMinor
  version := r.balance.version

/-- `SELECT … WHERE a.id = ANY($1) ORDER BY a.id`, with both rows of each account locked. -/
def lockAccounts (ids : List UUID) (db : DB) : List LockedAccount :=
  ((db.accounts.rows.filter fun r => r.1 ∈ ids).map fun r => lockedAccount r.1 r.2).insertionSort
    fun a b => a.id ≤ b.id

/-- `INSERT INTO accounts`, with the trigger that creates the balance row. -/
def insertAccountRow (id : UUID) (a : AccountColumns) (now : Time) (db : DB) : Except PgError DB := do
  let row ← a.check (.created a.allowNegative now)
  let accounts ← unique "accounts_pkey" (db.accounts.insert? id row)
  failIf (db.accounts.values.any fun r => r.externalRef = a.externalRef)
    (.unique "accounts_external_ref_key")
  pure { db with accounts }

def insertAccount (now : Time) (a : Account) (db : DB) : Except Error DB :=
  mapped ("insert account " ++ a.id.string) (insertAccountRow a.id
    { externalRef := a.externalRef, type := a.type, normalBalance := a.normalBalance,
      currency := a.currency, ownerID := a.ownerID, allowNegative := a.allowNegative,
      status := a.status, parentAccountID := none, shardIndex := none, shardCount := 1,
      createdAt := now } now db)

/-- Whether the partial unique index on `(principal_id, idempotency_key)` holds this pair. -/
def keyTaken (principalID : String) (key : Option String) (db : DB) : Bool :=
  key.isSome && db.transactions.values.any fun r =>
    r.principalID = principalID && r.idempotencyKey = key

/-- `INSERT INTO transactions`; the reply is `created_at` and `posted_at`. -/
def insertTransaction (now : Time) (t : Transaction) (db : DB) :
    Except Error ((Time × Option Time) × DB) :=
  let postedAt := if t.status = .pending then none else some now
  mapped ("insert transaction " ++ t.id.string) do
    let row ← TransactionColumns.check
      { idempotencyKey := t.idempotencyKey, principalID := t.principalID, type := t.type,
        status := t.status, externalRef := t.externalRef, metadata := t.metadata,
        createdAt := now, postedAt }
    let transactions ← unique "transactions_pkey" (db.transactions.insert? t.id row)
    failIf (keyTaken t.principalID t.idempotencyKey db) (.unique "transactions_idempotency_key_key")
    pure ((now, postedAt), { db with transactions })

/-- One row of the statement that inserts a transaction's entries. -/
def insertEntryRow (now : Time) (journal : Table UUID JournalRow) (e : JournalEntry) :
    Except PgError (Table UUID JournalRow) := do
  failIf (2 ^ 31 ≤ e.entrySeq) (.check "journal_entries" "journal_entries_entry_seq_check")
  let row ← JournalColumns.check
    { transactionID := e.transactionID, accountID := e.accountID, direction := e.direction,
      amountMinor := e.amount.amountMinor, currency := e.amount.currency,
      entrySeq := e.entrySeq, createdAt := now }
  let journal' ← unique "journal_entries_pkey" (journal.insert? e.id row)
  failIf (journal.values.any fun r =>
      r.transactionID = e.transactionID && r.entrySeq = e.entrySeq)
    (.unique "journal_entries_transaction_id_entry_seq_key")
  pure journal'

/-- The foreign keys of an entry, checked at the end of the statement. -/
def entryForeignKeys (db : DB) (e : JournalEntry) : Except PgError Unit :=
  if (db.accounts.find? e.accountID).map (fun r => r.currency) ≠ some e.amount.currency then
    .error (.foreignKey "journal_entries" "journal_entries_account_currency_fkey")
  else if db.transactions.find? e.transactionID = none then
    .error (.foreignKey "journal_entries" "journal_entries_transaction_id_fkey")
  else .ok ()

/-- Inserts the entries in one statement and queues the deferred trigger for each row. -/
def insertEntries (now : Time) (entries : List JournalEntry) (s : TxState) :
    Except Error (List JournalEntry × TxState) :=
  match entries with
  | [] => .ok ([], s)
  | first :: _ =>
    mapped ("insert journal entries for transaction " ++ first.transactionID.string) do
      let journal ← entries.foldlM (insertEntryRow now) s.db.journal
      entries.forM (entryForeignKeys s.db)
      pure (entries.map fun e => { e with createdAt := now },
        { db := { s.db with journal }
          deferred := s.deferred ++ entries.map fun e => e.transactionID })

/-- `UPDATE account_balances … WHERE account_id = $1 AND version = $4`. -/
def applyBalanceDelta (now : Time) (d : BalanceDelta) (db : DB) : Except Error (Balance × DB) :=
  match (db.accounts.find? d.accountID).filter fun r => r.balance.version = d.expectedVersion with
  | none => .error (.errorf ("account " ++ d.accountID.string ++
      s!" at version {d.expectedVersion}") .balanceVersionConflict)
  | some r => do
    let row ← mapped (s!"apply balance delta {d.deltaMinor} to account " ++ d.accountID.string)
      (balanceAfter now d r.balance)
    let available ← balanceMoney "balance for account " row.availableMinor r.currency
    let pending ← balanceMoney "pending balance for account " row.pendingMinor r.currency
    pure ({ accountID := d.accountID, available, pending, version := row.version,
            updatedAt := row.updatedAt },
      { db with accounts := db.accounts.modify d.accountID fun r => { r with balance := row } })
where
  balanceAfter (now : Time) (d : BalanceDelta) (b : BalanceRow) : Except PgError BalanceRow :=
    match bigintAdd b.availableMinor d.deltaMinor, bigintAdd b.version 1 with
    | some availableMinor, some version =>
      BalanceColumns.check
        { b.toBalanceColumns with
          availableMinor, version, lastEntryID := some d.lastEntryID, updatedAt := now }
    | _, _ => .error .bigintOutOfRange
  balanceMoney (context : String) (amount : Int64) (currency : String) : Except Error Money :=
    (newMoney amount currency).mapError (Error.wrap (context ++ d.accountID.string))

/-- `UPDATE account_balances SET pending_minor = pending_minor + $2 WHERE account_id = $1`. -/
def applyPendingDelta (now : Time) (d : PendingDelta) (db : DB) : Except Error DB :=
  match db.accounts.find? d.accountID with
  | none => .error (.errorf ("apply pending delta to account " ++ d.accountID.string)
      .accountNotFound)
  | some r => do
    let row ← mapped (s!"apply pending delta {d.deltaMinor} to account " ++ d.accountID.string)
      (pendingAfter now d r.balance)
    pure { db with accounts := db.accounts.modify d.accountID fun r => { r with balance := row } }
where
  pendingAfter (now : Time) (d : PendingDelta) (b : BalanceRow) : Except PgError BalanceRow :=
    match bigintAdd b.pendingMinor d.deltaMinor with
    | some pendingMinor =>
      BalanceColumns.check { b.toBalanceColumns with pendingMinor, updatedAt := now }
    | none => .error .bigintOutOfRange

def entriesOf (txID : UUID) (db : DB) : List (UUID × JournalRow) :=
  db.journal.rows.filter fun r => r.2.transactionID = txID

def toEntry (id : UUID) (r : JournalRow) : JournalEntry where
  id
  transactionID := r.transactionID
  accountID := r.accountID
  direction := r.direction
  amount := ⟨r.amountMinor, r.currency⟩
  entrySeq := r.entrySeq
  createdAt := r.createdAt

/-- The header, locked, and its entries by `entry_seq`. The query does not select
`principal_id`. -/
def loadTransactionForUpdate (id : UUID) (db : DB) : Except Error Transaction :=
  match db.transactions.find? id with
  | none => .error (.errorf ("transaction " ++ id.string) .transactionNotFound)
  | some r => do
    let entries := ((entriesOf id db).map fun e => toEntry e.1 e.2).insertionSort
      fun a b => a.entrySeq ≤ b.entrySeq
    entries.forM fun e =>
      discard ((newMoney e.amount.amountMinor e.amount.currency).mapError
        (Error.wrap ("entry " ++ e.id.string)))
    pure { id, idempotencyKey := r.idempotencyKey, principalID := "", type := r.type,
           status := r.status, externalRef := r.externalRef, metadata := r.metadata,
           createdAt := r.createdAt, postedAt := r.postedAt, entries }

/-- The status column of a posted row, set to `REVERSED`. -/
def reversedRow (r : TransactionRow) : TransactionRow :=
  if h : r.status = .posted then
    { r with
      status := .reversed
      posted_at_check := by simpa [h] using r.posted_at_check }
  else r

/-- `UPDATE transactions SET status = 'REVERSED' WHERE id = $1 AND status = 'POSTED'`. -/
def markReversed (id : UUID) (db : DB) : Except Error DB :=
  if (db.transactions.find? id).map (fun r => r.status) = some .posted then
    .ok { db with transactions := db.transactions.modify id reversedRow }
  else .error (.errorf ("mark transaction " ++ id.string ++ " reversed") .transactionNotPosted)

inductive TxCall where
  | resolveShards (ids : List UUID)
  | lockAccounts (ids : List UUID)
  | insertAccount (a : Account)
  | insertTransaction (t : Transaction)
  | insertEntries (entries : List JournalEntry)
  | applyBalanceDelta (d : BalanceDelta)
  | applyPendingDelta (d : PendingDelta)
  | loadTransactionForUpdate (id : UUID)
  | markReversed (id : UUID)
  | appendEvent (eventID : UUID) (e : Event)
  | commitSagaStep (c : Saga.StepCommit)
  | completeIdempotency (c : Idempotency.Completion)

@[reducible] def TxReply : TxCall → Type
  | .resolveShards _ => List (UUID × List UUID)
  | .lockAccounts _ => List LockedAccount
  | .insertAccount _ => Time
  | .insertTransaction _ => Time × Option Time
  | .insertEntries _ => List JournalEntry
  | .applyBalanceDelta _ => Balance
  | .applyPendingDelta _ => Unit
  | .loadTransactionForUpdate _ => Transaction
  | .markReversed _ => Unit
  | .appendEvent _ _ => Unit
  | .commitSagaStep _ => Unit
  | .completeIdempotency _ => Unit

abbrev TxM := Prog TxReply Error

def TxState.written (s : TxState) (x : Except Error DB) : Except Error (Unit × TxState) :=
  x.map fun db => ((), { s with db })

def exec (now : Time) : Handler TxReply Error TxState
  | .resolveShards ids, s => .ok (resolveShards ids s.db, s)
  | .lockAccounts ids, s => .ok (lockAccounts ids s.db, s)
  | .insertAccount a, s => (insertAccount now a s.db).map fun db => (now, { s with db })
  | .insertTransaction t, s =>
    (insertTransaction now t s.db).map fun (r, db) => (r, { s with db })
  | .insertEntries entries, s => insertEntries now entries s
  | .applyBalanceDelta d, s =>
    (applyBalanceDelta now d s.db).map fun (b, db) => (b, { s with db })
  | .applyPendingDelta d, s => s.written (applyPendingDelta now d s.db)
  | .loadTransactionForUpdate id, s => (loadTransactionForUpdate id s.db).map fun t => (t, s)
  | .markReversed id, s => s.written (markReversed id s.db)
  | .appendEvent eventID e, s => s.written (Outbox.append eventID e s.db)
  | .commitSagaStep c, s => s.written (Saga.commitStep now c s.db)
  | .completeIdempotency c, s => s.written (Idempotency.complete c s.db)

/-- Debits less credits of a transaction's entries in one currency. -/
def imbalance (txID : UUID) (currency : String) (db : DB) : ℤ :=
  (((entriesOf txID db).filter fun e => e.2.currency = currency).map fun e =>
    if e.2.direction = .debit then e.2.amountMinor.toInt else -e.2.amountMinor.toInt).sum

/-- `ledger_assert_transaction_balanced`, for one inserted entry. -/
def assertTransactionBalanced (db : DB) (txID : UUID) : Except PgError Unit :=
  match ((entriesOf txID db).map fun e => e.2.currency).find? fun c => imbalance txID c db ≠ 0 with
  | none => .ok ()
  | some c => .error ⟨.checkViolation, "", "transaction " ++ txID.string ++ " does not balance in " ++
      c ++ ": signed sum is " ++ toString (imbalance txID c db) ++ " minor units, expected 0"⟩

/-- The deferred triggers fire, then the transaction's writes become the database. -/
def commit (s : TxState) : Except Error DB :=
  (s.deferred.forM (assertTransactionBalanced s.db)).mapError
    (fun e => (mapError e).wrap "commit ledger transaction") |>.map fun _ => s.db

/-- One database transaction: every write of `p` is committed, or none is. -/
def inTx {α : Type} (now : Time) (p : TxM α) (db : DB) : Except Error (α × DB) := do
  let (a, s) ← p.run (exec now) ⟨db, []⟩
  let db' ← commit s
  pure (a, db')

end LedgerCore.Ledger
