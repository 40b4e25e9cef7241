import LedgerCore.Program.Serial
import LedgerCore.Table.Changes
import LedgerCore.Ledger.History

/-! Ledger transactions side by side: PostgreSQL at READ COMMITTED, as far as their statements
can tell. A statement sees the latest committed rows and its own transaction's; a row that it
writes, or selects for update, is locked until the transaction ends, and so is a value that it
enters in a unique index. -/
namespace LedgerCore.Ledger
open LedgerCore.Program

inductive Lock where
  /-- Both rows of an account. -/
  | account (id : UUID)
  /-- The header of a transaction, which an insert of entries for it locks as well. -/
  | transaction (id : UUID)
  | transactionKey (principalID key : String)
  | entry (id : UUID)
  | event (id : UUID)
  | idempotencyKey (principalID key : String)
  | saga (id : UUID)
  | step (id : UUID)
  | attempt (sagaID : UUID) (step : Saga.Step) (direction : Saga.Direction) (number : ℕ)
  deriving DecidableEq

/-- The locks that a statement takes. Only a foreign key's check of a row that is there, and the
lookup of shards, read rows without locking them. -/
def locks : TxCall → List Lock
  | .resolveShards _ => []
  | .lockAccounts ids => ids.map .account
  | .insertAccount a => [.account a.id]
  | .insertTransaction t =>
    .transaction t.id :: (t.idempotencyKey.map (.transactionKey t.principalID)).toList
  | .insertEntries entries =>
    entries.map (fun e => .entry e.id) ++ entries.map fun e => .transaction e.transactionID
  | .applyBalanceDelta d => [.account d.accountID]
  | .applyPendingDelta d => [.account d.accountID]
  | .loadTransactionForUpdate id => [.transaction id]
  | .markReversed id => [.transaction id]
  | .appendEvent eventID _ => [.event eventID]
  | .commitSagaStep c =>
    [.step c.attempt.id,
      .attempt c.attempt.sagaID c.attempt.step c.attempt.direction c.attempt.number,
      .saga c.transition.sagaID]
  | .completeIdempotency c => [.idempotencyKey c.principalID c.key]

structure Patch where
  accounts : List (UUID × AccountRow)
  transactions : List (UUID × TransactionRow)
  journal : List (UUID × JournalRow)
  outbox : List (UUID × Event)
  idempotencyKeys : List ((String × String) × RecordRow)
  sagaInstances : List (UUID × SagaRow)
  sagaSteps : List (UUID × StepRow)

def changes (db db' : DB) : Patch where
  accounts := db.accounts.changes db'.accounts
  transactions := db.transactions.changes db'.transactions
  journal := db.journal.changes db'.journal
  outbox := db.outbox.changes db'.outbox
  idempotencyKeys := db.idempotencyKeys.changes db'.idempotencyKeys
  sagaInstances := db.sagaInstances.changes db'.sagaInstances
  sagaSteps := db.sagaSteps.changes db'.sagaSteps

def Patch.apply (p : Patch) (db : DB) : DB where
  accounts := db.accounts.overlay p.accounts
  transactions := db.transactions.overlay p.transactions
  journal := db.journal.overlay p.journal
  outbox := db.outbox.overlay p.outbox
  idempotencyKeys := db.idempotencyKeys.overlay p.idempotencyKeys
  sagaInstances := db.sagaInstances.overlay p.sagaInstances
  sagaSteps := db.sagaSteps.overlay p.sagaSteps

/-- A call of `PostTransaction` or `ReverseTransaction`, with what it draws. -/
inductive Posting where
  | post (d : Draws) (txID : UUID) (req : TransactionRequest) (hooks : Recording req.record)
  | reverse (d : Draws) (reversalID txID : UUID) (reason : String) (idem : Option Idempotent)
      (record : Option Recorder) (hooks : Recording record)

namespace Posting

def draws : Posting → Draws
  | .post d _ _ _ => d
  | .reverse d _ _ _ _ _ _ => d

def record : Posting → Option Recorder
  | .post _ _ req _ => req.record
  | .reverse _ _ _ _ _ record _ => record

def run : Posting → DB → Except Error (Transaction × DB)
  | .post d txID req _, db => postTransaction d txID req db
  | .reverse d reversalID txID reason idem record _, db =>
    doReverse d reversalID txID reason idem record db

/-- The same as one program: what is refused before the database is asked opens no transaction. -/
def program : Posting → TxM Transaction
  | .post d txID req _ => do
    .ofExcept req.validate
    postTx d txID req.withKey
  | .reverse d reversalID txID reason idem record _ => do
    .ofExcept (failIf (reason = "") (.ofSentinel .reversalReasonRequired))
    reverseTx d reversalID txID reason idem record

end Posting

def engine : Engine TxReply Error Posting TxState DB Patch Lock Transaction where
  program := Posting.program
  exec op := exec op.draws.now
  start db := ⟨db, []⟩
  commit := commit
  stored s := s.db
  rebase s db := { s with db }
  locks := locks
  diff := changes
  patch := Patch.apply

theorem inTx_ofExcept {α β : Type} {now : Time} {x : Except Error β} {p : TxM α} {db : DB} :
    inTx now (do let _ ← .ofExcept x; p) db = (do let _ ← x; inTx now p db) := by
  cases x <;> rfl

/-- Alone, the program is the service's call. -/
theorem transact_eq_run (op : Posting) (db : DB) : engine.transact op db = op.run db := by
  cases op with
  | post d txID req hooks => exact inTx_ofExcept
  | reverse d reversalID txID reason idem record hooks =>
    refine inTx_ofExcept.trans ?_
    change _ = doReverse d reversalID txID reason idem record db
    unfold doReverse failIf
    split_ifs <;> rfl

end LedgerCore.Ledger
