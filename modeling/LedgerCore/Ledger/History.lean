import Mathlib.Data.List.MinMax
import LedgerCore.Ledger.Commits

/-! Runs of ledger operations, and what one of them can do to the database. -/
namespace LedgerCore.Ledger
open LedgerCore.Program
variable {db db' : DB} {d : Draws} {txID : UUID} {requests : List EntryRequest}
  {record : Option Recorder} {req : TransactionRequest} {t : Transaction}

/-- A recorder that makes only side calls, as every recorder of the service does. -/
def Recording (record : Option Recorder) : Prop :=
  ∀ r ∈ record, ∀ t, (r t).OnlyCalls SideCall

theorem recording_none : Recording none := by
  intro _ h
  cases h

/-- A call of the ledger, with everything it draws from outside. -/
inductive LedgerOp where
  | createAccount (d : Draws) (id : UUID) (req : CreateAccountRequest)
  | shardAccount (now : Time) (shardID : ℕ → UUID) (accountID : UUID) (shards : ℕ)
  | postTransaction (d : Draws) (txID : UUID) (req : TransactionRequest)
      (hooks : Recording req.record)
  | reverseTransaction (d : Draws) (reversalID txID : UUID) (reason : String)
      (idem : Option Idempotent) (record : Option Recorder) (hooks : Recording record)

namespace LedgerOp

def run : LedgerOp → DB → Except Error DB
  | .createAccount d id req, db => (Ledger.createAccount d id req db).map Prod.snd
  | .shardAccount now shardID accountID shards, db =>
    (ledgerShardAccount now shardID accountID shards db).mapError PgError.toError
  | .postTransaction d txID req _, db => (Ledger.postTransaction d txID req db).map Prod.snd
  | .reverseTransaction d reversalID txID reason idem record _, db =>
    (doReverse d reversalID txID reason idem record db).map Prod.snd

/-- A call that fails is rolled back. -/
def apply (db : DB) (op : LedgerOp) : DB :=
  match op.run db with
  | .ok db' => db'
  | .error _ => db

end LedgerOp

def runOps (ops : List LedgerOp) (db : DB) : DB := ops.foldl LedgerOp.apply db

/-- An account's row across an operation that posts nothing. -/
structure RowKept (r r' : AccountRow) : Prop where
  parentAccountID : r'.parentAccountID = r.parentAccountID
  normalBalance : r'.normalBalance = r.normalBalance
  currency : r'.currency = r.currency
  balance : r'.balance = r.balance

structure Opened (db db' : DB) : Prop where
  transactions : db'.transactions = db.transactions
  journal : db'.journal = db.journal
  idempotencyKeys : db'.idempotencyKeys = db.idempotencyKeys
  sagaInstances : db'.sagaInstances = db.sagaInstances
  sagaSteps : db'.sagaSteps = db.sagaSteps
  kept : ∀ id r, db.accounts.find? id = some r → ∃ r', db'.accounts.find? id = some r' ∧ RowKept r r'
  new : ∀ id r', db'.accounts.find? id = some r' → db.accounts.find? id = none →
    ∃ allowNegative now, r'.balance = .created allowNegative now

def Transaction.columns (t : Transaction) : TransactionColumns :=
  ⟨t.idempotencyKey, t.principalID, t.type, t.status, t.externalRef, t.metadata, t.createdAt,
    t.postedAt⟩

/-- A header's row holds these columns, but for its status, which a reversal changes. -/
def HeaderOf (c : TransactionColumns) (r : TransactionRow) : Prop :=
  r.toTransactionColumns = { c with status := r.status }

/-- An operation that commits a transaction. -/
structure Committed (db db' : DB) (t : Transaction) : Prop where
  fresh : db.transactions.find? t.id = none
  keyFree : keyTaken t.principalID t.idempotencyKey db = false
  header : ∃ r, db'.transactions.find? t.id = some r ∧ HeaderOf t.columns r
  headers : ∀ id r, db.transactions.find? id = some r →
    ∃ r', db'.transactions.find? id = some r' ∧ HeaderOf r.toTransactionColumns r'
  keys : db'.transactions.keys = db.transactions.keys ++ [t.id]
  journal : journalEntries db' = journalEntries db ++ t.entries
  own : ∀ e ∈ t.entries, e.transactionID = t.id
  seq : t.entries.Pairwise fun a b => a.entrySeq < b.entrySeq
  accounts : ∃ pending, AccountsMoved t.entries pending db.accounts db'.accounts
  known : ∀ e ∈ t.entries, ∃ r, db.accounts.find? e.accountID = some r ∧
    r.currency = e.amount.currency

/-- Where a transaction comes from: a request that validated, its entries routed to shards, or a
posted transaction that is mirrored. -/
inductive Origin (db : DB) : Transaction → Prop where
  | posting {d : Draws} {txID : UUID} {req : TransactionRequest} {requests : List EntryRequest}
      (valid : req.validate = .ok ()) (routes : List.Forall₂ (Routes db) req.entries requests) :
      Origin db (postedTransaction d (postHeader txID req.withKey) requests)
  | reversal {d : Draws} {reversalID txID : UUID} {reason : String} {idem : Option Idempotent}
      {original : Transaction} (load : loadTransactionForUpdate txID db = .ok original)
      (posted : original.status = .posted) :
      Origin db (postedTransaction d (reversalHeader reversalID txID reason idem)
        (mirrored original.entries))

theorem RowKept.refl (r : AccountRow) : RowKept r r := ⟨rfl, rfl, rfl, rfl⟩

theorem RowKept.trans {r r' r'' : AccountRow} (h : RowKept r r') (h' : RowKept r' r'') :
    RowKept r r'' :=
  ⟨h'.parentAccountID.trans h.parentAccountID, h'.normalBalance.trans h.normalBalance,
    h'.currency.trans h.currency, h'.balance.trans h.balance⟩

theorem Opened.refl (db : DB) : Opened db db :=
  ⟨rfl, rfl, rfl, rfl, rfl, fun _ r h => ⟨r, h, .refl r⟩, fun _ _ h h' => nomatch h'.symm.trans h⟩

theorem Opened.trans {db'' : DB} (h : Opened db db') (h' : Opened db' db'') : Opened db db'' := by
  refine ⟨h'.transactions.trans h.transactions, h'.journal.trans h.journal,
    h'.idempotencyKeys.trans h.idempotencyKeys, h'.sagaInstances.trans h.sagaInstances,
    h'.sagaSteps.trans h.sagaSteps, ?_, ?_⟩
  · intro id r hr
    obtain ⟨r', hr', hk⟩ := h.kept id r hr
    obtain ⟨r'', hr'', hk'⟩ := h'.kept id r' hr'
    exact ⟨r'', hr'', hk.trans hk'⟩
  · intro id r'' hr'' hnone
    cases hr' : db'.accounts.find? id with
    | none => exact h'.new id r'' hr'' hr'
    | some r' =>
      obtain ⟨r₁, hr₁, hk⟩ := h'.kept id r' hr'
      obtain rfl : r₁ = r'' := Option.some.inj (hr₁.symm.trans hr'')
      obtain ⟨a, now, hb⟩ := h.new id r' hr' hnone
      exact ⟨a, now, hk.balance.trans hb⟩

theorem insertAccountRow_opened {id : UUID} {a : AccountColumns} {now : Time}
    (h : insertAccountRow id a now db = .ok db') : Opened db db' := by
  obtain ⟨row, accounts, -, hb, hi, rfl⟩ := insertAccountRow_eq_ok h
  refine ⟨rfl, rfl, rfl, rfl, rfl, ?_, ?_⟩
  · intro id' r hr
    have hne : id' ≠ id := by
      rintro rfl
      exact nomatch (Table.insert?_eq_some.1 hi).1.symm.trans hr
    exact ⟨r, by simp [Table.find?_insert hi, hne, hr], .refl r⟩
  · intro id' r' hr' hnone
    rw [Table.find?_insert hi] at hr'
    split_ifs at hr'
    · exact ⟨_, _, Option.some.inj hr' ▸ hb⟩
    · exact nomatch hnone.symm.trans hr'

theorem shardedRow_kept (shards : ℕ) (r : AccountRow) : RowKept r (shardedRow shards r) := by
  unfold shardedRow
  split_ifs
  · exact ⟨rfl, rfl, rfl, rfl⟩
  · exact .refl r

theorem shardedRow_opened (db : DB) (id : UUID) (shards : ℕ) :
    Opened db { db with accounts := db.accounts.modify id (shardedRow shards) } := by
  refine ⟨rfl, rfl, rfl, rfl, rfl, ?_, ?_⟩
  · intro id' r hr
    by_cases h : id' = id
    · subst h
      exact ⟨_, by simp [hr], shardedRow_kept shards r⟩
    · exact ⟨r, by simp [Table.find?_modify_of_ne _ h, hr], .refl r⟩
  · intro id' r' hr' hnone
    rw [Table.find?_modify, hnone] at hr'
    split_ifs at hr'
    all_goals cases hr'

theorem ledgerShardAccount_opened {now : Time} {shardID : ℕ → UUID} {accountID : UUID} {shards : ℕ}
    (h : ledgerShardAccount now shardID accountID shards db = .ok db') : Opened db db' := by
  unfold ledgerShardAccount at h
  split_ifs at h
  split at h
  · cases h
  · next r hr =>
    split_ifs at h
    · cases h
      exact .refl db
    · exact foldlM_eq_ok (fun _ db' => Opened db db') h (shardedRow_opened db accountID shards)
        fun _ _ _ _ _ _ ho hstep => ho.trans (insertAccountRow_opened hstep)

theorem createAccount_eq_ok {id : UUID} {req : CreateAccountRequest} {a : Account}
    (h : createAccount d id req db = .ok (a, db')) :
    ∃ columns db₁ e, insertAccountRow id columns d.now db = .ok db₁ ∧
      columns.parentAccountID = none ∧ e.eventType = "AccountCreated" ∧
      Outbox.append (d.eventID 0) e db₁ = .ok db' := by
  obtain ⟨_, -, h⟩ := bind_eq_ok.1 h
  obtain ⟨s, hrun, -, rfl⟩ := inTx_eq_ok h
  obtain ⟨createdAt, s₁, hcall, hrun⟩ := Prog.run_perform_bind_ok.1 hrun
  obtain ⟨db₁, hins, he⟩ := map_eq_ok.1 hcall
  cases he
  obtain ⟨_, s₂, hcall, hrun⟩ := Prog.run_perform_bind_ok.1 hrun
  obtain ⟨db₂, happend, he⟩ := map_eq_ok.1 hcall
  cases he
  cases hrun
  exact ⟨_, db₁, _, mapError_eq_ok.1 hins, rfl, rfl, happend⟩

theorem createAccount_opened {id : UUID} {req : CreateAccountRequest} {a : Account}
    (h : createAccount d id req db = .ok (a, db')) : Opened db db' := by
  obtain ⟨_, db₁, _, hins, -, -, happend⟩ := createAccount_eq_ok h
  obtain ⟨outbox, -, rfl⟩ := Outbox.append_eq_ok happend
  have ho := insertAccountRow_opened hins
  exact ⟨ho.transactions, ho.journal, ho.idempotencyKeys, ho.sagaInstances, ho.sagaSteps, ho.kept,
    ho.new⟩

theorem postedEntries_own : ∀ e ∈ postedEntries d txID requests, e.transactionID = txID := by
  intro e he
  obtain ⟨i, r, -, -, rfl⟩ := mem_postedEntries he
  rfl

theorem postedEntries_seq :
    (postedEntries d txID requests).Pairwise fun a b => a.entrySeq < b.entrySeq := by
  have hseq : (postedEntries d txID requests).map (fun e => e.entrySeq) =
      List.range requests.length := by
    simp [postedEntries, buildEntries, Function.comp_def, List.zipIdx_map_snd, List.range_eq_range']
  exact List.pairwise_map.1 (hseq ▸ List.pairwise_lt_range)

theorem Written.committed {header : Transaction} {s₁ s₂ s₃ : TxState}
    (h : Written d header requests ⟨db, []⟩ s₁) (hside : LedgerKept s₂ s₃)
    (hkeys : s₂.db.transactions.keys = s₁.db.transactions.keys)
    (hheaders : ∀ id r, s₁.db.transactions.find? id = some r →
      ∃ r', s₂.db.transactions.find? id = some r' ∧ HeaderOf r.toTransactionColumns r')
    (hjournal : s₂.db.journal = s₁.db.journal) (haccounts : s₂.db.accounts = s₁.db.accounts) :
    Committed db s₃.db (postedTransaction d header requests) := by
  obtain ⟨row, hrow, hi⟩ := h.row
  obtain ⟨hfresh, hrows⟩ := Table.insert?_eq_some.1 hi
  obtain ⟨p, hp⟩ := hside.accounts
  refine ⟨hfresh, h.keyFree, ?_, ?_, ?_, ?_, postedEntries_own, postedEntries_seq,
    ⟨_, h.accounts.trans_nil (haccounts ▸ hp)⟩, h.known⟩
  · obtain ⟨r', hr', hkept⟩ := hheaders header.id row (by simp [Table.find?_insert hi])
    refine ⟨r', by rw [hside.transactions]; exact hr', ?_⟩
    rw [HeaderOf, hkept, hrow]
    rfl
  · intro id r hr
    have hne : id ≠ header.id := by
      rintro rfl
      cases hfresh.symm.trans hr
    obtain ⟨r', hr', hkept⟩ := hheaders id r (by simp [Table.find?_insert hi, hne, hr])
    exact ⟨r', by rw [hside.transactions]; exact hr', hkept⟩
  · rw [hside.transactions, hkeys, Table.keys, hrows, List.map_append]
    rfl
  · rw [journalEntries, hside.journal, hjournal]
    exact h.journal

theorem HeaderOf.refl (r : TransactionRow) : HeaderOf r.toTransactionColumns r := rfl

theorem headerOf_reversed {transactions : Table UUID TransactionRow} (txID : UUID) (id : UUID)
    (r : TransactionRow) (h : transactions.find? id = some r) :
    ∃ r', (transactions.modify txID reversedRow).find? id = some r' ∧
      HeaderOf r.toTransactionColumns r' := by
  by_cases hid : id = txID
  · subst hid
    refine ⟨reversedRow r, by simp [h], ?_⟩
    unfold HeaderOf reversedRow
    split_ifs <;> rfl
  · exact ⟨r, by simp [Table.find?_modify_of_ne _ hid, h], .refl r⟩

theorem Recording.sideCalls (h : Recording record) (t : Transaction) :
    (runRecord record t).OnlyCalls SideCall := onlyCalls_runRecord h t

theorem record_withKey : req.withKey.record = req.record := by
  unfold TransactionRequest.withKey
  split <;> rfl

theorem idempotency_withKey : req.withKey.idempotency = req.idempotency := by
  unfold TransactionRequest.withKey
  split <;> rfl

theorem entries_withKey : req.withKey.entries = req.entries := by
  unfold TransactionRequest.withKey
  split <;> rfl

/-- What a posting has done before its commit. The balance trigger waits for its own entries. -/
theorem postTx_committed (hooks : Recording req.record) {s : TxState}
    (h : (postTx d txID req).run (exec d.now) ⟨db, []⟩ = .ok (t, s)) :
    Committed db s.db t ∧ t = postedTransaction d (postHeader txID req) (routed d req.entries db) ∧
      ∀ id ∈ s.deferred, id = t.id := by
  obtain ⟨requests, s₁, outbox, s₂, rfl, rfl, hwritten, hrecord, hcomplete⟩ := postTx_eq_ok h
  have hside := (run_sideCalls (hooks.sideCalls _) hrecord).trans
    (run_sideCalls (completeIdempotency_sideCalls _ _) hcomplete)
  refine ⟨hwritten.committed hside rfl (fun _ r hr => ⟨r, hr, .refl r⟩) rfl rfl, rfl, fun id hid => ?_⟩
  rw [hside.deferred] at hid
  exact hwritten.eq_of_mem_deferred hid

theorem reverseTx_committed {reversalID : UUID} {reason : String} {idem : Option Idempotent}
    (hooks : Recording record) {s : TxState}
    (h : (reverseTx d reversalID txID reason idem record).run (exec d.now) ⟨db, []⟩ = .ok (t, s)) :
    Committed db s.db t ∧ (∃ original, loadTransactionForUpdate txID db = .ok original ∧
      original.status = .posted ∧ t = postedTransaction d (reversalHeader reversalID txID reason idem)
        (mirrored original.entries)) ∧
      ∀ id ∈ s.deferred, id = t.id := by
  obtain ⟨original, s₁, outbox, s₂, r, hload, hposted, -, rfl, hwritten, -, -, hrecord, hcomplete⟩ :=
    reverseTx_eq_ok h
  have hside := (run_sideCalls (hooks.sideCalls _) hrecord).trans
    (run_sideCalls (completeIdempotency_sideCalls _ _) hcomplete)
  refine ⟨hwritten.committed hside (Table.keys_modify _) (headerOf_reversed txID) rfl rfl,
    ⟨original, hload, hposted, rfl⟩, fun id hid => ?_⟩
  rw [hside.deferred] at hid
  exact hwritten.eq_of_mem_deferred hid

theorem postTransaction_committed (hooks : Recording req.record)
    (h : postTransaction d txID req db = .ok (t, db')) : Committed db db' t ∧ Origin db t := by
  obtain ⟨_, hvalid, h⟩ := bind_eq_ok.1 h
  obtain ⟨s, hrun, -, rfl⟩ := inTx_eq_ok h
  have hooks' : Recording req.withKey.record := by rwa [record_withKey]
  obtain ⟨hcommitted, rfl, -⟩ := postTx_committed hooks' hrun
  exact ⟨hcommitted, .posting hvalid (entries_withKey ▸ routed_routes d req.withKey.entries db)⟩

theorem postTransaction_entries (h : postTransaction d txID req db = .ok (t, db')) :
    t.entries = postedEntries d txID (routed d req.entries db) := by
  obtain ⟨_, -, h⟩ := bind_eq_ok.1 h
  obtain ⟨s, hrun, -, rfl⟩ := inTx_eq_ok h
  obtain ⟨_, s₁, outbox, s₂, rfl, rfl, -⟩ := postTx_eq_ok hrun
  rw [entries_withKey]
  rfl

theorem doReverse_committed {reversalID : UUID} {reason : String} {idem : Option Idempotent}
    (hooks : Recording record)
    (h : doReverse d reversalID txID reason idem record db = .ok (t, db')) :
    Committed db db' t ∧ Origin db t := by
  unfold doReverse at h
  split_ifs at h
  obtain ⟨s, hrun, -, rfl⟩ := inTx_eq_ok h
  obtain ⟨hcommitted, ⟨original, hload, hposted, rfl⟩, -⟩ := reverseTx_committed hooks hrun
  exact ⟨hcommitted, .reversal hload hposted⟩

/-- What an operation that succeeds has done. -/
inductive LedgerOp.Ran (db db' : DB) : LedgerOp → Prop where
  | opened {op : LedgerOp} (h : Opened db db') : Ran db db' op
  | posted {d : Draws} {txID : UUID} {req : TransactionRequest} {t : Transaction}
      (hooks : Recording req.record) (h : Ledger.postTransaction d txID req db = .ok (t, db')) :
      Ran db db' (.postTransaction d txID req hooks)
  | reversed {d : Draws} {reversalID txID : UUID} {reason : String} {idem : Option Idempotent}
      {record : Option Recorder} {t : Transaction} (hooks : Recording record)
      (h : doReverse d reversalID txID reason idem record db = .ok (t, db')) :
      Ran db db' (.reverseTransaction d reversalID txID reason idem record hooks)

theorem LedgerOp.ran {op : LedgerOp} (h : op.run db = .ok db') : op.Ran db db' := by
  cases op with
  | createAccount d id req =>
    obtain ⟨⟨a, db₁⟩, hrun, rfl⟩ := map_eq_ok.1 h
    exact .opened (createAccount_opened hrun)
  | shardAccount now shardID accountID shards =>
    exact .opened (ledgerShardAccount_opened (mapError_eq_ok.1 h))
  | postTransaction d txID req hooks =>
    obtain ⟨⟨t, db₁⟩, hrun, rfl⟩ := map_eq_ok.1 h
    exact .posted hooks hrun
  | reverseTransaction d reversalID txID reason idem record hooks =>
    obtain ⟨⟨t, db₁⟩, hrun, rfl⟩ := map_eq_ok.1 h
    exact .reversed hooks hrun

/-- Every operation that succeeds opens accounts or commits one transaction. -/
theorem LedgerOp.run_cases {op : LedgerOp} (h : op.run db = .ok db') :
    Opened db db' ∨ ∃ t, Committed db db' t ∧ Origin db t := by
  cases ran h with
  | opened ho => exact .inl ho
  | posted hooks hrun => exact .inr ⟨_, postTransaction_committed hooks hrun⟩
  | reversed hooks hrun => exact .inr ⟨_, doReverse_committed hooks hrun⟩

end LedgerCore.Ledger
