import LedgerCore.Ledger.Statements

/-! The effect of a ledger transaction on the accounts, and the calls that leave the journal
alone. -/
namespace LedgerCore.Ledger
open LedgerCore.Program
variable {entries : List JournalEntry} {s s' : TxState}

def onAccount (id : UUID) (entries : List JournalEntry) : List JournalEntry :=
  entries.filter fun e => e.accountID = id

def signedTotal (normalBalance : Direction) (entries : List JournalEntry) : ℤ :=
  (entries.map fun e => signed e.direction normalBalance e.amount.amountMinor.toInt).sum

/-- An account's row before and after entries that fall on it, and a change of its pending
amount. -/
structure RowMoved (entries : List JournalEntry) (pending : ℤ) (r r' : AccountRow) : Prop where
  columns : r'.toAccountColumns = r.toAccountColumns
  available : r'.balance.availableMinor.toInt =
    r.balance.availableMinor.toInt + signedTotal r.normalBalance entries
  version : r'.balance.version.toInt = r.balance.version.toInt + if entries = [] then 0 else 1
  lastEntry : r'.balance.lastEntryID =
    (entries.getLast?.map fun e => e.id).or r.balance.lastEntryID
  pending : r'.balance.pendingMinor.toInt = r.balance.pendingMinor.toInt + pending
  allowNegative : r'.balance.allowNegative = r.balance.allowNegative

/-- The accounts before and after a transaction with the given entries. -/
structure AccountsMoved (entries : List JournalEntry) (pending : UUID → ℤ)
    (t t' : Table UUID AccountRow) : Prop where
  keys : t'.keys = t.keys
  rows : ∀ id r, t.find? id = some r →
    ∃ r', t'.find? id = some r' ∧ RowMoved (onAccount id entries) (pending id) r r'

theorem RowMoved.refl (r : AccountRow) : RowMoved [] 0 r r := by
  constructor <;> simp [signedTotal]

theorem RowMoved.trans_nil {p q : ℤ} {r r' r'' : AccountRow} (h : RowMoved entries p r r')
    (h' : RowMoved [] q r' r'') : RowMoved entries (p + q) r r'' where
  columns := h'.columns.trans h.columns
  available := by simp [h'.available, h.available, signedTotal]
  version := by simp [h'.version, h.version]
  lastEntry := by simp [h'.lastEntry, h.lastEntry]
  pending := by rw [h'.pending, h.pending, add_assoc]
  allowNegative := h'.allowNegative.trans h.allowNegative

theorem AccountsMoved.refl (t : Table UUID AccountRow) : AccountsMoved [] 0 t t :=
  ⟨rfl, fun _ r h => ⟨r, h, .refl r⟩⟩

theorem AccountsMoved.trans_nil {p q : UUID → ℤ} {t t' t'' : Table UUID AccountRow}
    (h : AccountsMoved entries p t t') (h' : AccountsMoved [] q t' t'') :
    AccountsMoved entries (p + q) t t'' := by
  refine ⟨h'.keys.trans h.keys, fun id r hr => ?_⟩
  obtain ⟨r', hr', hm⟩ := h.rows id r hr
  obtain ⟨r'', hr'', hm'⟩ := h'.rows id r' hr'
  exact ⟨r'', hr'', hm.trans_nil hm'⟩

theorem AccountsMoved.rows_of_after {p : UUID → ℤ} {t t' : Table UUID AccountRow}
    (h : AccountsMoved entries p t t') {id : UUID} {r' : AccountRow} (hr' : t'.find? id = some r') :
    ∃ r, t.find? id = some r ∧ RowMoved (onAccount id entries) (p id) r r' := by
  obtain ⟨r, hr⟩ := Table.mem_keys.1 (h.keys ▸ Table.mem_keys.2 ⟨r', hr'⟩)
  obtain ⟨r'', hr'', hm⟩ := h.rows id r hr
  obtain rfl : r'' = r' := Option.some.inj (hr''.symm.trans hr')
  exact ⟨r, hr, hm⟩

theorem applyPendingDelta_moved {now : Time} {d : PendingDelta} {db db' : DB}
    (h : applyPendingDelta now d db = .ok db') :
    AccountsMoved [] (Pi.single d.accountID d.deltaMinor.toInt) db.accounts db'.accounts ∧
      ∃ accounts, db' = { db with accounts } := by
  obtain ⟨r, row, hr, hm, rfl⟩ := applyPendingDelta_eq_ok h
  refine ⟨⟨Table.keys_modify _, fun id r₁ hr₁ => ?_⟩, _, rfl⟩
  by_cases hid : id = d.accountID
  · subst hid
    obtain rfl : r = r₁ := Option.some.inj (hr.symm.trans hr₁)
    refine ⟨{ r with balance := row }, by simp [hr], rfl, ?_, ?_, ?_, ?_, hm.allowNegative⟩
    · simp [onAccount, signedTotal, hm.available]
    · simp [onAccount, hm.version]
    · simp [onAccount, hm.lastEntry]
    · simp [hm.pending]
  · refine ⟨r₁, by rw [Table.find?_modify_of_ne _ hid, hr₁], ?_⟩
    simpa [onAccount, Pi.single_eq_of_ne hid] using RowMoved.refl r₁

/-- The calls a recorder makes: they write no header and no entry. -/
def SideCall : TxCall → Prop
  | .applyPendingDelta _ => True
  | .appendEvent _ _ => True
  | .commitSagaStep _ => True
  | .completeIdempotency _ => True
  | _ => False

structure LedgerKept (s s' : TxState) : Prop where
  deferred : s'.deferred = s.deferred
  transactions : s'.db.transactions = s.db.transactions
  journal : s'.db.journal = s.db.journal
  accounts : ∃ p, AccountsMoved [] p s.db.accounts s'.db.accounts

theorem LedgerKept.of_db (hd : s'.deferred = s.deferred)
    (ht : s'.db.transactions = s.db.transactions) (hj : s'.db.journal = s.db.journal)
    (ha : s'.db.accounts = s.db.accounts) : LedgerKept s s' :=
  ⟨hd, ht, hj, 0, ha ▸ .refl _⟩

theorem LedgerKept.refl (s : TxState) : LedgerKept s s := .of_db rfl rfl rfl rfl

theorem LedgerKept.trans {s'' : TxState} (h : LedgerKept s s') (h' : LedgerKept s' s'') :
    LedgerKept s s'' := by
  obtain ⟨p, hp⟩ := h.accounts
  obtain ⟨q, hq⟩ := h'.accounts
  exact ⟨h'.deferred.trans h.deferred, h'.transactions.trans h.transactions,
    h'.journal.trans h.journal, p + q, hp.trans_nil hq⟩

theorem exec_sideCall {now : Time} {c : TxCall} {r : TxReply c} (hc : SideCall c)
    (h : exec now c s = .ok (r, s')) : LedgerKept s s' := by
  cases c with
  | applyPendingDelta d =>
    obtain ⟨db, hdb, h⟩ := map_eq_ok.1 h
    cases h
    obtain ⟨hm, accounts, rfl⟩ := applyPendingDelta_moved hdb
    exact ⟨rfl, rfl, rfl, _, hm⟩
  | appendEvent id e =>
    obtain ⟨db, hdb, h⟩ := map_eq_ok.1 h
    cases h
    obtain ⟨outbox, -, rfl⟩ := Outbox.append_eq_ok hdb
    exact .of_db rfl rfl rfl rfl
  | commitSagaStep c =>
    obtain ⟨db, hdb, h⟩ := map_eq_ok.1 h
    cases h
    obtain ⟨_, _, rfl⟩ := Saga.commitStep_tables hdb
    exact .of_db rfl rfl rfl rfl
  | completeIdempotency c =>
    obtain ⟨db, hdb, h⟩ := map_eq_ok.1 h
    cases h
    obtain ⟨_, rfl⟩ := Idempotency.complete_tables hdb
    exact .of_db rfl rfl rfl rfl
  | _ => exact hc.elim

theorem run_sideCalls {α : Type} {now : Time} {p : TxM α} {a : α} (hp : p.OnlyCalls SideCall)
    (h : p.run (exec now) s = .ok (a, s')) : LedgerKept s s' :=
  Prog.run_of_onlyCalls LedgerKept.refl LedgerKept.trans exec_sideCall hp h

end LedgerCore.Ledger
