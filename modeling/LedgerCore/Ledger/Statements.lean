import LedgerCore.Ledger.Accounts

/-! What each statement of a ledger transaction does when it succeeds. -/
namespace LedgerCore.Ledger
open LedgerCore.Program
variable {now : Time} {db db' : DB}

/-- The whole journal, as entries, oldest first. -/
def journalEntries (db : DB) : List JournalEntry := db.journal.rows.map fun r => toEntry r.1 r.2

theorem BalanceColumns.check_eq_ok {b : BalanceColumns} {row : BalanceRow} :
    b.check = .ok row ↔ row.toBalanceColumns = b := by
  unfold LedgerCore.BalanceColumns.check
  split_ifs with h₁ h₂ h₃
  · obtain ⟨c, _, _, _⟩ := row
    simp [eq_comm]
  all_goals
    simp only [false_iff]
    rintro rfl
    simp_all [row.no_overdraft_check, row.pending_check, row.version_check]

theorem insertAccountRow_eq_ok {id : UUID} {a : AccountColumns}
    (h : insertAccountRow id a now db = .ok db') :
    ∃ row accounts, row.toAccountColumns = a ∧ row.balance = .created a.allowNegative now ∧
      db.accounts.insert? id row = some accounts ∧ db' = { db with accounts } := by
  obtain ⟨row, hrow, h⟩ := bind_eq_ok.1 h
  obtain ⟨accounts, hi, h⟩ := bind_eq_ok.1 h
  obtain ⟨_, -, h⟩ := bind_eq_ok.1 h
  have hcols : row.toAccountColumns = a ∧ row.balance = .created a.allowNegative now := by
    unfold AccountColumns.check at hrow
    split_ifs at hrow
    cases hrow
    exact ⟨rfl, rfl⟩
  exact ⟨row, accounts, hcols.1, hcols.2, unique_eq_ok.1 hi, (Except.ok.inj h).symm⟩

/-- The balance that a delta leaves, as integers. -/
structure BalanceMoved (b b' : BalanceRow) (delta : ℤ) (lastEntryID : UUID) : Prop where
  available : b'.availableMinor.toInt = b.availableMinor.toInt + delta
  version : b'.version.toInt = b.version.toInt + 1
  lastEntry : b'.lastEntryID = some lastEntryID
  pending : b'.pendingMinor = b.pendingMinor
  allowNegative : b'.allowNegative = b.allowNegative

theorem applyBalanceDelta_eq_ok {d : BalanceDelta} {bal : Balance}
    (h : applyBalanceDelta now d db = .ok (bal, db')) :
    ∃ r row, db.accounts.find? d.accountID = some r ∧
      BalanceMoved r.balance row d.deltaMinor.toInt d.lastEntryID ∧
      db' = { db with
        accounts := db.accounts.modify d.accountID fun r => { r with balance := row } } := by
  unfold applyBalanceDelta at h
  split at h
  · cases h
  · next r hr =>
    obtain ⟨row, hrow, h⟩ := bind_eq_ok.1 h
    obtain ⟨available, -, h⟩ := bind_eq_ok.1 h
    obtain ⟨pending, -, h⟩ := bind_eq_ok.1 h
    obtain ⟨rfl, rfl⟩ := Prod.mk.inj (Except.ok.inj h)
    refine ⟨r, row, (Option.filter_eq_some_iff.1 hr).1, ?_, rfl⟩
    replace hrow := mapError_eq_ok.1 hrow
    unfold applyBalanceDelta.balanceAfter at hrow
    split at hrow
    · next available version ha hv =>
      have hb := BalanceColumns.check_eq_ok.1 hrow
      have hone : (1 : Int64).toInt = 1 := by decide
      constructor <;> simp only [hb]
      · exact bigintAdd_eq_some.1 ha
      · exact hone ▸ bigintAdd_eq_some.1 hv
    · cases hrow

structure PendingMoved (b b' : BalanceRow) (delta : ℤ) : Prop where
  pending : b'.pendingMinor.toInt = b.pendingMinor.toInt + delta
  available : b'.availableMinor = b.availableMinor
  version : b'.version = b.version
  lastEntry : b'.lastEntryID = b.lastEntryID
  allowNegative : b'.allowNegative = b.allowNegative

theorem applyPendingDelta_eq_ok {d : PendingDelta} (h : applyPendingDelta now d db = .ok db') :
    ∃ r row, db.accounts.find? d.accountID = some r ∧
      PendingMoved r.balance row d.deltaMinor.toInt ∧
      db' = { db with
        accounts := db.accounts.modify d.accountID fun r => { r with balance := row } } := by
  unfold applyPendingDelta at h
  split at h
  · cases h
  · next r hr =>
    obtain ⟨row, hrow, h⟩ := bind_eq_ok.1 h
    cases h
    refine ⟨r, row, hr, ?_, rfl⟩
    replace hrow := mapError_eq_ok.1 hrow
    unfold applyPendingDelta.pendingAfter at hrow
    split at hrow
    · next pending hp =>
      have hb := BalanceColumns.check_eq_ok.1 hrow
      constructor <;> simp only [hb]
      exact bigintAdd_eq_some.1 hp
    · cases hrow

theorem TransactionColumns.check_eq_ok {t : TransactionColumns} {row : TransactionRow}
    (h : t.check = .ok row) : row.toTransactionColumns = t := by
  unfold LedgerCore.TransactionColumns.check at h
  split_ifs at h
  cases h
  rfl

def headerColumns (now : Time) (t : Transaction) : TransactionColumns where
  idempotencyKey := t.idempotencyKey
  principalID := t.principalID
  type := t.type
  status := t.status
  externalRef := t.externalRef
  metadata := t.metadata
  createdAt := now
  postedAt := if t.status = .pending then none else some now

theorem insertTransaction_eq_ok {t : Transaction} {times : Time × Option Time}
    (h : insertTransaction now t db = .ok (times, db')) :
    ∃ row transactions, row.toTransactionColumns = headerColumns now t ∧
      keyTaken t.principalID t.idempotencyKey db = false ∧
      db.transactions.insert? t.id row = some transactions ∧
      times = (now, (headerColumns now t).postedAt) ∧ db' = { db with transactions } := by
  obtain ⟨row, hrow, h⟩ := bind_eq_ok.1 (mapError_eq_ok.1 h)
  obtain ⟨transactions, hi, h⟩ := bind_eq_ok.1 h
  obtain ⟨_, hkey, h⟩ := bind_eq_ok.1 h
  obtain ⟨rfl, rfl⟩ := Prod.mk.inj (Except.ok.inj h)
  exact ⟨row, transactions, TransactionColumns.check_eq_ok hrow,
    by simpa using failIf_eq_ok.1 hkey, unique_eq_ok.1 hi, rfl, rfl⟩

theorem reversedRow_of_posted {r : TransactionRow} (h : r.status = .posted) :
    (reversedRow r).toTransactionColumns = { r.toTransactionColumns with status := .reversed } := by
  simp [reversedRow, h]

theorem markReversed_eq_ok {id : UUID} (h : markReversed id db = .ok db') :
    ∃ r, db.transactions.find? id = some r ∧ r.status = .posted ∧
      db' = { db with transactions := db.transactions.modify id reversedRow } := by
  unfold markReversed at h
  split_ifs at h with hp
  obtain ⟨r, hr, hs⟩ := Option.map_eq_some_iff.1 hp
  exact ⟨r, hr, hs, (Except.ok.inj h).symm⟩

theorem JournalColumns.check_eq_ok {e : JournalColumns} {row : JournalRow} (h : e.check = .ok row) :
    row.toJournalColumns = e := by
  unfold LedgerCore.JournalColumns.check at h
  split_ifs at h
  cases h
  rfl

theorem insertEntryRow_eq_ok {e : JournalEntry} {journal journal' : Table UUID JournalRow}
    (h : insertEntryRow now journal e = .ok journal') :
    ∃ row, journal'.rows = journal.rows ++ [(e.id, row)] ∧
      toEntry e.id row = { e with createdAt := now } := by
  obtain ⟨_, -, h⟩ := bind_eq_ok.1 h
  obtain ⟨row, hrow, h⟩ := bind_eq_ok.1 h
  obtain ⟨journal₁, hi, h⟩ := bind_eq_ok.1 h
  obtain ⟨_, -, h⟩ := bind_eq_ok.1 h
  cases h
  refine ⟨row, (Table.insert?_eq_some.1 (unique_eq_ok.1 hi)).2, ?_⟩
  simp [toEntry, JournalColumns.check_eq_ok hrow]

theorem insertEntryRows_eq_ok {entries : List JournalEntry}
    {journal journal' : Table UUID JournalRow}
    (h : entries.foldlM (insertEntryRow now) journal = .ok journal') :
    journal'.rows.map (fun r => toEntry r.1 r.2) =
      journal.rows.map (fun r => toEntry r.1 r.2) ++
        entries.map fun e => { e with createdAt := now } := by
  refine foldlM_eq_ok (fun done j => j.rows.map (fun r => toEntry r.1 r.2) =
    journal.rows.map (fun r => toEntry r.1 r.2) ++ done.map fun e => { e with createdAt := now })
    h (by simp) ?_
  intro done e rest j j' _ hj hstep
  obtain ⟨row, hr, he⟩ := insertEntryRow_eq_ok hstep
  simp [hr, hj, he]

theorem entryForeignKeys_eq_ok {e : JournalEntry} (h : entryForeignKeys db e = .ok ()) :
    (∃ r, db.accounts.find? e.accountID = some r ∧ r.currency = e.amount.currency) ∧
      ∃ t, db.transactions.find? e.transactionID = some t := by
  unfold entryForeignKeys at h
  split_ifs at h with hc ht
  exact ⟨Option.map_eq_some_iff.1 (not_not.1 hc), Option.ne_none_iff_exists'.1 ht⟩

/-- What an insert of entries leaves: they are the journal's newest, and each names an account
of its currency. -/
theorem insertEntries_eq_ok {entries entries' : List JournalEntry} {s s' : TxState}
    (h : insertEntries now entries s = .ok (entries', s')) :
    entries' = entries.map (fun e => { e with createdAt := now }) ∧
      journalEntries s'.db = journalEntries s.db ++ entries' ∧
      (∀ e ∈ entries, ∃ r, s.db.accounts.find? e.accountID = some r ∧
        r.currency = e.amount.currency) ∧
      s'.deferred = s.deferred ++ entries.map (fun e => e.transactionID) ∧
      ∃ journal, s'.db = { s.db with journal } := by
  unfold insertEntries at h
  split at h
  · cases h
    exact ⟨rfl, by simp, by simp, by simp, s.db.journal, rfl⟩
  · next first rest =>
    obtain ⟨journal, hj, h⟩ := bind_eq_ok.1 (mapError_eq_ok.1 h)
    obtain ⟨_, hfk, h⟩ := bind_eq_ok.1 h
    obtain ⟨rfl, rfl⟩ := Prod.mk.inj (Except.ok.inj h)
    exact ⟨rfl, insertEntryRows_eq_ok hj,
      fun e he => (entryForeignKeys_eq_ok (forM_eq_ok.1 hfk e he)).1, rfl, journal, rfl⟩

end LedgerCore.Ledger
