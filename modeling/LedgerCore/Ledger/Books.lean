import LedgerCore.Ledger.Reversals
import LedgerCore.Ledger.ShardChoice

/-! The ledger's past: what was written stays as it was written, and past balances can be read. -/
namespace LedgerCore.Ledger
open LedgerCore.Program

variable {db db' db'' : DB}

/-- What the books keep: entries are only appended, a header keeps its columns while its status
can go from posted to reversed, and an account keeps what entries depend on. -/
structure BooksKept (db db' : DB) : Prop where
  journal : journalEntries db <+: journalEntries db'
  headers : ∀ id r, db.transactions.find? id = some r →
    ∃ r', db'.transactions.find? id = some r' ∧ HeaderOf r.toTransactionColumns r' ∧
      (r'.status = r.status ∨ r.status = .posted ∧ r'.status = .reversed)
  accounts : ∀ id r, db.accounts.find? id = some r →
    ∃ r', db'.accounts.find? id = some r' ∧ RowStays r r'

theorem BooksKept.of_eq (ha : db'.accounts = db.accounts) (ht : db'.transactions = db.transactions)
    (hj : db'.journal = db.journal) : BooksKept db db' where
  journal := by
    have heq : journalEntries db' = journalEntries db := by unfold journalEntries; rw [hj]
    exact heq ▸ List.prefix_rfl
  headers id r hr := ⟨r, ht ▸ hr, rfl, .inl rfl⟩
  accounts id r hr := ⟨r, ha ▸ hr, .refl r⟩

theorem BooksKept.trans (h : BooksKept db db') (h' : BooksKept db' db'') : BooksKept db db'' where
  journal := h.journal.trans h'.journal
  headers id r hr := by
    obtain ⟨r', hr', hheader, hstatus⟩ := h.headers id r hr
    obtain ⟨r'', hr'', hheader', hstatus'⟩ := h'.headers id r' hr'
    refine ⟨r'', hr'', ?_, ?_⟩
    · unfold HeaderOf at hheader hheader' ⊢
      rw [hheader', hheader]
    · rcases hstatus with heq | ⟨hposted, hreversed⟩
      · rwa [heq] at hstatus'
      · -- A transaction that is reversed is not posted any more.
        rcases hstatus' with heq | ⟨hposted', -⟩
        · exact .inr ⟨hposted, heq.trans hreversed⟩
        · cases hreversed.symm.trans hposted'
  accounts id r hr := by
    obtain ⟨r', hr', hstays⟩ := h.accounts id r hr
    obtain ⟨r'', hr'', hstays'⟩ := h'.accounts id r' hr'
    exact ⟨r'', hr'', hstays.trans hstays'⟩

theorem Committed.booksKept {t : Transaction} {reverses : Option UUID} (h : Committed db db' t)
    (hm : Marks reverses t db db') : BooksKept db db' where
  journal := ⟨t.entries, h.journal.symm⟩
  headers id r hr := by
    obtain ⟨r', hr', hheader⟩ := h.headers id r hr
    have hbefore : statusOf id db = some r.status := by rw [statusOf, hr, Option.map_some]
    have hafter : statusOf id db' = some r'.status := by rw [statusOf, hr', Option.map_some]
    refine ⟨r', hr', hheader, ?_⟩
    by_cases hid : id ∈ reverses
    · obtain ⟨hposted, hreversed⟩ := hm.target id hid
      exact .inr ⟨Option.some.inj (hbefore.symm.trans hposted),
        Option.some.inj (hafter.symm.trans hreversed)⟩
    · have hne : id ≠ t.id := by
        rintro rfl
        cases h.fresh.symm.trans hr
      rw [hm.others id hne hid, hbefore] at hafter
      exact .inl (Option.some.inj hafter).symm
  accounts := h.grows.kept

theorem LedgerOp.apply_booksKept (op : LedgerOp) (db : DB) : BooksKept db (op.apply db) := by
  unfold LedgerOp.apply
  split
  · next db' hrun =>
    cases ran hrun with
    | opened ho =>
      exact ⟨ho.journalEntries ▸ List.prefix_rfl,
        fun id r hr => ⟨r, ho.transactions ▸ hr, rfl, .inl rfl⟩, (run_grows hrun).kept⟩
    | posted hooks hpost =>
      exact (postTransaction_committed hooks hpost).1.booksKept (postTransaction_marks hooks hpost)
    | reversed hooks hreverse =>
      exact (doReverse_committed hooks hreverse).1.booksKept (doReverse_marks hooks hreverse).1
  · exact .of_eq rfl rfl rfl

/-- An account and its shards hold together what the journal has on them. -/
theorem Agrees.logicalSum (h : Agrees db) (hs : Shards SameKind db) {id : UUID} {r : AccountRow}
    (hr : db.accounts.find? id = some r) :
    Ledger.logicalSum (fun b => b.availableMinor.toInt) id db =
      signedTotal r.normalBalance
        ((journalEntries db).filter fun e => e.accountID ∈ physicalIDs id db) := by
  rw [← sum_signedTotal_onAccount _ (hs.physicalIDs_nodup id), physicalIDs, List.map_map]
  refine congrArg List.sum (List.map_congr_left fun x hx => ?_)
  obtain ⟨hrx, hid | hparent⟩ := mem_physical.1 hx
  · obtain rfl : r = x.2 := Option.some.inj (hr.symm.trans (hid ▸ hrx))
    exact (h.rows x.1 x.2 hrx).available
  · obtain ⟨rp, hrp, -, hkind⟩ := hs x.1 x.2 id hrx hparent
    obtain rfl : r = rp := Option.some.inj (hr.symm.trans hrp)
    exact (h.rows x.1 x.2 hrx).available.trans (by rw [hkind.normalBalance]; rfl)

/-- Entries of the past fall on an account and its shards as they did: an account that is made
later has none. -/
theorem BooksKept.mem_physicalIDs (h : BooksKept db db') (href : Referenced db) {e : JournalEntry}
    (he : e ∈ journalEntries db) (id : UUID) :
    e.accountID ∈ physicalIDs id db' ↔ e.accountID ∈ physicalIDs id db := by
  obtain ⟨r, hr, -⟩ := href.accounts e he
  obtain ⟨r', hr', hstays⟩ := h.accounts e.accountID r hr
  simp [Ledger.mem_physicalIDs, hr, hr', hstays.parentAccountID]

end LedgerCore.Ledger
