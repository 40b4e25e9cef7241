import LedgerCore.Ledger.History

/-! Stored balances against the journal, over every run of ledger operations. -/
namespace LedgerCore.Ledger
open LedgerCore.Program

def transactionEntries (txID : UUID) (db : DB) : List JournalEntry :=
  (journalEntries db).filter fun e => e.transactionID = txID

def entriesOn (id txID : UUID) (db : DB) : List JournalEntry :=
  onAccount id (transactionEntries txID db)

/-- The committed transactions with at least one entry on an account, oldest first. -/
def postingsOn (id : UUID) (db : DB) : List UUID :=
  db.transactions.keys.filter fun txID => entriesOn id txID db ≠ []

/-- The entry with the highest `entry_seq` among those of the latest transaction on an account. -/
def latestEntry (id : UUID) (db : DB) : Option JournalEntry :=
  (postingsOn id db).getLast?.bind fun t => (entriesOn id t db).argmax fun e => e.entrySeq

/-- A database nothing was posted to: no entries, and every balance row as it was created. -/
structure NoEntries (db : DB) : Prop where
  journal : db.journal.rows = []
  balances : ∀ id r, db.accounts.find? id = some r →
    r.balance.availableMinor = 0 ∧ r.balance.version = 0 ∧ r.balance.lastEntryID = none

/-- The journal's foreign keys. -/
structure Referenced (db : DB) : Prop where
  headers : ∀ e ∈ journalEntries db, e.transactionID ∈ db.transactions.keys
  accounts : ∀ e ∈ journalEntries db,
    ∃ r, db.accounts.find? e.accountID = some r ∧ r.currency = e.amount.currency

/-- An account's row says what the journal says. -/
structure RowAgrees (db : DB) (id : UUID) (r : AccountRow) : Prop where
  available : r.balance.availableMinor.toInt =
    signedTotal r.normalBalance (onAccount id (journalEntries db))
  version : r.balance.version.toInt = (postingsOn id db).length
  lastEntry : r.balance.lastEntryID = (latestEntry id db).map fun e => e.id

structure Agrees (db : DB) : Prop where
  referenced : Referenced db
  rows : ∀ id r, db.accounts.find? id = some r → RowAgrees db id r

theorem onAccount_append (id : UUID) (l l' : List JournalEntry) :
    onAccount id (l ++ l') = onAccount id l ++ onAccount id l' := List.filter_append ..

theorem signedTotal_append (n : Direction) (l l' : List JournalEntry) :
    signedTotal n (l ++ l') = signedTotal n l + signedTotal n l' := by
  simp [signedTotal]

theorem onAccount_transactionEntries (id txID : UUID) (db : DB) :
    onAccount id (transactionEntries txID db) =
      (onAccount id (journalEntries db)).filter fun e => e.transactionID = txID :=
  List.filter_comm ..

theorem mem_onAccount {id : UUID} {e : JournalEntry} {l : List JournalEntry} :
    e ∈ onAccount id l ↔ e ∈ l ∧ e.accountID = id := by
  simp [onAccount]

theorem Referenced.transactionID_ne {db : DB} (h : Referenced db) {txID : UUID}
    (hfresh : db.transactions.find? txID = none) {e : JournalEntry} (he : e ∈ journalEntries db) :
    e.transactionID ≠ txID := by
  rintro rfl
  exact Table.find?_eq_none.1 hfresh (h.headers e he)

theorem argmax_entrySeq {l : List JournalEntry}
    (hseq : l.Pairwise fun a b => a.entrySeq < b.entrySeq) :
    l.argmax (fun e => e.entrySeq) = l.getLast? := by
  induction l using List.reverseRecOn with
  | nil => rfl
  | append_singleton l e _ =>
    have hlt : ∀ a ∈ l, a.entrySeq < e.entrySeq := fun a ha =>
      (List.pairwise_append.1 hseq).2.2 a ha e (by simp)
    rw [List.argmax_concat, List.getLast?_append_cons]
    cases hm : l.argmax (fun e => e.entrySeq) with
    | none => rfl
    | some m => simp [hlt m (List.argmax_mem hm)]

theorem transactionEntries_append {db db' : DB} {txID : UUID} {entries : List JournalEntry}
    (hj : journalEntries db' = journalEntries db ++ entries)
    (hown : ∀ e ∈ entries, e.transactionID = txID) (id : UUID) :
    transactionEntries id db' = transactionEntries id db ++ if id = txID then entries else [] := by
  rw [transactionEntries, hj, List.filter_append]
  congr 1
  split_ifs with hid
  · exact List.filter_eq_self.2 fun e he => by simp [hown e he, hid]
  · exact List.filter_eq_nil_iff.2 fun e he => by simpa [hown e he] using Ne.symm hid

section Committed
variable {db db' : DB} {t : Transaction} (h : Committed db db' t) (href : Referenced db)
include h href

theorem Committed.transactionEntries_new : transactionEntries t.id db' = t.entries := by
  have hold : transactionEntries t.id db = [] := by
    refine List.filter_eq_nil_iff.2 fun e he => ?_
    simpa using href.transactionID_ne h.fresh he
  rw [transactionEntries_append h.journal h.own, if_pos rfl, hold, List.nil_append]

omit href in
theorem Committed.transactionEntries_old {txID : UUID} (hne : txID ≠ t.id) :
    transactionEntries txID db' = transactionEntries txID db := by
  rw [transactionEntries_append h.journal h.own, if_neg hne, List.append_nil]

theorem Committed.postingsOn (id : UUID) :
    postingsOn id db' = postingsOn id db ++ if onAccount id t.entries = [] then [] else [t.id] := by
  simp only [Ledger.postingsOn, h.keys, List.filter_append]
  congr 1
  · refine List.filter_congr fun txID htx => ?_
    have hne : txID ≠ t.id := by
      rintro rfl
      exact Table.find?_eq_none.1 h.fresh htx
    rw [entriesOn, entriesOn, h.transactionEntries_old hne]
  · rw [List.filter_singleton, entriesOn, h.transactionEntries_new href]
    cases onAccount id t.entries <;> simp

theorem Committed.latestEntry (id : UUID) :
    latestEntry id db' = ((onAccount id t.entries).getLast?).or (latestEntry id db) := by
  rw [Ledger.latestEntry, h.postingsOn href]
  split_ifs with hnil
  · rw [hnil, List.append_nil, List.getLast?_nil, Option.none_or, Ledger.latestEntry]
    cases hlast : (Ledger.postingsOn id db).getLast? with
    | none => rfl
    | some txID =>
      have hmem : txID ∈ db.transactions.keys :=
        (List.mem_filter.1 (List.mem_of_getLast? hlast)).1
      have hne : txID ≠ t.id := by
        rintro rfl
        exact Table.find?_eq_none.1 h.fresh hmem
      simp only [Option.bind_some, entriesOn, h.transactionEntries_old hne]
  · have hseq : (onAccount id t.entries).Pairwise fun a b => a.entrySeq < b.entrySeq :=
      h.seq.sublist List.filter_sublist
    rw [List.getLast?_append_cons, List.getLast?_singleton, Option.bind_some, entriesOn,
      h.transactionEntries_new href, argmax_entrySeq hseq]
    obtain ⟨e, he⟩ := Option.ne_none_iff_exists'.1 (mt List.getLast?_eq_none_iff.1 hnil)
    rw [he, Option.some_or]

theorem Committed.referenced : Referenced db' := by
  obtain ⟨p, hp⟩ := h.accounts
  have hkeep : ∀ e : JournalEntry,
      (∃ r, db.accounts.find? e.accountID = some r ∧ r.currency = e.amount.currency) →
      ∃ r, db'.accounts.find? e.accountID = some r ∧ r.currency = e.amount.currency := by
    rintro e ⟨r, hr, hc⟩
    obtain ⟨r', hr', hm⟩ := hp.rows _ r hr
    exact ⟨r', hr', by rw [hm.columns]; exact hc⟩
  constructor <;> intro e he <;> rw [h.journal, List.mem_append] at he
  · rw [h.keys, List.mem_append, List.mem_singleton]
    exact he.imp (href.headers e) (h.own e)
  · exact hkeep e (he.elim (href.accounts e) (h.known e))

end Committed

theorem Committed.agrees {db db' : DB} {t : Transaction} (h : Committed db db' t)
    (ha : Agrees db) : Agrees db' := by
  have href := ha.referenced
  refine ⟨h.referenced href, fun id r' hr' => ?_⟩
  obtain ⟨p, hp⟩ := h.accounts
  obtain ⟨r, hr, hm⟩ := hp.rows_of_after hr'
  have hrow := ha.rows id r hr
  constructor
  · rw [hm.available, hrow.available, h.journal, onAccount_append, signedTotal_append, hm.columns]
  · rw [hm.version, hrow.version, h.postingsOn href]
    split_ifs <;> simp
  · rw [hm.lastEntry, hrow.lastEntry, h.latestEntry href]
    cases (onAccount id t.entries).getLast? <;> rfl

theorem Opened.journalEntries {db db' : DB} (h : Opened db db') :
    journalEntries db' = journalEntries db := by
  rw [Ledger.journalEntries, h.journal]
  rfl

theorem Opened.referenced {db db' : DB} (h : Opened db db') (href : Referenced db) :
    Referenced db' := by
  constructor
  · rw [h.journalEntries, h.transactions]
    exact href.headers
  · rw [h.journalEntries]
    intro e he
    obtain ⟨r, hr, hc⟩ := href.accounts e he
    obtain ⟨r', hr', hk⟩ := h.kept _ r hr
    exact ⟨r', hr', hk.currency.trans hc⟩

theorem Opened.agrees {db db' : DB} (h : Opened db db') (ha : Agrees db) : Agrees db' := by
  have hj := h.journalEntries
  have hentries : ∀ id txID, entriesOn id txID db' = entriesOn id txID db := fun id txID => by
    rw [entriesOn, entriesOn, transactionEntries, transactionEntries, hj]
  have hposts : ∀ id, postingsOn id db' = postingsOn id db := fun id => by
    rw [postingsOn, postingsOn, h.transactions]
    exact List.filter_congr fun txID _ => by rw [hentries]
  have hlatest : ∀ id, latestEntry id db' = latestEntry id db := fun id => by
    simp only [latestEntry, hentries, hposts]
  refine ⟨h.referenced ha.referenced, fun id r' hr' => ?_⟩
  cases hr : db.accounts.find? id with
  | some r =>
    obtain ⟨r₁, hr₁, hk⟩ := h.kept id r hr
    obtain rfl : r₁ = r' := Option.some.inj (hr₁.symm.trans hr')
    have hrow := ha.rows id r hr
    constructor <;> rw [hk.balance]
    · rw [hrow.available, hj, hk.normalBalance]
    · rw [hrow.version, hposts]
    · rw [hrow.lastEntry, hlatest]
  | none =>
    -- No entry can name an account that was not there.
    have hnil : onAccount id (Ledger.journalEntries db) = [] := by
      refine List.filter_eq_nil_iff.2 fun e he hid => ?_
      obtain ⟨r, hr', -⟩ := ha.referenced.accounts e he
      rw [of_decide_eq_true hid, hr] at hr'
      cases hr'
    have hpost : postingsOn id db' = [] := by
      refine List.filter_eq_nil_iff.2 fun txID _ => ?_
      rw [entriesOn, onAccount_transactionEntries, hj, hnil]
      simp
    obtain ⟨a, now, hb⟩ := h.new id r' hr' hr
    constructor
    · rw [hb, hj, hnil]
      exact toInt_zero
    · rw [hb, hpost]
      exact toInt_zero
    · rw [hb, latestEntry, hpost]
      rfl

theorem NoEntries.agrees {db : DB} (h : NoEntries db) : Agrees db := by
  have hj : journalEntries db = [] := by simp [journalEntries, h.journal]
  refine ⟨⟨by simp [hj], by simp [hj]⟩, fun id r hr => ?_⟩
  obtain ⟨ha, hv, hl⟩ := h.balances id r hr
  have hpost : postingsOn id db = [] := by simp [postingsOn, entriesOn, transactionEntries, hj, onAccount]
  constructor
  · rw [ha, hj]
    exact toInt_zero
  · rw [hv, hpost]
    exact toInt_zero
  · rw [hl, latestEntry, hpost]
    rfl

theorem LedgerOp.apply_agrees (op : LedgerOp) {db : DB} (h : Agrees db) : Agrees (op.apply db) := by
  unfold LedgerOp.apply
  split
  · next db' hrun =>
    rcases LedgerOp.run_cases hrun with hopen | ⟨t, hcommit, -⟩
    · exact hopen.agrees h
    · exact hcommit.agrees h
  · exact h

theorem runOps_agrees (ops : List LedgerOp) {db : DB} (h : Agrees db) : Agrees (runOps ops db) :=
  List.foldlRecOn ops LedgerOp.apply h fun _ h op _ => op.apply_agrees h

/-- After any run of operations on a database nothing was posted to, every account row holds the
signed sum of its entries, the number of transactions on it, and its latest entry. -/
theorem balances_match_journal {db : DB} (h : NoEntries db) (ops : List LedgerOp) {id : UUID}
    {r : AccountRow} (hr : (runOps ops db).accounts.find? id = some r) :
    r.balance.availableMinor.toInt =
        signedTotal r.normalBalance (onAccount id (journalEntries (runOps ops db))) ∧
      r.balance.version.toInt = (postingsOn id (runOps ops db)).length ∧
      r.balance.lastEntryID = (latestEntry id (runOps ops db)).map fun e => e.id := by
  have hrow := (runOps_agrees ops h.agrees).rows id r hr
  exact ⟨hrow.available, hrow.version, hrow.lastEntry⟩

def sampleDraws (n : ℕ) : Draws where
  now := n + 1
  entryID i := BitVec.ofNat 128 (1000 * (n + 1) + i)
  eventID i := BitVec.ofNat 128 (1000 * (n + 1) + 500 + i)
  shard _ := n

/-- A bank account and a wallet are opened, the wallet is funded, and the funding is reversed. -/
def sampleOps : List LedgerOp :=
  [.createAccount (sampleDraws 0) 1 ⟨"bank", .asset, "INR", none, false⟩,
   .createAccount (sampleDraws 1) 2 ⟨"wallet", .liability, "INR", none, false⟩,
   .postTransaction (sampleDraws 2) 3
    { principalID := "p", type := .payin, externalRef := none, metadata := []
      entries := [⟨1, .debit, ⟨500, "INR"⟩⟩, ⟨2, .credit, ⟨500, "INR"⟩⟩]
      idempotencyKey := none, idempotency := none, record := none } recording_none,
   .reverseTransaction (sampleDraws 3) 4 3 "duplicate" none none recording_none]

theorem noEntries_empty : NoEntries DB.empty := ⟨rfl, fun _ _ h => nomatch h⟩

theorem balances_match_journal_sample :
    ∃ r, (runOps sampleOps DB.empty).accounts.find? 2 = some r ∧ r.balance.version.toInt = 2 ∧
      (r.balance.availableMinor.toInt =
          signedTotal r.normalBalance (onAccount 2 (journalEntries (runOps sampleOps DB.empty))) ∧
        r.balance.version.toInt = (postingsOn 2 (runOps sampleOps DB.empty)).length ∧
        r.balance.lastEntryID =
          (latestEntry 2 (runOps sampleOps DB.empty)).map fun e => e.id) := by
  have hsome : ((runOps sampleOps DB.empty).accounts.find? 2).any
      (fun r => r.balance.version.toInt = 2) = true := by decide +kernel
  obtain ⟨r, hr, hv⟩ := (Option.any_eq_true ..).1 hsome
  exact ⟨r, hr, of_decide_eq_true hv, balances_match_journal noEntries_empty sampleOps hr⟩

end LedgerCore.Ledger
