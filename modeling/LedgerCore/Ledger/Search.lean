import LedgerCore.Text.Like
import LedgerCore.Ledger.AccountStatement

/-! Search of the transactions, page by page, the newest first. -/
namespace LedgerCore.Ledger
open LedgerCore.Program

/-- An empty status or type is no filter, and so is an empty reference. `periodTo` is `none` when
it is the zero time. -/
structure TransactionQuery where
  externalRef : Option String
  status : String
  type : String
  accountID : Option UUID
  periodFrom : Time
  periodTo : Option Time
  limit : ℤ
  after : Option UUID
  deriving DecidableEq, Repr

structure TransactionPage where
  transactions : List Transaction
  nextCursor : Option UUID
  deriving DecidableEq, Repr

/-- A header as the search reads it, without the columns it does not select. -/
def headerOf (id : UUID) (r : TransactionRow) : Transaction where
  id
  idempotencyKey := r.idempotencyKey
  principalID := ""
  type := r.type
  status := r.status
  externalRef := r.externalRef
  metadata := r.metadata
  createdAt := r.createdAt
  postedAt := r.postedAt
  entries := []

/-- `external_ref ILIKE '%' || filter || '%'`, if there is a filter; `NULL` matches nothing. -/
def refMatches (lower : Char → Char) (filter : Option String) (r : TransactionRow) : Bool :=
  match filter with
  | none | some "" => true
  | some f => r.externalRef.any fun ref => Text.ilike lower ref.toList ('%' :: f.toList ++ ['%'])

/-- `EXISTS (SELECT 1 FROM journal_entries …)`, if there is an account. -/
def touches (accountID : Option UUID) (id : UUID) (db : DB) : Bool :=
  match accountID with
  | none => true
  | some a => db.journal.values.any fun e => e.transactionID = id && e.accountID = a

/-- The filters of a query, but for its cursor. -/
def selects (lower : Char → Char) (q : TransactionQuery) (periodTo : Time) (db : DB)
    (row : UUID × TransactionRow) : Bool :=
  (q.periodFrom ≤ row.2.createdAt && row.2.createdAt ≤ periodTo) &&
    refMatches lower q.externalRef row.2 &&
    (q.status = "" || row.2.status.text = q.status) &&
    (q.type = "" || row.2.type.text = q.type) &&
    touches q.accountID row.1 db

/-- `t.id < after`. -/
def below (after : Option UUID) (id : UUID) : Bool := after.all fun a => id.toNat < a.toNat

/-- `ORDER BY t.id DESC`. -/
def newestFirst (rows : List (UUID × TransactionRow)) : List (UUID × TransactionRow) :=
  rows.insertionSort fun x y => y.1.toNat ≤ x.1.toNat

def TransactionQuery.texts (q : TransactionQuery) : List String :=
  q.externalRef.toList ++ [q.status, q.type]

/-- The parameters that PostgreSQL takes. -/
def TransactionQuery.Sendable (q : TransactionQuery) : Prop := ∀ s ∈ q.texts, '\x00' ∉ s.toList

instance (q : TransactionQuery) : Decidable q.Sendable :=
  inferInstanceAs (Decidable (∀ s ∈ q.texts, '\x00' ∉ s.toList))

def pageOf (lower : Char → Char) (q : TransactionQuery) (periodTo : Time) (db : DB) :
    TransactionPage :=
  let rows := newestFirst (db.transactions.rows.filter fun row =>
    selects lower q periodTo db row && below q.after row.1)
  let fetched := (rows.take (q.limit.toNat + 1)).map fun row => headerOf row.1 row.2
  let (transactions, last) := Paging.trim q.limit.toNat fetched
  ⟨transactions, last.map fun t => t.id⟩

def Repository.searchTransactions (lower : Char → Char) (q : TransactionQuery) (periodTo : Time)
    (db : DB) : Except Error TransactionPage := do
  failIf (¬q.Sendable) ((mapError .zeroByte).wrap "search transactions")
  pure (pageOf lower q periodTo db)

def defaultSearchLimit : ℤ := 100

def maxSearchLimit : ℤ := 1000

def searchTransactions (lower : Char → Char) (now : Time) (q : TransactionQuery) (db : DB) :
    Except Error TransactionPage := do
  let periodTo := q.periodTo.getD now
  failIf (periodTo < q.periodFrom)
    (.errorf s!"search transactions: period ends ({periodTo}) before it starts ({q.periodFrom})"
      .invalidEntry)
  Repository.searchTransactions lower
    { q with limit := clampLimit defaultSearchLimit maxSearchLimit q.limit } periodTo db

section Pages
variable {lower : Char → Char} {now periodTo : Time} {q : TransactionQuery} {db : DB}
  {p : TransactionPage} {done rest : List (UUID × TransactionRow)}

def TransactionQuery.pageLimit (q : TransactionQuery) : ℕ :=
  (clampLimit defaultSearchLimit maxSearchLimit q.limit).toNat

theorem TransactionQuery.pageLimit_pos (q : TransactionQuery) : 0 < q.pageLimit := by
  unfold pageLimit clampLimit defaultSearchLimit maxSearchLimit
  split_ifs <;> omega

def selectedRows (lower : Char → Char) (q : TransactionQuery) (periodTo : Time) (db : DB) :
    List (UUID × TransactionRow) :=
  newestFirst (db.transactions.rows.filter (selects lower q periodTo db))

theorem newestFirst_filter (f : UUID × TransactionRow → Bool) :
    newestFirst (db.transactions.rows.filter f) = (newestFirst db.transactions.rows).filter f := by
  refine Paging.insertionSort_filter (fun x hx y hy h h' => ?_) f
  exact List.inj_on_of_nodup_map db.transactions.nodup hx hy
    (BitVec.eq_of_toNat_eq (le_antisymm h' h))

theorem pairwise_newestFirst :
    (newestFirst db.transactions.rows).Pairwise fun x y => y.1.toNat < x.1.toNat := by
  have hkeys : db.transactions.rows.Pairwise fun x y => x.1 ≠ y.1 :=
    List.pairwise_map.1 db.transactions.nodup
  have hne : (newestFirst db.transactions.rows).Pairwise fun x y => x.1 ≠ y.1 :=
    ((List.perm_insertionSort _ _).pairwise_iff fun h => h.symm).2 hkeys
  refine (hne.and (List.pairwise_insertionSort _ _)).imp fun {x y} h => ?_
  exact lt_of_le_of_ne h.2 fun heq => h.1 (BitVec.eq_of_toNat_eq heq.symm)

theorem pairwise_selectedRows :
    (selectedRows lower q periodTo db).Pairwise fun x y => y.1.toNat < x.1.toNat := by
  rw [selectedRows, newestFirst_filter]
  exact pairwise_newestFirst.filter _

theorem rows_below (h : selectedRows lower q periodTo db = done ++ rest) :
    newestFirst (db.transactions.rows.filter fun row => selects lower q periodTo db row &&
      below (Paging.position Prod.fst done) row.1) = rest := by
  have hsplit : newestFirst (db.transactions.rows.filter fun row =>
      selects lower q periodTo db row && below (Paging.position Prod.fst done) row.1) =
      (done ++ rest).filter fun row => below (Paging.position Prod.fst done) row.1 := by
    rw [← h, selectedRows, newestFirst_filter, newestFirst_filter, List.filter_filter]
    exact List.filter_congr fun row _ => Bool.and_comm _ _
  rw [hsplit]
  cases hlast : done.getLast? with
  | none =>
    obtain rfl := List.getLast?_eq_none_iff.1 hlast
    exact List.filter_eq_self.2 fun _ _ => rfl
  | some row =>
    have hafter := Paging.filter_after (r := fun x y : UUID × TransactionRow => y.1.toNat < x.1.toNat)
      (h ▸ pairwise_selectedRows) (fun _ _ => lt_asymm) hlast
    simpa only [Paging.position, hlast, Option.map_some, below, Option.all_some] using hafter

/-- The headers that the pages of a search return, in order. -/
def selectedHeaders (lower : Char → Char) (q : TransactionQuery) (periodTo : Time) (db : DB) :
    List Transaction :=
  (selectedRows lower q periodTo db).map fun row => headerOf row.1 row.2

def searchFrom (lower : Char → Char) (now : Time) (q : TransactionQuery) (db : DB)
    (after : Option UUID) : Except Error TransactionPage :=
  searchTransactions lower now { q with after } db

theorem pageOf_eq {rows : List (UUID × TransactionRow)}
    (h : newestFirst (db.transactions.rows.filter fun row =>
      selects lower q periodTo db row && below q.after row.1) = rows) :
    pageOf lower q periodTo db =
      ⟨(rows.take q.limit.toNat).map fun row => headerOf row.1 row.2,
        if q.limit.toNat < rows.length then rows[q.limit.toNat - 1]?.map Prod.fst else none⟩ := by
  simp only [pageOf, h, Paging.trim_map, Paging.trim_take]
  split_ifs
  · rw [Option.map_map]
    rfl
  · rfl

theorem searchFrom_eq_ok {after : Option UUID} : searchFrom lower now q db after = .ok p ↔
    q.periodFrom ≤ q.periodTo.getD now ∧ q.Sendable ∧
      pageOf lower { q with after, limit := clampLimit defaultSearchLimit maxSearchLimit q.limit }
        (q.periodTo.getD now) db = p := by
  simp only [searchFrom, searchTransactions, Repository.searchTransactions, bind_eq_ok,
    failIf_eq_ok, not_lt, not_not, exists_const]
  exact and_congr_right fun _ => and_congr Iff.rfl ⟨Except.ok.inj, congrArg Except.ok⟩

theorem searchFrom_continues {done rest : List Transaction}
    (hrows : selectedHeaders lower q (q.periodTo.getD now) db = done ++ rest)
    (h : searchFrom lower now q db (Paging.position (fun t => t.id) done) = .ok p) :
    Paging.Continues (fun t => t.id) q.pageLimit TransactionPage.transactions
      TransactionPage.nextCursor (fun _ _ => True) done rest p := by
  obtain ⟨done, rest, hselected, rfl, rfl⟩ := List.map_eq_append_iff.1 hrows
  have hposition : Paging.position (fun t : Transaction => t.id)
      (done.map fun row => headerOf row.1 row.2) = Paging.position Prod.fst done := by
    simp only [Paging.position, List.getLast?_map, Option.map_map]
    rfl
  rw [hposition] at h
  obtain ⟨-, -, rfl⟩ := searchFrom_eq_ok.1 h
  have hpage := pageOf_eq (q := { q with
    after := Paging.position Prod.fst done
    limit := clampLimit defaultSearchLimit maxSearchLimit q.limit }) (rows_below hselected)
  refine ⟨?_, ?_, trivial⟩
  · exact (congrArg TransactionPage.transactions hpage).trans List.map_take
  · refine (congrArg TransactionPage.nextCursor hpage).trans ?_
    rw [List.length_map, List.getElem?_map, Option.map_map]
    rfl

/-- The pages of a search return the headers that the search selects. -/
theorem flatMap_of_follows {ps : List TransactionPage}
    (h : Paging.Follows (searchFrom lower now q db) TransactionPage.nextCursor none ps) :
    ps.flatMap TransactionPage.transactions =
      selectedHeaders lower q (q.periodTo.getD now) db :=
  (h.laid q.pageLimit_pos (fun _ _ _ => searchFrom_continues) [] _ rfl rfl).1

theorem exists_search_pages (hperiod : q.periodFrom ≤ q.periodTo.getD now) (hsend : q.Sendable) :
    ∃ ps, Paging.Follows (searchFrom lower now q db) TransactionPage.nextCursor none ps :=
  Paging.exists_follows q.pageLimit_pos (fun _ _ _ => searchFrom_continues)
    fun _ _ _ => ⟨_, searchFrom_eq_ok.2 ⟨hperiod, hsend, rfl⟩⟩

theorem mem_selectedHeaders {t : Transaction} : t ∈ selectedHeaders lower q periodTo db ↔
    ∃ r, db.transactions.find? t.id = some r ∧ t = headerOf t.id r ∧
      selects lower q periodTo db (t.id, r) = true := by
  simp only [selectedHeaders, selectedRows, newestFirst, List.mem_map, List.mem_insertionSort,
    List.mem_filter, Table.find?_eq_some, Prod.exists]
  constructor
  · rintro ⟨id, r, ⟨hmem, hselects⟩, rfl⟩
    exact ⟨r, hmem, rfl, hselects⟩
  · rintro ⟨r, hmem, ht, hselects⟩
    exact ⟨t.id, r, ⟨hmem, hselects⟩, ht.symm⟩

end Pages

/-- The texts that hold the filter as it is, but for the case of letters. -/
def Holds (lower : Char → Char) (filter ref : String) : Prop :=
  filter.toList.map lower <:+: ref.toList.map lower

/-- The queries that filter by reference and period only. -/
structure ByReference (q : TransactionQuery) (filter : String) (now : Time) : Prop where
  externalRef : q.externalRef = some filter
  status : q.status = ""
  type : q.type = ""
  accountID : q.accountID = none
  period : q.periodFrom ≤ q.periodTo.getD now

section Reference
variable {lower : Char → Char} {now : Time} {q : TransactionQuery} {filter : String} {db : DB}
  {id : UUID} {r : TransactionRow}

theorem refMatches_eq_true (hfilter : filter ≠ "") : refMatches lower (some filter) r = true ↔
    ∃ ref, r.externalRef = some ref ∧
      Text.ilike lower ref.toList ('%' :: filter.toList ++ ['%']) = true := by
  have hmatch : refMatches lower (some filter) r = r.externalRef.any fun ref =>
      Text.ilike lower ref.toList ('%' :: filter.toList ++ ['%']) := by
    unfold refMatches
    split
    · next h => cases h
    · next h => exact absurd (Option.some.inj h) hfilter
    · next h => rw [Option.some.inj h]
  rw [hmatch, Option.any_eq_true]

theorem ByReference.selects (hq : ByReference q filter now) (hfilter : filter ≠ "") :
    selects lower q (q.periodTo.getD now) db (id, r) = true ↔
      q.periodFrom ≤ r.createdAt ∧ r.createdAt ≤ q.periodTo.getD now ∧
      ∃ ref, r.externalRef = some ref ∧
        Text.ilike lower ref.toList ('%' :: filter.toList ++ ['%']) = true := by
  simp only [Ledger.selects, hq.externalRef, hq.status, hq.type, hq.accountID, touches,
    Bool.and_eq_true, decide_eq_true_eq, refMatches_eq_true hfilter, and_assoc, decide_true,
    Bool.true_or, and_true]

end Reference

/-- A payin of reference `abc` to a wallet, after the splits made of the wallet. -/
def samplePayin (splits : List LedgerOp) : DB := runOps
  ([.createAccount (sampleDraws 0) 1 ⟨"bank", .asset, "INR", none, false⟩,
    .createAccount (sampleDraws 1) 2 ⟨"wallet", .liability, "INR", none, false⟩] ++ splits ++
   [.postTransaction (sampleDraws 2) 3
    { principalID := "p", type := .payin, externalRef := some "abc", metadata := []
      entries := [⟨1, .debit, ⟨500, "INR"⟩⟩, ⟨2, .credit, ⟨500, "INR"⟩⟩]
      idempotencyKey := none, idempotency := none, record := none } recording_none]) .empty

def statementFrom (q : StatementQuery) (db : DB) (after : Option StatementCursor) :
    Except Error Statement :=
  getStatement { q with after } db

/-- Every entry belongs to a transaction of the same instant. -/
def SharesCreatedAt (db : DB) : Prop := ∀ e ∈ journalEntries db, ∃ r,
  db.transactions.find? e.transactionID = some r ∧ r.createdAt = e.createdAt

/-- A search by account and a statement of the same account and period. -/
structure SameAccount (q : TransactionQuery) (sq : StatementQuery) (now : Time) : Prop where
  externalRef : q.externalRef = none
  status : q.status = ""
  type : q.type = ""
  accountID : q.accountID = some sq.accountID
  periodFrom : q.periodFrom = sq.periodFrom
  periodTo : q.periodTo.getD now = sq.periodTo

section Account
variable {lower : Char → Char} {now : Time} {q : TransactionQuery} {sq : StatementQuery} {db : DB}
  {a : AccountRow} {ps : List Statement} {ts : List TransactionPage} {txID : UUID}

theorem mem_statement_pages (ha : db.accounts.find? sq.accountID = some a)
    (hnil : db.journal.find? UUID.nil = none)
    (hps : Paging.Follows (statementFrom sq db) Statement.nextCursor none ps) :
    txID ∈ (ps.flatMap Statement.entries).map (fun e => e.transactionID) ↔
      ∃ e ∈ journalEntries db, e.transactionID = txID ∧
        e.accountID ∈ physicalIDs sq.accountID db ∧
        sq.periodFrom ≤ e.createdAt ∧ e.createdAt ≤ sq.periodTo := by
  have hentries : ps.flatMap Statement.entries = listedEntries a sq db :=
    (hps.laid sq.pageLimit_pos (fun _ _ _ => getStatement_continues ha hnil) [] _ rfl rfl).1
  rw [hentries, listedEntries, List.map_map]
  simp only [List.mem_map, Function.comp_apply, mem_periodEntries, accountEntries, List.mem_filter,
    decide_eq_true_eq]
  constructor
  · rintro ⟨e, ⟨⟨he, hphysical⟩, hperiod⟩, rfl⟩
    exact ⟨e, he, rfl, hphysical, hperiod⟩
  · rintro ⟨e, he, rfl, hphysical, hperiod⟩
    exact ⟨e, ⟨⟨he, hphysical⟩, hperiod⟩, rfl⟩

theorem mem_search_pages (h : SameAccount q sq now)
    (hts : Paging.Follows (searchFrom lower now q db) TransactionPage.nextCursor none ts) :
    txID ∈ (ts.flatMap TransactionPage.transactions).map (fun t => t.id) ↔
      ∃ r, db.transactions.find? txID = some r ∧
        (sq.periodFrom ≤ r.createdAt ∧ r.createdAt ≤ sq.periodTo) ∧
        ∃ e ∈ journalEntries db, e.transactionID = txID ∧ e.accountID = sq.accountID := by
  have hselects : ∀ r, selects lower q (q.periodTo.getD now) db (txID, r) = true ↔
      (sq.periodFrom ≤ r.createdAt ∧ r.createdAt ≤ sq.periodTo) ∧
        ∃ e ∈ journalEntries db, e.transactionID = txID ∧ e.accountID = sq.accountID := by
    intro r
    simp only [selects, h.externalRef, h.status, h.type, h.accountID, h.periodFrom, h.periodTo,
      refMatches, touches, Bool.and_eq_true, decide_eq_true_eq, decide_true, Bool.true_or, and_true,
      List.any_eq_true, journalEntries, Table.values, List.mem_map, exists_exists_and_eq_and, toEntry]
  rw [flatMap_of_follows hts]
  constructor
  · intro hmem
    obtain ⟨t, ht, rfl⟩ := List.mem_map.1 hmem
    obtain ⟨r, hr, -, hsel⟩ := mem_selectedHeaders.1 ht
    exact ⟨r, hr, (hselects r).1 hsel⟩
  · rintro ⟨r, hr, hsel⟩
    exact List.mem_map.2 ⟨headerOf txID r, mem_selectedHeaders.2 ⟨r, hr, rfl, (hselects r).2 hsel⟩,
      rfl⟩

/-- Every transaction of the period that posted to a shard of the account also posted to the
account itself. -/
def ParentAlongside (sq : StatementQuery) (db : DB) : Prop := ∀ e ∈ journalEntries db,
  e.accountID ∈ physicalIDs sq.accountID db → e.accountID ≠ sq.accountID →
  sq.periodFrom ≤ e.createdAt → e.createdAt ≤ sq.periodTo →
  ∃ e' ∈ journalEntries db, e'.transactionID = e.transactionID ∧ e'.accountID = sq.accountID

theorem exists_statement_pages (ha : db.accounts.find? sq.accountID = some a)
    (hid : sq.accountID ≠ UUID.nil) (hnil : db.journal.find? UUID.nil = none)
    (hperiod : sq.periodFrom ≤ sq.periodTo) (hfits : ∀ b ∈ balancesUpTo a sq db, InInt64 b) :
    ∃ ps, Paging.Follows (statementFrom sq db) Statement.nextCursor none ps :=
  Paging.exists_follows sq.pageLimit_pos (fun _ _ _ => getStatement_continues ha hnil)
    fun _ _ hrows => exists_getStatement ha hid hnil hperiod hfits hrows

theorem SameAccount.exists_search_pages (h : SameAccount q sq now)
    (hperiod : sq.periodFrom ≤ sq.periodTo) :
    ∃ ts, Paging.Follows (searchFrom lower now q db) TransactionPage.nextCursor none ts := by
  refine Ledger.exists_search_pages (by rwa [h.periodFrom, h.periodTo]) ?_
  simp [TransactionQuery.Sendable, TransactionQuery.texts, h.externalRef, h.status, h.type]

theorem pages_agree_iff (hrows : SharesCreatedAt db) (hnil : db.journal.find? UUID.nil = none)
    (ha : db.accounts.find? sq.accountID = some a) (hsame : SameAccount q sq now)
    (hps : Paging.Follows (statementFrom sq db) Statement.nextCursor none ps)
    (hts : Paging.Follows (searchFrom lower now q db) TransactionPage.nextCursor none ts) :
    (∀ txID, txID ∈ (ts.flatMap TransactionPage.transactions).map (fun t => t.id) ↔
      txID ∈ (ps.flatMap Statement.entries).map (fun e => e.transactionID)) ↔
      ParentAlongside sq db := by
  simp only [mem_statement_pages ha hnil hps, mem_search_pages hsame hts]
  constructor
  · intro h e he hphysical _ hfrom hto
    obtain ⟨-, -, -, hparent⟩ := (h e.transactionID).2 ⟨e, he, rfl, hphysical, hfrom, hto⟩
    exact hparent
  · intro h txID
    constructor
    · rintro ⟨r, hr, hperiod, e, he, rfl, hid⟩
      obtain ⟨r', hr', hcreated⟩ := hrows e he
      obtain rfl := Option.some.inj (hr'.symm.trans hr)
      have hphysical := mem_physicalIDs.2 ⟨a, ha, .inl rfl⟩
      exact ⟨e, he, rfl, hid ▸ hphysical, hcreated ▸ hperiod⟩
    · rintro ⟨e, he, rfl, hphysical, hperiod⟩
      obtain ⟨r, hr, hcreated⟩ := hrows e he
      refine ⟨r, hr, hcreated.symm ▸ hperiod, ?_⟩
      by_cases hid : e.accountID = sq.accountID
      · exact ⟨e, he, rfl, hid⟩
      · exact h e he hphysical hid hperiod.1 hperiod.2

/-- Where the balances of the period fit, the statement and the search each come to an end, and a
search by account returns the transactions of the account's statement exactly when no posting of
the period went to the account's shards alone. -/
theorem search_agrees_with_statement_iff (hrows : SharesCreatedAt db)
    (hnil : db.journal.find? UUID.nil = none) (ha : db.accounts.find? sq.accountID = some a)
    (hid : sq.accountID ≠ UUID.nil) (hperiod : sq.periodFrom ≤ sq.periodTo)
    (hfits : ∀ b ∈ balancesUpTo a sq db, InInt64 b) (hsame : SameAccount q sq now) : ∃ ps ts,
      (∀ ps', Paging.Follows (statementFrom sq db) Statement.nextCursor none ps' ↔ ps' = ps) ∧
      (∀ ts', Paging.Follows (searchFrom lower now q db) TransactionPage.nextCursor none ts' ↔
        ts' = ts) ∧
      ((∀ txID, txID ∈ (ts.flatMap TransactionPage.transactions).map (fun t => t.id) ↔
        txID ∈ (ps.flatMap Statement.entries).map (fun e => e.transactionID)) ↔
        ParentAlongside sq db) := by
  obtain ⟨ps, hps⟩ := exists_statement_pages ha hid hnil hperiod hfits
  obtain ⟨ts, hts⟩ := @SameAccount.exists_search_pages lower now q sq db hsame hperiod
  exact ⟨ps, ts, fun ps' => ⟨hps.unique, fun h => h ▸ hps⟩, fun ts' => ⟨hts.unique, fun h => h ▸ hts⟩,
    pages_agree_iff hrows hnil ha hsame hps hts⟩

end Account

def sampleByWallet : TransactionQuery := ⟨none, "", "", some 2, 0, some 9, 10, none⟩

def sampleWalletStatement : StatementQuery := ⟨2, 0, 9, 10, none⟩

theorem sameAccount_sample : SameAccount sampleByWallet sampleWalletStatement 9 :=
  ⟨rfl, rfl, rfl, rfl, rfl, rfl⟩

/-- A wallet that was never split. -/
theorem search_agrees_with_statement_unsplit : ∃ ps ts,
    (∀ ps', Paging.Follows (statementFrom sampleWalletStatement (samplePayin []))
      Statement.nextCursor none ps' ↔ ps' = ps) ∧
    (∀ ts', Paging.Follows (searchFrom Char.toLower 9 sampleByWallet (samplePayin []))
      TransactionPage.nextCursor none ts' ↔ ts' = ts) ∧
    ∀ txID, txID ∈ (ts.flatMap TransactionPage.transactions).map (fun t => t.id) ↔
      txID ∈ (ps.flatMap Statement.entries).map (fun e => e.transactionID) := by
  have hrows : (journalEntries (samplePayin [])).all (fun e =>
      ((samplePayin []).transactions.find? e.transactionID).any
        fun r => r.createdAt = e.createdAt) = true := by decide +kernel
  have hnil : ((samplePayin []).journal.find? UUID.nil).isNone = true := by decide +kernel
  have haccount : ((samplePayin []).accounts.find? 2).any (fun a =>
      (balancesUpTo a sampleWalletStatement (samplePayin [])).all
        fun b => -2 ^ 63 ≤ b ∧ b < 2 ^ 63) = true := by decide +kernel
  have hids : physicalIDs 2 (samplePayin []) = [2] := by decide +kernel
  obtain ⟨a, ha, hfits⟩ := (Option.any_eq_true ..).1 haccount
  have hshares : SharesCreatedAt (samplePayin []) := by
    intro e he
    obtain ⟨r, hr, hcreated⟩ := (Option.any_eq_true ..).1 (List.all_eq_true.1 hrows e he)
    exact ⟨r, hr, of_decide_eq_true hcreated⟩
  obtain ⟨ps, ts, hps, hts, hiff⟩ := @search_agrees_with_statement_iff Char.toLower 9 sampleByWallet
    sampleWalletStatement (samplePayin []) a hshares (Option.isNone_iff_eq_none.1 hnil) ha
    (by decide) (by decide)
    (fun b hb => show -2 ^ 63 ≤ b ∧ b < 2 ^ 63 from
      of_decide_eq_true (List.all_eq_true.1 hfits b hb)) sameAccount_sample
  refine ⟨ps, ts, hps, hts, hiff.2 fun e _ hphysical hne => ?_⟩
  rw [show sampleWalletStatement.accountID = 2 from rfl, hids] at hphysical
  exact absurd (List.mem_singleton.1 hphysical) hne

/-- The payin is on the statement of a wallet split in two, and a search by the wallet returns no
transaction. -/
theorem search_misses_posting_to_shard :
    let db := samplePayin [.shardAccount 3 (fun i => BitVec.ofNat 128 (10 + i)) 2 2]
    ((statementFrom sampleWalletStatement db none).toOption.map fun p =>
      (p.entries.map fun e => e.transactionID, p.nextCursor.isNone)) = some ([3], true) ∧
    ((searchFrom Char.toLower 9 sampleByWallet db none).toOption.map fun p =>
      (p.transactions.map fun t => t.id, p.nextCursor)) = some ([], none) := by
  decide +kernel

end LedgerCore.Ledger
