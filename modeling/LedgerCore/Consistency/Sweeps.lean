import LedgerCore.Ledger.AccountStatement
import LedgerCore.Ledger.TrialBalance
import LedgerCore.Table.Queries

/-! The consistency sweeps: the journal in each currency, against the stored balances, and against
the transactions it belongs to. -/
namespace LedgerCore.Consistency
open LedgerCore.Ledger LedgerCore.Program
variable {db : DB}

def maxReported : ℕ := 200

section Rows
variable {α β : Type}

/-- `ORDER BY id`. -/
def byID (id : α → UUID) (rows : List α) : List α :=
  rows.insertionSort fun x y => (id x).toNat ≤ (id y).toNat

/-- `count(*) OVER () … LIMIT $1`: the first rows, each with the number of all. -/
def reported (id : α → UUID) (rows : List α) : List (α × ℕ) :=
  ((byID id rows).take maxReported).map (·, rows.length)

/-- The loop over the rows: what it scans of each, and the count as the last row had it. -/
def collect (scan : α → Except Error β) (rows : List (α × ℕ)) : Except Error (List β × ℕ) := do
  let found ← rows.mapM' fun r => scan r.1
  pure (found, (rows.getLast?.map Prod.snd).getD 0)

end Rows

structure CurrencyViolation where
  currency : String
  signedTotal : Int64
  deriving DecidableEq, Repr

structure GlobalInvariantResult where
  violations : List CurrencyViolation
  deriving DecidableEq, Repr

/-- The currencies whose entries do not sum to zero, with their sums. -/
def signedTotals (db : DB) : Table String ℤ :=
  Table.groupBy (fun e : JournalEntry => e.amount.currency)
    (fun entries =>
      let signedTotal := (entries.map fun e =>
        if e.direction = .debit then e.amount.amountMinor.toInt
        else -e.amount.amountMinor.toInt).sum
      if signedTotal ≠ 0 then some signedTotal else none)
    (journalEntries db)

def scanViolation (row : String × ℤ) : Except Error CurrencyViolation := do
  let signedTotal ← (scanInt64 row.2).mapError (Error.wrap "scan global invariant violation")
  pure { currency := row.1, signedTotal }

/-- `CheckGlobalInvariant`. `collation` is the database's order of texts. -/
def checkGlobalInvariant (collation : String → String → Bool) (db : DB) :
    Except Error GlobalInvariantResult := do
  let violations ← ((signedTotals db).rows.insertionSort fun x y => collation x.1 y.1).mapM'
    scanViolation
  pure { violations }

structure BalanceDrift where
  accountID : UUID
  currency : String
  rebuiltAvailable : Int64
  liveAvailable : Int64
  deriving DecidableEq, Repr

structure DriftResult where
  accountsCompared : ℕ
  drifted : List BalanceDrift
  totalDrifted : ℕ
  deriving DecidableEq, Repr

/-- `rebuilt`: the sum of an account's entries, by its normal balance. -/
def rebuilt (db : DB) (account : UUID × AccountRow) : ℤ :=
  signedTotal account.2.normalBalance (onAccount account.1 (journalEntries db))

/-- `account_balances`, which the sweep reads as a table of its own: an account may be without a
row in it. -/
abbrev Balances := Table UUID BalanceRow

/-- `COALESCE(ab.available_minor, 0)` of a `LEFT JOIN account_balances ab`. -/
def liveAvailable (balances : Balances) (accountID : UUID) : Int64 :=
  ((balances.find? accountID).map fun b => b.availableMinor).getD 0

/-- `compared`: the accounts whose two balances differ. -/
def compared (balances : Balances) (db : DB) : List (UUID × AccountRow) :=
  db.accounts.rows.filter fun a => rebuilt db a ≠ (liveAvailable balances a.1).toInt

def scanDrift (balances : Balances) (db : DB) (a : UUID × AccountRow) :
    Except Error BalanceDrift := do
  let rebuiltAvailable ← (scanInt64 (rebuilt db a)).mapError
    (Error.wrap "scan projection drift row")
  pure { accountID := a.1, currency := a.2.currency, rebuiltAvailable
         liveAvailable := liveAvailable balances a.1 }

def checkProjectionDrift (balances : Balances) (db : DB) : Except Error DriftResult := do
  let (drifted, totalDrifted) ←
    collect (scanDrift balances db) (reported Prod.fst (compared balances db))
  pure { accountsCompared := db.accounts.rows.length, drifted, totalDrifted }

structure OrphanResult where
  fewEntryTransactions : List UUID
  totalFewEntry : ℕ
  orphanEntries : List UUID
  totalOrphanEntries : ℕ
  deriving DecidableEq, Repr

/-- `counted`: the posted or reversed transactions with fewer than two entries. -/
def counted (db : DB) : List UUID :=
  (db.transactions.rows.filter fun t => (t.2.status = .posted ∨ t.2.status = .reversed) ∧
    (transactionEntries t.1 db).length < 2).map Prod.fst

def orphaned (db : DB) : List UUID :=
  ((journalEntries db).filter fun e => db.transactions.find? e.transactionID = none).map
    JournalEntry.id

def checkOrphans (db : DB) : Except Error OrphanResult := do
  let (fewEntryTransactions, totalFewEntry) ← collect pure (reported (fun a => a) (counted db))
  let (orphanEntries, totalOrphanEntries) ← collect pure (reported (fun a => a) (orphaned db))
  pure { fewEntryTransactions, totalFewEntry, orphanEntries, totalOrphanEntries }

/-- The count is that of all rows, though only the first of them are named. -/
theorem collect_total {α β : Type} {id : α → UUID} {rows : List α} {scan : α → Except Error β}
    {found : List β} {total : ℕ} (h : collect scan (reported id rows) = .ok (found, total)) :
    total = rows.length := by
  obtain ⟨bs, hbs, h⟩ := bind_eq_ok.1 h
  obtain ⟨-, rfl⟩ := Prod.mk.inj (Except.ok.inj h)
  rw [reported, List.getLast?_map, Option.map_map]
  -- There is a last row unless nothing was found, for the limit is not zero.
  cases hlast : ((byID id rows).take maxReported).getLast? with
  | some a => rfl
  | none =>
    have hlength := congrArg List.length (List.getLast?_eq_none_iff.1 hlast)
    rw [List.length_take, byID, List.length_insertionSort, maxReported] at hlength
    simp at hlength
    simp [hlength]

theorem signed_debit (d : Direction) (n : ℤ) :
    signed d .debit n = if d = .debit then n else -n := rfl

theorem netTotal_eq_sum (currency : String) (entries : List JournalEntry) :
    netTotal currency entries = ((entries.filter fun e => e.amount.currency = currency).map fun e =>
      signed e.direction .debit e.amount.amountMinor.toInt).sum := by
  induction entries with
  | nil => rfl
  | cons e entries ih =>
    rw [netTotal_cons, ih, List.filter_cons]
    by_cases hc : e.amount.currency = currency <;> simp [hc]

theorem signedTotals_eq_nil :
    (signedTotals db).rows = [] ↔ ∀ currency, netTotal currency (journalEntries db) = 0 := by
  have hmem (row : String × ℤ) : row ∈ (signedTotals db).rows ↔
      ¬netTotal row.1 (journalEntries db) = 0 ∧ netTotal row.1 (journalEntries db) = row.2 := by
    rw [← Table.find?_eq_some, signedTotals, Table.find?_groupBy (by simp), netTotal_eq_sum]
    simp only [signed_debit, ite_not, Option.ite_none_left_eq_some, Option.some.injEq]
  rw [List.eq_nil_iff_forall_not_mem]
  constructor
  · intro h currency
    by_contra hne
    exact h (currency, netTotal currency (journalEntries db)) ((hmem _).2 ⟨hne, rfl⟩)
  · intro h row hrow
    exact ((hmem row).1 hrow).1 (h row.1)

theorem compared_eq_nil {balances : Balances} : compared balances db = [] ↔
    ∀ id a, db.accounts.find? id = some a →
      signedTotal a.normalBalance (onAccount id (journalEntries db)) =
        (liveAvailable balances id).toInt := by
  rw [compared, List.filter_eq_nil_iff]
  simp only [decide_eq_true_eq, not_not, Prod.forall, Table.find?_eq_some]
  rfl

theorem counted_eq_nil : counted db = [] ↔ ∀ id t, db.transactions.find? id = some t →
    t.status = .posted ∨ t.status = .reversed → 2 ≤ (transactionEntries id db).length := by
  rw [counted, List.map_eq_nil_iff, List.filter_eq_nil_iff]
  simp only [decide_eq_true_eq, not_and, not_lt, Prod.forall, Table.find?_eq_some]

theorem orphaned_eq_nil :
    orphaned db = [] ↔ ∀ e ∈ journalEntries db, e.transactionID ∈ db.transactions.keys := by
  rw [orphaned, List.map_eq_nil_iff, List.filter_eq_nil_iff]
  simp only [decide_eq_true_eq, Table.find?_eq_none, not_not]

theorem scanned_eq_ok {β : Type} {n : ℤ} {wrap : Error → Error} {g : Int64 → β} {b : β} :
    ((scanInt64 n).mapError wrap >>= fun i => pure (g i)) = .ok b ↔
      InInt64 n ∧ b = g (.ofInt n) := by
  simp only [bind_eq_ok, mapError_eq_ok, scanInt64_eq_ok_iff, pure, Except.pure, Except.ok.injEq]
  constructor
  · rintro ⟨_, ⟨hn, rfl⟩, rfl⟩
    exact ⟨hn, rfl⟩
  · rintro ⟨hn, rfl⟩
    exact ⟨_, ⟨hn, rfl⟩, rfl⟩

theorem collect_eq_nil {α β : Type} {id : α → UUID} {rows : List α} {scan : α → Except Error β} :
    collect scan (reported id rows) = .ok ([], 0) ↔ rows = [] := by
  constructor
  · intro h
    exact List.length_eq_zero_iff.1 (collect_total h).symm
  · rintro rfl
    rfl

/-- The three sweeps return, and find nothing. -/
structure CleanOn (collation : String → String → Bool) (balances : Balances) (db : DB) : Prop where
  globalInvariant : checkGlobalInvariant collation db = .ok ⟨[]⟩
  projectionDrift : checkProjectionDrift balances db = .ok ⟨db.accounts.rows.length, [], 0⟩
  orphans : checkOrphans db = .ok ⟨[], 0, [], 0⟩

/-- What the sweeps check, in the words of the model. -/
structure Consistent (balances : Balances) (db : DB) : Prop where
  net : ∀ currency, netTotal currency (journalEntries db) = 0
  available : ∀ id a, db.accounts.find? id = some a →
    signedTotal a.normalBalance (onAccount id (journalEntries db)) =
      (liveAvailable balances id).toInt
  headers : ∀ e ∈ journalEntries db, e.transactionID ∈ db.transactions.keys
  two : ∀ id t, db.transactions.find? id = some t → t.status = .posted ∨ t.status = .reversed →
    2 ≤ (transactionEntries id db).length

theorem checkGlobalInvariant_eq_nil {collation : String → String → Bool} :
    checkGlobalInvariant collation db = .ok ⟨[]⟩ ↔
      ∀ currency, netTotal currency (journalEntries db) = 0 := by
  rw [← signedTotals_eq_nil]
  constructor
  · intro h
    obtain ⟨violations, hviolations, h⟩ := bind_eq_ok.1 h
    obtain ⟨-, rfl⟩ := (mapM'_eq_ok fun row v => scanned_eq_ok).1 hviolations
    have hlength := congrArg List.length (GlobalInvariantResult.mk.inj (Except.ok.inj h))
    rw [List.length_map, List.length_insertionSort] at hlength
    exact List.length_eq_zero_iff.1 hlength
  · intro h
    rw [checkGlobalInvariant, h]
    rfl

theorem cleanOn_iff {collation : String → String → Bool} {balances : Balances} :
    CleanOn collation balances db ↔ Consistent balances db := by
  constructor
  · intro h
    obtain ⟨⟨drifted, totalDrifted⟩, hdrifted, hd⟩ := bind_eq_ok.1 h.projectionDrift
    obtain ⟨⟨few, totalFew⟩, hfew, ho⟩ := bind_eq_ok.1 h.orphans
    obtain ⟨⟨orphans, totalOrphans⟩, horphans, ho⟩ := bind_eq_ok.1 ho
    obtain ⟨-, rfl, rfl⟩ := DriftResult.mk.inj (Except.ok.inj hd)
    obtain ⟨rfl, rfl, rfl, rfl⟩ := OrphanResult.mk.inj (Except.ok.inj ho)
    exact ⟨checkGlobalInvariant_eq_nil.1 h.globalInvariant,
      compared_eq_nil.1 (collect_eq_nil.1 hdrifted), orphaned_eq_nil.1 (collect_eq_nil.1 horphans),
      counted_eq_nil.1 (collect_eq_nil.1 hfew)⟩
  · intro h
    refine ⟨checkGlobalInvariant_eq_nil.2 h.net, ?_, ?_⟩
    · rw [checkProjectionDrift, compared_eq_nil.2 h.available]
      rfl
    · rw [checkOrphans, counted_eq_nil.2 h.two, orphaned_eq_nil.2 h.headers]
      rfl

/-- The balance rows as the ledger keeps them, one for each account. -/
def accountBalances (db : DB) : Balances where
  rows := db.accounts.rows.map fun a => (a.1, a.2.balance)
  nodup := by simpa [Function.comp_def] using db.accounts.nodup

theorem find?_accountBalances (db : DB) (id : UUID) :
    (accountBalances db).find? id = (db.accounts.find? id).map fun a => a.balance := by
  simp only [Table.find?, accountBalances, List.find?_map, Option.map_map]
  rfl

/-- The sweeps of a database that has all of its balance rows find nothing. -/
def Clean (collation : String → String → Bool) (db : DB) : Prop :=
  CleanOn collation (accountBalances db) db

theorem consistent_of_conserved (hc : Conserved db) : Consistent (accountBalances db) db where
  net := hc.net
  available id a ha := by
    rw [liveAvailable, find?_accountBalances, ha]
    exact (hc.agrees.rows id a ha).available.symm
  headers := hc.agrees.referenced.headers
  two id t ht _ := by
    have htwo := (hc.doubleEntries id (Table.mem_keys.2 ⟨t, ht⟩)).two_legs
    rwa [List.length_map] at htwo

theorem clean_of_conserved (hc : Conserved db) (collation : String → String → Bool) :
    Clean collation db :=
  cleanOn_iff.2 (consistent_of_conserved hc)

/-- Whatever the ledger did, the sweeps find nothing. -/
theorem sweeps_find_nothing {db : DB} (h : NoEntries db) (ht : db.transactions.keys = [])
    (collation : String → String → Bool) (ops : List LedgerOp) :
    Clean collation (runOps ops db) :=
  clean_of_conserved (runOps_conserved ops (h.conserved ht)) collation

theorem sweeps_find_nothing_sample :
    (runOps (sampleOps.take 3) .empty).journal.keys.length = 2 ∧
      Clean (fun x y => x ≤ y) (runOps (sampleOps.take 3) .empty) :=
  ⟨by decide +kernel, sweeps_find_nothing noEntries_empty rfl _ _⟩

end LedgerCore.Consistency
