import LedgerCore.Ledger.Reads
import LedgerCore.Saga.Store
import LedgerCore.Table.Queries

/-! The three-way match of a settlement file with the ledger and the sagas. -/
namespace LedgerCore.Reconciliation
open LedgerCore.Program

/-- A row of the settlement file. Its instant is a Go `time.Time`, in nanoseconds, and may come before
the first one of `Time`, in year 0. -/
structure PSPRecord where
  externalRef : String
  amountMinor : Int64
  currency : String
  status : String
  settledAt : ℤ
  deriving DecidableEq, Repr

/-- What the file says about one reference: its most recently settled row, and how many rows it
has. -/
structure PSPAggregate where
  amountMinor : Int64
  currency : String
  status : String
  settledAt : ℤ
  rowCount : ℕ
  deriving DecidableEq, Repr

def newPSPAggregate (r : PSPRecord) (rowCount : ℕ) : PSPAggregate :=
  ⟨r.amountMinor, r.currency, r.status, r.settledAt, rowCount⟩

structure LedgerSide where
  transactionID : UUID
  amountMinor : Int64
  currency : String
  status : String
  postedAt : Option Time
  createdAt : Time
  deriving DecidableEq, Repr

structure SagaSide where
  sagaID : UUID
  status : String
  deriving DecidableEq, Repr

structure MatchedRecord where
  externalRef : String
  ledger : Option LedgerSide
  saga : Option SagaSide
  psp : Option PSPAggregate
  deriving DecidableEq, Repr

/-- What a `timestamptz` keeps of an instant: the whole microseconds, here still in nanoseconds. -/
def timestamptz (t : ℤ) : ℤ := t / 1000 * 1000

/-- The rows of the file as parameters of the query. -/
def pspInput (psp : List PSPRecord) : List PSPRecord :=
  psp.map fun r => { r with settledAt := timestamptz r.settledAt }

/-- The rows on one reference, as `psp_agg` sums them up. -/
def aggregate (rows : List PSPRecord) : Option PSPAggregate :=
  (Table.first (fun r r' => r'.settledAt ≤ r.settledAt) rows).map fun r =>
    newPSPAggregate r rows.length

def pspAgg (psp : List PSPRecord) : Table String PSPAggregate :=
  Table.groupBy PSPRecord.externalRef aggregate (pspInput psp)

/-- A row of `ledger_latest`. The sum and the currency of no entries are `NULL`. -/
structure LedgerRow where
  transactionID : UUID
  status : Ledger.TransactionStatus
  postedAt : Option Time
  createdAt : Time
  amountMinor : Option ℤ
  currency : Option String

def debits (transactionID : UUID) (db : DB) : List JournalRow :=
  db.journal.values.filter fun e => e.transactionID = transactionID && e.direction = .debit

/-- `sum(je.amount_minor)`, a `numeric`. -/
def sumOf (entries : List JournalRow) : Option ℤ :=
  if entries = [] then none else some (entries.map fun e => e.amountMinor.toInt).sum

def toLedgerRow (db : DB) (id : UUID) (t : TransactionRow) : LedgerRow where
  transactionID := id
  status := t.status
  postedAt := t.postedAt
  createdAt := t.createdAt
  amountMinor := sumOf (debits id db)
  currency := (debits id db).head?.map fun e => e.currency

/-- The transactions with a reference, created at `since` or later. -/
def referring (since : Time) (db : DB) : List (String × LedgerRow) :=
  db.transactions.rows.filterMap fun row =>
    if since ≤ row.2.createdAt then row.2.externalRef.map fun ref => (ref, toLedgerRow db row.1 row.2)
    else none

def ledgerLatest (since : Time) (db : DB) : Table String (String × LedgerRow) :=
  Table.distinctOn Prod.fst (fun x y => y.2.createdAt ≤ x.2.createdAt) (referring since db)

/-- The sagas whose payload has a reference; it has no such member when it is empty. -/
def referringSagas (db : DB) : List (String × UUID × SagaRow) :=
  db.sagaInstances.rows.filterMap fun row =>
    (nullIfEmpty row.2.payload.externalRef).map fun ref => (ref, row)

def sagaLatest (db : DB) : Table String (String × UUID × SagaRow) :=
  Table.distinctOn Prod.fst (fun x y => y.2.2.createdAt ≤ x.2.2.createdAt) (referringSagas db)

def refs (psp : List PSPRecord) (since : Time) (db : DB) : List String :=
  Table.union (pspAgg psp).keys (ledgerLatest since db).keys

structure MatchRow where
  externalRef : String
  ledger : Option LedgerRow
  saga : Option (UUID × SagaRow)
  psp : Option PSPAggregate

def joined (psp : List PSPRecord) (since : Time) (db : DB) : List MatchRow :=
  let withLedger := Table.leftJoin id (refs psp since db) (ledgerLatest since db)
  let withSaga := Table.leftJoin Prod.fst withLedger (sagaLatest db)
  let withPSP := Table.leftJoin (fun row => row.1.1) withSaga (pspAgg psp)
  withPSP.map fun (((ref, ledger), saga), psp) => ⟨ref, ledger.map Prod.snd, saga.map Prod.snd, psp⟩

def LedgerRow.scan (l : LedgerRow) : Except Error LedgerSide := do
  let amountMinor ← (l.amountMinor.elim (.ok 0) Ledger.scanInt64).mapError
    (Error.wrap "scan matched reconciliation record")
  pure { transactionID := l.transactionID, amountMinor, currency := l.currency.getD ""
         status := l.status.text, postedAt := l.postedAt, createdAt := l.createdAt }

def MatchRow.scan (row : MatchRow) : Except Error MatchedRecord := do
  let ledger ← row.ledger.mapM LedgerRow.scan
  pure { externalRef := row.externalRef, ledger, psp := row.psp
         saga := row.saga.map fun s => ⟨s.1, s.2.status.text⟩ }

/-- `Match`. `collation` is the database's order of texts. -/
def Repository.matchRecords (collation : String → String → Bool) (psp : List PSPRecord)
    (since : Time) (db : DB) : Except Error (List MatchedRecord) :=
  ((joined psp since db).insertionSort fun x y => collation x.externalRef y.externalRef).mapM'
    MatchRow.scan

/-- The statement mentions the reference, or a transaction created at `since` or later does. -/
def Occurs (psp : List PSPRecord) (since : Time) (db : DB) (ref : String) : Prop :=
  (∃ r ∈ psp, r.externalRef = ref) ∨
    ∃ row ∈ db.transactions.rows, row.2.externalRef = some ref ∧ since ≤ row.2.createdAt

/-- The transaction `t` carries the reference, none that does is newer, and `l` says what it is:
its amount is the sum of its debits. -/
structure Newest (since : Time) (db : DB) (ref : String) (l : LedgerSide) (t : TransactionRow) :
    Prop where
  row : (l.transactionID, t) ∈ db.transactions.rows
  carries : t.externalRef = some ref
  recent : since ≤ t.createdAt
  newest : ∀ row ∈ db.transactions.rows, row.2.externalRef = some ref →
    row.2.createdAt ≤ t.createdAt
  amountMinor : l.amountMinor.toInt = (sumOf (debits l.transactionID db)).getD 0
  currency : l.currency = ((debits l.transactionID db).head?.map fun e => e.currency).getD ""
  status : l.status = t.status.text
  postedAt : l.postedAt = t.postedAt
  createdAt : l.createdAt = t.createdAt

/-- The sides of a record are what the statement and the ledger say about its reference. -/
structure Sides (psp : List PSPRecord) (since : Time) (db : DB) (m : MatchedRecord) : Prop where
  psp : m.psp = aggregate (pspInput (psp.filter fun r => r.externalRef = m.externalRef))
  ledger : ∀ l ∈ m.ledger, ∃ t, Newest since db m.externalRef l t
  absent : m.ledger = none → ∀ row ∈ db.transactions.rows,
    row.2.externalRef = some m.externalRef → row.2.createdAt < since

section Spec
variable {collation : String → String → Bool} {psp : List PSPRecord} {since : Time} {db : DB}
  {ref : String} {ms : List MatchedRecord}

theorem aggregate_eq_none {rows : List PSPRecord} : aggregate rows = none ↔ rows = [] := by
  rw [aggregate, Option.map_eq_none_iff, Table.first_eq_none]

theorem aggregate_singleton (r : PSPRecord) : aggregate (pspInput [r]) =
    some ⟨r.amountMinor, r.currency, r.status, timestamptz r.settledAt, 1⟩ := rfl

theorem filter_pspInput : (pspInput psp).filter (fun r => r.externalRef = ref) =
    pspInput (psp.filter fun r => r.externalRef = ref) := by
  rw [pspInput, List.filter_map]
  rfl

theorem pspInput_eq_nil : pspInput psp = [] ↔ psp = [] := List.map_eq_nil_iff

theorem find?_pspAgg :
    (pspAgg psp).find? ref = aggregate (pspInput (psp.filter fun r => r.externalRef = ref)) := by
  rw [pspAgg, Table.find?_groupBy (aggregate_eq_none.2 rfl), filter_pspInput]

theorem mem_keys_pspAgg : ref ∈ (pspAgg psp).keys ↔ ∃ r ∈ psp, r.externalRef = ref := by
  rw [Table.mem_keys, ← Option.isSome_iff_exists, find?_pspAgg, Option.isSome_iff_ne_none, Ne,
    aggregate_eq_none, pspInput_eq_nil, List.filter_eq_nil_iff]
  simp

theorem mem_referring {x : String × LedgerRow} : x ∈ referring since db ↔
    ∃ row ∈ db.transactions.rows, row.2.externalRef = some x.1 ∧ since ≤ row.2.createdAt ∧
      x.2 = toLedgerRow db row.1 row.2 := by
  obtain ⟨ref, l⟩ := x
  rw [referring, List.mem_filterMap]
  refine exists_congr fun row => and_congr_right fun _ => ?_
  split_ifs with hsince
  · simp [hsince, eq_comm]
  · simp [hsince]

private theorem mem_carrying {x : String × LedgerRow} :
    x ∈ (referring since db).filter (fun x => x.1 = ref) ↔ x.1 = ref ∧
      ∃ row ∈ db.transactions.rows, row.2.externalRef = some ref ∧ since ≤ row.2.createdAt ∧
        x.2 = toLedgerRow db row.1 row.2 := by
  rw [List.mem_filter, mem_referring, decide_eq_true_eq, and_comm]
  refine and_congr_right fun hx => ?_
  rw [hx]

theorem ledgerLatest_eq_none : (ledgerLatest since db).find? ref = none ↔
    ∀ row ∈ db.transactions.rows, row.2.externalRef = some ref → row.2.createdAt < since := by
  rw [ledgerLatest, Table.find?_distinctOn, Table.first_eq_none, List.eq_nil_iff_forall_not_mem]
  simp only [mem_carrying, Prod.forall, not_and, not_exists]
  constructor
  · intro h id t ht href
    by_contra hsince
    exact h ref (toLedgerRow db id t) rfl id t ht href (Nat.not_lt.1 hsince) rfl
  · intro h _ _ _ id t ht href hsince _
    exact absurd (h id t ht href) (Nat.not_lt.2 hsince)

theorem mem_keys_ledgerLatest : ref ∈ (ledgerLatest since db).keys ↔
    ∃ row ∈ db.transactions.rows, row.2.externalRef = some ref ∧ since ≤ row.2.createdAt := by
  rw [Table.mem_keys, ← Option.isSome_iff_exists, Option.isSome_iff_ne_none, Ne,
    ledgerLatest_eq_none]
  simp only [not_forall, Nat.not_lt, exists_prop]

theorem mem_refs : ref ∈ refs psp since db ↔ Occurs psp since db ref := by
  rw [refs, Table.mem_union, mem_keys_pspAgg, mem_keys_ledgerLatest, Occurs]

instance : Std.Total fun x y : String × LedgerRow => y.2.createdAt ≤ x.2.createdAt :=
  ⟨fun _ _ => Nat.le_total _ _⟩

instance : IsTrans (String × LedgerRow) fun x y => y.2.createdAt ≤ x.2.createdAt :=
  ⟨fun _ _ _ h h' => Nat.le_trans h' h⟩

theorem ledgerLatest_eq_some {x : String × LedgerRow}
    (h : (ledgerLatest since db).find? ref = some x) :
    ∃ row ∈ db.transactions.rows, row.2.externalRef = some ref ∧ since ≤ row.2.createdAt ∧
      x.2 = toLedgerRow db row.1 row.2 ∧
      ∀ row' ∈ db.transactions.rows, row'.2.externalRef = some ref →
        row'.2.createdAt ≤ row.2.createdAt := by
  rw [ledgerLatest, Table.find?_distinctOn] at h
  obtain ⟨-, row, hrow, href, hsince, hx⟩ := mem_carrying.1 (Table.mem_of_first h)
  refine ⟨row, hrow, href, hsince, hx, fun row' hrow' href' => ?_⟩
  by_cases hrecent : since ≤ row'.2.createdAt
  · have hle := Table.le_of_first h (b := (ref, toLedgerRow db row'.1 row'.2))
      (mem_carrying.2 ⟨rfl, row', hrow', href', hrecent, rfl⟩)
    rwa [hx] at hle
  · exact Nat.le_trans (Nat.le_of_not_le hrecent) hsince

def matchRow (psp : List PSPRecord) (since : Time) (db : DB) (ref : String) : MatchRow where
  externalRef := ref
  ledger := ((ledgerLatest since db).find? ref).map Prod.snd
  saga := ((sagaLatest db).find? ref).map Prod.snd
  psp := (pspAgg psp).find? ref

/-- Each table has at most one row for a reference, so every reference comes up once. -/
theorem joined_eq_map : joined psp since db = (refs psp since db).map (matchRow psp since db) := by
  simp only [joined, Table.leftJoin_eq_map, List.map_map]
  rfl

def LedgerRow.Fits (l : LedgerRow) : Prop := ∀ n ∈ l.amountMinor, -2 ^ 63 ≤ n ∧ n < 2 ^ 63

/-- What a row is scanned to when its sum fits. -/
def LedgerRow.side (l : LedgerRow) : LedgerSide where
  transactionID := l.transactionID
  amountMinor := Int64.ofInt (l.amountMinor.getD 0)
  currency := l.currency.getD ""
  status := l.status.text
  postedAt := l.postedAt
  createdAt := l.createdAt

def MatchRow.record (row : MatchRow) : MatchedRecord where
  externalRef := row.externalRef
  ledger := row.ledger.map LedgerRow.side
  saga := row.saga.map fun s => ⟨s.1, s.2.status.text⟩
  psp := row.psp

theorem LedgerRow.scan_eq_ok {l : LedgerRow} {s : LedgerSide} :
    l.scan = .ok s ↔ l.Fits ∧ s = l.side := by
  simp only [scan, bind_eq_ok, mapError_eq_ok, LedgerRow.Fits, side]
  cases l.amountMinor with
  | none =>
    simp only [Option.elim_none, Except.ok.injEq, pure, Except.pure, exists_eq_left', Option.getD_none,
      Option.not_mem_none, false_implies, implies_true, true_and]
    exact eq_comm
  | some n =>
    simp only [Option.elim_some, Option.mem_some_iff, forall_eq', Option.getD_some, Ledger.scanInt64]
    by_cases hn : -2 ^ 63 ≤ n ∧ n < 2 ^ 63
    · simp only [hn, and_self, if_true, Except.ok.injEq, exists_eq_left', pure, Except.pure, true_and]
      exact eq_comm
    · rw [if_neg hn]
      simp only [reduceCtorEq, false_and, exists_false, hn]

theorem MatchRow.scan_eq_ok (row : MatchRow) (m : MatchedRecord) :
    row.scan = .ok m ↔ (∀ l ∈ row.ledger, l.Fits) ∧ m = row.record := by
  simp only [scan, bind_eq_ok, record]
  cases row.ledger with
  | none =>
    simp only [Option.mapM_none, pure, Except.pure, Except.ok.injEq, exists_eq_left', Option.map_none,
      Option.not_mem_none, false_implies, implies_true, true_and]
    exact eq_comm
  | some l =>
    have hmap (s : Option LedgerSide) :
        (some l).mapM LedgerRow.scan = .ok s ↔ l.Fits ∧ s = some l.side := by
      rw [Option.mapM_some]
      change l.scan.map some = .ok s ↔ _
      simp only [map_eq_ok, LedgerRow.scan_eq_ok, and_assoc, exists_and_left, exists_eq_left]
      exact and_congr_right fun _ => eq_comm
    simp only [hmap, Option.mem_some_iff, forall_eq', Option.map_some, pure, Except.pure,
      Except.ok.injEq, and_assoc, exists_and_left, exists_eq_left]
    exact and_congr_right fun _ => eq_comm

theorem LedgerRow.toInt_side {l : LedgerRow} (h : l.Fits) :
    l.side.amountMinor.toInt = l.amountMinor.getD 0 := by
  unfold Fits at h
  simp only [side]
  cases hl : l.amountMinor with
  | none => rfl
  | some n =>
    obtain ⟨hlow, hhigh⟩ := h n hl
    exact Int64.toInt_ofInt_of_le hlow hhigh

/-- A match returns a record for every reference that occurs, once. -/
theorem matchRecords_eq_ok (h : Repository.matchRecords collation psp since db = .ok ms) :
    (∀ ref ∈ refs psp since db, ∀ l ∈ (matchRow psp since db ref).ledger, l.Fits) ∧
      ms.Perm ((refs psp since db).map fun ref => (matchRow psp since db ref).record) := by
  obtain ⟨hfits, rfl⟩ := (mapM'_eq_ok MatchRow.scan_eq_ok).1 h
  have hperm := List.perm_insertionSort
    (fun x y : MatchRow => collation x.externalRef y.externalRef = true) (joined psp since db)
  constructor
  · intro ref href
    refine hfits _ (hperm.mem_iff.2 ?_)
    rw [joined_eq_map]
    exact List.mem_map_of_mem href
  · refine (hperm.map _).trans ?_
    rw [joined_eq_map, List.map_map]
    rfl

theorem nodup_matchRecords (h : Repository.matchRecords collation psp since db = .ok ms) :
    (ms.map MatchedRecord.externalRef).Nodup := by
  have hperm := (matchRecords_eq_ok h).2.map MatchedRecord.externalRef
  rw [List.map_map] at hperm
  have hid : (MatchedRecord.externalRef ∘ fun ref => (matchRow psp since db ref).record) = id := rfl
  rw [hid, List.map_id] at hperm
  exact hperm.nodup_iff.2 (Table.nodup_union _ _)

theorem mem_matchRecords (h : Repository.matchRecords collation psp since db = .ok ms) :
    ref ∈ ms.map MatchedRecord.externalRef ↔ Occurs psp since db ref := by
  rw [((matchRecords_eq_ok h).2.map _).mem_iff, List.map_map, ← mem_refs]
  have hid : (MatchedRecord.externalRef ∘ fun ref => (matchRow psp since db ref).record) = id := rfl
  rw [hid, List.map_id]

theorem sides_of_mem (h : Repository.matchRecords collation psp since db = .ok ms)
    {m : MatchedRecord} (hm : m ∈ ms) : Sides psp since db m := by
  obtain ⟨hfits, hperm⟩ := matchRecords_eq_ok h
  obtain ⟨ref, href, rfl⟩ := List.mem_map.1 (hperm.mem_iff.1 hm)
  constructor
  · exact find?_pspAgg
  · intro l hl
    obtain ⟨r, hr, rfl⟩ := Option.map_eq_some_iff.1 hl
    have hfits := hfits ref href r hr
    obtain ⟨x, hx, rfl⟩ := Option.map_eq_some_iff.1 hr
    obtain ⟨row, hrow, hcarries, hsince, heq, hnewest⟩ := ledgerLatest_eq_some hx
    have hamount := LedgerRow.toInt_side hfits
    rw [heq] at hamount ⊢
    exact ⟨row.2, hrow, hcarries, hsince, hnewest, hamount, rfl, rfl, rfl, rfl⟩
  · intro hnone
    exact ledgerLatest_eq_none.1 (Option.map_eq_none_iff.1 (Option.map_eq_none_iff.1 hnone))

theorem rowCount_of_sides {m : MatchedRecord} (h : Sides psp since db m) {p : PSPAggregate}
    (hp : m.psp = some p) :
    p.rowCount = (psp.filter fun r => r.externalRef = m.externalRef).length := by
  rw [h.psp] at hp
  obtain ⟨_, -, rfl⟩ := Option.map_eq_some_iff.1 hp
  exact List.length_map _

theorem mem_of_psp {m : MatchedRecord} (h : Sides psp since db m) (hp : m.psp ≠ none) :
    ∃ r ∈ psp, r.externalRef = m.externalRef := by
  rw [h.psp, Ne, aggregate_eq_none, pspInput_eq_nil, List.filter_eq_nil_iff] at hp
  simpa using hp

theorem rowCount_pos {m : MatchedRecord} (h : Sides psp since db m) {p : PSPAggregate}
    (hp : m.psp = some p) : 0 < p.rowCount := by
  obtain ⟨r, hr, hrm⟩ := mem_of_psp h (by rw [hp]; exact Option.some_ne_none p)
  rw [rowCount_of_sides h hp]
  exact List.length_pos_of_mem (List.mem_filter.2 ⟨hr, decide_eq_true hrm⟩)

end Spec

end LedgerCore.Reconciliation
