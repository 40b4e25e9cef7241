import LedgerCore.Ledger.Balances

/-! Reads of a balance. A split account is the sum of itself and its shards. -/
namespace LedgerCore.Ledger
open LedgerCore.Program

/-- The common table expression `physical`: an account and its shards. -/
def physical (id : UUID) (db : DB) : List (UUID × AccountRow) :=
  (db.accounts.rows.filter fun r => r.1 = id) ++
    db.accounts.rows.filter fun r => r.2.parentAccountID = some id

def physicalIDs (id : UUID) (db : DB) : List UUID := (physical id db).map Prod.fst

/-- A `numeric` sum, scanned into an `int64`. -/
def scanInt64 (n : ℤ) : Except Error Int64 :=
  if -2 ^ 63 ≤ n ∧ n < 2 ^ 63 then .ok (Int64.ofInt n)
  else .error ⟨[], s!"{n} is out of range for int64"⟩

/-- `SUM` of a column over the balance rows of an account and its shards. -/
def logicalSum (f : BalanceRow → ℤ) (id : UUID) (db : DB) : ℤ :=
  ((physical id db).map fun r => f r.2.balance).sum

def getBalance (accountID : UUID) (db : DB) : Except Error Balance :=
  match db.accounts.find? accountID with
  | none => .error (.errorf ("account " ++ accountID.string) .accountNotFound)
  | some a => do
    let availableMinor ← scan (logicalSum (fun b => b.availableMinor.toInt) accountID db)
    let pendingMinor ← scan (logicalSum (fun b => b.pendingMinor.toInt) accountID db)
    let version ← scan (logicalSum (fun b => b.version.toInt) accountID db)
    let available ← (newMoney availableMinor a.currency).mapError
      (Error.wrap ("balance for account " ++ accountID.string))
    let pending ← (newMoney pendingMinor a.currency).mapError
      (Error.wrap ("pending balance for account " ++ accountID.string))
    pure { accountID, available, pending, version
           updatedAt := ((physical accountID db).map fun r => r.2.balance.updatedAt).foldl max 0 }
where
  scan (n : ℤ) : Except Error Int64 :=
    (scanInt64 n).mapError (Error.wrap ("read balance for account " ++ accountID.string))

def entriesAsOf (accountID : UUID) (instant : Time) (db : DB) : List JournalEntry :=
  (journalEntries db).filter fun e =>
    e.accountID ∈ physicalIDs accountID db ∧ e.createdAt ≤ instant

def getBalanceAsOf (accountID : UUID) (instant : Time) (db : DB) : Except Error Money :=
  match db.accounts.find? accountID with
  | none => .error (.errorf ("account " ++ accountID.string) .accountNotFound)
  | some a => do
    let balanceMinor ← (scanInt64 ((entriesAsOf accountID instant db).map fun e =>
        if e.direction = a.normalBalance then e.amount.amountMinor.toInt
        else -e.amount.amountMinor.toInt).sum).mapError
      (Error.wrap ("read balance for account " ++ accountID.string ++ s!" as of {instant}"))
    newMoney balanceMinor a.currency

theorem scanInt64_eq_ok {n : ℤ} {i : Int64} : scanInt64 n = .ok i ↔ i.toInt = n := by
  have hi := i.le_toInt
  have hi' := i.toInt_lt
  unfold scanInt64
  split_ifs with h
  · rw [Except.ok.injEq, ← Int64.toInt_inj, Int64.toInt_ofInt_of_le h.1 h.2, eq_comm]
  · simp only [false_iff]
    omega

theorem getBalance_eq_ok {id : UUID} {db : DB} {b : Balance} (h : getBalance id db = .ok b) :
    ∃ a, db.accounts.find? id = some a ∧ b.accountID = id ∧
      b.available.currency = a.currency ∧ b.pending.currency = a.currency ∧
      b.available.amountMinor.toInt = logicalSum (fun r => r.availableMinor.toInt) id db ∧
      b.pending.amountMinor.toInt = logicalSum (fun r => r.pendingMinor.toInt) id db ∧
      b.version.toInt = logicalSum (fun r => r.version.toInt) id db := by
  unfold getBalance at h
  split at h
  · cases h
  · next a ha =>
    obtain ⟨availableMinor, havailable, h⟩ := bind_eq_ok.1 h
    obtain ⟨pendingMinor, hpending, h⟩ := bind_eq_ok.1 h
    obtain ⟨version, hversion, h⟩ := bind_eq_ok.1 h
    obtain ⟨_, hmoney, h⟩ := bind_eq_ok.1 h
    obtain ⟨_, hmoney', h⟩ := bind_eq_ok.1 h
    cases h
    obtain ⟨-, rfl⟩ := newMoney_eq_ok.1 (mapError_eq_ok.1 hmoney)
    obtain ⟨-, rfl⟩ := newMoney_eq_ok.1 (mapError_eq_ok.1 hmoney')
    exact ⟨a, ha, rfl, rfl, rfl, scanInt64_eq_ok.1 (mapError_eq_ok.1 havailable),
      scanInt64_eq_ok.1 (mapError_eq_ok.1 hpending), scanInt64_eq_ok.1 (mapError_eq_ok.1 hversion)⟩

theorem mem_physical {id : UUID} {db : DB} {x : UUID × AccountRow} :
    x ∈ physical id db ↔ db.accounts.find? x.1 = some x.2 ∧
      (x.1 = id ∨ x.2.parentAccountID = some id) := by
  obtain ⟨k, r⟩ := x
  simp only [physical, List.mem_append, List.mem_filter, decide_eq_true_eq, Table.find?_eq_some,
    and_or_left]

theorem mem_physicalIDs {id a : UUID} {db : DB} : a ∈ physicalIDs id db ↔
    ∃ r, db.accounts.find? a = some r ∧ (a = id ∨ r.parentAccountID = some id) := by
  simp only [physicalIDs, List.mem_map, mem_physical, Prod.exists]
  constructor
  · rintro ⟨_, r, hr, rfl⟩
    exact ⟨r, hr⟩
  · rintro ⟨r, hr⟩
    exact ⟨a, r, hr, rfl⟩

theorem AccountsMoved.physical {db db' : DB} {entries : List JournalEntry} {pending : UUID → ℤ}
    (h : AccountsMoved entries pending db.accounts db'.accounts) :
    ∃ f : UUID → AccountRow → AccountRow,
      (∀ id, physical id db' = (Ledger.physical id db).map fun x => (x.1, f x.1 x.2)) ∧
      ∀ id, ∀ x ∈ Ledger.physical id db,
        RowMoved (onAccount x.1 entries) (pending x.1) x.2 (f x.1 x.2) := by
  obtain ⟨f, hmap, hfind⟩ := Table.exists_map_of_keys h.keys
  have hrow : ∀ id r, db.accounts.find? id = some r →
      RowMoved (onAccount id entries) (pending id) r (f id r) := by
    intro id r hr
    obtain ⟨r', hr', hm⟩ := h.rows id r hr
    obtain rfl : f id r = r' := Option.some.inj ((hfind id r hr).symm.trans hr')
    exact hm
  refine ⟨f, fun id => ?_, fun id x hx => hrow x.1 x.2 (mem_physical.1 hx).1⟩
  have hparent : ∀ x ∈ db.accounts.rows, (f x.1 x.2).parentAccountID = x.2.parentAccountID := by
    intro x hx
    rw [(hrow x.1 x.2 (Table.find?_eq_some.2 hx)).columns]
  simp only [Ledger.physical, hmap, Table.map, List.filter_map, List.map_append]
  congr 2
  refine List.filter_congr fun x hx => ?_
  simp only [Function.comp_apply, hparent x hx]

theorem AccountsMoved.logicalSum {db db' : DB} {entries : List JournalEntry} {pending : UUID → ℤ}
    (h : AccountsMoved entries pending db.accounts db'.accounts) {f : BalanceRow → ℤ}
    {g : UUID → AccountRow → ℤ} (id : UUID)
    (hg : ∀ k r r', db.accounts.find? k = some r → RowMoved (onAccount k entries) (pending k) r r' →
      f r'.balance = f r.balance + g k r) :
    logicalSum f id db' =
      Ledger.logicalSum f id db + ((Ledger.physical id db).map fun x => g x.1 x.2).sum := by
  obtain ⟨f', hphysical, hmoved⟩ := h.physical
  rw [Ledger.logicalSum, Ledger.logicalSum, hphysical, List.map_map, ← List.sum_map_add]
  congr 1
  exact List.map_congr_left fun x hx => hg x.1 x.2 _ (mem_physical.1 hx).1 (hmoved id x hx)

theorem Committed.physicalIDs {db db' : DB} {t : Transaction} (h : Committed db db' t) (id : UUID) :
    physicalIDs id db' = Ledger.physicalIDs id db := by
  obtain ⟨pending, hmoved⟩ := h.accounts
  obtain ⟨f, hphysical, -⟩ := hmoved.physical
  rw [Ledger.physicalIDs, hphysical, List.map_map]
  rfl

end LedgerCore.Ledger
