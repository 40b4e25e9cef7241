import LedgerCore.Ledger.Reads

/-! Accounts and their shards, over every ledger operation: a shard is made as a copy of its parent,
and no operation changes what was copied. -/
namespace LedgerCore.Ledger
open LedgerCore.Program

/-- What no ledger operation changes in an account's row. -/
structure RowStays (r r' : AccountRow) : Prop where
  parentAccountID : r'.parentAccountID = r.parentAccountID
  normalBalance : r'.normalBalance = r.normalBalance
  currency : r'.currency = r.currency
  allowNegative : r'.allowNegative = r.allowNegative
  status : r'.status = r.status
  balance : r'.balance.allowNegative = r.balance.allowNegative

/-- What a shard has of its parent. -/
structure CopyOf (parent shard : AccountColumns) : Prop where
  normalBalance : shard.normalBalance = parent.normalBalance
  currency : shard.currency = parent.currency
  allowNegative : shard.allowNegative = parent.allowNegative
  status : shard.status = parent.status

/-- The parent that a row names is an account of its own, and the row is a copy of it. -/
def ParentCopied (db : DB) (a : AccountColumns) : Prop :=
  ∀ p, a.parentAccountID = some p →
    ∃ rp, db.accounts.find? p = some rp ∧ rp.parentAccountID = none ∧ CopyOf rp.toAccountColumns a

/-- The accounts before and after an operation. -/
structure Grows (db db' : DB) : Prop where
  kept : ∀ id r, db.accounts.find? id = some r →
    ∃ r', db'.accounts.find? id = some r' ∧ RowStays r r'
  new : ∀ id r', db'.accounts.find? id = some r' → db.accounts.find? id = none →
    r'.balance.allowNegative = r'.allowNegative ∧ ParentCopied db r'.toAccountColumns

/-- Every operation of a run meets the condition in the state where it is applied. -/
def EachOp {ω : Type} (apply : DB → ω → DB) (C : DB → ω → Prop) (db : DB) : List ω → Prop
  | [] => True
  | op :: ops => C db op ∧ EachOp apply C (apply db op) ops

variable {db db' db'' : DB}

theorem RowStays.refl (r : AccountRow) : RowStays r r := ⟨rfl, rfl, rfl, rfl, rfl, rfl⟩

theorem RowStays.trans {r r' r'' : AccountRow} (h : RowStays r r') (h' : RowStays r' r'') :
    RowStays r r'' :=
  ⟨h'.parentAccountID.trans h.parentAccountID, h'.normalBalance.trans h.normalBalance,
    h'.currency.trans h.currency, h'.allowNegative.trans h.allowNegative, h'.status.trans h.status,
    h'.balance.trans h.balance⟩

theorem Grows.refl (db : DB) : Grows db db :=
  ⟨fun _ r h => ⟨r, h, .refl r⟩, fun _ _ h h' => nomatch h'.symm.trans h⟩

theorem Grows.of_accounts (h : Grows db db') (ha : db''.accounts = db'.accounts) : Grows db db'' := by
  constructor
  · rw [ha]
    exact h.kept
  · rw [ha]
    exact h.new

theorem Grows.insertAccountRow {id : UUID} {a : AccountColumns} {now : Time} (h : Grows db db')
    (hins : Ledger.insertAccountRow id a now db' = .ok db'') (ha : ParentCopied db a) :
    Grows db db'' := by
  obtain ⟨row, accounts, hrow, hb, hi, rfl⟩ := insertAccountRow_eq_ok hins
  have hfresh := (Table.insert?_eq_some.1 hi).1
  constructor
  · intro id' r hr
    obtain ⟨r', hr', hstays⟩ := h.kept id' r hr
    have hne : id' ≠ id := by
      rintro rfl
      exact nomatch hfresh.symm.trans hr'
    exact ⟨r', by rw [Table.find?_insert hi, if_neg hne, hr'], hstays⟩
  · intro id' r' hr' hnone
    rw [Table.find?_insert hi] at hr'
    split_ifs at hr'
    · obtain rfl := Option.some.inj hr'
      rw [hb, hrow]
      exact ⟨rfl, ha⟩
    · exact h.new id' r' hr' hnone

theorem Committed.grows {t : Transaction} (h : Committed db db' t) : Grows db db' := by
  obtain ⟨p, hp⟩ := h.accounts
  constructor
  · intro id r hr
    obtain ⟨r', hr', hm⟩ := hp.rows id r hr
    have hcols := hm.columns
    exact ⟨r', hr', by rw [hcols], by rw [hcols], by rw [hcols], by rw [hcols], by rw [hcols],
      hm.allowNegative⟩
  · intro id r' hr' hnone
    obtain ⟨r, hr, -⟩ := hp.rows_of_after hr'
    exact nomatch hnone.symm.trans hr

theorem createAccount_grows {d : Draws} {id : UUID} {req : CreateAccountRequest} {a : Account}
    (h : createAccount d id req db = .ok (a, db')) : Grows db db' := by
  obtain ⟨_, db₁, _, hins, hparent, -, happend⟩ := createAccount_eq_ok h
  obtain ⟨outbox, -, rfl⟩ := Outbox.append_eq_ok happend
  refine ((Grows.refl db).insertAccountRow hins fun p hp => ?_).of_accounts rfl
  cases hparent.symm.trans hp

theorem shardedRow_stays (shards : ℕ) (r : AccountRow) : RowStays r (shardedRow shards r) := by
  unfold shardedRow
  split_ifs
  · exact ⟨rfl, rfl, rfl, rfl, rfl, rfl⟩
  · exact .refl r

theorem shardedRow_grows (db : DB) (id : UUID) (shards : ℕ) :
    Grows db { db with accounts := db.accounts.modify id (shardedRow shards) } := by
  constructor
  · intro id' r hr
    by_cases hid : id' = id
    · subst hid
      exact ⟨_, by rw [Table.find?_modify_self, hr]; rfl, shardedRow_stays shards r⟩
    · exact ⟨r, by rw [Table.find?_modify_of_ne _ hid, hr], .refl r⟩
  · intro id' r' hr' hnone
    rw [Table.find?_modify, hnone] at hr'
    split_ifs at hr'
    all_goals cases hr'

theorem ledgerShardAccount_grows {now : Time} {shardID : ℕ → UUID} {accountID : UUID} {shards : ℕ}
    (h : ledgerShardAccount now shardID accountID shards db = .ok db') : Grows db db' := by
  unfold ledgerShardAccount at h
  split_ifs at h
  split at h
  · cases h
  · next r hr =>
    split_ifs at h with hparent
    · cases h
      exact .refl db
    · -- Every shard is inserted with the columns that the parent had at the start.
      refine foldlM_eq_ok (fun _ (db' : DB) => Grows db db') h
        (shardedRow_grows db accountID shards) ?_
      intro done i rest db₁ db₂ _ hgrows hins
      refine hgrows.insertAccountRow hins fun p hp => ?_
      obtain rfl : accountID = p := Option.some.inj hp
      exact ⟨r, hr, not_not.1 hparent, rfl, rfl, rfl, rfl⟩

theorem LedgerOp.run_grows {op : LedgerOp} (h : op.run db = .ok db') : Grows db db' := by
  cases op with
  | createAccount d id req =>
    obtain ⟨⟨a, db₁⟩, hrun, rfl⟩ := map_eq_ok.1 h
    exact createAccount_grows hrun
  | shardAccount now shardID accountID shards => exact ledgerShardAccount_grows (mapError_eq_ok.1 h)
  | postTransaction d txID req hooks =>
    obtain ⟨⟨t, db₁⟩, hrun, rfl⟩ := map_eq_ok.1 h
    exact (postTransaction_committed hooks hrun).1.grows
  | reverseTransaction d reversalID txID reason idem record hooks =>
    obtain ⟨⟨t, db₁⟩, hrun, rfl⟩ := map_eq_ok.1 h
    exact (doReverse_committed hooks hrun).1.grows

theorem LedgerOp.apply_grows (op : LedgerOp) (db : DB) : Grows db (op.apply db) := by
  unfold LedgerOp.apply
  split
  · next db' hrun => exact run_grows hrun
  · exact .refl db

/-- Every shard's parent is an account that is no shard, and `P` holds of the two. -/
def Shards (P : AccountRow → AccountRow → Prop) (db : DB) : Prop :=
  ∀ id r p, db.accounts.find? id = some r → r.parentAccountID = some p →
    ∃ rp, db.accounts.find? p = some rp ∧ rp.parentAccountID = none ∧ P rp r

theorem shards_empty (P : AccountRow → AccountRow → Prop) : Shards P .empty :=
  fun _ _ _ h => nomatch h

/-- What the rows keep of each other, and a copy has of its parent, holds of shards ever after. -/
theorem Shards.grows {P : AccountRow → AccountRow → Prop} (hs : Shards P db) (h : Grows db db')
    (hkeep : ∀ rp rp' r r', RowStays rp rp' → RowStays r r' → P rp r → P rp' r')
    (hnew : ∀ rp rp' r, RowStays rp rp' → CopyOf rp.toAccountColumns r.toAccountColumns →
      r.balance.allowNegative = r.allowNegative → P rp' r) : Shards P db' := by
  intro id r' p hr' hp
  cases hr : db.accounts.find? id with
  | some r =>
    obtain ⟨r₁, hr₁, hstays⟩ := h.kept id r hr
    obtain rfl : r₁ = r' := Option.some.inj (hr₁.symm.trans hr')
    obtain ⟨rp, hrp, hnone, hP⟩ := hs id r p hr (hstays.parentAccountID ▸ hp)
    obtain ⟨rp', hrp', hstays'⟩ := h.kept p rp hrp
    exact ⟨rp', hrp', hstays'.parentAccountID.trans hnone, hkeep rp rp' r r₁ hstays' hstays hP⟩
  | none =>
    obtain ⟨hflag, hparent⟩ := h.new id r' hr' hr
    obtain ⟨rp, hrp, hnone, hcopy⟩ := hparent p hp
    obtain ⟨rp', hrp', hstays'⟩ := h.kept p rp hrp
    exact ⟨rp', hrp', hstays'.parentAccountID.trans hnone, hnew rp rp' r' hstays' hcopy hflag⟩

/-- A shard counts entries as its parent does. -/
structure SameKind (parent shard : AccountRow) : Prop where
  normalBalance : shard.normalBalance = parent.normalBalance
  currency : shard.currency = parent.currency

theorem Grows.sameKind (h : Grows db db') (hs : Shards SameKind db) : Shards SameKind db' := by
  refine hs.grows h (fun rp rp' r r' hp hr hP => ?_) fun rp rp' r hp hcopy _ => ?_
  · exact ⟨by rw [hr.normalBalance, hp.normalBalance, hP.normalBalance],
      by rw [hr.currency, hp.currency, hP.currency]⟩
  · exact ⟨by rw [hp.normalBalance, hcopy.normalBalance], by rw [hp.currency, hcopy.currency]⟩

theorem runOps_sameKind (ops : List LedgerOp) (h : Shards SameKind db) :
    Shards SameKind (runOps ops db) :=
  List.foldlRecOn ops LedgerOp.apply h fun db h op _ => (op.apply_grows db).sameKind h

end LedgerCore.Ledger
