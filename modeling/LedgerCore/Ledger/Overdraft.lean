import Mathlib.Algebra.Order.BigOperators.Group.List
import LedgerCore.Ledger.Shards

/-! The overdraft flag. It is copied to the balance row, and to each shard when an account is split;
an update of an account's flag reaches the account's own balance row alone. -/
namespace LedgerCore.Ledger
open LedgerCore.Program

/-- `UPDATE accounts SET allow_negative = $2 WHERE id = $1`, with the trigger
`accounts_sync_allow_negative`. -/
def setAllowNegative (now : Time) (id : UUID) (allowNegative : Bool) (db : DB) :
    Except PgError DB :=
  match db.accounts.find? id with
  | none => .ok db
  | some r =>
    if r.allowNegative = allowNegative then .ok db
    else do
      let balance ← BalanceColumns.check
        { r.balance.toBalanceColumns with allowNegative, updatedAt := now }
      pure { db with accounts := db.accounts.modify id fun r => { r with allowNegative, balance } }

/-- An operation of the ledger, or an operator's update of a flag. -/
inductive AdminOp where
  | ledger (op : LedgerOp)
  | setAllowNegative (now : Time) (id : UUID) (allowNegative : Bool)

namespace AdminOp

def apply (db : DB) : AdminOp → DB
  | .ledger op => op.apply db
  | .setAllowNegative now id allowNegative =>
    match Ledger.setAllowNegative now id allowNegative db with
    | .ok db' => db'
    | .error _ => db

/-- The update is of an account that is no shard. -/
def OnParent (db : DB) : AdminOp → Prop
  | .ledger _ => True
  | .setAllowNegative _ id _ =>
    ∀ r, db.accounts.find? id = some r → r.parentAccountID = none

/-- The update does not forbid overdrafts on an account that is split. -/
def SparesSplit (db : DB) : AdminOp → Prop
  | .ledger _ => True
  | .setAllowNegative _ id allowNegative => allowNegative = false →
    ∀ shard r, db.accounts.find? shard = some r → r.parentAccountID ≠ some id

end AdminOp

def runAdminOps (ops : List AdminOp) (db : DB) : DB := ops.foldl AdminOp.apply db

/-- Where an account may not be overdrawn, neither its balance row nor that of a shard may. -/
structure FlagsInStep (db : DB) : Prop where
  own : ∀ id r, db.accounts.find? id = some r → r.balance.allowNegative = r.allowNegative
  shards : Shards (fun parent shard => parent.allowNegative = false →
    shard.balance.allowNegative = false) db

theorem flagsInStep_empty : FlagsInStep .empty := ⟨fun _ _ h => (nomatch h), shards_empty _⟩

variable {db db' : DB}

theorem Grows.flagsInStep (h : Grows db db') (hf : FlagsInStep db) : FlagsInStep db' := by
  constructor
  · intro id r' hr'
    cases hr : db.accounts.find? id with
    | some r =>
      obtain ⟨r₁, hr₁, hstays⟩ := h.kept id r hr
      obtain rfl : r₁ = r' := Option.some.inj (hr₁.symm.trans hr')
      rw [hstays.balance, hstays.allowNegative, hf.own id r hr]
    | none => exact (h.new id r' hr' hr).1
  · refine hf.shards.grows h (fun rp rp' r r' hp hr hP hfalse => ?_)
      fun rp rp' r hp hcopy hflag hfalse => ?_
    · rw [hr.balance]
      exact hP (hp.allowNegative ▸ hfalse)
    · rw [hflag, hcopy.allowNegative, ← hp.allowNegative, hfalse]

theorem setAllowNegative_eq_ok {now : Time} {id : UUID} {allowNegative : Bool}
    (h : setAllowNegative now id allowNegative db = .ok db') :
    db' = db ∨ ∃ r r', db.accounts.find? id = some r ∧
      r'.parentAccountID = r.parentAccountID ∧ r'.allowNegative = allowNegative ∧
      r'.balance.allowNegative = allowNegative ∧
      ∀ id', db'.accounts.find? id' = if id' = id then some r' else db.accounts.find? id' := by
  unfold setAllowNegative at h
  split at h
  · exact .inl (Except.ok.inj h).symm
  · next r hr =>
    split_ifs at h
    · exact .inl (Except.ok.inj h).symm
    · obtain ⟨balance, hb, h⟩ := bind_eq_ok.1 h
      cases h
      have hcols := BalanceColumns.check_eq_ok.1 hb
      refine .inr ⟨r, { r with allowNegative, balance }, hr, rfl, rfl, by rw [hcols], fun id' => ?_⟩
      rw [Table.find?_modify]
      split_ifs with hid
      · rw [hid, hr]
        rfl
      · rfl

theorem setAllowNegative_flagsInStep {now : Time} {id : UUID} {allowNegative : Bool}
    (hparent : (AdminOp.setAllowNegative now id allowNegative).OnParent db)
    (hsplit : (AdminOp.setAllowNegative now id allowNegative).SparesSplit db)
    (h : setAllowNegative now id allowNegative db = .ok db') (hf : FlagsInStep db) :
    FlagsInStep db' := by
  rcases setAllowNegative_eq_ok h with rfl | ⟨r, r', hr, hp, hflag, hflag', hfind⟩
  · exact hf
  have hnone : r'.parentAccountID = none := hp.trans (hparent r hr)
  constructor
  · intro id₁ r₁ hr₁
    rw [hfind] at hr₁
    split_ifs at hr₁
    · obtain rfl := Option.some.inj hr₁
      rw [hflag, hflag']
    · exact hf.own id₁ r₁ hr₁
  · intro shard rs p hrs hps
    -- The updated account is no shard, so this row is another one.
    rw [hfind] at hrs
    split_ifs at hrs
    · obtain rfl := Option.some.inj hrs
      cases hnone.symm.trans hps
    · obtain ⟨rp, hrp, hrpnone, hstep⟩ := hf.shards shard rs p hrs hps
      by_cases hpid : p = id
      · subst hpid
        refine ⟨r', by rw [hfind, if_pos rfl], hnone, fun hfalse => ?_⟩
        exact absurd hps (hsplit (hflag.symm.trans hfalse) shard rs hrs)
      · exact ⟨rp, by rw [hfind, if_neg hpid, hrp], hrpnone, hstep⟩

theorem AdminOp.apply_flagsInStep {op : AdminOp} (hparent : op.OnParent db)
    (hsplit : op.SparesSplit db) (h : FlagsInStep db) : FlagsInStep (op.apply db) := by
  cases op with
  | ledger op => exact (op.apply_grows db).flagsInStep h
  | setAllowNegative now id allowNegative =>
    rw [AdminOp.apply]
    cases hrun : Ledger.setAllowNegative now id allowNegative db with
    | ok db' => exact setAllowNegative_flagsInStep hparent hsplit hrun h
    | error e => exact h

theorem runAdminOps_flagsInStep {ops : List AdminOp} (hparent : EachOp AdminOp.apply AdminOp.OnParent db ops)
    (hsplit : EachOp AdminOp.apply AdminOp.SparesSplit db ops) (h : FlagsInStep db) :
    FlagsInStep (runAdminOps ops db) := by
  induction ops generalizing db with
  | nil => exact h
  | cons op ops ih =>
    exact ih hparent.2 hsplit.2 (AdminOp.apply_flagsInStep hparent.1 hsplit.1 h)

theorem FlagsInStep.logicalSum_nonneg (h : FlagsInStep db) {id : UUID} {r : AccountRow}
    (hr : db.accounts.find? id = some r) (hflag : r.allowNegative = false) :
    0 ≤ logicalSum (fun b => b.availableMinor.toInt) id db := by
  refine List.sum_nonneg fun n hn => ?_
  obtain ⟨⟨k, rk⟩, hk, rfl⟩ := List.mem_map.1 hn
  obtain ⟨hrk, hid⟩ := mem_physical.1 hk
  have hforbidden : rk.balance.allowNegative = false := by
    rcases hid with rfl | hparent
    · obtain rfl : r = rk := Option.some.inj (hr.symm.trans hrk)
      rw [h.own k r hrk, hflag]
    · obtain ⟨rp, hrp, -, hstep⟩ := h.shards k rk id hrk hparent
      obtain rfl : r = rp := Option.some.inj (hr.symm.trans hrp)
      exact hstep hflag
  have hcheck := rk.balance.no_overdraft_check.resolve_left (by simp [hforbidden])
  rw [Int64.le_iff_toInt_le, toInt_zero] at hcheck
  exact hcheck

/-- Where no update forbids overdrafts on an account that is split already, the balance of an
account that may not be overdrawn is not negative. -/
theorem logical_balance_nonneg {db₀ : DB} (h₀ : FlagsInStep db₀) {ops : List AdminOp}
    (hparent : EachOp AdminOp.apply AdminOp.OnParent db₀ ops) (hsplit : EachOp AdminOp.apply AdminOp.SparesSplit db₀ ops)
    {id : UUID} {r : AccountRow} (hr : (runAdminOps ops db₀).accounts.find? id = some r)
    (hflag : r.allowNegative = false) {b : Balance}
    (hb : getBalance id (runAdminOps ops db₀) = .ok b) : 0 ≤ b.available.amountMinor := by
  have hnonneg := (runAdminOps_flagsInStep hparent hsplit h₀).logicalSum_nonneg hr hflag
  obtain ⟨-, -, -, -, -, hsum, -⟩ := getBalance_eq_ok hb
  rw [Int64.le_iff_toInt_le, toInt_zero, hsum]
  exact hnonneg

def sampleRequest (debit credit : UUID) (amount : Int64) : TransactionRequest where
  principalID := "p"
  type := .payin
  externalRef := none
  metadata := []
  entries := [⟨debit, .debit, ⟨amount, "INR"⟩⟩, ⟨credit, .credit, ⟨amount, "INR"⟩⟩]
  idempotencyKey := none
  idempotency := none
  record := none

/-- A float with an overdraft and a bank account are opened, and the float is split in two. -/
def sampleSplit : List LedgerOp :=
  [.createAccount (sampleDraws 0) 1 ⟨"float", .asset, "INR", none, true⟩,
   .createAccount (sampleDraws 1) 2 ⟨"bank", .asset, "INR", none, false⟩,
   .shardAccount 3 (fun i => BitVec.ofNat 128 (10 + i)) 1 2]

def sampleFunding : AdminOp :=
  .ledger (.postTransaction (sampleDraws 2) 3 (sampleRequest 2 1 500) recording_none)

/-- Overdrafts on the float are forbidden before it is split, and it is funded from the bank
account, where they are allowed now. -/
def sampleForbidden : List AdminOp :=
  (sampleSplit.take 2).map .ledger ++ [.setAllowNegative 4 1 false, .setAllowNegative 5 2 true] ++
    (sampleSplit.drop 2).map .ledger ++
    [.ledger (.postTransaction (sampleDraws 2) 3 (sampleRequest 1 2 500) recording_none)]

theorem logical_balance_nonneg_sample :
    ∃ b, getBalance 1 (runAdminOps sampleForbidden .empty) = .ok b ∧
      (physical 1 (runAdminOps sampleForbidden .empty)).length = 3 ∧
      b.available.amountMinor = 500 ∧ 0 ≤ b.available.amountMinor := by
  have hbalance : (getBalance 1 (runAdminOps sampleForbidden .empty)).map
      (fun b => b.available.amountMinor) = .ok 500 := by decide +kernel
  have hflag : ((runAdminOps sampleForbidden .empty).accounts.find? 1).map
      (fun r => r.allowNegative) = some false := by decide +kernel
  have hopened : (runAdminOps ((sampleSplit.take 2).map .ledger) .empty).accounts.rows.all
      (fun x => x.2.parentAccountID = none) = true := by decide +kernel
  have hchanged : ((runAdminOps (sampleForbidden.take 3) .empty).accounts.find? 2).all
      (fun r => r.parentAccountID = none) = true := by decide +kernel
  have hnone : ∀ id r, (runAdminOps ((sampleSplit.take 2).map .ledger) .empty).accounts.find? id =
      some r → r.parentAccountID = none := fun id r hr =>
    of_decide_eq_true (List.all_eq_true.1 hopened _ (Table.find?_eq_some.1 hr))
  have hparent : EachOp AdminOp.apply AdminOp.OnParent .empty sampleForbidden :=
    ⟨trivial, trivial, hnone 1,
      fun r hr => of_decide_eq_true ((Option.all_eq_true ..).1 hchanged r hr), trivial, trivial,
      trivial⟩
  have hsplit : EachOp AdminOp.apply AdminOp.SparesSplit .empty sampleForbidden :=
    ⟨trivial, trivial, fun _ shard r hr => by simp [hnone shard r hr], (fun h => by cases h),
      trivial, trivial, trivial⟩
  obtain ⟨b, hb, hamount⟩ := map_eq_ok.1 hbalance
  obtain ⟨r, hr, hr'⟩ := Option.map_eq_some_iff.1 hflag
  exact ⟨b, hb, by decide +kernel, hamount,
    logical_balance_nonneg flagsInStep_empty hparent hsplit hr hr' hb⟩

/-- The float's flag is cleared between the split and the funding. Its shard is overdrawn. -/
theorem logical_balance_negative :
    let ops := sampleSplit.map .ledger ++ [.setAllowNegative 4 1 false, sampleFunding]
    EachOp AdminOp.apply AdminOp.OnParent .empty ops ∧
      ((runAdminOps ops .empty).accounts.find? 1).map (fun r => r.allowNegative) = some false ∧
      (getBalance 1 (runAdminOps ops .empty)).map (fun b => b.available.amountMinor) = .ok (-500) := by
  refine ⟨⟨trivial, trivial, trivial, fun r hr => ?_, trivial, trivial⟩, ?_, ?_⟩
  · have hnone : ((runAdminOps (sampleSplit.map .ledger) .empty).accounts.find? 1).all
        (fun r => r.parentAccountID = none) = true := by decide +kernel
    exact of_decide_eq_true ((Option.all_eq_true ..).1 hnone r hr)
  · decide +kernel
  · decide +kernel

end LedgerCore.Ledger
