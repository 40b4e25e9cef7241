import LedgerCore.Program.Alike
import LedgerCore.Ledger.Deadlocks
import LedgerCore.Ledger.Lasting

/-! The order of a request's entries: validation and the sums over accounts do not depend on it,
and no sum overflows once validation has passed. -/
namespace LedgerCore.Ledger
open LedgerCore.Program

/-- An entry that validation accepts in a transaction of the currency. -/
structure EntryRequest.Admissible (currency : String) (e : EntryRequest) : Prop where
  account : e.accountID ≠ UUID.nil
  direction : e.direction.Valid
  positive : 0 < e.amount.amountMinor
  currency : e.amount.currency = currency

theorem EntryRequest.Admissible.pos {currency : String} {e : EntryRequest}
    (h : e.Admissible currency) : 0 < e.amount.amountMinor.toInt := by
  simpa [Int64.lt_iff_toInt_lt, toInt_zero] using h.positive

/-- What a request must be for its validation to pass. -/
structure TransactionRequest.Admissible (r : TransactionRequest) : Prop where
  type : r.type.Valid
  two : 2 ≤ r.entries.length
  entries : ∃ currency, currencyPattern currency ∧ ∀ e ∈ r.entries, e.Admissible currency
  balanced : sideTotal .debit (r.entries.map EntryRequest.leg) =
    sideTotal .credit (r.entries.map EntryRequest.leg)
  fits : sideTotal .debit (r.entries.map EntryRequest.leg) < 2 ^ 63

/-- A total after an entry on one of the sides. -/
def Money.Grows (currency : String) (total total' : Money) (amount : ℤ) : Prop :=
  total'.currency = currency ∧ total'.amountMinor.toInt = total.amountMinor.toInt + amount

theorem Money.ext_iff_toInt {m n : Money} :
    m = n ↔ m.currency = n.currency ∧ m.amountMinor.toInt = n.amountMinor.toInt := by
  constructor
  · rintro rfl
    exact ⟨rfl, rfl⟩
  · obtain ⟨a, c⟩ := m
    obtain ⟨b, d⟩ := n
    rintro ⟨rfl, h⟩
    obtain rfl : a = b := Int64.toInt_inj.1 h
    rfl

section Totals
variable {currency : String} {totals totals' : Money × Money}

theorem Money.grows_zero {total total' : Money} (h : total.currency = currency) :
    Money.Grows currency total total' 0 ↔ total' = total := by
  rw [Money.Grows, Money.ext_iff_toInt, h, add_zero]

theorem Money.add_eq_ok_iff_grows {total total' m : Money} (h : total.currency = currency)
    (hm : m.currency = currency) :
    total.add m = .ok total' ↔ Money.Grows currency total total' m.amountMinor.toInt := by
  rw [Money.add_eq_ok, Money.Grows, h, hm]
  simp only [true_and]

theorem validateEntry_iff {e : EntryRequest} {i : ℕ} (hpattern : currencyPattern currency)
    (hdebits : totals.1.currency = currency) (hcredits : totals.2.currency = currency) :
    validateEntry currency totals (e, i) = .ok totals' ↔ e.Admissible currency ∧
      Money.Grows currency totals.1 totals'.1
        (if e.direction = .debit then e.amount.amountMinor.toInt else 0) ∧
      Money.Grows currency totals.2 totals'.2
        (if e.direction = .credit then e.amount.amountMinor.toInt else 0) := by
  obtain ⟨debits, credits⟩ := totals
  obtain ⟨debits', credits'⟩ := totals'
  dsimp only at hdebits hcredits ⊢
  -- The checks come first, and then the sum on the entry's side.
  have hsum (h : e.Admissible currency) :
      (if e.direction = .debit then do
        let debits ← (debits.add e.amount).mapError (Error.wrap s!"total entry {i}")
        pure (debits, credits)
      else do
        let credits ← (credits.add e.amount).mapError (Error.wrap s!"total entry {i}")
        pure (debits, credits) : Except Error (Money × Money)) = .ok (debits', credits') ↔
      Money.Grows currency debits debits'
        (if e.direction = .debit then e.amount.amountMinor.toInt else 0) ∧
      Money.Grows currency credits credits'
        (if e.direction = .credit then e.amount.amountMinor.toInt else 0) := by
    rcases Direction.valid_iff.1 h.direction with hside | hside
    · simp only [hside, if_true, reduceCtorEq, if_false, Money.grows_zero hcredits,
        ← Money.add_eq_ok_iff_grows hdebits h.currency]
      constructor
      · intro hrun
        obtain ⟨sum, hadd, hrun⟩ := bind_eq_ok.1 hrun
        cases hrun
        exact ⟨mapError_eq_ok.1 hadd, rfl⟩
      · rintro ⟨hadd, rfl⟩
        exact bind_eq_ok.2 ⟨_, mapError_eq_ok.2 hadd, rfl⟩
    · simp only [hside, if_true, reduceCtorEq, if_false, Money.grows_zero hdebits,
        ← Money.add_eq_ok_iff_grows hcredits h.currency]
      constructor
      · intro hrun
        obtain ⟨sum, hadd, hrun⟩ := bind_eq_ok.1 hrun
        cases hrun
        exact ⟨rfl, mapError_eq_ok.1 hadd⟩
      · rintro ⟨rfl, hadd⟩
        exact bind_eq_ok.2 ⟨_, mapError_eq_ok.2 hadd, rfl⟩
  constructor
  · intro h
    obtain ⟨_, haccount, h⟩ := bind_eq_ok.1 h
    obtain ⟨_, hdirection, h⟩ := bind_eq_ok.1 h
    obtain ⟨_, -, h⟩ := bind_eq_ok.1 h
    obtain ⟨_, hpositive, h⟩ := bind_eq_ok.1 h
    obtain ⟨_, hcurrency, h⟩ := bind_eq_ok.1 h
    have hadmissible : e.Admissible currency :=
      ⟨failIf_eq_ok.1 haccount, by simpa using failIf_eq_ok.1 hdirection,
        Int64.not_le.1 (failIf_eq_ok.1 hpositive), not_not.1 (failIf_eq_ok.1 hcurrency)⟩
    exact ⟨hadmissible, (hsum hadmissible).1 h⟩
  · rintro ⟨h, hgrows⟩
    refine bind_eq_ok.2 ⟨(), failIf_eq_ok.2 h.account, bind_eq_ok.2 ⟨(), failIf_eq_ok.2 ?_,
      bind_eq_ok.2 ⟨(), mapError_eq_ok.2 ?_, bind_eq_ok.2 ⟨(), failIf_eq_ok.2 ?_,
      bind_eq_ok.2 ⟨(), failIf_eq_ok.2 ?_, (hsum h).2 hgrows⟩⟩⟩⟩⟩
    · simp [h.direction]
    · rw [Money.validate, h.currency, if_pos hpattern]
    · exact Int64.not_le.2 h.positive
    · exact not_not.2 h.currency

theorem sideTotal_nonneg {side : Direction} {entries : List EntryRequest}
    (h : ∀ e ∈ entries, e.Admissible currency) :
    0 ≤ sideTotal side (entries.map EntryRequest.leg) := by
  refine List.sum_nonneg fun x hx => ?_
  obtain ⟨leg, hleg, rfl⟩ := List.mem_map.1 hx
  obtain ⟨e, he, rfl⟩ := List.mem_map.1 hleg
  have hpos := (h e he).pos
  dsimp only [EntryRequest.leg]
  split_ifs <;> omega

theorem Money.grows_trans {total mid total' : Money} {a b : ℤ} (h : Money.Grows currency total mid a)
    (h' : Money.Grows currency mid total' b) : Money.Grows currency total total' (a + b) :=
  ⟨h'.1, by rw [h'.2, h.2, add_assoc]⟩

theorem Money.exists_grows {total total' : Money} {a b : ℤ} (ha : 0 ≤ a) (hb : 0 ≤ b)
    (h : Money.Grows currency total total' (a + b)) :
    ∃ mid, Money.Grows currency total mid a ∧ Money.Grows currency mid total' b := by
  have hlo := total.amountMinor.le_toInt
  have hhi := total'.amountMinor.toInt_lt
  rw [h.2] at hhi
  have hmid : (Int64.ofInt (total.amountMinor.toInt + a)).toInt = total.amountMinor.toInt + a :=
    Int64.toInt_ofInt_of_le (by omega) (by omega)
  refine ⟨⟨Int64.ofInt (total.amountMinor.toInt + a), currency⟩, ⟨rfl, hmid⟩, h.1, ?_⟩
  rw [h.2, hmid, add_assoc]

/-- The running sums pass if and only if the totals fit: every sum on the way is smaller. -/
theorem validateEntries_iff {entries : List EntryRequest} {i : ℕ}
    (hpattern : currencyPattern currency) (hdebits : totals.1.currency = currency)
    (hcredits : totals.2.currency = currency) :
    (entries.zipIdx i).foldlM (validateEntry currency) totals = .ok totals' ↔
      (∀ e ∈ entries, e.Admissible currency) ∧
      Money.Grows currency totals.1 totals'.1 (sideTotal .debit (entries.map EntryRequest.leg)) ∧
      Money.Grows currency totals.2 totals'.2 (sideTotal .credit (entries.map EntryRequest.leg)) := by
  induction entries generalizing totals i with
  | nil =>
    have hzero (side : Direction) : sideTotal side ([].map EntryRequest.leg) = 0 := rfl
    rw [hzero, hzero, Money.grows_zero hdebits, Money.grows_zero hcredits, ← Prod.ext_iff]
    simp [Pure.pure, Except.pure, eq_comm]
  | cons e entries ih =>
    rw [List.zipIdx_cons, List.foldlM_cons, bind_eq_ok, List.map_cons, sideTotal_cons,
      sideTotal_cons]
    constructor
    · rintro ⟨mid, hstep, hrest⟩
      obtain ⟨he, hd, hc⟩ := (validateEntry_iff hpattern hdebits hcredits).1 hstep
      obtain ⟨hentries, hd', hc'⟩ := (ih hd.1 hc.1).1 hrest
      exact ⟨List.forall_mem_cons.2 ⟨he, hentries⟩, Money.grows_trans hd hd',
        Money.grows_trans hc hc'⟩
    · rintro ⟨hall, hd, hc⟩
      obtain ⟨he, hentries⟩ := List.forall_mem_cons.1 hall
      have hamount (side : Direction) :
          0 ≤ if e.leg.1 = side then e.leg.2.amountMinor.toInt else 0 := by
        have hpos := he.pos
        dsimp only [EntryRequest.leg]
        split_ifs <;> omega
      obtain ⟨debits, hd, hd'⟩ := Money.exists_grows (hamount _) (sideTotal_nonneg hentries) hd
      obtain ⟨credits, hc, hc'⟩ := Money.exists_grows (hamount _) (sideTotal_nonneg hentries) hc
      exact ⟨(debits, credits), (validateEntry_iff hpattern hdebits hcredits).2 ⟨he, hd, hc⟩,
        (ih hd.1 hc.1).2 ⟨hentries, hd', hc'⟩⟩

end Totals

/-- Validation accepts what is admissible, and nothing else. -/
theorem TransactionRequest.validate_iff {r : TransactionRequest} :
    r.validate = .ok () ↔ r.Admissible := by
  have hcurrency : ∀ currency, (∀ e ∈ r.entries, e.Admissible currency) → 2 ≤ r.entries.length →
      (r.entries.head?.map fun e => e.amount.currency).getD "" = currency := by
    intro currency hentries htwo
    cases hlist : r.entries with
    | nil => simp [hlist] at htwo
    | cons e entries => exact (hentries e (hlist ▸ List.mem_cons_self)).currency
  constructor
  · intro h
    obtain ⟨_, htype, h⟩ := bind_eq_ok.1 h
    obtain ⟨_, htwo, h⟩ := bind_eq_ok.1 h
    obtain ⟨zero, hzero, h⟩ := bind_eq_ok.1 h
    obtain ⟨⟨debits, credits⟩, hfold, hequal⟩ := bind_eq_ok.1 h
    obtain ⟨hpattern, rfl⟩ := newMoney_eq_ok.1 hzero
    obtain ⟨hentries, hd, hc⟩ := (validateEntries_iff hpattern rfl rfl).1 hfold
    have hd := hd.2
    have hc := hc.2
    rw [toInt_zero, zero_add] at hd hc
    obtain rfl : debits = credits := not_not.1 (failIf_eq_ok.1 hequal)
    exact ⟨by simpa using failIf_eq_ok.1 htype, not_lt.1 (failIf_eq_ok.1 htwo),
      ⟨_, hpattern, hentries⟩, hd.symm.trans hc, hd ▸ debits.amountMinor.toInt_lt⟩
  · rintro ⟨htype, htwo, ⟨currency, hpattern, hentries⟩, hbalanced, hfits⟩
    obtain rfl := hcurrency currency hentries htwo
    have hnonneg : 0 ≤ sideTotal .debit (r.entries.map EntryRequest.leg) :=
      sideTotal_nonneg hentries
    have htotal : (Int64.ofInt (sideTotal .debit (r.entries.map EntryRequest.leg))).toInt =
        sideTotal .debit (r.entries.map EntryRequest.leg) :=
      Int64.toInt_ofInt_of_le (by omega) hfits
    refine bind_eq_ok.2 ⟨(), failIf_eq_ok.2 (by simp [htype]), bind_eq_ok.2 ⟨(),
      failIf_eq_ok.2 (not_lt.2 htwo), bind_eq_ok.2 ⟨_, newMoney_eq_ok.2 ⟨hpattern, rfl⟩,
      bind_eq_ok.2 ⟨(⟨Int64.ofInt (sideTotal .debit (r.entries.map EntryRequest.leg)), _⟩,
        ⟨Int64.ofInt (sideTotal .debit (r.entries.map EntryRequest.leg)), _⟩),
        (validateEntries_iff hpattern rfl rfl).2 ⟨hentries, ⟨rfl, ?_⟩, rfl, ?_⟩,
        failIf_eq_ok.2 (not_not.2 rfl)⟩⟩⟩⟩
    · rw [htotal, toInt_zero, zero_add]
    · rw [htotal, toInt_zero, zero_add, hbalanced]

theorem TransactionRequest.Admissible.perm {r r' : TransactionRequest} (h : r.Admissible)
    (htype : r'.type = r.type) (hperm : r'.entries.Perm r.entries) : r'.Admissible := by
  obtain ⟨currency, hpattern, hentries⟩ := h.entries
  have hlegs := hperm.map EntryRequest.leg
  refine ⟨htype ▸ h.type, hperm.length_eq ▸ h.two, ⟨currency, hpattern, fun e he => ?_⟩, ?_, ?_⟩
  · exact hentries e (hperm.mem_iff.1 he)
  · rw [sideTotal_perm hlegs, sideTotal_perm hlegs, h.balanced]
  · rw [sideTotal_perm hlegs]
    exact h.fits

section Perm
variable {entries entries' : List EntryRequest}

theorem sortedAccountIDs_perm (h : entries'.Perm entries) :
    sortedAccountIDs entries' = sortedAccountIDs entries := by
  have hperm : (sortedAccountIDs entries').Perm (sortedAccountIDs entries) := by
    refine (List.perm_ext_iff_of_nodup (sortedAccountIDs_nodup _) (sortedAccountIDs_nodup _)).2
      fun id => ?_
    simp only [mem_sortedAccountIDs, h.mem_iff]
  refine hperm.eq_of_pairwise (fun a b _ _ hab hba => ?_) (sortedAccountIDs_ascending _)
    (sortedAccountIDs_ascending _)
  exact absurd hab (BitVec.lt_asymm hba)

theorem routed_perm (h : entries'.Perm entries) (d : Draws) (db : DB) :
    (routed d entries' db).Perm (routed d entries db) := by
  have hsame : routedAccount d entries' db = routedAccount d entries db := by
    funext id
    rw [routedAccount, sortedAccountIDs_perm h, routedAccount]
  rw [routed, hsame]
  exact h.map _

theorem lockAndValidate_perm {now : Time} {s s' : TxState} {accounts : AccountMap}
    (h : entries'.Perm entries)
    (hlock : (lockAndValidate (sortedAccountIDs entries) entries).run (exec now) s =
      .ok (accounts, s')) :
    (lockAndValidate (sortedAccountIDs entries') entries').run (exec now) s = .ok (accounts, s') := by
  rw [sortedAccountIDs_perm h]
  obtain ⟨locked, s₁, hl, hlock⟩ := Prog.run_perform_bind_ok.1 hlock
  obtain ⟨_, hpostable, hlock⟩ := Prog.run_ofExcept_bind_ok.1 hlock
  obtain ⟨_, hcurrency, hlock⟩ := Prog.run_ofExcept_bind_ok.1 hlock
  refine Prog.run_perform_bind_ok.2 ⟨locked, s₁, hl, Prog.run_ofExcept_bind_ok.2 ⟨(), hpostable,
    Prog.run_ofExcept_bind_ok.2 ⟨(), forM_eq_ok.2 fun x hx => ?_, hlock⟩⟩⟩
  -- The check of an entry's currency reads its index for the error's text only.
  obtain ⟨e, i⟩ := x
  obtain ⟨j, hj⟩ := List.mem_iff_getElem?.1 (h.mem_iff.1 (List.fst_mem_of_mem_zipIdx hx))
  have hchecked := checkCurrency_eq_ok
    (forM_eq_ok.1 hcurrency (e, j) (List.mem_zipIdx_iff_getElem?.2 hj))
  exact if_pos hchecked

theorem netOn_perm (h : entries'.Perm entries) (normalBalance : Direction) (id : UUID) :
    netOn normalBalance id entries' = netOn normalBalance id entries :=
  ((h.filter _).map _).sum_eq

theorem Sized.perm (hsized : Sized entries) (h : entries'.Perm entries) : Sized entries' := by
  have hlegs := h.map EntryRequest.leg
  refine ⟨fun e he => hsized.entries e (h.mem_iff.1 he), ?_, ?_⟩
  · rw [sideTotal_perm hlegs]
    exact hsized.debits
  · rw [sideTotal_perm hlegs]
    exact hsized.credits

end Perm

/-- A balance, but for the entry that was the last on it. -/
def unstampedBalance (b : BalanceRow) : BalanceColumns :=
  { b.toBalanceColumns with lastEntryID := none }

def unstamped (r : AccountRow) : AccountColumns × BalanceColumns :=
  (r.toAccountColumns, unstampedBalance r.balance)

def SameBalances (s s' : TxState) : Prop :=
  ∀ id, (s.db.accounts.find? id).map unstamped = (s'.db.accounts.find? id).map unstamped

section Balances
variable {now : Time} {s s' : TxState} {id : UUID} {delta version : Int64} {e e' : UUID}

theorem balanceAfter_unstamped {b b' : BalanceRow}
    (hb : unstampedBalance b = unstampedBalance b') :
    (applyBalanceDelta.balanceAfter now ⟨id, delta, version, e⟩ b).map unstampedBalance =
      (applyBalanceDelta.balanceAfter now ⟨id, delta, version, e'⟩ b').map unstampedBalance := by
  obtain ⟨⟨available, pending, allowNegative, last, v, updatedAt⟩, _, _, _⟩ := b
  obtain ⟨⟨available', pending', allowNegative', last', v', updatedAt'⟩, _, _, _⟩ := b'
  simp only [unstampedBalance, BalanceColumns.mk.injEq] at hb
  obtain ⟨rfl, rfl, rfl, -, rfl, rfl⟩ := hb
  unfold applyBalanceDelta.balanceAfter BalanceColumns.check
  dsimp only
  split
  · split_ifs <;> rfl
  · rfl

theorem sameBalances_modify {r r' : AccountRow} {row row' : BalanceRow}
    (hs : SameBalances s s') (hr : s.db.accounts.find? id = some r)
    (hr' : s'.db.accounts.find? id = some r') (hrow : unstampedBalance row = unstampedBalance row') :
    SameBalances
      { s with db := { s.db with
        accounts := s.db.accounts.modify id fun r => { r with balance := row } } }
      { s' with db := { s'.db with
        accounts := s'.db.accounts.modify id fun r => { r with balance := row' } } } := by
  intro id'
  have hid' := hs id'
  dsimp only
  rw [Table.find?_modify, Table.find?_modify]
  split_ifs with hid
  · subst hid
    rw [hr, hr'] at hid' ⊢
    have hcolumns := (Prod.mk.inj (Option.some.inj hid')).1
    exact congrArg some (Prod.ext hcolumns hrow)
  · exact hid'

theorem exec_applyBalanceDelta_alike (hs : SameBalances s s') :
    Alike SameBalances (exec now (.applyBalanceDelta ⟨id, delta, version, e⟩) s)
      (exec now (.applyBalanceDelta ⟨id, delta, version, e'⟩) s') := by
  have hrow := hs id
  simp only [exec, applyBalanceDelta]
  cases hr : s.db.accounts.find? id with
  | none =>
    rw [hr] at hrow
    have hr' : s'.db.accounts.find? id = none := by simpa using hrow.symm
    rw [hr']
    exact .error _
  | some r =>
    rw [hr] at hrow
    obtain ⟨r', hr', hsame⟩ := Option.map_eq_some_iff.1 hrow.symm
    obtain ⟨hcolumns, hbalance⟩ := Prod.mk.inj hsame
    have hversion : r'.balance.version = r.balance.version := (BalanceColumns.mk.inj hbalance).2.2.2.2.1
    have hcurrency : r'.currency = r.currency := congrArg AccountColumns.currency hcolumns
    have hafter :
        (applyBalanceDelta.balanceAfter now ⟨id, delta, version, e⟩ r.balance).map unstampedBalance =
        (applyBalanceDelta.balanceAfter now ⟨id, delta, version, e'⟩ r'.balance).map
          unstampedBalance :=
      balanceAfter_unstamped hbalance.symm
    rw [hr', Option.filter_some, Option.filter_some, hversion]
    split_ifs with hcurrent
    · dsimp only
      rw [hcurrency]
      obtain ⟨err, hx, hx'⟩ | ⟨row, row', hx, hx', hrows⟩ := map_eq_map hafter
      · rw [hx, hx']
        exact .error _
      · rw [hx, hx']
        obtain ⟨havailable, hpending, -, -, hnext, hupdated⟩ := BalanceColumns.mk.inj hrows
        simp only [mapped, Except.mapError, applyBalanceDelta.balanceMoney, newMoney_account, bind,
          Except.bind, pure, Except.pure, Except.map, havailable, hpending, hnext, hupdated]
        exact .ok (sameBalances_modify hs hr hr' hrows)
    · exact .error _

theorem applyBalance_alike {accounts : AccountMap} {g g' : Aggregate} (hs : SameBalances s s')
    (hg : g.deltas id = g'.deltas id) :
    Alike SameBalances ((applyBalance accounts g id).run (exec now) s)
      ((applyBalance accounts g' id).run (exec now) s') := by
  unfold applyBalance
  rw [hg]
  refine Prog.alike_bind (Prog.alike_ofExcept hs _) fun _ s s' hs => ?_
  refine Prog.alike_bind ?_ fun _ s s' hs => .ok hs
  simp only [Tx.applyBalanceDelta, Prog.run_perform]
  exact exec_applyBalanceDelta_alike hs

end Balances

def sumsOf (d : Draws) (txID : UUID) (requests : List EntryRequest) (accounts : AccountMap) :
    Except Error Aggregate :=
  (postedEntries d txID requests).foldlM (aggregateEntry accounts) .zero

/-- `applyEntries` over the entries of a request as they are stored. -/
def applyStored (d : Draws) (txID : UUID) (requests : List EntryRequest) (accounts : AccountMap) :
    TxM (List EventBalance) :=
  applyEntries (postedEntries d txID requests) accounts (sortedAccountIDs requests)

section Requests
variable {d : Draws} {requests requests' : List EntryRequest} {accounts : AccountMap}
  {s s' : TxState}

theorem sums_perm (hperm : requests'.Perm requests) (hsized : Sized requests)
    (hlock : (lockAndValidate (sortedAccountIDs requests) requests).run (exec d.now) s =
      .ok (accounts, s')) (txID txID' : UUID) :
    ∃ g g', sumsOf d txID requests accounts = .ok g ∧
      sumsOf d txID' requests' accounts = .ok g' ∧ g'.deltas = g.deltas := by
  obtain ⟨g, hg⟩ := aggregate_locked hsized hlock txID
  obtain ⟨g', hg'⟩ := aggregate_locked (hsized.perm hperm) (lockAndValidate_perm hperm hlock) txID'
  refine ⟨g, g', hg, hg', funext fun id => Int64.toInt_inj.1 ?_⟩
  rw [(aggregate_eq_ok hg id).1, (aggregate_eq_ok hg' id).1, signedTotal_postedEntries,
    signedTotal_postedEntries, netOn_perm hperm]

theorem applyStored_alike {txID txID' : UUID} {g g' : Aggregate}
    (hg : sumsOf d txID requests accounts = .ok g)
    (hg' : sumsOf d txID' requests' accounts = .ok g') (hdeltas : g'.deltas = g.deltas)
    (hperm : requests'.Perm requests) (hs : SameBalances s s') :
    Alike SameBalances ((applyStored d txID requests accounts).run (exec d.now) s)
      ((applyStored d txID' requests' accounts).run (exec d.now) s') := by
  unfold sumsOf at hg hg'
  rw [applyStored, applyEntries, hg, applyStored, applyEntries, hg', sortedAccountIDs_perm hperm]
  refine Prog.alike_mapM' hs fun id _ s s' hs => ?_
  exact applyBalance_alike hs (congrFun hdeltas id).symm

end Requests

/-- The order of a request's entries decides nothing about money. Validation accepts the entries in
every order or in none. If it does, then in every ledger the accounts are locked for one order as
for the other, the sums of `applyEntries` do not overflow and are the same for every account, and
`applyEntries` refuses for the same reason or leaves the same balances. Nor do the sums of a
reversal overflow, whichever transaction of a ledger it reverses. -/
theorem entry_order_irrelevant {r r' : TransactionRequest} (htype : r'.type = r.type)
    (hperm : r'.entries.Perm r.entries) :
    (r'.validate = .ok () ↔ r.validate = .ok ()) ∧
    (r.validate = .ok () → ∀ d db accounts s₁,
      (lockAndValidate (sortedAccountIDs (routed d r.entries db)) (routed d r.entries db)).run
        (exec d.now) ⟨db, []⟩ = .ok (accounts, s₁) →
      (lockAndValidate (sortedAccountIDs (routed d r'.entries db)) (routed d r'.entries db)).run
        (exec d.now) ⟨db, []⟩ = .ok (accounts, s₁) ∧
      ∀ txID txID',
        (∃ g g', sumsOf d txID (routed d r.entries db) accounts = .ok g ∧
          sumsOf d txID' (routed d r'.entries db) accounts = .ok g' ∧ g'.deltas = g.deltas) ∧
        ∀ s s', SameBalances s s' →
          Alike SameBalances ((applyStored d txID (routed d r.entries db) accounts).run (exec d.now) s)
            ((applyStored d txID' (routed d r'.entries db) accounts).run (exec d.now) s')) ∧
    ∀ db, Relation.ReflTransGen Evolves .empty db → ∀ txID original,
      loadTransactionForUpdate txID db = .ok original → ∀ d reversalID accounts s s',
      (lockAndValidate (sortedAccountIDs (mirrored original.entries)) (mirrored original.entries)).run
        (exec d.now) s = .ok (accounts, s') →
      ∃ g, sumsOf d reversalID (mirrored original.entries) accounts = .ok g := by
  refine ⟨?_, fun hvalid d db accounts s₁ hlock => ?_, fun db hreach txID original hload => ?_⟩
  · rw [TransactionRequest.validate_iff, TransactionRequest.validate_iff]
    exact ⟨fun h => h.perm htype.symm hperm.symm, fun h => h.perm htype hperm⟩
  · have hrouted := routed_perm hperm d db
    refine ⟨lockAndValidate_perm hrouted hlock, fun txID txID' => ?_⟩
    obtain ⟨g, g', hg, hg', hdeltas⟩ := sums_perm hrouted
      (TransactionRequest.validate_sized hvalid d) hlock txID txID'
    exact ⟨⟨g, g', hg, hg', hdeltas⟩, fun s s' hs =>
      applyStored_alike hg hg' hdeltas hrouted hs⟩
  · intro d reversalID accounts s s' hlock
    have hregular := (evolves_regular hreach regular_empty).1
    exact aggregate_locked (mirrored_sized hload hregular.doubleEntries hregular.bounded) hlock
      reversalID

/-- A transfer whose credit comes first. -/
def sampleSwapped : TransactionRequest :=
  { sampleRequest 1 2 100 with entries := (sampleRequest 1 2 100).entries.reverse }

theorem entry_order_irrelevant_swapped :
    sampleSwapped.validate = .ok () ∧ ∃ accounts s₁,
      (lockAndValidate (sortedAccountIDs (routed (sampleDraws 5) sampleSwapped.entries sampleFunded))
        (routed (sampleDraws 5) sampleSwapped.entries sampleFunded)).run (exec (sampleDraws 5).now)
        ⟨sampleFunded, []⟩ = .ok (accounts, s₁) ∧
      ∃ g, sumsOf (sampleDraws 5) 6 (routed (sampleDraws 5) sampleSwapped.entries sampleFunded)
        accounts = .ok g := by
  have htype : sampleSwapped.type = (sampleRequest 1 2 100).type := rfl
  have hperm : sampleSwapped.entries.Perm (sampleRequest 1 2 100).entries := List.reverse_perm _
  obtain ⟨hvalid, hsame, -⟩ := entry_order_irrelevant htype hperm
  have hrequest : (sampleRequest 1 2 100).validate = .ok () := rfl
  have hlock : ((lockAndValidate
      (sortedAccountIDs (routed (sampleDraws 5) (sampleRequest 1 2 100).entries sampleFunded))
      (routed (sampleDraws 5) (sampleRequest 1 2 100).entries sampleFunded)).run
      (exec (sampleDraws 5).now) ⟨sampleFunded, []⟩).isOk = true := by
    decide +kernel
  obtain ⟨⟨accounts, s₁⟩, hlock⟩ := exists_of_isOk hlock
  obtain ⟨hlock', hrest⟩ := hsame hrequest _ _ _ _ hlock
  obtain ⟨⟨-, g', -, hg', -⟩, -⟩ := hrest 6 6
  exact ⟨hvalid.2 hrequest, accounts, s₁, hlock', g', hg'⟩

end LedgerCore.Ledger
