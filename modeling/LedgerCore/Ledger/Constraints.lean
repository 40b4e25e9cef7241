import LedgerCore.Ledger.Overdraft
import LedgerCore.Ledger.TrialBalance

/-! What the service checks before it writes, and what the database checks when it does. -/
namespace LedgerCore.Ledger
open LedgerCore.Program
variable {accounts : AccountMap} {db : DB} {id txID reversalID : UUID} {d : BalanceDelta}
  {projected : Int64} {now : Time} {s : TxState} {reason : String} {record : Option Recorder}
  {idem : Option Idempotent} {req : TransactionRequest}

/-- The constraints of the schema that are not those of one row, and room for one more version. -/
structure Constrained (db : DB) : Prop where
  references : Referenced db
  balanced : ∀ txID, assertTransactionBalanced db txID = .ok ()
  version_lt : ∀ id r, db.accounts.find? id = some r → r.balance.version.toInt < 2 ^ 63 - 1

/-- An entry that the constraints of `journal_entries` on its amount and its account admit. -/
structure EntryAdmitted (db : DB) (e : JournalEntry) : Prop where
  amount_check : 0 < e.amount.amountMinor
  account_currency_fkey :
    (db.accounts.find? e.accountID).map (fun r => r.currency) = some e.amount.currency

/-- The statement, made in this state, meets none of these constraints: the positive amounts of
entries and their foreign key to `(account, currency)`; and of a balance the version guard, the
overdraft check and the range of `bigint`, as the update succeeds. -/
def Admitted (now : Time) : TxCall → TxState → Prop
  | .insertEntries entries, s => ∀ e ∈ entries, EntryAdmitted s.db e
  | .applyBalanceDelta d, s => ∃ b s', exec now (.applyBalanceDelta d) s = .ok (b, s')
  | _, _ => True

/-- The account is as it was when it was locked, and has room for one more version. -/
def LockedAs (accounts : AccountMap) (db : DB) (id : UUID) : Prop :=
  ∃ r, db.accounts.find? id = some r ∧ accounts id = some (lockedAccount id r) ∧
    r.balance.version.toInt < 2 ^ 63 - 1

theorem LockedAs.modify {id' : UUID} {f : AccountRow → AccountRow} (h : LockedAs accounts db id)
    (hne : id ≠ id') : LockedAs accounts { db with accounts := db.accounts.modify id' f } id := by
  obtain ⟨r, hr, ha, hv⟩ := h
  exact ⟨r, by rw [Table.find?_modify_of_ne _ hne, hr], ha, hv⟩

theorem bigintAdd_version {v : Int64} (h : v.toInt < 2 ^ 63 - 1) :
    ∃ v', bigintAdd v 1 = some v' ∧ v'.toInt = v.toInt + 1 := by
  have hone : (1 : Int64).toInt = 1 := by decide
  have hlo := v.le_toInt
  have hsum : (v + 1).toInt = v.toInt + 1 := by
    rw [toInt_add_of_fits] <;> omega
  exact ⟨v + 1, bigintAdd_eq_some.2 (by rw [hsum, hone]), hsum⟩

theorem balanceAfter_eq_check (now : Time) {b : BalanceRow}
    (hadd : addInt64 b.availableMinor d.deltaMinor = some projected)
    (hv : b.version.toInt < 2 ^ 63 - 1) :
    ∃ version, version.toInt = b.version.toInt + 1 ∧
      applyBalanceDelta.balanceAfter now d b = BalanceColumns.check
        { b.toBalanceColumns with
          availableMinor := projected, version, lastEntryID := some d.lastEntryID, updatedAt := now } := by
  obtain ⟨version, hversion, hint⟩ := bigintAdd_version hv
  refine ⟨version, hint, ?_⟩
  unfold applyBalanceDelta.balanceAfter
  rw [bigintAdd_eq_addInt64, hadd, hversion]

theorem balanceAfter_of_funds (now : Time) {b : BalanceRow}
    (hadd : addInt64 b.availableMinor d.deltaMinor = some projected)
    (hv : b.version.toInt < 2 ^ 63 - 1) (hfunds : b.allowNegative ∨ 0 ≤ projected) :
    ∃ row, applyBalanceDelta.balanceAfter now d b = .ok row := by
  obtain ⟨version, hint, hcheck⟩ := balanceAfter_eq_check now hadd hv
  have hversion : 0 ≤ version := by
    have hb := Int64.le_iff_toInt_le.1 b.version_check
    rw [toInt_zero] at hb
    rw [Int64.le_iff_toInt_le, toInt_zero, hint]
    omega
  rw [hcheck, BalanceColumns.check]
  exact ⟨_, by rw [dif_pos hfunds, dif_pos b.pending_check, dif_pos hversion]⟩

theorem balanceAfter_overdraft {b : BalanceRow}
    (hadd : addInt64 b.availableMinor d.deltaMinor = some projected)
    (hv : b.version.toInt < 2 ^ 63 - 1) (hfunds : ¬(b.allowNegative ∨ 0 ≤ projected)) :
    applyBalanceDelta.balanceAfter now d b =
      .error (.check "account_balances" "account_balances_no_overdraft_check") := by
  obtain ⟨version, -, hcheck⟩ := balanceAfter_eq_check now hadd hv
  rw [hcheck, BalanceColumns.check, dif_neg hfunds]

theorem checkFunds_eq_ok {r : AccountRow} {delta : Int64}
    (h : checkFunds (some (lockedAccount id r)) id delta = .ok ()) :
    ∃ projected, addInt64 r.balance.availableMinor delta = some projected ∧
      (r.balance.allowNegative ∨ 0 ≤ projected) := by
  unfold checkFunds at h
  dsimp only at h
  split at h
  · cases h
  · next projected hadd =>
    split at h
    · cases h
    · next hfunds =>
      refine ⟨projected, hadd, ?_⟩
      by_contra hnot
      obtain ⟨hneg, hlt⟩ := not_or.1 hnot
      exact hfunds ⟨Int64.not_le.1 hlt, by simpa [lockedAccount] using hneg⟩

theorem checkFunds_insufficient {r : AccountRow} {delta : Int64} {e : Error}
    (h : checkFunds (some (lockedAccount id r)) id delta = .error e)
    (he : e.is .insufficientFunds) :
    ∃ projected, addInt64 r.balance.availableMinor delta = some projected ∧
      ¬(r.balance.allowNegative ∨ 0 ≤ projected) := by
  unfold checkFunds at h
  dsimp only at h
  split at h
  · cases h
    cases he
  · next projected hadd =>
    split at h
    · next hfunds =>
      refine ⟨projected, hadd, not_or.2 ⟨?_, Int64.not_le.2 hfunds.1⟩⟩
      simpa [lockedAccount] using hfunds.2
    · cases h

theorem applyBalanceDelta_admitted {r : AccountRow} (hr : s.db.accounts.find? d.accountID = some r)
    (hversion : r.balance.version = d.expectedVersion) (hv : r.balance.version.toInt < 2 ^ 63 - 1)
    (hadd : addInt64 r.balance.availableMinor d.deltaMinor = some projected)
    (hfunds : r.balance.allowNegative ∨ 0 ≤ projected) : Admitted now (.applyBalanceDelta d) s := by
  obtain ⟨row, hrow⟩ := balanceAfter_of_funds now hadd hv hfunds
  have hmoney (context : String) (amount : Int64) :
      ∃ m, applyBalanceDelta.balanceMoney d context amount r.currency = .ok m := by
    refine ⟨⟨amount, r.currency⟩, mapError_eq_ok.2 ?_⟩
    rw [newMoney, if_pos r.currency_check]
  obtain ⟨available, havailable⟩ := hmoney "balance for account " row.availableMinor
  obtain ⟨pending, hpending⟩ := hmoney "pending balance for account " row.pendingMinor
  have hfilter : (s.db.accounts.find? d.accountID).filter
      (fun r => r.balance.version = d.expectedVersion) = some r := by
    simp [hr, hversion]
  have hok : ∃ x, applyBalanceDelta now d s.db = .ok x := by
    unfold applyBalanceDelta
    rw [hfilter]
    exact ⟨_, bind_eq_ok.2 ⟨row, mapError_eq_ok.2 hrow, bind_eq_ok.2 ⟨available, havailable,
      bind_eq_ok.2 ⟨pending, hpending, rfl⟩⟩⟩⟩
  obtain ⟨x, hx⟩ := hok
  exact ⟨x.1, _, map_eq_ok.2 ⟨x, hx, rfl⟩⟩

theorem applyBalance_of_funds (now : Time) {g : Aggregate} (hlocked : LockedAs accounts s.db id)
    (hfunds : checkFunds (accounts id) id (g.deltas id) = .ok ()) :
    Admitted now (.applyBalanceDelta
      ⟨id, g.deltas id, ((accounts id).map fun a => a.version).getD 0, g.lastEntry id⟩) s := by
  obtain ⟨r, hr, ha, hv⟩ := hlocked
  rw [ha] at hfunds ⊢
  obtain ⟨projected, hadd, hfunds⟩ := checkFunds_eq_ok hfunds
  exact applyBalanceDelta_admitted hr rfl hv hadd hfunds

section Loop
variable {now : Time} {accounts : AccountMap} {g : Aggregate} {order : List UUID} {s s' : TxState}

theorem applyBalance_lockedAs {a : UUID} {b : EventBalance} (hne : id ≠ a)
    (hlocked : LockedAs accounts s.db id)
    (h : (applyBalance accounts g a).run (exec now) s = .ok (b, s')) :
    LockedAs accounts s'.db id := by
  obtain ⟨r, row, -, -, rfl⟩ := applyBalance_eq_ok h
  exact hlocked.modify hne

theorem applyBalance_error {e : Error} (hlocked : LockedAs accounts s.db id)
    (h : (applyBalance accounts g id).run (exec now) s = .error e) :
    checkFunds (accounts id) id (g.deltas id) = .error e := by
  rcases Prog.run_bind_error.1 h with h | ⟨_, s', hfunds, h⟩
  · rw [Prog.run_ofExcept] at h
    cases hfunds : checkFunds (accounts id) id (g.deltas id) with
    | error e' =>
      rw [hfunds] at h
      cases h
      rfl
    | ok u =>
      rw [hfunds] at h
      cases h
  · rw [Prog.run_ofExcept] at hfunds
    obtain ⟨_, hok, he⟩ := map_eq_ok.1 hfunds
    cases he
    obtain ⟨b, s'', hexec⟩ := applyBalance_of_funds now hlocked hok
    rcases Prog.run_bind_error.1 h with h | ⟨_, _, -, h⟩
    · rw [Tx.applyBalanceDelta, Prog.run_perform, hexec] at h
      cases h
    · cases h

/-- No update of the loop is refused. -/
theorem applyBalances_along (hnd : order.Nodup) (hlocked : ∀ id ∈ order, LockedAs accounts s.db id) :
    (order.mapM' (applyBalance accounts g)).Along (exec now) (Admitted now) s := by
  induction order generalizing s with
  | nil => trivial
  | cons a order ih =>
    obtain ⟨hnot, hnd⟩ := List.nodup_cons.1 hnd
    refine Prog.Along.bind ?_ fun b s' hrun => Prog.Along.bind (ih hnd fun id hid => ?_) fun _ _ _ => trivial
    · refine Prog.along_ofExcept_bind fun _ hfunds => Prog.along_perform_bind ?_ fun _ _ _ => trivial
      exact applyBalance_of_funds now (hlocked a List.mem_cons_self) hfunds
    · have hne : id ≠ a := fun he => hnot (he ▸ hid)
      exact applyBalance_lockedAs hne (hlocked id (List.mem_cons_of_mem _ hid)) hrun

theorem applyBalances_error {e : Error} (hnd : order.Nodup)
    (hlocked : ∀ id ∈ order, LockedAs accounts s.db id)
    (h : (order.mapM' (applyBalance accounts g)).run (exec now) s = .error e) :
    ∃ id ∈ order, checkFunds (accounts id) id (g.deltas id) = .error e := by
  induction order generalizing s with
  | nil => cases h
  | cons a order ih =>
    obtain ⟨hnot, hnd⟩ := List.nodup_cons.1 hnd
    rcases Prog.run_bind_error.1 h with h | ⟨b, s', hrun, h⟩
    · exact ⟨a, List.mem_cons_self, applyBalance_error (hlocked a List.mem_cons_self) h⟩
    rcases Prog.run_bind_error.1 h with h | ⟨_, _, -, h⟩
    · obtain ⟨id, hid, herror⟩ := ih hnd (fun id hid => by
        have hne : id ≠ a := fun he => hnot (he ▸ hid)
        exact applyBalance_lockedAs hne (hlocked id (List.mem_cons_of_mem _ hid)) hrun) h
      exact ⟨id, List.mem_cons_of_mem _ hid, herror⟩
    · cases h

end Loop

theorem admitted_of_sideCall (c : TxCall) (s : TxState) (h : SideCall c) : Admitted now c s := by
  cases c with
  | insertEntries entries => exact h.elim
  | applyBalanceDelta d => exact h.elim
  | _ => trivial

theorem admitted_of_eventCall (c : TxCall) (s : TxState) (h : EventCall c) : Admitted now c s := by
  cases c with
  | appendEvent eventID e => trivial
  | _ => exact h.elim

section Statements
variable {d : Draws} {header : Transaction} {requests : List EntryRequest} {accounts : AccountMap}
  {s s' : TxState}

theorem routeToShards_along {entries : List EntryRequest} :
    (routeToShards d entries).Along (exec d.now) (Admitted d.now) s := by
  refine Prog.along_perform_bind trivial fun _ _ _ => ?_
  split_ifs <;> trivial

theorem lockAndValidate_along {ids : List UUID} :
    (lockAndValidate ids requests).Along (exec d.now) (Admitted d.now) s :=
  Prog.along_perform_bind trivial fun _ _ _ => Prog.along_ofExcept_bind fun _ _ =>
    Prog.along_ofExcept_bind fun _ _ => trivial

theorem lockAndValidate_admits (txID : UUID)
    (hversions : ∀ id r, s.db.accounts.find? id = some r → r.balance.version.toInt < 2 ^ 63 - 1)
    (hpositive : ∀ e ∈ requests, 0 < e.amount.amountMinor)
    (h : (lockAndValidate (sortedAccountIDs requests) requests).run (exec d.now) s =
      .ok (accounts, s')) :
    s = s' ∧ (∀ id ∈ sortedAccountIDs requests, LockedAs accounts s.db id) ∧
      ∀ e ∈ buildEntries d txID requests, EntryAdmitted s.db e := by
  obtain ⟨rfl, hlocked, hcurrency⟩ := lockAndValidate_eq_ok h
  refine ⟨rfl, fun id hid => ?_, fun e he => ?_⟩
  · obtain ⟨r, hr, -, ha⟩ := hlocked id hid
    exact ⟨r, hr, ha, hversions id r hr⟩
  · obtain ⟨⟨request, i⟩, hrequest, rfl⟩ := List.mem_map.1 he
    have hmem : request ∈ requests := List.fst_mem_of_mem_zipIdx hrequest
    obtain ⟨r, hr, -, ha⟩ := hlocked request.accountID (mem_sortedAccountIDs.2 ⟨request, hmem, rfl⟩)
    refine ⟨hpositive request hmem, ?_⟩
    rw [hcurrency request hmem, ha, hr]
    rfl

theorem writeTransaction_along
    (hlocked : ∀ id ∈ sortedAccountIDs requests, LockedAs accounts s.db id)
    (hadmitted : ∀ e ∈ buildEntries d header.id requests, EntryAdmitted s.db e) :
    (writeTransaction d header requests accounts (sortedAccountIDs requests)).Along (exec d.now)
      (Admitted d.now) s := by
  refine Prog.along_perform_bind trivial fun _ s₁ hheader => ?_
  obtain ⟨⟨_, db₁⟩, hinsert, he⟩ := map_eq_ok.1 hheader
  cases he
  obtain ⟨_, transactions, -, -, -, -, rfl⟩ := insertTransaction_eq_ok hinsert
  refine Prog.along_perform_bind (fun e he =>
    ⟨(hadmitted e he).amount_check, (hadmitted e he).account_currency_fkey⟩) fun entries s₂ hentries => ?_
  obtain ⟨-, -, -, -, journal, hdb⟩ := insertEntries_eq_ok hentries
  refine Prog.Along.bind (Prog.along_ofExcept_bind fun g _ => ?_) fun _ _ _ => trivial
  refine applyBalances_along (sortedAccountIDs_nodup requests) fun id hid => ?_
  rw [hdb]
  exact hlocked id hid

theorem events_along {eventType : String} {balances : List EventBalance} {reverses : Option UUID}
    (hooks : Recording record) :
    (do
      appendTransactionEvent d eventType header balances reverses reason
      runRecord record header
      completeIdempotency idem header
      pure header : TxM Transaction).Along (exec d.now) (Admitted d.now) s :=
  Prog.Along.bind (Prog.along_of_onlyCalls (appendTransactionEvent_events ..) admitted_of_eventCall)
    fun _ _ _ => Prog.Along.bind (Prog.along_of_onlyCalls (hooks.sideCalls _) admitted_of_sideCall)
    fun _ _ _ => Prog.Along.bind
      (Prog.along_of_onlyCalls (completeIdempotency_sideCalls _ _) admitted_of_sideCall)
      fun _ _ _ => trivial

theorem postTx_along (hdb : Constrained db) (hooks : Recording req.record)
    (hpositive : ∀ e ∈ req.entries, 0 < e.amount.amountMinor) :
    (postTx d txID req).Along (exec d.now) (Admitted d.now) ⟨db, []⟩ := by
  refine Prog.Along.bind routeToShards_along fun requests s hroute => ?_
  cases (run_routeToShards d req.entries ⟨db, []⟩).symm.trans hroute
  have hrouted : ∀ e ∈ routed d req.entries db, 0 < e.amount.amountMinor := by
    intro e he
    obtain ⟨e', he', rfl⟩ := List.mem_map.1 he
    exact hpositive e' he'
  refine Prog.Along.bind lockAndValidate_along fun accounts s hlock => ?_
  obtain ⟨rfl, hlocked, hadmitted⟩ := lockAndValidate_admits txID
    hdb.version_lt hrouted hlock
  exact Prog.Along.bind (writeTransaction_along hlocked hadmitted) fun _ _ _ => events_along hooks

theorem reverseTx_along (hdb : Constrained db) (hooks : Recording record) :
    (reverseTx d reversalID txID reason idem record).Along (exec d.now) (Admitted d.now) ⟨db, []⟩ := by
  refine Prog.along_perform_bind trivial fun original s hcall => ?_
  obtain ⟨_, hload, he⟩ := map_eq_ok.1 hcall
  cases he
  have hmirrored : ∀ e ∈ mirrored original.entries, 0 < e.amount.amountMinor := by
    intro e he
    obtain ⟨e', he', rfl⟩ := List.mem_map.1 he
    obtain ⟨r, -, -, -, hentries⟩ := loadTransactionForUpdate_eq_ok hload
    rw [hentries, List.mem_insertionSort] at he'
    obtain ⟨⟨_, row⟩, -, rfl⟩ := List.mem_map.1 he'
    exact row.amount_check
  refine Prog.along_ofExcept_bind fun _ _ => Prog.Along.bind lockAndValidate_along
    fun accounts s hlock => ?_
  obtain ⟨rfl, hlocked, hadmitted⟩ := lockAndValidate_admits reversalID
    hdb.version_lt hmirrored hlock
  exact Prog.Along.bind (writeTransaction_along hlocked hadmitted) fun _ _ _ =>
    Prog.along_perform_bind trivial fun _ _ _ => events_along hooks

end Statements

theorem imbalance_eq_netTotal (txID : UUID) (currency : String) (db : DB) :
    imbalance txID currency db = netTotal currency (transactionEntries txID db) := by
  rw [← map_toEntry_entriesOf, imbalance]
  induction entriesOf txID db with
  | nil => rfl
  | cons e entries ih =>
    rw [List.map_cons, netTotal_cons, ← ih, List.filter_cons]
    by_cases hc : e.2.currency = currency
    · rw [if_pos (decide_eq_true hc), if_pos (show (toEntry e.1 e.2).amount.currency = currency from hc)]
      rfl
    · rw [if_neg (by simpa using hc), if_neg (show ¬(toEntry e.1 e.2).amount.currency = currency from hc),
        zero_add]

/-- The trigger raises nothing exactly if the entries balance in each currency. -/
theorem assertTransactionBalanced_eq_ok :
    assertTransactionBalanced db txID = .ok () ↔
      ∀ currency, netTotal currency (transactionEntries txID db) = 0 := by
  simp only [← imbalance_eq_netTotal]
  unfold assertTransactionBalanced
  constructor
  · intro h currency
    split at h
    · next hnone =>
      by_cases hc : currency ∈ (entriesOf txID db).map fun e => e.2.currency
      · simpa using List.find?_eq_none.1 hnone currency hc
      · rw [imbalance_eq_netTotal, ← map_toEntry_entriesOf]
        refine netTotal_of_ne fun e he hcurrency => hc ?_
        obtain ⟨row, hrow, rfl⟩ := List.mem_map.1 he
        exact List.mem_map.2 ⟨row, hrow, hcurrency⟩
    · cases h
  · intro h
    rw [List.find?_eq_none.2 fun c _ => by simp [h c]]

theorem netTotal_mirror {currency : String} {entries entries' : List JournalEntry}
    (hlegs : entries'.map JournalEntry.leg = (entries.map JournalEntry.leg).map Leg.mirror)
    (hv : ∀ e ∈ entries, e.direction.Valid) : netTotal currency entries' = -netTotal currency entries := by
  have hsum (l : List JournalEntry) : netTotal currency l = ((l.map JournalEntry.leg).map fun l =>
      if l.2.currency = currency then signed l.1 .debit l.2.amountMinor.toInt else 0).sum := by
    rw [List.map_map]
    rfl
  rw [hsum, hsum, hlegs, List.sum_neg, List.map_map, List.map_map, List.map_map, List.map_map]
  refine congrArg List.sum (List.map_congr_left fun e he => ?_)
  have hopposite := signed_opposite (hv e he) (n := .debit) rfl e.amount.amountMinor.toInt
  by_cases hc : e.amount.currency = currency <;>
    simp [Leg.mirror, JournalEntry.leg, hc, hopposite]

theorem validateEntry_checks {currency : String} {totals totals' : Money × Money}
    {entry : EntryRequest × ℕ} (h : validateEntry currency totals entry = .ok totals') :
    entry.1.direction.Valid ∧ 0 < entry.1.amount.amountMinor := by
  obtain ⟨_, -, h⟩ := bind_eq_ok.1 h
  obtain ⟨_, hdir, h⟩ := bind_eq_ok.1 h
  obtain ⟨_, -, h⟩ := bind_eq_ok.1 h
  obtain ⟨_, hamount, -⟩ := bind_eq_ok.1 h
  exact ⟨by simpa using failIf_eq_ok.1 hdir, Int64.not_le.1 (failIf_eq_ok.1 hamount)⟩

theorem TransactionRequest.validate_entries (h : req.validate = .ok ()) :
    ∀ e ∈ req.entries, e.direction.Valid ∧ 0 < e.amount.amountMinor := by
  obtain ⟨_, -, h⟩ := bind_eq_ok.1 h
  obtain ⟨_, -, h⟩ := bind_eq_ok.1 h
  obtain ⟨zero, -, h⟩ := bind_eq_ok.1 h
  obtain ⟨totals, hfold, -⟩ := bind_eq_ok.1 h
  have hall := foldlM_eq_ok (fun (done : List (EntryRequest × ℕ)) _ =>
      ∀ x ∈ done, x.1.direction.Valid ∧ 0 < x.1.amount.amountMinor) hfold
    (fun _ hx => (nomatch hx)) fun done x _ _ _ _ hdone hstep y hy => by
      rcases List.mem_append.1 hy with hy | hy
      · exact hdone y hy
      · exact List.mem_singleton.1 hy ▸ validateEntry_checks hstep
  intro e he
  obtain ⟨i, hi⟩ := List.mem_iff_getElem?.1 he
  exact hall (e, i) (List.mem_zipIdx_iff_getElem?.2 hi)

theorem commit_eq_ok {t : Transaction} (hdb : Referenced db) (hcommitted : Committed db s.db t)
    (hdeferred : ∀ id ∈ s.deferred, id = t.id)
    (hnet : ∀ currency, netTotal currency t.entries = 0) : commit s = .ok s.db := by
  have hforM : s.deferred.forM (assertTransactionBalanced s.db) = .ok () := by
    refine forM_eq_ok.2 fun id hid => ?_
    rw [hdeferred id hid, assertTransactionBalanced_eq_ok,
      hcommitted.transactionEntries_new hdb]
    exact hnet
  rw [commit, hforM]
  rfl

/-- Run on the database, the program makes no statement that these constraints refuse, and its
commit passes the deferred trigger. -/
def NeverRefused (now : Time) (p : TxM Transaction) (db : DB) : Prop :=
  p.Along (exec now) (Admitted now) ⟨db, []⟩ ∧
    ∀ t s, p.run (exec now) ⟨db, []⟩ = .ok (t, s) → commit s = .ok s.db

theorem postTx_commits {d : Draws} (hdb : Referenced db) (hooks : Recording req.record)
    (hvalid : req.validate = .ok ()) {t : Transaction}
    (hrun : (postTx d txID req.withKey).run (exec d.now) ⟨db, []⟩ = .ok (t, s)) :
    commit s = .ok s.db := by
  have hooks' : Recording req.withKey.record := by rwa [record_withKey]
  obtain ⟨hcommitted, rfl, hdeferred⟩ := postTx_committed hooks' hrun
  have hdouble : DoubleEntry ((postedEntries d txID
      (routed d req.withKey.entries db)).map JournalEntry.leg) := by
    rw [map_leg_postedEntries, map_leg_of_routes (routed_routes ..), entries_withKey]
    exact TransactionRequest.validate_doubleEntry hvalid
  refine commit_eq_ok hdb hcommitted hdeferred fun currency => hdouble.netTotal_eq_zero ?_ currency
  intro e he
  obtain ⟨_, e', he', -, rfl⟩ := mem_postedEntries he
  obtain ⟨e₀, he₀, rfl⟩ := List.mem_map.1 he'
  rw [entries_withKey] at he₀
  exact (TransactionRequest.validate_entries hvalid e₀ he₀).1

theorem postTx_neverRefused {d : Draws} (hdb : Constrained db) (hooks : Recording req.record)
    (hvalid : req.validate = .ok ()) : NeverRefused d.now (postTx d txID req.withKey) db := by
  have hooks' : Recording req.withKey.record := by rwa [record_withKey]
  refine ⟨postTx_along hdb hooks' ?_, fun t s => postTx_commits hdb.references hooks hvalid⟩
  rw [entries_withKey]
  exact fun e he => (TransactionRequest.validate_entries hvalid e he).2

theorem reverseTx_commits {d : Draws} (hdb : Referenced db)
    (hbalanced : assertTransactionBalanced db txID = .ok ()) (hooks : Recording record)
    {t : Transaction}
    (hrun : (reverseTx d reversalID txID reason idem record).run (exec d.now) ⟨db, []⟩ =
      .ok (t, s)) : commit s = .ok s.db := by
  obtain ⟨hcommitted, ⟨original, hload, -, rfl⟩, hdeferred⟩ := reverseTx_committed hooks hrun
  refine commit_eq_ok hdb hcommitted hdeferred fun currency => ?_
  obtain ⟨r, -, -, -, hentries⟩ := loadTransactionForUpdate_eq_ok hload
  rw [map_toEntry_entriesOf] at hentries
  have hperm : original.entries.Perm (transactionEntries txID db) :=
    hentries ▸ List.perm_insertionSort _ _
  have hmirror : (postedEntries d reversalID (mirrored original.entries)).map JournalEntry.leg =
      (original.entries.map JournalEntry.leg).map Leg.mirror := by
    rw [map_leg_postedEntries]
    simp [mirrored, Function.comp_def, EntryRequest.leg, JournalEntry.leg, Leg.mirror]
  have hvalid : ∀ e ∈ original.entries, e.direction.Valid := fun e he =>
    journalEntries_valid (List.mem_filter.1 (hperm.mem_iff.1 he)).1
  have hnet : netTotal currency original.entries = 0 := by
    rw [← assertTransactionBalanced_eq_ok.1 hbalanced currency]
    exact (hperm.map _).sum_eq
  change netTotal currency (postedEntries d reversalID (mirrored original.entries)) = 0
  rw [netTotal_mirror hmirror hvalid, hnet, neg_zero]

theorem reverseTx_neverRefused {d : Draws} (hdb : Constrained db) (hooks : Recording record) :
    NeverRefused d.now (reverseTx d reversalID txID reason idem record) db :=
  ⟨reverseTx_along hdb hooks, fun _ _ =>
    reverseTx_commits hdb.references (hdb.balanced txID) hooks⟩

theorem raises_aggregateEntry_funded (accounts : AccountMap) (g : Aggregate) (e : JournalEntry) :
    Raises (fun err => err.is .insufficientFunds = false) (aggregateEntry accounts g e) := by
  refine (raises_mapError ?_).bind fun signed _ => ?_
  · unfold signedAmount
    split_ifs
    · exact raises_error rfl
    · exact raises_error rfl
    · exact raises_error rfl
    · exact raises_ok _
    · exact raises_ok _
  · split
    · exact raises_error rfl
    · exact raises_ok _

/-- What `applyEntries` refuses for want of funds, the overdraft check would have refused. -/
theorem applyEntries_insufficient {requests : List EntryRequest} {entries : List JournalEntry}
    {s₀ : TxState} {e : Error} (hdb : Constrained db)
    (hlock : (lockAndValidate (sortedAccountIDs requests) requests).run (exec now) ⟨db, []⟩ =
      .ok (accounts, s₀)) (haccounts : s.db.accounts = db.accounts)
    (h : (applyEntries entries accounts (sortedAccountIDs requests)).run (exec now) s = .error e)
    (he : e.is .insufficientFunds) :
    ∃ id ∈ sortedAccountIDs requests, ∃ r delta, db.accounts.find? id = some r ∧
      delta.toInt = signedTotal r.normalBalance (onAccount id entries) ∧
      checkFunds (accounts id) id delta = .error e ∧
      ∀ lastEntryID, applyBalanceDelta.balanceAfter now ⟨id, delta, r.balance.version, lastEntryID⟩
        r.balance = .error (.check "account_balances" "account_balances_no_overdraft_check") := by
  obtain ⟨-, hlocked, -⟩ := lockAndValidate_eq_ok hlock
  rcases Prog.run_bind_error.1 h with h | ⟨g, s₁, hg, h⟩
  · have hraises := Prog.raises_ofExcept (s := s)
      (raises_foldlM (l := entries) (raises_aggregateEntry_funded accounts) .zero) e h
    rw [he] at hraises
    cases hraises
  · rw [Prog.run_ofExcept] at hg
    obtain ⟨_, hok, hs⟩ := map_eq_ok.1 hg
    cases hs
    obtain ⟨id, hid, herror⟩ := applyBalances_error (sortedAccountIDs_nodup requests)
      (fun id hid => by
        obtain ⟨r, hr, -, ha⟩ := hlocked id hid
        exact ⟨r, by rw [haccounts, hr], ha, hdb.version_lt id r hr⟩) h
    obtain ⟨r, hr, -, ha⟩ := hlocked id hid
    have hnormal : normalOf accounts id = r.normalBalance := by simp [normalOf, ha, lockedAccount]
    refine ⟨id, hid, r, g.deltas id, hr, hnormal ▸ (aggregate_eq_ok hok id).1, herror, ?_⟩
    rw [ha] at herror
    obtain ⟨projected, hadd, hfunds⟩ := checkFunds_insufficient herror he
    exact fun lastEntryID => balanceAfter_overdraft hadd (hdb.version_lt id r hr) hfunds

/-- What the database would refuse, the service has refused before: on a database that keeps its
constraints, neither a valid posting nor a reversal makes a statement that a constraint refuses,
and both pass the trigger at commit. The service refuses for want of funds only what the overdraft
check would refuse. -/
theorem checks_subsume_constraints {db : DB} (hdb : Constrained db) :
    (∀ d txID (req : TransactionRequest), Recording req.record → req.validate = .ok () →
      NeverRefused d.now (postTx d txID req.withKey) db) ∧
    (∀ d reversalID txID reason idem record, Recording record →
      NeverRefused d.now (reverseTx d reversalID txID reason idem record) db) ∧
    ∀ now requests accounts entries s₀ s e,
      (lockAndValidate (sortedAccountIDs requests) requests).run (exec now) ⟨db, []⟩ =
        .ok (accounts, s₀) → s.db.accounts = db.accounts →
      (applyEntries entries accounts (sortedAccountIDs requests)).run (exec now) s = .error e →
      e.is .insufficientFunds →
      ∃ id ∈ sortedAccountIDs requests, ∃ r delta, db.accounts.find? id = some r ∧
        delta.toInt = signedTotal r.normalBalance (onAccount id entries) ∧
        checkFunds (accounts id) id delta = .error e ∧
        ∀ lastEntryID, applyBalanceDelta.balanceAfter now ⟨id, delta, r.balance.version, lastEntryID⟩
          r.balance = .error (.check "account_balances" "account_balances_no_overdraft_check") :=
  ⟨fun _ _ _ hooks hvalid => postTx_neverRefused hdb hooks hvalid,
    fun _ _ _ _ _ _ hooks => reverseTx_neverRefused hdb hooks,
    fun _ _ _ _ _ _ _ hlock haccounts h he => applyEntries_insufficient hdb hlock haccounts h he⟩

theorem DoubleEntries.balanced (h : DoubleEntries db) (href : Referenced db) (txID : UUID) :
    assertTransactionBalanced db txID = .ok () := by
  refine assertTransactionBalanced_eq_ok.2 fun currency => ?_
  by_cases htx : txID ∈ db.transactions.keys
  · refine (h txID htx).netTotal_eq_zero (fun e he => ?_) currency
    exact journalEntries_valid (List.mem_filter.1 he).1
  · have hnone : transactionEntries txID db = [] := by
      refine List.filter_eq_nil_iff.2 fun e he heq => htx ?_
      have hid : e.transactionID = txID := by simpa using heq
      exact hid ▸ href.headers e he
    rw [hnone]
    rfl

/-- What every run of operations keeps implies the constraints. -/
theorem Conserved.constrained (h : Conserved db)
    (hversions : ∀ id r, db.accounts.find? id = some r → r.balance.version.toInt < 2 ^ 63 - 1) :
    Constrained db :=
  ⟨h.agrees.referenced, h.doubleEntries.balanced h.agrees.referenced, hversions⟩

/-- The wallet holds 500 that the bank owes it. -/
def sampleFunded : DB := runOps (sampleOps.take 3) .empty

theorem sampleFunded_constrained : Constrained sampleFunded := by
  refine (runOps_conserved _ (noEntries_empty.conserved rfl)).constrained fun id r hr => ?_
  have hall : sampleFunded.accounts.rows.all (fun x => x.2.balance.version.toInt < 2 ^ 63 - 1) = true := by
    decide +kernel
  exact of_decide_eq_true (List.all_eq_true.1 hall (id, r) (Table.find?_eq_some.1 hr))

/-- A withdrawal of 600 from the wallet, up to its balances. -/
def sampleWithdrawal : TxM (List EventBalance) := do
  let requests := (sampleRequest 2 1 600).entries
  let accounts ← lockAndValidate (sortedAccountIDs requests) requests
  applyEntries (buildEntries (sampleDraws 5) 6 requests) accounts (sortedAccountIDs requests)

/-- A posting and a reversal commit; the withdrawal is refused as the overdraft check would
refuse it. -/
theorem checks_subsume_constraints_sample :
    (∃ t s, (postTx (sampleDraws 5) 6 (sampleRequest 1 2 100).withKey).run (exec 6)
      ⟨sampleFunded, []⟩ = .ok (t, s) ∧ commit s = .ok s.db) ∧
    (∃ t s, (reverseTx (sampleDraws 5) 6 3 "" none none).run (exec 6)
      ⟨sampleFunded, []⟩ = .ok (t, s) ∧ commit s = .ok s.db) ∧
    ∃ id r delta, sampleFunded.accounts.find? id = some r ∧ ∀ lastEntryID,
      applyBalanceDelta.balanceAfter 6 ⟨id, delta, r.balance.version, lastEntryID⟩ r.balance =
        .error (.check "account_balances" "account_balances_no_overdraft_check") := by
  obtain ⟨hpost, hreverse, hfunds⟩ := checks_subsume_constraints sampleFunded_constrained
  refine ⟨?_, ?_, ?_⟩
  · have hok : ((postTx (sampleDraws 5) 6 (sampleRequest 1 2 100).withKey).run (exec 6)
        ⟨sampleFunded, []⟩).isOk = true := by decide +kernel
    cases hrun : (postTx (sampleDraws 5) 6 (sampleRequest 1 2 100).withKey).run (exec 6)
        ⟨sampleFunded, []⟩ with
    | error e => rw [hrun] at hok; cases hok
    | ok x => exact ⟨x.1, x.2, rfl, (hpost (sampleDraws 5) 6 (sampleRequest 1 2 100) nofun
        (by decide +kernel)).2 x.1 x.2 hrun⟩
  · have hok : ((reverseTx (sampleDraws 5) 6 3 "" none none).run (exec 6)
        ⟨sampleFunded, []⟩).isOk = true := by decide +kernel
    cases hrun : (reverseTx (sampleDraws 5) 6 3 "" none none).run (exec 6) ⟨sampleFunded, []⟩ with
    | error e => rw [hrun] at hok; cases hok
    | ok x => exact ⟨x.1, x.2, rfl, (hreverse (sampleDraws 5) 6 3 "" none none nofun).2 x.1 x.2 hrun⟩
  · have hlocked : ((lockAndValidate (sortedAccountIDs (sampleRequest 2 1 600).entries)
        (sampleRequest 2 1 600).entries).run (exec 6) ⟨sampleFunded, []⟩).isOk = true := by
      decide +kernel
    have hrefused : (match sampleWithdrawal.run (exec 6) ⟨sampleFunded, []⟩ with
      | .ok _ => false
      | .error e => e.is .insufficientFunds) = true := by decide +kernel
    cases hrun : sampleWithdrawal.run (exec 6) ⟨sampleFunded, []⟩ with
    | ok x => rw [hrun] at hrefused; cases hrefused
    | error e =>
      rw [hrun] at hrefused
      rcases Prog.run_bind_error.1 hrun with h | ⟨accounts, s, hlock, h⟩
      · rw [h] at hlocked
        cases hlocked
      · obtain ⟨rfl, -, -⟩ := lockAndValidate_eq_ok hlock
        obtain ⟨id, -, r, delta, hr, -, -, hcheck⟩ :=
          hfunds 6 _ accounts _ _ _ e hlock rfl h hrefused
        exact ⟨id, r, delta, hr, hcheck⟩

end LedgerCore.Ledger
