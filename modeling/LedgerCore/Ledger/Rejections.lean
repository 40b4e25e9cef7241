import Mathlib.Data.List.Induction
import LedgerCore.Http.Problem
import LedgerCore.Ledger.Conflicts
import LedgerCore.Ledger.Constraints
import LedgerCore.Ledger.Reversals

/-! Which rejections last. What a posting or a reversal is refused for, once its request validates
and names accounts of its own currency, is the state of the world, but for a balance that leaves
the range of its type. -/
namespace LedgerCore.Ledger
open LedgerCore.Program LedgerCore.Http
variable {entries : List JournalEntry} {id txID : UUID} {balances : List EventBalance}
  {idem : Option Idempotent} {req : TransactionRequest}

/-- A retry may do better. -/
def Transient (e : Error) : Prop := isDeterministic e = false

variable {α : Type} {now : Time} {db : DB}

/-- The domain's error for what the database refuses is transient. -/
def TransientPg (e : PgError) : Prop := Transient (mapError e)

theorem transient_unique (constraint : String) : TransientPg (.unique constraint) := by
  unfold TransientPg mapError PgError.unique
  dsimp only
  split_ifs <;> rfl

theorem transient_check {table constraint : String}
    (hamount : constraint ≠ "journal_entries_amount_check")
    (htext : containsText (PgError.check table constraint).message "does not balance" = false) :
    TransientPg (.check table constraint) := by
  change Transient (if constraint = "account_balances_no_overdraft_check" then _
    else if containsText (PgError.check table constraint).message "does not balance" = true then _
    else if constraint = "journal_entries_amount_check" then _ else _)
  rw [htext, if_neg hamount, if_neg Bool.false_ne_true]
  split_ifs
  · rfl
  · rfl

theorem raises_mapped_transient {context : String} {x : Except PgError α}
    (h : Raises TransientPg x) : Raises Transient (mapped context x) :=
  raises_mapError h

theorem raises_unique_transient (constraint : String) (x : Option α) :
    Raises TransientPg (unique constraint x) := by
  cases x with
  | none => exact raises_error (transient_unique constraint)
  | some a => exact raises_ok a

theorem raises_insertTransaction_transient (t : Transaction) :
    Raises Transient (insertTransaction now t db) := by
  have hcheck (c : TransactionColumns) : Raises TransientPg c.check := by
    unfold TransactionColumns.check
    split_ifs
    · exact raises_ok _
    · exact raises_error (transient_check (by decide) (by decide +kernel))
    · exact raises_error (transient_check (by decide) (by decide +kernel))
  exact raises_mapped_transient ((hcheck _).bind fun row _ => (raises_unique_transient _ _).bind
    fun _ _ => (raises_failIf (transient_unique _)).bind fun _ _ => raises_ok _)

theorem raises_insertEntryRow_transient (journal : Table UUID JournalRow) {e : JournalEntry}
    (he : 0 < e.amount.amountMinor) :
    Raises TransientPg (insertEntryRow now journal e) := by
  refine Raises.bind (raises_failIf ?_) fun _ _ => Raises.bind ?_ fun row _ =>
    (raises_unique_transient _ _).bind fun _ _ =>
    (raises_failIf (transient_unique _)).bind fun _ _ => raises_ok _
  · exact transient_check (by decide) (by decide +kernel)
  · unfold JournalColumns.check
    dsimp only
    rw [dif_pos he]
    split_ifs
    · exact raises_ok _
    · exact raises_error (transient_check (by decide) (by decide +kernel))

theorem raises_insertEntries_transient {s : TxState} (h : ∀ e ∈ entries, EntryAdmitted s.db e) :
    Raises Transient (insertEntries now entries s) := by
  cases entries with
  | nil => exact raises_ok _
  | cons first rest =>
    refine raises_mapped_transient (Raises.bind ?_ fun journal _ => Raises.bind ?_ fun _ _ => raises_ok _)
    · exact raises_foldlM_mem (fun journal e he => raises_insertEntryRow_transient journal
        (h e he).amount_check) _
    · refine raises_forM fun e he => ?_
      unfold entryForeignKeys
      rw [if_neg (not_not.2 (h e he).account_currency_fkey)]
      split_ifs
      · exact raises_error rfl
      · exact raises_ok _

theorem raises_balanceCheck_transient (b : BalanceColumns) :
    Raises TransientPg b.check := by
  unfold BalanceColumns.check
  split_ifs
  · exact raises_ok _
  · exact raises_error (transient_check (by decide) (by decide +kernel))
  · exact raises_error (transient_check (by decide) (by decide +kernel))
  · exact raises_error (transient_check (by decide) (by decide +kernel))

theorem newMoney_account (r : AccountRow) (amount : Int64) :
    newMoney amount r.currency = .ok ⟨amount, r.currency⟩ := by
  rw [newMoney, if_pos r.currency_check]

theorem raises_applyBalanceDelta_transient (d : BalanceDelta) :
    Raises Transient (applyBalanceDelta now d db) := by
  unfold applyBalanceDelta
  split
  · exact raises_error rfl
  · next r _ =>
    have hmoney (context : String) (amount : Int64) :
        Raises Transient (applyBalanceDelta.balanceMoney d context amount r.currency) := by
      unfold applyBalanceDelta.balanceMoney
      rw [newMoney_account]
      exact raises_ok _
    refine (raises_mapped_transient ?_).bind fun row _ => (hmoney _ _).bind fun _ _ =>
      (hmoney _ _).bind fun _ _ => raises_ok _
    unfold applyBalanceDelta.balanceAfter
    split
    · exact raises_balanceCheck_transient _
    · exact raises_error rfl

theorem raises_append_transient (eventID : UUID) (e : Event) :
    Raises Transient (Outbox.append eventID e db) := by
  unfold Outbox.append
  split_ifs
  · exact raises_error rfl
  · exact raises_error rfl
  · exact raises_error rfl
  · split
    · exact raises_error rfl
    · exact raises_ok _

theorem raises_complete_transient (c : Idempotency.Completion) :
    Raises Transient (Idempotency.complete c db) := by
  unfold Idempotency.complete
  split
  · split_ifs
    · exact raises_error rfl
    · exact raises_ok _
  · exact raises_error rfl

theorem signedTotal_onAccount_le {n : Direction} (hn : n = .debit ∨ n = .credit) (id : UUID)
    (h : ∀ e ∈ entries, e.direction.Valid ∧ 0 < e.amount.amountMinor) :
    signedTotal n (onAccount id entries) ≤ sideTotal n (entries.map JournalEntry.leg) ∧
      -sideTotal n.opposite (entries.map JournalEntry.leg) ≤ signedTotal n (onAccount id entries) := by
  induction entries with
  | nil => simp [onAccount, signedTotal, sideTotal]
  | cons e entries ih =>
    obtain ⟨hle, hge⟩ := ih fun x hx => h x (List.mem_cons_of_mem _ hx)
    obtain ⟨hd, ha⟩ := h e List.mem_cons_self
    have hpos : 0 < e.amount.amountMinor.toInt := by
      simpa [Int64.lt_iff_toInt_lt, toInt_zero] using ha
    rw [signedTotal_onAccount_cons, List.map_cons, sideTotal_cons, sideTotal_cons]
    rcases Direction.valid_iff.1 hd with hd | hd <;> rcases hn with rfl | rfl <;>
      simp only [JournalEntry.leg, hd, signed, Direction.opposite] at hle hge ⊢ <;>
      split_ifs <;> simp_all <;> omega

theorem sideTotal_le_append {side : Direction} {l l' : List JournalEntry}
    (h : ∀ e ∈ l', 0 < e.amount.amountMinor) :
    sideTotal side (l.map JournalEntry.leg) ≤ sideTotal side ((l ++ l').map JournalEntry.leg) := by
  rw [List.map_append, sideTotal, sideTotal, List.map_append, List.sum_append]
  refine le_add_of_nonneg_right (List.sum_nonneg fun x hx => ?_)
  obtain ⟨leg, hleg, rfl⟩ := List.mem_map.1 hx
  obtain ⟨e, he, rfl⟩ := List.mem_map.1 hleg
  have hpos : 0 < e.amount.amountMinor.toInt := by
    simpa [Int64.lt_iff_toInt_lt, toInt_zero] using h e he
  dsimp only [JournalEntry.leg]
  split_ifs <;> omega

theorem aggregate_ok {accounts : AccountMap}
    (h : ∀ e ∈ entries, e.direction.Valid ∧ 0 < e.amount.amountMinor)
    (hnormal : ∀ e ∈ entries, normalOf accounts e.accountID = .debit ∨
      normalOf accounts e.accountID = .credit)
    (hdebits : sideTotal .debit (entries.map JournalEntry.leg) < 2 ^ 63)
    (hcredits : sideTotal .credit (entries.map JournalEntry.leg) < 2 ^ 63) :
    ∃ g, entries.foldlM (aggregateEntry accounts) .zero = .ok g := by
  induction entries using List.reverseRecOn with
  | nil => exact ⟨_, rfl⟩
  | append_singleton done e ih =>
    have hlast : e ∈ done ++ [e] := List.mem_append_right _ (List.mem_singleton_self e)
    have hpositive : ∀ x ∈ [e], 0 < x.amount.amountMinor := fun x hx =>
      (h x (List.mem_append_right _ hx)).2
    obtain ⟨g, hg⟩ := ih (fun x hx => h x (List.mem_append_left _ hx))
      (fun x hx => hnormal x (List.mem_append_left _ hx))
      ((sideTotal_le_append hpositive).trans_lt hdebits)
      ((sideTotal_le_append hpositive).trans_lt hcredits)
    obtain ⟨hd, ha⟩ := h e hlast
    have hn := hnormal e hlast
    -- The new total of the account lies between the totals of the two sides.
    have hbounds := signedTotal_onAccount_le hn e.accountID h
    have hdelta := (aggregate_eq_ok hg e.accountID).1
    rw [onAccount_append_self, signedTotal_append] at hbounds
    have hone : signedTotal (normalOf accounts e.accountID) [e] =
        signed e.direction (normalOf accounts e.accountID) e.amount.amountMinor.toInt := by
      simp [signedTotal]
    have hvalid : (normalOf accounts e.accountID).Valid := Direction.valid_iff.2 hn
    obtain ⟨v, hv⟩ : ∃ v, signedAmount e.direction (normalOf accounts e.accountID)
        e.amount.amountMinor = .ok v := by
      simp only [signedAmount, hd, hvalid, Int64.not_le.2 ha, Bool.not_true, Bool.false_eq_true,
        if_false]
      split_ifs
      · exact ⟨_, rfl⟩
      · exact ⟨_, rfl⟩
    obtain ⟨-, -, -, hsigned⟩ := signedAmount_eq_ok hv
    have hfits : -2 ^ 63 ≤ (g.deltas e.accountID).toInt + v.toInt ∧
        (g.deltas e.accountID).toInt + v.toInt < 2 ^ 63 := by
      rw [hdelta, hsigned, ← hone]
      rcases hn with hn | hn
      · rw [hn] at hbounds ⊢
        have hother : Direction.opposite .debit = .credit := rfl
        rw [hother] at hbounds
        omega
      · rw [hn] at hbounds ⊢
        have hother : Direction.opposite .credit = .debit := rfl
        rw [hother] at hbounds
        omega
    have hadd := addInt64_eq_some.2 (toInt_add_of_fits hfits.1 hfits.2)
    refine ⟨⟨Function.update g.deltas e.accountID (g.deltas e.accountID + v),
      Function.update g.lastEntry e.accountID e.id⟩, ?_⟩
    have hstep : aggregateEntry accounts g e = .ok ⟨Function.update g.deltas e.accountID
        (g.deltas e.accountID + v), Function.update g.lastEntry e.accountID e.id⟩ :=
      bind_eq_ok.2 ⟨v, mapError_eq_ok.2 hv, by rw [hadd]; rfl⟩
    rw [List.foldlM_append]
    exact bind_eq_ok.2 ⟨g, hg, bind_eq_ok.2 ⟨_, hstep, rfl⟩⟩

def netOn (normalBalance : Direction) (id : UUID) (requests : List EntryRequest) : ℤ :=
  ((requests.filter fun e => e.accountID = id).map fun e =>
    signed e.direction normalBalance e.amount.amountMinor.toInt).sum

/-- Every account would stay in the range of its balance. -/
def Fits (requests : List EntryRequest) (db : DB) : Prop :=
  ∀ id r, db.accounts.find? id = some r →
    -2 ^ 63 ≤ r.balance.availableMinor.toInt + netOn r.normalBalance id requests ∧
      r.balance.availableMinor.toInt + netOn r.normalBalance id requests < 2 ^ 63

instance (requests : List EntryRequest) (db : DB) : Decidable (Fits requests db) :=
  decidable_of_iff (∀ x ∈ db.accounts.rows,
      -2 ^ 63 ≤ x.2.balance.availableMinor.toInt + netOn x.2.normalBalance x.1 requests ∧
        x.2.balance.availableMinor.toInt + netOn x.2.normalBalance x.1 requests < 2 ^ 63)
    ⟨fun h id r hr => h (id, r) (Table.find?_eq_some.1 hr),
      fun h x hx => h x.1 x.2 (Table.find?_eq_some.2 hx)⟩

/-- A posting or a reversal from its locks up to `applyEntries`. -/
def storeEntries (d : Draws) (header : Transaction) (requests : List EntryRequest) :
    TxM (List JournalEntry) := do
  let _ ← lockAndValidate (sortedAccountIDs requests) requests
  let _ ← Tx.insertTransaction header
  Tx.insertEntries (buildEntries d header.id requests)

/-- If its entries are stored, every account would stay in the range of its balance. -/
def FitsOnceStored (d : Draws) (header : Transaction) (requests : List EntryRequest) (db : DB) :
    Prop :=
  (∃ x, (storeEntries d header requests).run (exec d.now) ⟨db, []⟩ = .ok x) → Fits requests db

theorem signedTotal_postedEntries (d : Draws) (txID : UUID) (requests : List EntryRequest)
    (n : Direction) (id : UUID) :
    signedTotal n (onAccount id (postedEntries d txID requests)) = netOn n id requests := by
  conv_rhs => rw [← map_request_postedEntries d txID requests]
  rw [netOn, List.filter_map, List.map_map]
  rfl

theorem raises_checkFunds_transient {r : AccountRow} {delta : Int64}
    (hlo : -2 ^ 63 ≤ r.balance.availableMinor.toInt + delta.toInt)
    (hhi : r.balance.availableMinor.toInt + delta.toInt < 2 ^ 63) :
    Raises Transient (checkFunds (some (lockedAccount id r)) id delta) := by
  have hadd : addInt64 r.balance.availableMinor delta = some (r.balance.availableMinor + delta) :=
    addInt64_eq_some.2 (toInt_add_of_fits hlo hhi)
  unfold checkFunds
  dsimp only
  split
  · next hnone => cases hadd.symm.trans hnone
  · split_ifs
    · exact raises_error rfl
    · exact raises_ok _

section Loop
variable {accounts : AccountMap} {g : Aggregate} {order : List UUID} {s : TxState}

theorem raises_applyBalance_transient {r : AccountRow}
    (ha : accounts id = some (lockedAccount id r))
    (hlo : -2 ^ 63 ≤ r.balance.availableMinor.toInt + (g.deltas id).toInt)
    (hhi : r.balance.availableMinor.toInt + (g.deltas id).toInt < 2 ^ 63) :
    Raises Transient ((applyBalance accounts g id).run (exec now) s) := by
  refine Prog.raises_bind (Prog.raises_ofExcept ?_) fun _ _ _ => Prog.raises_bind
    (Prog.raises_perform (raises_applyBalanceDelta_transient _).map) fun _ _ _ => raises_ok _
  rw [ha]
  exact raises_checkFunds_transient hlo hhi

theorem raises_applyBalances_transient
    (h : ∀ id ∈ order, ∃ r, accounts id = some (lockedAccount id r) ∧
      -2 ^ 63 ≤ r.balance.availableMinor.toInt + (g.deltas id).toInt ∧
      r.balance.availableMinor.toInt + (g.deltas id).toInt < 2 ^ 63) :
    Raises Transient ((order.mapM' (applyBalance accounts g)).run (exec now) s) := by
  induction order generalizing s with
  | nil => exact raises_ok _
  | cons a order ih =>
    obtain ⟨r, ha, hlo, hhi⟩ := h a List.mem_cons_self
    refine Prog.raises_bind (raises_applyBalance_transient ha hlo hhi) fun _ _ _ =>
      Prog.raises_bind (ih fun id hid => h id (List.mem_cons_of_mem _ hid)) fun _ _ _ => raises_ok _

theorem applyBalance_currency {b : EventBalance} {s' : TxState}
    (h : (applyBalance accounts g id).run (exec now) s = .ok (b, s')) :
    currencyPattern b.available.currency := by
  obtain ⟨_, -, h⟩ := Prog.run_ofExcept_bind_ok.1 h
  obtain ⟨bal, s₂, hb, h⟩ := Prog.run_perform_bind_ok.1 h
  obtain ⟨⟨bal', db'⟩, hdelta, he⟩ := map_eq_ok.1 hb
  cases he
  cases h
  unfold applyBalanceDelta at hdelta
  split at hdelta
  · cases hdelta
  · next r _ =>
    obtain ⟨row, -, hdelta⟩ := bind_eq_ok.1 hdelta
    obtain ⟨available, havailable, hdelta⟩ := bind_eq_ok.1 hdelta
    obtain ⟨pending, -, hdelta⟩ := bind_eq_ok.1 hdelta
    obtain ⟨rfl, -⟩ := Prod.mk.inj (Except.ok.inj hdelta)
    obtain ⟨hpattern, rfl⟩ := newMoney_eq_ok.1 (mapError_eq_ok.1 havailable)
    exact hpattern

theorem applyBalances_currency {bs : List EventBalance} {s' : TxState}
    (h : (order.mapM' (applyBalance accounts g)).run (exec now) s = .ok (bs, s')) :
    ∀ b ∈ bs, currencyPattern b.available.currency := by
  induction order generalizing s bs with
  | nil =>
    cases h
    exact fun _ hb => (nomatch hb)
  | cons a order ih =>
    obtain ⟨b, s₁, hb, h⟩ := Prog.run_bind_ok.1 h
    obtain ⟨bs', s₂, hbs, h⟩ := Prog.run_bind_ok.1 h
    cases h
    intro x hx
    rcases List.mem_cons.1 hx with rfl | hx
    · exact applyBalance_currency hb
    · exact ih hbs x hx

end Loop

/-- The amounts of a transaction are in currencies that there are. -/
def Denominated (t : Transaction) : Prop := ∀ e ∈ t.entries, currencyPattern e.amount.currency

theorem raises_marshal_transient {context : String} {amounts : List Money} {payload : EventPayload}
    (h : ∀ m ∈ amounts, currencyPattern m.currency) :
    Raises Transient (marshal context amounts payload) := by
  refine (raises_mapError (raises_forM fun m hm => ?_)).map
  rw [Money.validate, if_pos (h m hm)]
  exact raises_ok _

theorem raises_appendTransactionEvent_transient (d : Draws) (eventType : String)
    {header : Transaction} (reverses : Option UUID) (reason : String) (s : TxState)
    (hheader : Denominated header)
    (hbalances : ∀ b ∈ balances, currencyPattern b.available.currency) :
    Raises Transient ((appendTransactionEvent d eventType header balances reverses reason).run
      (exec now) s) := by
  have hevent (id : UUID) (e : Event) (s : TxState) :
      Raises Transient ((Tx.appendEvent id e).run (exec now) s) :=
    Prog.raises_perform (raises_append_transient id e).map
  refine Prog.raises_bind (Prog.raises_ofExcept (raises_marshal_transient fun m hm => ?_))
    fun _ _ _ => Prog.raises_bind (hevent _ _ _) fun _ _ _ => Prog.raises_forM fun x hx s => ?_
  · rcases List.mem_append.1 hm with hm | hm
    · obtain ⟨e, he, rfl⟩ := List.mem_map.1 hm
      exact hheader e he
    · obtain ⟨b, hb, rfl⟩ := List.mem_map.1 hm
      exact hbalances b hb
  · refine Prog.raises_bind (Prog.raises_ofExcept (raises_marshal_transient fun m hm => ?_))
      fun _ _ _ => hevent _ _ _
    rw [List.mem_singleton.1 hm]
    exact hbalances x.1 (List.fst_mem_of_mem_zipIdx hx)

/-- The renderer of the key's response, if any, fails on no such transaction for good. -/
def RendersTransient (idem : Option Idempotent) : Prop :=
  ∀ i ∈ idem, ∀ render ∈ i.render, ∀ t, Denominated t → Raises Transient (render t)

theorem raises_completeIdempotency_transient {t : Transaction} (h : RendersTransient idem)
    (ht : Denominated t) (s : TxState) :
    Raises Transient ((completeIdempotency idem t).run (exec now) s) := by
  unfold completeIdempotency
  split
  · exact raises_ok _
  · next i =>
    split
    · exact raises_error rfl
    · next render hrender =>
      exact Prog.raises_bind (Prog.raises_ofExcept (raises_mapError (h i rfl render hrender t ht)))
        fun _ _ _ => Prog.raises_perform (raises_complete_transient _).map

/-- Requests that pass the checks of the service, and whose two sides fit. -/
structure Sized (requests : List EntryRequest) : Prop where
  entries : ∀ e ∈ requests, e.direction.Valid ∧ 0 < e.amount.amountMinor
  debits : sideTotal .debit (requests.map EntryRequest.leg) < 2 ^ 63
  credits : sideTotal .credit (requests.map EntryRequest.leg) < 2 ^ 63

section Programs
variable {d : Draws} {header : Transaction} {requests : List EntryRequest} {accounts : AccountMap}
  {s s' : TxState}

theorem aggregate_locked (hsized : Sized requests)
    (hlock : (lockAndValidate (sortedAccountIDs requests) requests).run (exec d.now) s =
      .ok (accounts, s')) (txID : UUID) :
    ∃ g, (postedEntries d txID requests).foldlM (aggregateEntry accounts) .zero = .ok g := by
  obtain ⟨-, hlocked, -⟩ := lockAndValidate_eq_ok hlock
  have hlegs := map_leg_postedEntries d txID requests
  refine aggregate_ok (fun e he => ?_) (fun e he => ?_) (hlegs ▸ hsized.debits)
    (hlegs ▸ hsized.credits)
  · obtain ⟨_, request, hrequest, -, rfl⟩ := mem_postedEntries he
    exact hsized.entries request hrequest
  · obtain ⟨r, -, -, ha⟩ := hlocked e.accountID (mem_accounts_postedEntries.1 ⟨e, he, rfl⟩)
    have hn : normalOf accounts e.accountID = r.normalBalance := by
      simp [normalOf, ha, lockedAccount]
    rw [hn, r.normal_balance_matches_type_check]
    exact AccountType.normalBalance_cases _

/-- After the checks, and as long as the balances stay in range, only the world refuses. -/
theorem raises_writeTransaction_transient (hsized : Sized requests)
    (hfits : FitsOnceStored d header requests db)
    (hlock : (lockAndValidate (sortedAccountIDs requests) requests).run (exec d.now) ⟨db, []⟩ =
      .ok (accounts, ⟨db, []⟩)) :
    Raises Transient ((writeTransaction d header requests accounts (sortedAccountIDs requests)).run
      (exec d.now) ⟨db, []⟩) := by
  obtain ⟨-, hlocked, hcurrency⟩ := lockAndValidate_eq_ok hlock
  refine Prog.raises_bind (Prog.raises_perform (raises_insertTransaction_transient _).map)
    fun times s₁ h₁ => ?_
  obtain ⟨⟨times', db₁⟩, hinsert, he⟩ := map_eq_ok.1
    ((Prog.run_perform (TxCall.insertTransaction header)).symm.trans h₁)
  cases he
  obtain ⟨row, transactions, -, -, -, -, rfl⟩ := insertTransaction_eq_ok hinsert
  have hadmitted : ∀ e ∈ buildEntries d header.id requests,
      EntryAdmitted { db with transactions } e := by
    intro e he
    obtain ⟨⟨request, i⟩, hrequest, rfl⟩ := List.mem_map.1 he
    have hmem : request ∈ requests := List.fst_mem_of_mem_zipIdx hrequest
    obtain ⟨r, hr, -, ha⟩ := hlocked request.accountID (mem_sortedAccountIDs.2 ⟨request, hmem, rfl⟩)
    refine ⟨(hsized.entries request hmem).2, ?_⟩
    rw [hcurrency request hmem, ha, hr]
    rfl
  refine Prog.raises_bind (Prog.raises_perform (raises_insertEntries_transient hadmitted))
    fun entries s₂ h₂ => ?_
  have hfits := hfits ⟨_, Prog.run_bind_ok.2 ⟨_, _, hlock, Prog.run_bind_ok.2 ⟨_, _, h₁, h₂⟩⟩⟩
  obtain ⟨rfl, -, -, -, journal, hdb⟩ := insertEntries_eq_ok
    ((Prog.run_perform (TxCall.insertEntries _)).symm.trans h₂)
  refine Prog.raises_bind ?_ fun _ _ _ => raises_ok _
  obtain ⟨g, hg⟩ := aggregate_locked hsized hlock header.id
  refine Prog.raises_bind (Prog.raises_ofExcept ?_) fun g' s₃ h₃ => ?_
  · change Raises Transient ((postedEntries d header.id requests).foldlM (aggregateEntry accounts) .zero)
    rw [hg]
    exact raises_ok g
  · obtain ⟨_, hg', he⟩ := map_eq_ok.1 (Prog.run_ofExcept _ ▸ h₃)
    cases he
    obtain rfl : g = g' := Except.ok.inj (hg.symm.trans hg')
    refine raises_applyBalances_transient fun id hid => ?_
    obtain ⟨r, hr, -, ha⟩ := hlocked id hid
    have hn : normalOf accounts id = r.normalBalance := by simp [normalOf, ha, lockedAccount]
    obtain ⟨hlo, hhi⟩ := hfits id r hr
    rw [← signedTotal_postedEntries d header.id requests, ← hn, ← (aggregate_eq_ok hg id).1] at hlo hhi
    exact ⟨r, ha, hlo, hhi⟩

theorem writeTransaction_denominated {t : Transaction} {s'' : TxState}
    (hlock : (lockAndValidate (sortedAccountIDs requests) requests).run (exec d.now) s =
      .ok (accounts, s'))
    (h : (writeTransaction d header requests accounts (sortedAccountIDs requests)).run
      (exec d.now) s = .ok ((t, balances), s'')) :
    Denominated t ∧ ∀ b ∈ balances, currencyPattern b.available.currency := by
  have hbalances : ∀ b ∈ balances, currencyPattern b.available.currency := by
    obtain ⟨_, _, -, h⟩ := Prog.run_perform_bind_ok.1 h
    obtain ⟨_, _, -, h⟩ := Prog.run_perform_bind_ok.1 h
    obtain ⟨bs, _, happly, h⟩ := Prog.run_bind_ok.1 h
    cases h
    obtain ⟨g, -, happly⟩ := Prog.run_ofExcept_bind_ok.1 happly
    exact applyBalances_currency happly
  obtain ⟨-, hlocked, -⟩ := lockAndValidate_eq_ok hlock
  obtain ⟨rfl, hwritten⟩ := writeTransaction_eq_ok hlocked h
  refine ⟨fun e he => ?_, hbalances⟩
  obtain ⟨r, -, hcurrency⟩ := hwritten.known e he
  rw [← hcurrency]
  exact r.currency_check

/-- Locking refuses for good only what names an account of another currency. -/
theorem raises_lockAndValidate_transient
    (h : ∀ e ∈ requests, ∀ r, s.db.accounts.find? e.accountID = some r →
      r.currency = e.amount.currency) :
    Raises Transient ((lockAndValidate (sortedAccountIDs requests) requests).run (exec d.now) s) := by
  refine Prog.raises_bind (Prog.raises_perform (raises_ok _)) fun locked s₁ hl => ?_
  obtain ⟨rfl, rfl⟩ : lockAccounts (sortedAccountIDs requests) s.db = locked ∧ s = s₁ :=
    Prod.mk.inj (Except.ok.inj ((Prog.run_perform (TxCall.lockAccounts _)).symm.trans hl))
  refine Prog.raises_bind (Prog.raises_ofExcept (raises_forM fun id _ => ?_)) fun _ s₂ hp =>
    Prog.raises_bind (Prog.raises_ofExcept (raises_forM fun x hx => ?_)) fun _ _ _ => raises_ok _
  · unfold checkPostable
    split
    · exact raises_error rfl
    · split_ifs
      · exact raises_ok _
      · exact raises_error rfl
  · obtain ⟨_, hpostable, -⟩ := map_eq_ok.1 (Prog.run_ofExcept _ ▸ hp)
    have hmem := List.fst_mem_of_mem_zipIdx hx
    have hid : x.1.accountID ∈ sortedAccountIDs requests := mem_sortedAccountIDs.2 ⟨x.1, hmem, rfl⟩
    obtain ⟨a, ha, -⟩ := checkPostable_eq_ok (forM_eq_ok.1 hpostable _ hid)
    unfold checkCurrency
    dsimp only
    rw [if_pos]
    · exact raises_ok _
    · rw [ha]
      rw [accountMap_lockAccounts hid] at ha
      obtain ⟨r, hr, rfl⟩ := Option.map_eq_some_iff.1 ha
      exact (h x.1 hmem r hr).symm

end Programs

/-- Every entry is in the currency of the account it names. -/
def InCurrency (entries : List EntryRequest) (db : DB) : Prop :=
  ∀ e ∈ entries, ∀ r, db.accounts.find? e.accountID = some r → r.currency = e.amount.currency

theorem InCurrency.routed {entries : List EntryRequest} (h : InCurrency entries db)
    (hs : Shards SameKind db) (d : Draws) : InCurrency (routed d entries db) db := by
  intro e' he' r hr
  obtain ⟨e, he, rfl⟩ := List.mem_map.1 he'
  rcases routedAccount_cases d entries db e.accountID with hstay | ⟨shard, hshard, hparent, -⟩
  · rw [hstay] at hr
    exact h e he r hr
  · obtain rfl : r = shard := Option.some.inj (hr.symm.trans hshard)
    obtain ⟨parent, hfound, -, hkind⟩ := hs _ r _ hr hparent
    exact hkind.currency.trans (h e he parent hfound)

theorem postTransaction_inCurrency {d : Draws} {t : Transaction} {db' : DB}
    (hs : Shards SameKind db) (hooks : Recording req.record)
    (h : postTransaction d txID req db = .ok (t, db')) : InCurrency req.entries db := by
  intro e he r hr
  have hrequest : { e with accountID := routedAccount d req.entries db e.accountID } ∈
      t.entries.map JournalEntry.request := by
    rw [postTransaction_entries h, map_request_postedEntries]
    exact List.mem_map_of_mem he
  obtain ⟨posted, hposted, hrequest⟩ := List.mem_map.1 hrequest
  obtain ⟨r', hr', hcurrency⟩ := (postTransaction_committed hooks h).1.known posted hposted
  have haccount : posted.accountID = routedAccount d req.entries db e.accountID :=
    congrArg EntryRequest.accountID hrequest
  have hamount : posted.amount = e.amount := congrArg EntryRequest.amount hrequest
  rw [haccount] at hr'
  rw [hamount] at hcurrency
  rcases routedAccount_cases d req.entries db e.accountID with hstay | ⟨shard, hshard, hparent, -⟩
  · rw [hstay, hr] at hr'
    cases hr'
    exact hcurrency
  · obtain ⟨parent, hfound, -, hkind⟩ := hs _ shard _ hshard hparent
    obtain rfl : shard = r' := Option.some.inj (hshard.symm.trans hr')
    obtain rfl : r = parent := Option.some.inj (hr.symm.trans hfound)
    exact hkind.currency.symm.trans hcurrency

theorem TransactionRequest.validate_sized (h : req.validate = .ok ()) (d : Draws) :
    Sized (routed d req.entries db) := by
  have hlegs := map_leg_of_routes (routed_routes d req.entries db)
  obtain ⟨-, currency, total, htotals⟩ := TransactionRequest.validate_totals h
  refine ⟨fun e he => ?_, ?_, ?_⟩
  · obtain ⟨e₀, he₀, rfl⟩ := List.mem_map.1 he
    exact TransactionRequest.validate_entries h e₀ he₀
  · rw [hlegs, ← htotals.debits]
    exact total.amountMinor.toInt_lt
  · rw [hlegs, ← htotals.credits]
    exact total.amountMinor.toInt_lt

theorem raises_announce_transient {d : Draws} {eventType reason : String} {header : Transaction}
    {reverses : Option UUID} (hheader : Denominated header)
    (hbalances : ∀ b ∈ balances, currencyPattern b.available.currency)
    (hrender : RendersTransient idem) (s : TxState) :
    Raises Transient ((do
      appendTransactionEvent d eventType header balances reverses reason
      runRecord none header
      completeIdempotency idem header
      pure header : TxM Transaction).run (exec now) s) :=
  Prog.raises_bind (raises_appendTransactionEvent_transient _ _ _ _ _ hheader hbalances)
    fun _ _ _ => Prog.raises_bind (raises_ok _) fun _ _ _ => Prog.raises_bind
    (raises_completeIdempotency_transient hrender hheader _) fun _ _ _ => raises_ok _

theorem raises_inTx_transient {p : TxM Transaction} (hp : Raises Transient (p.run (exec now) ⟨db, []⟩))
    (hcommit : ∀ t s, p.run (exec now) ⟨db, []⟩ = .ok (t, s) → commit s = .ok s.db) :
    Raises Transient (inTx now p db) := by
  refine hp.bind fun ⟨t, s⟩ hrun => ?_
  dsimp only
  rw [hcommit t s hrun]
  exact raises_ok _

/-- A posting that validates, in the currencies of its accounts, is refused for good only if a
balance would leave its range. -/
theorem raises_postTransaction_transient {d : Draws} (hdb : Referenced db) (hs : Shards SameKind db)
    (hvalid : req.validate = .ok ()) (hcurrency : InCurrency req.entries db)
    (hfits : FitsOnceStored d (postHeader txID req.withKey) (routed d req.entries db) db)
    (hrecord : req.record = none) (hrender : RendersTransient req.idempotency) :
    Raises Transient (postTransaction d txID req db) := by
  have hooks : Recording req.record := by simp [Recording, hrecord]
  have hentries : req.withKey.entries = req.entries := entries_withKey
  have hidem : req.withKey.idempotency = req.idempotency := by
    unfold TransactionRequest.withKey
    split <;> rfl
  unfold postTransaction
  rw [hvalid]
  refine Raises.bind (raises_ok _) fun _ _ => raises_inTx_transient ?_ fun t s hrun =>
    postTx_commits hdb hooks hvalid hrun
  unfold postTx
  refine Prog.raises_bind ?_ fun requests s₁ hroute => ?_
  · rw [run_routeToShards]
    exact raises_ok _
  cases (run_routeToShards d req.withKey.entries ⟨db, []⟩).symm.trans hroute
  rw [hentries]
  refine Prog.raises_bind (raises_lockAndValidate_transient (hcurrency.routed hs d))
    fun accounts s₂ hlock => ?_
  obtain ⟨rfl, -, -⟩ := lockAndValidate_eq_ok hlock
  refine Prog.raises_bind (raises_writeTransaction_transient
    (TransactionRequest.validate_sized hvalid d) hfits hlock) ?_
  rintro ⟨header, balances⟩ s₃ hwrite
  obtain ⟨hheader, hbalances⟩ := writeTransaction_denominated hlock hwrite
  rw [record_withKey, hrecord, hidem]
  exact raises_announce_transient hheader hbalances hrender s₃

/-- The entries of every transaction fit, on each side. -/
def Bounded (db : DB) : Prop :=
  ∀ txID ∈ db.transactions.keys,
    sideTotal .debit ((transactionEntries txID db).map JournalEntry.leg) < 2 ^ 63

theorem journalEntries_positive {e : JournalEntry} (h : e ∈ journalEntries db) :
    0 < e.amount.amountMinor := by
  obtain ⟨⟨id, r⟩, -, rfl⟩ := List.mem_map.1 h
  exact r.amount_check

theorem load_transient (hdb : Referenced db) (txID : UUID) :
    Raises Transient (loadTransactionForUpdate txID db) := by
  unfold loadTransactionForUpdate
  split
  · exact raises_error rfl
  · refine Raises.bind (raises_forM fun e he => ?_) fun _ _ => raises_ok _
    rw [List.mem_insertionSort, map_toEntry_entriesOf] at he
    obtain ⟨r, -, hcurrency⟩ := hdb.accounts e (List.mem_filter.1 he).1
    rw [← hcurrency, newMoney_account]
    exact raises_ok _

theorem load_entries {original : Transaction}
    (h : loadTransactionForUpdate txID db = .ok original) :
    original.entries.Perm (transactionEntries txID db) := by
  obtain ⟨r, -, -, -, hentries⟩ := loadTransactionForUpdate_eq_ok h
  rw [hentries, map_toEntry_entriesOf]
  exact List.perm_insertionSort _ _

theorem mirrored_sized {original : Transaction}
    (h : loadTransactionForUpdate txID db = .ok original) (hdouble : DoubleEntries db)
    (hbounded : Bounded db) : Sized (mirrored original.entries) := by
  have hperm := load_entries h
  obtain ⟨r, hr, -⟩ := loadTransactionForUpdate_eq_ok h
  have hkey : txID ∈ db.transactions.keys := Table.mem_keys.2 ⟨r, hr⟩
  have hmem {e : JournalEntry} (he : e ∈ original.entries) : e ∈ journalEntries db :=
    (List.mem_filter.1 (hperm.mem_iff.1 he)).1
  have hvalid : ∀ l ∈ original.entries.map JournalEntry.leg, l.1.Valid := by
    intro l hl
    obtain ⟨e, he, rfl⟩ := List.mem_map.1 hl
    exact journalEntries_valid (hmem he)
  have hlegs : (mirrored original.entries).map EntryRequest.leg =
      (original.entries.map JournalEntry.leg).map Leg.mirror := by
    simp [mirrored, Function.comp_def, EntryRequest.leg, JournalEntry.leg, Leg.mirror]
  obtain ⟨hd, hc⟩ := sideTotal_mirror hvalid
  have hbound := hbounded txID hkey
  have hbalanced := (hdouble txID hkey).balanced
  rw [← sideTotal_perm (hperm.map JournalEntry.leg)] at hbound hbalanced
  rw [← sideTotal_perm (hperm.map JournalEntry.leg)] at hbalanced
  refine ⟨fun e he => ?_, ?_, ?_⟩
  · obtain ⟨e₀, he₀, rfl⟩ := List.mem_map.1 he
    refine ⟨?_, journalEntries_positive (hmem he₀)⟩
    rcases Direction.valid_iff.1 (journalEntries_valid (hmem he₀)) with hdir | hdir <;>
      simp [hdir, Direction.opposite, Direction.valid_iff]
  · rw [hlegs, hd, ← hbalanced]
    exact hbound
  · rw [hlegs, hc]
    exact hbound

/-- A reversal with a reason, of a transaction that is posted if it is there, is refused for good
only if a balance would leave its range. -/
theorem raises_doReverse_transient {d : Draws} {reversalID : UUID} {reason : String}
    (hdb : Referenced db) (hdouble : DoubleEntries db) (hbounded : Bounded db)
    (hreason : reason ≠ "") (hposted : ∀ status ∈ statusOf txID db, status = .posted)
    (hfits : ∀ original, loadTransactionForUpdate txID db = .ok original →
      FitsOnceStored d (reversalHeader reversalID txID reason idem) (mirrored original.entries) db)
    (hrender : RendersTransient idem) :
    Raises Transient (doReverse d reversalID txID reason idem none db) := by
  unfold doReverse
  rw [if_neg hreason]
  refine raises_inTx_transient ?_ fun t s hrun =>
    reverseTx_commits hdb (hdouble.balanced hdb txID) recording_none hrun
  unfold reverseTx
  refine Prog.raises_bind (Prog.raises_perform (load_transient hdb txID).map) fun original s₁ h => ?_
  obtain ⟨_, hload, he⟩ := map_eq_ok.1
    ((Prog.run_perform (TxCall.loadTransactionForUpdate txID)).symm.trans h)
  cases he
  obtain ⟨r, hr, -, hstatus, -⟩ := loadTransactionForUpdate_eq_ok hload
  have hperm := load_entries hload
  have hsized := mirrored_sized hload hdouble hbounded
  have hnonempty : original.entries ≠ [] := by
    have htwo := (hdouble txID (Table.mem_keys.2 ⟨r, hr⟩)).two_legs
    rw [List.length_map, ← hperm.length_eq] at htwo
    exact List.ne_nil_of_length_pos (by omega)
  have hcheck : checkReversible txID original = .ok () := by
    have : original.status = .posted := hstatus.trans (hposted _ (by simp [statusOf, hr]))
    simp [checkReversible, this, hnonempty]
  rw [hcheck]
  refine Prog.raises_bind (raises_ok _) fun _ s₂ hs₂ => ?_
  cases hs₂
  refine Prog.raises_bind (raises_lockAndValidate_transient fun e he r hr => ?_)
    fun accounts s₃ hlock => ?_
  · obtain ⟨e₀, he₀, rfl⟩ := List.mem_map.1 he
    obtain ⟨r', hr', hcurrency⟩ := hdb.accounts e₀ (List.mem_filter.1 (hperm.mem_iff.1 he₀)).1
    obtain rfl : r = r' := Option.some.inj (hr.symm.trans hr')
    exact hcurrency
  obtain ⟨rfl, hlocked, -⟩ := lockAndValidate_eq_ok hlock
  refine Prog.raises_bind (raises_writeTransaction_transient hsized (hfits original hload) hlock)
    ?_
  rintro ⟨header, balances⟩ s₄ hwrite
  obtain ⟨hheader, hbalances⟩ := writeTransaction_denominated hlock hwrite
  obtain ⟨rfl, hwritten⟩ := writeTransaction_eq_ok hlocked hwrite
  refine Prog.raises_bind (Prog.raises_perform (Raises.map ?_)) fun _ _ _ =>
    raises_announce_transient hheader hbalances hrender _
  -- The reversal's own header is new, so the transaction is as it was.
  have hne : txID ≠ reversalID := by
    rintro rfl
    have hfresh := (Table.insert?_eq_some.1 hwritten.row.choose_spec.2).1
    cases hfresh.symm.trans hr
  have hsome : statusOf txID db = some r.status := by simp [statusOf, hr]
  have hstill : statusOf txID s₄.db = some .posted :=
    ((hwritten.statusOf txID).trans (if_neg hne)).trans
      (hsome.trans (congrArg some (hposted _ hsome)))
  have hmarked : markReversed txID s₄.db = _ := if_pos hstill
  rw [hmarked]
  exact raises_ok _

end LedgerCore.Ledger
