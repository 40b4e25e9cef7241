import LedgerCore.Ledger.Engine

/-! Why the locks of a ledger transaction are enough: what each statement reads is locked, or
does not change. -/
namespace LedgerCore.Ledger
open LedgerCore.Program

variable {L L' : Lock → Prop} {db db' db'' : DB}

/-- The columns that routing and foreign keys read; nothing in a ledger transaction writes them. -/
def accountColumns (accounts : Table UUID AccountRow) : List (UUID × AccountColumns) :=
  accounts.rows.map fun r => (r.1, r.2.toAccountColumns)

structure KeptAccounts (L : Lock → Prop) (t u : Table UUID AccountRow) : Prop where
  columns : accountColumns u = accountColumns t
  fixed : t.Fixed (fun id => L (.account id)) u

def hasKey (t : Table UUID TransactionRow) (principalID key : String) : Bool :=
  t.values.any fun r => r.principalID = principalID && r.idempotencyKey = some key

structure KeptTransactions (L : Lock → Prop) (t u : Table UUID TransactionRow) : Prop where
  fixed : t.Fixed (fun id => L (.transaction id)) u
  keys : ∀ principalID key, L (.transactionKey principalID key) →
    hasKey u principalID key = hasKey t principalID key
  known : ∀ id, u.find? id = none → t.find? id = none

structure KeptJournal (L : Lock → Prop) (t u : Table UUID JournalRow) : Prop where
  fixed : t.Fixed (fun id => L (.entry id)) u
  entries : ∀ id, L (.transaction id) →
    (u.rows.filter fun r => r.2.transactionID = id) = t.rows.filter fun r => r.2.transactionID = id

structure KeptSagas (L : Lock → Prop) (t u : Table UUID SagaRow) : Prop where
  fixed : t.Fixed (fun id => L (.saga id)) u
  known : ∀ id, u.find? id = none → t.find? id = none

def hasAttempt (t : Table UUID StepRow) (sagaID : UUID) (step : Saga.Step)
    (direction : Saga.Direction) (number : ℕ) : Bool :=
  t.values.any fun r => r.sagaID = sagaID ∧ r.step = step ∧ r.direction = direction ∧
    r.attempt = number

structure KeptSteps (L : Lock → Prop) (t u : Table UUID StepRow) : Prop where
  fixed : t.Fixed (fun id => L (.step id)) u
  attempts : ∀ sagaID step direction number, L (.attempt sagaID step direction number) →
    hasAttempt u sagaID step direction number = hasAttempt t sagaID step direction number

/-- What others can make of the database while the locks in `L` are held. -/
structure Kept (L : Lock → Prop) (db db' : DB) : Prop where
  accounts : KeptAccounts L db.accounts db'.accounts
  transactions : KeptTransactions L db.transactions db'.transactions
  journal : KeptJournal L db.journal db'.journal
  outbox : db.outbox.Fixed (fun id => L (.event id)) db'.outbox
  idempotencyKeys :
    db.idempotencyKeys.Fixed (fun k => L (.idempotencyKey k.1 k.2)) db'.idempotencyKeys
  sagaInstances : KeptSagas L db.sagaInstances db'.sagaInstances
  sagaSteps : KeptSteps L db.sagaSteps db'.sagaSteps

theorem KeptAccounts.refl {t : Table UUID AccountRow} : KeptAccounts L t t := ⟨rfl, .refl⟩

theorem KeptTransactions.refl {t : Table UUID TransactionRow} : KeptTransactions L t t :=
  ⟨.refl, fun _ _ _ => rfl, fun _ h => h⟩

theorem KeptJournal.refl {t : Table UUID JournalRow} : KeptJournal L t t := ⟨.refl, fun _ _ => rfl⟩

theorem KeptSagas.refl {t : Table UUID SagaRow} : KeptSagas L t t := ⟨.refl, fun _ h => h⟩

theorem KeptSteps.refl {t : Table UUID StepRow} : KeptSteps L t t := ⟨.refl, fun _ _ _ _ _ => rfl⟩

theorem Kept.refl (L : Lock → Prop) (db : DB) : Kept L db db :=
  ⟨.refl, .refl, .refl, .refl, .refl, .refl, .refl⟩

theorem Kept.trans (h : Kept L db db') (h' : Kept L db' db'') : Kept L db db'' where
  accounts := ⟨h'.accounts.columns.trans h.accounts.columns, h.accounts.fixed.trans h'.accounts.fixed⟩
  transactions :=
    ⟨h.transactions.fixed.trans h'.transactions.fixed,
      fun p k hl => (h'.transactions.keys p k hl).trans (h.transactions.keys p k hl),
      fun id hid => h.transactions.known id (h'.transactions.known id hid)⟩
  journal :=
    ⟨h.journal.fixed.trans h'.journal.fixed,
      fun id hl => (h'.journal.entries id hl).trans (h.journal.entries id hl)⟩
  outbox := h.outbox.trans h'.outbox
  idempotencyKeys := h.idempotencyKeys.trans h'.idempotencyKeys
  sagaInstances :=
    ⟨h.sagaInstances.fixed.trans h'.sagaInstances.fixed,
      fun id hid => h.sagaInstances.known id (h'.sagaInstances.known id hid)⟩
  sagaSteps :=
    ⟨h.sagaSteps.fixed.trans h'.sagaSteps.fixed, fun i s d n hl =>
      (h'.sagaSteps.attempts i s d n hl).trans (h.sagaSteps.attempts i s d n hl)⟩

theorem Kept.mono (hL : ∀ l, L' l → L l) (h : Kept L db db') : Kept L' db db' where
  accounts := ⟨h.accounts.columns, h.accounts.fixed.mono fun _ => hL _⟩
  transactions :=
    ⟨h.transactions.fixed.mono fun _ => hL _, fun p k hl => h.transactions.keys p k (hL _ hl),
      h.transactions.known⟩
  journal := ⟨h.journal.fixed.mono fun _ => hL _, fun id hl => h.journal.entries id (hL _ hl)⟩
  outbox := h.outbox.mono fun _ => hL _
  idempotencyKeys := h.idempotencyKeys.mono fun _ => hL _
  sagaInstances := ⟨h.sagaInstances.fixed.mono fun _ => hL _, h.sagaInstances.known⟩
  sagaSteps :=
    ⟨h.sagaSteps.fixed.mono fun _ => hL _, fun i s d n hl => h.sagaSteps.attempts i s d n (hL _ hl)⟩

section Accounts
variable {t u : Table UUID AccountRow} {id : UUID} {f : AccountRow → AccountRow}

theorem accountColumns_modify (hf : ∀ r, (f r).toAccountColumns = r.toAccountColumns) :
    accountColumns (t.modify id f) = accountColumns t := by
  simp only [accountColumns, Table.modify, Table.map, List.map_map]
  refine List.map_congr_left fun r _ => ?_
  simp only [Function.comp_apply]
  split_ifs
  · rw [hf]
  · rfl

theorem KeptAccounts.modify (h : KeptAccounts L t u)
    (hf : ∀ r, (f r).toAccountColumns = r.toAccountColumns) :
    KeptAccounts L (t.modify id f) (u.modify id f) :=
  ⟨by rw [accountColumns_modify hf, accountColumns_modify hf, h.columns], h.fixed.modify f⟩

theorem keptAccounts_modify (hid : ¬L (.account id))
    (hf : ∀ r, (f r).toAccountColumns = r.toAccountColumns) : KeptAccounts L t (t.modify id f) :=
  ⟨accountColumns_modify hf, Table.fixed_modify (K := fun id => L (.account id)) hid f⟩

end Accounts

section Transactions
variable {t t' u u' : Table UUID TransactionRow} {id : UUID} {r : TransactionRow}

theorem KeptTransactions.insert (h : KeptTransactions L t u) (ht : t.insert? id r = some t')
    (hu : u.insert? id r = some u') : KeptTransactions L t' u' := by
  refine ⟨h.fixed.insert ht hu, fun p k hl => ?_, fun id' hid' => ?_⟩
  · rw [hasKey, hasKey, Table.any_values_insert _ ht, Table.any_values_insert _ hu]
    exact congrArg (· || _) (h.keys p k hl)
  · obtain ⟨hne, hnone⟩ := Table.find?_eq_none_of_insert hu hid'
    rw [Table.find?_insert ht, if_neg hne]
    exact h.known id' hnone

theorem keptTransactions_insert (ht : t.insert? id r = some t') (hid : ¬L (.transaction id))
    (hkey : ∀ key, r.idempotencyKey = some key → ¬L (.transactionKey r.principalID key)) :
    KeptTransactions L t t' := by
  refine ⟨Table.fixed_insert hid ht, fun p k hl => ?_, fun id' hid' =>
    (Table.find?_eq_none_of_insert ht hid').2⟩
  have hother : (r.principalID = p && r.idempotencyKey = some k : Bool) = false := by
    by_contra hsame
    simp only [Bool.not_eq_false, Bool.and_eq_true, decide_eq_true_eq] at hsame
    exact hkey k hsame.2 (hsame.1 ▸ hl)
  rw [hasKey, Table.any_values_insert _ ht, hother, Bool.or_false]
  rfl

theorem hasKey_reversed (t : Table UUID TransactionRow) (id : UUID) (p k : String) :
    hasKey (t.modify id reversedRow) p k = hasKey t p k := by
  refine Table.any_values_modify fun r => ?_
  unfold reversedRow
  split_ifs <;> rfl

theorem KeptTransactions.reverse (h : KeptTransactions L t u) :
    KeptTransactions L (t.modify id reversedRow) (u.modify id reversedRow) := by
  refine ⟨h.fixed.modify _, fun p k hl => ?_, fun id' hid' => ?_⟩
  · rw [hasKey_reversed, hasKey_reversed]
    exact h.keys p k hl
  · exact Table.find?_modify_eq_none.2 (h.known id' (Table.find?_modify_eq_none.1 hid'))

theorem keptTransactions_reverse (hid : ¬L (.transaction id)) :
    KeptTransactions L t (t.modify id reversedRow) :=
  ⟨Table.fixed_modify (K := fun id => L (.transaction id)) hid _, fun p k _ => hasKey_reversed t id p k,
    fun _ h => Table.find?_modify_eq_none.1 h⟩

end Transactions

section Journal
variable {t t' u u' : Table UUID JournalRow} {l : List (UUID × JournalRow)}

theorem KeptJournal.append (h : KeptJournal L t u) (ht : t'.rows = t.rows ++ l)
    (hu : u'.rows = u.rows ++ l) : KeptJournal L t' u' := by
  refine ⟨h.fixed.append ht hu, fun id hl => ?_⟩
  rw [ht, hu, List.filter_append, List.filter_append, h.entries id hl]

theorem keptJournal_append (ht : t'.rows = t.rows ++ l) (hid : ∀ r ∈ l, ¬L (.entry r.1))
    (htx : ∀ r ∈ l, ¬L (.transaction r.2.transactionID)) : KeptJournal L t t' := by
  refine ⟨Table.fixed_append hid ht, fun id hl => ?_⟩
  have hnil : (l.filter fun r => r.2.transactionID = id) = [] :=
    List.filter_eq_nil_iff.2 fun r hr hrid => htx r hr (of_decide_eq_true hrid ▸ hl)
  rw [ht, List.filter_append, hnil, List.append_nil]

end Journal

section Sagas
variable {t u : Table UUID SagaRow} {id : UUID}

theorem KeptSagas.modify (h : KeptSagas L t u) (f : SagaRow → SagaRow) :
    KeptSagas L (t.modify id f) (u.modify id f) :=
  ⟨h.fixed.modify f, fun id' hid' =>
    Table.find?_modify_eq_none.2 (h.known id' (Table.find?_modify_eq_none.1 hid'))⟩

theorem keptSagas_modify (hid : ¬L (.saga id)) (f : SagaRow → SagaRow) :
    KeptSagas L t (t.modify id f) :=
  ⟨Table.fixed_modify (K := fun id => L (.saga id)) hid f, fun _ h => Table.find?_modify_eq_none.1 h⟩

variable {s s' v v' : Table UUID StepRow} {r : StepRow}

theorem KeptSteps.insert (h : KeptSteps L s v) (hs : s.insert? id r = some s')
    (hv : v.insert? id r = some v') : KeptSteps L s' v' := by
  refine ⟨h.fixed.insert hs hv, fun i st d n hl => ?_⟩
  rw [hasAttempt, hasAttempt, Table.any_values_insert _ hs, Table.any_values_insert _ hv]
  exact congrArg (· || _) (h.attempts i st d n hl)

theorem keptSteps_insert (hs : s.insert? id r = some s') (hid : ¬L (.step id))
    (hattempt : ¬L (.attempt r.sagaID r.step r.direction r.attempt)) : KeptSteps L s s' := by
  refine ⟨Table.fixed_insert hid hs, fun i st d n hl => ?_⟩
  have hother : (decide (r.sagaID = i ∧ r.step = st ∧ r.direction = d ∧ r.attempt = n)) = false := by
    refine decide_eq_false ?_
    rintro ⟨rfl, rfl, rfl, rfl⟩
    exact hattempt hl
  rw [hasAttempt, Table.any_values_insert _ hs, hother, Bool.or_false]
  rfl

end Sagas

/-- The statement does on `u` what it did on the session's state: the same reply, and the same
rows written. -/
def Repeats (L : Lock → Prop) (now : Time) (c : TxCall) (s : TxState) (r : TxReply c) (s' : TxState)
    (u : DB) : Prop :=
  ∃ u', exec now c { s with db := u } = .ok (r, { s' with db := u' }) ∧
    (changes s.db s'.db).apply u = u' ∧ Kept L s'.db u'

section Statements
variable {now : Time} {s s' : TxState} {u : DB}

theorem apply_changes_self : (changes db db).apply u = u := by simp [changes, Patch.apply]

theorem repeats_read {c : TxCall} {r : TxReply c} (h : Kept L s.db u)
    (hu : exec now c { s with db := u } = .ok (r, { s with db := u })) :
    Repeats L now c s r s u :=
  ⟨u, hu, apply_changes_self, h⟩

theorem resolveShards_eq (h : accountColumns u.accounts = accountColumns db.accounts)
    (ids : List UUID) : resolveShards ids u = resolveShards ids db := by
  -- Both are the same computation on the columns.
  have hcols (db : DB) (parent : UUID) :
      ((db.accounts.rows.filter fun r => r.2.parentAccountID = some parent ∧ r.2.status = .active)
        |>.insertionSort fun a b => a.2.shardIndex.getD 0 ≤ b.2.shardIndex.getD 0).map
          (fun r => (r.1, r.2.toAccountColumns)) =
      (((accountColumns db.accounts).filter fun r =>
        r.2.parentAccountID = some parent ∧ r.2.status = .active).insertionSort
          fun a b => a.2.shardIndex.getD 0 ≤ b.2.shardIndex.getD 0) := by
    rw [accountColumns, List.filter_map]
    exact List.map_insertionSort _ _ _ _ fun a _ b _ => Iff.rfl
  refine List.filterMap_congr fun parent _ => ?_
  have hsame := (hcols u parent).trans (h ▸ (hcols db parent).symm)
  have hfst := congrArg (List.map Prod.fst) hsame
  simp only [List.map_map, Function.comp_def] at hfst
  dsimp only
  simp only [← List.map_eq_nil_iff (f := Prod.fst), hfst]

theorem keys_eq_of_columns {t u : Table UUID AccountRow} (h : accountColumns u = accountColumns t) :
    u.keys = t.keys := by
  have hfst := congrArg (List.map Prod.fst) h
  simp only [accountColumns, List.map_map] at hfst
  exact hfst

theorem lockAccounts_eq {ids : List UUID} (h : KeptAccounts L db.accounts u.accounts)
    (hL : ∀ id ∈ ids, L (.account id)) : lockAccounts ids u = lockAccounts ids db := by
  have hrows := h.fixed.filter_rows (keys_eq_of_columns h.columns) (fun id => id ∈ ids)
    fun id hid => hL id (of_decide_eq_true hid)
  rw [lockAccounts, lockAccounts, hrows]

theorem balance_repeats {id : UUID} {r : AccountRow} (h : Kept L db u) (hid : L (.account id))
    (hr : db.accounts.find? id = some r) (row : BalanceRow) :
    (changes db { db with
        accounts := db.accounts.modify id fun r => { r with balance := row } }).apply u =
      { u with accounts := u.accounts.modify id fun r => { r with balance := row } } ∧
    Kept L { db with accounts := db.accounts.modify id fun r => { r with balance := row } }
      { u with accounts := u.accounts.modify id fun r => { r with balance := row } } := by
  have hu : u.accounts.find? id = some r := (h.accounts.fixed id hid).trans hr
  have haccounts : KeptAccounts L (db.accounts.modify id fun r => { r with balance := row })
      (u.accounts.modify id fun r => { r with balance := row }) :=
    h.accounts.modify (f := fun r => { r with balance := row }) fun _ => rfl
  refine ⟨?_, { h with accounts := haccounts }⟩
  simp only [changes, Patch.apply, Table.changes_self, Table.overlay_nil,
    Table.overlay_changes_modify hr hu]

theorem applyBalanceDelta_congr {d : BalanceDelta} {b : Balance}
    (hu : u.accounts.find? d.accountID = db.accounts.find? d.accountID)
    (h : applyBalanceDelta now d db = .ok (b, db')) :
    ∃ row, db' = { db with
        accounts := db.accounts.modify d.accountID fun r => { r with balance := row } } ∧
      applyBalanceDelta now d u = .ok (b, { u with
        accounts := u.accounts.modify d.accountID fun r => { r with balance := row } }) := by
  unfold applyBalanceDelta at h ⊢
  rw [hu]
  split at h
  · cases h
  · next r hr =>
    obtain ⟨row, hrow, h⟩ := bind_eq_ok.1 h
    obtain ⟨available, havailable, h⟩ := bind_eq_ok.1 h
    obtain ⟨pending, hpending, h⟩ := bind_eq_ok.1 h
    cases h
    refine ⟨row, rfl, ?_⟩
    exact bind_eq_ok.2 ⟨row, hrow, bind_eq_ok.2 ⟨available, havailable,
      bind_eq_ok.2 ⟨pending, hpending, rfl⟩⟩⟩

theorem applyPendingDelta_congr {d : PendingDelta}
    (hu : u.accounts.find? d.accountID = db.accounts.find? d.accountID)
    (h : applyPendingDelta now d db = .ok db') :
    ∃ row, db' = { db with
        accounts := db.accounts.modify d.accountID fun r => { r with balance := row } } ∧
      applyPendingDelta now d u = .ok { u with
        accounts := u.accounts.modify d.accountID fun r => { r with balance := row } } := by
  unfold applyPendingDelta at h ⊢
  rw [hu]
  split at h
  · cases h
  · next r hr =>
    obtain ⟨row, hrow, h⟩ := bind_eq_ok.1 h
    cases h
    refine ⟨row, rfl, ?_⟩
    exact bind_eq_ok.2 ⟨row, hrow, rfl⟩

theorem applyBalanceDelta_repeats {d : BalanceDelta} {b : Balance} (h : Kept L s.db u)
    (hL : L (.account d.accountID)) (hexec : exec now (.applyBalanceDelta d) s = .ok (b, s')) :
    Repeats L now (.applyBalanceDelta d) s b s' u := by
  obtain ⟨⟨b', db'⟩, hdb, he⟩ := map_eq_ok.1 hexec
  cases he
  obtain ⟨r, -, hr, -, -⟩ := applyBalanceDelta_eq_ok hdb
  obtain ⟨row, rfl, hu⟩ := applyBalanceDelta_congr (h.accounts.fixed _ hL) hdb
  obtain ⟨happly, hkept⟩ := balance_repeats h hL hr row
  exact ⟨_, map_eq_ok.2 ⟨_, hu, rfl⟩, happly, hkept⟩

theorem applyPendingDelta_repeats {d : PendingDelta} {r : Unit} (h : Kept L s.db u)
    (hL : L (.account d.accountID)) (hexec : exec now (.applyPendingDelta d) s = .ok (r, s')) :
    Repeats L now (.applyPendingDelta d) s r s' u := by
  obtain ⟨db', hdb, he⟩ := map_eq_ok.1 hexec
  cases he
  obtain ⟨r, -, hr, -, -⟩ := applyPendingDelta_eq_ok hdb
  obtain ⟨row, rfl, hu⟩ := applyPendingDelta_congr (h.accounts.fixed _ hL) hdb
  obtain ⟨happly, hkept⟩ := balance_repeats h hL hr row
  exact ⟨_, map_eq_ok.2 ⟨_, hu, rfl⟩, happly, hkept⟩

theorem keyTaken_eq {principalID : String} {key : Option String}
    (h : KeptTransactions L db.transactions u.transactions)
    (hL : ∀ k, key = some k → L (.transactionKey principalID k)) :
    keyTaken principalID key u = keyTaken principalID key db := by
  cases key with
  | none => rfl
  | some k => exact congrArg (true && ·) (h.keys principalID k (hL k rfl))

theorem insertTransaction_repeats {t : Transaction} {times : Time × Option Time}
    (h : Kept L s.db u) (hid : L (.transaction t.id))
    (hkey : ∀ k, t.idempotencyKey = some k → L (.transactionKey t.principalID k))
    (hexec : exec now (.insertTransaction t) s = .ok (times, s')) :
    Repeats L now (.insertTransaction t) s times s' u := by
  obtain ⟨⟨times', db'⟩, hdb, he⟩ := map_eq_ok.1 hexec
  cases he
  obtain ⟨row, hrow, hdb⟩ := bind_eq_ok.1 (mapError_eq_ok.1 hdb)
  obtain ⟨transactions, hinsert, hdb⟩ := bind_eq_ok.1 hdb
  obtain ⟨_, hfree, hdb⟩ := bind_eq_ok.1 hdb
  cases hdb
  have hinsert' := unique_eq_ok.1 hinsert
  obtain ⟨transactions', hu⟩ := h.transactions.fixed.insert?_eq_some hid hinsert'
  refine ⟨{ u with transactions := transactions' }, map_eq_ok.2 ⟨_, mapError_eq_ok.2
    (bind_eq_ok.2 ⟨row, hrow, bind_eq_ok.2 ⟨transactions', unique_eq_ok.2 hu,
      bind_eq_ok.2 ⟨(), ?_, rfl⟩⟩⟩), rfl⟩, ?_, ?_⟩
  · rw [keyTaken_eq h.transactions hkey]
    exact hfree
  · simp only [changes, Patch.apply, Table.changes_self, Table.overlay_nil,
      Table.overlay_changes_insert hinsert' hu]
  · exact { h with transactions := h.transactions.insert hinsert' hu }

theorem loadTransactionForUpdate_eq {id : UUID} (h : Kept L db u) (hL : L (.transaction id)) :
    loadTransactionForUpdate id u = loadTransactionForUpdate id db := by
  have hentries : entriesOf id u = entriesOf id db := h.journal.entries id hL
  rw [loadTransactionForUpdate, loadTransactionForUpdate, h.transactions.fixed id hL, hentries]

theorem markReversed_repeats {id : UUID} {r : Unit} (h : Kept L s.db u) (hL : L (.transaction id))
    (hexec : exec now (.markReversed id) s = .ok (r, s')) :
    Repeats L now (.markReversed id) s r s' u := by
  obtain ⟨db', hdb, he⟩ := map_eq_ok.1 hexec
  cases he
  obtain ⟨r, hr, hs, rfl⟩ := markReversed_eq_ok hdb
  have hu : u.transactions.find? id = some r := (h.transactions.fixed id hL).trans hr
  refine ⟨{ u with transactions := u.transactions.modify id reversedRow },
    map_eq_ok.2 ⟨_, if_pos (by rw [hu]; exact congrArg some hs), rfl⟩, ?_, ?_⟩
  · simp only [changes, Patch.apply, Table.changes_self, Table.overlay_nil,
      Table.overlay_changes_modify hr hu]
  · exact { h with transactions := h.transactions.reverse }

theorem insertEntryRow_repeats {e : JournalEntry} {journal journal' v : Table UUID JournalRow}
    (h : KeptJournal L journal v) (hid : L (.entry e.id)) (htx : L (.transaction e.transactionID))
    (hrow : insertEntryRow now journal e = .ok journal') :
    ∃ row v', insertEntryRow now v e = .ok v' ∧ row.transactionID = e.transactionID ∧
      journal'.rows = journal.rows ++ [(e.id, row)] ∧ v'.rows = v.rows ++ [(e.id, row)] := by
  obtain ⟨_, hseq, hrow⟩ := bind_eq_ok.1 hrow
  obtain ⟨row, hcheck, hrow⟩ := bind_eq_ok.1 hrow
  obtain ⟨journal₁, hinsert, hrow⟩ := bind_eq_ok.1 hrow
  obtain ⟨_, hslot, hrow⟩ := bind_eq_ok.1 hrow
  cases hrow
  have hinsert' := unique_eq_ok.1 hinsert
  obtain ⟨v', hv⟩ := h.fixed.insert?_eq_some hid hinsert'
  -- The slot is one of the transaction's own entries.
  have hsame : (v.values.any fun r => r.transactionID = e.transactionID && r.entrySeq = e.entrySeq) =
      journal.values.any fun r => r.transactionID = e.transactionID && r.entrySeq = e.entrySeq := by
    have hfilter (t : Table UUID JournalRow) :
        (t.values.any fun r => r.transactionID = e.transactionID && r.entrySeq = e.entrySeq) =
          (t.rows.filter fun r => r.2.transactionID = e.transactionID).any
            fun r => r.2.entrySeq = e.entrySeq := by
      simp [Table.values, List.any_filter, Function.comp_def]
    rw [hfilter, hfilter, h.entries _ htx]
  refine ⟨row, v', bind_eq_ok.2 ⟨(), hseq, bind_eq_ok.2 ⟨row, hcheck, bind_eq_ok.2
    ⟨v', unique_eq_ok.2 hv, bind_eq_ok.2 ⟨(), ?_, rfl⟩⟩⟩⟩, ?_,
    (Table.insert?_eq_some.1 hinsert').2, (Table.insert?_eq_some.1 hv).2⟩
  · rw [hsame]
    exact hslot
  · rw [JournalColumns.check_eq_ok hcheck]

theorem insertEntryRows_repeats {entries : List JournalEntry}
    {journal journal' v : Table UUID JournalRow} (h : KeptJournal L journal v)
    (hid : ∀ e ∈ entries, L (.entry e.id)) (htx : ∀ e ∈ entries, L (.transaction e.transactionID))
    (hrows : entries.foldlM (insertEntryRow now) journal = .ok journal') :
    ∃ l v', entries.foldlM (insertEntryRow now) v = .ok v' ∧
      journal'.rows = journal.rows ++ l ∧ v'.rows = v.rows ++ l ∧
      ∀ r ∈ l, ∃ e ∈ entries, r.1 = e.id ∧ r.2.transactionID = e.transactionID := by
  induction entries generalizing journal v with
  | nil =>
    cases hrows
    exact ⟨[], v, rfl, by simp, by simp, fun _ h => nomatch h⟩
  | cons e entries ih =>
    obtain ⟨journal₁, hfirst, hrest⟩ := bind_eq_ok.1 hrows
    obtain ⟨row, v₁, hv₁, hrow, hj, hv⟩ := insertEntryRow_repeats h (hid e List.mem_cons_self)
      (htx e List.mem_cons_self) hfirst
    obtain ⟨l, v', hv', hjournal, hvs, hl⟩ := ih (h.append hj hv)
      (fun e' he' => hid e' (List.mem_cons_of_mem _ he'))
      (fun e' he' => htx e' (List.mem_cons_of_mem _ he')) hrest
    refine ⟨(e.id, row) :: l, v', bind_eq_ok.2 ⟨v₁, hv₁, hv'⟩, ?_, ?_, fun r hr => ?_⟩
    · rw [hjournal, hj, List.append_assoc, List.singleton_append]
    · rw [hvs, hv, List.append_assoc, List.singleton_append]
    · rcases List.mem_cons.1 hr with rfl | hr
      · exact ⟨e, List.mem_cons_self, rfl, hrow⟩
      · obtain ⟨e', he', hrest⟩ := hl r hr
        exact ⟨e', List.mem_cons_of_mem _ he', hrest⟩

theorem currency_eq {t v : Table UUID AccountRow} (h : accountColumns v = accountColumns t)
    (id : UUID) :
    (v.find? id).map (fun r => r.currency) = (t.find? id).map fun r => r.currency := by
  have hfind (t : Table UUID AccountRow) : (t.find? id).map (fun r => r.currency) =
      ((accountColumns t).find? fun r => r.1 = id).map fun r => r.2.currency := by
    simp only [accountColumns, Table.find?, List.find?_map, Option.map_map, Function.comp_def]
  rw [hfind, hfind, h]

theorem entryForeignKeys_repeats {e : JournalEntry} (h : Kept L db u)
    (hfk : entryForeignKeys db e = .ok ()) : entryForeignKeys u e = .ok () := by
  unfold entryForeignKeys at hfk ⊢
  rw [currency_eq h.accounts.columns]
  split_ifs at hfk with hc ht
  rw [if_neg hc, if_neg fun hnone => ht (h.transactions.known _ hnone)]

theorem insertEntries_repeats {entries entries' : List JournalEntry} (h : Kept L s.db u)
    (hid : ∀ e ∈ entries, L (.entry e.id)) (htx : ∀ e ∈ entries, L (.transaction e.transactionID))
    (hexec : exec now (.insertEntries entries) s = .ok (entries', s')) :
    Repeats L now (.insertEntries entries) s entries' s' u := by
  cases entries with
  | nil =>
    cases hexec
    exact repeats_read h rfl
  | cons first rest =>
    obtain ⟨journal, hrows, hdb⟩ := bind_eq_ok.1 (mapError_eq_ok.1 hexec)
    obtain ⟨_, hfk, hdb⟩ := bind_eq_ok.1 hdb
    cases hdb
    obtain ⟨l, v, hv, hj, hvs, -⟩ := insertEntryRows_repeats h.journal hid htx hrows
    refine ⟨{ u with journal := v }, mapError_eq_ok.2 (bind_eq_ok.2 ⟨v, hv, bind_eq_ok.2
      ⟨(), forM_eq_ok.2 fun e he => entryForeignKeys_repeats h (forM_eq_ok.1 hfk e he), rfl⟩⟩), ?_,
      { h with journal := h.journal.append hj hvs }⟩
    simp only [changes, Patch.apply, Table.changes_self, Table.overlay_nil,
      Table.overlay_changes_append hj hvs]

theorem appendEvent_repeats {eventID : UUID} {e : Event} {r : Unit} (h : Kept L s.db u)
    (hL : L (.event eventID)) (hexec : exec now (.appendEvent eventID e) s = .ok (r, s')) :
    Repeats L now (.appendEvent eventID e) s r s' u := by
  obtain ⟨db', hdb, he⟩ := map_eq_ok.1 hexec
  cases he
  obtain ⟨outbox, hinsert, rfl⟩ := Outbox.append_eq_ok hdb
  obtain ⟨outbox', hu⟩ := h.outbox.insert?_eq_some hL hinsert
  refine ⟨{ u with outbox := outbox' }, map_eq_ok.2 ⟨_, ?_, rfl⟩, ?_,
    { h with outbox := h.outbox.insert hinsert hu }⟩
  · unfold Outbox.append at hdb ⊢
    split_ifs at hdb ⊢
    rw [hu]
  · simp only [changes, Patch.apply, Table.changes_self, Table.overlay_nil,
      Table.overlay_changes_insert hinsert hu]

theorem completeIdempotency_repeats {c : Idempotency.Completion} {r : Unit} (h : Kept L s.db u)
    (hL : L (.idempotencyKey c.principalID c.key))
    (hexec : exec now (.completeIdempotency c) s = .ok (r, s')) :
    Repeats L now (.completeIdempotency c) s r s' u := by
  obtain ⟨db', hdb, he⟩ := map_eq_ok.1 hexec
  cases he
  obtain ⟨row, hrow, hstatus, rfl⟩ := Idempotency.complete_eq_ok hdb
  have hu : u.idempotencyKeys.find? (c.principalID, c.key) = some row :=
    (h.idempotencyKeys _ hL).trans hrow
  have hknown : u.transactions.find? c.transactionID ≠ none := by
    intro hnone
    simp only [Idempotency.complete, Idempotency.settle, hrow, hstatus, if_true,
      h.transactions.known _ hnone] at hdb
    cases hdb
  refine ⟨{ u with
    idempotencyKeys := u.idempotencyKeys.modify (c.principalID, c.key) (Idempotency.settledRow
      .completed c.responseStatus c.responseBody (some c.transactionID)) },
    map_eq_ok.2 ⟨_, ?_, rfl⟩, ?_, { h with idempotencyKeys := h.idempotencyKeys.modify _ }⟩
  · simp only [Idempotency.complete, Idempotency.settle, hu, hstatus, if_true, if_neg hknown]
  · simp only [changes, Patch.apply, Table.changes_self, Table.overlay_nil,
      Table.overlay_changes_modify hrow hu]

theorem insertStep_repeats {id : UUID} {r : StepRow} (h : Kept L db u) (hid : L (.step id))
    (hattempt : L (.attempt r.sagaID r.step r.direction r.attempt))
    (hstep : Saga.insertStep id r db = .ok db') :
    ∃ sagaSteps sagaSteps', db.sagaSteps.insert? id r = some sagaSteps ∧
      u.sagaSteps.insert? id r = some sagaSteps' ∧ db' = { db with sagaSteps } ∧
      Saga.insertStep id r u = .ok { u with sagaSteps := sagaSteps' } := by
  obtain ⟨_, hnumber, hstep⟩ := bind_eq_ok.1 hstep
  obtain ⟨_, hfinished, hstep⟩ := bind_eq_ok.1 hstep
  obtain ⟨_, hname, hstep⟩ := bind_eq_ok.1 hstep
  obtain ⟨sagaSteps, hinsert, hstep⟩ := bind_eq_ok.1 hstep
  obtain ⟨_, hslot, hstep⟩ := bind_eq_ok.1 hstep
  obtain ⟨_, hsaga, hstep⟩ := bind_eq_ok.1 hstep
  obtain ⟨_, htx, hstep⟩ := bind_eq_ok.1 hstep
  cases hstep
  have hinsert' := unique_eq_ok.1 hinsert
  obtain ⟨sagaSteps', hu⟩ := h.sagaSteps.fixed.insert?_eq_some hid hinsert'
  refine ⟨sagaSteps, sagaSteps', hinsert', hu, rfl, ?_⟩
  refine bind_eq_ok.2 ⟨(), hnumber, bind_eq_ok.2 ⟨(), hfinished, bind_eq_ok.2 ⟨(), hname,
    bind_eq_ok.2 ⟨sagaSteps', unique_eq_ok.2 hu, bind_eq_ok.2 ⟨(), ?_, bind_eq_ok.2 ⟨(), ?_,
      bind_eq_ok.2 ⟨(), ?_, rfl⟩⟩⟩⟩⟩⟩⟩
  · have hsame := h.sagaSteps.attempts _ _ _ _ hattempt
    unfold hasAttempt at hsame
    rw [hsame]
    exact hslot
  · exact failIf_eq_ok.2 fun hnone => failIf_eq_ok.1 hsaga (h.sagaInstances.known _ hnone)
  · refine failIf_eq_ok.2 fun hnone => failIf_eq_ok.1 htx ?_
    obtain ⟨tx, htx, hmissing⟩ := (Option.any_eq_true ..).1 hnone
    exact (Option.any_eq_true ..).2
      ⟨tx, htx, decide_eq_true (h.transactions.known tx (of_decide_eq_true hmissing))⟩

theorem commitSagaStep_repeats {c : Saga.StepCommit} {r : Unit} (h : Kept L s.db u)
    (hid : L (.step c.attempt.id))
    (hattempt : L (.attempt c.attempt.sagaID c.attempt.step c.attempt.direction c.attempt.number))
    (hsaga : L (.saga c.transition.sagaID))
    (hexec : exec now (.commitSagaStep c) s = .ok (r, s')) :
    Repeats L now (.commitSagaStep c) s r s' u := by
  obtain ⟨db', hdb, he⟩ := map_eq_ok.1 hexec
  cases he
  obtain ⟨db₁, hstep, hadvance⟩ := bind_eq_ok.1 hdb
  obtain ⟨sagaSteps, sagaSteps', hinsert, hinsert', rfl, hu⟩ :=
    insertStep_repeats h hid hattempt (mapError_eq_ok.1 hstep)
  obtain ⟨row, hrow, hstatus, rfl⟩ := Saga.advance_eq_ok.1 hadvance
  have hrow' : u.sagaInstances.find? c.transition.sagaID = some row :=
    (h.sagaInstances.fixed _ hsaga).trans hrow
  refine ⟨_, map_eq_ok.2 ⟨_, bind_eq_ok.2 ⟨_, mapError_eq_ok.2 hu,
    Saga.advance_eq_ok.2 ⟨row, hrow', hstatus, rfl⟩⟩, rfl⟩, ?_,
    { h with
      sagaInstances := h.sagaInstances.modify _
      sagaSteps := h.sagaSteps.insert hinsert hinsert' }⟩
  simp only [changes, Patch.apply, Table.changes_self, Table.overlay_nil,
    Table.overlay_changes_insert hinsert hinsert']
  rw [Table.overlay_changes_modify hrow hrow']

end Statements

/-- The calls of postings and reversals: all but the one that opens an account. -/
def PostingCall : TxCall → Prop
  | .insertAccount _ => False
  | _ => True

theorem exec_repeats {now : Time} {c : TxCall} {s s' : TxState} {r : TxReply c} {u : DB}
    (hc : PostingCall c) (hL : ∀ l ∈ locks c, L l) (h : Kept L s.db u)
    (hexec : exec now c s = .ok (r, s')) : Repeats L now c s r s' u := by
  cases c with
  | resolveShards ids =>
    cases hexec
    exact repeats_read h (by rw [← resolveShards_eq h.accounts.columns]; rfl)
  | lockAccounts ids =>
    cases hexec
    have hlocked := lockAccounts_eq h.accounts fun id hid => hL _ (List.mem_map_of_mem hid)
    exact repeats_read h (by rw [← hlocked]; rfl)
  | insertAccount a => exact hc.elim
  | insertTransaction t =>
    refine insertTransaction_repeats h (hL _ List.mem_cons_self) (fun k hk => hL _ ?_) hexec
    simp [locks, hk]
  | insertEntries entries =>
    refine insertEntries_repeats h (fun e he => hL _ ?_) (fun e he => hL _ ?_) hexec
    · exact List.mem_append_left _ (List.mem_map.2 ⟨e, he, rfl⟩)
    · exact List.mem_append_right _ (List.mem_map.2 ⟨e, he, rfl⟩)
  | applyBalanceDelta d => exact applyBalanceDelta_repeats h (hL _ List.mem_cons_self) hexec
  | applyPendingDelta d => exact applyPendingDelta_repeats h (hL _ List.mem_cons_self) hexec
  | loadTransactionForUpdate id =>
    have hload := loadTransactionForUpdate_eq h (hL _ List.mem_cons_self)
    obtain ⟨t, ht, he⟩ := map_eq_ok.1 hexec
    cases he
    exact repeats_read h (map_eq_ok.2 ⟨_, hload.trans ht, rfl⟩)
  | markReversed id => exact markReversed_repeats h (hL _ List.mem_cons_self) hexec
  | appendEvent eventID e => exact appendEvent_repeats h (hL _ List.mem_cons_self) hexec
  | commitSagaStep c =>
    exact commitSagaStep_repeats h (hL _ (by simp [locks])) (hL _ (by simp [locks]))
      (hL _ (by simp [locks])) hexec
  | completeIdempotency c =>
    exact completeIdempotency_repeats h (hL _ List.mem_cons_self) hexec

theorem balance_frame {id : UUID} (hid : ¬L (.account id)) (row : BalanceRow) :
    Kept L db { db with accounts := db.accounts.modify id fun r => { r with balance := row } } := by
  have hkept : KeptAccounts L db.accounts
      (db.accounts.modify id fun r => { r with balance := row }) :=
    keptAccounts_modify (f := fun r => { r with balance := row }) hid fun _ => rfl
  exact { Kept.refl L db with accounts := hkept }

/-- What a statement writes, those who hold other locks do not see. -/
theorem exec_frame {now : Time} {c : TxCall} {s s' : TxState} {r : TxReply c}
    (hc : PostingCall c) (hL : ∀ l ∈ locks c, ¬L l) (hexec : exec now c s = .ok (r, s')) :
    Kept L s.db s'.db := by
  cases c with
  | resolveShards ids =>
    cases hexec
    exact .refl L _
  | lockAccounts ids =>
    cases hexec
    exact .refl L _
  | insertAccount a => exact hc.elim
  | insertTransaction t =>
    obtain ⟨⟨times, db'⟩, hdb, he⟩ := map_eq_ok.1 hexec
    cases he
    obtain ⟨row, transactions, hrow, -, hinsert, -, rfl⟩ := insertTransaction_eq_ok hdb
    have hkey : ∀ key, row.idempotencyKey = some key →
        ¬L (.transactionKey row.principalID key) := by
      intro key hkey
      rw [hrow] at hkey ⊢
      refine hL _ (List.mem_cons_of_mem _ ?_)
      change t.idempotencyKey = some key at hkey
      rw [hkey]
      exact List.mem_singleton_self _
    have hkept := keptTransactions_insert hinsert (hL _ List.mem_cons_self) hkey
    exact { Kept.refl L s.db with transactions := hkept }
  | insertEntries entries =>
    cases entries with
    | nil =>
      cases hexec
      exact .refl L _
    | cons first rest =>
      obtain ⟨journal, hrows, hdb⟩ := bind_eq_ok.1 (mapError_eq_ok.1 hexec)
      obtain ⟨_, -, hdb⟩ := bind_eq_ok.1 hdb
      cases hdb
      -- The rows are those that a repetition in place would write.
      obtain ⟨l, -, -, hj, -, hl⟩ := insertEntryRows_repeats (L := fun _ => True) .refl
        (fun _ _ => trivial) (fun _ _ => trivial) hrows
      have hids : ∀ r ∈ l, ¬L (.entry r.1) := by
        intro r hr
        obtain ⟨e, he, hid, -⟩ := hl r hr
        exact hid ▸ hL _ (List.mem_append_left _ (List.mem_map.2 ⟨e, he, rfl⟩))
      have htxs : ∀ r ∈ l, ¬L (.transaction r.2.transactionID) := by
        intro r hr
        obtain ⟨e, he, -, htx⟩ := hl r hr
        exact htx ▸ hL _ (List.mem_append_right _ (List.mem_map.2 ⟨e, he, rfl⟩))
      exact { Kept.refl L s.db with journal := keptJournal_append hj hids htxs }
  | applyBalanceDelta d =>
    obtain ⟨⟨b, db'⟩, hdb, he⟩ := map_eq_ok.1 hexec
    cases he
    obtain ⟨r, row, -, -, rfl⟩ := applyBalanceDelta_eq_ok hdb
    exact balance_frame (hL _ List.mem_cons_self) row
  | applyPendingDelta d =>
    obtain ⟨db', hdb, he⟩ := map_eq_ok.1 hexec
    cases he
    obtain ⟨r, row, -, -, rfl⟩ := applyPendingDelta_eq_ok hdb
    exact balance_frame (hL _ List.mem_cons_self) row
  | loadTransactionForUpdate id =>
    obtain ⟨t, -, he⟩ := map_eq_ok.1 hexec
    cases he
    exact .refl L _
  | markReversed id =>
    obtain ⟨db', hdb, he⟩ := map_eq_ok.1 hexec
    cases he
    obtain ⟨r, -, -, rfl⟩ := markReversed_eq_ok hdb
    exact { Kept.refl L s.db with
      transactions := keptTransactions_reverse (hL _ List.mem_cons_self) }
  | appendEvent eventID e =>
    obtain ⟨db', hdb, he⟩ := map_eq_ok.1 hexec
    cases he
    obtain ⟨outbox, hinsert, rfl⟩ := Outbox.append_eq_ok hdb
    exact { Kept.refl L s.db with
      outbox := Table.fixed_insert (K := fun id => L (.event id)) (hL _ List.mem_cons_self) hinsert }
  | commitSagaStep c =>
    obtain ⟨db', hdb, he⟩ := map_eq_ok.1 hexec
    cases he
    obtain ⟨sagaSteps, r, hinsert, -, -, rfl⟩ := Saga.commitStep_eq_ok hdb
    have hattempt : ¬L (.attempt c.attempt.sagaID c.attempt.step c.attempt.direction
        c.attempt.number) := hL _ (by simp [locks])
    exact { Kept.refl L s.db with
      sagaInstances := keptSagas_modify (hL _ (by simp [locks])) _
      sagaSteps := keptSteps_insert hinsert (hL _ (by simp [locks])) hattempt }
  | completeIdempotency c =>
    obtain ⟨db', hdb, he⟩ := map_eq_ok.1 hexec
    cases he
    obtain ⟨r, -, -, rfl⟩ := Idempotency.complete_eq_ok hdb
    exact { Kept.refl L s.db with
      idempotencyKeys := Table.fixed_modify (K := fun k : String × String => L (.idempotencyKey k.1 k.2))
        (hL _ List.mem_cons_self) _ }

theorem engine_isolates : engine.Isolates PostingCall Kept where
  stored_start _ := rfl
  rebase_start _ _ := rfl
  stored_rebase _ _ := rfl
  rebase_rebase _ _ _ := rfl
  rebase_stored _ := rfl
  commit_stored h := by
    obtain ⟨_, -, rfl⟩ := map_eq_ok.1 h
    rfl
  refl := .refl
  trans := .trans
  mono := .mono
  replay hc h hexec := by
    obtain ⟨u, hu, rfl, -⟩ := exec_repeats hc (fun _ hl => hl) h hexec
    exact hu
  keeps hc hL h hexec hexec' := by
    obtain ⟨u, hu, -, hkept⟩ := exec_repeats hc hL h hexec
    cases hexec'.symm.trans hu
    exact hkept
  frame hc hL hexec := exec_frame hc hL hexec

end LedgerCore.Ledger
