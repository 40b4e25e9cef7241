import LedgerCore.Ledger.Engine

/-! Which errors a ledger transaction can return: a balance's version never conflicts, since the
row was locked when its version was read, and a key conflicts only if a transaction carries it. -/
namespace LedgerCore.Ledger
open LedgerCore.Program
variable {context : String} {accounts : AccountMap}

def Clear (e : Error) : Prop := e.is .balanceVersionConflict = false

/-- The errors that the checks of the service never return. -/
def conflicts : List Sentinel := [.balanceVersionConflict, .duplicateIdempotencyKey, .keyExpired]

def Ordinary (e : Error) : Prop := ∀ t ∈ conflicts, e.is t = false

variable {α : Type} {now : Time} {s : TxState} {db : DB}

theorem Ordinary.clear {e : Error} (h : Ordinary e) : Clear e := h _ (by decide)

theorem ordinary_errorf {t : Sentinel} (h : t ∉ conflicts) : Ordinary (.errorf context t) := by
  intro t' ht'
  have hne : t' ≠ t := fun he => h (he ▸ ht')
  simpa [Error.is, Error.errorf] using hne

theorem ordinary_toError (e : PgError) : Ordinary e.toError := fun _ _ => rfl

/-- The constraint is not the one on the keys of the transactions. -/
def OffKey (e : PgError) : Prop := e.constraintName ≠ "transactions_idempotency_key_key"

instance (e : PgError) : Decidable (OffKey e) := inferInstanceAs (Decidable (_ ≠ _))

theorem OffKey.ordinary {e : PgError} (h : OffKey e) : Ordinary (mapError e) := by
  unfold mapError
  rw [if_neg h]
  split
  · split_ifs <;> first | exact ordinary_errorf (by decide) | exact ordinary_toError e
  · exact ordinary_toError e
  · split_ifs <;> first | exact ordinary_errorf (by decide) | exact ordinary_toError e
  · exact ordinary_toError e

theorem raises_mapped {x : Except PgError α} (h : Raises OffKey x) :
    Raises Ordinary (mapped context x) :=
  raises_mapError fun e he => (h e he).ordinary

theorem raises_wrap {x : Except Error α} (h : Raises Ordinary x) :
    Raises Ordinary (x.mapError (Error.wrap context)) :=
  raises_mapError h

theorem raises_errorf {t : Sentinel} (h : t ∉ conflicts) :
    Raises Ordinary (.error (.errorf context t) : Except Error α) :=
  raises_error (ordinary_errorf h)

theorem raises_check {c : Prop} [Decidable c] {t : Sentinel} (h : t ∉ conflicts) :
    Raises Ordinary (failIf c (.errorf context t)) :=
  raises_failIf (ordinary_errorf h)

theorem raises_unique {constraint : String} (x : Option α)
    (h : constraint ≠ "transactions_idempotency_key_key") : Raises OffKey (unique constraint x) := by
  cases x with
  | none => exact raises_error h
  | some a => exact raises_ok a

theorem raises_newMoney (amount : Int64) (currency : String) :
    Raises Ordinary (newMoney amount currency) := by
  unfold newMoney
  split_ifs
  · exact raises_ok _
  · exact raises_errorf (by decide)

theorem raises_validateMoney (m : Money) : Raises Ordinary m.validate := by
  unfold Money.validate
  split_ifs
  · exact raises_ok _
  · exact raises_errorf (by decide)

theorem raises_add (m other : Money) : Raises Ordinary (m.add other) := by
  refine Raises.bind ?_ fun _ _ => ?_
  · unfold Money.sameCurrency
    split_ifs
    · exact raises_ok _
    · exact raises_errorf (by decide)
  · split
    · exact raises_errorf (by decide)
    · exact raises_ok _

theorem raises_validateEntry (currency : String) (totals : Money × Money)
    (entry : EntryRequest × ℕ) : Raises Ordinary (validateEntry currency totals entry) := by
  unfold validateEntry
  refine (raises_check ?_).bind fun _ _ => (raises_check ?_).bind fun _ _ =>
    (raises_wrap (raises_validateMoney _)).bind fun _ _ => (raises_check ?_).bind fun _ _ =>
    (raises_check ?_).bind fun _ _ => ?_
  · decide
  · decide
  · decide
  · decide
  · split_ifs
    · exact (raises_wrap (raises_add _ _)).bind fun _ _ => raises_ok _
    · exact (raises_wrap (raises_add _ _)).bind fun _ _ => raises_ok _

theorem raises_validate (req : TransactionRequest) : Raises Ordinary req.validate := by
  unfold TransactionRequest.validate
  refine (raises_check ?_).bind fun _ _ => (raises_check ?_).bind fun _ _ =>
    (raises_newMoney _ _).bind fun _ _ => (raises_foldlM (raises_validateEntry _) _).bind
    fun _ _ => raises_check ?_
  · decide
  · decide
  · decide

theorem raises_checkPostable (accounts : AccountMap) (id : UUID) :
    Raises Ordinary (checkPostable accounts id) := by
  unfold checkPostable
  split
  · exact raises_errorf (by decide)
  · split_ifs
    · exact raises_ok _
    · exact raises_errorf (by decide)

theorem raises_checkCurrency (accounts : AccountMap) (entry : EntryRequest × ℕ) :
    Raises Ordinary (checkCurrency accounts entry) := by
  unfold checkCurrency
  dsimp only
  split_ifs
  · exact raises_ok _
  · exact raises_errorf (by decide)

theorem raises_aggregateEntry (accounts : AccountMap) (g : Aggregate) (e : JournalEntry) :
    Raises Ordinary (aggregateEntry accounts g e) := by
  refine (raises_wrap ?_).bind fun _ _ => ?_
  · unfold signedAmount
    split_ifs
    · exact raises_errorf (by decide)
    · exact raises_errorf (by decide)
    · exact raises_errorf (by decide)
    · exact raises_ok _
    · exact raises_ok _
  · split
    · exact raises_errorf (by decide)
    · exact raises_ok _

theorem raises_checkFunds (account : Option LockedAccount) (id : UUID) (delta : Int64) :
    Raises Ordinary (checkFunds account id delta) := by
  unfold checkFunds
  dsimp only
  split
  · exact raises_errorf (by decide)
  · split_ifs
    · exact raises_errorf (by decide)
    · exact raises_ok _

theorem raises_checkReversible (txID : UUID) (original : Transaction) :
    Raises Ordinary (checkReversible txID original) := by
  unfold checkReversible
  split
  · exact raises_errorf (by decide)
  · split_ifs
    · exact raises_errorf (by decide)
    · exact raises_ok _
  · exact raises_errorf (by decide)

theorem raises_marshal (context : String) (amounts : List Money) (payload : EventPayload) :
    Raises Ordinary (marshal context amounts payload) :=
  (raises_wrap (raises_forM fun m _ => raises_validateMoney m)).map

theorem raises_balanceCheck (b : BalanceColumns) : Raises OffKey b.check := by
  unfold BalanceColumns.check
  split_ifs
  · exact raises_ok _
  · exact raises_error (by decide)
  · exact raises_error (by decide)
  · exact raises_error (by decide)

theorem raises_transactionCheck (t : TransactionColumns) : Raises OffKey t.check := by
  unfold TransactionColumns.check
  split_ifs
  · exact raises_ok _
  · exact raises_error (by decide)
  · exact raises_error (by decide)

theorem raises_sideCall (c : TxCall) (s : TxState) (hc : SideCall c) :
    Raises Ordinary (exec now c s) := by
  cases c with
  | applyPendingDelta d =>
    refine Raises.map ?_
    unfold applyPendingDelta
    split
    · exact raises_errorf (by decide)
    · refine (raises_mapped ?_).bind fun _ _ => raises_ok _
      unfold applyPendingDelta.pendingAfter
      split
      · exact raises_balanceCheck _
      · exact raises_error (by decide)
  | appendEvent id e =>
    refine Raises.map ?_
    unfold Outbox.append
    split_ifs
    · exact raises_error fun _ _ => rfl
    · exact raises_error fun _ _ => rfl
    · exact raises_errorf (by decide)
    · split
      · exact raises_error fun _ _ => rfl
      · exact raises_ok _
  | commitSagaStep c =>
    refine Raises.map (Raises.bind (raises_mapError fun _ _ _ _ => rfl) fun db _ => ?_)
    unfold Saga.advance
    split
    · split_ifs
      · exact raises_ok _
      · exact raises_errorf (by decide)
    · exact raises_errorf (by decide)
  | completeIdempotency c =>
    refine Raises.map ?_
    unfold Idempotency.complete
    split
    · split_ifs
      · exact raises_error fun _ _ => rfl
      · exact raises_ok _
    · exact raises_errorf (by decide)
  | _ => exact hc.elim

theorem raises_insertEntryRow (journal : Table UUID JournalRow) (e : JournalEntry) :
    Raises OffKey (insertEntryRow now journal e) := by
  refine Raises.bind (raises_failIf (by decide)) fun _ _ => Raises.bind ?_ fun row _ =>
    (raises_unique _ (by decide)).bind fun _ _ => (raises_failIf (by decide)).bind fun _ _ =>
    raises_ok _
  unfold JournalColumns.check
  split_ifs
  · exact raises_ok _
  · exact raises_error (by decide)
  · exact raises_error (by decide)

theorem raises_insertEntries (entries : List JournalEntry) (s : TxState) :
    Raises Ordinary (insertEntries now entries s) := by
  cases entries with
  | nil => exact raises_ok _
  | cons first rest =>
    refine raises_mapped ((raises_foldlM raises_insertEntryRow _).bind fun _ _ =>
      (raises_forM fun e _ => ?_).bind fun _ _ => raises_ok _)
    unfold entryForeignKeys
    split_ifs
    · exact raises_error (by decide)
    · exact raises_error (by decide)
    · exact raises_ok _

theorem raises_loadTransactionForUpdate (id : UUID) (db : DB) :
    Raises Ordinary (loadTransactionForUpdate id db) := by
  unfold loadTransactionForUpdate
  split
  · exact raises_errorf (by decide)
  · refine (raises_forM fun e _ => ?_).bind fun _ _ => raises_ok _
    exact Raises.bind (raises_wrap (raises_newMoney _ _)) fun _ _ => raises_ok _

theorem raises_markReversed (id : UUID) (db : DB) : Raises Ordinary (markReversed id db) := by
  unfold markReversed
  split_ifs
  · exact raises_ok _
  · exact raises_errorf (by decide)

theorem raises_applyBalanceDelta {d : BalanceDelta} {r : AccountRow}
    (hr : db.accounts.find? d.accountID = some r) (hv : r.balance.version = d.expectedVersion) :
    Raises Ordinary (applyBalanceDelta now d db) := by
  have hfound : (db.accounts.find? d.accountID).filter
      (fun r => r.balance.version = d.expectedVersion) = some r := by
    simp [hr, Option.filter, hv]
  unfold applyBalanceDelta
  rw [hfound]
  refine (raises_mapped ?_).bind fun _ _ => (raises_wrap (raises_newMoney _ _)).bind fun _ _ =>
    (raises_wrap (raises_newMoney _ _)).bind fun _ _ => raises_ok _
  unfold applyBalanceDelta.balanceAfter
  split
  · exact raises_balanceCheck _
  · exact raises_error (by decide)

/-- A property of the errors of a posting under a key. The ordinary ones have it, and so has the
conflict over the key, if a transaction carries the key. -/
structure Covers (P : Error → Prop) (principalID : String) (key : Option String) (db : DB) :
    Prop where
  ordinary : ∀ e, Ordinary e → P e
  duplicate : keyTaken principalID key db = true → ∀ e : Error,
    e.sentinels = [.duplicateIdempotencyKey] → P e
  wrap : ∀ context e, P e → P (e.wrap context)

variable {P : Error → Prop} {principalID : String} {key : Option String}

theorem Covers.raises (hP : Covers P principalID key db) {x : Except Error α}
    (h : Raises Ordinary x) : Raises P x :=
  fun e he => hP.ordinary e (h e he)

theorem raises_insertTransaction {t : Transaction}
    (hP : Covers P t.principalID t.idempotencyKey db) : Raises P (insertTransaction now t db) := by
  have hmild (e : PgError) (he : OffKey e) :
      P ((mapError e).wrap ("insert transaction " ++ t.id.string)) :=
    hP.wrap _ _ (hP.ordinary _ he.ordinary)
  refine raises_mapError (Raises.bind ?_ fun row _ => Raises.bind ?_ fun _ _ =>
    Raises.bind ?_ fun _ _ => raises_ok _)
  · exact fun e he => hmild e (raises_transactionCheck _ e he)
  · exact fun e he => hmild e (raises_unique _ (by decide) e he)
  · intro e he
    unfold failIf at he
    split_ifs at he with htaken
    cases he
    exact hP.duplicate htaken _ rfl

theorem raises_lockAndValidate (ids : List UUID) (requests : List EntryRequest) (s : TxState) :
    Raises Ordinary ((lockAndValidate ids requests).run (exec now) s) := by
  refine Prog.raises_bind (Prog.raises_perform (raises_ok _)) fun locked _ _ =>
    Prog.raises_bind (Prog.raises_ofExcept ?_) fun _ _ _ =>
    Prog.raises_bind (Prog.raises_ofExcept ?_) fun _ _ _ => raises_ok _
  · exact raises_forM fun id _ => raises_checkPostable _ id
  · exact raises_forM fun e _ => raises_checkCurrency _ e

/-- The service holds what the rows of the accounts in `order` are. -/
def Locked (accounts : AccountMap) (order : List UUID) (db : DB) : Prop :=
  ∀ id ∈ order, ∃ r, db.accounts.find? id = some r ∧ accounts id = some (lockedAccount id r)

theorem raises_applyBalance {g : Aggregate} {id : UUID} (h : Locked accounts [id] s.db) :
    Raises Ordinary ((applyBalance accounts g id).run (exec now) s) := by
  obtain ⟨r, hr, ha⟩ := h id List.mem_cons_self
  refine Prog.raises_bind (Prog.raises_ofExcept (raises_checkFunds _ _ _)) fun _ s' hs' => ?_
  obtain ⟨_, -, he⟩ := map_eq_ok.1 (Prog.run_ofExcept _ ▸ hs')
  cases he
  refine Prog.raises_bind (Prog.raises_perform (Raises.map ?_)) fun _ _ _ => raises_ok _
  exact raises_applyBalanceDelta hr (by rw [ha]; rfl)

theorem raises_applyBalances {g : Aggregate} {order : List UUID} (hnd : order.Nodup)
    (h : Locked accounts order s.db) :
    Raises Ordinary ((order.mapM' (applyBalance accounts g)).run (exec now) s) := by
  induction order generalizing s with
  | nil => exact raises_ok _
  | cons a order ih =>
    obtain ⟨hnot, hnd⟩ := List.nodup_cons.1 hnd
    refine Prog.raises_bind (raises_applyBalance fun id hid => h id ?_) fun b s' hb => ?_
    · exact List.mem_singleton.1 hid ▸ List.mem_cons_self
    obtain ⟨ra, row, -, -, rfl⟩ := applyBalance_eq_ok hb
    refine Prog.raises_bind (ih hnd fun id hid => ?_) fun _ _ _ => raises_ok _
    obtain ⟨r, hr, ha⟩ := h id (List.mem_cons_of_mem _ hid)
    have hne : id ≠ a := fun e => hnot (e ▸ hid)
    exact ⟨r, (Table.find?_modify_of_ne _ hne).trans hr, ha⟩

theorem raises_writeTransaction {d : Draws} {header : Transaction} {requests : List EntryRequest}
    (hP : Covers P header.principalID header.idempotencyKey s.db)
    (h : Locked accounts (sortedAccountIDs requests) s.db) :
    Raises P ((writeTransaction d header requests accounts (sortedAccountIDs requests)).run
      (exec now) s) := by
  refine Prog.raises_bind (Prog.raises_perform (raises_insertTransaction hP).map)
    fun times s₁ h₁ => hP.raises ?_
  obtain ⟨⟨times', db₁⟩, hinsert, he⟩ := map_eq_ok.1
    ((Prog.run_perform (TxCall.insertTransaction header)).symm.trans h₁)
  cases he
  obtain ⟨row, transactions, -, -, -, -, rfl⟩ := insertTransaction_eq_ok hinsert
  refine Prog.raises_bind (Prog.raises_perform (raises_insertEntries _ _)) fun entries s₂ h₂ => ?_
  obtain ⟨-, -, -, -, journal, hdb⟩ := insertEntries_eq_ok
    ((Prog.run_perform (TxCall.insertEntries _)).symm.trans h₂)
  refine Prog.raises_bind (Prog.raises_bind (Prog.raises_ofExcept
    (raises_foldlM (raises_aggregateEntry _) _)) fun g s₃ h₃ => ?_) fun _ _ _ => raises_ok _
  obtain ⟨_, -, he⟩ := map_eq_ok.1 (Prog.run_ofExcept _ ▸ h₃)
  cases he
  refine raises_applyBalances (sortedAccountIDs_nodup _) ?_
  rw [hdb]
  exact h

theorem raises_appendTransactionEvent (d : Draws) (eventType : String) (header : Transaction)
    (balances : List EventBalance) (reverses : Option UUID) (reason : String) (s : TxState) :
    Raises Ordinary ((appendTransactionEvent d eventType header balances reverses reason).run
      (exec now) s) := by
  have hevent (id : UUID) (e : Event) (s : TxState) :
      Raises Ordinary ((Tx.appendEvent id e).run (exec now) s) :=
    Prog.raises_perform (raises_sideCall _ s trivial)
  refine Prog.raises_bind (Prog.raises_ofExcept (raises_marshal _ _ _)) fun _ _ _ =>
    Prog.raises_bind (hevent _ _ _) fun _ _ _ => Prog.raises_forM fun b _ s => ?_
  exact Prog.raises_bind (Prog.raises_ofExcept (raises_marshal _ _ _)) fun _ _ _ => hevent _ _ _

/-- The errors that the renderer and the hook return of their own. -/
structure QuietFor (P : Error → Prop) (idem : Option Idempotent) (record : Option Recorder) :
    Prop where
  render : ∀ i render, idem = some i → i.render = some render → ∀ t, Raises P (render t)
  record : ∀ t, (runRecord record t).OnlyFails P

/-- Neither the renderer nor the hook returns `ErrBalanceVersionConflict` of its own. -/
structure Quiet (idem : Option Idempotent) (record : Option Recorder) : Prop where
  render : ∀ i render, idem = some i → i.render = some render → ∀ t, Raises Clear (render t)
  record : ∀ t, (runRecord record t).OnlyFails Clear

section Posting
variable {d : Draws} {reversalID txID : UUID} {reason : String} {req : TransactionRequest}
  {idem : Option Idempotent} {record : Option Recorder}

theorem raises_completeIdempotency (hP : Covers P principalID key db) (h : QuietFor P idem record)
    (t : Transaction) (s : TxState) :
    Raises P ((completeIdempotency idem t).run (exec now) s) := by
  unfold completeIdempotency
  split
  · exact raises_ok _
  · next i =>
    split
    · exact hP.raises (raises_errorf (by decide))
    · next render hrender =>
      have hwrapped := raises_mapError (f := Error.wrap ("render response for transaction " ++
        t.id.string)) fun e he => hP.wrap _ e (h.render i render rfl hrender t e he)
      exact Prog.raises_bind (Prog.raises_ofExcept hwrapped) fun _ s' _ =>
        hP.raises (Prog.raises_perform (raises_sideCall _ s' trivial))

theorem raises_runRecord (hP : Covers P principalID key db) (h : QuietFor P idem record)
    (hooks : Recording record) (t : Transaction) (s : TxState) :
    Raises P ((runRecord record t).run (exec now) s) :=
  Prog.raises_of_onlyCalls (hooks.sideCalls t) (h.record t) fun c s hc =>
    hP.raises (raises_sideCall c s hc)

theorem raises_postTx (hP : Covers P req.principalID req.idempotencyKey s.db)
    (hooks : Recording req.record) (h : QuietFor P req.idempotency req.record) :
    Raises P ((postTx d txID req).run (exec d.now) s) := by
  refine Prog.raises_bind ?_ fun requests s₁ hroute => ?_
  · rw [run_routeToShards]
    exact raises_ok _
  cases (run_routeToShards d req.entries s).symm.trans hroute
  refine Prog.raises_bind (hP.raises (raises_lockAndValidate _ _ _)) fun accounts s₂ hlock => ?_
  obtain ⟨rfl, hlocked, -⟩ := lockAndValidate_eq_ok hlock
  refine Prog.raises_bind (raises_writeTransaction hP fun id hid => ?_) fun written s₃ _ => ?_
  · obtain ⟨r, hr, -, ha⟩ := hlocked id hid
    exact ⟨r, hr, ha⟩
  exact Prog.raises_bind (hP.raises (raises_appendTransactionEvent _ _ _ _ _ _ _)) fun _ _ _ =>
    Prog.raises_bind (raises_runRecord hP h hooks _ _) fun _ _ _ =>
    Prog.raises_bind (raises_completeIdempotency hP h _ _) fun _ _ _ => raises_ok _

theorem raises_reverseTx
    (hP : Covers P ((idem.map fun i => i.principalID).getD "") (idem.map fun i => i.key) s.db)
    (hooks : Recording record) (h : QuietFor P idem record) :
    Raises P ((reverseTx d reversalID txID reason idem record).run (exec now) s) := by
  refine Prog.raises_bind (hP.raises (Prog.raises_perform (raises_loadTransactionForUpdate _ _).map))
    fun original s₁ hload => ?_
  obtain ⟨_, -, he⟩ := map_eq_ok.1
    ((Prog.run_perform (TxCall.loadTransactionForUpdate txID)).symm.trans hload)
  cases he
  refine Prog.raises_bind (hP.raises (Prog.raises_ofExcept (raises_checkReversible _ _)))
    fun _ s₂ hcheck => ?_
  obtain ⟨_, -, he⟩ := map_eq_ok.1 (Prog.run_ofExcept _ ▸ hcheck)
  cases he
  refine Prog.raises_bind (hP.raises (raises_lockAndValidate _ _ _)) fun accounts s₃ hlock => ?_
  obtain ⟨rfl, hlocked, -⟩ := lockAndValidate_eq_ok hlock
  refine Prog.raises_bind (raises_writeTransaction hP fun id hid => ?_) fun written s₄ _ => ?_
  · obtain ⟨r, hr, -, ha⟩ := hlocked id hid
    exact ⟨r, hr, ha⟩
  exact Prog.raises_bind (hP.raises (Prog.raises_perform (raises_markReversed _ _).map)) fun _ _ _ =>
    Prog.raises_bind (hP.raises (raises_appendTransactionEvent _ _ _ _ _ _ _)) fun _ _ _ =>
    Prog.raises_bind (raises_runRecord hP h hooks _ _) fun _ _ _ =>
    Prog.raises_bind (raises_completeIdempotency hP h _ _) fun _ _ _ => raises_ok _

theorem raises_inTx {p : TxM α} (hP : Covers P principalID key db)
    (hp : Raises P (p.run (exec now) ⟨db, []⟩)) : Raises P (inTx now p db) := by
  refine hp.bind fun x _ => Raises.bind (Raises.map (raises_mapError ?_)) fun _ _ => raises_ok _
  refine raises_forM fun txID _ => ?_
  unfold assertTransactionBalanced
  split
  · exact raises_ok _
  · refine raises_error (hP.wrap _ _ (hP.ordinary _ (OffKey.ordinary ?_)))
    change "" ≠ "transactions_idempotency_key_key"
    decide

theorem raises_postTransaction (hP : Covers P req.principalID req.withKey.idempotencyKey db)
    (hooks : Recording req.record) (h : QuietFor P req.idempotency req.record) :
    Raises P (postTransaction d txID req db) := by
  have hprincipal : req.withKey.principalID = req.principalID := by
    unfold TransactionRequest.withKey
    split <;> rfl
  refine (hP.raises (raises_validate req)).bind fun _ _ => raises_inTx hP (raises_postTx ?_ ?_ ?_)
  · rw [hprincipal]
    exact hP
  · rw [record_withKey]
    exact hooks
  · rw [record_withKey, idempotency_withKey]
    exact h

theorem raises_doReverse
    (hP : Covers P ((idem.map fun i => i.principalID).getD "") (idem.map fun i => i.key) db)
    (hooks : Recording record) (h : QuietFor P idem record) :
    Raises P (doReverse d reversalID txID reason idem record db) := by
  unfold doReverse
  split_ifs
  · refine raises_error (hP.ordinary _ ?_)
    change ∀ t ∈ conflicts, _
    decide
  · exact raises_inTx hP (raises_reverseTx hP hooks h)

end Posting

def Posting.Quiet : Posting → Prop
  | .post _ _ req _ => Ledger.Quiet req.idempotency req.record
  | .reverse _ _ _ _ idem record _ => Ledger.Quiet idem record

theorem raises_run {op : Posting} (h : op.Quiet) (db : DB) : Raises Clear (op.run db) := by
  have hclear (principalID : String) (key : Option String) : Covers Clear principalID key db := by
    refine ⟨fun _ he => he.clear, fun _ e he => ?_, fun _ _ he => he⟩
    rw [Clear, Error.is, he]
    rfl
  cases op with
  | post d txID req hooks => exact raises_postTransaction (hclear _ _) hooks ⟨h.render, h.record⟩
  | reverse d reversalID txID reason idem record hooks =>
    exact raises_doReverse (hclear _ _) hooks ⟨h.render, h.record⟩

end LedgerCore.Ledger
