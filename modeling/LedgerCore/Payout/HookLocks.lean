import LedgerCore.Program.Trace
import LedgerCore.Ledger.Deadlocks
import LedgerCore.Ledger.ShardChoice
import LedgerCore.Payout.Settlement

/-! The balance that the `Record` hook of a saga's step updates, and the balances that the step's
transaction has locked by then. -/
namespace LedgerCore.Payout
open LedgerCore.Program LedgerCore.Saga

def Call.transaction (ch : Choice) : Call → Option (Ledger.TxM Ledger.Transaction)
  | .postTransaction req => some (do
    .ofExcept req.validate
    Ledger.postTx ch.draws ch.uuid.1 req.withKey)
  | .reverseTransactionRecorded txID reason record => some (do
    .ofExcept (failIf (reason = "") (.ofSentinel .reversalReasonRequired))
    Ledger.reverseTx ch.draws ch.uuid.1 txID reason none (some record))
  | _ => none

/-- The call does to the world what the transaction does to the database. -/
theorem world_of_transaction {ch : Choice} {c : Call} {p : Ledger.TxM Ledger.Transaction}
    {sagaID : UUID} {w w' : World} {r : Reply c} (hp : c.transaction ch = some p)
    (h : World.call sagaID ch c w = some (r, w')) :
    w' = (w.ledger sagaID (Ledger.inTx ch.draws.now p w.db)).2 := by
  cases c with
  | postTransaction req =>
    cases hp
    rw [Ledger.inTx_ofExcept]
    exact (congrArg Prod.snd (Option.some.inj h)).symm
  | reverseTransactionRecorded txID reason record =>
    cases hp
    refine (congrArg Prod.snd (Option.some.inj h)).symm.trans ?_
    rw [Ledger.inTx_ofExcept, Ledger.doReverse, failIf]
    split_ifs <;> rfl
  | _ => cases hp

/-- The statement is a `LockAccounts` that locks the account. -/
def locksAccount (id : UUID) (x : Ledger.TxCall × Ledger.TxState) : Bool :=
  match x.1 with
  | .lockAccounts ids => (Ledger.lockAccounts ids x.2.db).any fun a => a.id = id
  | _ => false

/-- The rows of `account_balances` that a statement locks, in order. -/
def balanceLocks (advisoryLocks : Bool) (x : Ledger.TxCall × Ledger.TxState) : List UUID :=
  (Ledger.takes advisoryLocks x.1 x.2.db).filterMap fun
    | .balance id => some id
    | _ => none

/-- Each row is locked already, or its id is larger than those of the rows that are. -/
def Ascending (ids : List UUID) : Prop :=
  ∀ before id after, ids = before ++ id :: after → id ∉ before → ∀ id' ∈ before, id' < id

/-- The statements that may come before the lock: they touch no balance. -/
def BeforeLock : Ledger.TxCall → Prop
  | .resolveShards _ | .loadTransactionForUpdate _ => True
  | _ => False

/-- The statements that may come after the accounts `ids` are locked. -/
def AfterLock (ids : List UUID) (suspenseID : UUID) : Ledger.TxCall → Prop
  | .lockAccounts _ | .insertAccount _ => False
  | .applyBalanceDelta d => d.accountID ∈ ids
  | .applyPendingDelta d => d.accountID = suspenseID
  | _ => True

section Locks
variable {advisoryLocks : Bool} {ids : List UUID} {suspenseID : UUID} {now : Time}
  {x : Ledger.TxCall × Ledger.TxState} {s : Ledger.TxState}

theorem mem_balanceLocks {id : UUID} :
    id ∈ balanceLocks advisoryLocks x ↔ .balance id ∈ Ledger.takes advisoryLocks x.1 x.2.db := by
  rw [balanceLocks, List.mem_filterMap]
  constructor
  · rintro ⟨l, hl, hid⟩
    split at hid
    · cases hid
      exact hl
    · cases hid
  · exact fun h => ⟨_, h, rfl⟩

theorem balanceLocks_lockAccounts :
    balanceLocks advisoryLocks (.lockAccounts ids, s) =
      (Ledger.lockAccounts ids s.db).map fun a => a.id := by
  have hadvisory : (Ledger.takeAdvisoryLocks advisoryLocks ids).filterMap (fun
      | .balance id => some id
      | _ => none) = ([] : List UUID) := by
    unfold Ledger.takeAdvisoryLocks
    split_ifs
    · simp
    · rfl
  simp only [balanceLocks, Ledger.takes, Ledger.rowLocks, List.filterMap_append, hadvisory,
    List.nil_append, List.filterMap_flatMap]
  exact (List.map_eq_flatMap ..).symm

theorem balanceLocks_before (h : BeforeLock x.1) : balanceLocks advisoryLocks x = [] := by
  obtain ⟨c, s⟩ := x
  cases c with
  | resolveShards ids => rfl
  | loadTransactionForUpdate id =>
    simp only [balanceLocks, Ledger.takes]
    split_ifs <;> rfl
  | _ => exact h.elim

theorem mem_of_balanceLocks_after (h : AfterLock ids suspenseID x.1) {id : UUID}
    (hid : id ∈ balanceLocks advisoryLocks x) : id ∈ ids ∨ id = suspenseID := by
  obtain ⟨c, s⟩ := x
  rw [mem_balanceLocks] at hid
  cases c with
  | lockAccounts ids' => exact h.elim
  | insertAccount a => exact h.elim
  | applyBalanceDelta d =>
    simp only [Ledger.takes] at hid
    split_ifs at hid
    · cases List.mem_singleton.1 hid
      exact .inl h
    · cases hid
  | applyPendingDelta d =>
    simp only [Ledger.takes] at hid
    split_ifs at hid
    · cases List.mem_singleton.1 hid
      exact .inr h
    · cases hid
  | _ =>
    unfold Ledger.takes at hid
    dsimp only at hid
    first
    | split_ifs at hid <;> simp at hid
    | simp [Ledger.indexEntries] at hid

theorem ascending_append {locked again : List UUID} (hlocked : locked.Pairwise (· < ·))
    (hagain : ∀ id ∈ again, id ∈ locked) : Ascending (locked ++ again) := by
  intro before id after heq hnew id' hid'
  rcases List.append_eq_append_iff.1 heq with ⟨more, rfl, hmore⟩ | ⟨more, rfl, hmore⟩
  · have hmem : id ∈ again := hmore ▸ List.mem_append_right _ List.mem_cons_self
    exact absurd (List.mem_append_left _ (hagain id hmem)) hnew
  · cases more with
    | nil =>
      rw [List.nil_append] at hmore
      have hmem : id ∈ again := hmore ▸ List.mem_cons_self
      exact absurd (List.append_nil before ▸ hagain id hmem) hnew
    | cons a more =>
      obtain ⟨rfl, -⟩ := List.cons.inj hmore
      exact (List.pairwise_append.1 hlocked).2.2 id' hid' id List.mem_cons_self

end Locks

/-- What the hook of a step does inside of the transaction. -/
def RecordCall (suspenseID : UUID) : Ledger.TxCall → Prop
  | .applyPendingDelta d => d.accountID = suspenseID
  | .commitSagaStep _ | .appendEvent _ _ => True
  | _ => False

/-- The accounts `ids` are locked by one statement. What follows it comes only once they were all
found. -/
def LocksOnce (ids : List UUID) (suspenseID : UUID) (s : Ledger.TxState)
    (statements : List (Ledger.TxCall × Ledger.TxState)) : Prop :=
  ∃ before after, statements = before ++ (.lockAccounts ids, s) :: after ∧
    (∀ x ∈ before, BeforeLock x.1) ∧ (∀ x ∈ after, AfterLock ids suspenseID x.1) ∧
    (after ≠ [] → ∀ id ∈ ids, ∃ a ∈ Ledger.lockAccounts ids s.db, a.id = id)

section Statements
variable {α : Type} {ids : List UUID} {suspenseID : UUID} {d : Ledger.Draws} {txID : UUID}
  {s : Ledger.TxState} {header : Ledger.Transaction} {balances : List EventBalance}

theorem LocksOnce.cons {x : Ledger.TxCall × Ledger.TxState}
    {statements : List (Ledger.TxCall × Ledger.TxState)} (hx : BeforeLock x.1)
    (h : LocksOnce ids suspenseID s statements) : LocksOnce ids suspenseID s (x :: statements) := by
  obtain ⟨before, after, rfl, hbefore, hafter⟩ := h
  exact ⟨x :: before, after, rfl, List.forall_mem_cons.2 ⟨hx, hbefore⟩, hafter⟩

theorem locksOnce_lockAndValidate {now : Time} {requests : List Ledger.EntryRequest}
    {f : Ledger.AccountMap → Ledger.TxM α}
    (hf : ∀ accounts, (f accounts).OnlyCalls (AfterLock ids suspenseID)) :
    LocksOnce ids suspenseID s
      ((Ledger.lockAndValidate ids requests >>= f).trace (Ledger.exec now) s) := by
  let accounts := Ledger.accountMap (Ledger.lockAccounts ids s.db)
  let rest : Ledger.TxM α := do
    .ofExcept (ids.forM (Ledger.checkPostable accounts))
    .ofExcept (requests.zipIdx.forM (Ledger.checkCurrency accounts))
    f accounts
  refine ⟨[], rest.trace (Ledger.exec now) s, ?_, fun _ h => (nomatch h), fun x hx => ?_, fun hne => ?_⟩
  · rw [Ledger.lockAndValidate, Prog.bind_assoc]
    change _ :: Prog.trace _ ((_ >>= fun _ => _ >>= fun _ => pure _) >>= f) s = _
    rw [Prog.bind_assoc]
    simp only [Prog.bind_assoc]
    rfl
  · refine Prog.OnlyCalls.of_mem_trace ?_ hx
    exact .bind (Prog.onlyCalls_ofExcept _) fun _ => .bind (Prog.onlyCalls_ofExcept _) fun _ =>
      hf accounts
  · simp only [rest, Prog.trace_ofExcept_bind] at hne
    split at hne
    · next hpostable =>
      intro id hid
      obtain ⟨a, ha, -⟩ := Ledger.checkPostable_eq_ok (forM_eq_ok.1 hpostable id hid)
      exact ⟨a, List.mem_of_find?_eq_some ha, by simpa using List.find?_some ha⟩
    · exact absurd rfl hne

theorem writeTransaction_after {requests : List Ledger.EntryRequest} {accounts : Ledger.AccountMap} :
    (Ledger.writeTransaction d header requests accounts ids).OnlyCalls (AfterLock ids suspenseID) := by
  refine .bind (Prog.onlyCalls_perform trivial) fun _ => .bind (Prog.onlyCalls_perform trivial)
    fun _ => .bind (.bind (Prog.onlyCalls_ofExcept _) fun g => ?_) fun _ => trivial
  refine Prog.onlyCalls_mapM' fun id hid => .bind (Prog.onlyCalls_ofExcept _) fun _ => ?_
  exact .bind (Prog.onlyCalls_perform hid) fun _ => trivial

theorem appendTransactionEvent_after {eventType reason : String} {reverses : Option UUID} :
    (Ledger.appendTransactionEvent d eventType header balances reverses reason).OnlyCalls
      (AfterLock ids suspenseID) := by
  refine (Ledger.appendTransactionEvent_events ..).mono fun c hc => ?_
  cases c with
  | appendEvent eventID e => trivial
  | _ => exact hc.elim

theorem runRecord_after {record : Ledger.Recorder}
    (h : ∀ t, (record t).OnlyCalls (RecordCall suspenseID)) :
    (Ledger.runRecord (some record) header).OnlyCalls (AfterLock ids suspenseID) := by
  refine (h header).mono fun c hc => ?_
  cases c <;> first | exact hc | exact hc.elim

theorem recordStep_calls {o : Orchestrator} {inst : Instance} {p : Payload} {deltaMinor : Int64}
    {ev : Stamp} {c : Commit} (t : Ledger.Transaction) :
    (recordStep o inst p deltaMinor ev c t).OnlyCalls (RecordCall p.suspenseID) :=
  .bind (Prog.onlyCalls_perform rfl) fun _ => .bind (Prog.onlyCalls_perform trivial) fun _ =>
    Prog.onlyCalls_perform trivial

theorem trace_routeToShards (entries : List Ledger.EntryRequest) :
    (Ledger.routeToShards d entries).trace (Ledger.exec d.now) s =
      [(.resolveShards (Ledger.sortedAccountIDs entries), s)] := by
  change _ :: Prog.trace _ (if _ then _ else _) s = _
  split_ifs <;> rfl

theorem postTx_locksOnce {req : Ledger.TransactionRequest} {record : Ledger.Recorder}
    (hidem : req.idempotency = none) (hrecord : req.record = some record)
    (h : ∀ t, (record t).OnlyCalls (RecordCall suspenseID)) :
    LocksOnce (Ledger.sortedAccountIDs (Ledger.routed d req.entries s.db)) suspenseID s
      ((Ledger.postTx d txID req).trace (Ledger.exec d.now) s) := by
  rw [Ledger.postTx, Prog.trace_bind, trace_routeToShards, Ledger.run_routeToShards]
  refine LocksOnce.cons trivial (locksOnce_lockAndValidate fun accounts => ?_)
  rw [hidem, hrecord]
  exact .bind writeTransaction_after fun _ => .bind appendTransactionEvent_after fun _ =>
    .bind (runRecord_after h) fun _ => .bind trivial fun _ => trivial

theorem reverseTx_locksOnce {reversalID : UUID} {reason : String} {record : Ledger.Recorder}
    (h : ∀ t, (record t).OnlyCalls (RecordCall suspenseID)) :
    (∀ x ∈ (Ledger.reverseTx d reversalID txID reason none (some record)).trace (Ledger.exec d.now) s,
      BeforeLock x.1) ∨
    ∃ original, Ledger.loadTransactionForUpdate txID s.db = .ok original ∧
      LocksOnce (Ledger.sortedAccountIDs (Ledger.mirrored original.entries)) suspenseID s
        ((Ledger.reverseTx d reversalID txID reason none (some record)).trace (Ledger.exec d.now) s) := by
  rw [Ledger.reverseTx, Ledger.Tx.loadTransactionForUpdate, Prog.trace_perform_bind, Ledger.exec]
  cases Ledger.loadTransactionForUpdate txID s.db with
  | error e =>
    refine .inl fun x hx => ?_
    cases List.mem_singleton.1 hx
    trivial
  | ok original =>
    change (∀ x ∈ _ :: Prog.trace _ (Prog.ofExcept _ >>= _) s, _) ∨ ∃ _, _ ∧ LocksOnce _ _ _
      (_ :: Prog.trace _ (Prog.ofExcept _ >>= _) s)
    rw [Prog.trace_ofExcept_bind]
    cases Ledger.checkReversible txID original with
    | error e =>
      refine .inl fun x hx => ?_
      cases List.mem_singleton.1 hx
      trivial
    | ok _ =>
      refine .inr ⟨original, rfl, LocksOnce.cons trivial (locksOnce_lockAndValidate fun accounts => ?_)⟩
      exact .bind writeTransaction_after fun _ => .bind (Prog.onlyCalls_perform trivial) fun _ =>
        .bind appendTransactionEvent_after fun _ => .bind (runRecord_after h) fun _ =>
          .bind trivial fun _ => trivial

end Statements

/-- A step's request names the suspense account, and its hook updates the pending amount of no
other. -/
def HookCall (suspenseID : UUID) : Call → Prop
  | .postTransaction req => req.idempotency = none ∧
      (∃ e ∈ req.entries, e.accountID = suspenseID) ∧
      ∃ record, req.record = some record ∧ ∀ t, (record t).OnlyCalls (RecordCall suspenseID)
  | .reverseTransactionRecorded _ _ record => ∀ t, (record t).OnlyCalls (RecordCall suspenseID)
  | _ => True

section Calls
variable {suspenseID : UUID} {o : Orchestrator} {inst : Instance}

theorem Bookkeeping.hookCall {E : Status → Status → Prop} {c : Call} (h : Bookkeeping E c) :
    HookCall suspenseID c := by
  cases c <;> first | exact h.elim | trivial

theorem Plain.hookCall {refund : Prop} {c : Call} (h : Plain refund c) : HookCall suspenseID c := by
  cases c <;> first | exact h.elim | trivial

theorem failForwardStep_hookCalls {step : Step} {attemptID : UUID} {number : ℕ} (cause : Error) :
    (failForwardStep o inst step attemptID number cause).OnlyCalls (HookCall suspenseID) :=
  (failForwardStep_books (E := fun _ _ => True) trivial (fun _ => trivial)
    fun _ _ => trivial).mono fun _ => Bookkeeping.hookCall

theorem reserve_hookCalls (p : Payload) : (reserve o inst p).OnlyCalls (HookCall p.suspenseID) :=
  .bind (onlyCalls_nextAttempt trivial trivial) fun _ =>
    .bind (onlyCalls_mustNewMoney ..) fun _ => .bind (Prog.onlyCalls_perform trivial) fun _ =>
      onlyCalls_posting ⟨rfl, ⟨_, List.mem_cons_of_mem _ List.mem_cons_self, rfl⟩, _, rfl,
        recordStep_calls⟩ failForwardStep_hookCalls

theorem settle_hookCalls (p : Payload) : (settle o inst p).OnlyCalls (HookCall p.suspenseID) :=
  .bind (onlyCalls_nextAttempt trivial trivial) fun _ =>
    .bind (onlyCalls_mustNewMoney ..) fun _ => .bind (onlyCalls_mustNewMoney ..) fun _ =>
      .bind (onlyCalls_feeEntries p) fun _ => .bind (Prog.onlyCalls_perform trivial) fun _ =>
        onlyCalls_posting ⟨rfl, ⟨_, List.mem_cons_self, rfl⟩, _, rfl, recordStep_calls⟩
          failForwardStep_hookCalls

theorem reverseReserve_hookCalls (p : Payload) (reserveTxID : UUID) :
    (reverseReserve o inst p reserveTxID).OnlyCalls (HookCall p.suspenseID) := by
  refine .bind (onlyCalls_nextAttempt trivial trivial)
    fun _ => .bind (Prog.onlyCalls_perform trivial) fun _ =>
      .bind (Prog.onlyCalls_perform recordStep_calls) fun posted => ?_
  cases posted with
  | ok t => trivial
  | error cause =>
    dsimp only
    split_ifs
    · refine .bind (.bind (Prog.onlyCalls_perform trivial) onlyCalls_orReturn) fun current => ?_
      split_ifs
      · trivial
      · exact (escalate_books (E := fun _ _ => True) trivial).mono fun _ => Bookkeeping.hookCall
    · exact (failCompensation_books (E := fun _ _ => True) trivial trivial).mono fun _ =>
        Bookkeeping.hookCall

theorem driveOne_hookCalls : (driveOne o inst).OnlyCalls (HookCall inst.payload.suspenseID) := by
  unfold driveOne
  split_ifs
  · trivial
  split
  · exact reserve_hookCalls _
  · exact (@callGateway_plain True _ _ _).mono fun _ => Plain.hookCall
  · exact (@resolveGateway_plain True _ _).mono fun _ => Plain.hookCall
  · exact settle_hookCalls _
  · exact onlyCalls_advance trivial
  · refine .bind (.bind (Prog.onlyCalls_perform trivial) onlyCalls_orReturn) fun attempts => ?_
    dsimp only
    split_ifs
    · exact onlyCalls_advance trivial
    · exact reverseReserve_hookCalls _ _
  · trivial

end Calls

/-- A posting finds no active shard of the suspense account; a reversal finds an entry of its
transaction on the account itself. -/
def SuspenseInPlace (suspenseID : UUID) : Call → DB → Prop
  | .reverseTransactionRecorded txID _ _, db =>
    ∃ e ∈ Ledger.transactionEntries txID db, e.accountID = suspenseID
  | _, db => ∀ shard r, db.accounts.find? shard = some r → r.parentAccountID = some suspenseID →
    r.status ≠ .active

section Update
variable {P : AccountRow → AccountRow → Prop} {db : DB} {suspenseID : UUID} {ids : List UUID}
  {advisoryLocks : Bool} {ch : Choice} {c : Call} {p : Ledger.TxM Ledger.Transaction}
  {delta : Ledger.PendingDelta} {s s' : Ledger.TxState}
  {statements earlier later : List (Ledger.TxCall × Ledger.TxState)}

theorem mem_routed_iff (hchart : Ledger.Shards P db) (d : Ledger.Draws)
    {entries : List Ledger.EntryRequest} (hnamed : ∃ e ∈ entries, e.accountID = suspenseID) :
    suspenseID ∈ Ledger.sortedAccountIDs (Ledger.routed d entries db) ↔
      ∀ shard r, db.accounts.find? shard = some r → r.parentAccountID = some suspenseID →
        r.status ≠ .active := by
  rw [Ledger.mem_sortedAccountIDs]
  constructor
  · rintro ⟨_, hrouted, hid⟩ shard r hr hparent hactive
    obtain ⟨e, he, rfl⟩ := List.mem_map.1 hrouted
    -- The suspense account has a shard, so it is no shard itself.
    obtain ⟨rp, hrp, hnone, -⟩ := hchart shard r _ hr hparent
    have hnot : ∀ r' parent, db.accounts.find? suspenseID = some r' →
        r'.parentAccountID ≠ some parent := by
      intro r' parent hr' hparent'
      obtain rfl := Option.some.inj (hr'.symm.trans hrp)
      exact nomatch hnone.symm.trans hparent'
    change Ledger.routedAccount d entries db e.accountID = suspenseID at hid
    rcases Ledger.routedAccount_cases d entries db e.accountID with hstay | ⟨r', hr', hp', -⟩
    · obtain rfl := hstay.symm.trans hid
      obtain ⟨r', hr', hp', -⟩ := Ledger.routedAccount_of_active d
        (Ledger.mem_sortedAccountIDs.2 ⟨e, he, rfl⟩) hr hparent hactive
      exact hnot r' _ (hstay ▸ hr') hp'
    · exact hnot r' _ (hid ▸ hr') hp'
  · intro hshards
    obtain ⟨e, he, rfl⟩ := hnamed
    refine ⟨_, List.mem_map_of_mem he, ?_⟩
    rcases Ledger.routedAccount_cases d entries db e.accountID with hstay | ⟨r, hr, hparent, hactive⟩
    · exact hstay
    · exact absurd hactive (hshards _ r hr hparent)

theorem mem_mirrored_iff {txID : UUID} {original : Ledger.Transaction}
    (h : Ledger.loadTransactionForUpdate txID db = .ok original) :
    suspenseID ∈ Ledger.sortedAccountIDs (Ledger.mirrored original.entries) ↔
      ∃ e ∈ Ledger.transactionEntries txID db, e.accountID = suspenseID := by
  obtain ⟨r, -, -, -, hentries⟩ := Ledger.loadTransactionForUpdate_eq_ok h
  rw [Ledger.mem_sortedAccountIDs, Ledger.mirrored, hentries]
  simp only [List.mem_map, List.mem_insertionSort, exists_exists_and_eq_and, Ledger.entriesOf,
    Ledger.transactionEntries, Ledger.journalEntries, List.mem_filter, Ledger.toEntry,
    decide_eq_true_eq]
  constructor
  · rintro ⟨x, ⟨hx, htx⟩, hid⟩
    exact ⟨_, ⟨⟨x, hx, rfl⟩, htx⟩, hid⟩
  · rintro ⟨_, ⟨⟨x, hx, rfl⟩, htx⟩, hid⟩
    exact ⟨x, ⟨hx, htx⟩, hid⟩

/-- A step's transaction is refused before it locks anything, or it locks its accounts once. -/
theorem hookCall_locksOnce (hchart : Ledger.Shards P db) (hc : HookCall suspenseID c)
    (hp : c.transaction ch = some p) :
    (∀ x ∈ p.trace (Ledger.exec ch.draws.now) ⟨db, []⟩, BeforeLock x.1) ∨
    ∃ ids, (suspenseID ∈ ids ↔ SuspenseInPlace suspenseID c db) ∧
      LocksOnce ids suspenseID ⟨db, []⟩ (p.trace (Ledger.exec ch.draws.now) ⟨db, []⟩) := by
  cases c with
  | postTransaction req =>
    cases hp
    obtain ⟨hidem, hnamed, record, hrecord, hcalls⟩ := hc
    have hkey : req.withKey = req := by
      unfold Ledger.TransactionRequest.withKey
      rw [hidem]
    rw [Prog.trace_ofExcept_bind, hkey]
    cases req.validate with
    | error e => exact .inl fun _ hx => (nomatch hx)
    | ok _ =>
      exact .inr ⟨_, mem_routed_iff hchart ch.draws hnamed,
        postTx_locksOnce (s := ⟨db, []⟩) hidem hrecord hcalls⟩
  | reverseTransactionRecorded txID reason record =>
    cases hp
    rw [Prog.trace_ofExcept_bind]
    cases failIf (reason = "") (Error.ofSentinel .reversalReasonRequired) with
    | error e => exact .inl fun _ hx => (nomatch hx)
    | ok _ =>
      refine (reverseTx_locksOnce hc).imp_right fun ⟨original, hload, hlocks⟩ => ?_
      exact ⟨_, mem_mirrored_iff hload, hlocks⟩
  | _ => cases hp

theorem lockAccounts_ascending (ids : List UUID) (db : DB) :
    ((Ledger.lockAccounts ids db).map fun a => a.id).Pairwise (· < ·) := by
  rw [Ledger.map_id_lockAccounts rfl]
  exact Ledger.lockedIDs_ascending db.accounts.nodup

theorem mem_lockedIDs {id : UUID} (h : id ∈ (Ledger.lockAccounts ids db).map fun a => a.id) :
    id ∈ ids := by
  rw [Ledger.map_id_lockAccounts rfl, List.mem_insertionSort, List.mem_filter] at h
  exact of_decide_eq_true h.2

theorem LocksOnce.split (h : LocksOnce ids suspenseID s statements)
    (hupdate : statements = earlier ++ (.applyPendingDelta delta, s') :: later) :
    ∃ before between, earlier = before ++ (.lockAccounts ids, s) :: between ∧
      (∀ x ∈ before, BeforeLock x.1) ∧
      (∀ x ∈ between ++ (.applyPendingDelta delta, s') :: later, AfterLock ids suspenseID x.1) ∧
      ∀ id ∈ ids, id ∈ (Ledger.lockAccounts ids s.db).map fun a => a.id := by
  obtain ⟨before, after, rfl, hbefore, hafter, hfound⟩ := h
  rcases List.append_eq_append_iff.1 hupdate with ⟨more, rfl, hmore⟩ | ⟨more, rfl, hmore⟩
  · cases more with
    | nil => cases hmore
    | cons x between =>
      obtain ⟨rfl, rfl⟩ := List.cons.inj hmore
      refine ⟨before, between, rfl, hbefore, hafter, fun id hid => List.mem_map.2 ?_⟩
      exact hfound (by simp) id hid
  · cases more with
    | nil => cases hmore
    | cons x more =>
      obtain ⟨rfl, -⟩ := List.cons.inj hmore
      exact (hbefore _ (List.mem_append_right _ List.mem_cons_self)).elim

theorem LocksOnce.locked_iff (h : LocksOnce ids suspenseID s statements)
    (hupdate : statements = earlier ++ (.applyPendingDelta delta, s') :: later) :
    delta.accountID = suspenseID ∧
      ((∃ x ∈ earlier, locksAccount suspenseID x = true) ↔ suspenseID ∈ ids) ∧
      (suspenseID ∈ ids → Ascending (statements.flatMap (balanceLocks advisoryLocks))) := by
  obtain ⟨before, between, rfl, hbefore, hafter, hfound⟩ := h.split hupdate
  refine ⟨hafter _ (List.mem_append_right _ List.mem_cons_self), ⟨?_, fun hid => ?_⟩, fun hid => ?_⟩
  · rintro ⟨⟨c, s₁⟩, hx, hlocks⟩
    cases c with
    | lockAccounts ids' =>
      rcases List.mem_append.1 hx with hx | hx
      · exact (hbefore _ hx).elim
      rcases List.mem_cons.1 hx with hx | hx
      · cases hx
        obtain ⟨a, ha, hid⟩ := List.any_eq_true.1 hlocks
        exact mem_lockedIDs (List.mem_map.2 ⟨a, ha, of_decide_eq_true hid⟩)
      · exact (hafter _ (List.mem_append_left _ hx)).elim
    | _ => cases hlocks
  · refine ⟨_, List.mem_append_right _ List.mem_cons_self, List.any_eq_true.2 ?_⟩
    obtain ⟨a, ha, hid⟩ := List.mem_map.1 (hfound _ hid)
    exact ⟨a, ha, decide_eq_true hid⟩
  · -- The lock statement takes the rows in order, and every later statement takes them again.
    have hnone : before.flatMap (balanceLocks advisoryLocks) = [] :=
      List.flatMap_eq_nil_iff.2 fun x hx => balanceLocks_before (hbefore x hx)
    rw [hupdate, List.append_assoc, List.cons_append, List.flatMap_append, hnone, List.nil_append,
      List.flatMap_cons, balanceLocks_lockAccounts]
    refine ascending_append (lockAccounts_ascending ids s.db) fun id hmem => hfound id ?_
    obtain ⟨x, hx, hlocks⟩ := List.mem_flatMap.1 hmem
    rcases mem_of_balanceLocks_after (hafter x hx) hlocks with hids | rfl
    · exact hids
    · exact hid

/-- The update of a pending amount by the hook of a saga's step hits a row that `LockAccounts` has
locked, and the transaction takes the locks of balances in ascending order, exactly when the suspense
account has no active shard (for a posting) or the reserve posted to the account itself (for its
reversal). -/
theorem hook_update_locked_iff {o : Orchestrator} {inst : Instance} (hchart : Ledger.Shards P db)
    (hmakes : (driveOne o inst).Makes c) (hp : c.transaction ch = some p)
    (hupdate : p.trace (Ledger.exec ch.draws.now) ⟨db, []⟩ =
      earlier ++ (.applyPendingDelta delta, s) :: later) :
    ((∃ x ∈ earlier, locksAccount delta.accountID x = true) ∧
      Ascending ((p.trace (Ledger.exec ch.draws.now) ⟨db, []⟩).flatMap
        (balanceLocks advisoryLocks))) ↔
      SuspenseInPlace inst.payload.suspenseID c db := by
  rcases hookCall_locksOnce hchart (driveOne_hookCalls.of_makes hmakes) hp with hnone | ⟨ids, hiff, h⟩
  · rw [hupdate] at hnone
    exact (hnone _ (List.mem_append_right _ List.mem_cons_self)).elim
  · obtain ⟨hid, hlocked, hascending⟩ := h.locked_iff hupdate
    rw [hid, hlocked, ← hiff]
    exact and_iff_left_of_imp hascending

end Update

def sampleInstance : Instance where
  id := 7
  sagaType := sagaType
  principalID := "p"
  currentStep := .reserve
  status := .pending
  payload := samplePayload
  retryCount := 0
  lastError := ""
  idempotencyKey := none
  leaseOwner := some "w"
  leaseExpiresAt := some 30
  stepDeadlineAt := 20
  createdAt := 10

def sampleReserve : Call :=
  .postTransaction (stepRequest sampleInstance samplePayload .reserve (reserveLegs samplePayload)
    (recordStep (.new sampleConfig) sampleInstance samplePayload 500 (sampleChoice 22).stamp
      (reserveCommit 77 1)))

theorem sampleReserve_makes : (driveOne (.new sampleConfig) sampleInstance).Makes sampleReserve :=
  .inr ⟨.ok 1, .inr ⟨.ok 77, .inr ⟨(sampleChoice 22).stamp, .inl rfl⟩⟩⟩

/-- The payout is started and claimed, with the splits made in between. -/
def sampleClaimed (splits : List Ledger.LedgerOp) : List Action :=
  sampleStart ++ splits.map .ledger ++ [.claim false sampleConfig 20 fun _ => false]

def sampleStatements (s : Sys) : List (Ledger.TxCall × Ledger.TxState) :=
  ((sampleReserve.transaction (sampleChoice 23)).map fun p =>
    p.trace (Ledger.exec (sampleChoice 23).draws.now) ⟨s.world.db, []⟩).getD []

def updatesSuspense : Ledger.TxCall × Ledger.TxState → Bool
  | (.applyPendingDelta d, _) => d.accountID = 3
  | _ => false

theorem exists_update {l : List (Ledger.TxCall × Ledger.TxState)} {n : ℕ}
    (h : l[n]?.any updatesSuspense = true) :
    ∃ delta s, delta.accountID = 3 ∧ l = l.take n ++ (.applyPendingDelta delta, s) :: l.drop (n + 1) := by
  obtain ⟨⟨c, s⟩, hx, hupdate⟩ := (Option.any_eq_true ..).1 h
  obtain ⟨hn, hget⟩ := List.getElem?_eq_some_iff.1 hx
  cases c with
  | applyPendingDelta delta =>
    refine ⟨delta, s, of_decide_eq_true hupdate, ?_⟩
    rw [← hget, List.getElem_cons_drop hn, List.take_append_drop]
  | _ => cases hupdate

theorem hook_update_locked_unsplit : ∃ s p earlier delta s₁ later,
    Sys.init.run (sampleClaimed []) = some s ∧ sampleReserve.transaction (sampleChoice 23) = some p ∧
    p.trace (Ledger.exec (sampleChoice 23).draws.now) ⟨s.world.db, []⟩ =
      earlier ++ (.applyPendingDelta delta, s₁) :: later ∧
    (∃ x ∈ earlier, locksAccount delta.accountID x = true) ∧
    Ascending ((p.trace (Ledger.exec (sampleChoice 23).draws.now) ⟨s.world.db, []⟩).flatMap
      (balanceLocks true)) := by
  have hsome : (Sys.init.run (sampleClaimed [])).any (fun s =>
      (sampleStatements s)[9]?.any updatesSuspense ∧
      s.world.db.accounts.rows.all fun x => x.2.parentAccountID = none) = true := by decide +kernel
  obtain ⟨s, hrun, hs⟩ := (Option.any_eq_true ..).1 hsome
  obtain ⟨hupdate, hunsplit⟩ := of_decide_eq_true hs
  have hparent : ∀ id r parent, s.world.db.accounts.find? id = some r →
      r.parentAccountID ≠ some parent := by
    intro id r parent hr hparent
    have hnone := List.all_eq_true.1 hunsplit (id, r) (Table.find?_eq_some.1 hr)
    exact nomatch (of_decide_eq_true hnone).symm.trans hparent
  obtain ⟨delta, s₁, -, hsplit⟩ := exists_update hupdate
  refine ⟨s, _, _, delta, s₁, _, hrun, rfl, hsplit, (hook_update_locked_iff (P := fun _ _ => True)
    (fun id r parent hr hp => absurd hp (hparent id r parent hr)) sampleReserve_makes rfl hsplit).2
    fun id r hr hp => absurd hp (hparent id r _ hr)⟩

/-- The suspense account is split in two. The reserve locks the wallet and shard 11, and its hook
then locks account 3. -/
theorem hook_update_unlocked : ∃ s p earlier delta s₁ later,
    Sys.init.run (sampleClaimed [.shardAccount 9 (fun i => BitVec.ofNat 128 (10 + i)) 3 2]) = some s ∧
    s.tasks.map Prod.fst = [⟨.new sampleConfig, sampleInstance⟩] ∧
    (driveOne (.new sampleConfig) sampleInstance).Makes sampleReserve ∧
    sampleReserve.transaction (sampleChoice 23) = some p ∧
    p.trace (Ledger.exec (sampleChoice 23).draws.now) ⟨s.world.db, []⟩ =
      earlier ++ (.applyPendingDelta delta, s₁) :: later ∧
    delta.accountID = 3 ∧ (∀ x ∈ earlier, locksAccount delta.accountID x = false) ∧
    ¬Ascending ((p.trace (Ledger.exec (sampleChoice 23).draws.now) ⟨s.world.db, []⟩).flatMap
      (balanceLocks false)) := by
  have hsome : (Sys.init.run
      (sampleClaimed [.shardAccount 9 (fun i => BitVec.ofNat 128 (10 + i)) 3 2])).any (fun s =>
        s.tasks.map Prod.fst = [⟨.new sampleConfig, sampleInstance⟩] ∧
        (sampleStatements s)[9]?.any updatesSuspense ∧
        ((sampleStatements s).take 9).all (fun x => locksAccount 3 x = false) ∧
        (sampleStatements s).flatMap (balanceLocks false) = [2, 11, 2, 11, 3]) = true := by
    decide +kernel
  obtain ⟨s, hrun, hs⟩ := (Option.any_eq_true ..).1 hsome
  obtain ⟨htasks, hupdate, hunlocked, hlocks⟩ := of_decide_eq_true hs
  obtain ⟨delta, s₁, hid, hsplit⟩ := exists_update hupdate
  refine ⟨s, _, (sampleStatements s).take 9, delta, s₁, _, hrun, htasks, sampleReserve_makes, rfl,
    hsplit, hid, fun x hx => ?_, fun hascending => ?_⟩
  · rw [hid]
    exact of_decide_eq_true (List.all_eq_true.1 hunlocked x hx)
  · have hlt := hascending [2, 11, 2, 11] 3 [] hlocks (by decide) 11 (by decide)
    exact absurd hlt (by decide)

end LedgerCore.Payout
