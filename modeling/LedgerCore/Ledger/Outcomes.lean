import LedgerCore.Ledger.History

/-! Ledger transactions split where they complete their key: what comes before neither reads nor
writes the table of keys. -/
namespace LedgerCore.Ledger
open LedgerCore.Program

/-- The calls of a posting or a reversal before it completes its key. -/
def WorkCall : TxCall → Prop
  | .insertAccount _ => False
  | .applyPendingDelta _ => False
  | .commitSagaStep _ => False
  | .completeIdempotency _ => False
  | _ => True

def TxState.withKeys (keys : Table (String × String) RecordRow) (s : TxState) : TxState :=
  { s with db := { s.db with idempotencyKeys := keys } }

theorem exec_withKeys (now : Time) (keys : Table (String × String) RecordRow) (c : TxCall) (s : TxState) (hc : WorkCall c) :
    exec now c (s.withKeys keys) = (exec now c s).map fun x => (x.1, x.2.withKeys keys) := by
  cases c with
  | resolveShards ids => rfl
  | lockAccounts ids => rfl
  | insertAccount a => cases hc
  | insertTransaction t =>
    simp only [exec, insertTransaction, mapped, map_mapError, map_bind_eq]
    rfl
  | insertEntries entries =>
    cases entries with
    | nil => rfl
    | cons e entries =>
      simp only [exec, insertEntries, mapped, map_mapError, map_bind_eq]
      rfl
  | applyBalanceDelta d =>
    have hsame : (s.withKeys keys).db.accounts = s.db.accounts := rfl
    simp only [exec, applyBalanceDelta, hsame]
    cases (s.db.accounts.find? d.accountID).filter fun r => r.balance.version = d.expectedVersion with
    | none => rfl
    | some r =>
      simp only [map_bind_eq]
      rfl
  | applyPendingDelta d => cases hc
  | loadTransactionForUpdate id =>
    change (loadTransactionForUpdate id s.db).map _ =
      ((loadTransactionForUpdate id s.db).map fun t => (t, s)).map _
    cases loadTransactionForUpdate id s.db <;> rfl
  | markReversed id =>
    simp only [exec, markReversed, TxState.written]
    change Except.map _ (if (s.db.transactions.find? id).map (fun r => r.status) = some .posted then _ else _) = _
    split_ifs <;> rfl
  | appendEvent id e =>
    simp only [exec, Outbox.append, TxState.written]
    split_ifs
    · rfl
    · rfl
    · rfl
    · have hsame : (s.withKeys keys).db.outbox = s.db.outbox := rfl
      simp only [hsame]
      cases s.db.outbox.insert? id e <;> rfl
  | commitSagaStep c => cases hc
  | completeIdempotency c => cases hc

/-- `postTx`, up to its key. -/
def postWork (d : Draws) (txID : UUID) (req : TransactionRequest) : TxM Transaction := do
  let requests ← routeToShards d req.entries
  let accountIDs := sortedAccountIDs requests
  let accounts ← lockAndValidate accountIDs requests
  let (header, balances) ← writeTransaction d (postHeader txID req) requests accounts accountIDs
  appendTransactionEvent d "TransactionPosted" header balances none ""
  pure header

def reverseWork (d : Draws) (reversalID txID : UUID) (reason : String) (idem : Option Idempotent) :
    TxM Transaction := do
  let original ← Tx.loadTransactionForUpdate txID
  .ofExcept (checkReversible txID original)
  let requests := mirrored original.entries
  let accountIDs := sortedAccountIDs requests
  let accounts ← lockAndValidate accountIDs requests
  let (header, balances) ← writeTransaction d (reversalHeader reversalID txID reason idem)
    requests accounts accountIDs
  Tx.markReversed txID
  appendTransactionEvent d "TransactionReversed" header balances (some txID) reason
  pure header

/-- What the work comes to: an error, or a transaction that has its key yet to complete. -/
abbrev Outcome := Except Error (Transaction × TxState)

/-- The end of a ledger transaction: its key, as the table of keys has it now, and the commit. -/
def finish (now : Time) (idem : Option Idempotent) (outcome : Outcome) (db : DB) :
    Except Error (Transaction × DB) := do
  let (t, s) ← outcome
  let (_, s) ← (completeIdempotency idem t).run (exec now) (s.withKeys db.idempotencyKeys)
  let db ← commit s
  pure (t, db)

theorem writeTransaction_workCalls (d : Draws) (header : Transaction) (requests : List EntryRequest)
    (accounts : AccountMap) (ids : List UUID) :
    (writeTransaction d header requests accounts ids).OnlyCalls WorkCall :=
  (writeTransaction_stores ..).mono fun c hc => by cases c <;> trivial

theorem appendTransactionEvent_workCalls (d : Draws) (eventType : String) (header : Transaction)
    (balances : List EventBalance) (reverses : Option UUID) (reason : String) :
    (appendTransactionEvent d eventType header balances reverses reason).OnlyCalls WorkCall :=
  (appendTransactionEvent_events ..).mono fun c hc => by cases c <;> trivial

theorem postWork_workCalls (d : Draws) (txID : UUID) (req : TransactionRequest) :
    (postWork d txID req).OnlyCalls WorkCall :=
  (onlyCalls_routeToShards trivial).bind fun _ => (onlyCalls_lockAndValidate trivial).bind
    fun _ => (writeTransaction_workCalls ..).bind fun _ => (appendTransactionEvent_workCalls ..).bind
    fun _ => Prog.onlyCalls_pure _

theorem reverseWork_workCalls (d : Draws) (reversalID txID : UUID) (reason : String)
    (idem : Option Idempotent) : (reverseWork d reversalID txID reason idem).OnlyCalls WorkCall :=
  (Prog.onlyCalls_perform trivial).bind fun _ => (Prog.onlyCalls_ofExcept _).bind fun _ =>
    (onlyCalls_lockAndValidate trivial).bind fun _ => (writeTransaction_workCalls ..).bind fun _ =>
    (Prog.onlyCalls_perform trivial).bind fun _ => (appendTransactionEvent_workCalls ..).bind
    fun _ => Prog.onlyCalls_pure _

theorem postTx_eq_work (d : Draws) (txID : UUID) {req : TransactionRequest}
    (hrecord : req.record = none) :
    postTx d txID req = postWork d txID req >>= fun t =>
      completeIdempotency req.idempotency t >>= fun _ => pure t := by
  simp only [postTx, postWork, hrecord, Prog.bind_assoc]
  rfl

theorem reverseTx_eq_work (d : Draws) (reversalID txID : UUID) (reason : String)
    (idem : Option Idempotent) :
    reverseTx d reversalID txID reason idem none = reverseWork d reversalID txID reason idem >>=
      fun t => completeIdempotency idem t >>= fun _ => pure t := by
  simp only [reverseTx, reverseWork, Prog.bind_assoc]
  rfl

/-- A ledger transaction reads and writes the keys only when it completes its own. -/
theorem inTx_eq_finish {now : Time} {work : TxM Transaction} {idem : Option Idempotent}
    (hwork : work.OnlyCalls WorkCall) (db : DB) (keys : Table (String × String) RecordRow) :
    inTx now (work >>= fun t => completeIdempotency idem t >>= fun _ => pure t)
        { db with idempotencyKeys := keys } =
      finish now idem (work.run (exec now) ⟨db, []⟩) { db with idempotencyKeys := keys } := by
  have hrun := hwork.run_map (exec_withKeys now keys) ⟨db, []⟩
  change work.run (exec now) ⟨{ db with idempotencyKeys := keys }, []⟩ = _ at hrun
  unfold inTx finish
  rw [Prog.run_bind, hrun]
  rcases work.run (exec now) ⟨db, []⟩ with e | ⟨t, s⟩
  · rfl
  · change ((completeIdempotency idem t >>= fun _ => pure t).run (exec now) (s.withKeys keys)) >>= _ =
      (completeIdempotency idem t).run (exec now) (s.withKeys keys) >>= _
    rw [Prog.run_bind]
    cases (completeIdempotency idem t).run (exec now) (s.withKeys keys) <;> rfl

def postOutcome (d : Draws) (txID : UUID) (req : TransactionRequest) (db : DB) : Outcome := do
  req.validate
  (postWork d txID req.withKey).run (exec d.now) ⟨db, []⟩

def reverseOutcome (d : Draws) (reversalID txID : UUID) (reason : String)
    (idem : Option Idempotent) (db : DB) : Outcome :=
  if reason = "" then .error (.ofSentinel .reversalReasonRequired)
  else (reverseWork d reversalID txID reason idem).run (exec d.now) ⟨db, []⟩

theorem postTransaction_eq_finish {d : Draws} {txID : UUID} {req : TransactionRequest}
    (hrecord : req.record = none) (db : DB) (keys : Table (String × String) RecordRow) :
    postTransaction d txID req { db with idempotencyKeys := keys } =
      finish d.now req.idempotency (postOutcome d txID req db) { db with idempotencyKeys := keys } := by
  have hrecord' : req.withKey.record = none := record_withKey.trans hrecord
  have hidem : req.withKey.idempotency = req.idempotency := idempotency_withKey
  unfold postTransaction postOutcome
  cases req.validate with
  | error e => rfl
  | ok u =>
    change inTx d.now (postTx d txID req.withKey) _ = finish d.now _ (Prog.run _ _ _) _
    rw [postTx_eq_work d txID hrecord', hidem]
    exact inTx_eq_finish (postWork_workCalls d txID req.withKey) db keys

theorem doReverse_eq_finish (d : Draws) (reversalID txID : UUID) (reason : String)
    (idem : Option Idempotent) (db : DB) (keys : Table (String × String) RecordRow) :
    doReverse d reversalID txID reason idem none { db with idempotencyKeys := keys } =
      finish d.now idem (reverseOutcome d reversalID txID reason idem db)
        { db with idempotencyKeys := keys } := by
  unfold doReverse reverseOutcome
  split_ifs
  · rfl
  · rw [reverseTx_eq_work]
    exact inTx_eq_finish (reverseWork_workCalls ..) db keys

theorem commit_withKeys (keys : Table (String × String) RecordRow) (s : TxState) :
    commit (s.withKeys keys) = (commit s).map fun db => { db with idempotencyKeys := keys } := by
  change ((s.deferred.forM (assertTransactionBalanced s.db)).mapError _).map _ =
    (((s.deferred.forM (assertTransactionBalanced s.db)).mapError _).map _).map _
  cases s.deferred.forM (assertTransactionBalanced s.db) <;> rfl

theorem finish_eq {now : Time} {i : Idempotent} {t : Transaction} {s : TxState}
    {render : Transaction → Except Error (ℕ × Bytes)} {status : ℕ} {body : Bytes}
    (hrender : i.render = some render) (hbody : render t = .ok (status, body)) (db : DB) :
    finish now (some i) (.ok (t, s)) db = (do
      let db ← Idempotency.complete ⟨i.principalID, i.key, status, body, t.id⟩
        { s.db with idempotencyKeys := db.idempotencyKeys }
      let db ← commit ⟨db, s.deferred⟩
      pure (t, db)) := by
  have hrun : (completeIdempotency (some i) t).run (exec now) (s.withKeys db.idempotencyKeys) =
      (s.withKeys db.idempotencyKeys).written (Idempotency.complete
        ⟨i.principalID, i.key, status, body, t.id⟩
        { s.db with idempotencyKeys := db.idempotencyKeys }) := by
    simp only [completeIdempotency, hrender, hbody, Prog.run_bind]
    exact Prog.run_perform _
  change (completeIdempotency (some i) t).run _ _ >>= _ = _
  rw [hrun]
  cases Idempotency.complete ⟨i.principalID, i.key, status, body, t.id⟩
    { s.db with idempotencyKeys := db.idempotencyKeys } <;> rfl

end LedgerCore.Ledger
