import LedgerCore.Ledger.Events
import LedgerCore.Payout.Refinement

/-! What each call of a step writes in the tables of the sagas: their rows, the log of attempts and
the alerts in the outbox. -/
namespace LedgerCore.Payout
open LedgerCore.Program LedgerCore.Saga

def statusOf (db : DB) (id : UUID) : Option Status :=
  (db.sagaInstances.find? id).map SagaRow.status

/-- The event asks for a review of the saga. -/
def isAlert (id : UUID) (e : Event) : Bool :=
  e.eventType = eventTypeSagaNeedsManualReview ∧ e.aggregateID = id.string

def alerts (id : UUID) (db : DB) : ℕ := db.outbox.values.countP (isAlert id)

structure SameSagas (db db' : DB) : Prop where
  sagaInstances : db'.sagaInstances = db.sagaInstances
  sagaSteps : db'.sagaSteps = db.sagaSteps
  alerts : ∀ id, alerts id db' = alerts id db

/-- One saga moves, and its row is written as the transition says. -/
structure Moved (now : Time) (t : Transition) (db db' : DB) : Prop where
  source : ∃ r, db.sagaInstances.find? t.sagaID = some r ∧ r.status = t.source
  sagaInstances : db'.sagaInstances = db.sagaInstances.modify t.sagaID (t.apply now)

theorem SameSagas.refl (db : DB) : SameSagas db db := ⟨rfl, rfl, fun _ => rfl⟩

theorem SameSagas.trans {db db' db'' : DB} (h : SameSagas db db') (h' : SameSagas db' db'') :
    SameSagas db db'' :=
  ⟨h'.sagaInstances.trans h.sagaInstances, h'.sagaSteps.trans h.sagaSteps,
    fun id => (h'.alerts id).trans (h.alerts id)⟩

theorem SameSagas.of_eq {db db' : DB} (hi : db'.sagaInstances = db.sagaInstances)
    (hs : db'.sagaSteps = db.sagaSteps) (ho : db'.outbox = db.outbox) : SameSagas db db' :=
  ⟨hi, hs, fun id => by rw [Payout.alerts, Payout.alerts, ho]⟩

theorem alerts_append {id eventID : UUID} {e : Event} {db db' : DB}
    (h : Outbox.append eventID e db = .ok db') :
    alerts id db' = alerts id db + if isAlert id e then 1 else 0 := by
  obtain ⟨outbox, ho, rfl⟩ := Outbox.append_eq_ok h
  rw [alerts, alerts, Table.values, (Table.insert?_eq_some.1 ho).2, List.map_append,
    List.countP_append]
  simp [Table.values, List.countP_cons]

/-- The statements of a ledger transaction that are not about sagas. -/
def LeavesSagas : Ledger.TxCall → Prop
  | .appendEvent _ e => e.eventType ≠ eventTypeSagaNeedsManualReview
  | .commitSagaStep _ => False
  | _ => True

section Ledger
variable {α : Type} {now : Time} {s s' : Ledger.TxState} {d : Ledger.Draws}
  {header : Ledger.Transaction} {db db' : DB} {t : Ledger.Transaction}

theorem exec_sameSagas {c : Ledger.TxCall} {r : Ledger.TxReply c} (hc : LeavesSagas c)
    (h : Ledger.exec now c s = .ok (r, s')) : SameSagas s.db s'.db := by
  cases c with
  | resolveShards ids =>
    cases h
    exact .refl _
  | lockAccounts ids =>
    cases h
    exact .refl _
  | insertAccount a =>
    obtain ⟨db, hdb, h⟩ := map_eq_ok.1 h
    cases h
    obtain ⟨row, accounts, -, -, -, rfl⟩ := Ledger.insertAccountRow_eq_ok (mapError_eq_ok.1 hdb)
    exact .of_eq rfl rfl rfl
  | insertTransaction t =>
    obtain ⟨⟨times, db⟩, hdb, h⟩ := map_eq_ok.1 h
    cases h
    obtain ⟨row, transactions, -, -, -, -, rfl⟩ := Ledger.insertTransaction_eq_ok hdb
    exact .of_eq rfl rfl rfl
  | insertEntries entries =>
    obtain ⟨-, -, -, -, journal, hdb⟩ := Ledger.insertEntries_eq_ok h
    rw [hdb]
    exact .of_eq rfl rfl rfl
  | applyBalanceDelta d =>
    obtain ⟨⟨balance, db⟩, hdb, h⟩ := map_eq_ok.1 h
    cases h
    obtain ⟨row, b, -, -, rfl⟩ := Ledger.applyBalanceDelta_eq_ok hdb
    exact .of_eq rfl rfl rfl
  | applyPendingDelta d =>
    obtain ⟨db, hdb, h⟩ := map_eq_ok.1 h
    cases h
    obtain ⟨row, b, -, -, rfl⟩ := Ledger.applyPendingDelta_eq_ok hdb
    exact .of_eq rfl rfl rfl
  | loadTransactionForUpdate id =>
    obtain ⟨t, -, h⟩ := map_eq_ok.1 h
    cases h
    exact .refl _
  | markReversed id =>
    obtain ⟨db, hdb, h⟩ := map_eq_ok.1 h
    cases h
    obtain ⟨row, -, -, rfl⟩ := Ledger.markReversed_eq_ok hdb
    exact .of_eq rfl rfl rfl
  | appendEvent eventID e =>
    obtain ⟨db, hdb, h⟩ := map_eq_ok.1 h
    cases h
    have halerts : ∀ id, alerts id db = alerts id s.db := fun id => by
      have hno : isAlert id e = false := by simp [isAlert, show e.eventType ≠ _ from hc]
      rw [alerts_append hdb, hno]
      rfl
    obtain ⟨outbox, -, rfl⟩ := Outbox.append_eq_ok hdb
    exact ⟨rfl, rfl, halerts⟩
  | commitSagaStep c => exact hc.elim
  | completeIdempotency c =>
    obtain ⟨db, hdb, h⟩ := map_eq_ok.1 h
    cases h
    obtain ⟨keys, rfl⟩ := Idempotency.complete_tables hdb
    exact .of_eq rfl rfl rfl

theorem run_sameSagas {p : Ledger.TxM α} {a : α} (hp : p.OnlyCalls LeavesSagas)
    (h : p.run (Ledger.exec now) s = .ok (a, s')) : SameSagas s.db s'.db :=
  Prog.run_of_onlyCalls (T := fun s s' : Ledger.TxState => SameSagas s.db s'.db)
    (fun s => .refl s.db) (fun h h' => h.trans h') (fun hc h => exec_sameSagas hc h) hp h

theorem writeTransaction_leavesSagas (requests : List Ledger.EntryRequest) (accounts : Ledger.AccountMap)
    (ids : List UUID) :
    (Ledger.writeTransaction d header requests accounts ids).OnlyCalls LeavesSagas :=
  (Ledger.writeTransaction_stores ..).mono fun c hc => by cases c <;> trivial

theorem appendTransactionEvent_leavesSagas {eventType reason : String} {balances : List EventBalance}
    {reverses : Option UUID} (h : eventType ≠ eventTypeSagaNeedsManualReview) :
    (Ledger.appendTransactionEvent d eventType header balances reverses reason).OnlyCalls
      LeavesSagas := by
  refine .bind (Prog.onlyCalls_ofExcept _) fun _ => .bind (Prog.onlyCalls_perform h) fun _ => ?_
  refine Prog.onlyCalls_forM fun b _ => .bind (Prog.onlyCalls_ofExcept _) fun _ => ?_
  exact Prog.onlyCalls_perform (show "BalanceUpdated" ≠ eventTypeSagaNeedsManualReview by decide)

theorem completeIdempotency_leavesSagas (idem : Option Ledger.Idempotent) :
    (Ledger.completeIdempotency idem header).OnlyCalls LeavesSagas :=
  Ledger.onlyCalls_completeIdempotency (fun _ => trivial) idem header

theorem postTransaction_sagas {txID : UUID} {req : Ledger.TransactionRequest}
    (h : Ledger.postTransaction d txID req db = .ok (t, db')) :
    ∃ s s', SameSagas db s.db ∧ (Ledger.runRecord req.record t).run (Ledger.exec d.now) s =
      .ok ((), s') ∧ SameSagas s'.db db' := by
  obtain ⟨_, -, h⟩ := bind_eq_ok.1 h
  obtain ⟨s, hrun, -, rfl⟩ := Ledger.inTx_eq_ok h
  obtain ⟨requests, s₁, hroute, h⟩ := Prog.run_bind_ok.1 hrun
  obtain ⟨accounts, s₂, hlock, h⟩ := Prog.run_bind_ok.1 h
  obtain ⟨⟨header, balances⟩, s₃, hwrite, h⟩ := Prog.run_bind_ok.1 h
  obtain ⟨_, s₄, hevents, h⟩ := Prog.run_bind_ok.1 h
  obtain ⟨_, s₅, hrecord, h⟩ := Prog.run_bind_ok.1 h
  obtain ⟨_, s₆, hcomplete, h⟩ := Prog.run_bind_ok.1 h
  cases h
  rw [Ledger.record_withKey] at hrecord
  refine ⟨s₄, s₅, ?_, hrecord, run_sameSagas (completeIdempotency_leavesSagas _) hcomplete⟩
  exact (run_sameSagas (Ledger.onlyCalls_routeToShards trivial) hroute).trans <|
    (run_sameSagas (Ledger.onlyCalls_lockAndValidate trivial) hlock).trans <|
      (run_sameSagas (writeTransaction_leavesSagas ..) hwrite).trans <|
        run_sameSagas (appendTransactionEvent_leavesSagas (by decide)) hevents

theorem doReverse_sagas {reversalID txID : UUID} {reason : String} {idem : Option Ledger.Idempotent}
    {record : Option Ledger.Recorder}
    (h : Ledger.doReverse d reversalID txID reason idem record db = .ok (t, db')) :
    ∃ s s', SameSagas db s.db ∧ (Ledger.runRecord record t).run (Ledger.exec d.now) s =
      .ok ((), s') ∧ SameSagas s'.db db' := by
  unfold Ledger.doReverse at h
  split_ifs at h
  obtain ⟨s, hrun, -, rfl⟩ := Ledger.inTx_eq_ok h
  obtain ⟨original, s₁, hload, h⟩ := Prog.run_perform_bind_ok.1 hrun
  obtain ⟨_, -, h⟩ := Prog.run_ofExcept_bind_ok.1 h
  obtain ⟨accounts, s₂, hlock, h⟩ := Prog.run_bind_ok.1 h
  obtain ⟨⟨header, balances⟩, s₃, hwrite, h⟩ := Prog.run_bind_ok.1 h
  obtain ⟨_, s₄, hmark, h⟩ := Prog.run_perform_bind_ok.1 h
  obtain ⟨_, s₅, hevents, h⟩ := Prog.run_bind_ok.1 h
  obtain ⟨_, s₆, hrecord, h⟩ := Prog.run_bind_ok.1 h
  obtain ⟨_, s₇, hcomplete, h⟩ := Prog.run_bind_ok.1 h
  cases h
  refine ⟨s₅, s₆, ?_, hrecord, run_sameSagas (completeIdempotency_leavesSagas _) hcomplete⟩
  exact (exec_sameSagas (c := .loadTransactionForUpdate _) trivial hload).trans <|
    (run_sameSagas (Ledger.onlyCalls_lockAndValidate trivial) hlock).trans <|
      (run_sameSagas (writeTransaction_leavesSagas ..) hwrite).trans <|
        (exec_sameSagas (c := .markReversed _) trivial hmark).trans <|
          run_sameSagas (appendTransactionEvent_leavesSagas (by decide)) hevents

end Ledger

/-- What each of the three steps that move money commits, in the status it is made for. -/
def Commits (worker : Worker) (c : Commit) : Prop := ∃ attemptID number txID,
  (worker.inst.status = .pending ∧
    c = { reserveCommit attemptID number with transactionID := some txID }) ∨
  (worker.inst.status = .gatewaySucceeded ∧
    c = { settleCommit attemptID number with transactionID := some txID }) ∨
  (worker.inst.status = .compensating ∧
    c = { compensateCommit attemptID number with transactionID := some txID })

/-- The attempt is logged, and the saga moves with it. -/
structure Stepped (now : Time) (a : Attempt) (t : Transition) (db db' : DB) : Prop where
  moved : Moved now t db db'
  logged : db.sagaSteps.insert? a.id (a.toRow now) = some db'.sagaSteps
  alerts : ∀ id, alerts id db' = alerts id db

def startedRow (a : StartAttempt) (now : Time) : StepRow where
  sagaID := a.sagaID
  step := a.step
  attempt := a.number
  direction := a.direction
  status := .attempted
  transactionID := none
  gatewayKey := nullIfEmpty a.gatewayKey
  error := none
  startedAt := now
  finishedAt := none

/-- What a call of a worker that was answered with `r` wrote. -/
def Wrote (worker : Worker) (now : Time) (db db' : DB) : (c : Call) → Reply c → Prop
  | .advance t, .ok _ => Moved now t db db' ∧ db'.sagaSteps = db.sagaSteps ∧
      ∀ id, alerts id db' = alerts id db
  | .beginStep a t, .ok _ => Moved now t db db' ∧
      db.sagaSteps.insert? a.id (startedRow a now) = some db'.sagaSteps ∧
      ∀ id, alerts id db' = alerts id db
  | .escalate _ t alert, .ok _ => Moved now t db db' ∧ db'.sagaSteps = db.sagaSteps ∧
      ∀ id, alerts id db' = alerts id db + if isAlert id alert then 1 else 0
  | .recordAttempt a, .ok _ => db'.sagaInstances = db.sagaInstances ∧
      db.sagaSteps.insert? a.id (a.toRow now) = some db'.sagaSteps ∧
      ∀ id, alerts id db' = alerts id db
  | .finishAttempt f, _ => db' = finishAttempt now f db
  | .postTransaction _, .ok _ => ∃ c, Commits worker c ∧
      Stepped now (c.attempt worker.inst) (c.transition worker.o worker.inst) db db'
  | .reverseTransactionRecorded _ _ _, .ok _ => ∃ c, Commits worker c ∧
      Stepped now (c.attempt worker.inst) (c.transition worker.o worker.inst) db db'
  | _, _ => SameSagas db db'

section Wrote
variable {now : Time} {db db₁ db₂ db' : DB} {w w' : World} {worker : Worker} {ch : Choice}

theorem stepped_of_commitStep {a : Attempt} {t : Transition} (h : SameSagas db db₁)
    (hstep : Saga.commitStep now ⟨a, t⟩ db₁ = .ok db₂) (h' : SameSagas db₂ db') :
    Stepped now a t db db' := by
  obtain ⟨sagaSteps, r, hlogged, hr, hsource, rfl⟩ := commitStep_eq_ok hstep
  refine ⟨⟨⟨r, h.sagaInstances ▸ hr, hsource⟩, ?_⟩, ?_, fun id => ?_⟩
  · rw [h'.sagaInstances, ← h.sagaInstances]
  · rw [h'.sagaSteps, ← h.sagaSteps]
    exact hlogged
  · exact (h'.alerts id).trans (h.alerts id)

theorem recordStep_stepped {o : Orchestrator} {inst : Instance} {p : Payload} {delta : Int64}
    {ev : Stamp} {c : Commit} {posted : Ledger.Transaction} {s s' : Ledger.TxState}
    (h : (recordStep o inst p delta ev c posted).run (Ledger.exec now) s = .ok ((), s')) :
    Stepped now (Commit.attempt inst { c with transactionID := some posted.id })
      (Commit.transition o inst { c with transactionID := some posted.id }) s.db s'.db := by
  obtain ⟨_, s₁, hpending, h⟩ := Prog.run_perform_bind_ok.1 h
  obtain ⟨_, s₂, hcall, h⟩ := Prog.run_perform_bind_ok.1 h
  obtain ⟨db₂, hcommit, he⟩ := map_eq_ok.1 hcall
  cases he
  rw [Ledger.Tx.appendEvent, Prog.run_perform] at h
  have hevent : LeavesSagas (.appendEvent ev.eventID
      (Commit.event inst ev { c with transactionID := some posted.id })) :=
    show eventTypeSagaStepCompleted ≠ eventTypeSagaNeedsManualReview by decide
  exact stepped_of_commitStep (exec_sameSagas (c := .applyPendingDelta _) trivial hpending) hcommit
    (exec_sameSagas hevent h)

theorem Stepped.of_same {a : Attempt} {t : Transition} (h : SameSagas db db₁)
    (hstep : Stepped now a t db₁ db₂) (h' : SameSagas db₂ db') : Stepped now a t db db' := by
  refine ⟨⟨h.sagaInstances ▸ hstep.moved.source, ?_⟩, ?_, fun id => ?_⟩
  · rw [h'.sagaInstances, hstep.moved.sagaInstances, h.sagaInstances]
  · rw [h'.sagaSteps, ← h.sagaSteps]
    exact hstep.logged
  · exact ((h'.alerts id).trans (hstep.alerts id)).trans (h.alerts id)

theorem advance_moved {t : Transition} (h : Saga.advance now t db = .ok db') :
    Moved now t db db' ∧ db'.sagaSteps = db.sagaSteps ∧ db'.outbox = db.outbox := by
  obtain ⟨r, hr, hs, rfl⟩ := advance_eq_ok.1 h
  exact ⟨⟨⟨r, hr, hs⟩, rfl⟩, rfl, rfl⟩

theorem write_eq {x : Except Error DB} {r : Except Error Unit}
    (h : w.write (x.map fun db => ((), db)) = (r, w')) :
    (∃ e, r = .error e ∧ w' = w) ∨ ∃ db, x = .ok db ∧ r = .ok () ∧ w' = { w with db } := by
  cases x with
  | error e =>
    cases h
    exact .inl ⟨e, rfl, rfl⟩
  | ok db =>
    cases h
    exact .inr ⟨db, rfl, rfl, rfl⟩

/-- A call that changed the world wrote what it says, and an error wrote nothing. -/
theorem call_wrote {refund : Prop} {c : Call} {r : Reply c}
    (hasks : Asks refund worker w.view c) (h : World.call worker.inst.id ch c w = some (r, w')) :
    Wrote worker ch.draws.now w.db w'.db c r := by
  cases c with
  | advance t =>
    obtain ⟨e, rfl, rfl⟩ | ⟨db, hdb, rfl, rfl⟩ := write_eq (Option.some.inj h)
    · exact .refl _
    · obtain ⟨hmoved, hsteps, houtbox⟩ := advance_moved hdb
      exact ⟨hmoved, hsteps, fun id => by rw [alerts, alerts, houtbox]⟩
  | beginStep a t =>
    obtain ⟨e, rfl, rfl⟩ | ⟨db, hdb, rfl, rfl⟩ := write_eq (Option.some.inj h)
    · exact .refl _
    · obtain ⟨db₁, hins, hadvance⟩ := bind_eq_ok.1 hdb
      obtain ⟨sagaSteps, hi, rfl⟩ := insertStep_eq_ok (mapError_eq_ok.1 hins)
      obtain ⟨hmoved, hsteps, houtbox⟩ := advance_moved hadvance
      exact ⟨⟨hmoved.source, hmoved.sagaInstances⟩, hsteps ▸ hi,
        fun id => by rw [alerts, alerts, houtbox]⟩
  | escalate eventID t alert =>
    obtain ⟨e, rfl, rfl⟩ | ⟨db, hdb, rfl, rfl⟩ := write_eq (Option.some.inj h)
    · exact .refl _
    · obtain ⟨db₁, hadvance, happend⟩ := bind_eq_ok.1 hdb
      obtain ⟨hmoved, hsteps, houtbox⟩ := advance_moved hadvance
      have halerts : ∀ id, alerts id db = alerts id w.db + if isAlert id alert then 1 else 0 :=
        fun id => by rw [alerts_append (mapError_eq_ok.1 happend), alerts, alerts, houtbox]
      obtain ⟨outbox, -, rfl⟩ := Outbox.append_eq_ok (mapError_eq_ok.1 happend)
      exact ⟨⟨hmoved.source, hmoved.sagaInstances⟩, hsteps, halerts⟩
  | recordAttempt a =>
    obtain ⟨e, rfl, rfl⟩ | ⟨db, hdb, rfl, rfl⟩ := write_eq (Option.some.inj h)
    · exact .refl _
    · obtain ⟨sagaSteps, hi, rfl⟩ := insertStep_eq_ok (mapError_eq_ok.1 hdb)
      exact ⟨rfl, hi, fun id => rfl⟩
  | finishAttempt f =>
    cases h
    rfl
  | postTransaction req =>
    obtain ⟨rfl, e, rfl, -⟩ | ⟨t, db', hpost, rfl, rfl⟩ := ledger_cases (Option.some.inj h)
    · exact .refl _
    · obtain ⟨-, attemptID, number, ev, ⟨hstatus, rfl⟩ | ⟨hstatus, rfl⟩⟩ := hasks
      · obtain ⟨s, s', hbefore, hrecord, hafter⟩ := postTransaction_sagas hpost
        exact ⟨_, ⟨attemptID, number, t.id, .inl ⟨hstatus, rfl⟩⟩,
          (recordStep_stepped hrecord).of_same hbefore hafter⟩
      · obtain ⟨s, s', hbefore, hrecord, hafter⟩ := postTransaction_sagas hpost
        exact ⟨_, ⟨attemptID, number, t.id, .inr (.inl ⟨hstatus, rfl⟩)⟩,
          (recordStep_stepped hrecord).of_same hbefore hafter⟩
  | reverseTransactionRecorded txID reason record =>
    obtain ⟨rfl, e, rfl, -⟩ | ⟨t, db', hpost, rfl, rfl⟩ := ledger_cases (Option.some.inj h)
    · exact .refl _
    · obtain ⟨-, hstatus, -, attemptID, number, ev, rfl⟩ := hasks
      obtain ⟨s, s', hbefore, hrecord, hafter⟩ := doReverse_sagas hpost
      exact ⟨_, ⟨attemptID, number, t.id, .inr (.inr ⟨hstatus, rfl⟩)⟩,
        (recordStep_stepped hrecord).of_same hbefore hafter⟩
  | payAwait key request =>
    simp only [World.call] at h
    split at h
    · cases h
      exact .refl _
    · cases h
  | _ =>
    cases h
    exact .refl _

end Wrote

def leasedRow (o : Orchestrator) (now : Time) (r : SagaRow) : SagaRow :=
  { r with leaseOwner := some o.cfg.workerID, leaseExpiresAt := some (now + o.cfg.lease) }

/-- A batch is leased: sagas that have not ended and that nobody has a lease on. -/
structure Claimed (o : Orchestrator) (now : Time) (claimed : List Instance) (db db' : DB) : Prop where
  rows : ∀ id, db'.sagaInstances.find? id = (db.sagaInstances.find? id).map fun r =>
    if id ∈ claimed.map Instance.id then leasedRow o now r else r
  sagaSteps : db'.sagaSteps = db.sagaSteps
  alerts : ∀ id, alerts id db' = alerts id db
  free : ∀ inst ∈ claimed, ∃ r, db.sagaInstances.find? inst.id = some r ∧
    r.status.terminal = false ∧ leaseFree now r = true ∧ inst = toInstance inst.id (leasedRow o now r)
  nodup : (claimed.map Instance.id).Nodup

section Outside
variable {now : Time} {db db' : DB}

theorem outside_sameSagas {op : Ledger.LedgerOp} (hop : hookless op) :
    SameSagas db (op.apply db) := by
  unfold Ledger.LedgerOp.apply
  split
  · next db' h =>
    cases op with
    | createAccount d id req =>
      obtain ⟨⟨a, db₁⟩, hrun, rfl⟩ := map_eq_ok.1 h
      obtain ⟨_, -, h⟩ := bind_eq_ok.1 hrun
      obtain ⟨s, htx, -, rfl⟩ := Ledger.inTx_eq_ok h
      have hevent : "AccountCreated" ≠ eventTypeSagaNeedsManualReview := by decide
      have hcalls : (Ledger.createAccountTx d id req).OnlyCalls LeavesSagas :=
        .bind (Prog.onlyCalls_perform trivial) fun _ => .bind (Prog.onlyCalls_perform hevent)
          fun _ => trivial
      exact run_sameSagas hcalls htx
    | shardAccount now shardID accountID shards =>
      have hopened := Ledger.ledgerShardAccount_opened (mapError_eq_ok.1 h)
      exact .of_eq hopened.sagaInstances hopened.sagaSteps
        (Ledger.ledgerShardAccount_outbox (mapError_eq_ok.1 h))
    | postTransaction d txID req hooks =>
      obtain ⟨⟨t, db₁⟩, hrun, rfl⟩ := map_eq_ok.1 h
      obtain ⟨s, s', hbefore, hrecord, hafter⟩ := postTransaction_sagas hrun
      rw [Option.isNone_iff_eq_none.1 hop] at hrecord
      cases hrecord
      exact hbefore.trans hafter
    | reverseTransaction d reversalID txID reason idem record hooks =>
      obtain ⟨⟨t, db₁⟩, hrun, rfl⟩ := map_eq_ok.1 h
      obtain ⟨s, s', hbefore, hrecord, hafter⟩ := doReverse_sagas hrun
      rw [Option.isNone_iff_eq_none.1 hop] at hrecord
      cases hrecord
      exact hbefore.trans hafter
  · exact .refl db

/-- A start that is new adds a row, and any other changes nothing. -/
theorem start_cases {o : Orchestrator} {untilDeadline : Time} {id : NewUUID} {p : Payload}
    {principalID : String} {key : Option String} {inst : Instance}
    (h : start o now untilDeadline id p principalID key db = .ok (inst, db')) :
    db' = db ∨ ∃ row sagaInstances, db.sagaInstances.insert? id.1 row = some sagaInstances ∧
      row.status = .pending ∧ row.leaseExpiresAt = none ∧ db' = { db with sagaInstances } := by
  obtain ⟨_, -, h⟩ := bind_eq_ok.1 h
  unfold Saga.create at h
  split at h
  · cases h
    exact .inl rfl
  · dsimp only at h
    split at h
    · cases h
    · next sagaInstances hi =>
      cases h
      exact .inr ⟨_, sagaInstances, hi, rfl, rfl, rfl⟩

theorem claimed_of_ids {o : Orchestrator} {ids : List UUID}
    (hids : ∀ id ∈ ids, ∃ r, db.sagaInstances.find? id = some r ∧ r.status.terminal = false ∧
      leaseFree now r = true) :
    let leased := db.sagaInstances.map fun id r => if id ∈ ids then leasedRow o now r else r
    Claimed o now ((leased.rows.filter fun r => r.1 ∈ ids).map fun r => toInstance r.1 r.2) db
      { db with sagaInstances := leased } := by
  intro leased
  have hfind : ∀ id, leased.find? id = (db.sagaInstances.find? id).map fun r =>
      if id ∈ ids then leasedRow o now r else r := Table.find?_map _
  have hmap : ((leased.rows.filter fun r => r.1 ∈ ids).map fun r => toInstance r.1 r.2).map
      Instance.id = (leased.rows.filter fun r => r.1 ∈ ids).map Prod.fst := by
    rw [List.map_map]
    rfl
  have hmem : ∀ id r, leased.find? id = some r →
      (id ∈ (leased.rows.filter fun r => r.1 ∈ ids).map Prod.fst ↔ id ∈ ids) := by
    intro id r hr
    rw [List.mem_map]
    constructor
    · rintro ⟨x, hx, rfl⟩
      exact of_decide_eq_true (List.mem_filter.1 hx).2
    · exact fun hid => ⟨(id, r), List.mem_filter.2 ⟨Table.find?_eq_some.1 hr, decide_eq_true hid⟩, rfl⟩
  refine ⟨fun id => ?_, rfl, fun _ => rfl, fun inst hinst => ?_, ?_⟩
  · refine (hfind id).trans ?_
    cases hr : db.sagaInstances.find? id with
    | none => rfl
    | some r =>
      rw [hmap, Option.map_some, Option.map_some]
      have hleased := hfind id
      rw [hr, Option.map_some] at hleased
      simp only [hmem id _ hleased]
  · obtain ⟨⟨id, row⟩, hrow, rfl⟩ := List.mem_map.1 hinst
    obtain ⟨hrow, hid⟩ := List.mem_filter.1 hrow
    obtain ⟨r, hr, hopen, hfree⟩ := hids id (of_decide_eq_true hid)
    refine ⟨r, hr, hopen, hfree, ?_⟩
    have hfound := (hfind id).symm.trans (Table.find?_eq_some.2 hrow)
    rw [hr, Option.map_some, if_pos (of_decide_eq_true hid)] at hfound
    exact congrArg (toInstance id) (Option.some.inj hfound).symm
  · rw [hmap]
    exact leased.nodup.sublist (List.filter_sublist.map _)

theorem claim_rows {eligible : SagaRow → Bool} {order : SagaRow → Time} {o : Orchestrator}
    {locked : UUID → Bool} (heligible : ∀ r, eligible r = true → r.status.terminal = false) :
    Claimed o now
      (claim eligible order now o.cfg.sagaType o.cfg.workerID o.cfg.lease o.cfg.claimBatch locked db).1
      db
      (claim eligible order now o.cfg.sagaType o.cfg.workerID o.cfg.lease o.cfg.claimBatch locked
        db).2 := by
  refine claimed_of_ids fun id hid => ?_
  obtain ⟨⟨_, r⟩, hr, rfl⟩ := List.mem_map.1 hid
  obtain ⟨hmem, htest⟩ := List.mem_filter.1 ((List.mem_insertionSort _).1 (List.mem_of_mem_take hr))
  simp only [Bool.and_eq_true] at htest
  exact ⟨r, Table.find?_eq_some.2 hmem, heligible r htest.1.1.2, htest.1.2⟩

theorem claim_claimed (expired : Bool) (o : Orchestrator) (now : Time) (locked : UUID → Bool)
    (s : Sys) :
    ∃ claimed db, s.claim expired o now locked =
        Pool.spawn (claimed.map fun inst => (⟨o, inst⟩, driveOne o inst))
          { s with world := { s.world with db } } ∧
      Claimed o now claimed s.world.db db := by
  obtain ⟨eligible, order, hquery, heligible⟩ : ∃ eligible order,
      (if expired then claimExpired now else claimRunnable now) = claim eligible order now ∧
        ∀ r, eligible r = true → r.status.terminal = false := by
    cases expired with
    | false =>
      refine ⟨_, _, if_neg nofun, fun r hr => ?_⟩
      revert hr
      cases r.status <;> simp [runnable, Status.terminal]
    | true => exact ⟨_, _, if_pos rfl, fun r hr => by simpa using (Bool.and_eq_true_iff.1 hr).1⟩
  unfold Sys.claim
  rw [hquery]
  exact ⟨_, _, rfl, claim_rows heligible⟩

end Outside

end LedgerCore.Payout
