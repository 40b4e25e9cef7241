import LedgerCore.Payout.Views

/-! What calls do, of the ledger's users and of the workers, as moves of the machine. -/
namespace LedgerCore.Payout
open LedgerCore.Program LedgerCore.Saga Function
variable {t : Ledger.Transaction} {w w' : World}

variable {R : Rules} {db db' : DB} {l : List Posting}

theorem opened_view (h : Ledger.Opened db db') :
    view db' l = { view db l with parent := (view db' l).parent } := by
  have hpending : pendingOf db' = pendingOf db := funext fun id => by
    cases hr : db.accounts.find? id with
    | some r =>
      obtain ⟨r', hr', hk⟩ := h.kept id r hr
      simp [pendingOf, hr, hr', hk.balance]
    | none =>
      cases hr' : db'.accounts.find? id with
      | none => simp [pendingOf, hr, hr']
      | some r' =>
        obtain ⟨a, now, hb⟩ := h.new id r' hr' hr
        simp [pendingOf, hr, hr', hb, BalanceRow.created, Ledger.toInt_zero]
  simp only [view, Ledger.transactionEntries, Ledger.journalEntries, h.transactions, h.journal,
    h.sagaInstances, h.sagaSteps, hpending]

theorem opened_move (h : Ledger.Opened db db') : Move R (view db l) (view db' l) := by
  rw [opened_view h]
  refine .quiet fun id q hq => ?_
  obtain ⟨r, hr, hp⟩ := Option.bind_eq_some_iff.1 hq
  obtain ⟨r', hr', hk⟩ := h.kept id r hr
  simp [view, hr', hk.parentAccountID, hp]

theorem completeIdempotency_view {idem : Option Ledger.Idempotent} {now : Time}
    {s s' : Ledger.TxState}
    (h : (Ledger.completeIdempotency idem t).run (Ledger.exec now) s = .ok ((), s')) :
    view s'.db l = view s.db l := by
  unfold Ledger.completeIdempotency at h
  split at h
  · cases h
    rfl
  · split at h
    · cases h
    · obtain ⟨⟨status, body⟩, -, h⟩ := Prog.run_ofExcept_bind_ok.1 h
      obtain ⟨db₁, hdb, he⟩ := map_eq_ok.1
        ((Prog.run_perform (Ledger.TxCall.completeIdempotency _)).symm.trans h)
      cases he
      obtain ⟨keys, rfl⟩ := Idempotency.complete_tables hdb
      rfl

theorem outsidePost_view {d : Ledger.Draws} {txID : UUID} {req : Ledger.TransactionRequest}
    (hinv : (view db l).Inv) (hook : req.record = none)
    (h : Ledger.postTransaction d txID req db = .ok (t, db')) :
    (view db l).header t.id = none ∧ view db' l = (view db l).record t := by
  obtain ⟨_, -, h⟩ := bind_eq_ok.1 h
  obtain ⟨s, hrun, -, rfl⟩ := Ledger.inTx_eq_ok h
  obtain ⟨requests, s₁, outbox, s₂, -, rfl, hwritten, hrecord, hcomplete⟩ := Ledger.postTx_eq_ok hrun
  rw [Ledger.record_withKey, hook] at hrecord
  cases hrecord
  obtain ⟨hfresh, hview⟩ := written_view (l := l) hwritten rfl hinv.entries
  exact ⟨hfresh, (completeIdempotency_view hcomplete).trans hview⟩

theorem outsideReverse_view {d : Ledger.Draws} {reversalID txID : UUID} {reason : String}
    {idem : Option Ledger.Idempotent} (hinv : (view db l).Inv)
    (h : Ledger.doReverse d reversalID txID reason idem none db = .ok (t, db')) :
    (view db l).header t.id = none ∧ (view db l).header txID = some .posted ∧
      view db' l = ((view db l).reverse txID).record t := by
  unfold Ledger.doReverse at h
  split_ifs at h
  obtain ⟨s, hrun, -, rfl⟩ := Ledger.inTx_eq_ok h
  obtain ⟨original, s₁, outbox, s₂, r, hload, hposted, -, rfl, hwritten, hr, hs, hrecord,
    hcomplete⟩ := Ledger.reverseTx_eq_ok hrun
  cases hrecord
  obtain ⟨hfresh, hview⟩ := written_view (l := l) hwritten rfl hinv.entries
  obtain ⟨r₀, hr₀, -, hstatus, -⟩ := Ledger.loadTransactionForUpdate_eq_ok hload
  have hheader : (view db l).header txID = some .posted := by
    simp [view, hr₀, ← hstatus, hposted]
  have hne : txID ≠ reversalID := by
    rintro rfl
    cases hfresh.symm.trans hheader
  refine ⟨hfresh, hheader, (completeIdempotency_view hcomplete).trans ?_⟩
  exact reversed_view hview hr hs hne outbox

def reversalOf : Ledger.LedgerOp → Option UUID
  | .reverseTransaction _ _ txID _ _ _ _ => some txID
  | _ => none

/-- A call of the ledger from outside is one move, or none if it fails. -/
theorem outside_later {op : Ledger.LedgerOp} (hinv : (view db l).Inv) (hop : hookless op)
    (allowed : ∀ txID ∈ reversalOf op, R.reversible (view db l) txID) :
    Later R (view db l) (view (op.apply db) l) := by
  unfold Ledger.LedgerOp.apply
  split
  · next db' h =>
    refine .single ?_
    cases Ledger.LedgerOp.ran h with
    | opened ho => exact opened_move ho
    | posted hooks hrun =>
      obtain ⟨hfresh, hview⟩ := outsidePost_view hinv (Option.isNone_iff_eq_none.1 hop) hrun
      rw [hview]
      exact .post hfresh
    | reversed hooks hrun =>
      obtain rfl := Option.isNone_iff_eq_none.1 hop
      obtain ⟨hfresh, hposted, hview⟩ := outsideReverse_view hinv hrun
      rw [hview]
      exact .reverse hfresh hposted (allowed _ rfl)
  · exact .refl

theorem outside_saga {op : Ledger.LedgerOp} (hinv : (view db l).Inv) (hop : hookless op) :
    (view (op.apply db) l).saga = (view db l).saga := by
  unfold Ledger.LedgerOp.apply
  split
  · next db' h =>
    cases Ledger.LedgerOp.ran h with
    | opened ho => rw [opened_view ho]
    | posted hooks hrun =>
      rw [(outsidePost_view hinv (Option.isNone_iff_eq_none.1 hop) hrun).2]
      rfl
    | reversed hooks hrun =>
      obtain rfl := Option.isNone_iff_eq_none.1 hop
      rw [(outsideReverse_view hinv hrun).2.2]
      rfl
  · rfl

def Known (inst : Instance) (v : View) : Prop := ∃ st, v.saga inst.id = some ⟨inst.payload, st⟩

/-- The calls that move no money: their transitions are edges, and the rows they write name no
transaction. -/
def Plain (refund : Prop) : Call → Prop
  | .advance t => Edge refund t.source t.target
  | .beginStep _ t => Edge refund t.source t.target
  | .escalate _ t _ => Edge refund t.source t.target
  | .recordAttempt a => a.status ≠ .succeeded
  | .finishAttempt f => f.transactionID = none
  | .postTransaction _ => False
  | .reverseTransactionRecorded _ _ _ => False
  | _ => True

/-- The requests that move money are the three of the steps, each made in its own status. -/
def Asks (refund : Prop) (worker : Worker) (v : View) : Call → Prop
  | .postTransaction req => Known worker.inst v ∧ ∃ attemptID number ev,
      (worker.inst.status = .pending ∧
        req = stepRequest worker.inst worker.inst.payload .reserve (reserveLegs worker.inst.payload)
          (recordStep worker.o worker.inst worker.inst.payload worker.inst.payload.amountMinor ev
            (reserveCommit attemptID number))) ∨
      (worker.inst.status = .gatewaySucceeded ∧
        req = stepRequest worker.inst worker.inst.payload .settle (settleLegs worker.inst.payload)
          (recordStep worker.o worker.inst worker.inst.payload (-worker.inst.payload.amountMinor) ev
            (settleCommit attemptID number)))
  | .reverseTransactionRecorded txID _ record => Known worker.inst v ∧
      worker.inst.status = .compensating ∧ v.reserves worker.inst.id = [txID] ∧
      ∃ attemptID number ev, record = recordStep worker.o worker.inst worker.inst.payload
        (-worker.inst.payload.amountMinor) ev (compensateCommit attemptID number)
  | c => Plain refund c

/-- An answer to a settle that leaves it another attempt. -/
def RetriesSettle (worker : Worker) : (c : Call) → Reply c → Prop
  | .postTransaction _, .error e => worker.inst.status = .gatewaySucceeded →
      terminalLedgerError e = false ∧ worker.inst.retryCount + 1 < worker.o.cfg.maxStepAttempts
  | _, _ => True

def Effect (refund : Prop) (worker : Worker) (c : Call) (w : World) (r : Reply c) (w' : World) :
    Prop :=
  ((∃ ch, World.call worker.inst.id ch c w = some (r, w')) ∨
    ∃ e, World.fault e c = some r ∧ w' = w) ∧ (refund ∨ RetriesSettle worker c r)

theorem validate_pos {p : Payload} (h : validate p = .ok ()) : 0 < p.amountMinor.toInt := by
  obtain ⟨_, -, h⟩ := bind_eq_ok.1 h
  obtain ⟨_, hpos, -⟩ := bind_eq_ok.1 h
  have hpos := failIf_eq_ok.1 hpos
  rwa [Int64.le_iff_toInt_le, Ledger.toInt_zero, not_le] at hpos

theorem write_cases {x : Except Error DB} {r : Except Error Unit}
    (h : w.write (x.map fun db => ((), db)) = (r, w')) :
    w' = w ∨ ∃ db, x = .ok db ∧ w' = { w with db } := by
  cases x with
  | error e =>
    cases h
    exact .inl rfl
  | ok db =>
    cases h
    exact .inr ⟨db, rfl, rfl⟩

theorem ledger_cases {id : UUID} {x : Except Error (Ledger.Transaction × DB)}
    {r : Except Error Ledger.Transaction} (h : w.ledger id x = (r, w')) :
    (w' = w ∧ ∃ e, r = .error e ∧ x = .error e) ∨ ∃ t db, x = .ok (t, db) ∧ r = .ok t ∧
      w' = { w with db, posted := w.posted ++ [⟨id, t.id⟩] } := by
  cases x with
  | error e =>
    cases h
    exact .inl ⟨rfl, e, rfl, rfl⟩
  | ok tdb =>
    cases h
    exact .inr ⟨tdb.1, tdb.2, rfl, rfl, rfl⟩

/-- A guarded transition along an edge is one move, or none if the guard fails. -/
theorem transition_later {x : Except Error DB} {r : Except Error Unit} {t : Transition}
    (h : w.write (x.map fun db => ((), db)) = (r, w'))
    (hview : ∀ db, x = .ok db → ∃ p, w.view.saga t.sagaID = some ⟨p, t.source⟩ ∧
      view db w.posted = w.view.move t.sagaID p t.target)
    (hedge : Edge R.refund t.source t.target) : Later R w.view w'.view := by
  rcases write_cases h with rfl | ⟨db, hdb, rfl⟩
  · exact .refl
  · obtain ⟨p, hsaga, hmove⟩ := hview db hdb
    refine .single ?_
    change Move R w.view (view db w.posted)
    rw [hmove]
    exact .advance hsaga hedge

theorem plain_later {id : UUID} {ch : Choice} {c : Call} {r : Reply c}
    (h : World.call id ch c w = some (r, w')) (hc : Plain R.refund c) : Later R w.view w'.view := by
  cases c with
  | advance t => exact transition_later (Option.some.inj h) (fun _ => advance_view) hc
  | beginStep a t => exact transition_later (Option.some.inj h) (fun _ => beginStep_view) hc
  | escalate eventID t alert =>
    exact transition_later (Option.some.inj h) (fun _ => escalate_view) hc
  | recordAttempt a =>
    rcases write_cases (Option.some.inj h) with rfl | ⟨db, hdb, rfl⟩
    · exact .refl
    · change Later R w.view (view db w.posted)
      rw [recordAttempt_view hdb hc]
      exact .refl
  | finishAttempt f =>
    cases h
    change Later R w.view (view _ w.posted)
    rw [finishAttempt_view _ hc]
    exact .refl
  | postTransaction req => exact hc.elim
  | reverseTransactionRecorded txID reason record => exact hc.elim
  | payAwait key request =>
    simp only [World.call] at h
    split at h
    · cases h
      exact .refl
    · cases h
  | _ =>
    cases h
    exact .refl

section Step
variable {worker : Worker} {attemptID : UUID} {number : ℕ} {ev : Stamp} {w : World}
  {t : Ledger.Transaction} {d : Ledger.Draws} {txID : UUID}

theorem reserve_move (hinv : w.view.Inv) (hknown : Known worker.inst w.view)
    (hnil : txID ≠ UUID.nil)
    (h : Ledger.postTransaction d txID
      (stepRequest worker.inst worker.inst.payload .reserve (reserveLegs worker.inst.payload)
        (recordStep worker.o worker.inst worker.inst.payload worker.inst.payload.amountMinor ev
          (reserveCommit attemptID number))) w.db = .ok (t, db')) :
    Move R w.view (view db' (w.posted ++ [⟨worker.inst.id, t.id⟩])) := by
  obtain ⟨hsaga, hfresh, rfl, hbooked, hview⟩ := postTransaction_view (l := w.posted) hinv hknown h
  have hreserves : (fun k => w.view.reserves k ++
      if worker.inst.id = k ∧ (reserveCommit attemptID number).step = .reserve ∧
        (reserveCommit attemptID number).direction = .forward then [t.id] else []) =
      update w.view.reserves worker.inst.id (w.view.reserves worker.inst.id ++ [t.id]) := by
    funext k
    by_cases hk : worker.inst.id = k
    · simp [reserveCommit, hk]
    · simp [reserveCommit, hk, Ne.symm hk]
  rw [hview]
  change Move R w.view { w.view.step _ _ _ t _ with reserves := _ }
  rw [show (view w.db w.posted).reserves = w.view.reserves from rfl, hreserves]
  exact .reserve hsaga hfresh hnil hbooked

theorem settle_move (hinv : w.view.Inv) (hknown : Known worker.inst w.view)
    (h : Ledger.postTransaction d txID
      (stepRequest worker.inst worker.inst.payload .settle (settleLegs worker.inst.payload)
        (recordStep worker.o worker.inst worker.inst.payload (-worker.inst.payload.amountMinor) ev
          (settleCommit attemptID number))) w.db = .ok (t, db')) :
    Move R w.view (view db' (w.posted ++ [⟨worker.inst.id, t.id⟩])) := by
  obtain ⟨hsaga, hfresh, -, hbooked, hview⟩ := postTransaction_view (l := w.posted) hinv hknown h
  have hpos := validate_pos (hinv.valid _ _ _ hsaga)
  rw [hview, Ledger.toInt_neg_of_pos hpos]
  have hreserves : (fun k => w.view.reserves k ++
      if worker.inst.id = k ∧ (settleCommit attemptID number).step = .reserve ∧
        (settleCommit attemptID number).direction = .forward then [t.id] else []) =
      w.view.reserves := by
    simp [settleCommit]
  rw [show (view w.db w.posted).reserves = w.view.reserves from rfl, hreserves]
  exact .settle hsaga hfresh hbooked

theorem compensate_move {reason : String} {reversalID : UUID} (hinv : w.view.Inv)
    (hknown : Known worker.inst w.view) (hreserve : w.view.reserves worker.inst.id = [txID])
    (h : Ledger.doReverse d reversalID txID reason none
      (some (recordStep worker.o worker.inst worker.inst.payload
        (-worker.inst.payload.amountMinor) ev (compensateCommit attemptID number))) w.db =
      .ok (t, db')) :
    Move R w.view (view db' (w.posted ++ [⟨worker.inst.id, t.id⟩])) := by
  obtain ⟨hsaga, hfresh, hposted, hmirror, hview⟩ :=
    doReverse_view (l := w.posted) hinv hknown h rfl
  have hpos := validate_pos (hinv.valid _ _ _ hsaga)
  rw [hview, Ledger.toInt_neg_of_pos hpos]
  exact .compensate hsaga hreserve hfresh hposted hmirror

end Step

theorem effect_later {worker : Worker} {c : Call} {r : Reply c}
    (hasks : Asks R.refund worker w.view c) (hinv : w.view.Inv)
    (h : Effect R.refund worker c w r w') : Later R w.view w'.view := by
  obtain ⟨⟨ch, hcall⟩ | ⟨e, -, rfl⟩, -⟩ := h
  · cases c with
    | postTransaction req =>
      obtain ⟨rfl, -⟩ | ⟨t, db', hpost, -, rfl⟩ := ledger_cases (Option.some.inj hcall)
      · exact .refl
      · obtain ⟨hknown, attemptID, number, ev, ⟨-, rfl⟩ | ⟨-, rfl⟩⟩ := hasks
        · exact .single (reserve_move hinv hknown ch.uuid.2 hpost)
        · exact .single (settle_move hinv hknown hpost)
    | reverseTransactionRecorded txID reason record =>
      obtain ⟨rfl, -⟩ | ⟨t, db', hpost, -, rfl⟩ := ledger_cases (Option.some.inj hcall)
      · exact .refl
      · obtain ⟨hknown, -, hreserve, attemptID, number, ev, rfl⟩ := hasks
        exact .single (compensate_move hinv hknown hreserve hpost)
    | _ => exact plain_later hcall hasks
  · exact .refl

/-- The workers' part of the system, over a machine with the rules `R`. -/
def discipline (R : Rules) : Discipline Reply World Worker where
  asks worker c w := Asks R.refund worker w.view c
  effect := Effect R.refund
  valid w := w.view.Inv
  later w w' := Later R w.view w'.view
  refl _ := .refl
  trans := .trans
  valid_later := Later.inv
  effect_later := effect_later

end LedgerCore.Payout
