import LedgerCore.Payout.Settlement

/-! What becomes of a payout once the gateway has confirmed its payment, and of the reserve that
funds it. -/
namespace LedgerCore.Payout
open LedgerCore.Program LedgerCore.Saga

def Sys.answer (s : Sys) : Action → Option (Worker × (c : Call) × Reply c)
  | .perform i ch =>
    match s.tasks[i]? with
    | some (worker, .call c _) =>
      (World.call worker.inst.id ch c s.world).map fun (r, _) => (worker, ⟨c, r⟩)
    | _ => none
  | .abandon i e =>
    match s.tasks[i]? with
    | some (worker, .call c _) => (World.fault e c).map fun r => (worker, ⟨c, r⟩)
    | _ => none
  | _ => none

/-- A run in which every action passes a test where it happens. -/
def Sys.runChecked (ok : Sys → Action → Bool) (s : Sys) (actions : List Action) : Option Sys :=
  Program.runChecked step ok s actions

theorem reach_of_runChecked {allowed : Sys → Action → Prop} {ok : Sys → Action → Bool}
    (hok : ∀ s a, ok s a = true → allowed s a) {actions : List Action} {s s' : Sys}
    (h : s.runChecked ok actions = some s') : Sys.Reach allowed s s' :=
  reachBy_of_runChecked hok h

/-- No settle is answered so that its worker gives up on it: with an error that a retry would meet
again, or with any error on the last attempt. -/
def SettlesRetried (s : Sys) (a : Action) : Prop :=
  ∀ q ∈ s.answer a, RetriesSettle q.1 q.2.1 q.2.2

/-- Confirmed payments are not turned around. -/
def confirming : Rules where
  refund := False
  reversible _ _ := True

theorem SettlesRetried.allowed {s : Sys} {a : Action} (h : SettlesRetried s a) :
    Allowed confirming s a := by
  cases a with
  | ledger op => exact fun _ _ => trivial
  | perform i ch =>
    refine .inr fun worker c k r w htask hcall => h (worker, ⟨c, r⟩) ?_
    simp [Sys.answer, htask, hcall]
  | abandon i e =>
    refine .inr fun worker c k r htask hfault => h (worker, ⟨c, r⟩) ?_
    simp [Sys.answer, htask, hfault]
  | _ => trivial

/-- The statuses of a payout whose payment is confirmed. -/
def Confirmed : Status → Prop
  | .gatewaySucceeded | .completed => True
  | _ => False

theorem Confirmed.closed {s t : Status} (h : Confirmed s)
    (ht : Transitions confirming.refund s t) : Confirmed t := by
  cases s <;> cases t <;> simp_all [Confirmed, Transitions, Edge, confirming]

/-- As long as no worker gives up on a settle, a confirmed payout stays confirmed: it is not
compensated. -/
theorem confirmed_stays_confirmed {s s' : Sys} (h : Sys.Reach SettlesRetried .init s) {id : UUID}
    {r : SagaRow} (hr : s.world.db.sagaInstances.find? id = some r)
    (hstatus : r.status = .gatewaySucceeded) (h' : Sys.Reach SettlesRetried s s') :
    ∃ r', s'.world.db.sagaInstances.find? id = some r' ∧ r'.payload = r.payload ∧
      Confirmed r'.status := by
  have hmono : ∀ s a, SettlesRetried s a → Allowed confirming s a := fun _ _ => SettlesRetried.allowed
  have hkept := (reach_kept (reach_mono h hmono) init_kept).1
  have hlater := (reach_kept (reach_mono h' hmono) hkept).2
  have hsaga : s.world.view.saga id = some ⟨r.payload, r.status⟩ :=
    Option.map_eq_some_iff.2 ⟨r, hr, rfl⟩
  obtain ⟨st, hst, hconfirmed⟩ := hlater.saga Confirmed.closed ⟨_, hsaga, hstatus ▸ trivial⟩
  obtain ⟨r', hr', hprogress⟩ := Option.map_eq_some_iff.1 hst
  obtain ⟨hpayload, rfl⟩ := Progress.mk.inj hprogress
  exact ⟨r', hr', hpayload, hconfirmed⟩

def retriesSettle (worker : Worker) : (c : Call) → Reply c → Bool
  | .postTransaction _, .error e => worker.inst.status ≠ .gatewaySucceeded ||
      (!terminalLedgerError e && worker.inst.retryCount + 1 < worker.o.cfg.maxStepAttempts)
  | _, _ => true

theorem retriesSettle_sound {worker : Worker} {c : Call} {r : Reply c}
    (h : retriesSettle worker c r = true) : RetriesSettle worker c r := by
  cases c with
  | postTransaction req =>
    cases r with
    | ok t => trivial
    | error e =>
      intro hstatus
      simpa [retriesSettle, hstatus] using h
  | _ => trivial

theorem one_run {x : Option Sys} {p : Sys → Prop} [DecidablePred p]
    (h : x.any (fun s => p s) = true) : ∃ s, x = some s ∧ p s := by
  obtain ⟨s, hs, h⟩ := (Option.any_eq_true ..).1 h
  exact ⟨s, hs, of_decide_eq_true h⟩

theorem two_runs {x : Option Sys} {f : Sys → Option Sys} {p q : Sys → Prop} [DecidablePred p]
    [DecidablePred q] (h : x.any (fun s => p s && (f s).any fun s' => q s') = true) :
    ∃ s s', x = some s ∧ f s = some s' ∧ p s ∧ q s' := by
  obtain ⟨s, hs, h⟩ := (Option.any_eq_true ..).1 h
  obtain ⟨hp, h⟩ := Bool.and_eq_true_iff.1 h
  obtain ⟨s', hs', hq⟩ := (Option.any_eq_true ..).1 h
  exact ⟨s, s', hs, hs', of_decide_eq_true hp, of_decide_eq_true hq⟩

def sampleOutcome (s : Sys) : Option Status × Option Gateway.Status :=
  ((s.world.db.sagaInstances.find? 7).map fun r => r.status,
    (s.world.records.find? (gatewayKey 7)).map fun p => p.status)

/-- The sample payout up to the confirmation of its payment. -/
def samplePaid : List Action :=
  sampleStart ++ drive 10 4 ++ .crash 0 :: drive 20 4 ++ .deliver 0 (.accept "g" 40) ::
    performs 0 30 3 ++ [.crash 0]

theorem confirmed_stays_confirmed_settled :
    ∃ s s', Sys.Reach SettlesRetried .init s ∧ Sys.Reach SettlesRetried s s' ∧
      sampleOutcome s = (some .gatewaySucceeded, some .succeeded) ∧
      sampleOutcome s' = (some .completed, some .succeeded) ∧
      ∃ r', s'.world.db.sagaInstances.find? 7 = some r' ∧ Confirmed r'.status := by
  let ok (s : Sys) (a : Action) : Bool := (s.answer a).all fun q => retriesSettle q.1 q.2.1 q.2.2
  have hok : ∀ s a, ok s a = true → SettlesRetried s a := fun s a h q hq =>
    retriesSettle_sound (Option.all_eq_true .. |>.1 h q hq)
  have hrun : (Sys.init.runChecked ok samplePaid).any (fun s =>
      sampleOutcome s = (some .gatewaySucceeded, some .succeeded) &&
      (s.runChecked ok (drive 40 4)).any fun s' =>
        sampleOutcome s' = (some .completed, some .succeeded)) = true := by
    decide +kernel
  obtain ⟨s, s', hs, hs', hpaid, hdone⟩ := two_runs hrun
  obtain ⟨r, hr, hstatus⟩ := Option.map_eq_some_iff.1 (congrArg Prod.fst hpaid)
  have hreach := reach_of_runChecked hok hs
  have hreach' := reach_of_runChecked hok hs'
  obtain ⟨r', hr', -, hconfirmed⟩ := confirmed_stays_confirmed hreach hr hstatus hreach'
  exact ⟨s, s', hreach, hreach', hpaid, hdone, r', hr', hconfirmed⟩

/-- A settle is answered with an error of the database, and its worker ends. -/
def sampleOutage (n : ℕ) : List Action :=
  drive n 3 ++ .abandon 0 ⟨[], "connection reset"⟩ :: performs 0 (n + 3) 2 ++ [.crash 0, .crash 0]

/-- The database is out of reach for three attempts in a row, and the confirmed payment is given
back to the customer. -/
theorem confirmed_then_compensated :
    ∃ s s', Sys.init.run samplePaid = some s ∧
      s.run (sampleOutage 40 ++ sampleOutage 50 ++ sampleOutage 60 ++ drive 70 5) = some s' ∧
      sampleOutcome s = (some .gatewaySucceeded, some .succeeded) ∧
      sampleOutcome s' = (some .compensated, some .succeeded) := by
  refine two_runs (f := fun s => s.run _) ?_
  decide +kernel

/-- Nobody outside reverses a transaction that an attempt names as its saga's reserve. -/
def SparesReserves (s : Sys) (a : Action) : Prop :=
  ∀ txID ∈ a.reverses, ∀ id, txID ∉ s.world.db.sagaSteps.values.filterMap (reserveOf id)

/-- Reserves are reversed by their sagas only. -/
def keepingReserves : Rules where
  refund := True
  reversible v txID := ∀ id, txID ∉ v.reserves id

theorem SparesReserves.allowed {s : Sys} {a : Action} (h : SparesReserves s a) :
    Allowed keepingReserves s a := by
  cases a with
  | ledger op => exact h
  | perform i ch => exact .inl trivial
  | abandon i e => exact .inl trivial
  | _ => trivial

/-- As long as nobody outside reverses a reserve, a completed payout is funded by its own, which
is posted. -/
theorem completed_reserve_posted {s : Sys} (h : Sys.Reach SparesReserves .init s) {id : UUID}
    {r : SagaRow} (hr : s.world.db.sagaInstances.find? id = some r)
    (hstatus : r.status = .completed) :
    ∃ row, s.world.db.transactions.find? (reserveTransactionID (attempts id s.world.db)) = some row ∧
      row.status = .posted := by
  have hreach : Sys.Reach (Allowed keepingReserves) .init s :=
    reach_mono h fun _ _ => SparesReserves.allowed
  obtain ⟨hkept, hlater⟩ := reach_kept hreach init_kept
  have hstands : ReserveStands s.world.view := by
    refine hlater.keeps init_inv (Move.reserveStands fun v t _ hrev id ht => ?_) fun _ _ _ _ hs =>
      nomatch hs
    exact hrev id (by simp [ht])
  have hsaga : s.world.view.saga id = some ⟨r.payload, .completed⟩ :=
    Option.map_eq_some_iff.2 ⟨r, hr, by rw [hstatus]⟩
  have hinv : s.world.view.Inv := hkept.valid
  obtain ⟨t, t', ht, -⟩ := hinv.money id _ _ hsaga
  obtain ⟨row, hrow, hposted⟩ := header_eq_some (hstands id _ _ t hsaga ht.reserves)
  rw [reserveTransactionID_attempts (l := s.world.posted) ht.reserves]
  exact ⟨row, hrow, hposted⟩

def reserveOutcome (s : Sys) (id : UUID) : Option Status × Option Ledger.TransactionStatus :=
  ((s.world.db.sagaInstances.find? id).map fun r => r.status,
    (s.world.db.transactions.find? (reserveTransactionID (attempts id s.world.db))).map fun r =>
      r.status)

theorem completed_reserve_posted_settled :
    ∃ s, Sys.init.run sampleRun = some s ∧ reserveOutcome s 7 = (some .completed, some .posted) ∧
      ∃ row, s.world.db.transactions.find? (reserveTransactionID (attempts 7 s.world.db)) = some row ∧
        row.status = .posted := by
  have hrun : (Sys.init.run sampleRun).any (fun s =>
      reserveOutcome s 7 = (some .completed, some .posted)) = true := by
    decide +kernel
  obtain ⟨s, hs, houtcome⟩ := one_run hrun
  obtain ⟨r, hr, hstatus⟩ := Option.map_eq_some_iff.1 (congrArg Prod.fst houtcome)
  have hspares : sampleRun.all (fun a => a.reverses = none) = true := by decide +kernel
  refine ⟨s, hs, houtcome, completed_reserve_posted (reach_of_run hs ?_) hr hstatus⟩
  intro a ha s txID htx
  rw [of_decide_eq_true (List.all_eq_true.1 hspares a ha)] at htx
  exact nomatch htx

/-- The reserve of the sample payout is reversed from outside, and a second payout parks its own
reserve on the same suspense account before the first one is settled. -/
def sampleOverlap : List Action :=
  samplePaid ++
    [.ledger (.reverseTransaction (Ledger.sampleDraws 40) 9 14999 "mistake" none none
      Ledger.recording_none),
     .start sampleConfig 55 10 sampleSecond samplePayload "p" none,
     .claim false sampleConfig 60 fun _ => false] ++
    performs 1 50 4 ++ performs 0 60 4

/-- The first payout is completed with the amount that was reserved for the second. -/
theorem completed_reserve_reversed :
    ∃ s, Sys.init.run sampleOverlap = some s ∧
      reserveOutcome s 7 = (some .completed, some .reversed) ∧
      reserveOutcome s 8 = (some .reserved, some .posted) := by
  refine one_run ?_
  decide +kernel

end LedgerCore.Payout
