import LedgerCore.Program.Answers
import LedgerCore.Payout.System

/-! One worker that drives a saga again and again: how many steps it takes to the end. The
store's operations succeed; the ledger and the gateway answer as they like. -/
namespace LedgerCore.Payout
open LedgerCore.Program LedgerCore.Saga
variable {inst : Instance} {attemptID : UUID}

/-- What the calls of one `driveOne` are answered with: the ledger's call succeeds with a
transaction or fails with any error, and the gateway's answer is anything. What the store reads
of the attempt log is left open too. -/
structure Outcome where
  now : Time
  uuid : UUID
  stamp : Stamp
  number : ℕ
  attempts : List Attempt
  unresolved : Option Attempt
  ledger : Except Error Ledger.Transaction
  gateway : Gateway.Response

def move (now : Time) (id : UUID) (t : Transition) (r : SagaRow) : Except Error SagaRow :=
  if t.sagaID = id ∧ r.status = t.source then .ok (t.apply now r) else .error (advance.stale t)

/-- The calls of a `Record` hook, as far as the saga's row goes. -/
def hook (now : Time) (id : UUID) : Handler Ledger.TxReply Error SagaRow
  | .commitSagaStep c, r => (move now id c.transition r).map fun r => ((), r)
  | .applyPendingDelta _, r => .ok ((), r)
  | .appendEvent _ _, r => .ok ((), r)
  | _, _ => .error ⟨[], "not a call of a hook"⟩

def written (r : SagaRow) : Except Error SagaRow → Except Error Unit × SagaRow
  | .ok r' => (.ok (), r')
  | .error e => (.error e, r)

/-- A ledger transaction: when it succeeds, its hook has run. -/
def Outcome.posted (x : Outcome) (id : UUID) (record : Option Ledger.Recorder) (r : SagaRow) :
    Except Error Ledger.Transaction × SagaRow :=
  match x.ledger with
  | .error e => (.error e, r)
  | .ok t =>
    match (Ledger.runRecord record t).run (hook x.now id) r with
    | .ok (_, r') => (.ok t, r')
    | .error e => (.error e, r)

def answer (id : UUID) (x : Outcome) : Answers Reply SagaRow
  | .newUUID, r => (.ok x.uuid, r)
  | .stamp, r => (x.stamp, r)
  | .nextAttemptNumber _ _ _, r => (.ok x.number, r)
  | .attempts _, r => (.ok x.attempts, r)
  | .unresolvedAttempt _ _, r => (.ok x.unresolved, r)
  | .get _, r => (.ok (toInstance id r), r)
  | .advance t, r => written r (move x.now id t r)
  | .beginStep _ t, r => written r (move x.now id t r)
  | .recordAttempt _, r => (.ok (), r)
  | .finishAttempt _, r => (.ok (), r)
  | .escalate _ t _, r => written r (move x.now id t r)
  | .postTransaction req, r => x.posted id req.record r
  | .reverseTransactionRecorded _ _ record, r => x.posted id (some record) r
  | .paySend _, r => (0, r)
  | .payAwait key _, r => (Gateway.doRequest key x.gateway, r)
  | .probe key, r => (Gateway.doRequest key x.gateway, r)

/-- The row as a claim leaves it. -/
def leased (o : Orchestrator) (now : Time) (r : SagaRow) : SagaRow :=
  { r with leaseOwner := some o.cfg.workerID, leaseExpiresAt := some (now + o.cfg.lease) }

/-- The saga is claimed and driven once. -/
def driveOnce (o : Orchestrator) (id : UUID) (x : Outcome) (r : SagaRow) : SagaRow :=
  (driveOne o (toInstance id (leased o x.now r))).leave (answer id x) (leased o x.now r)

def driven (o : Orchestrator) (id : UUID) (xs : ℕ → Outcome) (r : SagaRow) : ℕ → SagaRow
  | 0 => r
  | n + 1 => driveOnce o id (xs n) (driven o id xs r n)

/-- A budget counts from one: the first failure may already be the last. -/
def budget (limit spent : ℕ) : ℕ := max 1 (limit - spent)

/-- The most drives that a saga can still take. -/
def drivesLeft (cfg : Config) (status : Status) (retryCount : ℕ) : ℕ :=
  match status with
  | .pending => budget cfg.maxStepAttempts retryCount + 1 + budget cfg.maxProbes 0 +
      budget cfg.maxStepAttempts 0 + budget cfg.maxCompensationAttempts 0
  | .reserved => 1 + budget cfg.maxProbes 0 + budget cfg.maxStepAttempts 0 +
      budget cfg.maxCompensationAttempts 0
  | .gatewayPending => budget cfg.maxProbes retryCount + budget cfg.maxStepAttempts 0 +
      budget cfg.maxCompensationAttempts 0
  | .gatewaySucceeded => budget cfg.maxStepAttempts retryCount +
      budget cfg.maxCompensationAttempts 0
  | .gatewayFailed => 1 + budget cfg.maxCompensationAttempts 0
  | .compensating => budget cfg.maxCompensationAttempts retryCount
  | _ => 0

def driveBound (maxStepAttempts maxProbes maxCompensationAttempts : ℕ) : ℕ :=
  2 * max 1 maxStepAttempts + max 1 maxProbes + max 1 maxCompensationAttempts + 1

/-- A phase that begins, begins with a retry counter of zero. -/
def FromZero (r r' : SagaRow) : Prop :=
  r'.status ≠ r.status → r'.status.terminal = false → r'.retryCount = 0

/-- What a drive of a saga that has not ended does to its row. -/
structure Nearer (cfg : Config) (r r' : SagaRow) : Prop where
  payload : r'.payload = r.payload
  sagaType : r'.sagaType = r.sagaType
  reserved : r'.status = .reserved → r'.retryCount = 0
  fewer : drivesLeft cfg r'.status r'.retryCount < drivesLeft cfg r.status r.retryCount

section Steps
variable {o : Orchestrator} {id : UUID} {x : Outcome} {r r₀ : SagaRow}

/-- A program makes progress over the row `r₀`, and every phase it begins, begins from zero. -/
def Advances (o : Orchestrator) (id : UUID) (x : Outcome) (r₀ : SagaRow) (p : OrchM Unit)
    (r : SagaRow) : Prop :=
  p.Course (answer id x) FromZero (fun _ => Nearer o.cfg r₀) (fun _ => Nearer o.cfg r₀) r

/-- The transitions that begin no phase, or begin it from zero. -/
def Transition.Resets (t : Transition) : Prop :=
  t.target = t.source ∧ t.target ≠ .reserved ∨ t.target.terminal = true ∨ t.retryCount = 0

theorem fromZero_self (r : SagaRow) : FromZero r r := fun h => absurd rfl h

section Moves
variable {t : Transition}

theorem move_of_guard {now : Time} (hid : t.sagaID = id) (hs : r.status = t.source) :
    move now id t r = .ok (t.apply now r) := if_pos ⟨hid, hs⟩

theorem fromZero_apply {now : Time} (hs : r.status = t.source) (h : Transition.Resets t) :
    FromZero r (t.apply now r) := by
  intro hne hterminal
  rcases h with ⟨hsame, -⟩ | hend | hzero
  · exact absurd (hsame.trans hs.symm) hne
  · exact absurd hend (Bool.eq_false_iff.1 hterminal)
  · exact hzero

theorem nearer_apply {now : Time} (hpayload : r.payload = r₀.payload)
    (htype : r.sagaType = r₀.sagaType) (h : Transition.Resets t)
    (hfewer : drivesLeft o.cfg t.target t.retryCount < drivesLeft o.cfg r₀.status r₀.retryCount) :
    Nearer o.cfg r₀ (t.apply now r) := by
  refine ⟨hpayload, htype, fun hreserved => ?_, hfewer⟩
  change t.target = .reserved at hreserved
  rcases h with ⟨-, hne⟩ | hend | hzero
  · exact absurd hreserved hne
  · rw [hreserved] at hend
    cases hend
  · exact hzero

theorem advances_advance (hid : t.sagaID = id) (hs : r.status = t.source)
    (hpayload : r.payload = r₀.payload) (htype : r.sagaType = r₀.sagaType)
    (h : Transition.Resets t)
    (hfewer : drivesLeft o.cfg t.target t.retryCount < drivesLeft o.cfg r₀.status r₀.retryCount) :
    Advances o id x r₀ (Store.advance t) r := by
  refine Prog.course_bind.2 (Prog.course_perform.2 ?_)
  simp only [answer, move_of_guard hid hs, written]
  exact ⟨fromZero_apply hs h, nearer_apply hpayload htype h hfewer⟩

end Moves

theorem advances_escalate {e : Escalation} (hid : inst.id = id) (hs : r.status = e.source)
    (hpayload : r.payload = r₀.payload) (htype : r.sagaType = r₀.sagaType)
    (hleft : 0 < drivesLeft o.cfg r₀.status r₀.retryCount) :
    Advances o id x r₀ (escalate o inst e) r := by
  refine ⟨fromZero_self r, ?_, ?_⟩
  all_goals simp only [answer, move, hid, hs, true_and, if_true, written]
  · exact fromZero_apply hs (.inr (.inl rfl))
  · exact nearer_apply hpayload htype (.inr (.inl rfl)) hleft

theorem advances_call {c : Call} {f : Reply c → OrchM Unit} (hkeep : (answer id x c r).2 = r)
    (hf : Advances o id x r₀ (f (answer id x c r).1) r) :
    Advances o id x r₀ (.perform c >>= f) r := by
  refine Prog.course_bind.2 (Prog.course_perform.2 ?_)
  rw [hkeep]
  exact ⟨fromZero_self r, hf⟩

theorem advances_orReturn {α : Type} {c : Call} {g : Reply c → OrchM α} {f : α → OrchM Unit}
    {a : α} (hkeep : (answer id x c r).2 = r) (hok : g (answer id x c r).1 = .pure a)
    (hf : Advances o id x r₀ (f a) r) : Advances o id x r₀ (.perform c >>= g >>= f) r := by
  rw [Prog.bind_assoc]
  refine advances_call hkeep ?_
  rw [hok]
  exact hf

theorem advances_nextAttempt {sagaID : UUID} {step : Step} {direction : Saga.Direction}
    {f : UUID × ℕ → OrchM Unit} (hf : Advances o id x r₀ (f (x.uuid, x.number)) r) :
    Advances o id x r₀ (nextAttempt sagaID step direction >>= f) r := by
  unfold nextAttempt
  rw [Prog.bind_assoc]
  refine advances_orReturn rfl rfl ?_
  rw [Prog.bind_assoc]
  exact advances_orReturn rfl rfl hf

theorem failForwardStep_advances {step : Step} {number : ℕ} {cause : Error}
    (hstep : r.status = .pending ∧ step = .reserve ∨
      r.status = .gatewaySucceeded ∧ step = .settle) :
    Advances o id x r (failForwardStep o (toInstance id r) step attemptID number cause) r := by
  refine advances_call rfl ?_
  dsimp only [toInstance]
  split_ifs with hretry hreserve
  · have hbudget : r.retryCount + 1 < o.cfg.maxStepAttempts := by
      simp only [Bool.not_or, Bool.and_eq_true, Bool.not_eq_true', decide_eq_false_iff_not,
        not_le] at hretry
      exact hretry.2
    refine advances_advance rfl rfl rfl rfl (.inl ⟨rfl, ?_⟩) ?_
    all_goals rcases hstep with ⟨hs, -⟩ | ⟨hs, -⟩
    all_goals simp only [hs, drivesLeft, budget, ne_eq, reduceCtorEq, not_false_eq_true]
    all_goals omega
  · refine advances_advance rfl rfl rfl rfl (.inr (.inl rfl)) ?_
    rcases hstep with ⟨hs, -⟩ | ⟨hs, -⟩
    all_goals simp only [hs, drivesLeft, budget]
    all_goals omega
  · refine advances_advance rfl rfl rfl rfl (.inr (.inr rfl)) ?_
    rcases hstep with ⟨hs, hstep⟩ | ⟨hs, -⟩
    · exact absurd hstep hreserve
    · simp only [hs, drivesLeft, budget]
      omega

theorem failCompensation_advances {number : ℕ} {cause : Error} (hs : r.status = .compensating) :
    Advances o id x r (failCompensation o (toInstance id r) attemptID number cause) r := by
  refine advances_call rfl ?_
  dsimp only [toInstance]
  split_ifs with hspent
  · refine advances_escalate rfl hs rfl rfl ?_
    simp only [hs, drivesLeft, budget]
    omega
  · refine advances_advance rfl hs rfl rfl (.inl ⟨rfl, Status.noConfusion⟩) ?_
    simp only [hs, drivesLeft, budget]
    omega

section Posted
variable {inst : Instance} {p : Payload} {deltaMinor : Int64} {ev : Stamp} {c : Commit}
  {req : Ledger.TransactionRequest} {txID : UUID} {reason : String}
  {f : Except Error Ledger.Transaction → OrchM Unit} (hid : inst.id = id) (hs : r.status = c.source)
include hid hs

theorem posted_recordStep :
    let y := x.posted id (some (recordStep o inst p deltaMinor ev c)) r
    (∃ e, y = (.error e, r)) ∨ ∃ (posted : Ledger.Transaction) (t : Transition),
      y = (.ok posted, t.apply x.now r) ∧ t.target = c.target ∧ t.retryCount = 0 := by
  unfold Outcome.posted
  cases x.ledger with
  | error e => exact .inl ⟨e, rfl⟩
  | ok posted =>
    right
    simp only [Ledger.runRecord, recordStep, commitStep, Commit.transition,
      Ledger.Tx.applyPendingDelta, Ledger.Tx.commitSagaStep, Ledger.Tx.appendEvent, Prog.run_bind,
      Prog.run_perform, hook, Except.map,
      move_of_guard (t := ⟨inst.id, c.source, c.target, c.nextStep, o.cfg.stepTimeout, 0, "", true⟩)
        hid hs]
    exact ⟨posted, _, rfl, rfl, rfl⟩

variable (hfewer : drivesLeft o.cfg c.target 0 < drivesLeft o.cfg r.status r.retryCount)
  (hok : ∀ t, f (.ok t) = .pure ()) (herror : ∀ e, Advances o id x r (f (.error e)) r)
include hfewer hok herror

/-- What follows a ledger step: the end of the drive, or the step's own handling of the error. -/
theorem advances_posted :
    let y := x.posted id (some (recordStep o inst p deltaMinor ev c)) r
    FromZero r y.2 ∧ Advances o id x r (f y.1) y.2 := by
  intro y
  rcases posted_recordStep hid hs with ⟨e, h⟩ | ⟨posted, t, h, htarget, hzero⟩
  · rw [show y = _ from h]
    exact ⟨fromZero_self r, herror e⟩
  · rw [show y = _ from h]
    dsimp only
    rw [hok]
    refine ⟨fun _ _ => hzero, ⟨rfl, rfl, fun _ => hzero, ?_⟩⟩
    change drivesLeft o.cfg t.target t.retryCount < _
    rwa [htarget, hzero]

theorem advances_postTransaction
    (hrecord : req.record = some (recordStep o inst p deltaMinor ev c)) :
    Advances o id x r (postTransaction req >>= f) r := by
  refine Prog.course_bind.2 (Prog.course_perform.2 ?_)
  simp only [answer, hrecord]
  exact advances_posted hid hs hfewer hok herror

theorem advances_reverseTransactionRecorded :
    Advances o id x r (reverseTransactionRecorded txID reason
      (recordStep o inst p deltaMinor ev c) >>= f) r :=
  Prog.course_bind.2 (Prog.course_perform.2 (advances_posted hid hs hfewer hok herror))

end Posted

theorem mustNewMoney_eq_pure {amountMinor : Int64} {currency : String}
    (h : Ledger.currencyPattern currency = true) :
    mustNewMoney amountMinor currency = .pure ⟨amountMinor, currency⟩ := by
  simp [mustNewMoney, Ledger.newMoney, h]

theorem reserve_advances (hcurrency : Ledger.currencyPattern r.payload.currency = true)
    (hs : r.status = .pending) :
    Advances o id x r (reserve o (toInstance id r) r.payload) r := by
  unfold reserve
  refine advances_nextAttempt ?_
  dsimp only
  rw [mustNewMoney_eq_pure hcurrency]
  refine advances_call (c := .stamp) rfl ?_
  refine advances_postTransaction rfl hs ?_ (fun _ => rfl) (fun e => ?_) rfl
  · simp only [hs, drivesLeft, budget, reserveCommit]
    omega
  · exact failForwardStep_advances (.inl ⟨hs, rfl⟩)

theorem settle_advances (hcurrency : Ledger.currencyPattern r.payload.currency = true)
    (hs : r.status = .gatewaySucceeded) :
    Advances o id x r (settle o (toInstance id r) r.payload) r := by
  unfold settle
  refine advances_nextAttempt ?_
  dsimp only
  have hfees : ∃ fees, feeEntries r.payload = .pure fees := by
    unfold feeEntries
    split_ifs
    · rw [mustNewMoney_eq_pure hcurrency]
      exact ⟨_, rfl⟩
    · exact ⟨_, rfl⟩
  obtain ⟨fees, hfees⟩ := hfees
  rw [mustNewMoney_eq_pure hcurrency, mustNewMoney_eq_pure hcurrency, hfees]
  refine advances_call (c := .stamp) rfl ?_
  refine advances_postTransaction rfl hs ?_ (fun _ => rfl) (fun e => ?_) rfl
  · simp only [hs, drivesLeft, budget, settleCommit]
    omega
  · exact failForwardStep_advances (.inr ⟨hs, rfl⟩)

theorem finish_advances {status : StepStatus} {txID : Option UUID} {failure : String}
    {f : Unit → OrchM Unit} (hf : Advances o id x r₀ (f ()) r) :
    Advances o id x r₀ (finish attemptID status txID failure >>= f) r := by
  unfold finish
  split_ifs
  · exact hf
  · exact advances_orReturn rfl rfl hf

/-- The answer is acted on from a row that is in `GATEWAY_PENDING` by now; the counter is the one
the saga was claimed with. -/
theorem settleGatewayOutcome_advances {key : String} (hid : inst.id = id)
    (hs : r.status = .gatewayPending) (hpayload : r.payload = r₀.payload)
    (htype : r.sagaType = r₀.sagaType) (hleft : drivesLeft o.cfg .gatewayPending inst.retryCount ≤
      drivesLeft o.cfg r₀.status r₀.retryCount) :
    Advances o id x r₀
      (settleGatewayOutcome o inst attemptID (Gateway.doRequest key x.gateway)) r := by
  have hreads := Gateway.doRequest_reads key x.gateway
  generalize x.gateway.verdict = v at hreads
  generalize Gateway.doRequest key x.gateway = y at hreads ⊢
  cases hreads with
  | made hsucceeded =>
    simp only [settleGatewayOutcome, hsucceeded, if_true]
    refine finish_advances (advances_advance hid hs hpayload htype (.inr (.inr rfl)) ?_)
    refine lt_of_lt_of_le ?_ hleft
    simp only [drivesLeft, budget]
    omega
  | refused hconclusive =>
    simp only [settleGatewayOutcome, hconclusive, if_true]
    refine finish_advances (advances_advance hid hs hpayload htype (.inr (.inr rfl)) ?_)
    refine lt_of_lt_of_le ?_ hleft
    simp only [drivesLeft, budget]
    omega
  | unknown hunknown =>
    simp only [settleGatewayOutcome, hunknown, Bool.false_eq_true, if_false, deferAmbiguity]
    split_ifs with hspent
    · refine advances_escalate hid hs hpayload htype (lt_of_lt_of_le ?_ hleft)
      simp only [drivesLeft, budget]
      omega
    · refine advances_advance hid hs hpayload htype (.inl ⟨rfl, Status.noConfusion⟩) ?_
      refine lt_of_lt_of_le ?_ hleft
      simp only [drivesLeft, budget]
      omega

theorem advances_beginStep {a : StartAttempt} {t : Transition} {f : Unit → OrchM Unit}
    (hid : t.sagaID = id) (hs : r.status = t.source) (h : Transition.Resets t)
    (hf : Advances o id x r₀ (f ()) (t.apply x.now r)) :
    Advances o id x r₀ (Store.beginStep a t >>= f) r := by
  refine Prog.course_bind.2 (Prog.course_bind.2 (Prog.course_perform.2 ?_))
  simp only [answer, move_of_guard hid hs, written]
  exact ⟨fromZero_apply hs h, hf⟩

theorem callGateway_advances (hs : r.status = .reserved) (hzero : r.retryCount = 0) :
    Advances o id x r (callGateway o (toInstance id r) r.payload) r := by
  unfold callGateway
  refine advances_nextAttempt (advances_beginStep rfl hs (.inr (.inr hzero)) ?_)
  refine Prog.course_bind.2 (Prog.course_bind.2 (Prog.course_perform.2 ⟨fromZero_self _, ?_⟩))
  refine Prog.course_perform.2 ⟨fromZero_self _, ?_⟩
  refine settleGatewayOutcome_advances rfl rfl rfl rfl ?_
  simp only [hs, drivesLeft, budget]
  omega

theorem resolveGateway_advances (hs : r.status = .gatewayPending) :
    Advances o id x r (resolveGateway o (toInstance id r)) r := by
  unfold resolveGateway
  refine advances_orReturn rfl rfl (advances_call (c := .probe _) rfl ?_)
  refine settleGatewayOutcome_advances rfl hs rfl rfl ?_
  rw [hs]
  rfl

theorem beginCompensation_advances (hs : r.status = .gatewayFailed) :
    Advances o id x r (beginCompensation o (toInstance id r)) r := by
  refine advances_advance rfl hs rfl rfl (.inr (.inr rfl)) ?_
  simp only [hs, drivesLeft, budget]
  omega

theorem confirmCompensated_advances {cause : Error} (hs : r.status = .compensating) :
    Advances o id x r (confirmCompensated o (toInstance id r) cause) r := by
  refine advances_orReturn rfl rfl ?_
  have hne : (toInstance id r).status ≠ .compensated := by simp [toInstance, hs]
  rw [if_neg hne]
  refine advances_escalate rfl rfl rfl rfl ?_
  simp only [hs, drivesLeft, budget]
  omega

theorem reverseReserve_advances {p : Payload} {reserveTxID : UUID} (hs : r.status = .compensating) :
    Advances o id x r (reverseReserve o (toInstance id r) p reserveTxID) r := by
  unfold reverseReserve
  refine advances_nextAttempt (advances_call (c := .stamp) rfl ?_)
  refine advances_reverseTransactionRecorded rfl hs ?_ (fun _ => rfl) fun cause => ?_
  · simp only [hs, drivesLeft, budget, compensateCommit]
    omega
  · dsimp only
    split_ifs
    · exact confirmCompensated_advances hs
    · exact failCompensation_advances hs

theorem compensate_advances {p : Payload} (hs : r.status = .compensating) :
    Advances o id x r (compensate o (toInstance id r) p) r := by
  refine advances_orReturn rfl rfl ?_
  dsimp only
  split_ifs
  · refine advances_advance rfl hs rfl rfl (.inr (.inl rfl)) ?_
    simp only [hs, drivesLeft, budget]
    omega
  · exact reverseReserve_advances hs

theorem driveOne_advances (htype : r.sagaType = o.cfg.sagaType)
    (hcurrency : Ledger.currencyPattern r.payload.currency = true)
    (hreserved : r.status = .reserved → r.retryCount = 0) (hopen : r.status.terminal = false) :
    Advances o id x r (driveOne o (toInstance id r)) r := by
  have hsame : ¬(toInstance id r).sagaType ≠ o.cfg.sagaType := not_not.2 htype
  rw [driveOne, if_neg hsame]
  cases hs : r.status with
  | pending => simpa only [toInstance, hs] using reserve_advances hcurrency hs
  | reserved => simpa only [toInstance, hs] using callGateway_advances hs (hreserved hs)
  | gatewayPending => simpa only [toInstance, hs] using resolveGateway_advances hs
  | gatewaySucceeded => simpa only [toInstance, hs] using settle_advances hcurrency hs
  | gatewayFailed => simpa only [toInstance, hs] using beginCompensation_advances hs
  | compensating => simpa only [toInstance, hs] using compensate_advances hs
  | completed | compensated | failed | needsManualReview =>
    rw [hs] at hopen
    cases hopen

end Steps

section Driven
variable {o : Orchestrator} {id : UUID} {xs : ℕ → Outcome} {r : SagaRow}

/-- What stays true of a saga's row from drive to drive, and lets the next one make progress. -/
structure Drivable (o : Orchestrator) (r : SagaRow) : Prop where
  sagaType : r.sagaType = o.cfg.sagaType
  currency : Ledger.currencyPattern r.payload.currency = true
  reserved : r.status = .reserved → r.retryCount = 0

theorem Drivable.leased (h : Drivable o r) (now : Time) : Drivable o (leased o now r) :=
  ⟨h.sagaType, h.currency, h.reserved⟩

theorem driveOne_of_terminal (h : inst.status.terminal = true) : driveOne o inst = pure () := by
  unfold driveOne
  split_ifs
  · rfl
  · cases hs : inst.status <;> first | rfl | (rw [hs] at h; cases h)

theorem driveOnce_of_terminal {x : Outcome} (h : r.status.terminal = true) :
    driveOnce o id x r = leased o x.now r := by
  have hinst : (toInstance id (leased o x.now r)).status.terminal = true := h
  rw [driveOnce, driveOne_of_terminal hinst]
  rfl

theorem Drivable.throughout {x : Outcome} (h : Drivable o r) :
    (driveOne o (toInstance id r)).Throughout (answer id x) FromZero r := by
  cases hterminal : r.status.terminal with
  | true =>
    have hinst : (toInstance id r).status.terminal = true := hterminal
    rw [driveOne_of_terminal hinst]
    trivial
  | false =>
    exact (driveOne_advances h.sagaType h.currency h.reserved hterminal).throughout

theorem Drivable.driveOnce (h : Drivable o r) (id : UUID) (x : Outcome) :
    Drivable o (driveOnce o id x r) ∧
    drivesLeft o.cfg (driveOnce o id x r).status (driveOnce o id x r).retryCount ≤
      drivesLeft o.cfg r.status r.retryCount - 1 := by
  cases hterminal : r.status.terminal with
  | true =>
    rw [driveOnce_of_terminal hterminal]
    refine ⟨h.leased x.now, ?_⟩
    change drivesLeft o.cfg r.status r.retryCount ≤ _
    cases hs : r.status <;> first | exact Nat.zero_le _ | (rw [hs] at hterminal; cases hterminal)
  | false =>
    have hl := h.leased x.now
    obtain ⟨hpayload, htype, hreserved, hfewer⟩ : Nearer o.cfg (Payout.leased o x.now r)
        (Payout.driveOnce o id x r) :=
      (driveOne_advances hl.sagaType hl.currency hl.reserved hterminal).leave
    refine ⟨⟨htype.trans hl.sagaType, hpayload ▸ hl.currency, hreserved⟩, ?_⟩
    exact Nat.le_sub_one_of_lt hfewer

theorem Drivable.driven (h : Drivable o r) (id : UUID) (xs : ℕ → Outcome) (n : ℕ) :
    Drivable o (driven o id xs r n) ∧
    drivesLeft o.cfg (driven o id xs r n).status (driven o id xs r n).retryCount ≤
      drivesLeft o.cfg r.status r.retryCount - n := by
  induction n with
  | zero => exact ⟨h, le_refl _⟩
  | succ n ih =>
    obtain ⟨hnext, hleft⟩ := ih.1.driveOnce id (xs n)
    refine ⟨hnext, hleft.trans ?_⟩
    have := ih.2
    omega

theorem terminal_of_drivesLeft {cfg : Config} {status : Status} {retryCount : ℕ}
    (h : drivesLeft cfg status retryCount = 0) : status.terminal = true := by
  cases status <;> first | rfl | (simp only [drivesLeft, budget] at h; omega)

/-- Without a currency the ledger knows, the first step panics, whatever the answers. -/
theorem driveOnce_of_not_currency {x : Outcome} (hs : r.status = .pending)
    (hcurrency : ¬Ledger.currencyPattern r.payload.currency = true) :
    driveOnce o id x r = leased o x.now r := by
  have hpanic : mustNewMoney r.payload.amountMinor r.payload.currency = panic
      (Error.text (.errorf ("currency " ++ quote r.payload.currency) .invalidCurrency)) := by
    simp [mustNewMoney, Ledger.newMoney, hcurrency]
  simp only [driveOnce, driveOne, leased, toInstance, hs]
  split_ifs
  · rfl
  · simp only [reserve, hpanic]
    rfl

theorem driven_of_not_currency (hs : r.status = .pending)
    (hcurrency : ¬Ledger.currencyPattern r.payload.currency = true) (n : ℕ) :
    (driven o id xs r n).status = .pending ∧ (driven o id xs r n).payload = r.payload := by
  induction n with
  | zero => exact ⟨hs, rfl⟩
  | succ n ih =>
    rw [driven, driveOnce_of_not_currency ih.1 (ih.2 ▸ hcurrency)]
    exact ih

/-- Every drive of the saga ends, and does so within the budgets: after `driveBound` drives the
saga is in a terminal status, and every phase began with a retry counter of zero. -/
def Bounded (o : Orchestrator) (id : UUID) (r : SagaRow) : Prop :=
  ∀ xs : ℕ → Outcome,
    (∀ n, driveBound o.cfg.maxStepAttempts o.cfg.maxProbes o.cfg.maxCompensationAttempts ≤ n →
      (driven o id xs r n).status.terminal = true) ∧
    ∀ n, let r' := leased o (xs n).now (driven o id xs r n)
      (driveOne o (toInstance id r')).Throughout (answer id (xs n)) FromZero r'

theorem Drivable.bounded (h : Drivable o r) (hs : r.status = .pending) (hzero : r.retryCount = 0) :
    Bounded o id r := by
  intro xs
  refine ⟨fun n hn => ?_, fun n => ((h.driven id xs n).1.leased _).throughout⟩
  have hleft := (h.driven id xs n).2
  rw [hs, hzero] at hleft
  have hbound : drivesLeft o.cfg .pending 0 ≤
      driveBound o.cfg.maxStepAttempts o.cfg.maxProbes o.cfg.maxCompensationAttempts := by
    simp only [drivesLeft, budget, driveBound]
    omega
  refine terminal_of_drivesLeft (Nat.le_zero.1 (hleft.trans ?_))
  omega

end Driven

theorem start_row {o : Orchestrator} {now untilDeadline : Time} {id : NewUUID} {p : Payload}
    {principalID : String} {key : Option String} {db db' : DB} {r : SagaRow}
    (h : start o now untilDeadline id p principalID key db = .ok (inst, db'))
    (hnew : db.sagaInstances.find? id.1 = none) (hr : db'.sagaInstances.find? id.1 = some r) :
    r.sagaType = o.cfg.sagaType ∧ r.status = .pending ∧ r.retryCount = 0 ∧ r.payload = p := by
  obtain ⟨_, -, h⟩ := bind_eq_ok.1 h
  unfold Saga.create at h
  split at h
  · obtain ⟨-, rfl⟩ := Prod.mk.inj (Except.ok.inj h)
    rw [hnew] at hr
    cases hr
  · dsimp only at h
    split at h
    · cases h
    · next sagaInstances hinsert =>
      obtain ⟨-, rfl⟩ := Prod.mk.inj (Except.ok.inj h)
      rw [Table.find?_insert hinsert, if_pos rfl] at hr
      obtain rfl := Option.some.inj hr
      exact ⟨rfl, rfl, rfl, rfl⟩

/-- A saga that `Start` accepted ends within its budgets, whatever the ledger and the gateway
answer, if and only if its currency is one that the ledger's `NewMoney` accepts. -/
theorem saga_bounded_iff (id : NewUUID) (p : Payload) {o : Orchestrator} {now untilDeadline : Time}
    {principalID : String} {key : Option String} {db db' : DB} {inst : Instance} {r : SagaRow}
    (h : start o now untilDeadline id p principalID key db = .ok (inst, db'))
    (hnew : db.sagaInstances.find? id.1 = none) (hr : db'.sagaInstances.find? id.1 = some r) :
    Bounded o id.1 r ↔ Ledger.currencyPattern p.currency = true := by
  obtain ⟨htype, hs, hzero, rfl⟩ := start_row h hnew hr
  constructor
  · intro hbounded
    by_contra hcurrency
    -- Any answers do: the saga never leaves its first status.
    have xs : ℕ → Outcome := fun _ => ⟨0, 0, ⟨0, 0, 0⟩, 0, [], none, .error ⟨[], ""⟩, .transport ""⟩
    have hend := (hbounded xs).1 _ (le_refl _)
    rw [(driven_of_not_currency hs hcurrency _).1] at hend
    cases hend
  · intro hcurrency
    exact Drivable.bounded ⟨htype, hcurrency, fun hres => absurd (hs.symm.trans hres)
      Status.noConfusion⟩ hs hzero

def sampleIn (currency : String) : Payload where
  customerWalletID := 2
  suspenseID := 3
  merchantPayableID := 4
  feeRevenueID := 5
  amountMinor := 500
  feeMinor := 20
  currency := currency
  externalRef := ""

def sampleBudgets : Orchestrator := ⟨⟨"t", "w", 1, 10, 10, 3, 3, 6⟩⟩

theorem saga_bounded_iff_inr :
    ∃ inst db r, start sampleBudgets 0 10 ⟨7, by decide⟩ (sampleIn "INR") "p" none .empty =
        .ok (inst, db) ∧
      db.sagaInstances.find? 7 = some r ∧ Bounded sampleBudgets 7 r := by
  obtain ⟨inst, db, r, hstart, hr⟩ : ∃ inst db r,
      start sampleBudgets 0 10 ⟨7, by decide⟩ (sampleIn "INR") "p" none .empty = .ok (inst, db) ∧
      db.sagaInstances.find? 7 = some r := ⟨_, _, _, rfl, rfl⟩
  exact ⟨inst, db, r, hstart, hr, (saga_bounded_iff _ _ hstart rfl hr).2 (by decide)⟩

/-- The payload passes `validate` and the saga is created; no answers ever end it. -/
theorem saga_in_lower_case_never_ends :
    ∃ inst db r, start sampleBudgets 0 10 ⟨7, by decide⟩ (sampleIn "usd") "p" none .empty =
        .ok (inst, db) ∧
      db.sagaInstances.find? 7 = some r ∧
      ∀ xs n, (driven sampleBudgets 7 xs r n).status = .pending :=
  ⟨_, _, _, rfl, rfl, fun _ n => (driven_of_not_currency rfl (by decide) n).1⟩

end LedgerCore.Payout
