import LedgerCore.Payout.Steps

/-! What the gateway step makes of an answer: no panic, and a move that the answer warrants. -/
namespace LedgerCore.Payout
open LedgerCore.Program LedgerCore.Saga

/-- The calls by which the gateway step of a saga may act on a verdict: its attempt is closed
with the outcome, and the saga leaves `GATEWAY_PENDING` for the state that the outcome names.
On no outcome the saga stays to be probed again, or goes to a human when `maxProbes` probes are
spent. -/
def Warranted (o : Orchestrator) (inst : Instance) (v : Gateway.Verdict) : Call → Prop
  | .stamp => v = .unknown
  | .finishAttempt f => v = .made ∧ f.status = .succeeded ∨ v = .refused ∧ f.status = .failed
  | .advance t => t.sagaID = inst.id ∧ t.source = .gatewayPending ∧
    match v with
    | .made => t.target = .gatewaySucceeded
    | .refused => t.target = .gatewayFailed
    | .unknown => t.target = .gatewayPending ∧ t.retryCount = inst.retryCount + 1 ∧
        inst.retryCount + 1 < o.cfg.maxProbes
  | .escalate _ t _ => v = .unknown ∧ t.sagaID = inst.id ∧ t.source = .gatewayPending ∧
      t.target = .needsManualReview ∧ o.cfg.maxProbes ≤ inst.retryCount + 1
  | _ => False

def Failure.Returned : Failure → Prop
  | .error _ => True
  | .panic _ => False

theorem onlyFails_orReturn {α : Type} (x : Except Error α) :
    (orReturn x).OnlyFails Failure.Returned := by
  cases x <;> trivial

/-- A program that makes only the calls in `P` and ends without a panic. -/
def Tame (P : Call → Prop) (p : OrchM Unit) : Prop :=
  p.OnlyCalls P ∧ p.OnlyFails Failure.Returned

variable {o : Orchestrator} {inst : Instance} {v : Gateway.Verdict}

section Tame
variable {P : Call → Prop} {p q : OrchM Unit}

theorem Tame.bind (hp : Tame P p) (hq : Tame P q) : Tame P (p >>= fun _ => q) :=
  ⟨hp.1.bind fun _ => hq.1, hp.2.bind fun _ => hq.2⟩

theorem tame_advance {t : Transition} (h : P (.advance t)) : Tame P (Store.advance t) :=
  ⟨⟨h, fun r => onlyCalls_orReturn r⟩, fun r => onlyFails_orReturn r⟩

theorem tame_finish {attemptID : UUID} {status : StepStatus} {txID : Option UUID} {failure : String}
    (h : ∀ f : FinishAttempt, f.status = status → P (.finishAttempt f)) :
    Tame P (finish attemptID status txID failure) := by
  unfold finish
  split_ifs
  · exact ⟨trivial, trivial⟩
  · exact ⟨⟨h _ rfl, fun r => onlyCalls_orReturn r⟩, fun r => onlyFails_orReturn r⟩

theorem tame_escalate {e : Escalation} (hstamp : P .stamp)
    (h : ∀ eventID (t : Transition) alert, t.sagaID = inst.id → t.source = e.source →
      t.target = .needsManualReview → P (.escalate eventID t alert)) :
    Tame P (escalate o inst e) :=
  ⟨⟨hstamp, fun _ => ⟨h _ _ _ rfl rfl rfl, fun r => onlyCalls_orReturn r⟩⟩,
    fun _ r => onlyFails_orReturn r⟩

end Tame

theorem deferAmbiguity_warranted (callErr : Error) :
    Tame (Warranted o inst .unknown) (deferAmbiguity o inst callErr) := by
  unfold deferAmbiguity
  dsimp only
  split_ifs with hspent
  · exact tame_escalate rfl fun _ _ _ hid hsource htarget => ⟨rfl, hid, hsource, htarget, hspent⟩
  · exact tame_advance ⟨rfl, rfl, rfl, rfl, not_le.1 hspent⟩

/-- What the step does follows the reading of the result, case by case. -/
theorem settleGatewayOutcome_warranted (attemptID : UUID) {x : Except Error Gateway.Payment}
    (h : Gateway.Reads x v) : Tame (Warranted o inst v) (settleGatewayOutcome o inst attemptID x) := by
  cases h with
  | made hsucceeded =>
    simp only [settleGatewayOutcome, hsucceeded, if_true]
    exact (tame_finish fun _ hf => .inl ⟨rfl, hf⟩).bind (tame_advance ⟨rfl, rfl, rfl⟩)
  | refused hconclusive =>
    simp only [settleGatewayOutcome, hconclusive, if_true]
    exact (tame_finish fun _ hf => .inr ⟨rfl, hf⟩).bind (tame_advance ⟨rfl, rfl, rfl⟩)
  | unknown hunknown =>
    simp only [settleGatewayOutcome, hunknown]
    exact deferAmbiguity_warranted _

/-- The client reads every answer for what it says, and the gateway step then never panics and
moves the saga only as the answer warrants. -/
theorem gateway_answers_are_three_valued (o : Orchestrator) (inst : Instance) (attemptID : UUID)
    (req : Gateway.PaymentRequest) (key : String) (x : Gateway.Exchange) :
    (Gateway.Reads (Gateway.HTTPClient.pay req x) x.verdict ∧
      Gateway.Reads (Gateway.HTTPClient.probe key x) x.verdict) ∧
    Tame (Warranted o inst x.verdict)
      (settleGatewayOutcome o inst attemptID (Gateway.HTTPClient.pay req x)) ∧
    Tame (Warranted o inst x.verdict)
      (settleGatewayOutcome o inst attemptID (Gateway.HTTPClient.probe key x)) := by
  have hpay := Gateway.HTTPClient.pay_reads req x
  have hprobe := Gateway.HTTPClient.probe_reads key x
  exact ⟨⟨hpay, hprobe⟩, settleGatewayOutcome_warranted attemptID hpay,
    settleGatewayOutcome_warranted attemptID hprobe⟩

end LedgerCore.Payout
