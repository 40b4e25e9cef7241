import LedgerCore.Program.Trace
import LedgerCore.Ledger.EntryOrder
import LedgerCore.Payout.Bounded
import LedgerCore.Payout.Machine
import LedgerCore.Payout.Verdicts

/-! What the steps that move money ask of the ledger: the amounts that a payload allows. -/
namespace LedgerCore.Payout
open LedgerCore.Program LedgerCore.Saga
open LedgerCore.Ledger (sideTotal currencyPattern)

/-- The ledger's own validation passes the request, and each side of it is the payout's amount. -/
structure Whole (p : Payload) (req : Ledger.TransactionRequest) : Prop where
  valid : req.validate = .ok ()
  debits : sideTotal .debit (req.entries.map Ledger.EntryRequest.leg) = p.amountMinor.toInt
  credits : sideTotal .credit (req.entries.map Ledger.EntryRequest.leg) = p.amountMinor.toInt

def PostsWhole (p : Payload) : Call → Prop
  | .postTransaction req => Whole p req
  | _ => True

/-- A step that gets to a posting, posts nothing but the payout's amount, and never panics. -/
def Builds (p : Payload) (step : OrchM Unit) : Prop :=
  Tame (PostsWhole p) step ∧ ∃ req, step.Makes (.postTransaction req)

section Steps
variable {o : Orchestrator} {inst : Instance} {p : Payload}

theorem feeEntries_of_pattern (h : currencyPattern p.currency) :
    feeEntries p = pure (if p.feeMinor > 0 then
      [⟨p.feeRevenueID, .credit, ⟨p.feeMinor, p.currency⟩⟩] else []) := by
  unfold feeEntries
  split_ifs
  · rw [mustNewMoney_eq_pure h]
    rfl
  · rfl

/-- A forward step whose amounts are there: an attempt is numbered, and the legs are posted. -/
def posting (o : Orchestrator) (inst : Instance) (p : Payload) (step : Step)
    (legs : List Ledger.EntryRequest) (record : UUID × ℕ → Stamp → Ledger.Recorder) : OrchM Unit := do
  let attempt ← nextAttempt inst.id step .forward
  let ev ← stamp
  let posted ← postTransaction (stepRequest inst p step legs (record attempt ev))
  match posted with
  | .ok _ => pure ()
  | .error cause => failForwardStep o inst step attempt.1 attempt.2 cause

theorem reserve_eq_posting (h : currencyPattern p.currency) :
    reserve o inst p = posting o inst p .reserve (reserveLegs p) fun attempt ev =>
      recordStep o inst p p.amountMinor ev (reserveCommit attempt.1 attempt.2) := by
  simp only [reserve, mustNewMoney_eq_pure h]
  rfl

theorem settle_eq_posting (h : currencyPattern p.currency) :
    settle o inst p = posting o inst p .settle (settleLegs p) fun attempt ev =>
      recordStep o inst p (-p.amountMinor) ev (settleCommit attempt.1 attempt.2) := by
  simp only [settle, mustNewMoney_eq_pure h, feeEntries_of_pattern h]
  rfl

theorem failForwardStep_tame (step : Step) (attemptID : UUID) (number : ℕ) (cause : Error) :
    Tame (PostsWhole p) (failForwardStep o inst step attemptID number cause) := by
  have hadvance (t : Transition) : Tame (PostsWhole p) (Store.advance t) := tame_advance trivial
  refine ⟨⟨trivial, fun _ => ?_⟩, fun _ => ?_⟩
  · change (if _ then _ else _ : OrchM Unit).OnlyCalls _
    split_ifs <;> exact (hadvance _).1
  · change (if _ then _ else _ : OrchM Unit).OnlyFails _
    split_ifs <;> exact (hadvance _).2

theorem nextAttempt_tame (step : Step) (direction : Saga.Direction) :
    (nextAttempt inst.id step direction).OnlyCalls (PostsWhole p) ∧
      (nextAttempt inst.id step direction).OnlyFails Failure.Returned := by
  constructor
  · exact onlyCalls_nextAttempt trivial trivial
  · refine Prog.OnlyFails.bind (fun r => onlyFails_orReturn r) fun number => ?_
    exact Prog.OnlyFails.bind (fun r => onlyFails_orReturn _) fun id => trivial

theorem posting_builds {step : Step} {legs : List Ledger.EntryRequest}
    {record : UUID × ℕ → Stamp → Ledger.Recorder}
    (h : ∀ attempt ev, Whole p (stepRequest inst p step legs (record attempt ev))) :
    Builds p (posting o inst p step legs record) := by
  obtain ⟨hcalls, hfails⟩ :
      (nextAttempt inst.id step .forward).OnlyCalls (PostsWhole p) ∧
        (nextAttempt inst.id step .forward).OnlyFails Failure.Returned :=
    nextAttempt_tame step .forward
  have htail (posted : Except Error Ledger.Transaction) (attempt : UUID × ℕ) :
      Tame (PostsWhole p) (match posted with
        | .ok _ => pure ()
        | .error cause => failForwardStep o inst step attempt.1 attempt.2 cause) := by
    cases posted with
    | ok t => exact ⟨trivial, trivial⟩
    | error cause => exact failForwardStep_tame ..
  refine ⟨⟨hcalls.bind fun attempt => ?_, hfails.bind fun attempt => ?_⟩, ?_⟩
  · exact ⟨trivial, fun ev => ⟨h attempt ev, fun posted => (htail posted attempt).1⟩⟩
  · exact fun ev posted => (htail posted attempt).2
  · -- The attempt gets a number and an id, and the event its stamp.
    exact ⟨_, .inr ⟨.ok 1, .inr ⟨.ok 1, .inr ⟨⟨0, 0, 1⟩, .inl rfl⟩⟩⟩⟩

theorem pos_of_toInt {a : Int64} (h : 0 < a.toInt) : 0 < a := by
  rwa [Int64.lt_iff_toInt_lt, Ledger.toInt_zero]

theorem whole_of_legs {step : Step} {legs : List Ledger.EntryRequest} {record : Ledger.Recorder}
    (htwo : 2 ≤ legs.length) (hpattern : currencyPattern p.currency)
    (hlegs : ∀ e ∈ legs, e.Admissible p.currency)
    (hdebits : sideTotal .debit (legs.map Ledger.EntryRequest.leg) = p.amountMinor.toInt)
    (hcredits : sideTotal .credit (legs.map Ledger.EntryRequest.leg) = p.amountMinor.toInt) :
    Whole p (stepRequest inst p step legs record) := by
  refine ⟨Ledger.TransactionRequest.validate_iff.2 ⟨rfl, htwo, ⟨_, hpattern, hlegs⟩,
    hdebits.trans hcredits.symm, ?_⟩, hdebits, hcredits⟩
  exact hdebits ▸ p.amountMinor.toInt_lt

theorem reserve_whole (h : Validated p) (hpattern : currencyPattern p.currency)
    (record : Ledger.Recorder) : Whole p (stepRequest inst p .reserve (reserveLegs p) record) := by
  have hamount : 0 < p.amountMinor := pos_of_toInt (h.fee_nonneg.trans_lt h.fee_lt)
  refine whole_of_legs (le_refl 2) hpattern (fun e he => ?_) ?_ ?_
  · simp only [reserveLegs, List.mem_cons, List.not_mem_nil, or_false] at he
    rcases he with rfl | rfl
    · exact ⟨h.customerWallet, rfl, hamount, rfl⟩
    · exact ⟨h.suspense, rfl, hamount, rfl⟩
  · simp [reserveLegs, Ledger.EntryRequest.leg, sideTotal]
  · simp [reserveLegs, Ledger.EntryRequest.leg, sideTotal]

theorem settle_whole (h : Validated p) (hpattern : currencyPattern p.currency)
    (record : Ledger.Recorder) : Whole p (stepRequest inst p .settle (settleLegs p) record) := by
  have hamount : 0 < p.amountMinor := pos_of_toInt (h.fee_nonneg.trans_lt h.fee_lt)
  have hmerchant := h.toInt_merchantMinor
  have hpositive : 0 < merchantMinor p := pos_of_toInt (by rw [hmerchant]; exact sub_pos.2 h.fee_lt)
  have hfee : ¬p.feeMinor > 0 → p.feeMinor.toInt = 0 := by
    intro hnot
    rw [gt_iff_lt, Int64.lt_iff_toInt_lt, Ledger.toInt_zero, not_lt] at hnot
    exact le_antisymm hnot h.fee_nonneg
  refine whole_of_legs ?_ hpattern (fun e he => ?_) ?_ ?_
  · simp [settleLegs]
  · simp only [settleLegs, List.mem_cons] at he
    rcases he with rfl | rfl | he
    · exact ⟨h.suspense, rfl, hamount, rfl⟩
    · exact ⟨h.merchantPayable, rfl, hpositive, rfl⟩
    · split_ifs at he with hpos
      · rw [List.mem_singleton.1 he]
        exact ⟨h.feeRevenue, rfl, hpos, rfl⟩
      · cases he
  · unfold settleLegs
    split_ifs <;> simp [Ledger.EntryRequest.leg, sideTotal]
  · unfold settleLegs
    split_ifs with hpos
    · simp [Ledger.EntryRequest.leg, sideTotal, hmerchant]
    · simp [Ledger.EntryRequest.leg, sideTotal, hmerchant, hfee hpos]

theorem reserve_panics (h : ¬currencyPattern p.currency) :
    ¬(reserve o inst p).OnlyFails Failure.Returned := by
  have hpanic : ∃ text, mustNewMoney p.amountMinor p.currency = panic text := by
    rw [mustNewMoney, Ledger.newMoney, if_neg h]
    exact ⟨_, rfl⟩
  obtain ⟨text, hpanic⟩ := hpanic
  intro hfails
  simp only [reserve, hpanic] at hfails
  exact hfails (.ok 1) (.ok 1)

end Steps

/-- The reserve and the settlement of a payload that `Start` accepts build their amounts without a
panic, and post what the ledger's own validation passes, with the payout's amount on both sides, if
and only if `NewMoney` accepts the payload's currency. -/
theorem amounts_iff (o : Orchestrator) (inst : Instance) {p : Payload} (h : validate p = .ok ()) :
    (Builds p (reserve o inst p) ∧ Builds p (settle o inst p)) ↔
      currencyPattern p.currency = true := by
  have hvalidated := validate_eq_ok h
  constructor
  · rintro ⟨⟨⟨-, hfails⟩, -⟩, -⟩
    by_contra hpattern
    exact reserve_panics hpattern hfails
  · intro hpattern
    rw [reserve_eq_posting hpattern, settle_eq_posting hpattern]
    exact ⟨posting_builds fun _ _ => reserve_whole hvalidated hpattern _,
      posting_builds fun _ _ => settle_whole hvalidated hpattern _⟩

theorem amounts_iff_inr : validate (sampleIn "INR") = .ok () ∧ ∀ o inst,
    Builds (sampleIn "INR") (reserve o inst (sampleIn "INR")) ∧
      Builds (sampleIn "INR") (settle o inst (sampleIn "INR")) :=
  ⟨rfl, fun o inst => (amounts_iff o inst rfl).2 (by decide)⟩

/-- The payload passes `validate`, and whatever the answers, the reserve ends in a panic. -/
theorem lower_case_reserve_panics : validate (sampleIn "usd") = .ok () ∧ ∀ o inst x r, ∃ text,
    ((reserve o inst (sampleIn "usd")).finish (answer inst.id x) r).1 = .error (.panic text) :=
  ⟨rfl, fun _ _ _ _ => ⟨_, rfl⟩⟩

end LedgerCore.Payout
