import LedgerCore.Payout.Calls

/-! The system of orchestrators makes the machine's moves and no others. -/
namespace LedgerCore.Payout
open LedgerCore.Program LedgerCore.Saga

variable {R : Rules} {db db' : DB} {l : List Posting}

section Bookkeeping
variable {E : Status → Status → Prop} {o : Orchestrator} {inst : Instance}

/-- Reads of the store, rows that name no transaction, and transitions along `E`. -/
def Bookkeeping (E : Status → Status → Prop) : Call → Prop
  | .advance t => E t.source t.target
  | .escalate _ t _ => E t.source t.target
  | .recordAttempt a => a.status ≠ .succeeded
  | .finishAttempt f => f.transactionID = none
  | .beginStep _ _ | .postTransaction _ | .reverseTransactionRecorded _ _ _ | .paySend _
  | .payAwait _ _ | .probe _ => False
  | _ => True

theorem escalate_books {e : Escalation} (h : E e.source .needsManualReview) :
    (escalate o inst e).OnlyCalls (Bookkeeping E) :=
  .bind (Prog.onlyCalls_perform trivial) fun _ => .bind (Prog.onlyCalls_perform h) onlyCalls_orReturn

/-- A failed step stays where it is, or gives up: a reserve fails the saga, a settle turns it
around. -/
theorem failForwardStep_books {step : Step} {attemptID : UUID} {number : ℕ} {cause : Error}
    (hstay : E inst.status inst.status)
    (hfail : step = .reserve → E inst.status .failed)
    (hturn : step ≠ .reserve → terminalLedgerError cause = true ∨
      o.cfg.maxStepAttempts ≤ inst.retryCount + 1 → E inst.status .compensating) :
    (failForwardStep o inst step attemptID number cause).OnlyCalls (Bookkeeping E) := by
  refine .bind (Prog.onlyCalls_perform fun h => nomatch h) fun _ => ?_
  dsimp only
  split_ifs with hterminal hstep
  · exact onlyCalls_advance hstay
  · exact onlyCalls_advance (hfail hstep)
  · exact onlyCalls_advance (hturn hstep (by simpa [or_iff_not_imp_left] using hterminal))

theorem failCompensation_books {attemptID : UUID} {number : ℕ} {cause : Error}
    (hescalate : E .compensating .needsManualReview) (hstay : E .compensating .compensating) :
    (failCompensation o inst attemptID number cause).OnlyCalls (Bookkeeping E) := by
  refine .bind (Prog.onlyCalls_perform fun h => nomatch h) fun _ => ?_
  dsimp only
  split_ifs
  · exact escalate_books hescalate
  · exact onlyCalls_advance hstay

theorem deferAmbiguity_books {callErr : Error} (hescalate : E .gatewayPending .needsManualReview)
    (hstay : E .gatewayPending .gatewayPending) :
    (deferAmbiguity o inst callErr).OnlyCalls (Bookkeeping E) := by
  unfold deferAmbiguity
  dsimp only
  split_ifs
  · exact escalate_books hescalate
  · exact onlyCalls_advance hstay

/-- A payment fails by a conclusive error only. -/
theorem settleGatewayOutcome_books {attemptID : UUID} {outcome : Except Error Gateway.Payment}
    (hsucceed : E .gatewayPending .gatewaySucceeded)
    (hfail : ∀ e, outcome = .error e → Gateway.conclusive (some e) = true →
      E .gatewayPending .gatewayFailed)
    (hescalate : E .gatewayPending .needsManualReview)
    (hstay : E .gatewayPending .gatewayPending) :
    (settleGatewayOutcome o inst attemptID outcome).OnlyCalls (Bookkeeping E) := by
  cases outcome with
  | ok payment =>
    simp only [settleGatewayOutcome]
    split_ifs
    · exact .bind (onlyCalls_finish fun _ => id) fun _ => onlyCalls_advance hsucceed
    · trivial
  | error callErr =>
    simp only [settleGatewayOutcome]
    split_ifs with hconclusive
    · exact .bind (onlyCalls_finish fun _ => id) fun _ =>
        onlyCalls_advance (hfail callErr rfl hconclusive)
    · exact deferAmbiguity_books hescalate hstay

end Bookkeeping

section Plain
variable {refund : Prop} {o : Orchestrator} {inst : Instance}

theorem Bookkeeping.plain {c : Call} (h : Bookkeeping (Edge refund) c) : Plain refund c := by
  cases c <;> first | exact h | exact h.elim

theorem settleGatewayOutcome_plain {attemptID : UUID} (outcome : Except Error Gateway.Payment) :
    (settleGatewayOutcome o inst attemptID outcome).OnlyCalls (Plain refund) :=
  (settleGatewayOutcome_books trivial (fun _ _ _ => trivial) trivial trivial).mono fun _ =>
    Bookkeeping.plain

theorem callGateway_plain (p : Payload) : (callGateway o inst p).OnlyCalls (Plain refund) :=
  .bind (onlyCalls_nextAttempt trivial trivial) fun _ =>
    .bind (.bind (Prog.onlyCalls_perform trivial) onlyCalls_orReturn) fun _ =>
      .bind (.bind (Prog.onlyCalls_perform trivial) fun _ => Prog.onlyCalls_perform trivial)
        settleGatewayOutcome_plain

theorem resolveGateway_plain : (resolveGateway o inst).OnlyCalls (Plain refund) :=
  .bind (.bind (Prog.onlyCalls_perform trivial) onlyCalls_orReturn) fun _ =>
    .bind (Prog.onlyCalls_perform trivial) settleGatewayOutcome_plain

theorem plain_asks {worker : Worker} {v : View} {c : Call} (h : Plain refund c) :
    Asks refund worker v c := by
  cases c <;> first | exact h | exact h.elim

end Plain

section Keeps
variable {worker : Worker} {o : Orchestrator} {inst : Instance} {w : World}

theorem Known.later {v v' : View} (h : Known inst v) (hlater : Later R v v') : Known inst v' := by
  obtain ⟨st, hst⟩ := h
  obtain ⟨st', hst', -⟩ := hlater.saga (P := fun _ => True) (fun _ _ => trivial) ⟨st, hst, trivial⟩
  exact ⟨st', hst'⟩

theorem plain_keeps {α : Type} {p : OrchM α} (h : p.OnlyCalls (Plain R.refund)) :
    p.Keeps (discipline R) worker (fun _ _ => True) w :=
  h.keeps (fun _ _ => plain_asks) w

theorem books_keeps {α : Type} {p : OrchM α} (h : p.OnlyCalls (Bookkeeping (Edge R.refund))) :
    p.Keeps (discipline R) worker (fun _ _ => True) w :=
  plain_keeps (h.mono fun _ => Bookkeeping.plain)

theorem mustNewMoney_keeps (amount : Int64) (currency : String) :
    (mustNewMoney amount currency).Keeps (discipline R) worker
      (fun m _ => m = ⟨amount, currency⟩) w := by
  unfold mustNewMoney
  split
  · next m hm => exact fun _ _ _ => (Ledger.newMoney_eq_ok.1 hm).2
  · trivial

theorem posting_keeps {req : Ledger.TransactionRequest} {onError : Error → OrchM Unit}
    (hasks : ∀ w' : World, Later R w.view w'.view → Asks R.refund worker w'.view (.postTransaction req))
    (herror : ∀ e w', R.refund ∨ RetriesSettle worker (.postTransaction req) (.error e) →
      (onError e).Keeps (discipline R) worker (fun _ _ => True) w') :
    (postTransaction req >>= fun posted => match posted with
      | .ok _ => pure ()
      | .error cause => onError cause).Keeps (discipline R) worker (fun _ _ => True) w := by
  refine Prog.keeps_perform_bind (fun w' hlater _ => hasks w' hlater) ?_
  intro w' r w'' _ _ heffect _ _
  cases r with
  | ok t => exact fun _ _ _ => trivial
  | error e => exact herror e w'' heffect.2

theorem reserve_keeps (hinv : w.view.Inv) (hknown : Known inst w.view)
    (hstatus : inst.status = .pending) :
    (reserve o inst inst.payload).Keeps (discipline R) ⟨o, inst⟩ (fun _ _ => True) w := by
  refine .bind (books_keeps (onlyCalls_nextAttempt trivial trivial)) hinv
    fun ⟨attemptID, number⟩ w₁ h₁ hinv₁ _ => ?_
  refine .bind (mustNewMoney_keeps ..) hinv₁ fun amount w₂ h₂ hinv₂ hamount => ?_
  subst hamount
  refine .bind (plain_keeps (Prog.onlyCalls_perform trivial)) hinv₂ fun ev w₃ h₃ _ _ => ?_
  refine posting_keeps (fun w' h' => ?_) fun e w' _ => books_keeps ?_
  · exact ⟨hknown.later (h₁.trans (h₂.trans (h₃.trans h'))), attemptID, number, ev,
      .inl ⟨hstatus, rfl⟩⟩
  · refine failForwardStep_books ?_ (fun _ => ?_) fun h => absurd rfl h
    · rw [hstatus]
      trivial
    · rw [hstatus]
      trivial

theorem feeEntries_keeps (p : Payload) :
    (feeEntries p).Keeps (discipline R) worker (fun fees _ => fees =
      if p.feeMinor > 0 then [⟨p.feeRevenueID, .credit, ⟨p.feeMinor, p.currency⟩⟩] else []) w := by
  unfold feeEntries mustNewMoney
  split_ifs
  · split
    · next m hm =>
      obtain rfl := (Ledger.newMoney_eq_ok.1 hm).2
      exact fun _ _ _ => rfl
    · trivial
  · exact fun _ _ _ => rfl

theorem settle_keeps (hinv : w.view.Inv) (hknown : Known inst w.view)
    (hstatus : inst.status = .gatewaySucceeded) :
    (settle o inst inst.payload).Keeps (discipline R) ⟨o, inst⟩ (fun _ _ => True) w := by
  refine .bind (books_keeps (onlyCalls_nextAttempt trivial trivial)) hinv
    fun ⟨attemptID, number⟩ w₁ h₁ hinv₁ _ => ?_
  refine .bind (mustNewMoney_keeps ..) hinv₁ fun amount w₂ h₂ hinv₂ hamount => ?_
  refine .bind (mustNewMoney_keeps ..) hinv₂ fun merchant w₃ h₃ hinv₃ hmerchant => ?_
  refine .bind (feeEntries_keeps _) hinv₃ fun fees w₄ h₄ hinv₄ hfees => ?_
  subst hamount hmerchant hfees
  refine .bind (plain_keeps (Prog.onlyCalls_perform trivial)) hinv₄ fun ev w₅ h₅ _ _ => ?_
  refine posting_keeps (fun w' h' => ?_) fun e w' hretry => books_keeps ?_
  · exact ⟨hknown.later (h₁.trans (h₂.trans (h₃.trans (h₄.trans (h₅.trans h'))))), attemptID,
      number, ev, .inr ⟨hstatus, rfl⟩⟩
  · refine failForwardStep_books ?_ (fun h => nomatch h) fun _ hgiveUp => ?_
    · rw [hstatus]
      trivial
    · rw [hstatus]
      refine hretry.resolve_right fun hretries => ?_
      obtain ⟨hterminal, hbudget⟩ := hretries hstatus
      rcases hgiveUp with h | h
      · simp [hterminal] at h
      · exact absurd hbudget (not_lt.2 h)

/-- A compensation was started in a status that the saga can only leave for others of its kind. -/
def Reverses (inst : Instance) (v : View) : Prop :=
  ∃ st, v.saga inst.id = some ⟨inst.payload, st⟩ ∧ Reversing st

theorem Reverses.later {v v' : View} (h : Reverses inst v) (hlater : Later R v v') :
    Reverses inst v' :=
  hlater.saga Reversing.closed h

theorem Reverses.reserved {v : View} (h : Reverses inst v) (hinv : v.Inv) :
    ∃ t, v.reserves inst.id = [t] ∧ t ≠ UUID.nil := by
  obtain ⟨st, hst, hr⟩ := h
  have hmoney := hinv.money _ _ _ hst
  cases st with
  | compensating =>
    obtain ⟨t, ht⟩ := hmoney
    exact ⟨t, ht.reserves, ht.nonnil⟩
  | compensated =>
    obtain ⟨t, _, ht, -⟩ := hmoney
    exact ⟨t, ht.reserves, ht.nonnil⟩
  | needsManualReview =>
    obtain ⟨t, ht⟩ := hmoney
    exact ⟨t, ht.reserves, ht.nonnil⟩
  | _ => exact hr.elim

theorem attempts_keeps (hrev : Reverses inst w.view) :
    (Store.attempts inst.id).Keeps (discipline R) worker
      (fun attempts w => w.view.reserves inst.id = [reserveTransactionID attempts] ∧
        reserveTransactionID attempts ≠ UUID.nil) w := by
  refine Prog.keeps_perform_bind (fun _ _ _ => trivial) ?_
  rintro w₁ r w₂ h₁ hinv₁ ⟨⟨ch, hcall⟩ | ⟨e, hfault, -⟩, -⟩ _ _
  · cases hcall
    obtain ⟨t, ht, hnil⟩ := (hrev.later h₁).reserved hinv₁
    intro w' h' _
    rw [reserveTransactionID_attempts ht]
    exact ⟨h'.reserves hinv₁ ht, hnil⟩
  · cases hfault
    trivial

theorem get_keeps (hrev : Reverses inst w.view) :
    (Store.get inst.id).Keeps (discipline R) worker (fun current _ => Reversing current.status) w := by
  refine Prog.keeps_perform_bind (fun _ _ _ => trivial) ?_
  rintro w₁ r w₂ h₁ _ ⟨⟨ch, hcall⟩ | ⟨e, hfault, -⟩, -⟩ _ _
  · obtain ⟨st, hst, hr⟩ := hrev.later h₁
    obtain ⟨row, hrow, hprogress⟩ := Option.map_eq_some_iff.1 hst
    have hget : Saga.get inst.id w₁.db = .ok (toInstance inst.id row) := by
      simp only [Saga.get, hrow]
    simp only [World.call, hget] at hcall
    cases hcall
    intro _ _ _
    obtain rfl := congrArg Progress.status hprogress
    exact hr
  · cases hfault
    trivial

theorem confirmCompensated_keeps {cause : Error} (hinv : w.view.Inv) (hrev : Reverses inst w.view) :
    (confirmCompensated o inst cause).Keeps (discipline R) worker (fun _ _ => True) w := by
  refine .bind (get_keeps hrev) hinv fun current w₁ _ _ hcurrent => ?_
  split_ifs with hdone
  · exact fun _ _ _ => trivial
  · refine books_keeps (escalate_books ?_)
    revert hcurrent hdone
    cases current.status <;> simp [Reversing, Edge]

theorem reverseReserve_keeps {reserveTxID : UUID} (hinv : w.view.Inv)
    (hrev : Reverses inst w.view) (hstatus : inst.status = .compensating)
    (hreserve : w.view.reserves inst.id = [reserveTxID]) :
    (reverseReserve o inst inst.payload reserveTxID).Keeps (discipline R) ⟨o, inst⟩
      (fun _ _ => True) w := by
  refine .bind (books_keeps (onlyCalls_nextAttempt trivial trivial)) hinv
    fun ⟨attemptID, number⟩ w₁ h₁ hinv₁ _ => ?_
  refine .bind (plain_keeps (Prog.onlyCalls_perform trivial)) hinv₁ fun ev w₂ h₂ _ _ => ?_
  refine Prog.keeps_perform_bind (fun w' h' _ => ?_) ?_
  · have hlater : Later R w.view w'.view := h₁.trans (h₂.trans h')
    obtain ⟨st, hst, -⟩ := hrev.later hlater
    exact ⟨⟨st, hst⟩, hstatus, hlater.reserves hinv hreserve, attemptID, number, ev, rfl⟩
  · intro w₃ r w₄ _ _ _ h₄ hinv₄
    cases r with
    | ok t => exact fun _ _ _ => trivial
    | error cause =>
      dsimp only
      split_ifs
      · exact confirmCompensated_keeps hinv₄ (hrev.later (h₁.trans (h₂.trans h₄)))
      · exact books_keeps (failCompensation_books trivial trivial)

/-- Its branch for a saga without a reserve is never taken. -/
theorem compensate_keeps (hinv : w.view.Inv) (hrev : Reverses inst w.view)
    (hstatus : inst.status = .compensating) :
    (compensate o inst inst.payload).Keeps (discipline R) ⟨o, inst⟩ (fun _ _ => True) w := by
  refine .bind (attempts_keeps hrev) hinv fun attempts w₁ h₁ hinv₁ ⟨hreserve, hnil⟩ => ?_
  dsimp only
  rw [if_neg hnil]
  exact reverseReserve_keeps hinv₁ (hrev.later h₁) hstatus hreserve

/-- A worker that starts from the saga as it is stored keeps the discipline, however the saga
moves on meanwhile. -/
theorem driveOne_keeps (hinv : w.view.Inv)
    (hsaga : w.view.saga inst.id = some ⟨inst.payload, inst.status⟩) :
    (driveOne o inst).Keeps (discipline R) ⟨o, inst⟩ (fun _ _ => True) w := by
  have hknown : Known inst w.view := ⟨_, hsaga⟩
  unfold driveOne
  split_ifs
  · exact fun _ _ _ => trivial
  · split
    · next hstatus => exact reserve_keeps hinv hknown hstatus
    · exact plain_keeps (callGateway_plain _)
    · exact plain_keeps resolveGateway_plain
    · next hstatus => exact settle_keeps hinv hknown hstatus
    · exact books_keeps (onlyCalls_advance trivial)
    · next hstatus =>
      refine compensate_keeps hinv ⟨_, hsaga, ?_⟩ hstatus
      rw [hstatus]
      trivial
    · exact fun _ _ _ => trivial

end Keeps

section Claim
variable {eligible : SagaRow → Bool} {order : SagaRow → Time} {now : Time} {ty owner : String}
  {lease batch : ℕ} {locked : UUID → Bool}

theorem claim_view :
    view (claim eligible order now ty owner lease batch locked db).2 l = view db l := by
  simp only [claim, view, Table.keys_map, View.mk.injEq, true_and, and_true]
  refine ⟨funext fun k => ?_, rfl, rfl⟩
  rw [Table.find?_map, Option.map_map]
  refine congrArg (fun f => (db.sagaInstances.find? k).map f) (funext fun r => ?_)
  simp only [Function.comp]
  split_ifs <;> rfl

theorem claimed_saga {inst : Instance}
    (h : inst ∈ (claim eligible order now ty owner lease batch locked db).1) :
    (view (claim eligible order now ty owner lease batch locked db).2 l).saga inst.id =
      some ⟨inst.payload, inst.status⟩ := by
  obtain ⟨r, hr, rfl⟩ := List.mem_map.1 h
  exact Option.map_eq_some_iff.2 ⟨r.2, Table.find?_eq_some.2 (List.mem_filter.1 hr).1, rfl⟩

theorem claim_eq (expired : Bool) (o : Orchestrator) (now : Time) (locked : UUID → Bool) (s : Sys) :
    ∃ (claimed : List Instance) (db : DB), s.claim expired o now locked =
        Pool.spawn (claimed.map fun inst => (⟨o, inst⟩, driveOne o inst))
          { s with world := { s.world with db } } ∧
      view db s.world.posted = s.world.view ∧
      ∀ inst ∈ claimed, (view db s.world.posted).saga inst.id = some ⟨inst.payload, inst.status⟩ := by
  obtain ⟨eligible, order, hquery⟩ : ∃ eligible order,
      (if expired then claimExpired now else claimRunnable now) = claim eligible order now := by
    cases expired
    · exact ⟨_, _, if_neg nofun⟩
    · exact ⟨_, _, if_pos rfl⟩
  unfold Sys.claim
  rw [hquery]
  exact ⟨_, _, rfl, claim_view, fun inst => claimed_saga⟩

end Claim

theorem start_view {o : Orchestrator} {now untilDeadline : Time} {id : NewUUID} {p : Payload}
    {principalID : String} {key : Option String} {inst : Instance}
    (h : start o now untilDeadline id p principalID key db = .ok (inst, db')) :
    view db' l = view db l ∨ (view db l).saga id.1 = none ∧ validate p = .ok () ∧
      view db' l = { (view db l).move id.1 p .pending with ids := (view db l).ids ++ [id.1] } := by
  obtain ⟨_, hvalid, h⟩ := bind_eq_ok.1 h
  unfold Saga.create at h
  split at h
  · cases h
    exact .inl rfl
  · dsimp only at h
    split at h
    · cases h
    · next sagaInstances hi =>
      cases h
      have hfree := (Table.insert?_eq_some.1 hi).1
      refine .inr ⟨by simp [view, hfree], hvalid, ?_⟩
      simp only [view, View.move, View.mk.injEq, true_and, and_true]
      refine ⟨?_, funext fun k => ?_, rfl, rfl⟩
      · simp [Table.keys, (Table.insert?_eq_some.1 hi).2]
      · rw [Table.find?_insert hi]
        by_cases hk : k = id.1 <;> simp [hk]

theorem start_later {o : Orchestrator} {now untilDeadline : Time} {id : NewUUID} {p : Payload}
    {principalID : String} {key : Option String} {inst : Instance}
    (h : start o now untilDeadline id p principalID key db = .ok (inst, db')) :
    Later R (view db l) (view db' l) := by
  rcases start_view (l := l) h with hview | ⟨hfree, hvalid, hview⟩
  · exact hview ▸ .refl
  · rw [hview]
    exact .single (.start hfree hvalid)

theorem deliver_view {n : ℕ} {d : Gateway.Decision} {w w' : World}
    (h : w.deliver n d = some w') : w'.view = w.view := by
  unfold World.deliver at h
  split at h
  · cases h
    rfl
  · cases h

theorem lose_view {n : ℕ} {w w' : World} (h : w.lose n = some w') : w'.view = w.view := by
  unfold World.lose at h
  split at h
  · cases h
    rfl
  · cases h

/-- What the machine's rules ask of the system's actions: which transactions are reversed from
outside, and how settles are answered. -/
def Allowed (R : Rules) (s : Sys) : Action → Prop
  | .ledger op => ∀ txID ∈ reversalOf op, R.reversible s.world.view txID
  | .perform i ch => R.refund ∨ ∀ worker c k r w, s.tasks[i]? = some (worker, .call c k) →
      World.call worker.inst.id ch c s.world = some (r, w) → RetriesSettle worker c r
  | .abandon i e => R.refund ∨ ∀ worker c k r, s.tasks[i]? = some (worker, .call c k) →
      World.fault e c = some r → RetriesSettle worker c r
  | _ => True

theorem step_kept {s s' : Sys} {a : Action} (h : s.Kept (discipline R)) (ha : Allowed R s a)
    (hstep : s.step a = some s') :
    s'.Kept (discipline R) ∧ Later R s.world.view s'.world.view := by
  cases a with
  | claim expired cfg now locked =>
    obtain ⟨claimed, db, hclaim, hview, hsaga⟩ :=
      claim_eq expired (.new cfg) now locked s
    obtain rfl : s.claim expired (.new cfg) now locked = s' := Option.some.inj hstep
    rw [hclaim]
    have hlater : Later R s.world.view (view db s.world.posted) := hview ▸ .refl
    have hs : Pool.Kept (discipline R) { s with world := { s.world with db } } := h.later hlater
    refine ⟨hs.spawn fun t ht => ?_, hlater⟩
    obtain ⟨inst, hinst, rfl⟩ := List.mem_map.1 ht
    exact driveOne_keeps hs.valid (hsaga inst hinst)
  | perform i ch =>
    exact h.perform hstep fun worker c k r w ht hc => ⟨.inl ⟨ch, hc⟩,
      ha.imp_right fun hr => hr worker c k r w ht hc⟩
  | abandon i e =>
    exact h.abandon hstep fun worker c k r ht hr => ⟨.inr ⟨e, hr, rfl⟩,
      ha.imp_right fun hretry => hretry worker c k r ht hr⟩
  | crash i =>
    cases hstep
    exact ⟨h.crash i, .refl⟩
  | start cfg now untilDeadline id p principalID key =>
    obtain rfl | ⟨inst, db', hstart, rfl⟩ := step_start hstep
    · exact ⟨h, .refl⟩
    · have hlater : Later R s.world.view (view db' s.world.posted) := start_later hstart
      exact ⟨h.later hlater, hlater⟩
  | ledger op =>
    obtain ⟨hop, rfl⟩ := step_ledger hstep
    have hlater : Later R s.world.view (view (op.apply s.world.db) s.world.posted) :=
      outside_later h.valid hop ha
    exact ⟨h.later hlater, hlater⟩
  | keys idempotencyKeys =>
    cases hstep
    exact ⟨h.later .refl, .refl⟩
  | deliver n d =>
    obtain ⟨w, hw, rfl⟩ := Option.map_eq_some_iff.1 hstep
    have hlater : Later R s.world.view w.view := deliver_view hw ▸ .refl
    exact ⟨h.later hlater, hlater⟩
  | lose n =>
    obtain ⟨w, hw, rfl⟩ := Option.map_eq_some_iff.1 hstep
    have hlater : Later R s.world.view w.view := lose_view hw ▸ .refl
    exact ⟨h.later hlater, hlater⟩

theorem reach_kept {s s' : Sys} (h : Sys.Reach (Allowed R) s s') (hs : s.Kept (discipline R)) :
    s'.Kept (discipline R) ∧ Later R s.world.view s'.world.view := by
  induction h with
  | refl => exact ⟨hs, .refl⟩
  | tail _ hstep ih =>
    obtain ⟨a, ha, hstep⟩ := hstep
    obtain ⟨hkept, hlater⟩ := step_kept ih.1 ha hstep
    exact ⟨hkept, ih.2.trans hlater⟩

theorem init_inv : Sys.init.world.view.Inv where
  nodup := .nil
  ids _ := by simp [Sys.init, World.empty, World.view, view, DB.empty, Table.empty, Table.keys, Table.find?]
  entries _ _ := rfl
  headers _ h := nomatch h
  distinct := .nil
  unknown _ _ := ⟨rfl, rfl⟩
  valid _ _ _ h := nomatch h
  money _ _ _ h := nomatch h

theorem init_kept : Sys.init.Kept (discipline R) := ⟨init_inv, fun _ h => nomatch h⟩

end LedgerCore.Payout
