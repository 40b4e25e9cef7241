import LedgerCore.Payout.Payments

/-! What a probe settles. A payment that the gateway has no record of may still be on its way. -/
namespace LedgerCore.Payout
open LedgerCore.Program LedgerCore.Saga
variable {w w' : World} {req : Gateway.PaymentRequest} {worker : Worker}

theorem gatewayKey_injective : Function.Injective gatewayKey := by
  intro a b h
  exact UUID.string_injective (String.append_left_inj _ |>.1 h)

/-- The saga's payment is not on record as made, no request for it is on its way, and none will be
sent: the one request was, or its key was probed. -/
structure Barred (w : World) (id : UUID) : Prop where
  records : ∀ p, w.records.find? (gatewayKey id) = some p → p.status ≠ .succeeded
  delivered : ∀ q ∈ w.sent, q.sagaID = id → q.delivery ≠ .inFlight
  closed : id ∈ w.sent.map Sent.sagaID ∨ gatewayKey id ∈ w.probed

/-- Requests carry their saga's key, a saga has one, and an answer that is no payment bars it. -/
structure Consistent (w : World) : Prop where
  keys : ∀ q ∈ w.sent, q.request.idempotencyKey = gatewayKey q.sagaID
  nodup : (w.sent.map Sent.sagaID).Nodup
  answered : ∀ q ∈ w.sent, ∀ response e key, q.delivery = .answered response →
    Gateway.doRequest key response = .error e → Barred w q.sagaID

/-- The rest of the world moves on: what is barred stays barred, and requests stay where they
are. -/
structure Onward (w w' : World) : Prop where
  barred : ∀ id, Barred w id → Barred w' id
  sent : ∀ (n : ℕ) (q : Sent), w.sent[n]? = some q →
    ∃ q' : Sent, w'.sent[n]? = some q' ∧ q'.sagaID = q.sagaID
  consistent : Consistent w → Consistent w'

theorem Onward.refl (w : World) : Onward w w := ⟨fun _ h => h, fun _ q h => ⟨q, h, rfl⟩, id⟩

theorem Onward.trans {w'' : World} (h : Onward w w') (h' : Onward w' w'') : Onward w w'' where
  barred id hb := h'.barred id (h.barred id hb)
  sent n q hq := by
    obtain ⟨q', hq', hid⟩ := h.sent n q hq
    obtain ⟨q'', hq'', hid'⟩ := h'.sent n q' hq'
    exact ⟨q'', hq'', hid'.trans hid⟩
  consistent hc := h'.consistent (h.consistent hc)

theorem Onward.of_same (hr : w'.records = w.records) (hs : w'.sent = w.sent)
    (hp : w'.probed = w.probed) : Onward w w' := by
  have hbarred : ∀ id, Barred w id → Barred w' id := fun id h =>
    ⟨hr ▸ h.records, hs ▸ h.delivered, hs ▸ hp ▸ h.closed⟩
  refine ⟨hbarred, fun n q hq => ⟨q, hs ▸ hq, rfl⟩, fun h => ⟨hs ▸ h.keys, hs ▸ h.nodup, ?_⟩⟩
  exact fun q hq response e key hd he => hbarred _ (h.answered q (hs ▸ hq) response e key hd he)

theorem onward_probe (w : World) (key : String) :
    Onward w { w with probed := w.probed ++ [key] } := by
  have hbarred : ∀ id, Barred w id → Barred { w with probed := w.probed ++ [key] } id := fun id h =>
    ⟨h.records, h.delivered, h.closed.imp_right (List.mem_append_left _)⟩
  refine ⟨hbarred, fun _ q h => ⟨q, h, rfl⟩, fun h => ⟨h.keys, h.nodup, ?_⟩⟩
  exact fun q hq response e key hd he => hbarred _ (h.answered q hq response e key hd he)

theorem onward_paySend {id : UUID} (hkey : req.idempotencyKey = gatewayKey id)
    (hnew : id ∉ w.sent.map Sent.sagaID) (hprobed : gatewayKey id ∉ w.probed) :
    Onward w { w with sent := w.sent ++ [⟨id, req, .inFlight⟩] } := by
  have hbarred : ∀ k, Barred w k →
      Barred { w with sent := w.sent ++ [⟨id, req, .inFlight⟩] } k := fun k h => by
    have hne : id ≠ k := by
      rintro rfl
      exact h.closed.elim hnew hprobed
    refine ⟨h.records, fun q hq => ?_, h.closed.imp_left fun hk => ?_⟩
    · rcases List.mem_append.1 hq with hq | hq
      · exact h.delivered q hq
      · rw [List.mem_singleton.1 hq]
        exact fun hk => absurd hk hne
    · rw [List.map_append]
      exact List.mem_append_left _ hk
  refine ⟨hbarred, fun n q hq => ⟨q, ?_, rfl⟩, fun h => ⟨fun q hq => ?_, ?_, ?_⟩⟩
  · exact (List.getElem?_append_left (List.getElem?_eq_some_iff.1 hq).1).trans hq
  · rcases List.mem_append.1 hq with hq | hq
    · exact h.keys q hq
    · rw [List.mem_singleton.1 hq]
      exact hkey
  · rw [List.map_append]
    refine List.nodup_append.2 ⟨h.nodup, by simp, fun a ha b hb => ?_⟩
    obtain rfl : b = id := by simpa using hb
    rintro rfl
    exact hnew ha
  · intro q hq response e key hd he
    rcases List.mem_append.1 hq with hq | hq
    · exact hbarred _ (h.answered q hq response e key hd he)
    · rw [List.mem_singleton.1 hq] at hd
      cases hd

theorem onward_set {n : ℕ} {id : UUID} {delivery : Delivery} {records : Gateway.Records}
    (hq : w.sent[n]? = some ⟨id, req, .inFlight⟩) (hsettled : delivery ≠ .inFlight)
    (hrecords : ∀ k, k ≠ req.idempotencyKey → records.find? k = w.records.find? k)
    (hanswer : ∀ response e key, delivery = .answered response →
      Gateway.doRequest key response = .error e →
        ∀ p, records.find? req.idempotencyKey = some p → p.status ≠ .succeeded)
    (hc : Consistent w) :
    Onward w { w with records, sent := w.sent.set n ⟨id, req, delivery⟩ } := by
  have hmem := List.mem_of_getElem? hq
  have hkey : req.idempotencyKey = gatewayKey id := hc.keys _ hmem
  have hids : (w.sent.set n ⟨id, req, delivery⟩).map Sent.sagaID = w.sent.map Sent.sagaID := by
    simpa [World.asked, Function.comp_def] using
      congrArg (List.map Prod.fst) (asked_set hq delivery records)
  have hbarred : ∀ k, Barred w k →
      Barred { w with records, sent := w.sent.set n ⟨id, req, delivery⟩ } k := fun k h => by
    have hne : k ≠ id := by
      rintro rfl
      exact h.delivered _ hmem rfl rfl
    refine ⟨fun p hp => h.records p ?_, fun q hq hk => ?_, hids.symm ▸ h.closed⟩
    · rwa [← hrecords _ (hkey ▸ fun he => hne (gatewayKey_injective he))]
    · rcases List.mem_or_eq_of_mem_set hq with hq | rfl
      · exact h.delivered q hq hk
      · exact hsettled
  refine ⟨hbarred, fun m q hm => ?_, fun _ => ⟨fun q hq => ?_, hids.symm ▸ hc.nodup, ?_⟩⟩
  · by_cases hnm : n = m
    · subst hnm
      obtain rfl := Option.some.inj (hq.symm.trans hm)
      exact ⟨_, List.getElem?_set_self (List.getElem?_eq_some_iff.1 hq).1, rfl⟩
    · exact ⟨q, (List.getElem?_set_ne hnm).trans hm, rfl⟩
  · rcases List.mem_or_eq_of_mem_set hq with hq | rfl
    · exact hc.keys q hq
    · exact hkey
  · intro q hq response e key hd he
    rcases List.mem_or_eq_of_mem_set hq with hq | rfl
    · exact hbarred _ (hc.answered q hq response e key hd he)
    · refine ⟨hkey ▸ hanswer response e key hd he, fun q' hq' hid => ?_, .inl ?_⟩
      · -- The saga has one request, and it was just settled.
        have hnodup : ((w.sent.set n ⟨id, req, delivery⟩).map Sent.sagaID).Nodup := hids.symm ▸ hc.nodup
        rw [List.inj_on_of_nodup_map hnodup hq' hq hid]
        exact hsettled
      · exact List.mem_map_of_mem hq

theorem onward_deliver {n : ℕ} {d : Gateway.Decision} (hc : Consistent w)
    (h : w.deliver n d = some w') : Onward w w' := by
  obtain ⟨id, req, hq, rfl⟩ := deliver_eq_some h
  refine onward_set hq nofun (fun _ => Gateway.find?_pay_of_ne) ?_ hc
  intro response e key hd he p
  cases hd
  exact Gateway.pay_error he

theorem onward_lose {n : ℕ} (hc : Consistent w) (h : w.lose n = some w') : Onward w w' := by
  obtain ⟨id, req, hq, rfl⟩ := lose_eq_some h
  exact onward_set hq nofun (fun _ _ => rfl) nofun hc

/-- A payment is failed only when it is barred, and the gateway is asked under the saga's key. -/
def Claims (worker : Worker) : Call → World → Prop
  | .advance t, w => t.target = .gatewayFailed → t.sagaID = worker.inst.id ∧ Barred w worker.inst.id
  | .beginStep _ t, _ => t.target ≠ .gatewayFailed
  | .escalate _ t _, _ => t.target ≠ .gatewayFailed
  | .paySend req, _ => req.idempotencyKey = gatewayKey worker.inst.id
  | .payAwait _ request, w => ∃ q, w.sent[request]? = some q ∧ q.sagaID = worker.inst.id
  | .probe key, _ => key = gatewayKey worker.inst.id
  | _, _ => True

/-- Calls of the gateway at the right time: a payment is asked for once and not after a probe, and
a probe is answered when no request under its key is on its way. -/
def Timely (worker : Worker) : Call → World → Prop
  | .paySend _, w => worker.inst.id ∉ w.sent.map Sent.sagaID ∧
      gatewayKey worker.inst.id ∉ w.probed
  | .probe key, w => ∀ q ∈ w.sent, q.request.idempotencyKey = key → q.delivery ≠ .inFlight
  | _, _ => True

theorem call_onward {ch : Choice} {c : Call} {r : Reply c} (hclaims : Claims worker c w)
    (htimely : Timely worker c w) (h : World.call worker.inst.id ch c w = some (r, w')) :
    Onward w w' := by
  obtain ⟨req, rfl⟩ | ⟨key, rfl⟩ | ⟨hrecords, hsent, hprobed⟩ := call_gateway h
  · cases h
    exact onward_paySend hclaims htimely.1 htimely.2
  · cases h
    exact onward_probe w key
  · exact .of_same hrecords hsent hprobed

def probing : Discipline Reply World Worker where
  asks worker c w := Claims worker c w
  effect worker c w r w' :=
    (∃ ch, World.call worker.inst.id ch c w = some (r, w') ∧ Timely worker c w) ∨
      ∃ e, World.fault e c = some r ∧ w' = w
  valid := Consistent
  later := Onward
  refl := Onward.refl
  trans := Onward.trans
  valid_later h := h.consistent
  effect_later := by
    rintro worker c w r w' hclaims - (⟨ch, hcall, htimely⟩ | ⟨e, -, rfl⟩)
    · exact call_onward hclaims htimely hcall
    · exact .refl _

theorem Ordinary.claims {c : Call} (h : Ordinary c) (w : World) : Claims worker c w := by
  cases c with
  | advance t => exact fun ht => absurd ht h
  | beginStep a t => exact h.elim
  | paySend req => exact h.elim
  | payAwait key request => exact h.elim
  | probe key => exact h.elim
  | escalate eventID t alert => exact h
  | _ => trivial

section Drive
variable {worker : Worker} {o : Orchestrator} {inst : Instance} {w : World}

theorem ordinary_keeps {α : Type} {p : OrchM α} (h : p.OnlyCalls Ordinary) :
    p.Keeps probing worker (fun _ _ => True) w :=
  h.keeps (fun _ w hc => hc.claims w) w

/-- An error that settles the question bars the payment. -/
theorem settleGatewayOutcome_keeps {attemptID : UUID} {outcome : Except Error Gateway.Payment}
    (hc : Consistent w)
    (h : ∀ e, outcome = .error e → Gateway.conclusive (some e) = true → Barred w inst.id) :
    (settleGatewayOutcome o inst attemptID outcome).Keeps probing ⟨o, inst⟩ (fun _ _ => True) w := by
  by_cases hconclusive : ∃ e, outcome = .error e ∧ Gateway.conclusive (some e) = true
  · obtain ⟨e, rfl, he⟩ := hconclusive
    have hbarred := h e rfl he
    simp only [settleGatewayOutcome, if_pos he]
    refine .bind (ordinary_keeps (onlyCalls_finish fun _ _ => trivial)) hc ?_
    intro _ w₁ h₁ _ _
    refine Prog.keeps_perform_bind (fun w₂ h₂ _ _ => ⟨rfl, h₂.barred _ (h₁.barred _ hbarred)⟩) ?_
    intro _ r _ _ _ _ _ _
    exact ordinary_keeps (onlyCalls_orReturn r)
  · have hspares : ∀ target, target ≠ .gatewayFailed → sparesPayment .gatewayPending target :=
      fun _ h => h
    refine ordinary_keeps ((settleGatewayOutcome_books (hspares _ (by decide)) ?_
      (hspares _ (by decide)) (hspares _ (by decide))).mono fun _ => Bookkeeping.ordinary)
    exact fun e he hce => absurd ⟨e, he, hce⟩ hconclusive

theorem resolveGateway_keeps (hc : Consistent w) :
    (resolveGateway o inst).Keeps probing ⟨o, inst⟩ (fun _ _ => True) w := by
  refine .bind (ordinary_keeps (.bind (Prog.onlyCalls_perform trivial) onlyCalls_orReturn)) hc ?_
  intro unresolved w₁ _ hc₁ _
  refine Prog.keeps_perform_bind (fun _ _ _ => rfl) ?_
  rintro w₂ outcome w₃ _ hc₂ (⟨ch, hcall, htimely⟩ | ⟨e, hfault, rfl⟩) _ hc₃
  · -- The gateway answers, and nothing is on its way to it.
    refine settleGatewayOutcome_keeps hc₃ fun e he _ => ?_
    cases hcall
    refine ⟨fun p hp => Gateway.probe_error he hp, fun q hq hid => ?_, .inr ?_⟩
    · exact htimely q hq (hid ▸ hc₂.keys q hq)
    · exact List.mem_append_right _ List.mem_cons_self
  · refine settleGatewayOutcome_keeps hc₃ fun e' he hconclusive => ?_
    cases hfault
    cases he
    cases hconclusive

theorem beginStep_keeps {a : StartAttempt} {t : Transition} (h : t.target ≠ .gatewayFailed) :
    (Store.beginStep a t).Keeps probing worker (fun _ _ => True) w := by
  refine Prog.keeps_perform_bind (fun _ _ _ => h) ?_
  intro _ r _ _ _ _ _ _
  exact ordinary_keeps (onlyCalls_orReturn r)

theorem pay_keeps (h : req.idempotencyKey = gatewayKey inst.id) :
    (pay req).Keeps probing ⟨o, inst⟩ (fun outcome w => ∀ e, outcome = .error e →
      Gateway.conclusive (some e) = true → Barred w inst.id) w := by
  refine Prog.keeps_perform_bind (fun _ _ _ => h) ?_
  rintro w₁ request w₂ _ _ (⟨ch, hcall, -⟩ | ⟨e, hfault, -⟩) _ _
  · cases hcall
    intro w₃ h₃ hc₃
    obtain ⟨q, hq, hid⟩ := h₃.sent w₁.sent.length ⟨inst.id, req, .inFlight⟩ (by simp)
    refine ⟨⟨q, hq, hid⟩, ?_⟩
    rintro outcome w₄ (⟨ch, hcall, -⟩ | ⟨e, hfault, rfl⟩) w' h' _ e' he hconclusive
    · simp only [World.call, hq] at hcall
      split at hcall
      · next sagaID request response heq =>
        cases hcall
        obtain rfl := Option.some.inj heq
        subst hid
        exact h'.barred _ (hc₃.answered _ (List.mem_of_getElem? hq) response e' _ rfl he)
      · cases hcall
    · cases hfault
      cases he
      cases hconclusive
  · cases hfault

theorem callGateway_keeps (hc : Consistent w) (p : Payload) :
    (callGateway o inst p).Keeps probing ⟨o, inst⟩ (fun _ _ => True) w := by
  refine .bind (ordinary_keeps (onlyCalls_nextAttempt trivial trivial)) hc ?_
  intro ⟨attemptID, number⟩ w₁ _ hc₁ _
  refine .bind (beginStep_keeps nofun) hc₁ fun _ w₂ _ hc₂ _ => ?_
  exact .bind (pay_keeps rfl) hc₂ fun outcome w₃ _ hc₃ => settleGatewayOutcome_keeps hc₃

theorem driveOne_keeps_probing (hc : Consistent w) :
    (driveOne o inst).Keeps probing ⟨o, inst⟩ (fun _ _ => True) w := by
  unfold driveOne
  split_ifs
  · exact fun _ _ _ => trivial
  · split
    · next h => exact ordinary_keeps (reserve_ordinary (by simp [h]) _)
    · exact callGateway_keeps hc _
    · exact resolveGateway_keeps hc
    · next h => exact ordinary_keeps (settle_ordinary (by simp [h]) _)
    · exact ordinary_keeps (onlyCalls_advance nofun)
    · exact ordinary_keeps (compensate_ordinary _)
    · exact fun _ _ _ => trivial

end Drive

/-- A probe is answered only when no request under its key is on its way, and no payment is asked
for under a key that was probed. -/
def ProbesSettled (s : Sys) : Action → Prop
  | .perform i _ =>
    match s.tasks[i]? with
    | some (_, .call (.probe key) _) =>
      ∀ q ∈ s.world.sent, q.request.idempotencyKey = key → q.delivery ≠ .inFlight
    | some (_, .call (.paySend req) _) => req.idempotencyKey ∉ s.world.probed
    | _ => True
  | _ => True

/-- A payment comes to be failed by a worker that knows it to be barred. -/
theorem call_gatewayFailed {ch : Choice} {c : Call} {r : Reply c}
    (hasks : Asks True worker w.view c) (hinv : w.view.Inv) (hclaims : Claims worker c w)
    (hcall : World.call worker.inst.id ch c w = some (r, w')) {id : UUID} {p : Payload}
    (h : w'.view.saga id = some ⟨p, .gatewayFailed⟩) :
    w.view.saga id = some ⟨p, .gatewayFailed⟩ ∨ Barred w id := by
  have hmove : ∀ k q target, w'.view.saga = (w.view.move k q target).saga →
      target ≠ .gatewayFailed → w.view.saga id = some ⟨p, .gatewayFailed⟩ := by
    intro k q target hview htarget
    rw [hview] at h
    rcases View.saga_move_eq_some h with ⟨-, -, rfl⟩ | ⟨-, h⟩
    · exact absurd rfl htarget
    · exact h
  cases c with
  | advance t =>
    rcases write_cases (Option.some.inj hcall) with rfl | ⟨db, hdb, rfl⟩
    · exact .inl h
    · obtain ⟨q, -, hview⟩ := advance_view (l := w.posted) hdb
      rw [World.view, hview] at h
      rcases View.saga_move_eq_some h with ⟨rfl, -, htarget⟩ | ⟨-, h⟩
      · obtain ⟨hid, hbarred⟩ := hclaims htarget.symm
        exact .inr (hid ▸ hbarred)
      · exact .inl h
  | beginStep a t =>
    rcases write_cases (Option.some.inj hcall) with rfl | ⟨db, hdb, rfl⟩
    · exact .inl h
    · obtain ⟨q, -, hview⟩ := beginStep_view (l := w.posted) hdb
      exact .inl (hmove _ _ _ (congrArg View.saga hview) hclaims)
  | escalate eventID t alert =>
    rcases write_cases (Option.some.inj hcall) with rfl | ⟨db, hdb, rfl⟩
    · exact .inl h
    · obtain ⟨q, -, hview⟩ := escalate_view (l := w.posted) hdb
      exact .inl (hmove _ _ _ (congrArg View.saga hview) hclaims)
  | postTransaction req =>
    obtain ⟨rfl, -⟩ | ⟨t, db', hpost, -, rfl⟩ := ledger_cases (Option.some.inj hcall)
    · exact .inl h
    · obtain ⟨hknown, attemptID, number, ev, ⟨-, rfl⟩ | ⟨-, rfl⟩⟩ := hasks
      · obtain ⟨-, -, -, -, hview⟩ := postTransaction_view (l := w.posted) hinv hknown hpost
        have hsaga := congrArg View.saga hview
        exact .inl (hmove worker.inst.id worker.inst.payload .reserved hsaga (by decide))
      · obtain ⟨-, -, -, -, hview⟩ := postTransaction_view (l := w.posted) hinv hknown hpost
        have hsaga := congrArg View.saga hview
        exact .inl (hmove worker.inst.id worker.inst.payload .completed hsaga (by decide))
  | reverseTransactionRecorded txID reason record =>
    obtain ⟨rfl, -⟩ | ⟨t, db', hpost, -, rfl⟩ := ledger_cases (Option.some.inj hcall)
    · exact .inl h
    · obtain ⟨hknown, -, -, attemptID, number, ev, rfl⟩ := hasks
      obtain ⟨-, -, -, -, hview⟩ := doReverse_view (l := w.posted) hinv hknown hpost rfl
      have hsaga := congrArg View.saga hview
      exact .inl (hmove worker.inst.id worker.inst.payload .compensated hsaga (by decide))
  | recordAttempt a =>
    rcases write_cases (Option.some.inj hcall) with rfl | ⟨db, hdb, rfl⟩
    · exact .inl h
    · rw [World.view, recordAttempt_view hdb hasks] at h
      exact .inl h
  | finishAttempt f =>
    cases hcall
    rw [World.view, finishAttempt_view _ hasks] at h
    exact .inl h
  | payAwait key request =>
    simp only [World.call] at hcall
    split at hcall
    · cases hcall
      exact .inl h
    · cases hcall
  | _ =>
    cases hcall
    exact .inl h

/-- The workers keep to what they know, and every failed payment is barred. -/
structure Settled (s : Sys) : Prop where
  kept : s.Kept probing
  failed : ∀ id p, s.world.view.saga id = some ⟨p, .gatewayFailed⟩ → Barred s.world id

theorem timely {s : Sys} {i : ℕ} {ch : Choice} {c : Call} {k : Reply c → OrchM Unit}
    (honce : Once s) (hkept : s.Kept probing) (ha : ProbesSettled s (.perform i ch))
    (ht : s.tasks[i]? = some (worker, .call c k)) : Timely worker c s.world := by
  simp only [ProbesSettled, ht] at ha
  cases c with
  | paySend req =>
    have hkey : req.idempotencyKey = gatewayKey worker.inst.id := hkept.asks (List.mem_of_getElem? ht)
    refine ⟨fun hmem => ?_, hkey ▸ ha⟩
    -- The worker that is about to ask and the request that was made are one too many.
    have harmed : 0 < armed s.tasks worker.inst.id :=
      List.countP_pos_iff.2 ⟨_, List.mem_of_getElem? ht, by simp [sends]⟩
    have hasked : 0 < s.world.asked.countP fun q => worker.inst.id = q.1 := by
      obtain ⟨q, hq, hid⟩ := List.mem_map.1 hmem
      exact List.countP_pos_iff.2 ⟨_, List.mem_map_of_mem hq, by simp [hid]⟩
    have := honce.once worker.inst.id
    simp only [Sys.payments] at this
    omega
  | probe key => exact ha
  | _ => trivial

theorem Settled.step {s s' : Sys} {a : Action} (h : Settled s) (honce : Once s)
    (hkept : s.Kept (discipline anything)) (ha : ProbesSettled s a) (hstep : s.step a = some s') :
    Settled s' ∧ Onward s.world s'.world := by
  -- An action of nobody's step leaves the tasks alone and fails no payment.
  have houtside : ∀ {w : World}, Onward s.world w → (∀ id p,
      w.view.saga id = some ⟨p, .gatewayFailed⟩ → s.world.view.saga id = some ⟨p, .gatewayFailed⟩) →
      Settled { s with world := w } ∧ Onward s.world w := fun hw hsaga =>
    ⟨⟨h.kept.later hw, fun id p hp => hw.barred id (h.failed id p (hsaga id p hp))⟩, hw⟩
  cases a with
  | claim expired cfg now locked =>
    obtain ⟨claimed, db, hclaim, hview, -⟩ :=
      claim_eq expired (.new cfg) now locked s
    obtain rfl : s.claim expired (.new cfg) now locked = s' := Option.some.inj hstep
    obtain ⟨hs, hw⟩ : Settled { s with world := { s.world with db } } ∧ Onward s.world _ :=
      houtside (.of_same rfl rfl rfl) fun _ _ hq => hview ▸ hq
    rw [hclaim]
    refine ⟨⟨hs.kept.spawn fun t ht => ?_, hs.failed⟩, hw⟩
    obtain ⟨inst, -, rfl⟩ := List.mem_map.1 ht
    exact driveOne_keeps_probing hs.kept.valid
  | perform i ch =>
    obtain ⟨worker, c, k, r, w, ht, hc, rfl⟩ := Pool.perform_eq_some hstep
    have hmem := List.mem_of_getElem? ht
    obtain ⟨hkept', hw⟩ := h.kept.perform hstep fun worker c k r w ht hc =>
      .inl ⟨ch, hc, timely honce h.kept ha ht⟩
    refine ⟨⟨hkept', fun id p hp => hw.barred id ?_⟩, hw⟩
    rcases call_gatewayFailed (hkept.asks hmem) hkept.valid (h.kept.asks hmem) hc hp with hp | hb
    · exact h.failed id p hp
    · exact hb
  | abandon i e =>
    obtain ⟨hkept', hw⟩ := h.kept.abandon hstep fun worker c k r ht hr => .inr ⟨e, hr, rfl⟩
    obtain ⟨worker, c, k, r, ht, hr, rfl⟩ := Pool.abandon_eq_some hstep
    exact ⟨⟨hkept', h.failed⟩, hw⟩
  | crash i =>
    cases hstep
    exact ⟨⟨h.kept.crash i, h.failed⟩, .refl _⟩
  | start cfg now untilDeadline id p principalID key =>
    obtain rfl | ⟨inst, db', hstart, rfl⟩ := step_start hstep
    · exact ⟨h, .refl _⟩
    refine houtside (.of_same rfl rfl rfl) fun k q hq => ?_
    rcases start_view (l := s.world.posted) hstart with hview | ⟨-, -, hview⟩
    · exact (congrArg (fun v : View => v.saga k) hview).symm.trans hq
    · rcases View.saga_move_eq_some ((congrArg (fun v : View => v.saga k) hview).symm.trans hq) with
        ⟨-, -, hst⟩ | ⟨-, hq⟩
      · cases hst
      · exact hq
  | ledger op =>
    obtain ⟨hop, rfl⟩ := step_ledger hstep
    refine houtside (.of_same rfl rfl rfl) fun k q hq => ?_
    exact (congrFun (outside_saga hkept.valid hop) k).symm.trans hq
  | keys idempotencyKeys =>
    cases hstep
    exact houtside (.of_same rfl rfl rfl) fun _ _ hq => hq
  | deliver n d =>
    obtain ⟨w, hw, rfl⟩ := Option.map_eq_some_iff.1 hstep
    exact houtside (onward_deliver h.kept.valid hw) fun _ _ hq => deliver_view hw ▸ hq
  | lose n =>
    obtain ⟨w, hw, rfl⟩ := Option.map_eq_some_iff.1 hstep
    exact houtside (onward_lose h.kept.valid hw) fun _ _ hq => lose_view hw ▸ hq

theorem init_settled : Settled .init := by
  refine ⟨⟨⟨fun _ h => (nomatch h), .nil, fun _ h => (nomatch h)⟩, fun _ h => (nomatch h)⟩, ?_⟩
  exact fun _ _ h => nomatch h

theorem reach_settled {s s' : Sys} (hinit : Sys.Reach (fun _ _ => True) .init s) (hs : Settled s)
    (h : Sys.Reach ProbesSettled s s') : Settled s' ∧ Onward s.world s'.world := by
  induction h with
  | refl => exact ⟨hs, .refl _⟩
  | tail hreach hstep ih =>
    obtain ⟨a, ha, hstep⟩ := hstep
    have hany := hinit.trans (reach_mono hreach fun _ _ _ => trivial)
    have hkept := (reach_kept (reach_mono hany fun s a _ => allowed_anything s a) init_kept).1
    obtain ⟨hsettled, hw⟩ := ih.1.step (reach_once hany).1 hkept ha hstep
    exact ⟨hsettled, ih.2.trans hw⟩

/-- As long as probes are answered only once the saga's request has arrived or is lost, and no
request leaves after a probe, a payment that was failed is never made. -/
theorem failed_payment_never_made {s s' : Sys} (h : Sys.Reach ProbesSettled .init s) {id : UUID}
    {r : SagaRow} (hr : s.world.db.sagaInstances.find? id = some r)
    (hstatus : r.status = .gatewayFailed) (h' : Sys.Reach ProbesSettled s s') :
    ∀ p, s'.world.records.find? (gatewayKey id) = some p → p.status ≠ .succeeded := by
  have hsettled := (reach_settled .refl init_settled h).1
  have hsaga : s.world.view.saga id = some ⟨r.payload, .gatewayFailed⟩ :=
    Option.map_eq_some_iff.2 ⟨r, hr, by rw [hstatus]⟩
  have hbarred := hsettled.failed id _ hsaga
  have hany : Sys.Reach (fun _ _ => True) .init s := reach_mono h fun _ _ _ => trivial
  exact ((reach_settled hany hsettled h').2.barred id hbarred).records

instance (s : Sys) (a : Action) : Decidable (ProbesSettled s a) := by
  unfold ProbesSettled
  split
  · split <;> infer_instance
  · infer_instance

/-- The sample payout up to the point where its payment is asked for and its worker is gone. -/
def sampleAsked : List Action := sampleStart ++ drive 10 4 ++ .crash 0 :: drive 20 4 ++ [.crash 0]

def sweep (n m : ℕ) : List Action :=
  .claim true sampleConfig (10 + n) (fun _ => false) :: performs 0 n m

theorem failed_payment_never_made_declined :
    ∃ s s', Sys.Reach ProbesSettled .init s ∧ Sys.Reach ProbesSettled s s' ∧
      sampleOutcome s = (some .gatewayFailed, some .failed) ∧
      sampleOutcome s' = (some .compensated, some .failed) ∧
      ∀ p, s'.world.records.find? (gatewayKey 7) = some p → p.status ≠ .succeeded := by
  have hrun : (Sys.init.runChecked (fun s a => ProbesSettled s a)
      (sampleAsked ++ .deliver 0 (.decline "g" "no funds" 40) :: sweep 40 4 ++ [.crash 0])).any (fun s =>
      sampleOutcome s = (some .gatewayFailed, some .failed) &&
      (s.runChecked (fun s a => ProbesSettled s a) (drive 60 1 ++ .crash 0 :: drive 70 5)).any fun s' =>
        sampleOutcome s' = (some .compensated, some .failed)) = true := by
    decide +kernel
  obtain ⟨s, s', hs, hs', hfailed, hdone⟩ := two_runs hrun
  have hreach := reach_of_runChecked (fun _ _ => of_decide_eq_true) hs
  have hreach' := reach_of_runChecked (fun _ _ => of_decide_eq_true) hs'
  obtain ⟨r, hr, hstatus⟩ := Option.map_eq_some_iff.1 (congrArg Prod.fst hfailed)
  exact ⟨s, s', hreach, hreach', hfailed, hdone, failed_payment_never_made hreach hr hstatus hreach'⟩

/-- The request is still on its way when the sweeper probes for it. The payment is failed and the
customer refunded, and then the gateway makes the payment. -/
theorem failed_payment_made_later :
    ∃ s s', Sys.init.run (sampleAsked ++ sweep 40 4 ++ [.crash 0]) = some s ∧
      s.run (drive 60 1 ++ .crash 0 :: drive 70 5 ++ [.deliver 0 (.accept "g" 90)]) = some s' ∧
      sampleOutcome s = (some .gatewayFailed, none) ∧
      sampleOutcome s' = (some .compensated, some .succeeded) := by
  refine two_runs (f := fun s => s.run _) ?_
  decide +kernel

end LedgerCore.Payout
