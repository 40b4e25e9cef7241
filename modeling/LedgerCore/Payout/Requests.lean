import LedgerCore.Payout.Payments
import LedgerCore.Payout.Rows

/-! What workers ask for, whatever they are answered: their requests are about their own saga. -/
namespace LedgerCore.Payout
open LedgerCore.Program LedgerCore.Saga

/-- Workers ask for what `P` admits as long as their answers satisfy `E`, wherever the world has
moved. -/
def steady (P : Worker → Call → Prop) (E : (c : Call) → Reply c → Prop) :
    Discipline Reply World Worker where
  asks worker c _ := P worker c
  effect _ c _ r _ := E c r
  valid _ := True
  later _ _ := True
  refl _ := trivial
  trans _ _ := trivial
  valid_later _ _ := trivial
  effect_later _ _ _ := trivial

section Steady
variable {P : Worker → Call → Prop} {E : (c : Call) → Reply c → Prop}

theorem step_steady {s s' : Sys} {a : Action} (h : s.Kept (steady P E))
    (hdrive : ∀ o inst w, (driveOne o inst).Keeps (steady P E) ⟨o, inst⟩ (fun _ _ => True) w)
    (hcall : ∀ i ch worker c k r w, a = .perform i ch → s.tasks[i]? = some (worker, .call c k) →
      World.call worker.inst.id ch c s.world = some (r, w) → E c r)
    (hfault : ∀ e c r, World.fault e c = some r → E c r) (hstep : s.step a = some s') :
    s'.Kept (steady P E) := by
  have hworld : ∀ w, Pool.Kept (steady P E) { s with world := w } := fun w => h.later trivial
  cases a with
  | claim expired cfg now locked =>
    obtain ⟨claimed, db, hclaim, -, -⟩ := claim_eq expired (.new cfg) now locked s
    obtain rfl : s.claim expired (.new cfg) now locked = s' := Option.some.inj hstep
    rw [hclaim]
    refine (hworld _).spawn fun t ht => ?_
    obtain ⟨inst, -, rfl⟩ := List.mem_map.1 ht
    exact hdrive _ inst _
  | perform i ch =>
    exact (h.perform hstep fun worker c k r w ht hc => hcall i ch worker c k r w rfl ht hc).1
  | abandon i e => exact (h.abandon hstep fun worker c k r _ hr => hfault e c r hr).1
  | crash i =>
    cases hstep
    exact h.crash i
  | start cfg now untilDeadline id p principalID key =>
    obtain rfl | ⟨_, _, -, rfl⟩ := step_start hstep
    · exact h
    · exact hworld _
  | ledger op =>
    obtain ⟨-, rfl⟩ := step_ledger hstep
    exact hworld _
  | keys idempotencyKeys =>
    cases hstep
    exact hworld _
  | deliver n d =>
    obtain ⟨w, -, rfl⟩ := Option.map_eq_some_iff.1 hstep
    exact hworld w
  | lose n =>
    obtain ⟨w, -, rfl⟩ := Option.map_eq_some_iff.1 hstep
    exact hworld w

theorem init_steady : Sys.init.Kept (steady P E) := ⟨trivial, fun _ h => nomatch h⟩

end Steady

/-- The worker asks for the payment or finds out about it. -/
def AtGateway (worker : Worker) : Prop :=
  worker.inst.status = .reserved ∨ worker.inst.status = .gatewayPending

/-- The requests of a worker, which are about its own saga. A transition clears the lease, but for
the one before the payment. A saga is escalated from a status in `P`. -/
def Own (P : Status → Prop) (worker : Worker) : Call → Prop
  | .advance t => t.sagaID = worker.inst.id ∧ t.target ≠ .needsManualReview ∧
      t.releaseLease = true ∧ t.source ≠ .reserved ∧ (t.source = .gatewayPending → AtGateway worker)
  | .beginStep a t => a.sagaID = worker.inst.id ∧ a.step = .gateway ∧ t.sagaID = worker.inst.id ∧
      t.source = .reserved ∧ t.target = .gatewayPending ∧ t.releaseLease = false ∧ AtGateway worker
  | .escalate _ t alert => t.sagaID = worker.inst.id ∧ P t.source ∧ t.target = .needsManualReview ∧
      t.releaseLease = true ∧ alert.eventType = eventTypeSagaNeedsManualReview ∧
      alert.aggregateID = worker.inst.id.string
  | .recordAttempt a => a.step ≠ .gateway
  | .finishAttempt _ => AtGateway worker
  | .get id => id = worker.inst.id
  | _ => True

/-- A saga is read back in a status in `P`. -/
def Reads (P : Status → Prop) : (c : Call) → Reply c → Prop
  | .get _, .ok current => P current.status
  | _, _ => True

theorem reads_fault {P : Status → Prop} {e : Error} {c : Call} {r : Reply c}
    (h : World.fault e c = some r) : Reads P c r := by
  cases c with
  | get id =>
    cases h
    trivial
  | _ => trivial

section Own
variable {P : Status → Prop} {o : Orchestrator} {inst : Instance} {w : World}

theorem own_keeps {α : Type} {p : OrchM α} {worker : Worker} (h : p.OnlyCalls (Own P worker)) :
    p.Keeps (steady (Own P) (Reads P)) worker (fun _ _ => True) w :=
  h.keeps (fun _ _ hc => hc) w

theorem escalate_own {e : Escalation} (h : P e.source) :
    (escalate o inst e).OnlyCalls (Own P ⟨o, inst⟩) :=
  .bind (Prog.onlyCalls_perform trivial) fun _ =>
    .bind (Prog.onlyCalls_perform ⟨rfl, h, rfl, rfl, rfl, rfl⟩) onlyCalls_orReturn

theorem failForwardStep_own {step : Step} {attemptID : UUID} {number : ℕ} {cause : Error}
    (hstep : step ≠ .gateway) (hstatus : inst.status = .pending ∨ inst.status = .gatewaySucceeded) :
    (failForwardStep o inst step attemptID number cause).OnlyCalls (Own P ⟨o, inst⟩) := by
  have hreview : inst.status ≠ .needsManualReview := by rcases hstatus with h | h <;> simp [h]
  have hreserved : inst.status ≠ .reserved := by rcases hstatus with h | h <;> simp [h]
  have hpending : inst.status = .gatewayPending → AtGateway ⟨o, inst⟩ := .inr
  refine .bind (Prog.onlyCalls_perform hstep) fun _ => ?_
  dsimp only
  split_ifs
  · exact onlyCalls_advance ⟨rfl, hreview, rfl, hreserved, hpending⟩
  · exact onlyCalls_advance ⟨rfl, nofun, rfl, hreserved, hpending⟩
  · exact onlyCalls_advance ⟨rfl, nofun, rfl, hreserved, hpending⟩

theorem failCompensation_own {attemptID : UUID} {number : ℕ} {cause : Error} (h : P .compensating) :
    (failCompensation o inst attemptID number cause).OnlyCalls (Own P ⟨o, inst⟩) := by
  refine .bind (Prog.onlyCalls_perform nofun) fun _ => ?_
  dsimp only
  split_ifs
  · exact escalate_own h
  · exact onlyCalls_advance ⟨rfl, nofun, rfl, nofun, nofun⟩

theorem settleGatewayOutcome_own (h : P .gatewayPending) (hat : AtGateway ⟨o, inst⟩)
    (attemptID : UUID) (outcome : Except Error Gateway.Payment) :
    (settleGatewayOutcome o inst attemptID outcome).OnlyCalls (Own P ⟨o, inst⟩) := by
  cases outcome with
  | ok payment =>
    simp only [settleGatewayOutcome]
    split_ifs
    · exact .bind (onlyCalls_finish fun _ _ => hat) fun _ =>
        onlyCalls_advance ⟨rfl, by simp, rfl, by simp, fun _ => hat⟩
    · trivial
  | error callErr =>
    simp only [settleGatewayOutcome]
    split_ifs
    · exact .bind (onlyCalls_finish fun _ _ => hat) fun _ =>
        onlyCalls_advance ⟨rfl, by simp, rfl, by simp, fun _ => hat⟩
    · unfold deferAmbiguity
      dsimp only
      split_ifs
      · exact escalate_own h
      · exact onlyCalls_advance ⟨rfl, by simp, rfl, by simp, fun _ => hat⟩

theorem reserve_own (h : inst.status = .pending) (p : Payload) :
    (reserve o inst p).OnlyCalls (Own P ⟨o, inst⟩) :=
  .bind (onlyCalls_nextAttempt trivial trivial) fun _ => .bind (onlyCalls_mustNewMoney ..) fun _ =>
    .bind (Prog.onlyCalls_perform trivial) fun _ => onlyCalls_posting trivial fun _ =>
      failForwardStep_own nofun (.inl h)

theorem settle_own (h : inst.status = .gatewaySucceeded) (p : Payload) :
    (settle o inst p).OnlyCalls (Own P ⟨o, inst⟩) :=
  .bind (onlyCalls_nextAttempt trivial trivial) fun _ => .bind (onlyCalls_mustNewMoney ..) fun _ =>
    .bind (onlyCalls_mustNewMoney ..) fun _ => .bind (onlyCalls_feeEntries p) fun _ =>
      .bind (Prog.onlyCalls_perform trivial) fun _ => onlyCalls_posting trivial fun _ =>
        failForwardStep_own nofun (.inr h)

theorem callGateway_own (h : P .gatewayPending) (hat : AtGateway ⟨o, inst⟩) (p : Payload) :
    (callGateway o inst p).OnlyCalls (Own P ⟨o, inst⟩) :=
  .bind (onlyCalls_nextAttempt trivial trivial) fun _ =>
    .bind (.bind (Prog.onlyCalls_perform ⟨rfl, rfl, rfl, rfl, rfl, rfl, hat⟩) onlyCalls_orReturn)
      fun _ =>
      .bind (.bind (Prog.onlyCalls_perform trivial) fun _ => Prog.onlyCalls_perform trivial)
        (settleGatewayOutcome_own h hat _)

theorem resolveGateway_own (h : P .gatewayPending) (hat : AtGateway ⟨o, inst⟩) :
    (resolveGateway o inst).OnlyCalls (Own P ⟨o, inst⟩) :=
  .bind (.bind (Prog.onlyCalls_perform trivial) onlyCalls_orReturn) fun _ =>
    .bind (Prog.onlyCalls_perform trivial) (settleGatewayOutcome_own h hat _)

/-- The one status that a worker does not fix by itself is the one it reads back. -/
theorem confirmCompensated_own (cause : Error) :
    (confirmCompensated o inst cause).Keeps (steady (Own P) (Reads P)) ⟨o, inst⟩
      (fun _ _ => True) w := by
  have hget : (Store.get inst.id).Keeps (steady (Own P) (Reads P)) ⟨o, inst⟩
      (fun current _ => P current.status) w := by
    refine Prog.keeps_perform_bind (fun _ _ _ => rfl) fun w₁ r w₂ _ _ hread _ _ => ?_
    cases r with
    | ok current => exact fun _ _ _ => hread
    | error e => trivial
  refine hget.bind trivial fun current w₁ _ _ hcurrent => ?_
  split_ifs
  · exact fun _ _ _ => trivial
  · exact own_keeps (escalate_own hcurrent)

theorem compensate_own (h : P .compensating) (p : Payload) :
    (compensate o inst p).Keeps (steady (Own P) (Reads P)) ⟨o, inst⟩ (fun _ _ => True) w := by
  have hattempts : (Store.attempts inst.id).OnlyCalls (Own P ⟨o, inst⟩) :=
    .bind (Prog.onlyCalls_perform trivial) onlyCalls_orReturn
  refine (own_keeps hattempts).bind trivial fun attempts w₁ _ _ _ => ?_
  dsimp only
  split_ifs
  · exact own_keeps (onlyCalls_advance ⟨rfl, nofun, rfl, nofun, nofun⟩)
  · refine (own_keeps (onlyCalls_nextAttempt trivial trivial)).bind trivial fun _ w₂ _ _ _ => ?_
    refine Prog.keeps_perform_bind (fun _ _ _ => trivial) fun w₃ _ w₄ _ _ _ _ _ => ?_
    refine Prog.keeps_perform_bind (fun _ _ _ => trivial) fun w₅ posted w₆ _ _ _ _ _ => ?_
    cases posted with
    | ok t => exact fun _ _ _ => trivial
    | error cause =>
      dsimp only
      split_ifs
      · exact confirmCompensated_own cause
      · exact own_keeps (failCompensation_own h)

theorem driveOne_own (hpending : P .gatewayPending) (hcompensating : P .compensating)
    (o : Orchestrator) (inst : Instance) (w : World) :
    (driveOne o inst).Keeps (steady (Own P) (Reads P)) ⟨o, inst⟩ (fun _ _ => True) w := by
  unfold driveOne
  split_ifs
  · exact fun _ _ _ => trivial
  · split
    · next h => exact own_keeps (reserve_own h _)
    · next h => exact own_keeps (callGateway_own hpending (.inl h) _)
    · next h => exact own_keeps (resolveGateway_own hpending (.inr h))
    · next h => exact own_keeps (settle_own h _)
    · exact own_keeps (onlyCalls_advance ⟨rfl, nofun, rfl, nofun, nofun⟩)
    · exact compensate_own hcompensating _
    · exact fun _ _ _ => trivial

end Own

theorem own_of_kept {P : Status → Prop} {s : Sys} (h : s.Kept (steady (Own P) (Reads P)))
    {worker : Worker} {c : Call} {k : Reply c → OrchM Unit} (ht : (worker, .call c k) ∈ s.tasks) :
    Own P worker c :=
  h.asks ht

theorem reach_own {s : Sys} (h : Sys.Reach (fun _ _ => True) .init s) :
    s.Kept (steady (Own fun _ => True) (Reads fun _ => True)) := by
  refine ReachBy.keeps (I := fun s : Sys => s.Kept (steady _ _)) h init_steady ?_
  intro s s' a hs _ hstep
  have hreads : ∀ c (r : Reply c), Reads (fun _ => True) c r := fun c r => by
    unfold Reads
    split <;> trivial
  exact step_steady hs (driveOne_own trivial trivial) (fun _ _ _ c _ r _ _ _ _ => hreads c r)
    (fun _ c r _ => hreads c r) hstep

/-- What an action does to the tables of the sagas. -/
inductive Writes (s : Sys) (a : Action) (s' : Sys) : Prop where
  | nothing (same : SameSagas s.world.db s'.world.db)
  | claim {o : Orchestrator} {now : Time} {claimed : List Instance}
      (claimed : Claimed o now claimed s.world.db s'.world.db)
  | start {o : Orchestrator} {now untilDeadline : Time} {id : NewUUID} {p : Payload}
      {principalID : String} {key : Option String} {inst : Instance}
      (started : start o now untilDeadline id p principalID key s.world.db = .ok (inst, s'.world.db))
  | call {i : ℕ} {ch : Choice} {worker : Worker} {c : Call} {k : Reply c → OrchM Unit} {r : Reply c}
      (action : a = .perform i ch) (task : s.tasks[i]? = some (worker, .call c k))
      (answer : World.call worker.inst.id ch c s.world = some (r, s'.world))
      (wrote : Wrote worker ch.draws.now s.world.db s'.world.db c r)

theorem step_writes {R : Rules} {s s' : Sys} {a : Action} (h : s.Kept (discipline R))
    (hstep : s.step a = some s') : Writes s a s' := by
  cases a with
  | claim expired cfg now locked =>
    obtain ⟨claimed, db, hclaim, hrows⟩ :=
      claim_claimed expired (.new cfg) now locked s
    obtain rfl : s.claim expired (.new cfg) now locked = s' := Option.some.inj hstep
    rw [hclaim]
    exact .claim hrows
  | perform i ch =>
    obtain ⟨worker, c, k, r, w, htask, hcall, rfl⟩ := Pool.perform_eq_some hstep
    exact .call rfl htask hcall (call_wrote (h.asks (List.mem_of_getElem? htask)) hcall)
  | abandon i e =>
    obtain ⟨worker, c, k, r, -, -, rfl⟩ := Pool.abandon_eq_some hstep
    exact .nothing (.refl _)
  | crash i =>
    cases hstep
    exact .nothing (.refl _)
  | start cfg now untilDeadline id p principalID key =>
    obtain rfl | ⟨inst, db', hstart, rfl⟩ := step_start hstep
    · exact .nothing (.refl _)
    · exact .start hstart
  | ledger op =>
    obtain ⟨hop, rfl⟩ := step_ledger hstep
    exact .nothing (outside_sameSagas hop)
  | keys idempotencyKeys =>
    cases hstep
    exact .nothing (.of_eq rfl rfl rfl)
  | deliver n d =>
    obtain ⟨_, _, -, rfl⟩ := step_deliver hstep
    exact .nothing (.refl _)
  | lose n =>
    obtain ⟨_, _, -, rfl⟩ := step_lose hstep
    exact .nothing (.refl _)

end LedgerCore.Payout
