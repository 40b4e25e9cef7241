import LedgerCore.Payout.Confirmed

/-! The payments that the orchestrators ask the gateway for. -/
namespace LedgerCore.Payout
open LedgerCore.Program LedgerCore.Saga
variable {id : UUID} {p : OrchM Unit} {w w' : World} {s s' : Sys}

/-- Every call but those of the gateway step, which alone fails a payment. -/
def Ordinary : Call → Prop
  | .advance t => t.target ≠ .gatewayFailed
  | .escalate _ t _ => t.target ≠ .gatewayFailed
  | .beginStep _ _ | .paySend _ | .payAwait _ _ | .probe _ => False
  | _ => True

/-- Every call but the one that starts an attempt and the one that asks for a payment. -/
def Idle : Call → Prop
  | .beginStep _ _ | .paySend _ => False
  | _ => True

theorem Ordinary.idle {c : Call} (h : Ordinary c) : Idle c := by
  cases c <;> first | exact h | trivial

section Ordinary
variable {o : Orchestrator} {inst : Instance}

def sparesPayment (_ target : Status) : Prop := target ≠ .gatewayFailed

theorem Bookkeeping.ordinary {c : Call} (h : Bookkeeping sparesPayment c) : Ordinary c := by
  cases c <;> first | exact h | trivial

theorem Bookkeeping.idle {E : Status → Status → Prop} {c : Call} (h : Bookkeeping E c) :
    Idle c := by
  cases c <;> first | exact h | trivial

theorem failForwardStep_ordinary (h : inst.status ≠ .gatewayFailed) (step : Step) (attemptID : UUID)
    (number : ℕ) (cause : Error) :
    (failForwardStep o inst step attemptID number cause).OnlyCalls Ordinary :=
  (failForwardStep_books (E := sparesPayment) h (fun _ => nofun) fun _ _ => nofun).mono fun _ =>
    Bookkeeping.ordinary

theorem reserve_ordinary (h : inst.status ≠ .gatewayFailed) (p : Payload) :
    (reserve o inst p).OnlyCalls Ordinary :=
  .bind (onlyCalls_nextAttempt trivial trivial) fun _ =>
    .bind (onlyCalls_mustNewMoney ..) fun _ =>
      .bind (Prog.onlyCalls_perform trivial) fun _ =>
        onlyCalls_posting trivial (failForwardStep_ordinary h _ _ _)

theorem settle_ordinary (h : inst.status ≠ .gatewayFailed) (p : Payload) :
    (settle o inst p).OnlyCalls Ordinary :=
  .bind (onlyCalls_nextAttempt trivial trivial) fun _ =>
    .bind (onlyCalls_mustNewMoney ..) fun _ => .bind (onlyCalls_mustNewMoney ..) fun _ =>
      .bind (onlyCalls_feeEntries p) fun _ => .bind (Prog.onlyCalls_perform trivial) fun _ =>
        onlyCalls_posting trivial (failForwardStep_ordinary h _ _ _)

theorem confirmCompensated_ordinary (cause : Error) :
    (confirmCompensated o inst cause).OnlyCalls Ordinary := by
  refine .bind (.bind (Prog.onlyCalls_perform trivial) onlyCalls_orReturn) fun current => ?_
  split_ifs
  · trivial
  · refine (escalate_books ?_).mono fun _ => Bookkeeping.ordinary
    exact nofun

theorem compensate_ordinary (p : Payload) : (compensate o inst p).OnlyCalls Ordinary := by
  refine .bind (.bind (Prog.onlyCalls_perform trivial) onlyCalls_orReturn) fun attempts => ?_
  dsimp only
  split_ifs
  · exact onlyCalls_advance nofun
  · refine .bind (onlyCalls_nextAttempt trivial trivial) fun _ => ?_
    refine .bind (Prog.onlyCalls_perform trivial) fun _ => ?_
    refine .bind (Prog.onlyCalls_perform trivial) fun posted => ?_
    cases posted with
    | ok t => trivial
    | error cause =>
      dsimp only
      split_ifs
      · exact confirmCompensated_ordinary cause
      · exact (failCompensation_books (E := sparesPayment) nofun nofun).mono fun _ =>
          Bookkeeping.ordinary

end Ordinary

/-- The next call asks for the saga's payment, and no later one does. -/
def Armed (id : UUID) : OrchM Unit → Prop
  | .call (.paySend req) k => req.idempotencyKey = gatewayKey id ∧ ∀ r, (k r).OnlyCalls Idle
  | _ => False

/-- A payment is asked for only right after the attempt that announces it was started. -/
def Careful (id : UUID) : OrchM Unit → Prop
  | .pure _ => True
  | .fail _ => True
  | .call (.paySend _) _ => False
  | .call (.beginStep a t) k =>
    (a.sagaID = id ∧ a.step = .gateway ∧ a.gatewayKey = gatewayKey id ∧ t.sagaID = id ∧
      t.source = .reserved ∧ t.target = .gatewayPending) ∧
    (∀ e, (k (.error e)).OnlyCalls Idle) ∧ (Armed id (k (.ok ())) ∨ (k (.ok ())).OnlyCalls Idle)
  | .call _ k => ∀ r, Careful id (k r)

theorem careful_of_idle (h : p.OnlyCalls Idle) : Careful id p := by
  induction p with
  | pure a => trivial
  | fail e => trivial
  | call c k ih =>
    cases c with
    | beginStep a t => exact h.1.elim
    | paySend req => exact h.1.elim
    | _ => exact fun r => ih r (h.2 r)

theorem Careful.bind {α : Type} {p : OrchM α} {f : α → OrchM Unit} (hp : p.OnlyCalls Idle)
    (hf : ∀ a, Careful id (f a)) : Careful id (p >>= f) := by
  induction p with
  | pure a => exact hf a
  | fail e => trivial
  | call c k ih =>
    cases c with
    | beginStep a t => exact hp.1.elim
    | paySend req => exact hp.1.elim
    | _ => exact fun r => ih r (hp.2 r)

theorem settleGatewayOutcome_idle {o : Orchestrator} {inst : Instance} {attemptID : UUID}
    (outcome : Except Error Gateway.Payment) :
    (settleGatewayOutcome o inst attemptID outcome).OnlyCalls Idle :=
  (settleGatewayOutcome_books (E := fun _ _ => True) trivial (fun _ _ _ => trivial) trivial
    trivial).mono fun _ => Bookkeeping.idle

theorem callGateway_careful {o : Orchestrator} {inst : Instance} (p : Payload) :
    Careful inst.id (callGateway o inst p) := by
  refine Careful.bind (onlyCalls_nextAttempt trivial trivial) fun ⟨attemptID, number⟩ => ?_
  refine ⟨⟨rfl, rfl, rfl, rfl, rfl, rfl⟩, fun e => trivial, .inl ⟨rfl, fun request => ?_⟩⟩
  exact ⟨trivial, settleGatewayOutcome_idle⟩

theorem driveOne_careful (o : Orchestrator) (inst : Instance) :
    Careful inst.id (driveOne o inst) := by
  have hordinary : ∀ {p : OrchM Unit}, p.OnlyCalls Ordinary → Careful inst.id p := fun h =>
    careful_of_idle (h.mono fun _ => Ordinary.idle)
  unfold driveOne
  split_ifs
  · trivial
  · split
    · next h => exact hordinary (reserve_ordinary (by simp [h]) _)
    · exact callGateway_careful _
    · refine careful_of_idle (.bind (.bind (Prog.onlyCalls_perform trivial) onlyCalls_orReturn) ?_)
      exact fun _ => .bind (Prog.onlyCalls_perform trivial) settleGatewayOutcome_idle
    · next h => exact hordinary (settle_ordinary (by simp [h]) _)
    · exact hordinary (onlyCalls_advance nofun)
    · exact hordinary (compensate_ordinary _)
    · trivial

def sends : OrchM Unit → Bool
  | .call (.paySend _) _ => true
  | _ => false

theorem Careful.sends_eq_false (h : Careful id p) : sends p = false := by
  cases p with
  | call c k =>
    cases c with
    | paySend req => exact h.elim
    | _ => rfl
  | _ => rfl

def armed (tasks : List (Worker × OrchM Unit)) (id : UUID) : ℕ :=
  tasks.countP fun t => id = t.1.inst.id && sends t.2

def World.asked (w : World) : List (UUID × Gateway.PaymentRequest) :=
  w.sent.map fun q => (q.sagaID, q.request)

/-- An attempt under the saga's key is stored, and so is the status that goes with it. -/
structure Announced (db : DB) (id : UUID) : Prop where
  status : ∃ r, db.sagaInstances.find? id = some r ∧ r.status = .gatewayPending
  attempt : ∃ r ∈ db.sagaSteps.values, r.sagaID = id ∧ r.step = .gateway ∧ r.status = .attempted ∧
    r.gatewayKey = some (gatewayKey id)

/-- Every task asks for its own saga's payment, if for any, and with its key. -/
def Sys.Careful (s : Sys) : Prop :=
  ∀ t ∈ s.tasks, Payout.Careful t.1.inst.id t.2 ∨ Armed t.1.inst.id t.2

/-- What an action can do to the payments: nothing, announce one, or ask for one. -/
inductive Shift (s s' : Sys) : Prop where
  | quiet (asked : s'.world.asked = s.world.asked)
      (tasks : ∀ t ∈ s'.tasks, t ∈ s.tasks ∨ Careful t.1.inst.id t.2)
      (armed : ∀ k, armed s'.tasks k ≤ armed s.tasks k)
  | announce {id : UUID} (asked : s'.world.asked = s.world.asked)
      (tasks : ∀ t ∈ s'.tasks, t ∈ s.tasks ∨ t.1.inst.id = id ∧ Armed id t.2)
      (armed : ∀ k, armed s'.tasks k = armed s.tasks k + if k = id then 1 else 0)
      (before : ∃ p, s.world.view.saga id = some ⟨p, .reserved⟩)
      (after : Announced s'.world.db id)
  | ask {id : UUID} {req : Gateway.PaymentRequest} (key : req.idempotencyKey = gatewayKey id)
      (asked : s'.world.asked = s.world.asked ++ [(id, req)])
      (tasks : ∀ t ∈ s'.tasks, t ∈ s.tasks ∨ Careful t.1.inst.id t.2)
      (armed : ∀ k, armed s'.tasks k + (if k = id then 1 else 0) = armed s.tasks k)
      (task : ∃ t ∈ s.tasks, t.1.inst.id = id ∧ Armed id t.2)

theorem countP_set_add {α : Type} {p : α → Bool} {l : List α} {i : ℕ} {a : α} (h : l[i]? = some a)
    (b : α) : (l.set i b).countP p + (if p a then 1 else 0) =
      l.countP p + if p b then 1 else 0 := by
  obtain ⟨hi, rfl⟩ := List.getElem?_eq_some_iff.1 h
  have hle : (if p l[i] = true then 1 else 0) ≤ l.countP p := by
    split_ifs with hp
    · exact List.countP_pos_iff.2 ⟨_, List.getElem_mem hi, hp⟩
    · exact Nat.zero_le _
  rw [List.countP_set hi]
  omega

theorem call_gateway {ch : Choice} {c : Call} {r : Reply c}
    (h : World.call id ch c w = some (r, w')) :
    (∃ req, c = .paySend req) ∨ (∃ key, c = .probe key) ∨
      w'.records = w.records ∧ w'.sent = w.sent ∧ w'.probed = w.probed := by
  cases c with
  | paySend req => exact .inl ⟨req, rfl⟩
  | probe key => exact .inr (.inl ⟨key, rfl⟩)
  | payAwait key request =>
    simp only [World.call] at h
    split at h
    · cases h
      exact .inr (.inr ⟨rfl, rfl, rfl⟩)
    · cases h
  | postTransaction req =>
    obtain ⟨rfl, -⟩ | ⟨t, db, -, -, rfl⟩ := ledger_cases (Option.some.inj h) <;>
      exact .inr (.inr ⟨rfl, rfl, rfl⟩)
  | reverseTransactionRecorded txID reason record =>
    obtain ⟨rfl, -⟩ | ⟨t, db, -, -, rfl⟩ := ledger_cases (Option.some.inj h) <;>
      exact .inr (.inr ⟨rfl, rfl, rfl⟩)
  | advance t | beginStep a t | recordAttempt a | escalate eventID t alert =>
    obtain rfl | ⟨db, -, rfl⟩ := write_cases (Option.some.inj h) <;>
      exact .inr (.inr ⟨rfl, rfl, rfl⟩)
  | _ =>
    cases h
    exact .inr (.inr ⟨rfl, rfl, rfl⟩)

theorem call_asked {ch : Choice} {c : Call} {r : Reply c} (h : World.call id ch c w = some (r, w'))
    (hc : ∀ req, c ≠ .paySend req) : w'.asked = w.asked := by
  obtain ⟨req, rfl⟩ | ⟨key, rfl⟩ | ⟨-, hsent, -⟩ := call_gateway h
  · exact absurd rfl (hc req)
  · cases h
    rfl
  · rw [World.asked, hsent]
    rfl

theorem deliver_eq_some {n : ℕ} {d : Gateway.Decision} (h : w.deliver n d = some w') :
    ∃ sagaID request, w.sent[n]? = some ⟨sagaID, request, .inFlight⟩ ∧
      w' = { w with
        records := (Gateway.pay d request w.records).2
        sent := w.sent.set n ⟨sagaID, request, .answered (Gateway.pay d request w.records).1⟩ } := by
  unfold World.deliver at h
  split at h
  · next sagaID request hq => exact ⟨sagaID, request, hq, (Option.some.inj h).symm⟩
  · cases h

theorem lose_eq_some {n : ℕ} (h : w.lose n = some w') :
    ∃ sagaID request, w.sent[n]? = some ⟨sagaID, request, .inFlight⟩ ∧
      w' = { w with sent := w.sent.set n ⟨sagaID, request, .lost⟩ } := by
  unfold World.lose at h
  split at h
  · next sagaID request hq => exact ⟨sagaID, request, hq, (Option.some.inj h).symm⟩
  · cases h

theorem step_deliver {n : ℕ} {d : Gateway.Decision} (h : s.step (.deliver n d) = some s') :
    ∃ sagaID request, s.world.sent[n]? = some ⟨sagaID, request, .inFlight⟩ ∧
      s' = { s with world := { s.world with
        records := (Gateway.pay d request s.world.records).2
        sent := s.world.sent.set n
          ⟨sagaID, request, .answered (Gateway.pay d request s.world.records).1⟩ } } := by
  obtain ⟨w, hw, rfl⟩ := Option.map_eq_some_iff.1 h
  obtain ⟨sagaID, request, hq, rfl⟩ := deliver_eq_some hw
  exact ⟨sagaID, request, hq, rfl⟩

theorem step_lose {n : ℕ} (h : s.step (.lose n) = some s') :
    ∃ sagaID request, s.world.sent[n]? = some ⟨sagaID, request, .inFlight⟩ ∧
      s' = { s with world := { s.world with
        sent := s.world.sent.set n ⟨sagaID, request, .lost⟩ } } := by
  obtain ⟨w, hw, rfl⟩ := Option.map_eq_some_iff.1 h
  obtain ⟨sagaID, request, hq, rfl⟩ := lose_eq_some hw
  exact ⟨sagaID, request, hq, rfl⟩

theorem asked_set {n : ℕ} {sagaID : UUID} {request : Gateway.PaymentRequest} {delivery : Delivery}
    (hq : w.sent[n]? = some ⟨sagaID, request, delivery⟩) (delivery' : Delivery)
    (records : Gateway.Records) :
    World.asked { w with records, sent := w.sent.set n ⟨sagaID, request, delivery'⟩ } = w.asked := by
  have hget : (w.sent.map fun q => (q.sagaID, q.request))[n]? = some (sagaID, request) := by
    rw [List.getElem?_map, hq, Option.map_some]
  obtain ⟨hn, hget⟩ := List.getElem?_eq_some_iff.1 hget
  simp only [World.asked, List.map_set]
  rw [← hget, List.set_getElem_self]

theorem gatewayKey_ne_empty (id : UUID) : gatewayKey id ≠ "" := by
  intro h
  have hlength := congrArg String.length h
  rw [gatewayKey, String.length_append, UUID.length_string] at hlength
  exact absurd hlength (by simp)

theorem beginStep_announced {now : Time} {a : StartAttempt} {t : Transition} {db db' : DB}
    (ha : a.sagaID = id ∧ a.step = .gateway ∧ a.gatewayKey = gatewayKey id ∧
      t.sagaID = id ∧ t.source = .reserved ∧ t.target = .gatewayPending)
    (h : Saga.beginStep now a t db = .ok db') : Announced db' id := by
  obtain ⟨rfl, hstep, hkey, ht, -, htarget⟩ := ha
  obtain ⟨db₁, hins, hadv⟩ := bind_eq_ok.1 h
  obtain ⟨sagaSteps, hi, rfl⟩ := insertStep_eq_ok (mapError_eq_ok.1 hins)
  obtain ⟨r, hr, -, rfl⟩ := advance_eq_ok.1 hadv
  refine ⟨⟨t.apply now r, ?_, htarget⟩, _, Table.mem_values_insert hi, rfl, hstep, rfl, ?_⟩
  · rw [ht] at hr ⊢
    simp [hr]
  · simp [nullIfEmpty, hkey, gatewayKey_ne_empty]

section Task
variable {s : Sys} {worker : Worker} {c : Call} {k : Reply c → OrchM Unit} {i : ℕ}

theorem armed_set {tasks : List (Worker × OrchM Unit)} {p' : OrchM Unit} {b b' : Bool}
    (ht : tasks[i]? = some (worker, p)) (hp : sends p = b) (hp' : sends p' = b') (id : UUID) :
    armed (tasks.set i (worker, p')) id + (if id = worker.inst.id ∧ b then 1 else 0) =
      armed tasks id + if id = worker.inst.id ∧ b' then 1 else 0 := by
  simpa [armed, hp, hp'] using countP_set_add (p := fun t : Worker × OrchM Unit =>
    id = t.1.inst.id && sends t.2) ht (worker, p')

theorem set_careful (hp : Careful worker.inst.id p) :
    ∀ t ∈ s.tasks.set i (worker, p), t ∈ s.tasks ∨ Careful t.1.inst.id t.2 := by
  intro t hmem
  rcases List.mem_or_eq_of_mem_set hmem with hmem | rfl
  · exact .inl hmem
  · exact .inr hp

theorem Armed.sends_eq_true (h : Armed id p) : sends p = true := by
  cases p with
  | call c k =>
    cases c with
    | paySend req => rfl
    | _ => exact h.elim
  | _ => exact h.elim

theorem beginStep_shift {ch : Choice} {a : StartAttempt} {t : Transition}
    {k : Except Error Unit → OrchM Unit}
    (ht : s.tasks[i]? = some (worker, .call (.beginStep a t) k))
    (hc : World.call worker.inst.id ch (.beginStep a t) s.world = some (.ok (), w))
    (ha : a.sagaID = worker.inst.id ∧ a.step = .gateway ∧ a.gatewayKey = gatewayKey worker.inst.id ∧
      t.sagaID = worker.inst.id ∧ t.source = .reserved ∧ t.target = .gatewayPending)
    (harmed : Armed worker.inst.id (k (.ok ()))) :
    Shift s ⟨w, s.tasks.set i (worker, k (.ok ()))⟩ := by
  obtain ⟨db, hbegin, rfl⟩ : ∃ db, Saga.beginStep ch.draws.now a t s.world.db = .ok db ∧
      w = { s.world with db } := by
    have hwrite := Option.some.inj hc
    cases hdb : Saga.beginStep ch.draws.now a t s.world.db with
    | error e => simp [hdb, World.write, Except.map] at hwrite
    | ok db =>
      rw [hdb] at hwrite
      exact ⟨db, rfl, (congrArg Prod.snd hwrite).symm⟩
  obtain ⟨p, hp, -⟩ := beginStep_view (l := s.world.posted) hbegin
  rw [ha.2.2.2.1, ha.2.2.2.2.1] at hp
  refine .announce rfl (fun t hmem => ?_) (fun id => ?_) ⟨p, hp⟩ (beginStep_announced ha hbegin)
  · rcases List.mem_or_eq_of_mem_set hmem with hmem | rfl
    · exact .inl hmem
    · exact .inr ⟨rfl, harmed⟩
  · simpa using armed_set (b := false) ht rfl harmed.sends_eq_true id

theorem perform_shift {ch : Choice} {r : Reply c} (hs : s.Careful)
    (ht : s.tasks[i]? = some (worker, .call c k))
    (hc : World.call worker.inst.id ch c s.world = some (r, w)) :
    Shift s ⟨w, s.tasks.set i (worker, k r)⟩ := by
  have hquiet : Careful worker.inst.id (k r) → (∀ req, c ≠ .paySend req) →
      Shift s ⟨w, s.tasks.set i (worker, k r)⟩ := fun hk hreq => by
    refine .quiet (call_asked hc hreq) (set_careful hk) fun id => ?_
    have h := armed_set ht rfl hk.sends_eq_false id
    simp only [Bool.false_eq_true, and_false, if_false, add_zero] at h
    exact h ▸ Nat.le_add_right ..
  rcases hs _ (List.mem_of_getElem? ht) with hcareful | harmed
  · cases c with
    | paySend req => exact hcareful.elim
    | beginStep a t =>
      obtain ⟨ha, herror, hok⟩ := hcareful
      cases r with
      | error e => exact hquiet (careful_of_idle (herror e)) nofun
      | ok _ =>
        rcases hok with harmed | hidle
        · exact beginStep_shift ht hc ha harmed
        · exact hquiet (careful_of_idle hidle) nofun
    | _ => exact hquiet (hcareful r) nofun
  · cases c with
    | paySend req =>
      obtain ⟨hkey, hidle⟩ := harmed
      cases hc
      have hk : Careful worker.inst.id (k s.world.sent.length) := careful_of_idle (hidle _)
      refine .ask hkey ?_ (set_careful hk) (fun id => ?_)
        ⟨_, List.mem_of_getElem? ht, rfl, hkey, hidle⟩
      · simp [World.asked]
      · simpa using armed_set (b := true) ht rfl hk.sends_eq_false id
    | _ => exact harmed.elim

theorem abandon_shift {e : Error} {r : Reply c} (hs : s.Careful)
    (ht : s.tasks[i]? = some (worker, .call c k)) (hr : World.fault e c = some r) :
    Shift s { s with tasks := s.tasks.set i (worker, k r) ++ [(worker, .unattended c)] } := by
  obtain ⟨hk, hrest⟩ : Careful worker.inst.id (k r) ∧ Careful worker.inst.id (.unattended c) := by
    rcases hs _ (List.mem_of_getElem? ht) with hcareful | harmed
    · cases c with
      | paySend req => exact hcareful.elim
      | beginStep a t =>
        cases hr
        exact ⟨careful_of_idle (hcareful.2.1 e), hcareful.1, fun _ => trivial, .inr trivial⟩
      | _ => exact ⟨hcareful r, fun _ => trivial⟩
    · cases c with
      | paySend req => cases hr
      | _ => exact harmed.elim
  refine .quiet rfl (fun t hmem => ?_) fun id => ?_
  · rcases List.mem_append.1 hmem with hmem | hmem
    · exact set_careful hk t hmem
    · rw [List.mem_singleton.1 hmem]
      exact .inr hrest
  · have h := armed_set ht rfl hk.sends_eq_false id
    simp only [Bool.false_eq_true, and_false, if_false, add_zero] at h
    simp only [armed, List.countP_append, List.countP_singleton, hrest.sends_eq_false] at h ⊢
    simp only [Bool.and_false, Bool.false_eq_true, if_false, add_zero]
    omega

end Task

theorem step_shift {a : Action} (hs : s.Careful) (hstep : s.step a = some s') : Shift s s' := by
  have hsame : ∀ {w : World}, w.asked = s.world.asked → Shift s { s with world := w } := fun h =>
    .quiet h (fun _ hmem => .inl hmem) fun _ => le_rfl
  cases a with
  | claim expired cfg now locked =>
    cases hstep
    refine .quiet rfl (fun t hmem => (List.mem_append.1 hmem).imp_right fun h => ?_) fun id => ?_
    · obtain ⟨inst, -, rfl⟩ := List.mem_map.1 h
      exact driveOne_careful _ inst
    · have hzero : ∀ claimed : List Instance,
          armed (claimed.map fun inst => (⟨.new cfg, inst⟩, driveOne (.new cfg) inst)) id = 0 :=
        fun claimed => List.countP_eq_zero.2 fun t h => by
          obtain ⟨inst, -, rfl⟩ := List.mem_map.1 h
          simp [(driveOne_careful _ inst).sends_eq_false]
      exact le_of_eq ((List.countP_append ..).trans (congrArg (armed s.tasks id + ·) (hzero _)))
  | perform i ch =>
    obtain ⟨worker, c, k, r, w, ht, hc, rfl⟩ := Pool.perform_eq_some hstep
    exact perform_shift hs ht hc
  | abandon i e =>
    obtain ⟨worker, c, k, r, ht, hr, rfl⟩ := Pool.abandon_eq_some hstep
    exact abandon_shift hs ht hr
  | crash i =>
    cases hstep
    exact .quiet rfl (fun t hmem => .inl (List.mem_of_mem_eraseIdx hmem)) fun _ =>
      (List.eraseIdx_sublist ..).countP_le
  | start cfg now untilDeadline id p principalID key =>
    obtain rfl | ⟨_, _, -, rfl⟩ := step_start hstep
    · exact hsame rfl
    · exact hsame rfl
  | ledger op =>
    obtain ⟨-, rfl⟩ := step_ledger hstep
    exact hsame rfl
  | keys idempotencyKeys =>
    cases hstep
    exact hsame rfl
  | deliver n d =>
    obtain ⟨_, _, hq, rfl⟩ := step_deliver hstep
    exact hsame (asked_set hq ..)
  | lose n =>
    obtain ⟨_, _, hq, rfl⟩ := step_lose hstep
    exact hsame (asked_set hq ..)

theorem Shift.careful (h : Shift s s') (hs : s.Careful) : s'.Careful := by
  intro t hmem
  cases h with
  | quiet _ tasks _ => exact (tasks t hmem).elim (hs t) .inl
  | @announce id _ tasks _ _ _ =>
    rcases tasks t hmem with hmem | ⟨rfl, harmed⟩
    · exact hs t hmem
    · exact .inr harmed
  | ask _ _ tasks _ _ => exact (tasks t hmem).elim (hs t) .inl

/-- The statuses of a saga whose payment may have been asked for. -/
def Past (st : Status) : Prop := st ≠ .pending ∧ st ≠ .reserved

theorem Past.closed {refund : Prop} {s t : Status} (h : Past s) (ht : Transitions refund s t) :
    Past t := by
  cases s <;> cases t <;> simp_all [Past, Transitions, Edge]

/-- The payments of a saga that were asked for or are about to be. -/
def Sys.payments (s : Sys) (id : UUID) : ℕ :=
  armed s.tasks id + s.world.asked.countP fun q => id = q.1

/-- The payments of a saga grow only when one is announced, which takes it out of `RESERVED`. -/
theorem Shift.payments (h : Shift s s') (k : UUID) :
    s'.payments k ≤ s.payments k ∨ s'.payments k = s.payments k + 1 ∧
      (∃ p, s.world.view.saga k = some ⟨p, .reserved⟩) ∧ Announced s'.world.db k := by
  cases h with
  | quiet asked _ armed =>
    left
    rw [Sys.payments, asked]
    exact Nat.add_le_add_right (armed k) _
  | @announce id asked _ armed before after =>
    rw [Sys.payments, asked, armed k]
    split_ifs with hk
    · subst hk
      exact .inr ⟨Nat.add_right_comm .., before, after⟩
    · exact .inl le_rfl
  | @ask id req _ asked _ armed _ =>
    left
    rw [Sys.payments, Sys.payments, asked, ← armed k, List.countP_append, List.countP_singleton]
    simp only [decide_eq_true_eq]
    omega

/-- A saga has at most one payment, none before its status says so, and its own key with it. -/
structure Once (s : Sys) : Prop where
  careful : s.Careful
  once : ∀ id, s.payments id ≤ 1
  past : ∀ id, s.payments id ≠ 0 → ∃ p st, s.world.view.saga id = some ⟨p, st⟩ ∧ Past st
  keys : ∀ q ∈ s.world.asked, q.2.idempotencyKey = gatewayKey q.1

def anything : Rules where
  refund := True
  reversible _ _ := True

theorem allowed_anything (s : Sys) (a : Action) : Allowed anything s a := by
  cases a with
  | ledger op => exact fun _ _ => trivial
  | perform i ch => exact .inl trivial
  | abandon i e => exact .inl trivial
  | _ => trivial

theorem Once.step (h : Once s) (hshift : Shift s s')
    (hlater : Later anything s.world.view s'.world.view) : Once s' := by
  refine ⟨hshift.careful h.careful, fun id => ?_, fun id hid => ?_, fun q hq => ?_⟩
  · rcases hshift.payments id with hle | ⟨heq, ⟨p, hp⟩, -⟩
    · exact hle.trans (h.once id)
    · -- The saga was still reserved, so nobody had got this far with it.
      have hnone : s.payments id = 0 := by
        by_contra hne
        obtain ⟨p', st, hst, hpast⟩ := h.past id hne
        obtain ⟨-, rfl⟩ := Progress.mk.inj (Option.some.inj (hp.symm.trans hst))
        exact hpast.2 rfl
      rw [heq, hnone]
  · rcases hshift.payments id with hle | ⟨-, -, hannounced⟩
    · obtain ⟨p, st, hst, hpast⟩ := h.past id fun h0 => hid (Nat.le_zero.1 (h0 ▸ hle))
      exact ⟨p, hlater.saga Past.closed ⟨st, hst, hpast⟩⟩
    · obtain ⟨r, hr, hstatus⟩ := hannounced.status
      exact ⟨r.payload, r.status, Option.map_eq_some_iff.2 ⟨r, hr, rfl⟩, by simp [hstatus, Past]⟩
  · cases hshift with
    | quiet asked _ _ => exact h.keys q (asked ▸ hq)
    | announce asked _ _ _ _ => exact h.keys q (asked ▸ hq)
    | ask key asked _ _ _ =>
      rw [asked, List.mem_append, List.mem_singleton] at hq
      rcases hq with hq | rfl
      · exact h.keys q hq
      · exact key

/-- The saga's payment was announced in an earlier state, before the `n`th request was made. -/
def Preceded (s : Sys) (id : UUID) (n : ℕ) : Prop :=
  ∃ s₀, Sys.Reach (fun _ _ => True) .init s₀ ∧ Sys.Reach (fun _ _ => True) s₀ s ∧
    s₀.world.asked.length ≤ n ∧ Announced s₀.world.db id

/-- Whoever asks for a payment, or is about to, has announced it. -/
structure Traced (s : Sys) : Prop where
  armed : ∀ t ∈ s.tasks, Armed t.1.inst.id t.2 → Preceded s t.1.inst.id s.world.asked.length
  asked : ∀ n q, s.world.asked[n]? = some q → Preceded s q.1 n

theorem Traced.step {a : Action} (h : Traced s) (hreach : Sys.Reach (fun _ _ => True) .init s)
    (hstep : s.step a = some s') (hshift : Shift s s') : Traced s' := by
  have hnext : Sys.Reach (fun _ _ => True) s s' := .single ⟨a, trivial, hstep⟩
  have hmono : ∀ {id n m}, n ≤ m → Preceded s id n → Preceded s' id m :=
    fun hle ⟨s₀, h₀, h₁, hn, hannounced⟩ => ⟨s₀, h₀, h₁.trans hnext, hn.trans hle, hannounced⟩
  have hold : ∀ {t : Worker × OrchM Unit}, t ∈ s.tasks ∨ Careful t.1.inst.id t.2 →
      Armed t.1.inst.id t.2 → Preceded s t.1.inst.id s.world.asked.length := fun ht ha => by
    refine ht.elim (fun hmem => h.armed _ hmem ha) fun hc => ?_
    exact absurd ha.sends_eq_true (by simp [hc.sends_eq_false])
  cases hshift with
  | quiet asked tasks _ =>
    refine ⟨fun t hmem ha => ?_, fun n q hq => ?_⟩
    · exact hmono (by rw [asked]) (hold (tasks t hmem) ha)
    · exact hmono le_rfl (h.asked n q (asked ▸ hq))
  | @announce id asked tasks _ _ after =>
    refine ⟨fun t hmem ha => ?_, fun n q hq => ?_⟩
    · rcases tasks t hmem with hmem | ⟨rfl, -⟩
      · exact hmono (by rw [asked]) (h.armed t hmem ha)
      · exact ⟨s', hreach.trans hnext, .refl, le_rfl, after⟩
    · exact hmono le_rfl (h.asked n q (asked ▸ hq))
  | @ask id req key asked tasks _ task =>
    refine ⟨fun t hmem ha => ?_, fun n q hq => ?_⟩
    · refine hmono ?_ (hold (tasks t hmem) ha)
      simp [asked]
    · rw [asked, List.getElem?_append] at hq
      split_ifs at hq with hn
      · exact hmono le_rfl (h.asked n q hq)
      · obtain ⟨t, hmem, rfl, harmed⟩ := task
        obtain rfl := List.mem_singleton.1 (List.mem_of_getElem? hq)
        exact hmono (not_lt.1 hn) (h.armed t hmem harmed)

theorem reach_once (h : Sys.Reach (fun _ _ => True) .init s) : Once s ∧ Traced s := by
  induction h with
  | refl =>
    refine ⟨⟨?_, fun _ => Nat.zero_le _, fun _ h => absurd rfl h, ?_⟩, ?_, ?_⟩
    exacts [fun _ h => (nomatch h), fun _ h => (nomatch h), fun _ h => (nomatch h),
      fun _ _ h => (nomatch h)]
  | tail hreach hstep ih =>
    obtain ⟨a, -, hstep⟩ := hstep
    have hshift := step_shift ih.1.careful hstep
    have hkept := (reach_kept (reach_mono hreach fun s a _ => allowed_anything s a) init_kept).1
    exact ⟨ih.1.step hshift (step_kept hkept (allowed_anything _ a) hstep).2,
      ih.2.step hreach hstep hshift⟩

theorem asked_getElem? (w : World) (n : ℕ) :
    w.asked[n]? = w.sent[n]?.map fun q => (q.sagaID, q.request) :=
  List.getElem?_map ..

/-- Over any run of any number of workers, a saga's payment is asked for at most once, under the
saga's key, and after the attempt and the status that announce it were committed. -/
theorem pays_at_most_once {s : Sys} (h : Sys.Reach (fun _ _ => True) .init s) :
    (∀ id, (s.world.sent.filter fun q => q.sagaID = id).length ≤ 1) ∧
      ∀ n q, s.world.sent[n]? = some q → q.request.idempotencyKey = gatewayKey q.sagaID ∧
        ∃ s₀, Sys.Reach (fun _ _ => True) .init s₀ ∧ Sys.Reach (fun _ _ => True) s₀ s ∧
          s₀.world.sent.length ≤ n ∧ Announced s₀.world.db q.sagaID := by
  obtain ⟨honce, htraced⟩ := reach_once h
  refine ⟨fun id => ?_, fun n q hq => ?_⟩
  · have hle := (Nat.le_add_left ..).trans (honce.once id)
    rw [World.asked, List.countP_map, List.countP_eq_length_filter] at hle
    simpa [Function.comp_def, eq_comm] using hle
  · have hasked : s.world.asked[n]? = some (q.sagaID, q.request) := by
      rw [asked_getElem?, hq, Option.map_some]
    obtain ⟨s₀, h₀, h₁, hn, hannounced⟩ := htraced.asked n _ hasked
    refine ⟨honce.keys _ (List.mem_of_getElem? hasked), s₀, h₀, h₁, ?_, hannounced⟩
    simpa [World.asked] using hn

theorem pays_at_most_once_completed :
    ∃ s, Sys.init.run sampleRun = some s ∧ s.world.sent.map (fun q => q.sagaID) = [7] ∧
      (∀ id, (s.world.sent.filter fun q => q.sagaID = id).length ≤ 1) := by
  have hrun : (Sys.init.run sampleRun).any (fun s =>
      s.world.sent.map (fun q => q.sagaID) = [7]) = true := by
    decide +kernel
  obtain ⟨s, hs, hsent⟩ := one_run hrun
  have hreach := reach_of_run hs fun _ _ _ => trivial
  exact ⟨s, hs, hsent, (pays_at_most_once hreach).1⟩

end LedgerCore.Payout
