import LedgerCore.Payout.Requests

/-! Leases on payouts, over time: how long a worker has a saga to itself. -/
namespace LedgerCore.Payout
open LedgerCore.Program LedgerCore.Saga

structure Clocked where
  time : Time
  sys : Sys

def Action.now : Action → Option Time
  | .claim _ _ now _ => some now
  | .perform _ ch => some ch.draws.now
  | .start _ now _ _ _ _ _ => some now
  | _ => none

namespace Clocked

def init : Clocked := ⟨0, .init⟩

/-- An action at a time. Time does not run backwards, and no transaction began after it ends. -/
def step (s : Clocked) (a : Time × Action) : Option Clocked :=
  if s.time ≤ a.1 ∧ (a.2.now.all fun now => now ≤ a.1) then
    (s.sys.step a.2).map fun sys => ⟨a.1, sys⟩
  else none

theorem step_eq_some {s s' : Clocked} {a : Time × Action} (h : s.step a = some s') :
    s.time ≤ a.1 ∧ (∀ now ∈ a.2.now, now ≤ a.1) ∧ s'.time = a.1 ∧ s.sys.step a.2 = some s'.sys := by
  unfold step at h
  split_ifs at h with htime
  obtain ⟨sys, hsys, rfl⟩ := Option.map_eq_some_iff.1 h
  refine ⟨htime.1, fun now hnow => ?_, rfl, hsys⟩
  exact of_decide_eq_true ((Option.all_eq_true ..).1 htime.2 now hnow)

end Clocked

variable {worker : Worker} {now e : Time} {db db' : DB} {o : Orchestrator} {claimed : List Instance}
  {owner : Option String}

def Finished : OrchM Unit → Prop
  | .call _ _ => False
  | _ => True

/-- The worker waits for its next call, and will go on when it is answered. -/
def Waiting : OrchM Unit → Prop
  | .call c k => Prog.call c k ≠ .unattended c
  | _ => False

/-- A worker at a step that its lease covers. -/
def Live (time : Time) (t : Worker × OrchM Unit) : Prop :=
  Waiting t.2 ∧ ∃ e, t.1.inst.leaseExpiresAt = some e ∧ time ≤ e

def writesSaga : Call → Bool
  | .advance _ | .beginStep _ _ | .escalate _ _ _ | .postTransaction _
  | .reverseTransactionRecorded _ _ _ => true
  | _ => false

def LeasedTo (db : DB) (id : UUID) (owner : Option String) (e : Time) : Prop :=
  ∃ r, db.sagaInstances.find? id = some r ∧ r.leaseOwner = owner ∧ r.leaseExpiresAt = some e

section Live
variable {worker : Worker} {c : Call} {k : Reply c → OrchM Unit} {r : Reply c} {time time' : Time}
  {t : Worker × OrchM Unit}

theorem Live.earlier (h : Live time' t) (hle : time ≤ time') : Live time t := by
  obtain ⟨hwaiting, e, he, hlive⟩ := h
  exact ⟨hwaiting, e, he, hle.trans hlive⟩

theorem Finished.not_waiting {p : OrchM Unit} (h : Finished p) : ¬Waiting p := by
  cases p with
  | call c k => exact h.elim
  | _ => exact id

theorem Live.of_next (h : Live time (worker, k r)) : Live time (worker, .call c k) := by
  refine ⟨fun hunattended => ?_, h.2⟩
  obtain ⟨-, hk⟩ := Prog.call.inj hunattended
  have hwaiting : Waiting (k r) := h.1
  rw [eq_of_heq hk] at hwaiting
  exact hwaiting

theorem not_live_unattended (worker : Worker) (c : Call) :
    ¬Live time (worker, .unattended c) := fun h => h.1 rfl

end Live

/-- The answers that tell a worker that its lease is gone. -/
def Releases : (c : Call) → Reply c → Prop
  | .advance _, .ok _ => True
  | .escalate _ _ _, .ok _ => True
  | .postTransaction _, .ok _ => True
  | .reverseTransactionRecorded _ _ _, .ok _ => True
  | _, _ => False

/-- A worker whose lease is gone has ended. -/
def EndsReleased : OrchM Unit → Prop
  | .call c k => (∀ r, Releases c r → Finished (k r)) ∧ ∀ r, EndsReleased (k r)
  | _ => True

/-- The calls that leave a lease as it is. -/
def Retains : Call → Prop
  | .advance _ | .escalate _ _ _ | .postTransaction _ | .reverseTransactionRecorded _ _ _ => False
  | _ => True

section EndsReleased
variable {o : Orchestrator} {inst : Instance}

theorem Retains.not_releases {c : Call} (h : Retains c) (r : Reply c) : ¬Releases c r := by
  cases c <;> first | exact h.elim | exact id

theorem EndsReleased.bind {α : Type} {p : OrchM α} {f : α → OrchM Unit} (hp : p.OnlyCalls Retains)
    (hf : ∀ a, EndsReleased (f a)) : EndsReleased (p >>= f) := by
  induction p with
  | pure a => exact hf a
  | fail e => trivial
  | call c k ih =>
    exact ⟨fun r hr => absurd hr (hp.1.not_releases r), fun r => ih r (hp.2 r)⟩

theorem endsReleased_orReturn (x : Except Error Unit) : EndsReleased (orReturn x) := by
  cases x <;> trivial

theorem advance_endsReleased (t : Transition) : EndsReleased (Store.advance t) := by
  refine ⟨fun r _ => ?_, endsReleased_orReturn⟩
  cases r <;> trivial

theorem escalate_endsReleased (e : Escalation) : EndsReleased (escalate o inst e) := by
  refine EndsReleased.bind (Prog.onlyCalls_perform trivial) fun ev => ⟨fun r _ => ?_, endsReleased_orReturn⟩
  cases r <;> trivial

theorem failForwardStep_endsReleased (step : Step) (attemptID : UUID) (number : ℕ) (cause : Error) :
    EndsReleased (failForwardStep o inst step attemptID number cause) := by
  refine EndsReleased.bind (Prog.onlyCalls_perform trivial) fun _ => ?_
  dsimp only
  split_ifs <;> exact advance_endsReleased _

theorem failCompensation_endsReleased (attemptID : UUID) (number : ℕ) (cause : Error) :
    EndsReleased (failCompensation o inst attemptID number cause) := by
  refine EndsReleased.bind (Prog.onlyCalls_perform trivial) fun _ => ?_
  dsimp only
  split_ifs
  · exact escalate_endsReleased _
  · exact advance_endsReleased _

theorem settleGatewayOutcome_endsReleased (attemptID : UUID)
    (outcome : Except Error Gateway.Payment) :
    EndsReleased (settleGatewayOutcome o inst attemptID outcome) := by
  cases outcome with
  | ok payment =>
    simp only [settleGatewayOutcome]
    split_ifs
    · exact EndsReleased.bind (onlyCalls_finish fun _ _ => trivial) fun _ => advance_endsReleased _
    · trivial
  | error callErr =>
    simp only [settleGatewayOutcome]
    split_ifs
    · exact EndsReleased.bind (onlyCalls_finish fun _ _ => trivial) fun _ => advance_endsReleased _
    · unfold deferAmbiguity
      dsimp only
      split_ifs
      · exact escalate_endsReleased _
      · exact advance_endsReleased _

theorem posting_endsReleased {req : Ledger.TransactionRequest} {step : Step} {attemptID : UUID}
    {number : ℕ} :
    EndsReleased (postTransaction req >>= fun posted => match posted with
      | .ok _ => pure ()
      | .error cause => failForwardStep o inst step attemptID number cause) := by
  refine ⟨fun r hr => ?_, fun r => ?_⟩
  · cases r with
    | ok t => trivial
    | error e => exact hr.elim
  · cases r with
    | ok t => trivial
    | error e => exact failForwardStep_endsReleased ..

theorem confirmCompensated_endsReleased (cause : Error) :
    EndsReleased (confirmCompensated o inst cause) := by
  refine EndsReleased.bind (.bind (Prog.onlyCalls_perform trivial) onlyCalls_orReturn) fun current => ?_
  split_ifs
  · trivial
  · exact escalate_endsReleased _

theorem compensate_endsReleased (p : Payload) : EndsReleased (compensate o inst p) := by
  refine EndsReleased.bind (.bind (Prog.onlyCalls_perform trivial) onlyCalls_orReturn) fun attempts => ?_
  dsimp only
  split_ifs
  · exact advance_endsReleased _
  · refine EndsReleased.bind (onlyCalls_nextAttempt trivial trivial) fun _ => ?_
    refine EndsReleased.bind (Prog.onlyCalls_perform trivial) fun _ => ⟨fun r hr => ?_, fun r => ?_⟩
    · cases r with
      | ok t => trivial
      | error e => exact hr.elim
    · cases r with
      | ok t => trivial
      | error cause =>
        change EndsReleased (if _ then _ else _)
        split_ifs
        · exact confirmCompensated_endsReleased cause
        · exact failCompensation_endsReleased ..

theorem driveOne_endsReleased (o : Orchestrator) (inst : Instance) :
    EndsReleased (driveOne o inst) := by
  unfold driveOne
  split_ifs
  · trivial
  · split
    · exact EndsReleased.bind (onlyCalls_nextAttempt trivial trivial) fun _ =>
        EndsReleased.bind (onlyCalls_mustNewMoney ..) fun _ =>
          EndsReleased.bind (Prog.onlyCalls_perform trivial) fun _ => posting_endsReleased
    · refine EndsReleased.bind (onlyCalls_nextAttempt trivial trivial) fun _ => EndsReleased.bind
        (.bind (Prog.onlyCalls_perform trivial) onlyCalls_orReturn) fun _ => EndsReleased.bind
          (.bind (Prog.onlyCalls_perform trivial) fun _ => Prog.onlyCalls_perform trivial) ?_
      exact settleGatewayOutcome_endsReleased _
    · refine EndsReleased.bind (.bind (Prog.onlyCalls_perform trivial) onlyCalls_orReturn) fun _ => ?_
      exact EndsReleased.bind (Prog.onlyCalls_perform trivial) (settleGatewayOutcome_endsReleased _)
    · exact EndsReleased.bind (onlyCalls_nextAttempt trivial trivial) fun _ =>
        EndsReleased.bind (onlyCalls_mustNewMoney ..) fun _ =>
          EndsReleased.bind (onlyCalls_mustNewMoney ..) fun _ =>
            EndsReleased.bind (onlyCalls_feeEntries _) fun _ =>
              EndsReleased.bind (Prog.onlyCalls_perform trivial) fun _ => posting_endsReleased
    · exact advance_endsReleased _
    · exact compensate_endsReleased _
    · trivial

end EndsReleased

/-- A request of a worker leaves all leases alone, or it writes the worker's own row, and if it
clears the lease then the worker is told so. -/
theorem wrote_leases {P : Status → Prop} {c : Call} {r : Reply c} (hown : Own P worker c)
    (hwrote : Wrote worker now db db' c r) :
    db'.sagaInstances = db.sagaInstances ∨ writesSaga c = true ∧ ∃ t : Transition,
      db'.sagaInstances = db.sagaInstances.modify worker.inst.id (t.apply now) ∧
      (t.releaseLease = true → Releases c r) := by
  cases c with
  | advance t =>
    cases r with
    | error e => exact .inl hwrote.sagaInstances
    | ok _ =>
      obtain ⟨hmoved, -, -⟩ := hwrote
      exact .inr ⟨rfl, t, hown.1 ▸ hmoved.sagaInstances, fun _ => trivial⟩
  | beginStep a t =>
    cases r with
    | error e => exact .inl hwrote.sagaInstances
    | ok _ =>
      obtain ⟨hmoved, -, -⟩ := hwrote
      obtain ⟨-, -, hsaga, -, -, hlease, -⟩ := hown
      refine .inr ⟨rfl, t, hsaga ▸ hmoved.sagaInstances, fun hrelease => ?_⟩
      rw [hlease] at hrelease
      cases hrelease
  | escalate eventID t alert =>
    cases r with
    | error e => exact .inl hwrote.sagaInstances
    | ok _ =>
      obtain ⟨hmoved, -, -⟩ := hwrote
      exact .inr ⟨rfl, t, hown.1 ▸ hmoved.sagaInstances, fun _ => trivial⟩
  | recordAttempt a =>
    cases r with
    | error e => exact .inl hwrote.sagaInstances
    | ok _ => exact .inl hwrote.1
  | finishAttempt f =>
    subst hwrote
    exact .inl rfl
  | postTransaction req =>
    cases r with
    | error e => exact .inl hwrote.sagaInstances
    | ok t =>
      obtain ⟨commit, -, hstep⟩ := hwrote
      exact .inr ⟨rfl, _, hstep.moved.sagaInstances, fun _ => trivial⟩
  | reverseTransactionRecorded txID reason record =>
    cases r with
    | error e => exact .inl hwrote.sagaInstances
    | ok t =>
      obtain ⟨commit, -, hstep⟩ := hwrote
      exact .inr ⟨rfl, _, hstep.moved.sagaInstances, fun _ => trivial⟩
  | _ => exact .inl hwrote.sagaInstances

section Lists
variable {α : Type} {R : α → α → Prop} {l : List α} {i : ℕ} {a b : α}

theorem pairwise_set (h : l.Pairwise R) (ha : l[i]? = some a) (hleft : ∀ x, R a x → R b x)
    (hright : ∀ x, R x a → R x b) : (l.set i b).Pairwise R := by
  induction l generalizing i with
  | nil => cases ha
  | cons x l ih =>
    obtain ⟨hx, hl⟩ := List.pairwise_cons.1 h
    cases i with
    | zero =>
      obtain rfl := Option.some.inj ha
      exact List.pairwise_cons.2 ⟨fun y hy => hleft y (hx y hy), hl⟩
    | succ i =>
      refine List.pairwise_cons.2 ⟨fun y hy => ?_, ih hl ha⟩
      rcases List.mem_or_eq_of_mem_set hy with hy | rfl
      · exact hx y hy
      · exact hright x (hx a (List.mem_of_getElem? ha))

theorem pairwise_getElem? (h : l.Pairwise R) (hsymm : ∀ x y, R x y → R y x) {j : ℕ}
    (ha : l[i]? = some a) (hb : l[j]? = some b) (hne : i ≠ j) : R a b := by
  obtain ⟨hi, rfl⟩ := List.getElem?_eq_some_iff.1 ha
  obtain ⟨hj, rfl⟩ := List.getElem?_eq_some_iff.1 hb
  rcases Nat.lt_or_gt_of_ne hne with hlt | hlt
  · exact List.pairwise_iff_getElem.1 h i j hi hj hlt
  · exact hsymm _ _ (List.pairwise_iff_getElem.1 h j i hj hi hlt)

end Lists

/-- The two do not work on one saga under leases that still run. -/
def Apart (time : Time) (t t' : Worker × OrchM Unit) : Prop :=
  Live time t → Live time t' → t.1.inst.id ≠ t'.1.inst.id

theorem Apart.later {time time' : Time} {t t' : Worker × OrchM Unit} (h : Apart time t t')
    (hle : time ≤ time') : Apart time' t t' :=
  fun ht ht' => h (ht.earlier hle) (ht'.earlier hle)

/-- Workers whose leases still run have their sagas to themselves, and the rows say so. -/
structure Leased (s : Clocked) : Prop where
  rows : ∀ t ∈ s.sys.tasks, Live s.time t → ∀ e, t.1.inst.leaseExpiresAt = some e →
    LeasedTo s.sys.world.db t.1.inst.id t.1.inst.leaseOwner e
  apart : s.sys.tasks.Pairwise (Apart s.time)
  ends : ∀ t ∈ s.sys.tasks, EndsReleased t.2

/-- Transitions are carried out for workers that still wait for them, under leases that still
run. -/
def Prompt (s : Clocked) (a : Time × Action) : Prop :=
  match a.2 with
  | .perform i _ => ∀ worker c k, s.sys.tasks[i]? = some (worker, .call c k) →
      writesSaga c = true → Live a.1 (worker, .call c k)
  | _ => True

/-- Nobody new works on the saga. -/
def Unjoined (id : UUID) (s s' : Sys) : Prop :=
  ∀ t ∈ s'.tasks, t.1.inst.id = id → ∃ t' ∈ s.tasks, t'.1 = t.1

/-- The one worker that the lease was granted to ends its step. -/
def Concludes (s s' : Clocked) (id : UUID) (owner : Option String) (e : Time) : Prop :=
  ∃ (i : ℕ) (worker : Worker) (p p' : OrchM Unit), s.sys.tasks[i]? = some (worker, p) ∧
    s'.sys.tasks[i]? = some (worker, p') ∧ Finished p' ∧ worker.inst.id = id ∧ worker.inst.leaseOwner = owner ∧
    worker.inst.leaseExpiresAt = some e ∧
    ∀ j t, s.sys.tasks[j]? = some t → Live s'.time t → t.1.inst.id = id → j = i

/-- A lease that still runs stays as it is, and nobody else gets the saga, unless its worker ends
its step. -/
def Respects (s s' : Clocked) : Prop := ∀ id owner e, LeasedTo s.sys.world.db id owner e →
  s'.time ≤ e → LeasedTo s'.sys.world.db id owner e ∧ Unjoined id s.sys s'.sys ∨
    Concludes s s' id owner e

section Step
variable {s : Sys} {τ : Time}

theorem Leased.later {time : Time} (h : Leased ⟨time, s⟩) (hle : time ≤ τ) : Leased ⟨τ, s⟩ where
  rows t ht hlive := h.rows t ht (hlive.earlier hle)
  apart := h.apart.imp fun hapart => hapart.later hle
  ends := h.ends

theorem Unjoined.refl (id : UUID) (s : Sys) : Unjoined id s s := fun t ht _ => ⟨t, ht, rfl⟩

theorem Leased.world {w : World} (h : Leased ⟨τ, s⟩)
    (hrows : ∀ id r, s.world.db.sagaInstances.find? id = some r →
      w.db.sagaInstances.find? id = some r) :
    Leased ⟨τ, { s with world := w }⟩ ∧ Respects ⟨τ, s⟩ ⟨τ, { s with world := w }⟩ := by
  have hleased : ∀ {id owner e}, LeasedTo s.world.db id owner e → LeasedTo w.db id owner e := by
    rintro id owner e ⟨r, hr, howner, he⟩
    exact ⟨r, hrows id r hr, howner, he⟩
  refine ⟨⟨fun t ht hlive e he => hleased (h.rows t ht hlive e he), h.apart, h.ends⟩, ?_⟩
  exact fun id owner e hl _ => .inl ⟨hleased hl, .refl id s⟩

theorem Claimed.not_mem (h : Claimed o now claimed db db') {id : UUID}
    (hleased : LeasedTo db id owner e) (hnow : now ≤ e) : id ∉ claimed.map Instance.id := by
  intro hmem
  obtain ⟨inst, hinst, rfl⟩ := List.mem_map.1 hmem
  obtain ⟨r, hr, -, he⟩ := hleased
  obtain ⟨r', hr', -, hfree, -⟩ := h.free inst hinst
  obtain rfl := Option.some.inj (hr.symm.trans hr')
  simp only [leaseFree, he, decide_eq_true_eq] at hfree
  exact absurd hfree (Nat.not_lt.2 hnow)

theorem Claimed.leasedTo (h : Claimed o now claimed db db') {id : UUID}
    (hleased : LeasedTo db id owner e) (hnow : now ≤ e) : LeasedTo db' id owner e := by
  have hnot := h.not_mem hleased hnow
  obtain ⟨r, hr, howner, he⟩ := hleased
  exact ⟨r, by rw [h.rows, hr, Option.map_some, if_neg hnot], howner, he⟩

theorem Claimed.granted (h : Claimed o now claimed db db') {inst : Instance}
    (hinst : inst ∈ claimed) (he : inst.leaseExpiresAt = some e) :
    LeasedTo db' inst.id inst.leaseOwner e := by
  obtain ⟨r, hr, -, -, hinstance⟩ := h.free inst hinst
  refine ⟨leasedRow o now r, ?_, ?_, ?_⟩
  · rw [h.rows, hr, Option.map_some, if_pos (List.mem_map_of_mem hinst)]
  · rw [hinstance]
    rfl
  · rw [hinstance] at he
    exact he

theorem Leased.claim (h : Leased ⟨τ, s⟩) (hclaimed : Claimed o now claimed s.world.db db)
    (hnow : now ≤ τ) :
    let s' := Pool.spawn (claimed.map fun inst => (⟨o, inst⟩, driveOne o inst))
      { s with world := { s.world with db } }
    Leased ⟨τ, s'⟩ ∧ Respects ⟨τ, s⟩ ⟨τ, s'⟩ := by
  refine ⟨⟨fun t ht hlive e he => ?_, ?_, fun t ht => ?_⟩, fun id owner e hl he => .inl ⟨?_, ?_⟩⟩
  · rcases List.mem_append.1 ht with ht | ht
    · have hle : τ ≤ e := by
        obtain ⟨-, e', he', hle⟩ := hlive
        rwa [Option.some.inj (he.symm.trans he')]
      exact hclaimed.leasedTo (h.rows t ht hlive e he) (hnow.trans hle)
    · obtain ⟨inst, hinst, rfl⟩ := List.mem_map.1 ht
      exact hclaimed.granted hinst he
  · refine List.pairwise_append.2 ⟨h.apart, ?_, fun t ht t' ht' hlive _ => ?_⟩
    · rw [List.pairwise_map]
      exact (List.pairwise_map.1 hclaimed.nodup).imp fun hne _ _ => hne
    · obtain ⟨inst, hinst, rfl⟩ := List.mem_map.1 ht'
      have ⟨_, e, he, hle⟩ := hlive
      intro hid
      refine hclaimed.not_mem (h.rows t ht hlive e he) (hnow.trans hle) ?_
      rw [hid]
      exact List.mem_map_of_mem hinst
  · rcases List.mem_append.1 ht with ht | ht
    · exact h.ends t ht
    · obtain ⟨inst, -, rfl⟩ := List.mem_map.1 ht
      exact driveOne_endsReleased o inst
  · exact hclaimed.leasedTo hl (hnow.trans he)
  · intro t ht hid
    rcases List.mem_append.1 ht with ht | ht
    · exact ⟨t, ht, rfl⟩
    · obtain ⟨inst, hinst, rfl⟩ := List.mem_map.1 ht
      refine absurd ?_ (hclaimed.not_mem hl (hnow.trans he))
      rw [← hid]
      exact List.mem_map_of_mem hinst

theorem Leased.answer {w : World} {i : ℕ} {c : Call} {k : Reply c → OrchM Unit} {r : Reply c}
    (h : Leased ⟨τ, s⟩) (htask : s.tasks[i]? = some (worker, .call c k))
    (hrows : ∀ t ∈ s.tasks.set i (worker, k r), Live τ t → ∀ e, t.1.inst.leaseExpiresAt = some e →
      LeasedTo w.db t.1.inst.id t.1.inst.leaseOwner e) :
    Leased ⟨τ, ⟨w, s.tasks.set i (worker, k r)⟩⟩ := by
  refine ⟨hrows, ?_, fun t ht => ?_⟩
  · refine pairwise_set h.apart htask (fun t hapart hlive => ?_) fun t hapart hlive hnext => ?_
    · exact hapart hlive.of_next
    · exact hapart hlive hnext.of_next
  · rcases List.mem_or_eq_of_mem_set ht with ht | rfl
    · exact h.ends t ht
    · exact (h.ends _ (List.mem_of_getElem? htask)).2 r

theorem unjoined_set {w : World} {i : ℕ} {p p' : OrchM Unit} (id : UUID)
    (htask : s.tasks[i]? = some (worker, p)) : Unjoined id s ⟨w, s.tasks.set i (worker, p')⟩ := by
  intro t ht _
  rcases List.mem_or_eq_of_mem_set ht with ht | rfl
  · exact ⟨t, ht, rfl⟩
  · exact ⟨_, List.mem_of_getElem? htask, rfl⟩

/-- A call that leaves the leases as they are. -/
theorem Leased.answered {w : World} {i : ℕ} {c : Call} {k : Reply c → OrchM Unit} {r : Reply c}
    (h : Leased ⟨τ, s⟩) (htask : s.tasks[i]? = some (worker, .call c k))
    (hsame : w.db.sagaInstances = s.world.db.sagaInstances) :
    Leased ⟨τ, ⟨w, s.tasks.set i (worker, k r)⟩⟩ ∧
      Respects ⟨τ, s⟩ ⟨τ, ⟨w, s.tasks.set i (worker, k r)⟩⟩ := by
  have hleased : ∀ {id owner e}, LeasedTo s.world.db id owner e → LeasedTo w.db id owner e := by
    rintro id owner e ⟨row, hrow, howner, he⟩
    exact ⟨row, hsame ▸ hrow, howner, he⟩
  refine ⟨h.answer htask fun t ht hlive e he => hleased ?_, fun id owner e hl _ => ?_⟩
  · rcases List.mem_or_eq_of_mem_set ht with ht | rfl
    · exact h.rows t ht hlive e he
    · exact h.rows _ (List.mem_of_getElem? htask) hlive.of_next e he
  · exact .inl ⟨hleased hl, unjoined_set id htask⟩

/-- What is left of a call that nobody waits for holds no lease. -/
theorem Leased.abandon {i : ℕ} {c : Call} {k : Reply c → OrchM Unit} {r : Reply c}
    (h : Leased ⟨τ, s⟩) (htask : s.tasks[i]? = some (worker, .call c k)) :
    let s' : Sys := { s with tasks := s.tasks.set i (worker, k r) ++ [(worker, .unattended c)] }
    Leased ⟨τ, s'⟩ ∧ Respects ⟨τ, s⟩ ⟨τ, s'⟩ := by
  have hset : Leased ⟨τ, ⟨s.world, s.tasks.set i (worker, k r)⟩⟩ := (h.answered htask rfl).1
  have hgone : ∀ t ∈ [(worker, Prog.unattended c)], ¬Live τ t := by
    intro t ht
    rw [List.mem_singleton.1 ht]
    exact not_live_unattended worker c
  refine ⟨⟨fun t ht hlive e he => ?_, ?_, fun t ht => ?_⟩, fun id owner e hl _ => .inl ⟨hl, ?_⟩⟩
  · rcases List.mem_append.1 ht with ht | ht
    · exact hset.rows t ht hlive e he
    · exact absurd hlive (hgone t ht)
  · refine List.pairwise_append.2 ⟨hset.apart, List.pairwise_singleton .., ?_⟩
    exact fun t _ t' ht' _ hlive => absurd hlive (hgone t' ht')
  · rcases List.mem_append.1 ht with ht | ht
    · exact hset.ends t ht
    · rw [List.mem_singleton.1 ht]
      exact ⟨fun _ _ => trivial, fun _ => trivial⟩
  · intro t ht hid
    rcases List.mem_append.1 ht with ht | ht
    · exact unjoined_set (w := s.world) id htask t ht hid
    · rw [List.mem_singleton.1 ht]
      exact ⟨_, List.mem_of_getElem? htask, rfl⟩

theorem LeasedTo.unique {id : UUID} {owner' : Option String} {e' : Time}
    (h : LeasedTo db id owner e) (h' : LeasedTo db id owner' e') : owner = owner' ∧ e = e' := by
  obtain ⟨r, hr, rfl, he⟩ := h
  obtain ⟨r', hr', rfl, he'⟩ := h'
  obtain rfl := Option.some.inj (hr.symm.trans hr')
  exact ⟨rfl, Option.some.inj (he.symm.trans he')⟩

theorem leasedTo_modify {k id : UUID} {t : Transition}
    (hdb : db'.sagaInstances = db.sagaInstances.modify k (t.apply now)) (h : LeasedTo db id owner e)
    (hkeeps : id = k → t.releaseLease = false) : LeasedTo db' id owner e := by
  obtain ⟨r, hr, howner, he⟩ := h
  by_cases hid : id = k
  · subst hid
    refine ⟨t.apply now r, by rw [hdb, Table.find?_modify_self, hr, Option.map_some], ?_, ?_⟩
    · simp [Transition.apply, hkeeps rfl, howner]
    · simp [Transition.apply, hkeeps rfl, he]
  · exact ⟨r, by rw [hdb, Table.find?_modify_of_ne _ hid, hr], howner, he⟩

/-- A transition is carried out for the one worker whose lease covers the saga. -/
theorem Leased.transition {w : World} {i : ℕ} {c : Call} {k : Reply c → OrchM Unit} {r : Reply c}
    {t : Transition} (h : Leased ⟨τ, s⟩) (htask : s.tasks[i]? = some (worker, .call c k))
    (hlive : Live τ (worker, .call c k))
    (hdb : w.db.sagaInstances = s.world.db.sagaInstances.modify worker.inst.id (t.apply now))
    (hreleases : t.releaseLease = true → Releases c r) :
    Leased ⟨τ, ⟨w, s.tasks.set i (worker, k r)⟩⟩ ∧
      Respects ⟨τ, s⟩ ⟨τ, ⟨w, s.tasks.set i (worker, k r)⟩⟩ := by
  have hmem := List.mem_of_getElem? htask
  have hended : t.releaseLease = true → Finished (k r) := fun hrelease =>
    (h.ends _ hmem).1 r (hreleases hrelease)
  have halone : ∀ j t', s.tasks[j]? = some t' → Live τ t' → t'.1.inst.id = worker.inst.id → j = i := by
    intro j t' hj hlive' hid
    by_contra hne
    have hapart := pairwise_getElem? h.apart (fun _ _ hab hb ha => (hab ha hb).symm) htask hj
      (Ne.symm hne)
    exact hapart hlive hlive' hid.symm
  have ⟨_, e₀, he₀, _⟩ := hlive
  have hown := h.rows _ hmem hlive e₀ he₀
  refine ⟨h.answer htask fun t' ht' hlive' e he => ?_, fun id owner e hl he => ?_⟩
  · obtain ⟨j, hj⟩ := List.mem_iff_getElem?.1 ht'
    rw [List.getElem?_set] at hj
    split_ifs at hj with hij
    · obtain rfl := Option.some.inj hj
      refine leasedTo_modify hdb (h.rows _ hmem hlive'.of_next e he) fun _ => ?_
      by_contra hrelease
      exact (hended (by simpa using hrelease)).not_waiting hlive'.1
    · refine leasedTo_modify hdb (h.rows t' (List.mem_of_getElem? hj) hlive' e he) fun hid => ?_
      exact absurd (halone j t' hj hlive' hid).symm hij
  · by_cases hrelease : t.releaseLease = true
    · by_cases hid : id = worker.inst.id
      · subst hid
        obtain ⟨rfl, rfl⟩ := hl.unique hown
        have hset : (s.tasks.set i (worker, k r))[i]? = some (worker, k r) := by
          rw [List.getElem?_set_self (List.getElem?_eq_some_iff.1 htask).1]
        exact .inr ⟨i, worker, _, _, htask, hset, hended hrelease, rfl, rfl, he₀, halone⟩
      · exact .inl ⟨leasedTo_modify hdb hl fun h => absurd h hid, unjoined_set id htask⟩
    · refine .inl ⟨leasedTo_modify hdb hl fun _ => ?_, unjoined_set id htask⟩
      simpa using hrelease

end Step

theorem Leased.act {s s' : Sys} {τ : Time} {a : Action} (h : Leased ⟨τ, s⟩)
    (hkept : s.Kept (discipline anything))
    (hown : s.Kept (steady (Own fun _ => True) (Reads fun _ => True)))
    (hnow : ∀ now ∈ a.now, now ≤ τ)
    (hprompt : ∀ i ch worker c k, a = .perform i ch → s.tasks[i]? = some (worker, .call c k) →
      writesSaga c = true → Live τ (worker, .call c k))
    (hstep : s.step a = some s') : Leased ⟨τ, s'⟩ ∧ Respects ⟨τ, s⟩ ⟨τ, s'⟩ := by
  have hsame : ∀ {w : World}, SameSagas s.world.db w.db →
      Leased ⟨τ, { s with world := w }⟩ ∧ Respects ⟨τ, s⟩ ⟨τ, { s with world := w }⟩ :=
    fun hw => h.world fun id r hr => hw.sagaInstances ▸ hr
  cases a with
  | claim expired cfg now locked =>
    obtain ⟨claimed, db, hclaim, hrows⟩ := claim_claimed expired (.new cfg) now locked s
    obtain rfl : s.claim expired (.new cfg) now locked = s' := Option.some.inj hstep
    rw [hclaim]
    exact h.claim hrows (hnow now rfl)
  | perform i ch =>
    obtain ⟨worker, c, k, r, w, htask, hcall, rfl⟩ := Pool.perform_eq_some hstep
    have hmem := List.mem_of_getElem? htask
    have hwrote := call_wrote (hkept.asks hmem) hcall
    rcases wrote_leases (own_of_kept hown hmem) hwrote with hrows | ⟨hwrites, t, hdb, hreleases⟩
    · exact h.answered htask hrows
    · exact h.transition htask (hprompt i ch worker c k rfl htask hwrites) hdb hreleases
  | abandon i e =>
    obtain ⟨worker, c, k, r, htask, -, rfl⟩ := Pool.abandon_eq_some hstep
    exact h.abandon htask
  | crash i =>
    cases hstep
    have hsub : (s.tasks.eraseIdx i).Sublist s.tasks := List.eraseIdx_sublist ..
    refine ⟨⟨fun t ht => h.rows t (hsub.subset ht), h.apart.sublist hsub, fun t ht =>
      h.ends t (hsub.subset ht)⟩, fun id owner e hl _ => .inl ⟨hl, fun t ht _ => ?_⟩⟩
    exact ⟨t, hsub.subset ht, rfl⟩
  | start cfg now untilDeadline id p principalID key =>
    obtain rfl | ⟨inst, db', hstart, rfl⟩ := step_start hstep
    · exact hsame (.refl _)
    obtain rfl | ⟨row, sagaInstances, hrow, -, -, rfl⟩ := start_cases hstart
    · exact hsame (.refl _)
    refine h.world fun k r hr => ?_
    have hne : k ≠ id.1 := by
      rintro rfl
      rw [(Table.insert?_eq_some.1 hrow).1] at hr
      cases hr
    exact (Table.find?_insert hrow k).trans ((if_neg hne).trans hr)
  | ledger op =>
    obtain ⟨hop, rfl⟩ := step_ledger hstep
    exact hsame (outside_sameSagas hop)
  | keys idempotencyKeys =>
    cases hstep
    exact hsame (.of_eq rfl rfl rfl)
  | deliver n d =>
    obtain ⟨_, _, -, rfl⟩ := step_deliver hstep
    exact hsame (.refl _)
  | lose n =>
    obtain ⟨_, _, -, rfl⟩ := step_lose hstep
    exact hsame (.refl _)

/-- What holds of the system at every time. -/
structure Covered (s : Clocked) : Prop where
  reached : Sys.Reach (fun _ _ => True) .init s.sys
  leased : Leased s

theorem Covered.step {s s' : Clocked} {a : Time × Action} (h : Covered s) (ha : Prompt s a)
    (hstep : s.step a = some s') : Covered s' ∧ s.time ≤ s'.time ∧ Respects s s' := by
  obtain ⟨htime, hnow, hat, hsys⟩ := Clocked.step_eq_some hstep
  have hreach := h.reached
  have hkept := (reach_kept (reach_mono hreach fun s a _ => allowed_anything s a) init_kept).1
  obtain ⟨hleased, hrespects⟩ := (h.leased.later htime).act hkept (reach_own hreach) hnow
    (fun i ch worker c k ha' htask hwrites => by
      simp only [Prompt, ha'] at ha
      exact ha worker c k htask hwrites) hsys
  obtain ⟨time, sys⟩ := s'
  obtain rfl : time = a.1 := hat
  exact ⟨⟨hreach.tail ⟨a.2, trivial, hsys⟩, hleased⟩, htime, hrespects⟩

theorem init_covered : Covered .init :=
  ⟨.refl, ⟨fun _ h => (nomatch h), .nil, fun _ h => (nomatch h)⟩⟩

theorem reach_covered {s : Clocked} (h : ReachBy Clocked.step Prompt .init s) : Covered s :=
  h.keeps (I := Covered) init_covered fun _ _ _ hs ha hstep => (hs.step ha hstep).1

/-- As long as transitions are carried out promptly, a lease is respected until it expires: the
row keeps it and nobody new works on the saga, unless the worker it was granted to ended its step
on the way. -/
theorem lease_respected {s s' : Clocked} (h : ReachBy Clocked.step Prompt .init s) {id : UUID}
    {owner : Option String} {e : Time} (hleased : LeasedTo s.sys.world.db id owner e)
    (h' : ReachBy Clocked.step Prompt s s') (htime : s'.time ≤ e) :
    LeasedTo s'.sys.world.db id owner e ∧ Unjoined id s.sys s'.sys ∨
      ∃ s₁ s₂, ReachBy Clocked.step Prompt s s₁ ∧ ReachBy Clocked.step Prompt s₂ s' ∧
        LeasedTo s₁.sys.world.db id owner e ∧ Unjoined id s.sys s₁.sys ∧
        (∃ a, s₁.step a = some s₂) ∧ Concludes s₁ s₂ id owner e := by
  induction h' with
  | refl => exact .inl ⟨hleased, .refl id _⟩
  | @tail s₁ s₂ hreach hlast ih =>
    have hcovered := reach_covered (h.trans hreach)
    obtain ⟨a, ha, hstep⟩ := hlast
    obtain ⟨-, hle, hrespects⟩ := hcovered.step ha hstep
    rcases ih (hle.trans htime) with ⟨hheld, hjoined⟩ | ⟨s₃, s₄, h₃, h₄, hheld, hrest⟩
    · rcases hrespects id owner e hheld htime with ⟨hheld', hjoined'⟩ | hconcludes
      · refine .inl ⟨hheld', fun t ht hid => ?_⟩
        obtain ⟨t₁, ht₁, hworker⟩ := hjoined' t ht hid
        obtain ⟨t₀, ht₀, hworker₀⟩ := hjoined t₁ ht₁ (hworker ▸ hid)
        exact ⟨t₀, ht₀, hworker₀.trans hworker⟩
      · exact .inr ⟨s₁, s₂, hreach, .refl, hheld, hjoined, ⟨a, hstep⟩, hconcludes⟩
    · exact .inr ⟨s₃, s₄, h₃, h₄.tail ⟨a, ha, hstep⟩, hheld, hrest⟩

def waits (c : Call) (k : Reply c → OrchM Unit) : Bool :=
  (World.fault ⟨[], ""⟩ c).any fun r => match k r with
    | .pure _ => false
    | _ => true

def prompt (s : Clocked) (a : Time × Action) : Bool :=
  match a.2 with
  | .perform i _ =>
    match s.sys.tasks[i]? with
    | some (worker, .call c k) => !writesSaga c ||
        waits c k && worker.inst.leaseExpiresAt.any fun e => a.1 ≤ e
    | _ => true
  | _ => true

theorem waiting_of_waits {c : Call} {k : Reply c → OrchM Unit} (h : waits c k = true) :
    Waiting (.call c k) := by
  intro hunattended
  obtain ⟨-, hk⟩ := Prog.call.inj hunattended
  obtain ⟨r, -, hr⟩ := (Option.any_eq_true ..).1 h
  rw [eq_of_heq hk] at hr
  cases hr

theorem prompt_sound {s : Clocked} {a : Time × Action} (h : prompt s a = true) : Prompt s a := by
  obtain ⟨τ, a⟩ := a
  cases a with
  | perform i ch =>
    intro worker c k htask hwrites
    simp only [prompt, htask, hwrites, Bool.not_true, Bool.false_or, Bool.and_eq_true] at h
    obtain ⟨e, he, hle⟩ := (Option.any_eq_true ..).1 h.2
    exact ⟨waiting_of_waits h.1, e, he, of_decide_eq_true hle⟩
  | _ => trivial

def timed (τ : Time) (actions : List Action) : List (Time × Action) := actions.map fun a => (τ, a)

def named (workerID : String) : Config := { sampleConfig with workerID }

def leaseOf (s : Clocked) : Option String × Option Time :=
  ((s.sys.world.db.sagaInstances.find? 7).bind SagaRow.leaseOwner,
    (s.sys.world.db.sagaInstances.find? 7).bind SagaRow.leaseExpiresAt)

def busy (s : Clocked) : List String := s.sys.tasks.filterMap fun t => match t.2 with
  | .call _ _ => some t.1.o.cfg.workerID
  | _ => none

theorem leasedTo_of_leaseOf {s : Clocked} {owner : String} (h : leaseOf s = (some owner, some e)) :
    LeasedTo s.sys.world.db 7 (some owner) e := by
  obtain ⟨howner, he⟩ := Prod.mk.inj h
  obtain ⟨r, hr, howner⟩ := Option.bind_eq_some_iff.1 howner
  rw [hr] at he
  exact ⟨r, hr, howner, he⟩

/-- One worker reserves the amount within its lease, and the next one has the saga. -/
def samplePrompt : List (Time × Action) :=
  timed 10 sampleStart ++
    timed 20 (.claim false (named "a") 20 (fun _ => false) :: performs 0 10 4) ++
    timed 27 [.claim false (named "b") 27 fun _ => false]

theorem lease_respected_prompt :
    ∃ s s', ReachBy Clocked.step Prompt .init s ∧ ReachBy Clocked.step Prompt s s' ∧
      leaseOf s = (some "b", some 37) ∧ s'.time = 30 ∧
      (LeasedTo s'.sys.world.db 7 (some "b") 37 ∧ Unjoined 7 s.sys s'.sys ∨
        ∃ s₁ s₂, Concludes s₁ s₂ 7 (some "b") 37) := by
  have hrun : (runChecked Clocked.step prompt .init samplePrompt).any (fun s =>
      leaseOf s = (some "b", some 37) &&
      (runChecked Clocked.step prompt s (timed 30 (performs 1 20 2))).any fun s' => s'.time = 30) =
        true := by
    decide +kernel
  obtain ⟨s, hs, h⟩ := (Option.any_eq_true ..).1 hrun
  obtain ⟨hlease, h⟩ := Bool.and_eq_true_iff.1 h
  obtain ⟨s', hs', htime⟩ := (Option.any_eq_true ..).1 h
  have hlease := of_decide_eq_true hlease
  have htime := of_decide_eq_true htime
  have hreach : ReachBy Clocked.step Prompt .init s :=
    reachBy_of_runChecked (fun _ _ => prompt_sound) hs
  have hreach' : ReachBy Clocked.step Prompt s s' :=
    reachBy_of_runChecked (fun _ _ => prompt_sound) hs'
  refine ⟨s, s', hreach, hreach', hlease, htime, ?_⟩
  rcases lease_respected hreach (leasedTo_of_leaseOf hlease) hreach' (by rw [htime]; decide) with
    hheld | ⟨s₁, s₂, -, -, -, -, -, hconcludes⟩
  · exact .inl hheld
  · exact .inr ⟨s₁, s₂, hconcludes⟩

/-- A worker outlives its lease, and another one is granted the saga until 50. The first one's
reserve then fails; it stays in `PENDING` for a retry, which clears the lease, and a third worker
claims the saga at 42, with the second one still at work. -/
theorem lease_cleared_by_retry :
    ∃ s s', (timed 10 sampleStart ++
        timed 20 (.claim false (named "a") 20 (fun _ => false) :: performs 0 10 3) ++
        timed 40 [.claim false (named "b") 40 fun _ => false]).foldlM Clocked.step .init = some s ∧
      (timed 41 (.abandon 0 ⟨[], "connection reset"⟩ :: performs 0 30 2) ++
        timed 42 [.claim false (named "c") 42 fun _ => false]).foldlM Clocked.step s = some s' ∧
      leaseOf s = (some "b", some 50) ∧ busy s = ["a", "b"] ∧
      leaseOf s' = (some "c", some 52) ∧ busy s' = ["b", "a", "c"] := by
  have hrun : ((timed 10 sampleStart ++
      timed 20 (.claim false (named "a") 20 (fun _ => false) :: performs 0 10 3) ++
      timed 40 [.claim false (named "b") 40 fun _ => false]).foldlM Clocked.step .init).any (fun s =>
      (leaseOf s = (some "b", some 50) ∧ busy s = ["a", "b"]) &&
      ((timed 41 (.abandon 0 ⟨[], "connection reset"⟩ :: performs 0 30 2) ++
        timed 42 [.claim false (named "c") 42 fun _ => false]).foldlM Clocked.step s).any fun s' =>
        leaseOf s' = (some "c", some 52) ∧ busy s' = ["b", "a", "c"]) = true := by
    decide +kernel
  obtain ⟨s, hs, h⟩ := (Option.any_eq_true ..).1 hrun
  obtain ⟨hbefore, h⟩ := Bool.and_eq_true_iff.1 h
  obtain ⟨s', hs', hafter⟩ := (Option.any_eq_true ..).1 h
  obtain ⟨hlease, hbusy⟩ := of_decide_eq_true hbefore
  obtain ⟨hlease', hbusy'⟩ := of_decide_eq_true hafter
  exact ⟨s, s', hs, hs', hlease, hbusy, hlease', hbusy'⟩

end LedgerCore.Payout
