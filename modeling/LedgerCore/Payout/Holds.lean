import Mathlib.Algebra.Order.BigOperators.Group.List
import LedgerCore.Payout.Payments

/-! The amount that a suspense account holds for payouts that are under way. -/
namespace LedgerCore.Payout
open LedgerCore.Program LedgerCore.Saga Function

variable {R : Rules} {v v' : View}

def holds : Status → Bool
  | .reserved | .gatewayPending | .gatewaySucceeded | .gatewayFailed | .compensating
  | .needsManualReview => true
  | _ => false

def Progress.held (s : Progress) (account : UUID) : ℤ :=
  if s.payload.suspenseID = account ∧ holds s.status then s.payload.amountMinor.toInt else 0

def heldOn (db : DB) (account : UUID) : ℤ :=
  db.sagaInstances.sum fun _ r => Progress.held ⟨r.payload, r.status⟩ account

def View.heldBy (v : View) (account id : UUID) : ℤ :=
  ((v.saga id).map fun s => s.held account).getD 0

def View.heldOn (v : View) (account : UUID) : ℤ := (v.ids.map (v.heldBy account)).sum

theorem View.heldBy_of_saga {id account : UUID} {s : Progress} (h : v.saga id = some s) :
    v.heldBy account id = s.held account := by
  simp [heldBy, h]

theorem heldOn_view (db : DB) (l : List Posting) (account : UUID) :
    (view db l).heldOn account = heldOn db account := by
  simp only [View.heldOn, heldOn, view, Table.keys, List.map_map, Table.sum]
  refine congrArg List.sum (List.map_congr_left fun r hr => ?_)
  simp [View.heldBy, Table.find?_eq_some.2 hr]

theorem sum_map_change {α : Type} {l : List α} {f g : α → ℤ} {a : α} (hl : l.Nodup) (ha : a ∈ l)
    (h : ∀ b ≠ a, g b = f b) : (l.map g).sum = (l.map f).sum + (g a - f a) := by
  induction l with
  | nil => cases ha
  | cons b l ih =>
    obtain ⟨hb, hl⟩ := List.nodup_cons.1 hl
    simp only [List.map_cons, List.sum_cons]
    by_cases hab : b = a
    · subst hab
      rw [List.map_congr_left fun c hc => h c fun e => hb (e ▸ hc)]
      omega
    · rw [ih hl ((List.mem_cons.1 ha).resolve_left (Ne.symm hab)), h b hab]
      omega

def heldIn (p : Payload) (st : Status) : ℤ := if holds st then p.amountMinor.toInt else 0

theorem Progress.held_eq (p : Payload) (st : Status) (account : UUID) :
    Progress.held ⟨p, st⟩ account = if account = p.suspenseID then heldIn p st else 0 := by
  by_cases ha : account = p.suspenseID <;> simp [Progress.held, heldIn, ha, Ne.symm]

theorem View.heldOn_move (hinv : v.Inv) {id : UUID} {p : Payload} {source : Status}
    (hs : v.saga id = some ⟨p, source⟩) (target : Status) (account : UUID) :
    (v.move id p target).heldOn account = v.heldOn account +
      if account = p.suspenseID then heldIn p target - heldIn p source else 0 := by
  have hmem : id ∈ v.ids := (hinv.ids id).2 (by simp [hs])
  have hother : ∀ k ≠ id, (v.move id p target).heldBy account k = v.heldBy account k :=
    fun k hk => by rw [View.heldBy, View.saga_move_of_ne v hk, View.heldBy]
  refine (sum_map_change hinv.nodup hmem hother).trans (congrArg (v.heldOn account + ·) ?_)
  rw [View.heldBy_of_saga (View.saga_move_self ..), View.heldBy_of_saga hs, Progress.held_eq,
    Progress.held_eq]
  split_ifs <;> rfl

theorem Edge.holds {refund : Prop} {s t : Status} (h : Edge refund s t) : holds s = holds t := by
  cases s <;> cases t <;> first | rfl | exact h.elim

/-- The pending amount of every account is what the payouts hold on it. -/
def Matches (v : View) : Prop := ∀ account, v.pending account = v.heldOn account

theorem Matches.step (hinv : v.Inv) (h : Matches v) {id : UUID} {p : Payload} {source : Status}
    {delta : ℤ} (hs : v.saga id = some ⟨p, source⟩) (target : Status)
    (hdelta : heldIn p target - heldIn p source = delta) (account : UUID) :
    update v.pending p.suspenseID (v.pending p.suspenseID + delta) account =
      (v.move id p target).heldOn account := by
  rw [View.heldOn_move hinv hs, ← h account, hdelta]
  by_cases ha : account = p.suspenseID
  · simp [ha]
  · simp [ha]

theorem Move.matches (hinv : v.Inv) (hmove : Move R v v') (h : Matches v) : Matches v' := by
  intro account
  cases hmove with
  | quiet _ => exact h account
  | @start id p fresh valid =>
    have hid : id ∉ v.ids := fun hmem => (hinv.ids id).1 hmem fresh
    have hsame : ∀ k ∈ v.ids, (v.move id p .pending).heldBy account k = v.heldBy account k := by
      intro k hk
      have hne : k ≠ id := by
        rintro rfl
        exact hid hk
      rw [View.heldBy, View.saga_move_of_ne v hne, View.heldBy]
    change v.pending account = ((v.ids ++ [id]).map ((v.move id p .pending).heldBy account)).sum
    rw [h account, List.map_append, List.sum_append, List.map_congr_left hsame, List.map_singleton,
      List.sum_singleton, View.heldBy_of_saga (View.saga_move_self ..), Progress.held_eq]
    simp [heldIn, holds, View.heldOn]
  | @advance id p source target saga edge =>
    rw [View.heldOn_move hinv saga, heldIn, heldIn, edge.holds, sub_self, ite_self,
      add_zero]
    exact h account
  | post _ => exact h account
  | reverse _ _ _ => exact h account
  | reserve saga _ _ _ => exact h.step hinv saga .reserved (by simp [heldIn, holds]) account
  | settle saga _ _ => exact h.step hinv saga .completed (by simp [heldIn, holds]) account
  | compensate saga _ _ _ _ => exact h.step hinv saga .compensated (by simp [heldIn, holds]) account

theorem View.heldBy_nonneg (hinv : v.Inv) (account id : UUID) : 0 ≤ v.heldBy account id := by
  cases hs : v.saga id with
  | none => simp [View.heldBy, hs]
  | some s =>
    have := validate_pos (hinv.valid id s.payload s.status hs)
    rw [View.heldBy_of_saga hs, Progress.held]
    split_ifs
    · exact this.le
    · exact le_rfl

theorem View.heldOn_nonneg (hinv : v.Inv) (account : UUID) : 0 ≤ v.heldOn account := by
  refine List.sum_nonneg fun x hx => ?_
  obtain ⟨id, -, rfl⟩ := List.mem_map.1 hx
  exact View.heldBy_nonneg hinv account id

theorem View.amount_le_heldOn (hinv : v.Inv) {id : UUID} {p : Payload} {st : Status}
    (hs : v.saga id = some ⟨p, st⟩) (hst : holds st) :
    p.amountMinor.toInt ≤ v.heldOn p.suspenseID := by
  have hmem : id ∈ v.ids := (hinv.ids id).2 (by simp [hs])
  have hle : v.heldBy p.suspenseID id ≤ v.heldOn p.suspenseID := by
    refine List.single_le_sum (fun x hx => ?_) _ (List.mem_map_of_mem hmem)
    obtain ⟨k, -, rfl⟩ := List.mem_map.1 hx
    exact View.heldBy_nonneg hinv _ k
  rwa [View.heldBy_of_saga hs, Progress.held_eq, if_pos rfl, heldIn, if_pos hst] at hle

/-- The database refuses the update of a pending amount, because the amount would be negative. -/
def PendingCheckFires (db : DB) (d : Ledger.PendingDelta) : Prop :=
  ∃ r now, db.accounts.find? d.accountID = some r ∧
    Ledger.applyPendingDelta.pendingAfter now d r.balance =
      .error (.check "account_balances" "account_balances_pending_check")

theorem PendingCheckFires.negative {db : DB} {d : Ledger.PendingDelta} (h : PendingCheckFires db d) :
    pendingOf db d.accountID + d.deltaMinor.toInt < 0 := by
  obtain ⟨r, now, hr, hcheck⟩ := h
  simp only [pendingOf, hr, Option.map_some, Option.getD_some]
  unfold Ledger.applyPendingDelta.pendingAfter at hcheck
  split at hcheck
  · next pendingMinor hadd =>
    rw [← Ledger.bigintAdd_eq_some.1 hadd]
    by_contra hneg
    have hpending : 0 ≤ pendingMinor := by
      rw [Int64.le_iff_toInt_le, Ledger.toInt_zero]
      omega
    unfold BalanceColumns.check at hcheck
    simp [r.balance.no_overdraft_check, r.balance.version_check, hpending] at hcheck
  · cases hcheck

/-- A call whose hook first changes a pending amount. -/
def Applies (d : Ledger.PendingDelta) : Call → Prop
  | .postTransaction req => ∃ rest : Ledger.Recorder,
      req.record = some fun posted => do
        Ledger.Tx.applyPendingDelta d
        rest posted
  | .reverseTransactionRecorded _ _ record => ∃ rest : Ledger.Recorder,
      record = fun posted => do
        Ledger.Tx.applyPendingDelta d
        rest posted
  | _ => False

theorem recordStep_applies {o : Orchestrator} {inst : Instance} {p : Payload} {delta : Int64}
    {ev : Stamp} {c : Commit} {d : Ledger.PendingDelta} {rest : Ledger.Recorder}
    (h : recordStep o inst p delta ev c = fun posted => do
      Ledger.Tx.applyPendingDelta d
      rest posted) : d = ⟨p.suspenseID, delta⟩ := by
  have hcall := congrFun h ⟨UUID.nil, none, "", .payout, .posted, none, [], 0, none, []⟩
  simp only [recordStep, Ledger.Tx.applyPendingDelta] at hcall
  injection hcall with hcall
  exact (Ledger.TxCall.applyPendingDelta.inj hcall).symm

/-- The step of a worker whose saga is where the worker believes it to be passes the CHECK. -/
theorem pending_check_passes {worker : Worker} {c : Call} {w : World} {d : Ledger.PendingDelta}
    (hasks : Asks True worker w.view c) (hinv : w.view.Inv) (hmatches : Matches w.view)
    (hd : Applies d c) (hcurrent : ∃ p, w.view.saga worker.inst.id = some ⟨p, worker.inst.status⟩) :
    ¬PendingCheckFires w.db d := by
  intro hfires
  have hneg := hfires.negative
  obtain ⟨p, hp⟩ := hcurrent
  have hpending : ∀ account, pendingOf w.db account = w.view.heldOn account := hmatches
  have hnonneg := View.heldOn_nonneg hinv worker.inst.payload.suspenseID
  have hpos : Known worker.inst w.view → 0 < worker.inst.payload.amountMinor.toInt := fun ⟨st, hst⟩ =>
    validate_pos (hinv.valid _ _ _ hst)
  -- The two steps that free an amount do so while their saga holds it.
  have hfree : Known worker.inst w.view → holds worker.inst.status →
      d ≠ ⟨worker.inst.payload.suspenseID, -worker.inst.payload.amountMinor⟩ := by
    rintro hknown hholds rfl
    obtain ⟨st, hst⟩ := hknown
    obtain ⟨rfl, rfl⟩ := Progress.mk.inj (Option.some.inj (hp.symm.trans hst))
    have hle := View.amount_le_heldOn hinv hst hholds
    rw [hpending, Ledger.toInt_neg_of_pos (hpos ⟨_, hst⟩)] at hneg
    dsimp only at hneg
    omega
  cases c with
  | postTransaction req =>
    obtain ⟨rest, hrest⟩ := hd
    obtain ⟨hknown, attemptID, number, ev, ⟨-, rfl⟩ | ⟨hstatus, rfl⟩⟩ := hasks
    · obtain rfl := recordStep_applies (Option.some.inj hrest)
      have := hpos hknown
      rw [hpending] at hneg
      dsimp only at hneg
      omega
    · exact hfree hknown (by rw [hstatus]; rfl) (recordStep_applies (Option.some.inj hrest))
  | reverseTransactionRecorded txID reason record =>
    obtain ⟨hknown, hstatus, -, attemptID, number, ev, rfl⟩ := hasks
    obtain ⟨rest, hrest⟩ := hd
    exact hfree hknown (by rw [hstatus]; rfl) (recordStep_applies hrest)
  | _ => exact hd.elim

/-- In every run, outside reversals included, the pending amount of every account is what the
payouts under way hold on it, and so is never negative. A step passes the CHECK as long as its
saga is in the status it was claimed in. -/
theorem pending_is_held {s : Sys} (h : Sys.Reach (fun _ _ => True) .init s) :
    (∀ account, pendingOf s.world.db account = heldOn s.world.db account) ∧
      (∀ account, 0 ≤ pendingOf s.world.db account) ∧
      ∀ worker c k d, (worker, Prog.call c k) ∈ s.tasks → Applies d c →
        (∃ r, s.world.db.sagaInstances.find? worker.inst.id = some r ∧
          r.status = worker.inst.status) → ¬PendingCheckFires s.world.db d := by
  obtain ⟨hkept, hlater⟩ := reach_kept (reach_mono h fun s a _ => allowed_anything s a) init_kept
  have hinv : s.world.view.Inv := hkept.valid
  have hmatches : Matches s.world.view :=
    hlater.keeps init_inv (fun hu hmove => hmove.matches hu) fun _ => rfl
  have hpending : ∀ account, pendingOf s.world.db account = heldOn s.world.db account :=
    fun account => (hmatches account).trans (heldOn_view ..)
  refine ⟨hpending, fun account => ?_, fun worker c k d htask hd ⟨r, hr, hstatus⟩ => ?_⟩
  · rw [hpending, ← heldOn_view _ s.world.posted]
    exact View.heldOn_nonneg hinv account
  · refine pending_check_passes (hkept.asks htask) hinv hmatches hd ⟨r.payload, ?_⟩
    exact Option.map_eq_some_iff.2 ⟨r, hr, by rw [hstatus]⟩

theorem pending_is_held_paid :
    ∃ s, Sys.init.run samplePaid = some s ∧ pendingOf s.world.db 3 = 500 ∧
      heldOn s.world.db 3 = 500 := by
  have hrun : (Sys.init.run samplePaid).any (fun s => pendingOf s.world.db 3 = 500) = true := by
    decide +kernel
  obtain ⟨s, hs, hpending⟩ := one_run hrun
  have hreach := reach_of_run hs fun _ _ _ => trivial
  exact ⟨s, hs, hpending, ((pending_is_held hreach).1 3).symm.trans hpending⟩

/-- A second worker's settle fails like those of `sampleOutage`, while the first one waits. -/
def sampleOutageBeside (n : ℕ) : List Action :=
  .claim false sampleConfig (10 + n) (fun _ => false) :: performs 1 n 3 ++
    .abandon 1 ⟨[], "connection reset"⟩ :: performs 1 (n + 3) 2 ++ [.crash 1, .crash 1]

/-- A worker is about to settle when others give up on the settlement and compensate the payout.
Then value from elsewhere comes in on the suspense account. -/
def sampleStale : List Action :=
  samplePaid ++ drive 40 3 ++ sampleOutageBeside 60 ++ sampleOutageBeside 70 ++
    sampleOutageBeside 80 ++ .claim false sampleConfig 100 (fun _ => false) :: performs 1 90 5 ++
    [.ledger (.postTransaction (Ledger.sampleDraws 100) 8
      { principalID := "p", type := .payin, externalRef := none, metadata := []
        entries := [⟨1, .debit, ⟨500, "INR"⟩⟩, ⟨3, .credit, ⟨500, "INR"⟩⟩]
        idempotencyKey := none, idempotency := none, record := none }
      Ledger.recording_none)]

def refusal (s : Sys) (a : Action) : Option String :=
  (s.answer a).bind fun q =>
    match q.2 with
    | ⟨.postTransaction _, .error e⟩ => some e.text
    | _ => none

/-- The stale settle is refused by the CHECK on the pending amount. -/
theorem pending_check_fires :
    ∃ s, Sys.init.run sampleStale = some s ∧ refusal s (.perform 0 (sampleChoice 120)) =
      some ("apply pending delta -500 to account 00000000-0000-0000-0000-000000000003: ERROR: " ++
        "new row for relation \"account_balances\" violates check constraint " ++
        "\"account_balances_pending_check\" (SQLSTATE 23514)") := by
  refine one_run ?_
  decide +kernel

end LedgerCore.Payout
