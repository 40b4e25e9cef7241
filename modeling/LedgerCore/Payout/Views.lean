import LedgerCore.Ledger.TrialBalance
import LedgerCore.Payout.Machine

/-! What the machine sees of a database, and what each statement changes of it. -/
namespace LedgerCore.Payout
open LedgerCore.Program LedgerCore.Saga Function
variable {now : Time} {s s' : Ledger.TxState}

def reserveOf (id : UUID) (r : StepRow) : Option UUID :=
  if r.sagaID = id ∧ r.step = .reserve ∧ r.direction = .forward ∧ r.status = .succeeded then
    r.transactionID
  else none

def pendingOf (db : DB) (id : UUID) : ℤ :=
  ((db.accounts.find? id).map fun r => r.balance.pendingMinor.toInt).getD 0

def view (db : DB) (posted : List Posting) : View where
  ids := db.sagaInstances.keys
  saga id := (db.sagaInstances.find? id).map fun r => ⟨r.payload, r.status⟩
  header id := (db.transactions.find? id).map fun r => r.status
  entries id := Ledger.transactionEntries id db
  parent id := (db.accounts.find? id).bind fun r => r.parentAccountID
  pending := pendingOf db
  reserves id := db.sagaSteps.values.filterMap (reserveOf id)
  posted := posted

def World.view (w : World) : View := Payout.view w.db w.posted

variable {db db' : DB} {l : List Posting}

theorem reserveTransactionID_attempts {id t : UUID} (h : (view db l).reserves id = [t]) :
    reserveTransactionID (attempts id db) = t := by
  let f (a : Attempt) : Option UUID :=
    if a.step = .reserve ∧ a.direction = .forward ∧ a.status = .succeeded then a.transactionID
    else none
  have hperm : ((attempts id db).filterMap f).Perm ((view db l).reserves id) := by
    have hsort : (attempts id db).Perm
        ((db.sagaSteps.rows.filter fun r => r.2.sagaID = id).map fun r => toAttempt r.1 r.2) :=
      List.perm_insertionSort _ _
    refine (hsort.filterMap f).trans (List.Perm.of_eq ?_)
    simp only [view, Table.values, List.filterMap_map, List.filterMap_filter]
    refine List.filterMap_congr fun r _ => ?_
    by_cases hid : r.2.sagaID = id <;> simp [hid, f, reserveOf, toAttempt]
  rw [h, List.perm_singleton] at hperm
  change ((attempts id db).findSome? f).getD UUID.nil = t
  rw [← List.head?_filterMap, hperm]
  rfl

theorem advance_view {t : Transition} (h : Saga.advance now t db = .ok db') :
    ∃ p, (view db l).saga t.sagaID = some ⟨p, t.source⟩ ∧
      view db' l = (view db l).move t.sagaID p t.target := by
  obtain ⟨r, hr, hs, rfl⟩ := advance_eq_ok.1 h
  refine ⟨r.payload, by simp [view, hr, hs], ?_⟩
  simp only [view, View.move, Table.keys_modify, View.mk.injEq, true_and, and_true]
  refine ⟨funext fun k => ?_, rfl, rfl⟩
  by_cases hk : k = t.sagaID
  · subst hk
    simp [hr, Transition.apply]
  · simp [Table.find?_modify_of_ne _ hk, hk]

theorem insertStep_view {id : UUID} {r : StepRow} (h : insertStep id r db = .ok db') :
    view db' l = { view db l with
      reserves := fun k => (view db l).reserves k ++ (reserveOf k r).toList } := by
  obtain ⟨sagaSteps, hi, rfl⟩ := insertStep_eq_ok h
  have hrows := (Table.insert?_eq_some.1 hi).2
  simp only [view, View.mk.injEq, true_and, and_true]
  refine ⟨rfl, rfl, funext fun k => ?_⟩
  rw [Table.values, hrows, List.map_append, List.filterMap_append]
  cases hr : reserveOf k r <;> simp [hr, Table.values]

theorem insertStep_view_same {id : UUID} {r : StepRow} (h : insertStep id r db = .ok db')
    (hr : ∀ k, reserveOf k r = none) : view db' l = view db l := by
  rw [insertStep_view h]
  simp [hr]

theorem recordAttempt_view {a : Attempt} (h : recordAttempt now a db = .ok db')
    (ha : a.status ≠ .succeeded) : view db' l = view db l := by
  refine insertStep_view_same (mapError_eq_ok.1 h) fun k => ?_
  simp [reserveOf, Attempt.toRow, ha]

theorem beginStep_view {a : StartAttempt} {t : Transition} (h : beginStep now a t db = .ok db') :
    ∃ p, (view db l).saga t.sagaID = some ⟨p, t.source⟩ ∧
      view db' l = (view db l).move t.sagaID p t.target := by
  obtain ⟨db₁, hins, h⟩ := bind_eq_ok.1 h
  rw [← insertStep_view_same (mapError_eq_ok.1 hins) fun k => by simp [reserveOf]]
  exact advance_view h

theorem escalate_view {eventID : UUID} {t : Transition} {alert : Event}
    (h : Saga.escalate now eventID t alert db = .ok db') :
    ∃ p, (view db l).saga t.sagaID = some ⟨p, t.source⟩ ∧
      view db' l = (view db l).move t.sagaID p t.target := by
  obtain ⟨db₁, hadv, h⟩ := bind_eq_ok.1 h
  obtain ⟨outbox, -, rfl⟩ := Outbox.append_eq_ok (mapError_eq_ok.1 h)
  obtain ⟨p, hp, hv⟩ := advance_view (l := l) hadv
  exact ⟨p, hp, hv⟩

theorem finishAttempt_view (now : Time) {f : FinishAttempt} (hf : f.transactionID = none) :
    view (finishAttempt now f db) l = view db l := by
  simp only [view, finishAttempt, View.mk.injEq, true_and, and_true]
  refine ⟨rfl, rfl, funext fun k => ?_⟩
  simp only [Table.values, Table.modify, Table.map, List.map_map, List.filterMap_map]
  refine List.filterMap_congr fun r _ => ?_
  by_cases hid : r.1 = f.id
  · by_cases hs : r.2.status = .attempted <;> simp [hid, hs, reserveOf, hf]
  · simp [hid]

theorem parent_of_moved {es : List Ledger.JournalEntry} {q : UUID → ℤ}
    (h : Ledger.AccountsMoved es q db.accounts db'.accounts) :
    (view db' l).parent = (view db l).parent := by
  funext id
  cases hr : db.accounts.find? id with
  | none =>
    have hr' : db'.accounts.find? id = none := by
      rw [Table.find?_eq_none, h.keys, ← Table.find?_eq_none, hr]
    simp [view, hr, hr']
  | some r =>
    obtain ⟨r', hr', hm⟩ := h.rows id r hr
    simp [view, hr, hr', hm.columns]

theorem pendingOf_of_moved {es : List Ledger.JournalEntry} {q : UUID → ℤ}
    (h : Ledger.AccountsMoved es q db.accounts db'.accounts)
    (hq : ∀ id, q id ≠ 0 → db.accounts.find? id ≠ none) (id : UUID) :
    pendingOf db' id = pendingOf db id + q id := by
  cases hr : db.accounts.find? id with
  | none =>
    have hr' : db'.accounts.find? id = none := by
      rw [Table.find?_eq_none, h.keys, ← Table.find?_eq_none, hr]
    have h0 : q id = 0 := not_not.1 fun hne => hq id hne hr
    simp [pendingOf, hr, hr', h0]
  | some r =>
    obtain ⟨r', hr', hm⟩ := h.rows id r hr
    simp [pendingOf, hr, hr', hm.pending]

theorem written_view {d : Ledger.Draws} {header : Ledger.Transaction}
    {requests : List Ledger.EntryRequest} (h : Ledger.Written d header requests s s')
    (hstatus : header.status = .posted)
    (hnone : ∀ x, (view s.db l).header x = none → (view s.db l).entries x = []) :
    (view s.db l).header header.id = none ∧
      view s'.db l = (view s.db l).record (Ledger.postedTransaction d header requests) := by
  obtain ⟨row, hrow, hi⟩ := h.row
  have hfree := (Table.insert?_eq_some.1 hi).1
  have hfresh : (view s.db l).header header.id = none := by simp [view, hfree]
  have hparent := parent_of_moved (l := l) h.accounts
  have hpending : pendingOf s'.db = pendingOf s.db := funext fun id => by
    rw [pendingOf_of_moved h.accounts (fun _ hne => (hne rfl).elim), Pi.zero_apply, add_zero]
  have hheader : (view s'.db l).header =
      update (view s.db l).header header.id (some .posted) := by
    funext id
    simp only [view, Table.find?_insert hi]
    by_cases hid : id = header.id
    · simp [hid, hrow, Ledger.headerColumns, hstatus]
    · simp [hid]
  have hentries : (view s'.db l).entries = update (view s.db l).entries header.id
      (Ledger.postedEntries d header.id requests) := by
    funext id
    have happend := Ledger.transactionEntries_append h.journal Ledger.postedEntries_own id
    by_cases hid : id = header.id
    · subst hid
      rw [update_self]
      exact happend.trans (by rw [if_pos rfl]; exact congrArg (· ++ _) (hnone _ hfresh))
    · rw [update_of_ne hid]
      exact happend.trans (by rw [if_neg hid, List.append_nil]; rfl)
  refine ⟨hfresh, ?_⟩
  simp only [View.record, ← hheader, ← hentries, Ledger.postedTransaction, ← hparent]
  simp only [view, hpending, h.sagaInstances, h.sagaSteps]

theorem applyPendingDelta_view {d : Ledger.PendingDelta}
    (h : Ledger.applyPendingDelta now d db = .ok db') :
    view db' l = { view db l with
      pending := update (view db l).pending d.accountID
        ((view db l).pending d.accountID + d.deltaMinor.toInt) } := by
  obtain ⟨r, row, hr, -, -⟩ := Ledger.applyPendingDelta_eq_ok h
  obtain ⟨hmoved, accounts, rfl⟩ := Ledger.applyPendingDelta_moved h
  have hparent := parent_of_moved (l := l) hmoved
  have hfound : ∀ id, (Pi.single d.accountID d.deltaMinor.toInt : UUID → ℤ) id ≠ 0 →
      db.accounts.find? id ≠ none := by
    intro id hne
    by_cases hid : id = d.accountID
    · simp [hid, hr]
    · simp [hid] at hne
  simp only [← hparent]
  simp only [view, View.mk.injEq, true_and, and_true]
  refine ⟨rfl, funext fun id => ?_⟩
  rw [pendingOf_of_moved hmoved hfound]
  by_cases hid : id = d.accountID <;> simp [hid]

theorem commitStep_view {c : StepCommit} (h : Saga.commitStep now c db = .ok db') :
    ∃ p, (view db l).saga c.transition.sagaID = some ⟨p, c.transition.source⟩ ∧
      view db' l = { (view db l).move c.transition.sagaID p c.transition.target with
        reserves := fun k => (view db l).reserves k ++
          (reserveOf k (c.attempt.toRow now)).toList } := by
  obtain ⟨db₁, hins, hadv⟩ := bind_eq_ok.1 h
  obtain ⟨p, hp, hview⟩ := advance_view (l := l) hadv
  rw [insertStep_view (mapError_eq_ok.1 hins)] at hp hview
  exact ⟨p, hp, hview⟩

/-- The hook of a step moves its saga, holds or frees the amount, and logs the attempt. -/
theorem recordStep_view {o : Orchestrator} {inst : Instance} {p : Payload} {delta : Int64}
    {ev : Stamp} {c : Commit} {posted : Ledger.Transaction}
    (h : (recordStep o inst p delta ev c posted).run (Ledger.exec now) s = .ok ((), s')) :
    ∃ q, (view s.db l).saga inst.id = some ⟨q, c.source⟩ ∧
      view s'.db l = { (view s.db l).move inst.id q c.target with
        pending := update (view s.db l).pending p.suspenseID
          ((view s.db l).pending p.suspenseID + delta.toInt)
        reserves := fun k => (view s.db l).reserves k ++
          if inst.id = k ∧ c.step = .reserve ∧ c.direction = .forward then [posted.id] else [] } := by
  obtain ⟨_, s₁, hcall, h⟩ := Prog.run_perform_bind_ok.1 h
  obtain ⟨db₁, hpend, he⟩ := map_eq_ok.1 hcall
  cases he
  obtain ⟨_, s₂, hcall, hevent⟩ := Prog.run_perform_bind_ok.1 h
  obtain ⟨db₂, hcommit, he⟩ := map_eq_ok.1 hcall
  cases he
  rw [Ledger.Tx.appendEvent, Prog.run_perform] at hevent
  obtain ⟨db₃, happend, he⟩ := map_eq_ok.1 hevent
  cases he
  obtain ⟨outbox, -, rfl⟩ := Outbox.append_eq_ok happend
  obtain ⟨q, hq, hview⟩ := commitStep_view (l := l) hcommit
  rw [applyPendingDelta_view hpend] at hq hview
  refine ⟨q, hq, (show view { db₂ with outbox } l = view db₂ l from rfl).trans (hview.trans ?_)⟩
  simp only [View.move, Commit.transition, Commit.attempt, View.mk.injEq, true_and, and_true]
  funext k
  by_cases hk : inst.id = k <;> by_cases hstep : c.step = .reserve <;>
    by_cases hdir : c.direction = .forward <;> simp [reserveOf, Attempt.toRow, hk, hstep, hdir]

theorem booked_postedEntries (d : Ledger.Draws) (txID : UUID)
    (requests : List Ledger.EntryRequest) :
    List.Forall₂ (fun (r : Ledger.EntryRequest) (e : Ledger.JournalEntry) =>
      e.direction = r.direction ∧ e.amount = r.amount ∧ e.accountID = r.accountID)
      requests (Ledger.postedEntries d txID requests) := by
  rw [Ledger.postedEntries, Ledger.buildEntries, List.forall₂_map_right_iff,
    List.forall₂_map_right_iff]
  have hself : ∀ (l : List Ledger.EntryRequest) (n : ℕ),
      List.Forall₂ (fun r (x : Ledger.EntryRequest × ℕ) => x.1 = r) l (l.zipIdx n) := by
    intro l
    induction l with
    | nil => exact fun _ => .nil
    | cons r l ih => exact fun n => .cons rfl (ih (n + 1))
  exact (hself requests 0).imp fun r x hx => hx ▸ ⟨rfl, rfl, rfl⟩

theorem booked_of_routes {d : Ledger.Draws} {txID : UUID}
    {entries requests : List Ledger.EntryRequest}
    (h : List.Forall₂ (Ledger.Routes db) entries requests) :
    Booked (view db l).parent entries (Ledger.postedEntries d txID requests) := by
  have hposted := booked_postedEntries d txID requests
  generalize Ledger.postedEntries d txID requests = es at hposted ⊢
  induction h generalizing es with
  | nil =>
    cases hposted
    exact .nil
  | cons hr _ ih =>
    cases hposted with
    | cons he hrest =>
      obtain ⟨hd, ha, hacc⟩ := he
      refine .cons ⟨hd.trans hr.direction, ha.trans hr.amount, ?_⟩ (ih _ hrest)
      rw [hacc]
      refine hr.account.imp_right fun ⟨r, hfind, hparent⟩ => ?_
      simp [view, hfind, hparent]

section Step
variable {d : Ledger.Draws} {txID : UUID} {o : Orchestrator} {inst : Instance} {p : Payload}
  {delta : Int64} {ev : Stamp} {c : Commit} {t : Ledger.Transaction}

theorem hook_view {v : View} (hv : view s.db l = v.record t)
    (hknown : ∃ st, v.saga inst.id = some ⟨p, st⟩)
    (h : (recordStep o inst p delta ev c t).run (Ledger.exec d.now) s = .ok ((), s')) :
    v.saga inst.id = some ⟨p, c.source⟩ ∧
      view s'.db (l ++ [⟨inst.id, t.id⟩]) = { v.step inst.id p c.target t delta.toInt with
        reserves := fun k => v.reserves k ++
          if inst.id = k ∧ c.step = .reserve ∧ c.direction = .forward then [t.id] else [] } := by
  obtain ⟨q, hq, hview⟩ := recordStep_view (l := l) h
  have hposted : l = v.posted := congrArg View.posted hv
  rw [hv] at hq hview
  obtain ⟨st, hst⟩ := hknown
  obtain rfl : q = p := congrArg Progress.payload (Option.some.inj (hq.symm.trans hst))
  refine ⟨hq, ?_⟩
  change ({ view s'.db l with posted := l ++ [(⟨inst.id, t.id⟩ : Posting)] } : View) = _
  rw [hview, hposted]
  rfl

/-- Reserve and settle: what their posting leaves. -/
theorem postTransaction_view {step : Step} {entries : List Ledger.EntryRequest}
    (hinv : (view db l).Inv) (hknown : ∃ st, (view db l).saga inst.id = some ⟨p, st⟩)
    (h : Ledger.postTransaction d txID
      (stepRequest inst p step entries (recordStep o inst p delta ev c)) db = .ok (t, db')) :
    (view db l).saga inst.id = some ⟨p, c.source⟩ ∧ (view db l).header t.id = none ∧
      t.id = txID ∧ Booked (view db l).parent entries t.entries ∧
      view db' (l ++ [⟨inst.id, t.id⟩]) = { (view db l).step inst.id p c.target t delta.toInt with
        reserves := fun k => (view db l).reserves k ++
          if inst.id = k ∧ c.step = .reserve ∧ c.direction = .forward then [t.id] else [] } := by
  obtain ⟨_, -, h⟩ := bind_eq_ok.1 h
  obtain ⟨s, hrun, -, rfl⟩ := Ledger.inTx_eq_ok h
  obtain ⟨requests, s₁, outbox, s₂, rfl, rfl, hwritten, hrecord, hcomplete⟩ :=
    Ledger.postTx_eq_ok hrun
  cases hcomplete
  obtain ⟨hfresh, hview⟩ := written_view (l := l) hwritten rfl hinv.entries
  obtain ⟨hsaga, hview'⟩ := hook_view (s := { s₁ with db := { s₁.db with outbox } })
    (hview : view { s₁.db with outbox } l = _) hknown hrecord
  exact ⟨hsaga, hfresh, rfl, booked_of_routes (Ledger.routed_routes d _ _), hview'⟩

theorem reversed_view {v : View} {s : DB} {r : TransactionRow} (hv : view s l = v.record t)
    (hr : s.transactions.find? txID = some r) (hs : r.status = .posted) (hne : txID ≠ t.id)
    (outbox : Table UUID Event) :
    view { s with outbox, transactions := s.transactions.modify txID Ledger.reversedRow } l =
      (v.reverse txID).record t := by
  have hheader : (view s l).header = update v.header t.id (some .posted) := by rw [hv]; rfl
  have hmod : (view { s with outbox, transactions := s.transactions.modify txID Ledger.reversedRow }
      l).header = update (view s l).header txID (some .reversed) := by
    funext id
    by_cases hid : id = txID
    · subst hid
      simp [view, hr, Ledger.reversedRow_of_posted hs]
    · simp [view, Table.find?_modify_of_ne _ hid, hid]
  change { view s l with header := (view { s with
    outbox, transactions := s.transactions.modify txID Ledger.reversedRow } l).header } = _
  rw [hmod, hheader, update_comm hne.symm, hv]
  rfl

/-- The compensation: the reserve is reversed, and its mirror image posted. -/
theorem doReverse_view {reversalID : UUID} {reason : String}
    (hinv : (view db l).Inv) (hknown : ∃ st, (view db l).saga inst.id = some ⟨p, st⟩)
    (h : Ledger.doReverse d reversalID txID reason none (some (recordStep o inst p delta ev c)) db =
      .ok (t, db')) (hstep : c.direction = .compensation) :
    (view db l).saga inst.id = some ⟨p, c.source⟩ ∧ (view db l).header t.id = none ∧
      (view db l).header txID = some .posted ∧ Mirrors ((view db l).entries txID) t.entries ∧
      view db' (l ++ [⟨inst.id, t.id⟩]) =
        ((view db l).reverse txID).step inst.id p c.target t delta.toInt := by
  unfold Ledger.doReverse at h
  split_ifs at h
  obtain ⟨s, hrun, -, rfl⟩ := Ledger.inTx_eq_ok h
  obtain ⟨original, s₁, outbox, s₂, r, hload, hposted, -, rfl, hwritten, hr, hs, hrecord,
    hcomplete⟩ := Ledger.reverseTx_eq_ok hrun
  cases hcomplete
  obtain ⟨hfresh, hview⟩ := written_view (l := l) hwritten rfl hinv.entries
  obtain ⟨r₀, hr₀, -, hstatus, hentries⟩ := Ledger.loadTransactionForUpdate_eq_ok hload
  have hheader : (view db l).header txID = some .posted := by
    simp [view, hr₀, ← hstatus, hposted]
  have hne : txID ≠ reversalID := by
    rintro rfl
    cases hfresh.symm.trans hheader
  obtain ⟨hsaga, hview'⟩ := hook_view (v := (view db l).reverse txID)
    (reversed_view hview hr hs hne outbox) hknown hrecord
  refine ⟨hsaga, hfresh, hheader, ?_, hview'.trans ?_⟩
  · refine ⟨original.entries, ?_, ?_⟩
    · rw [hentries, Ledger.map_toEntry_entriesOf]
      exact List.perm_insertionSort _ _
    · have hposted := booked_postedEntries d reversalID (Ledger.mirrored original.entries)
      rw [Ledger.mirrored, List.forall₂_map_left_iff] at hposted
      exact hposted.imp fun e e' h => ⟨h.2.2, h.1, h.2.1⟩
  · simp [hstep, View.step, View.move, View.record, View.reverse]

end Step

end LedgerCore.Payout
