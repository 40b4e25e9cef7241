import LedgerCore.Ledger.Deadlocks
import LedgerCore.Projector.Convergence

/-! Which rows consumers wait for. The order in which an event is applied is the order in which the
ledger listed its balances. -/
namespace LedgerCore.Ledger
open LedgerCore.Program

/-- An event that reports balances lists its accounts in ascending order. -/
def Ordered (e : Event) : Prop :=
  Transactional e → ((eventBalances e.payload).map fun b => b.accountID).Pairwise (· < ·)

/-- Only ordered events are new. -/
def AppendsOrdered (db db' : DB) : Prop :=
  ∃ rest, db'.outbox.rows = db.outbox.rows ++ rest ∧ ∀ x ∈ rest, Ordered x.2

section Order
variable {db db' : DB} {t : Transaction}

theorem appendsOrdered_of_silent (h : ∃ rest, db'.outbox.rows = db.outbox.rows ++ rest ∧
    ∀ x ∈ rest, ¬Transactional x.2) : AppendsOrdered db db' := by
  obtain ⟨rest, hrows, hrest⟩ := h
  exact ⟨rest, hrows, fun x hx htx => absurd htx (hrest x hx)⟩

theorem Announcement.appendsOrdered {after : TxM Unit} (h : Announcement db db' t after)
    (hafter : after.OnlyCalls HookCall) : AppendsOrdered db db' := by
  obtain ⟨e, s₁, -, hbalances, hrows, -, hunreported⟩ := appendTransactionEvent_eq_ok h.announces
  have hquiet := hunreported.trans (run_hookCalls hafter h.runs)
  rw [← h.result] at hquiet
  obtain ⟨rest, hout, hnone⟩ := hquiet.outbox
  refine ⟨(h.d.eventID 0, e) :: rest, ?_, ?_⟩
  · rw [hout, hrows, h.marks_outbox, h.writes.outbox, List.append_assoc]
    rfl
  · rintro x hx htx
    rcases List.mem_cons.1 hx with rfl | hx
    · rw [hbalances, h.accounts]
      exact sortedAccountIDs_ascending h.requests
    · exact absurd htx (hnone x hx)

theorem LedgerOp.run_appendsOrdered {op : LedgerOp} (hs : op.Silent) (h : op.run db = .ok db') :
    AppendsOrdered db db' := by
  cases op with
  | createAccount d id req =>
    obtain ⟨⟨a, db₁⟩, hrun, rfl⟩ := map_eq_ok.1 h
    exact appendsOrdered_of_silent (createAccount_outbox hrun)
  | shardAccount now shardID accountID shards =>
    refine ⟨[], ?_, by simp⟩
    rw [ledgerShardAccount_outbox (mapError_eq_ok.1 h), List.append_nil]
  | postTransaction d txID req hooks =>
    obtain ⟨⟨t, db₁⟩, hrun, rfl⟩ := map_eq_ok.1 h
    obtain ⟨ha⟩ := postTransaction_announcement hrun
    exact ha.appendsOrdered (hs.afterEvents _ _)
  | reverseTransaction d reversalID txID reason idem record hooks =>
    obtain ⟨⟨t, db₁⟩, hrun, rfl⟩ := map_eq_ok.1 h
    obtain ⟨ha⟩ := doReverse_announcement hrun
    exact ha.appendsOrdered (hs.afterEvents _ _)

theorem runOps_ordered {ops : List LedgerOp} (h₀ : db.outbox.rows = [])
    (hs : ∀ op ∈ ops, op.Silent) : ∀ x ∈ (runOps ops db).outbox.rows, Ordered x.2 := by
  refine List.foldlRecOn (motive := fun db' : DB => ∀ x ∈ db'.outbox.rows, Ordered x.2) ops
    LedgerOp.apply ?_ fun db' ih op hop => ?_
  · rw [h₀]
    exact fun x hx => (nomatch hx)
  · rw [LedgerOp.apply]
    cases hrun : op.run db' with
    | error e => exact ih
    | ok db'' =>
      obtain ⟨rest, hrows, hrest⟩ := op.run_appendsOrdered (hs op hop) hrun
      intro x hx
      rw [hrows] at hx
      exact (List.mem_append.1 hx).elim (ih x) (hrest x)

end Order

end LedgerCore.Ledger

namespace LedgerCore.Projector
open LedgerCore.Program LedgerCore.Program.Engine

/-- What a statement locks. The insert of an event that was handled before does nothing. The upsert
locks the account's row, also when it leaves it as it is. -/
def takes : Call → ProjectionDB → List Lock
  | .recordEvent eventID _, db =>
    if (db.processedEvents.find? eventID).isNone then [.event eventID] else []
  | .applyBalance _ b, _ => [.projection b.accountID]

def locking : Locking Call ProjectionDB Lock := ⟨takes, fun _ _ => [], fun l m => l = m⟩

def Lock.rank : Lock → ℕ
  | .event _ => 0
  | .projection accountID => accountID.toNat + 1

/-- What a consumer takes up is an event of the history. -/
def Emitted (db₀ : DB) (ops : List Ledger.LedgerOp) (d : Delivery) : Prop :=
  ∃ x ∈ (Ledger.runOps ops db₀).outbox.rows, d.envelope = .ofEvent x.1 x.2

theorem persists_true : Persists engine fun _ => True where
  stored_start _ := rfl
  stored_rebase _ _ := rfl
  commit_stored := engine_isolates.commit_stored
  patch _ _ _ := trivial

section Waits
variable {d : Delivery} {held : List Lock}

theorem ascends_perform {c : Call} {Q : Reply c → List Lock → Prop} (l : Lock)
    (htakes : ∀ db, takes c db <+: [l]) (habove : ∀ m ∈ held, m.rank < l.rank)
    (hQ : ∀ r held', (∀ m ∈ held', m ∈ held ∨ m = l) → Q r held') :
    Ascends engine locking (fun _ => True) Lock.rank d Q (.perform c) held := by
  refine ascends_call [l] (fun db _ => htakes db) (List.pairwise_singleton _ _) (fun m hm => ?_)
    (fun _ _ _ _ _ => trivial) fun held' _ hmem db r db' _ _ _ => .pure (hQ r _ fun m hm => ?_)
  · rw [List.mem_singleton.1 hm]
    exact .inr habove
  · have hm : m ∈ held' := by simpa [locking] using hm
    exact (hmem m hm).imp_right List.mem_singleton.1

theorem ascends_applyBalances {eventID : UUID} {bs : List EventBalance}
    (hbs : (bs.map fun b => b.accountID).Pairwise (· < ·))
    (habove : ∀ m ∈ held, ∀ b ∈ bs, m.rank < (Lock.projection b.accountID).rank) :
    Ascends engine locking (fun _ => True) Lock.rank d (fun _ _ => True)
      (bs.forM fun b => .perform (Call.applyBalance eventID b)) held := by
  induction bs generalizing held with
  | nil => exact .pure trivial
  | cons b bs ih =>
    obtain ⟨hb, hbs⟩ := List.pairwise_cons.1 hbs
    refine .bind (ascends_perform (c := .applyBalance eventID b) (.projection b.accountID)
      (fun _ => List.prefix_rfl) (fun m hm => habove m hm b List.mem_cons_self)
      fun _ held' hmem => ih hbs ?_)
    intro m hm b' hb'
    rcases hmem m hm with hm | rfl
    · exact habove m hm b' (List.mem_cons_of_mem _ hb')
    · exact Nat.succ_lt_succ (BitVec.lt_def.1 (hb b'.accountID (List.mem_map_of_mem hb')))

theorem decodeBalances_eq_ok {p : EventPayload} {bs : List EventBalance}
    (h : decodeBalances p = .ok bs) : bs = Ledger.eventBalances p := by
  obtain ⟨_, -, rfl⟩ := map_eq_ok.1 h
  rfl

/-- An event whose accounts ascend takes its locks in order. -/
theorem ascends_apply (h : Known d.envelope.eventType →
    ((Ledger.eventBalances d.envelope.payload).map fun b => b.accountID).Pairwise (· < ·)) :
    Ascends engine locking (fun _ => True) Lock.rank d (fun _ _ => True) d.envelope.decoded.apply
      [] := by
  refine .bind (ascends_ofExcept fun bs hcheck => ?_)
  obtain ⟨_, hknown, hbs⟩ := bind_eq_ok.1 hcheck
  have hknown : Known d.envelope.eventType := not_not.1 (failIf_eq_ok.1 hknown)
  rw [decodeBalances_eq_ok (mapError_eq_ok.1 hbs)]
  refine .bind (ascends_perform (.event d.envelope.eventID) (fun db => ?_)
    (fun m hm => (nomatch hm)) fun recorded held' hmem => ?_)
  · rw [takes]
    split_ifs
    · exact List.prefix_rfl
    · exact List.nil_prefix
  · split_ifs
    · refine .bind ((ascends_applyBalances (h hknown) fun m hm b _ => ?_).mono
        fun _ _ _ => .pure trivial)
      rcases hmem m hm with hm | rfl
      · cases hm
      · exact Nat.succ_pos _
    · exact .pure trivial

end Waits

/-- Consumers on `n` connections, each taking its locks one at a time. -/
abbrev LockedConsumers (n : ℕ) :=
  Connections Reply Error Delivery ProjectionDB ProjectionDB Patch Lock Bool n

/-- Consumers that apply events of a history, in any order and however often, never wait for each
other in a circle, since every event lists its accounts in the order of their ids. -/
theorem consumer_waits_not_circular {db₀ : DB} (h₀ : db₀.outbox.rows = [])
    {ops : List Ledger.LedgerOp} (hs : ∀ op ∈ ops, op.Silent) {n : ℕ} {db : ProjectionDB}
    {actions : List (Connections.Action Delivery n)} {s : LockedConsumers n}
    (ha : ∀ i d, .begin i d ∈ actions → Emitted db₀ ops d)
    (hrun : (Connections.init db : LockedConsumers n).run engine locking actions = some s) :
    (∀ x ∈ (Ledger.runOps ops db₀).outbox.rows, Ledger.Transactional x.2 →
      ((Ledger.eventBalances x.2.payload).map fun b => b.accountID).Pairwise (· < ·)) ∧
      ∀ i, ¬Relation.TransGen (s.Waits engine locking) i i := by
  have hordered := Ledger.runOps_ordered h₀ hs
  have hinOrder : AllInOrder engine locking (fun _ => True) Lock.rank s := by
    refine AllInOrder.run persists_true (allInOrder_init trivial) (fun a hmem => ?_) hrun
    cases a with
    | begin i d =>
      obtain ⟨x, hx, henvelope⟩ := ha i d hmem
      refine ascends_apply fun hknown => ?_
      rw [henvelope] at hknown ⊢
      exact hordered x hx hknown
    | _ => trivial
  refine ⟨hordered, hinOrder.not_circular persists_true fun i l hl j x hx m hm hlm => ?_⟩
  rw [of_decide_eq_true hlm]

theorem emitted_deliveryOf {db₀ : DB} {ops : List Ledger.LedgerOp} {eventID : UUID} {d : Delivery}
    (h : deliveryOf (Ledger.runOps ops db₀) eventID = some d) : Emitted db₀ ops d := by
  obtain ⟨e, he, rfl⟩ := Option.map_eq_some_iff.1 h
  exact ⟨(eventID, e), Table.find?_eq_some.1 he, rfl⟩

/-- One consumer has recorded a posting and has its first row, which another, that has recorded the
reversal, is about to take. -/
def sampleContention : List (Connections.Action Delivery 2) :=
  let first : Fin 2 := ⟨0, Nat.two_pos⟩
  let second : Fin 2 := ⟨1, Nat.one_lt_two⟩
  [.begin first (sampleDelivery 3500), .begin second (sampleDelivery 4500), .take first,
    .advance first, .take first, .take second, .advance second]

theorem sampleContention_emitted (i : Fin 2) (d : Delivery) (h : .begin i d ∈ sampleContention) :
    Emitted .empty Ledger.sampleOps d := by
  have hpresent : [(3500 : UUID), 4500].all (fun eventID =>
      (deliveryOf (Ledger.runOps Ledger.sampleOps .empty) eventID).isSome) = true := by
    decide +kernel
  have hemitted : ∀ eventID ∈ [(3500 : UUID), 4500],
      Emitted .empty Ledger.sampleOps (sampleDelivery eventID) := by
    intro eventID hid
    obtain ⟨d, hd⟩ := Option.isSome_iff_exists.1 (List.all_eq_true.1 hpresent eventID hid)
    rw [sampleDelivery, hd]
    exact emitted_deliveryOf hd
  simp only [sampleContention, List.mem_cons, List.not_mem_nil, or_false, reduceCtorEq,
    Connections.Action.begin.injEq] at h
  rcases h with ⟨-, rfl⟩ | ⟨-, rfl⟩
  · exact hemitted 3500 (by simp)
  · exact hemitted 4500 (by simp)

theorem consumer_waits_not_circular_contention :
    ∃ s, (Connections.init .empty : LockedConsumers 2).run engine locking sampleContention = some s ∧
      s.Waits engine locking 1 0 ∧
      ∀ i, ¬Relation.TransGen (s.Waits engine locking) i i := by
  have hsome : ((Connections.init .empty : LockedConsumers 2).run engine locking
      sampleContention).any (fun s => s.wants engine locking 1 = some (.projection 1) ∧
        s.blocks locking (.projection 1) 0) = true := by
    decide +kernel
  obtain ⟨s, hrun, hs⟩ := (Option.any_eq_true ..).1 hsome
  obtain ⟨hwants, hblocks⟩ := of_decide_eq_true hs
  have hsilent : ∀ op ∈ Ledger.sampleOps, op.Silent := by
    simp [Ledger.sampleOps, Ledger.LedgerOp.Silent, Ledger.Silent]
  exact ⟨s, hrun, ⟨by decide, _, hwants, hblocks⟩,
    (consumer_waits_not_circular rfl hsilent sampleContention_emitted hrun).2⟩

end LedgerCore.Projector
