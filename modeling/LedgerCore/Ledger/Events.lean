import LedgerCore.Ledger.Balances

/-! The events that a ledger operation leaves in the outbox. -/
namespace LedgerCore.Ledger
open LedgerCore.Program
variable {id txID : UUID} {d : Draws} {record : Option Recorder}

variable {now : Time} {db db' : DB} {s s' : TxState} {t : Transaction}

/-- The two events that report a transaction's balances. -/
def Transactional (e : Event) : Prop :=
  e.eventType = "TransactionPosted" ∨ e.eventType = "TransactionReversed"

instance (e : Event) : Decidable (Transactional e) :=
  inferInstanceAs (Decidable (_ ∨ _))

def eventBalances : EventPayload → List EventBalance
  | .transaction p => p.balances
  | _ => []

/-- A balance in an event is the one of the account's row. -/
structure Reports (b : EventBalance) (r : AccountRow) : Prop where
  available : b.available = ⟨r.balance.availableMinor, r.currency⟩
  version : b.version = r.balance.version

/-- The calls that a hook makes: side calls, none of which appends an event of the ledger's own. -/
def HookCall : TxCall → Prop
  | .applyPendingDelta _ => True
  | .appendEvent _ e => ¬Transactional e
  | .commitSagaStep _ => True
  | .completeIdempotency _ => True
  | _ => False

/-- What accounts and outbox look like after calls that report no balance: the balances stand, and
the new events are not transactional. -/
structure Unreported (db db' : DB) : Prop where
  outbox : ∃ rest, db'.outbox.rows = db.outbox.rows ++ rest ∧ ∀ x ∈ rest, ¬Transactional x.2
  accounts : ∀ id r, db.accounts.find? id = some r → ∃ r', db'.accounts.find? id = some r' ∧
    r'.currency = r.currency ∧ r'.balance.availableMinor = r.balance.availableMinor ∧
    r'.balance.version = r.balance.version

theorem Unreported.of_eq (ho : db'.outbox = db.outbox) (ha : db'.accounts = db.accounts) :
    Unreported db db' :=
  ⟨⟨[], by rw [ho, List.append_nil], by simp⟩, fun id r hr => ⟨r, ha ▸ hr, rfl, rfl, rfl⟩⟩

theorem Unreported.refl (db : DB) : Unreported db db := .of_eq rfl rfl

theorem Unreported.trans {db'' : DB} (h : Unreported db db') (h' : Unreported db' db'') :
    Unreported db db'' := by
  obtain ⟨rest, hrest, hnone⟩ := h.outbox
  obtain ⟨rest', hrest', hnone'⟩ := h'.outbox
  refine ⟨⟨rest ++ rest', by rw [hrest', hrest, List.append_assoc], fun x hx => ?_⟩, fun id r hr => ?_⟩
  · exact (List.mem_append.1 hx).elim (hnone x) (hnone' x)
  · obtain ⟨r₁, hr₁, hc, ha, hv⟩ := h.accounts id r hr
    obtain ⟨r₂, hr₂, hc', ha', hv'⟩ := h'.accounts id r₁ hr₁
    exact ⟨r₂, hr₂, hc'.trans hc, ha'.trans ha, hv'.trans hv⟩

theorem Reports.of_unreported {b : EventBalance} {r : AccountRow} (h : Reports b r)
    (hu : Unreported db db') (hr : db.accounts.find? id = some r) :
    ∃ r', db'.accounts.find? id = some r' ∧ Reports b r' := by
  obtain ⟨r', hr', hc, ha, hv⟩ := hu.accounts id r hr
  exact ⟨r', hr', by rw [ha, hc]; exact h.available, by rw [hv]; exact h.version⟩

theorem append_unreported {eventID : UUID} {e : Event} (he : ¬Transactional e)
    (h : Outbox.append eventID e db = .ok db') : Unreported db db' := by
  obtain ⟨outbox, hi, rfl⟩ := Outbox.append_eq_ok h
  refine ⟨⟨[(eventID, e)], (Table.insert?_eq_some.1 hi).2, by simpa using he⟩,
    fun id r hr => ⟨r, hr, rfl, rfl, rfl⟩⟩

theorem exec_hookCall {c : TxCall} {r : TxReply c} (hc : HookCall c)
    (h : exec now c s = .ok (r, s')) : Unreported s.db s'.db := by
  cases c with
  | applyPendingDelta d =>
    obtain ⟨db₁, hdb, h⟩ := map_eq_ok.1 h
    cases h
    obtain ⟨row, b, hr, hm, rfl⟩ := applyPendingDelta_eq_ok hdb
    refine ⟨⟨[], by simp, by simp⟩, fun id r hr' => ?_⟩
    by_cases hid : id = d.accountID
    · subst hid
      obtain rfl : row = r := Option.some.inj (hr.symm.trans hr')
      exact ⟨{ row with balance := b }, by simp [hr], rfl, hm.available, hm.version⟩
    · exact ⟨r, by simp [Table.find?_modify_of_ne _ hid, hr'], rfl, rfl, rfl⟩
  | appendEvent id e =>
    obtain ⟨db₁, hdb, h⟩ := map_eq_ok.1 h
    cases h
    exact append_unreported hc hdb
  | commitSagaStep c =>
    obtain ⟨db₁, hdb, h⟩ := map_eq_ok.1 h
    cases h
    obtain ⟨_, _, rfl⟩ := Saga.commitStep_tables hdb
    exact .of_eq rfl rfl
  | completeIdempotency c =>
    obtain ⟨db₁, hdb, h⟩ := map_eq_ok.1 h
    cases h
    obtain ⟨_, rfl⟩ := Idempotency.complete_tables hdb
    exact .of_eq rfl rfl
  | _ => exact hc.elim

theorem run_hookCalls {α : Type} {p : TxM α} {a : α} (hp : p.OnlyCalls HookCall)
    (h : p.run (exec now) s = .ok (a, s')) : Unreported s.db s'.db :=
  Prog.run_of_onlyCalls (T := fun s s' : TxState => Unreported s.db s'.db) (fun _ => .refl _)
    (fun h h' => h.trans h') exec_hookCall hp h

theorem applyBalanceDelta_reports {d : BalanceDelta} {bal : Balance}
    (h : applyBalanceDelta now d db = .ok (bal, db')) :
    ∃ r, db'.accounts.find? d.accountID = some r ∧
      Reports ⟨d.accountID, bal.available, bal.version⟩ r := by
  unfold applyBalanceDelta at h
  split at h
  · cases h
  · next r hr =>
    obtain ⟨row, hrow, h⟩ := bind_eq_ok.1 h
    obtain ⟨available, ha, h⟩ := bind_eq_ok.1 h
    obtain ⟨pending, -, h⟩ := bind_eq_ok.1 h
    obtain ⟨rfl, rfl⟩ := Prod.mk.inj (Except.ok.inj h)
    have hr := (Option.filter_eq_some_iff.1 hr).1
    refine ⟨{ r with balance := row }, by simp [hr], ?_, rfl⟩
    exact (newMoney_eq_ok.1 (mapError_eq_ok.1 ha)).2

theorem applyBalances_reports {accounts : AccountMap} {g : Aggregate} {order : List UUID}
    {bs : List EventBalance} (hnd : order.Nodup)
    (h : (order.mapM' (applyBalance accounts g)).run (exec now) s = .ok (bs, s')) :
    bs.map (fun b => b.accountID) = order ∧
      ∀ b ∈ bs, ∃ r, s'.db.accounts.find? b.accountID = some r ∧ Reports b r := by
  induction order generalizing s bs with
  | nil =>
    cases h
    simp
  | cons a order ih =>
    obtain ⟨b, s₁, hb, h⟩ := Prog.run_bind_ok.1 h
    obtain ⟨bs', s₂, hbs, h⟩ := Prog.run_bind_ok.1 h
    cases h
    obtain ⟨hnot, hnd⟩ := List.nodup_cons.1 hnd
    obtain ⟨hids, hreports⟩ := ih hnd hbs
    obtain ⟨_, -, hb⟩ := Prog.run_ofExcept_bind_ok.1 hb
    obtain ⟨bal, s₃, hcall, hb⟩ := Prog.run_perform_bind_ok.1 hb
    obtain ⟨⟨bal', db₃⟩, hdelta, he⟩ := map_eq_ok.1 hcall
    cases he
    cases hb
    obtain ⟨r, hr, hreport⟩ := applyBalanceDelta_reports hdelta
    refine ⟨by simp [hids], fun b hb => ?_⟩
    rcases List.mem_cons.1 hb with rfl | hb
    · -- The rest of the loop leaves this account alone.
      obtain ⟨row, hrow, hkeep, -⟩ := (applyBalances_eq_ok hnd hbs).2 a r hr
      obtain rfl := hkeep hnot
      exact ⟨r, hrow, hreport⟩
    · exact hreports b hb

theorem writeTransaction_reports {header : Transaction} {requests : List EntryRequest}
    {accounts : AccountMap} {balances : List EventBalance}
    (h : (writeTransaction d header requests accounts (sortedAccountIDs requests)).run
      (exec d.now) s = .ok ((t, balances), s')) :
    balances.map (fun b => b.accountID) = sortedAccountIDs requests ∧
      ∀ b ∈ balances, ∃ r, s'.db.accounts.find? b.accountID = some r ∧ Reports b r := by
  obtain ⟨times, s₁, -, h⟩ := Prog.run_perform_bind_ok.1 h
  obtain ⟨entries, s₂, -, h⟩ := Prog.run_perform_bind_ok.1 h
  obtain ⟨bs, s₃, happly, h⟩ := Prog.run_bind_ok.1 h
  cases h
  obtain ⟨g, -, happly⟩ := Prog.run_ofExcept_bind_ok.1 happly
  exact applyBalances_reports (sortedAccountIDs_nodup requests) happly

/-- The event lists the accounts of the transaction, each with the balance it has in `db`. -/
structure Announces (e : Event) (t : Transaction) (db : DB) : Prop where
  transactional : Transactional e
  reports : ∀ b ∈ eventBalances e.payload,
    onAccount b.accountID t.entries ≠ [] ∧ ∃ r, db.accounts.find? b.accountID = some r ∧ Reports b r
  covers : ∀ id, onAccount id t.entries ≠ [] → ∃ b ∈ eventBalances e.payload, b.accountID = id

/-- A commit leaves one event for its transaction, and none for another. -/
def Emits (db db' : DB) (t : Transaction) : Prop :=
  ∃ eventID e rest, db'.outbox.rows = db.outbox.rows ++ (eventID, e) :: rest ∧ Announces e t db' ∧
    ∀ x ∈ rest, ¬Transactional x.2

theorem appendBalanceUpdatedEvents_hookCalls (d : Draws) (header : Transaction)
    (balances : List EventBalance) (occurredAt : Time) :
    (appendBalanceUpdatedEvents d header balances occurredAt).OnlyCalls HookCall := by
  refine Prog.onlyCalls_forM fun b _ => ?_
  refine (Prog.onlyCalls_ofExcept _).bind fun payload => Prog.onlyCalls_perform ?_
  simp [HookCall, Transactional]

theorem appendTransactionEvent_eq_ok {eventType : String} {header : Transaction}
    {balances : List EventBalance} {reverses : Option UUID} {reason : String} {u : Unit}
    (h : (appendTransactionEvent d eventType header balances reverses reason).run (exec now) s =
      .ok (u, s')) :
    ∃ (e : Event) (s₁ : TxState), e.eventType = eventType ∧ eventBalances e.payload = balances ∧
      s₁.db.outbox.rows = s.db.outbox.rows ++ [(d.eventID 0, e)] ∧
      s₁.db.accounts = s.db.accounts ∧ Unreported s₁.db s'.db := by
  obtain ⟨payload, hp, h⟩ := Prog.run_ofExcept_bind_ok.1 h
  obtain ⟨_, -, rfl⟩ := map_eq_ok.1 hp
  obtain ⟨_, s₁, hcall, h⟩ := Prog.run_perform_bind_ok.1 h
  obtain ⟨db₁, hdb, he⟩ := map_eq_ok.1 hcall
  cases he
  obtain ⟨outbox, hi, rfl⟩ := Outbox.append_eq_ok hdb
  refine ⟨_, { s with db := { s.db with outbox } }, rfl, rfl, (Table.insert?_eq_some.1 hi).2, rfl, ?_⟩
  exact run_hookCalls (appendBalanceUpdatedEvents_hookCalls _ _ _ _) h

/-- How a transaction comes into the database: its rows are written, the balances that this leaves
are announced, and `after` does the rest. -/
structure Announcement (db db' : DB) (t : Transaction) (after : TxM Unit) where
  d : Draws
  header : Transaction
  requests : List EntryRequest
  balances : List EventBalance
  eventType : String
  reverses : Option UUID
  reason : String
  written : TxState
  marked : TxState
  announced : TxState
  done : TxState
  posted : t = postedTransaction d header requests
  writes : Written d header requests ⟨db, []⟩ written
  accounts : balances.map (fun b => b.accountID) = sortedAccountIDs requests
  reports : ∀ b ∈ balances, ∃ r, written.db.accounts.find? b.accountID = some r ∧ Reports b r
  marks_outbox : marked.db.outbox = written.db.outbox
  marks_accounts : marked.db.accounts = written.db.accounts
  type : eventType = "TransactionPosted" ∨ eventType = "TransactionReversed"
  announces : (appendTransactionEvent d eventType t balances reverses reason).run (exec d.now)
    marked = .ok ((), announced)
  runs : after.run (exec d.now) announced = .ok ((), done)
  result : db' = done.db

theorem Announcement.mem_accounts {after : TxM Unit} (h : Announcement db db' t after) :
    id ∈ h.balances.map (fun b => b.accountID) ↔ onAccount id t.entries ≠ [] := by
  have hentries : t.entries = postedEntries h.d h.header.id h.requests :=
    congrArg Transaction.entries h.posted
  rw [h.accounts, hentries]
  constructor
  · intro hid
    have hentry : ∃ e ∈ postedEntries h.d h.header.id h.requests, e.accountID = id :=
      mem_accounts_postedEntries.2 hid
    obtain ⟨x, hx⟩ := hentry
    exact List.ne_nil_of_mem (mem_onAccount.2 hx)
  · intro hne
    obtain ⟨x, hx⟩ := List.exists_mem_of_ne_nil _ hne
    exact mem_accounts_postedEntries.1 ⟨x, mem_onAccount.1 hx⟩

theorem Announcement.emits {after : TxM Unit} (h : Announcement db db' t after)
    (hafter : after.OnlyCalls HookCall) : Emits db db' t := by
  obtain ⟨e, s₄, he, hbalances, hrows, haccounts, hunreported⟩ := appendTransactionEvent_eq_ok h.announces
  have hquiet := hunreported.trans (run_hookCalls hafter h.runs)
  rw [← h.result] at hquiet
  obtain ⟨rest, hout, hnone⟩ := hquiet.outbox
  refine ⟨h.d.eventID 0, e, rest, ?_, ⟨?_, fun b hb => ?_, fun id hid => ?_⟩, hnone⟩
  · rw [hout, hrows, h.marks_outbox, h.writes.outbox, List.append_assoc]
    rfl
  · rw [Transactional, he]
    exact h.type
  · rw [hbalances] at hb
    obtain ⟨r, hr, hreport⟩ := h.reports b hb
    refine ⟨h.mem_accounts.1 (List.mem_map_of_mem hb), hreport.of_unreported hquiet ?_⟩
    rw [haccounts, h.marks_accounts, hr]
  · obtain ⟨b, hb, rfl⟩ := List.mem_map.1 (h.mem_accounts.2 hid)
    exact ⟨b, hbalances.symm ▸ hb, rfl⟩

def afterEvents (record : Option Recorder) (idem : Option Idempotent) (t : Transaction) : TxM Unit := do
  runRecord record t
  completeIdempotency idem t

theorem postTransaction_announcement {req : TransactionRequest}
    (h : postTransaction d txID req db = .ok (t, db')) :
    Nonempty (Announcement db db' t (afterEvents req.record req.idempotency t)) := by
  obtain ⟨_, -, h⟩ := bind_eq_ok.1 h
  obtain ⟨s, hrun, -, rfl⟩ := inTx_eq_ok h
  obtain ⟨requests, s₀, hroute, h⟩ := Prog.run_bind_ok.1 hrun
  cases (run_routeToShards d _ _).symm.trans hroute
  obtain ⟨accounts, s₀, hlock, h⟩ := Prog.run_bind_ok.1 h
  obtain ⟨rfl, hlocked, -⟩ := lockAndValidate_eq_ok hlock
  obtain ⟨⟨header, balances⟩, s₁, hwrite, h⟩ := Prog.run_bind_ok.1 h
  obtain ⟨hids, hreports⟩ := writeTransaction_reports hwrite
  obtain ⟨rfl, hwritten⟩ := writeTransaction_eq_ok hlocked hwrite
  obtain ⟨_, s₂, hevents, h⟩ := Prog.run_bind_ok.1 h
  obtain ⟨_, s₃, hrecord, h⟩ := Prog.run_bind_ok.1 h
  obtain ⟨_, s₄, hcomplete, h⟩ := Prog.run_bind_ok.1 h
  cases h
  rw [record_withKey] at hrecord
  rw [idempotency_withKey] at hcomplete
  exact ⟨⟨d, _, _, balances, _, none, "", s₁, s₁, s₂, _, rfl, hwritten, hids, hreports, rfl, rfl,
    .inl rfl, hevents, Prog.run_bind_ok.2 ⟨_, _, hrecord, hcomplete⟩, rfl⟩⟩

theorem doReverse_announcement {reversalID : UUID} {reason : String} {idem : Option Idempotent}
    (h : doReverse d reversalID txID reason idem record db = .ok (t, db')) :
    Nonempty (Announcement db db' t (afterEvents record idem t)) := by
  unfold doReverse at h
  split_ifs at h
  obtain ⟨s, hrun, -, rfl⟩ := inTx_eq_ok h
  obtain ⟨original, s₀, hcall, h⟩ := Prog.run_perform_bind_ok.1 hrun
  obtain ⟨_, hload, he⟩ := map_eq_ok.1 hcall
  cases he
  obtain ⟨_, hcheck, h⟩ := Prog.run_ofExcept_bind_ok.1 h
  obtain ⟨accounts, s₀, hlock, h⟩ := Prog.run_bind_ok.1 h
  obtain ⟨rfl, hlocked, -⟩ := lockAndValidate_eq_ok hlock
  obtain ⟨⟨header, balances⟩, s₁, hwrite, h⟩ := Prog.run_bind_ok.1 h
  obtain ⟨hids, hreports⟩ := writeTransaction_reports hwrite
  obtain ⟨rfl, hwritten⟩ := writeTransaction_eq_ok hlocked hwrite
  obtain ⟨_, s₂, hmark, h⟩ := Prog.run_perform_bind_ok.1 h
  obtain ⟨db₂, hmarked, he⟩ := map_eq_ok.1 hmark
  cases he
  obtain ⟨r, hr, hs, rfl⟩ := markReversed_eq_ok hmarked
  obtain ⟨_, s₃, hevents, h⟩ := Prog.run_bind_ok.1 h
  obtain ⟨_, s₄, hrecord, h⟩ := Prog.run_bind_ok.1 h
  obtain ⟨_, s₅, hcomplete, h⟩ := Prog.run_bind_ok.1 h
  cases h
  exact ⟨⟨d, _, _, balances, _, some txID, reason, s₁,
    ⟨{ s₁.db with transactions := s₁.db.transactions.modify txID reversedRow }, s₁.deferred⟩, s₃, _,
    rfl, hwritten, hids, hreports, rfl, rfl, .inr rfl, hevents,
    Prog.run_bind_ok.2 ⟨_, _, hrecord, hcomplete⟩, rfl⟩⟩

/-- A hook that appends no event of the ledger's own, as no hook of the service does. -/
def Silent (record : Option Recorder) : Prop :=
  ∀ r ∈ record, ∀ t, (r t).OnlyCalls HookCall

theorem Silent.afterEvents (h : Silent record) (idem : Option Idempotent) (t : Transaction) :
    (afterEvents record idem t).OnlyCalls HookCall :=
  (onlyCalls_runRecord h t).bind fun _ =>
    onlyCalls_completeIdempotency (fun _ => trivial) idem t

theorem postTransaction_emits {req : TransactionRequest} (hooks : Silent req.record)
    (h : postTransaction d txID req db = .ok (t, db')) : Emits db db' t := by
  obtain ⟨ha⟩ := postTransaction_announcement h
  exact ha.emits (hooks.afterEvents _ _)

theorem doReverse_emits {reversalID : UUID} {reason : String} {idem : Option Idempotent}
    (hooks : Silent record) (h : doReverse d reversalID txID reason idem record db = .ok (t, db')) :
    Emits db db' t := by
  obtain ⟨ha⟩ := doReverse_announcement h
  exact ha.emits (hooks.afterEvents _ _)

def LedgerOp.Silent : LedgerOp → Prop
  | .postTransaction _ _ req _ => Ledger.Silent req.record
  | .reverseTransaction _ _ _ _ _ record _ => Ledger.Silent record
  | _ => True

theorem insertAccountRow_outbox {a : AccountColumns} (h : insertAccountRow id a now db = .ok db') :
    db'.outbox = db.outbox := by
  obtain ⟨_, _, -, -, -, rfl⟩ := insertAccountRow_eq_ok h
  rfl

theorem createAccount_outbox {req : CreateAccountRequest} {a : Account}
    (h : createAccount d id req db = .ok (a, db')) :
    ∃ rest, db'.outbox.rows = db.outbox.rows ++ rest ∧ ∀ x ∈ rest, ¬Transactional x.2 := by
  obtain ⟨_, db₁, e, hins, -, htype, happend⟩ := createAccount_eq_ok h
  rw [← insertAccountRow_outbox hins]
  exact (append_unreported (by simp [Transactional, htype]) happend).outbox

theorem ledgerShardAccount_outbox {shardID : ℕ → UUID} {accountID : UUID} {shards : ℕ}
    (h : ledgerShardAccount now shardID accountID shards db = .ok db') : db'.outbox = db.outbox := by
  unfold ledgerShardAccount at h
  split_ifs at h
  split at h
  · cases h
  · split_ifs at h
    · cases h
      rfl
    · exact foldlM_eq_ok (fun _ (db' : DB) => db'.outbox = db.outbox) h rfl
        fun _ _ _ _ _ _ hd hstep => (insertAccountRow_outbox hstep).trans hd

/-- An operation that succeeds opens accounts and announces nothing, or commits a transaction and
announces it. -/
theorem LedgerOp.run_emits {op : LedgerOp} (hs : op.Silent) (h : op.run db = .ok db') :
    (Opened db db' ∧
      ∃ rest, db'.outbox.rows = db.outbox.rows ++ rest ∧ ∀ x ∈ rest, ¬Transactional x.2) ∨
    ∃ t, Committed db db' t ∧ Emits db db' t := by
  cases op with
  | createAccount d id req =>
    obtain ⟨⟨a, db₁⟩, hrun, rfl⟩ := map_eq_ok.1 h
    exact .inl ⟨createAccount_opened hrun, createAccount_outbox hrun⟩
  | shardAccount now shardID accountID shards =>
    have hrun := mapError_eq_ok.1 h
    exact .inl ⟨ledgerShardAccount_opened hrun, [], by rw [ledgerShardAccount_outbox hrun]; simp,
      by simp⟩
  | postTransaction d txID req hooks =>
    obtain ⟨⟨t, db₁⟩, hrun, rfl⟩ := map_eq_ok.1 h
    exact .inr ⟨t, (postTransaction_committed hooks hrun).1, postTransaction_emits hs hrun⟩
  | reverseTransaction d reversalID txID reason idem record hooks =>
    obtain ⟨⟨t, db₁⟩, hrun, rfl⟩ := map_eq_ok.1 h
    exact .inr ⟨t, (doReverse_committed hooks hrun).1, doReverse_emits hs hrun⟩

end LedgerCore.Ledger
