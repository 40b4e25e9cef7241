import LedgerCore.Ledger.Posting

/-! What a posting and a reversal leave in the database, from the first statement to the
commit. -/
namespace LedgerCore.Ledger
open LedgerCore.Program
variable {s s' : TxState} {d : Draws} {id txID : UUID} {requests : List EntryRequest}
  {t : Transaction}

def EventCall : TxCall → Prop
  | .appendEvent _ _ => True
  | _ => False

theorem run_events {α : Type} {now : Time} {p : TxM α} {a : α} (hp : p.OnlyCalls EventCall)
    (h : p.run (exec now) s = .ok (a, s')) :
    ∃ outbox, s' = { s with db := { s.db with outbox } } := by
  refine Prog.run_of_onlyCalls (T := fun s s' => ∃ outbox, s' = { s with db := { s.db with outbox } })
    (fun s => ⟨s.db.outbox, rfl⟩) ?_ ?_ hp h
  · rintro s _ _ ⟨outbox, rfl⟩ ⟨outbox', rfl⟩
    exact ⟨outbox', rfl⟩
  · intro c s r s' hc hcall
    cases c with
    | appendEvent id e =>
      obtain ⟨db, hdb, he⟩ := map_eq_ok.1 hcall
      cases he
      obtain ⟨outbox, -, rfl⟩ := Outbox.append_eq_ok hdb
      exact ⟨outbox, rfl⟩
    | _ => exact hc.elim

theorem appendTransactionEvent_events (d : Draws) (eventType : String) (header : Transaction)
    (balances : List EventBalance) (reverses : Option UUID) (reason : String) :
    (appendTransactionEvent d eventType header balances reverses reason).OnlyCalls EventCall := by
  refine (Prog.onlyCalls_ofExcept _).bind fun payload => ?_
  refine (Prog.onlyCalls_perform trivial).bind fun _ => ?_
  refine Prog.onlyCalls_forM fun b _ => ?_
  exact (Prog.onlyCalls_ofExcept _).bind fun payload => Prog.onlyCalls_perform trivial

/-- The statements that store a transaction with its entries, and move the balances. -/
def StoreCall : TxCall → Prop
  | .insertTransaction _ => True
  | .insertEntries _ => True
  | .applyBalanceDelta _ => True
  | _ => False

theorem writeTransaction_stores (d : Draws) (header : Transaction) (requests : List EntryRequest)
    (accounts : AccountMap) (ids : List UUID) :
    (writeTransaction d header requests accounts ids).OnlyCalls StoreCall := by
  refine (Prog.onlyCalls_perform trivial).bind fun _ => (Prog.onlyCalls_perform trivial).bind
    fun entries => Prog.OnlyCalls.bind ?_ fun _ => Prog.onlyCalls_pure _
  refine (Prog.onlyCalls_ofExcept _).bind fun g => Prog.onlyCalls_mapM' fun id _ => ?_
  refine (Prog.onlyCalls_ofExcept _).bind fun _ => ?_
  exact (Prog.onlyCalls_perform trivial).bind fun _ => Prog.onlyCalls_pure _

/-- An entry as posted, on the account requested or on one of its shards. -/
structure Routes (db : DB) (e e' : EntryRequest) : Prop where
  direction : e'.direction = e.direction
  amount : e'.amount = e.amount
  account : e'.accountID = e.accountID ∨
    ∃ r, db.accounts.find? e'.accountID = some r ∧ r.parentAccountID = some e.accountID

theorem mem_resolveShards {ids shards : List UUID} {db : DB} {parent shard : UUID}
    (h : (parent, shards) ∈ resolveShards ids db) (hs : shard ∈ shards) :
    ∃ r, db.accounts.find? shard = some r ∧ r.parentAccountID = some parent ∧
      r.status = .active := by
  simp only [resolveShards, List.mem_filterMap] at h
  obtain ⟨p, -, h⟩ := h
  split_ifs at h
  obtain ⟨rfl, rfl⟩ := Prod.mk.inj (Option.some.inj h)
  obtain ⟨⟨id, r⟩, hr, rfl⟩ := List.mem_map.1 hs
  rw [List.mem_insertionSort, List.mem_filter, decide_eq_true_eq] at hr
  exact ⟨r, Table.find?_eq_some.2 hr.1, hr.2⟩

theorem chosenShard_eq_some {ids : List UUID} {db : DB} {shard : UUID}
    (h : chosenShard d (resolveShards ids db) id = some shard) :
    ∃ r, db.accounts.find? shard = some r ∧ r.parentAccountID = some id ∧ r.status = .active := by
  obtain ⟨shards, hl, hs⟩ := Option.bind_eq_some_iff.1 h
  obtain ⟨l₁, l₂, hl, -⟩ := List.lookup_eq_some_iff.1 hl
  exact mem_resolveShards (hl ▸ List.mem_append_cons_self) (List.mem_of_getElem? hs)

def routedAccount (d : Draws) (entries : List EntryRequest) (db : DB) (id : UUID) : UUID :=
  (chosenShard d (resolveShards (sortedAccountIDs entries) db) id).getD id

def routed (d : Draws) (entries : List EntryRequest) (db : DB) : List EntryRequest :=
  entries.map fun e => { e with accountID := routedAccount d entries db e.accountID }

theorem run_routeToShards (d : Draws) (entries : List EntryRequest) (s : TxState) :
    (routeToShards d entries).run (exec d.now) s = .ok (routed d entries s.db, s) := by
  change (if resolveShards (sortedAccountIDs entries) s.db = [] then pure entries
    else pure (entries.map fun e => _) : TxM (List EntryRequest)).run (exec d.now) s = _
  split_ifs with hnil
  · have hself : routed d entries s.db = entries := by
      simp only [routed, routedAccount, hnil, chosenShard, List.lookup_nil, Option.bind_none,
        Option.getD_none]
      exact List.map_id' entries
    rw [hself]
    rfl
  · rfl

theorem routedAccount_cases (d : Draws) (entries : List EntryRequest) (db : DB) (id : UUID) :
    routedAccount d entries db id = id ∨ ∃ r,
      db.accounts.find? (routedAccount d entries db id) = some r ∧ r.parentAccountID = some id ∧
        r.status = .active := by
  unfold routedAccount
  cases hc : chosenShard d (resolveShards (sortedAccountIDs entries) db) id with
  | none => exact .inl rfl
  | some shard => exact .inr (chosenShard_eq_some hc)

/-- Routing changes nothing but the accounts of the entries. -/
theorem routed_routes (d : Draws) (entries : List EntryRequest) (db : DB) :
    List.Forall₂ (Routes db) entries (routed d entries db) := by
  refine List.forall₂_map_right_iff.2 (List.forall₂_same.2 fun e _ => ⟨rfl, rfl, ?_⟩)
  rcases routedAccount_cases d entries db e.accountID with hstay | ⟨r, hr, hparent, -⟩
  · exact .inl hstay
  · exact .inr ⟨r, hr, hparent⟩

/-- The entries of a transaction as stored, numbered from zero in the order of the requests. -/
def postedEntries (d : Draws) (txID : UUID) (requests : List EntryRequest) : List JournalEntry :=
  (buildEntries d txID requests).map fun e => { e with createdAt := d.now }

/-- A header as returned, with the database's times and the entries. -/
def postedTransaction (d : Draws) (header : Transaction) (requests : List EntryRequest) :
    Transaction :=
  { header with
    createdAt := d.now
    postedAt := (headerColumns d.now header).postedAt
    entries := postedEntries d header.id requests }

/-- The writes that a posting and a reversal share. -/
structure Written (d : Draws) (header : Transaction) (requests : List EntryRequest)
    (s s' : TxState) : Prop where
  row : ∃ row, row.toTransactionColumns = headerColumns d.now header ∧
    s.db.transactions.insert? header.id row = some s'.db.transactions
  keyFree : keyTaken header.principalID header.idempotencyKey s.db = false
  journal : journalEntries s'.db = journalEntries s.db ++ postedEntries d header.id requests
  accounts : AccountsMoved (postedEntries d header.id requests) 0 s.db.accounts s'.db.accounts
  known : ∀ e ∈ postedEntries d header.id requests,
    ∃ r, s.db.accounts.find? e.accountID = some r ∧ r.currency = e.amount.currency
  deferred : s'.deferred = s.deferred ++ requests.map fun _ => header.id
  outbox : s'.db.outbox = s.db.outbox
  idempotencyKeys : s'.db.idempotencyKeys = s.db.idempotencyKeys
  sagaInstances : s'.db.sagaInstances = s.db.sagaInstances
  sagaSteps : s'.db.sagaSteps = s.db.sagaSteps

theorem mem_postedEntries {e : JournalEntry} (h : e ∈ postedEntries d txID requests) :
    ∃ i, ∃ r ∈ requests, requests[i]? = some r ∧ e = ⟨d.entryID i, txID, r.accountID, r.direction,
      r.amount, i, d.now⟩ := by
  simp only [postedEntries, buildEntries, List.map_map, List.mem_map, Prod.exists] at h
  obtain ⟨r, i, hi, rfl⟩ := h
  have hget := List.mem_zipIdx_iff_getElem?.1 hi
  exact ⟨i, r, List.mem_of_getElem? hget, hget, rfl⟩

theorem mem_accounts_postedEntries : (∃ e ∈ postedEntries d txID requests, e.accountID = id) ↔
      id ∈ sortedAccountIDs requests := by
  rw [mem_sortedAccountIDs]
  constructor
  · rintro ⟨e, he, rfl⟩
    obtain ⟨i, r, hr, -, rfl⟩ := mem_postedEntries he
    exact ⟨r, hr, rfl⟩
  · rintro ⟨r, hr, rfl⟩
    obtain ⟨i, hi⟩ := List.mem_iff_getElem?.1 hr
    refine ⟨⟨d.entryID i, txID, r.accountID, r.direction, r.amount, i, d.now⟩, ?_, rfl⟩
    simp only [postedEntries, buildEntries, List.map_map, List.mem_map, Prod.exists]
    exact ⟨r, i, List.mem_zipIdx_iff_getElem?.2 hi, rfl⟩

theorem writeTransaction_eq_ok {header : Transaction} {accounts : AccountMap}
    {balances : List EventBalance}
    (haccounts : ∀ id ∈ sortedAccountIDs requests, ∃ r, s.db.accounts.find? id = some r ∧
      r.status = .active ∧ accounts id = some (lockedAccount id r))
    (h : (writeTransaction d header requests accounts (sortedAccountIDs requests)).run
      (exec d.now) s = .ok ((t, balances), s')) :
    t = postedTransaction d header requests ∧ Written d header requests s s' := by
  obtain ⟨times, s₁, hcall, h⟩ := Prog.run_perform_bind_ok.1 h
  obtain ⟨⟨times', db₁⟩, hins, he⟩ := map_eq_ok.1 hcall
  cases he
  obtain ⟨row, transactions, hrow, hfree, hi, rfl, rfl⟩ := insertTransaction_eq_ok hins
  obtain ⟨entries, s₂, hent, h⟩ := Prog.run_perform_bind_ok.1 h
  obtain ⟨rfl, hj, hknown, hdef, journal, hdb⟩ := insertEntries_eq_ok hent
  obtain ⟨bs, s₃, happly, h⟩ := Prog.run_bind_ok.1 h
  cases h
  have hsame : s₂.db.accounts = s.db.accounts := by rw [hdb]
  obtain ⟨hmoved, t', rfl⟩ := applyEntries_eq_ok (sortedAccountIDs_nodup requests)
    (fun id => mem_accounts_postedEntries.symm) (by
      intro id hid r hr
      obtain ⟨r', hr', -, ha⟩ := haccounts id hid
      obtain rfl : r = r' := Option.some.inj ((hsame ▸ hr).symm.trans hr')
      simp [normalOf, ha, lockedAccount]) happly
  refine ⟨rfl, ⟨row, hrow, by rw [hi, hdb]⟩, hfree, hj, hsame ▸ hmoved, ?_, ?_, ?_, ?_, ?_, ?_⟩
  · intro e he
    obtain ⟨e', he', rfl⟩ := List.mem_map.1 he
    exact hknown e' he'
  · rw [hdef]
    simp [buildEntries, Function.comp_def, List.map_const']
  all_goals simp [hdb]

theorem Written.eq_of_mem_deferred {header : Transaction} {db : DB}
    (h : Written d header requests ⟨db, []⟩ s) (hid : id ∈ s.deferred) : id = header.id := by
  rw [h.deferred, List.nil_append] at hid
  obtain ⟨_, -, rfl⟩ := List.mem_map.1 hid
  rfl

theorem postTx_eq_ok {req : TransactionRequest}
    (h : (postTx d txID req).run (exec d.now) s = .ok (t, s')) :
    ∃ requests s₁ outbox s₂, requests = routed d req.entries s.db ∧
      t = postedTransaction d (postHeader txID req) requests ∧
      Written d (postHeader txID req) requests s s₁ ∧
      (runRecord req.record t).run (exec d.now) { s₁ with db := { s₁.db with outbox } } =
        .ok ((), s₂) ∧
      (completeIdempotency req.idempotency t).run (exec d.now) s₂ = .ok ((), s') := by
  obtain ⟨requests, s₀, hroute, h⟩ := Prog.run_bind_ok.1 h
  cases (run_routeToShards d req.entries s).symm.trans hroute
  obtain ⟨accounts, s₀, hlock, h⟩ := Prog.run_bind_ok.1 h
  obtain ⟨rfl, hlocked, -⟩ := lockAndValidate_eq_ok hlock
  obtain ⟨⟨header, balances⟩, s₁, hwrite, h⟩ := Prog.run_bind_ok.1 h
  obtain ⟨rfl, hwritten⟩ := writeTransaction_eq_ok hlocked hwrite
  obtain ⟨_, s₂, hevents, h⟩ := Prog.run_bind_ok.1 h
  obtain ⟨outbox, rfl⟩ := run_events (appendTransactionEvent_events ..) hevents
  obtain ⟨_, s₃, hrecord, h⟩ := Prog.run_bind_ok.1 h
  obtain ⟨_, s₄, hcomplete, h⟩ := Prog.run_bind_ok.1 h
  cases h
  exact ⟨_, s₁, outbox, s₃, rfl, rfl, hwritten, hrecord, hcomplete⟩

theorem loadTransactionForUpdate_eq_ok {db : DB} (h : loadTransactionForUpdate id db = .ok t) :
    ∃ r, db.transactions.find? id = some r ∧ t.id = id ∧ t.status = r.status ∧
      t.entries = ((entriesOf id db).map fun e => toEntry e.1 e.2).insertionSort
        fun a b => a.entrySeq ≤ b.entrySeq := by
  unfold loadTransactionForUpdate at h
  split at h
  · cases h
  · next r hr =>
    obtain ⟨_, -, h⟩ := bind_eq_ok.1 h
    cases h
    exact ⟨r, hr, rfl, rfl, rfl⟩

theorem checkReversible_eq_ok {original : Transaction}
    (h : checkReversible txID original = .ok ()) :
    original.status = .posted ∧ original.entries ≠ [] := by
  unfold checkReversible at h
  split at h
  · cases h
  · next hs =>
    split_ifs at h with he
    exact ⟨hs, he⟩
  · cases h

theorem reverseTx_eq_ok {reversalID : UUID} {reason : String} {idem : Option Idempotent}
    {record : Option Recorder}
    (h : (reverseTx d reversalID txID reason idem record).run (exec d.now) s = .ok (t, s')) :
    ∃ original s₁ outbox s₂ r, loadTransactionForUpdate txID s.db = .ok original ∧
      original.status = .posted ∧ original.entries ≠ [] ∧
      t = postedTransaction d (reversalHeader reversalID txID reason idem)
        (mirrored original.entries) ∧
      Written d (reversalHeader reversalID txID reason idem) (mirrored original.entries) s s₁ ∧
      s₁.db.transactions.find? txID = some r ∧ r.status = .posted ∧
      (runRecord record t).run (exec d.now)
        { s₁ with db := { s₁.db with
          outbox, transactions := s₁.db.transactions.modify txID reversedRow } } = .ok ((), s₂) ∧
      (completeIdempotency idem t).run (exec d.now) s₂ = .ok ((), s') := by
  obtain ⟨original, s₀, hcall, h⟩ := Prog.run_perform_bind_ok.1 h
  obtain ⟨_, hload, he⟩ := map_eq_ok.1 hcall
  cases he
  obtain ⟨_, hcheck, h⟩ := Prog.run_ofExcept_bind_ok.1 h
  obtain ⟨hposted, hne⟩ := checkReversible_eq_ok hcheck
  obtain ⟨accounts, s₀, hlock, h⟩ := Prog.run_bind_ok.1 h
  obtain ⟨rfl, hlocked, -⟩ := lockAndValidate_eq_ok hlock
  obtain ⟨⟨header, balances⟩, s₁, hwrite, h⟩ := Prog.run_bind_ok.1 h
  obtain ⟨rfl, hwritten⟩ := writeTransaction_eq_ok hlocked hwrite
  obtain ⟨_, s₂, hmark, h⟩ := Prog.run_perform_bind_ok.1 h
  obtain ⟨db₂, hmarked, he⟩ := map_eq_ok.1 hmark
  cases he
  obtain ⟨r, hr, hs, rfl⟩ := markReversed_eq_ok hmarked
  obtain ⟨_, s₃, hevents, h⟩ := Prog.run_bind_ok.1 h
  obtain ⟨outbox, rfl⟩ := run_events (appendTransactionEvent_events ..) hevents
  obtain ⟨_, s₄, hrecord, h⟩ := Prog.run_bind_ok.1 h
  obtain ⟨_, s₅, hcomplete, h⟩ := Prog.run_bind_ok.1 h
  cases h
  exact ⟨original, s₁, outbox, s₄, r, hload, hposted, hne, rfl, hwritten, hr, hs, hrecord,
    hcomplete⟩

theorem inTx_eq_ok {α : Type} {now : Time} {p : TxM α} {db db' : DB} {a : α}
    (h : inTx now p db = .ok (a, db')) :
    ∃ s, p.run (exec now) ⟨db, []⟩ = .ok (a, s) ∧
      (∀ txID ∈ s.deferred, assertTransactionBalanced s.db txID = .ok ()) ∧ s.db = db' := by
  obtain ⟨⟨a', s⟩, hrun, h⟩ := bind_eq_ok.1 h
  obtain ⟨db₁, hcommit, h⟩ := bind_eq_ok.1 h
  obtain ⟨_, hdeferred, hdb⟩ := map_eq_ok.1 hcommit
  cases h
  exact ⟨s, hrun, forM_eq_ok.1 (mapError_eq_ok.1 hdeferred), hdb⟩

section Calls
variable {P : TxCall → Prop}

theorem onlyCalls_routeToShards {entries : List EntryRequest}
    (h : P (.resolveShards (sortedAccountIDs entries))) : (routeToShards d entries).OnlyCalls P := by
  refine .bind (Prog.onlyCalls_perform h) fun shards => ?_
  split_ifs <;> trivial

theorem onlyCalls_lockAndValidate {ids : List UUID} (h : P (.lockAccounts ids)) :
    (lockAndValidate ids requests).OnlyCalls P :=
  .bind (Prog.onlyCalls_perform h) fun _ => .bind (Prog.onlyCalls_ofExcept _) fun _ =>
    .bind (Prog.onlyCalls_ofExcept _) fun _ => trivial

theorem onlyCalls_runRecord {record : Option Recorder}
    (h : ∀ r ∈ record, ∀ t, (r t).OnlyCalls P) (t : Transaction) :
    (runRecord record t).OnlyCalls P := by
  cases record with
  | none => trivial
  | some r => exact h r rfl t

theorem onlyCalls_completeIdempotency (h : ∀ c, P (.completeIdempotency c))
    (idem : Option Idempotent) (t : Transaction) : (completeIdempotency idem t).OnlyCalls P := by
  unfold completeIdempotency
  split
  · trivial
  · split
    · trivial
    · exact (Prog.onlyCalls_ofExcept _).bind fun _ => Prog.onlyCalls_perform (h _)

end Calls

theorem completeIdempotency_sideCalls (idem : Option Idempotent) (t : Transaction) :
    (completeIdempotency idem t).OnlyCalls SideCall :=
  onlyCalls_completeIdempotency (fun _ => trivial) idem t

end LedgerCore.Ledger
