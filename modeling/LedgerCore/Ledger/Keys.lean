import LedgerCore.Ledger.Balances

/-! Transactions under idempotency keys. -/
namespace LedgerCore.Ledger
open LedgerCore.Program

variable {db db' : DB} {t : Transaction}

/-- The partial unique index on `(principal_id, idempotency_key)`. -/
def KeysUnique (db : DB) : Prop :=
  ∀ id id' r r', db.transactions.find? id = some r → db.transactions.find? id' = some r' →
    r.principalID = r'.principalID → r.idempotencyKey = r'.idempotencyKey →
    r.idempotencyKey.isSome → id = id'

theorem HeaderOf.key {c : TransactionColumns} {r : TransactionRow} (h : HeaderOf c r) :
    r.principalID = c.principalID ∧ r.idempotencyKey = c.idempotencyKey := by
  rw [h]
  exact ⟨rfl, rfl⟩

theorem HeaderOf.trans {c : TransactionColumns} {r r' : TransactionRow} (h : HeaderOf c r)
    (h' : HeaderOf r.toTransactionColumns r') : HeaderOf c r' := by
  rw [HeaderOf, h', h]

theorem Committed.header_old (h : Committed db db' t) {id : UUID} (hne : id ≠ t.id)
    {r' : TransactionRow} (hr' : db'.transactions.find? id = some r') :
    ∃ r, db.transactions.find? id = some r ∧ HeaderOf r.toTransactionColumns r' := by
  have hmem : id ∈ db'.transactions.keys := Table.mem_keys.2 ⟨r', hr'⟩
  rw [h.keys, List.mem_append, List.mem_singleton] at hmem
  obtain ⟨r, hr⟩ := Table.mem_keys.1 (hmem.resolve_right hne)
  obtain ⟨r₁, hr₁, hkept⟩ := h.headers id r hr
  obtain rfl : r₁ = r' := Option.some.inj (hr₁.symm.trans hr')
  exact ⟨r, hr, hkept⟩

theorem keyTaken_eq_false {principalID : String} {key : Option String}
    (h : keyTaken principalID key db = false) {id : UUID} {r : TransactionRow}
    (hr : db.transactions.find? id = some r) (hp : r.principalID = principalID)
    (hk : r.idempotencyKey = key) : key.isSome = false := by
  by_contra hsome
  have hmem : r ∈ db.transactions.values :=
    List.mem_map.2 ⟨(id, r), Table.find?_eq_some.1 hr, rfl⟩
  simp only [keyTaken, Bool.and_eq_false_iff, List.any_eq_false] at h
  rcases h with h | h
  · exact hsome h
  · exact h r hmem (by simp [hp, hk])

theorem Committed.keysUnique (h : Committed db db' t) (hu : KeysUnique db) : KeysUnique db' := by
  -- The new header's key was free, so no older one shares it.
  have hnew : ∀ id r, id ≠ t.id → db'.transactions.find? id = some r →
      r.principalID = t.principalID → r.idempotencyKey = t.idempotencyKey →
      r.idempotencyKey.isSome → False := by
    intro id r hne hr hp hk hsome
    obtain ⟨r₀, hr₀, hkept⟩ := h.header_old hne hr
    have hfree := keyTaken_eq_false h.keyFree hr₀ (hkept.key.1.symm.trans hp)
      (hkept.key.2.symm.trans hk)
    rw [hk, hfree] at hsome
    cases hsome
  obtain ⟨rt, hrt, hof⟩ := h.header
  intro id id' r r' hr hr' hp hk hsome
  by_cases hid : id = t.id
  · by_contra hne
    obtain rfl : r = rt := Option.some.inj ((hid ▸ hr).symm.trans hrt)
    exact hnew id' r' (fun e => hne (hid.trans e.symm)) hr' (hp.symm.trans hof.key.1)
      (hk.symm.trans hof.key.2) (hk ▸ hsome)
  · by_cases hid' : id' = t.id
    · obtain rfl : r' = rt := Option.some.inj ((hid' ▸ hr').symm.trans hrt)
      exact (hnew id r hid hr (hp.trans hof.key.1) (hk.trans hof.key.2) hsome).elim
    · obtain ⟨r₀, hr₀, hkept⟩ := h.header_old hid hr
      obtain ⟨r₁, hr₁, hkept'⟩ := h.header_old hid' hr'
      refine hu id id' r₀ r₁ hr₀ hr₁ ?_ ?_ (hkept.key.2 ▸ hsome)
      · exact hkept.key.1.symm.trans (hp.trans hkept'.key.1)
      · exact hkept.key.2.symm.trans (hk.trans hkept'.key.2)

theorem Opened.keysUnique (h : Opened db db') (hu : KeysUnique db) : KeysUnique db' := by
  rw [KeysUnique, h.transactions]
  exact hu

/-- A transaction is in the database as it was returned, but for a later reversal of it. -/
structure Described (db : DB) (t : Transaction) : Prop where
  header : ∃ r, db.transactions.find? t.id = some r ∧ HeaderOf t.columns r
  entries : transactionEntries t.id db = t.entries

theorem Committed.described (h : Committed db db' t) (href : Referenced db) : Described db' t :=
  ⟨h.header, h.transactionEntries_new href⟩

theorem Committed.described_old (h : Committed db db' t) {t' : Transaction}
    (hd : Described db t') : Described db' t' := by
  obtain ⟨r, hr, hof⟩ := hd.header
  obtain ⟨r', hr', hkept⟩ := h.headers t'.id r hr
  have hne : t'.id ≠ t.id := by
    intro e
    rw [e, h.fresh] at hr
    cases hr
  exact ⟨⟨r', hr', hof.trans hkept⟩, (h.transactionEntries_old hne).trans hd.entries⟩

theorem Opened.described (h : Opened db db') {t' : Transaction} (hd : Described db t') :
    Described db' t' := by
  refine ⟨h.transactions ▸ hd.header, ?_⟩
  rw [transactionEntries, h.journalEntries]
  exact hd.entries

/-- A transaction committed under a key in progress, with its rendered response. -/
structure Keyed (db db' : DB) (i : Idempotent) (t : Transaction) : Prop where
  committed : Committed db db' t
  principalID : t.principalID = i.principalID
  key : t.idempotencyKey = some i.key
  record : ∃ render status body r, i.render = some render ∧ render t = .ok (status, body) ∧
    db.idempotencyKeys.find? (i.principalID, i.key) = some r ∧ r.status = .inProgress ∧
    db'.idempotencyKeys = db.idempotencyKeys.modify (i.principalID, i.key)
      (Idempotency.settledRow .completed status body (some t.id))

theorem completeIdempotency_eq_ok {i : Idempotent} {now : Time} {s s' : TxState}
    (h : (completeIdempotency (some i) t).run (exec now) s = .ok ((), s')) :
    ∃ render status body r, i.render = some render ∧ render t = .ok (status, body) ∧
      s.db.idempotencyKeys.find? (i.principalID, i.key) = some r ∧ r.status = .inProgress ∧
      s'.db.idempotencyKeys = s.db.idempotencyKeys.modify (i.principalID, i.key)
        (Idempotency.settledRow .completed status body (some t.id)) := by
  simp only [completeIdempotency] at h
  split at h
  · cases h
  · next render hrender =>
    obtain ⟨⟨status, body⟩, hbody, h⟩ := Prog.run_ofExcept_bind_ok.1 h
    obtain ⟨db₁, hdb, he⟩ := map_eq_ok.1
      ((Prog.run_perform (TxCall.completeIdempotency _)).symm.trans h)
    cases he
    obtain ⟨r, hr, hs, rfl⟩ := Idempotency.complete_eq_ok hdb
    exact ⟨render, status, body, r, hrender, mapError_eq_ok.1 hbody, hr, hs, rfl⟩

theorem postTransaction_keyed {d : Draws} {txID : UUID} {req : TransactionRequest}
    {i : Idempotent} (hi : req.idempotency = some i) (hp : req.principalID = i.principalID)
    (hook : req.record = none) (h : postTransaction d txID req db = .ok (t, db')) :
    Keyed db db' i t := by
  have hcommitted := (postTransaction_committed (by simp [Recording, hook]) h).1
  obtain ⟨_, -, h⟩ := bind_eq_ok.1 h
  obtain ⟨s, hrun, -, rfl⟩ := inTx_eq_ok h
  obtain ⟨requests, s₁, outbox, s₂, -, rfl, hwritten, hrecord, hcomplete⟩ := postTx_eq_ok hrun
  rw [record_withKey, hook] at hrecord
  cases hrecord
  have hwith : req.withKey = { req with idempotencyKey := some i.key } := by
    simp [TransactionRequest.withKey, hi]
  rw [hwith] at hcomplete hcommitted hwritten ⊢
  simp only [hi] at hcomplete
  obtain ⟨render, status, body, r, hrender, hbody, hr, hs, hkeys⟩ := completeIdempotency_eq_ok hcomplete
  have hsame : s₁.db.idempotencyKeys = db.idempotencyKeys := hwritten.idempotencyKeys
  refine ⟨hcommitted, hp, rfl, render, status, body, r, hrender, hbody, ?_, hs, ?_⟩
  · rw [← hsame]
    exact hr
  · rw [hkeys]
    exact congrArg (fun k => Table.modify k _ _) hsame

theorem doReverse_keyed {d : Draws} {reversalID txID : UUID} {reason : String} {i : Idempotent}
    (h : doReverse d reversalID txID reason (some i) none db = .ok (t, db')) :
    Keyed db db' i t := by
  have hcommitted := (doReverse_committed recording_none h).1
  unfold doReverse at h
  split_ifs at h
  obtain ⟨s, hrun, -, rfl⟩ := inTx_eq_ok h
  obtain ⟨original, s₁, outbox, s₂, r₀, -, -, -, rfl, hwritten, -, -, hrecord, hcomplete⟩ :=
    reverseTx_eq_ok hrun
  cases hrecord
  obtain ⟨render, status, body, r, hrender, hbody, hr, hs, hkeys⟩ := completeIdempotency_eq_ok hcomplete
  have hsame : s₁.db.idempotencyKeys = db.idempotencyKeys := hwritten.idempotencyKeys
  refine ⟨hcommitted, rfl, rfl, render, status, body, r, hrender, hbody, ?_, hs, ?_⟩
  · rw [← hsame]
    exact hr
  · rw [hkeys]
    exact congrArg (fun k => Table.modify k _ _) hsame

/-- The calls of a recorder, less the one that completes a key. -/
def KeylessCall (c : TxCall) : Prop := SideCall c ∧ ∀ i, c ≠ .completeIdempotency i

theorem exec_keylessCall {now : Time} {c : TxCall} {s s' : TxState} {r : TxReply c}
    (hc : KeylessCall c) (h : exec now c s = .ok (r, s')) :
    s'.db.idempotencyKeys = s.db.idempotencyKeys := by
  obtain ⟨hside, hkey⟩ := hc
  cases c with
  | applyPendingDelta d =>
    obtain ⟨db, hdb, h⟩ := map_eq_ok.1 h
    cases h
    obtain ⟨-, accounts, rfl⟩ := applyPendingDelta_moved hdb
    rfl
  | appendEvent id e =>
    obtain ⟨db, hdb, h⟩ := map_eq_ok.1 h
    cases h
    obtain ⟨outbox, -, rfl⟩ := Outbox.append_eq_ok hdb
    rfl
  | commitSagaStep c =>
    obtain ⟨db, hdb, h⟩ := map_eq_ok.1 h
    cases h
    obtain ⟨_, _, rfl⟩ := Saga.commitStep_tables hdb
    rfl
  | completeIdempotency c => exact (hkey c rfl).elim
  | _ => exact hside.elim

theorem run_keylessCalls {α : Type} {now : Time} {p : TxM α} {s s' : TxState} {a : α}
    (hp : p.OnlyCalls KeylessCall) (h : p.run (exec now) s = .ok (a, s')) :
    s'.db.idempotencyKeys = s.db.idempotencyKeys := by
  refine Prog.run_of_onlyCalls
    (T := fun s s' : TxState => s'.db.idempotencyKeys = s.db.idempotencyKeys)
    (fun _ => rfl) ?_ exec_keylessCall hp h
  intro s s' s'' hfirst hrest
  exact hrest.trans hfirst

def Keyless : LedgerOp → Prop
  | .postTransaction _ _ req _ => req.idempotency = none ∧
      ∀ t, (runRecord req.record t).OnlyCalls KeylessCall
  | .reverseTransaction _ _ _ _ idem record _ => idem = none ∧
      ∀ t, (runRecord record t).OnlyCalls KeylessCall
  | _ => True

theorem Keyless.idempotencyKeys {op : LedgerOp} (hop : Keyless op) (h : op.run db = .ok db') :
    db'.idempotencyKeys = db.idempotencyKeys := by
  cases LedgerOp.ran h with
  | opened ho => exact ho.idempotencyKeys
  | @posted d txID req t hooks hrun =>
    obtain ⟨hnone, hrecorder⟩ := hop
    obtain ⟨_, -, htx⟩ := bind_eq_ok.1 hrun
    obtain ⟨s, hpost, -, rfl⟩ := inTx_eq_ok htx
    have hwith : req.withKey = req := by simp [TransactionRequest.withKey, hnone]
    rw [hwith] at hpost
    obtain ⟨requests, s₁, outbox, s₂, -, rfl, hwritten, hrecord, hcomplete⟩ := postTx_eq_ok hpost
    rw [hnone] at hcomplete
    cases hcomplete
    exact (run_keylessCalls (hrecorder _) hrecord).trans hwritten.idempotencyKeys
  | reversed hooks hrun =>
    obtain ⟨rfl, hrecorder⟩ := hop
    simp only [doReverse] at hrun
    split_ifs at hrun
    obtain ⟨s, htx, -, rfl⟩ := inTx_eq_ok hrun
    obtain ⟨original, s₁, outbox, s₂, r, -, -, -, rfl, hwritten, -, -, hrecord, hcomplete⟩ :=
      reverseTx_eq_ok htx
    cases hcomplete
    exact (run_keylessCalls (hrecorder _) hrecord).trans hwritten.idempotencyKeys

def LedgerOp.idempotencyKey : LedgerOp → Option String
  | .postTransaction _ _ req _ => req.idempotencyKey
  | _ => none

theorem Keyless.run_cases {op : LedgerOp} (hop : Keyless op) (h : op.run db = .ok db') :
    Opened db db' ∨ ∃ t, Committed db db' t ∧ t.idempotencyKey = op.idempotencyKey := by
  cases LedgerOp.ran h with
  | opened ho => exact .inl ho
  | @posted d txID req t hooks hrun =>
    obtain ⟨_, -, htx⟩ := bind_eq_ok.1 hrun
    obtain ⟨s, hpost, -, rfl⟩ := inTx_eq_ok htx
    have hwith : req.withKey = req := by simp [TransactionRequest.withKey, hop.1]
    rw [hwith] at hpost
    obtain ⟨hcommitted, rfl, -⟩ := postTx_committed hooks hpost
    exact .inr ⟨_, hcommitted, rfl⟩
  | reversed hooks hrun =>
    obtain ⟨rfl, -⟩ := hop
    simp only [doReverse] at hrun
    split_ifs at hrun
    obtain ⟨s, htx, -, rfl⟩ := inTx_eq_ok hrun
    obtain ⟨hcommitted, ⟨original, -, -, rfl⟩, -⟩ := reverseTx_committed hooks htx
    exact .inr ⟨_, hcommitted, rfl⟩

end LedgerCore.Ledger
