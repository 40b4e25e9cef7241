import Mathlib.Data.Prod.Lex
import LedgerCore.Program.Waits
import LedgerCore.Ledger.Overdraft
import LedgerCore.Ledger.Serializable

/-! Which locks postings wait for, and in which order they take them. -/
namespace LedgerCore.Ledger
open LedgerCore.Program LedgerCore.Program.Engine
variable {ids K : List UUID} {c : TxCall} {d : Draws} {idem : Option Idempotent}

/-- What a posting can wait for. -/
inductive Resource where
  /-- The header of the transaction to be reversed. -/
  | header (id : UUID)
  /-- The advisory lock of an account, under whatever key its id hashes to. -/
  | advisory (accountID : UUID)
  | account (id : UUID)
  | balance (accountID : UUID)
  /-- An entry of the primary key of `transactions`. -/
  | transactionID (id : UUID)
  | transactionKey (principalID key : String)
  | step (id : UUID)
  | attempt (sagaID : UUID) (step : Saga.Step) (direction : Saga.Direction) (number : ℕ)
  | saga (id : UUID)
  | idempotencyKey (principalID key : String)
  deriving DecidableEq

/-- One key for each account, in the order of the ids, if advisory locks are enabled. -/
def takeAdvisoryLocks (advisoryLocks : Bool) (ids : List UUID) : List Resource :=
  if advisoryLocks then ids.map .advisory else []

/-- The rows that `LockAccounts` finds, each with its balance: `FOR NO KEY UPDATE OF a` and
`FOR UPDATE OF ab`. -/
def rowLocks (ids : List UUID) (db : DB) : List Resource :=
  (lockAccounts ids db).flatMap fun a => [.account a.id, .balance a.id]

/-- The entries of a header in the unique indexes of `transactions`. -/
def indexEntries (id : UUID) (principalID : String) (key : Option String) : List Resource :=
  .transactionID id :: (key.map (.transactionKey principalID)).toList

/-- What a statement locks, in order. An update locks the row that it matches. The rows that foreign
keys refer to are not here: `FOR KEY SHARE` waits for none of these locks. -/
def takes (advisoryLocks : Bool) : TxCall → DB → List Resource
  | .resolveShards _, _ => []
  | .lockAccounts ids, db => takeAdvisoryLocks advisoryLocks ids ++ rowLocks ids db
  | .insertAccount a, _ => [.account a.id]
  | .insertTransaction t, _ => indexEntries t.id t.principalID t.idempotencyKey
  | .insertEntries _, _ => []
  | .applyBalanceDelta d, db =>
    if (db.accounts.find? d.accountID).any fun r => r.balance.version = d.expectedVersion then
      [.balance d.accountID] else []
  | .applyPendingDelta d, db =>
    if (db.accounts.find? d.accountID).isSome then [.balance d.accountID] else []
  | .loadTransactionForUpdate id, db =>
    if (db.transactions.find? id).isSome then [.header id] else []
  | .markReversed id, db =>
    if (db.transactions.find? id).any fun r => r.status = .posted then [.header id] else []
  | .appendEvent _ _, _ => []
  | .commitSagaStep c, _ =>
    [.step c.attempt.id,
      .attempt c.attempt.sagaID c.attempt.step c.attempt.direction c.attempt.number,
      .saga c.transition.sagaID]
  | .completeIdempotency c, db =>
    if (db.idempotencyKeys.find? (c.principalID, c.key)).any fun r => r.status = .inProgress then
      [.idempotencyKey c.principalID c.key] else []

/-- A new version of a row is entered in every unique index again. It meets no other entry there,
but an insert with the same values waits for it. -/
def gains : TxCall → DB → List Resource
  | .markReversed id, db =>
    ((db.transactions.find? id).map fun r => indexEntries id r.principalID r.idempotencyKey).getD []
  | _, _ => []

/-- Advisory locks are taken on a hash of the account's id, as text. -/
def clash (hashtext : String → Int32) : Resource → Resource → Bool
  | .advisory u, .advisory v => hashtext u.string = hashtext v.string
  | l, m => l = m

def locking (advisoryLocks : Bool) (hashtext : String → Int32) : Locking TxCall DB Resource :=
  ⟨takes advisoryLocks, gains, clash hashtext⟩

namespace Resource

def stage : Resource → ℕ
  | header _ => 0
  | advisory _ => 1
  | account _ => 2
  | balance _ => 2
  | transactionID _ => 3
  | transactionKey _ _ => 4
  | step _ => 5
  | attempt _ _ _ _ => 6
  | saga _ => 7
  | idempotencyKey _ _ => 8

def place : Resource → ℕ
  | advisory accountID => accountID.toNat
  | account id => 2 * id.toNat
  | balance accountID => 2 * accountID.toNat + 1
  | _ => 0

def rank (l : Resource) : ℕ ×ₗ ℕ := toLex (l.stage, l.place)

theorem rank_lt_of_stage {l m : Resource} (h : l.stage < m.stage) : l.rank < m.rank :=
  Prod.Lex.toLex_lt_toLex.2 (.inl h)

theorem rank_lt_of_place {l m : Resource} (hs : l.stage = m.stage) (hp : l.place < m.place) :
    l.rank < m.rank :=
  Prod.Lex.toLex_lt_toLex.2 (.inr ⟨hs, hp⟩)

end Resource

open Resource

/-- The service sorts account ids as strings, and the database sorts them as bytes. -/
theorem sortedAccountIDs_ascending (entries : List EntryRequest) :
    (sortedAccountIDs entries).Pairwise (· < ·) := by
  have htotal : Std.Total fun a b : UUID => a.string ≤ b.string :=
    ⟨fun a b => by simpa only [UUID.string_le_string] using BitVec.le_total a b⟩
  have htrans : IsTrans UUID fun a b => a.string ≤ b.string :=
    ⟨fun a b c => by simpa only [UUID.string_le_string] using BitVec.le_trans⟩
  have hsorted := List.pairwise_insertionSort (fun a b : UUID => a.string ≤ b.string)
    (entries.map fun e => e.accountID).dedup
  refine (hsorted.and (sortedAccountIDs_nodup entries)).imp fun h => ?_
  exact BitVec.lt_of_le_ne (UUID.string_le_string.1 h.1) h.2

/-- The rows that `LockAccounts` locks where the table has the keys `K`. -/
def rowOrder (K ids : List UUID) : List Resource :=
  ((K.filter fun id => id ∈ ids).insertionSort (· ≤ ·)).flatMap fun id => [.account id, .balance id]

theorem map_id_lockAccounts {db : DB} (h : db.accounts.keys = K) :
    (lockAccounts ids db).map (fun a => a.id) =
      (K.filter fun id => id ∈ ids).insertionSort (· ≤ ·) := by
  rw [lockAccounts, List.map_insertionSort _ (· ≤ ·) _ _ fun a _ b _ => Iff.rfl, ← h, Table.keys,
    List.filter_map, List.map_map]
  rfl

theorem rowLocks_eq {db : DB} (h : db.accounts.keys = K) : rowLocks ids db = rowOrder K ids := by
  rw [rowOrder, ← map_id_lockAccounts h, List.flatMap_map]
  rfl

theorem lockedIDs_ascending (hK : K.Nodup) :
    ((K.filter fun id => id ∈ ids).insertionSort (· ≤ ·)).Pairwise (· < ·) := by
  have hsorted := List.pairwise_insertionSort (· ≤ ·) (K.filter fun id => id ∈ ids)
  have hnodup : ((K.filter fun id => id ∈ ids).insertionSort (· ≤ ·)).Nodup :=
    (List.perm_insertionSort _ _).nodup_iff.2 (hK.filter _)
  exact (hsorted.and hnodup).imp fun h => BitVec.lt_of_le_ne h.1 h.2

theorem rowOrder_ascending (hK : K.Nodup) :
    (rowOrder K ids).Pairwise fun l m => l.rank < m.rank := by
  refine List.pairwise_flatMap.2 ⟨fun id _ => ?_, (lockedIDs_ascending hK).imp fun {u v} h => ?_⟩
  · have hlt : (account id).rank < (balance id).rank := rank_lt_of_place rfl (Nat.lt_succ_self _)
    exact List.pairwise_pair.2 hlt
  · have hlt : u.toNat < v.toNat := BitVec.lt_def.1 h
    rintro l hl m hm
    simp only [List.mem_cons, List.not_mem_nil, or_false] at hl hm
    rcases hl with rfl | rfl <;> rcases hm with rfl | rfl <;>
      exact rank_lt_of_place rfl (by simp only [place]; omega)

/-- All that is held is of a stage before `n`, and all of `must` is held. -/
structure Held (n : ℕ) (must held : List Resource) : Prop where
  stage_lt : ∀ l ∈ held, l.stage < n
  mem : ∀ l ∈ must, l ∈ held

theorem held_nil (n : ℕ) : Held n [] [] := ⟨fun _ hl => (nomatch hl), fun _ hl => hl⟩

def HasAccounts (K : List UUID) (db : DB) : Prop := db.accounts.keys = K

theorem exec_hasAccounts {now : Time} {s s' : TxState} {r : TxReply c} (hc : PostingCall c)
    (h : HasAccounts K s.db) (hexec : exec now c s = .ok (r, s')) : HasAccounts K s'.db := by
  have hkept := exec_frame (L := fun _ => False) hc (fun _ _ hl => hl) hexec
  exact (keys_eq_of_columns hkept.accounts.columns).trans h

theorem persists (K : List UUID) : Persists engine (HasAccounts K) where
  stored_start _ := rfl
  stored_rebase _ _ := rfl
  commit_stored := engine_isolates.commit_stored
  patch {s s' t} hs hs' ht := by
    refine (Table.keys_overlay fun w hw => ?_).trans ht
    have hkey : w.1 ∈ s'.accounts.keys := List.mem_map_of_mem (List.mem_of_mem_filter hw)
    rw [hs'] at hkey
    rwa [ht]

section Order
variable {advisoryLocks : Bool} {hashtext : String → Int32} {K : List UUID} {op : Posting}
  {n : ℕ} {must held : List Resource} {α : Type} {Q : α → List Resource → Prop}

/-- The program takes locks in order, from those in `held` on. -/
abbrev Climbs (advisoryLocks : Bool) (hashtext : String → Int32) (K : List UUID) (op : Posting)
    (Q : α → List Resource → Prop) (p : TxM α) (held : List Resource) : Prop :=
  Ascends engine (locking advisoryLocks hashtext) (HasAccounts K) Resource.rank op Q p held

/-- One statement. Its locks are of a later stage than those held, or among them. -/
theorem climbs_perform {Q : TxReply c → List Resource → Prop} (n' : ℕ) (order : List Resource)
    (hheld : Held n must held) (hc : PostingCall c) (hn : n ≤ n')
    (htakes : ∀ db, HasAccounts K db → takes advisoryLocks c db <+: order)
    (hsorted : order.Pairwise fun l m => l.rank < m.rank)
    (hlater : ∀ l ∈ order, l ∈ must ∨ n ≤ l.stage) (hstage : ∀ l ∈ order, l.stage < n')
    (hgains : ∀ db, ∀ l ∈ gains c db, l.stage < n')
    (hQ : ∀ s r s' held', Held n' must held' → HasAccounts K s.db →
      (∀ l ∈ takes advisoryLocks c s.db, l ∈ held') → exec op.draws.now c s = .ok (r, s') →
      Q r held') : Climbs advisoryLocks hashtext K op Q (.perform c) held := by
  refine ascends_call order htakes hsorted (fun l hl => ?_)
    (fun s r s' hs hexec => exec_hasAccounts hc hs hexec)
    fun held' hsub hmem s r s' hs htaken hexec => .pure (hQ s r s' _ ⟨fun l hl => ?_, fun l hl => ?_⟩ hs
      (fun l hl => List.mem_append_left _ (htaken l hl)) hexec)
  · refine (hlater l hl).imp (hheld.mem l) fun hle m hm => ?_
    exact rank_lt_of_stage ((hheld.stage_lt m hm).trans_le hle)
  · rcases List.mem_append.1 hl with hl | hl
    · rcases hmem l hl with hl | hl
      · exact (hheld.stage_lt l hl).trans_le hn
      · exact hstage l hl
    · exact hgains _ l hl
  · exact List.mem_append_left _ (hsub l (hheld.mem l hl))

theorem climbs_row {Q : TxReply c → List Resource → Prop} (n' : ℕ) (l : Resource)
    (hheld : Held n must held) (hc : PostingCall c) (hn : n ≤ n')
    (htakes : ∀ db, takes advisoryLocks c db = [l] ∨ takes advisoryLocks c db = [])
    (hlater : l ∈ must ∨ n ≤ l.stage) (hstage : l.stage < n')
    (hgains : ∀ db, ∀ l ∈ gains c db, l.stage < n')
    (hQ : ∀ s r s' held', Held n' must held' → (∀ l ∈ takes advisoryLocks c s.db, l ∈ held') →
      exec op.draws.now c s = .ok (r, s') → Q r held') :
    Climbs advisoryLocks hashtext K op Q (.perform c) held := by
  refine climbs_perform n' [l] hheld hc hn (fun db _ => ?_) (List.pairwise_singleton ..) (by simpa)
    (by simpa) hgains fun s r s' held' hheld' _ => hQ s r s' held' hheld'
  rcases htakes db with h | h <;> rw [h]
  exact List.nil_prefix

theorem climbs_read {Q : TxReply c → List Resource → Prop} (hheld : Held n must held)
    (hc : PostingCall c) (htakes : ∀ db, takes advisoryLocks c db = [])
    (hgains : ∀ db, gains c db = []) (hQ : ∀ r held', Held n must held' → Q r held') :
    Climbs advisoryLocks hashtext K op Q (.perform c) held :=
  climbs_perform n [] hheld hc le_rfl (fun db _ => by rw [htakes]) .nil (fun _ h => (nomatch h))
    (fun _ h => (nomatch h)) (fun db l h => by rw [hgains] at h; cases h)
    fun _ r _ held' hheld' _ _ _ => hQ r held' hheld'

theorem climbs_routeToShards {entries : List EntryRequest} (hheld : Held n must held) :
    Climbs advisoryLocks hashtext K op (fun _ => Held n must) (routeToShards d entries) held := by
  refine .bind (climbs_read (c := .resolveShards _) hheld trivial (fun _ => rfl) (fun _ => rfl)
    fun r held' hheld' => ?_)
  split_ifs <;> exact .pure hheld'

theorem stage_of_mem_takeAdvisoryLocks {l : Resource}
    (h : l ∈ takeAdvisoryLocks advisoryLocks ids) : l.stage = 1 := by
  unfold takeAdvisoryLocks at h
  split_ifs at h
  · obtain ⟨id, -, rfl⟩ := List.mem_map.1 h
    rfl
  · cases h

theorem stage_of_mem_rowOrder {l : Resource} (h : l ∈ rowOrder K ids) : l.stage = 2 := by
  obtain ⟨id, -, hl⟩ := List.mem_flatMap.1 h
  simp only [List.mem_cons, List.not_mem_nil, or_false] at hl
  rcases hl with rfl | rfl <;> rfl

theorem stage_of_mem_indexEntries {id : UUID} {principalID : String} {key : Option String}
    {l : Resource} (h : l ∈ indexEntries id principalID key) : 3 ≤ l.stage ∧ l.stage < 5 := by
  cases key with
  | none =>
    obtain rfl := List.mem_singleton.1 h
    simp [stage]
  | some key =>
    rcases List.mem_pair.1 h with rfl | rfl <;> simp [stage]

theorem indexEntries_ascending {id : UUID} {principalID : String} {key : Option String} :
    (indexEntries id principalID key).Pairwise fun l m => l.rank < m.rank := by
  cases key with
  | none => exact List.pairwise_singleton ..
  | some key => exact List.pairwise_pair.2 (rank_lt_of_stage (Nat.lt_succ_self 3))

theorem lockOrder_ascending (hK : K.Nodup) (hids : ids.Pairwise (· < ·)) :
    (takeAdvisoryLocks advisoryLocks ids ++ rowOrder K ids).Pairwise fun l m => l.rank < m.rank := by
  refine List.pairwise_append.2 ⟨?_, rowOrder_ascending hK, fun l hl m hm => ?_⟩
  · unfold takeAdvisoryLocks
    split_ifs
    · exact List.pairwise_map.2 (hids.imp fun {u v} h =>
      rank_lt_of_place (l := .advisory u) (m := .advisory v) rfl (BitVec.lt_def.1 h))
    · exact .nil
  · refine rank_lt_of_stage ?_
    rw [stage_of_mem_takeAdvisoryLocks hl, stage_of_mem_rowOrder hm]
    decide

theorem climbs_lockAndValidate {requests : List EntryRequest} (hK : K.Nodup)
    (hids : ids.Pairwise (· < ·)) (hheld : Held 1 must held) :
    Climbs advisoryLocks hashtext K op (fun _ => Held 3 (must ++ ids.map .balance))
      (lockAndValidate ids requests) held := by
  have hstage : ∀ l ∈ takeAdvisoryLocks advisoryLocks ids ++ rowOrder K ids,
      1 ≤ l.stage ∧ l.stage < 3 := by
    intro l hl
    rcases List.mem_append.1 hl with hl | hl
    · rw [stage_of_mem_takeAdvisoryLocks hl]
      decide
    · rw [stage_of_mem_rowOrder hl]
      decide
  refine .bind (climbs_perform (c := .lockAccounts ids) 3 _ hheld trivial (by decide)
    (fun db hdb => ?_) (lockOrder_ascending hK hids) (fun l hl => .inr (hstage l hl).1)
    (fun l hl => (hstage l hl).2) (fun _ _ hl => (nomatch hl))
    fun s r s' held' hheld' hs htaken hexec => ?_)
  · rw [takes, rowLocks_eq hdb]
  · cases hexec
    refine .bind (ascends_ofExcept fun _ hpostable => .bind (ascends_ofExcept fun _ _ => .pure
      ⟨hheld'.stage_lt, fun l hl => ?_⟩))
    rcases List.mem_append.1 hl with hl | hl
    · exact hheld'.mem l hl
    · -- An account that is not there is refused, so each balance was found and locked.
      obtain ⟨id, hid, rfl⟩ := List.mem_map.1 hl
      obtain ⟨a, ha, -⟩ := checkPostable_eq_ok (forM_eq_ok.1 hpostable id hid)
      have hmem := List.mem_of_find?_eq_some ha
      have hid' : a.id = id := by simpa using List.find?_some ha
      refine htaken _ (List.mem_append_right _ (List.mem_flatMap.2 ⟨a, hmem, ?_⟩))
      simp [hid']

variable {header : Transaction}

theorem climbs_writeTransaction {requests : List EntryRequest} {accounts : AccountMap}
    (hids : ∀ id ∈ ids, .balance id ∈ must) (hheld : Held 3 must held) :
    Climbs advisoryLocks hashtext K op (fun _ => Held 5 must)
      (writeTransaction d header requests accounts ids) held := by
  refine .bind (climbs_perform (c := .insertTransaction header) 5 _ hheld trivial (by decide)
    (fun _ _ => List.prefix_rfl) indexEntries_ascending
    (fun l hl => .inr (stage_of_mem_indexEntries hl).1) (fun l hl => (stage_of_mem_indexEntries hl).2)
    (fun _ _ hl => (nomatch hl)) fun _ _ _ held₁ hheld₁ _ _ _ => ?_)
  refine .bind (climbs_read (c := .insertEntries _) hheld₁ trivial (fun _ => rfl) (fun _ => rfl)
    fun entries held₂ hheld₂ => ?_)
  refine .bind (.bind (ascends_ofExcept fun g _ => ?_))
  refine (ascends_mapM (I := Held 5 must) (fun id hid held₃ hheld₃ => ?_) hheld₂).mono
    fun _ _ hheld' => .pure hheld'
  exact .bind (ascends_ofExcept fun _ _ => .bind (climbs_row (c := .applyBalanceDelta _) 5
    (.balance id) hheld₃ trivial le_rfl (fun _ => ite_eq_or_eq ..) (.inl (hids id hid))
    (by simp [stage]) (fun _ _ hl => (nomatch hl)) fun _ _ _ _ hheld' _ _ => .pure hheld'))

theorem climbs_events {p : TxM α} (hp : p.OnlyCalls EventCall) (hheld : Held n must held) :
    Climbs advisoryLocks hashtext K op (fun _ => Held n must) p held := by
  induction p generalizing held with
  | pure a => exact .pure hheld
  | fail e => exact .fail
  | call c k ih =>
    cases c with
    | appendEvent eventID e =>
      change Climbs advisoryLocks hashtext K op _ (Prog.perform (TxCall.appendEvent eventID e) >>= k) held
      exact .bind (climbs_read hheld trivial (fun _ => rfl) (fun _ => rfl) fun r _ hheld' =>
        ih r (hp.2 r) hheld')
    | _ => exact hp.1.elim

theorem climbs_completeIdempotency (hheld : Held 5 must held) :
    Climbs advisoryLocks hashtext K op (fun _ _ => True) (completeIdempotency idem header) held := by
  cases idem with
  | none => exact .pure trivial
  | some i =>
    unfold completeIdempotency
    dsimp only
    split
    · exact .fail
    exact .bind (ascends_ofExcept fun _ _ => climbs_row (c := .completeIdempotency _) 9
      (.idempotencyKey i.principalID i.key) hheld trivial (by decide) (fun _ => ite_eq_or_eq ..)
      (.inr (by simp [stage])) (by simp [stage]) (fun _ _ hl => (nomatch hl))
      fun _ _ _ _ _ _ _ => trivial)

theorem climbs_record {eventType reason : String} {balances : List EventBalance}
    {reverses : Option UUID} (hheld : Held 5 must held) :
    Climbs advisoryLocks hashtext K op (fun _ _ => True) (do
      appendTransactionEvent d eventType header balances reverses reason
      runRecord none header
      completeIdempotency idem header
      pure header) held := by
  refine .bind ((climbs_events (appendTransactionEvent_events ..) hheld).mono
    fun _ held' hheld' => .bind (.pure (.bind ?_)))
  exact (climbs_completeIdempotency hheld').mono fun _ _ _ => .pure trivial

theorem climbs_postTx {txID : UUID} {req : TransactionRequest} (hK : K.Nodup)
    (hrecord : req.record = none) :
    Climbs advisoryLocks hashtext K op (fun _ _ => True) (postTx d txID req) [] := by
  unfold postTx
  rw [hrecord]
  refine .bind ((climbs_routeToShards (held_nil 1)).mono fun requests held₁ hheld₁ => ?_)
  refine .bind ((climbs_lockAndValidate hK (sortedAccountIDs_ascending requests) hheld₁).mono
    fun accounts held₂ hheld₂ => ?_)
  refine .bind ((climbs_writeTransaction (fun id hid => List.mem_append_right _
    (List.mem_map_of_mem hid)) hheld₂).mono fun written held₃ hheld₃ => ?_)
  exact climbs_record hheld₃

theorem climbs_reverseTx {reversalID txID : UUID} {reason : String} (hK : K.Nodup) :
    Climbs advisoryLocks hashtext K op (fun _ _ => True)
      (reverseTx d reversalID txID reason idem none) [] := by
  refine .bind (climbs_row (c := .loadTransactionForUpdate txID) 1 (.header txID) (held_nil 0) trivial
    (by decide) (fun _ => ite_eq_or_eq ..) (.inr le_rfl) (Nat.lt_succ_self 0)
    (fun _ _ hl => (nomatch hl)) fun s original s' held₁ hheld₁ htaken hexec => ?_)
  -- The header was found, so it is locked when it is marked.
  have hheader : Held 1 [.header txID] held₁ := by
    obtain ⟨t, ht, -⟩ := map_eq_ok.1 hexec
    obtain ⟨r, hr, -⟩ := loadTransactionForUpdate_eq_ok ht
    refine ⟨hheld₁.stage_lt, fun l hl => htaken l ?_⟩
    rw [takes, hr]
    exact hl
  refine .bind (ascends_ofExcept fun _ _ => .bind ((climbs_lockAndValidate hK
    (sortedAccountIDs_ascending _) hheader).mono fun accounts held₂ hheld₂ => ?_))
  refine .bind ((climbs_writeTransaction (fun id hid => List.mem_append_right _
    (List.mem_map_of_mem hid)) hheld₂).mono fun written held₃ hheld₃ => ?_)
  refine .bind (climbs_row (c := .markReversed txID) 5 (.header txID) hheld₃ trivial le_rfl
    (fun _ => ite_eq_or_eq ..) (.inl (List.mem_append_left _ List.mem_cons_self))
    (by simp [stage]) (fun db l hl => ?_) fun _ _ _ held₄ hheld₄ _ _ => climbs_record hheld₄)
  rw [gains] at hl
  cases hr : db.transactions.find? txID with
  | none =>
    rw [hr] at hl
    cases hl
  | some r =>
    rw [hr] at hl
    exact (stage_of_mem_indexEntries hl).2

theorem Posting.climbs (hK : K.Nodup) (h : op.record = none) :
    Climbs advisoryLocks hashtext K op (fun _ _ => True) op.program [] := by
  cases op with
  | post d txID req hooks =>
    refine .bind (ascends_ofExcept fun _ _ => ?_)
    exact climbs_postTx hK (record_withKey.trans h)
  | reverse d reversalID txID reason idem record hooks =>
    cases (h : record = none)
    exact .bind (ascends_ofExcept fun _ _ => climbs_reverseTx hK)

end Order

/-- Postings on `n` connections, each taking its locks one at a time. -/
abbrev LockedPostings (n : ℕ) :=
  Connections TxReply Error Posting TxState DB Patch Resource Transaction n

section Waits
variable {n : ℕ} {advisoryLocks : Bool} {hashtext : String → Int32} {db : DB}
  {actions : List (Connections.Action Posting n)} {s : LockedPostings n}

theorem postings_inOrder
    (hrun : (Connections.init db : LockedPostings n).run engine (locking advisoryLocks hashtext) actions =
      some s)
    (hrecord : ∀ i op, .begin i op ∈ actions → op.record = none) :
    AllInOrder engine (locking advisoryLocks hashtext) (HasAccounts db.accounts.keys) Resource.rank s := by
  refine AllInOrder.run (persists _) (allInOrder_init rfl) (fun a ha => ?_) hrun
  cases a with
  | begin i op => exact Posting.climbs db.accounts.nodup (hrecord i op ha)
  | _ => trivial

theorem clash_cases {l m : Resource} (h : clash hashtext l m) :
    l = m ∨ ∃ u v, l = .advisory u ∧ m = .advisory v ∧ hashtext u.string = hashtext v.string := by
  unfold clash at h
  split at h
  · exact .inr ⟨_, _, rfl, rfl, of_decide_eq_true h⟩
  · exact .inl (of_decide_eq_true h)

/-- The account's advisory lock is held, or wanted next. -/
def Asked (advisoryLocks : Bool) (hashtext : String → Int32) (s : LockedPostings n) (u : UUID) : Prop :=
  ∃ i, s.wants engine (locking advisoryLocks hashtext) i = some (.advisory u) ∨
    ∃ x, s.sessions i = some x ∧ .advisory u ∈ x.held

theorem advisory_notMem_takes {u : UUID} : .advisory u ∉ takes false c db := by
  cases c with
  | lockAccounts ids => simp [takes, takeAdvisoryLocks, rowLocks]
  | insertTransaction t => simp [takes, indexEntries]
  | _ =>
    unfold takes
    dsimp only
    first
    | split_ifs <;> simp
    | simp

/-- Without advisory locks, postings and reversals that record nothing never wait for each other
in a circle. The service sorts ids as strings and the database sorts them as bytes, and both orders
are the order of the ids. -/
theorem posting_waits_not_circular
    (hrun : (Connections.init db : LockedPostings n).run engine (locking false hashtext) actions =
      some s)
    (hrecord : ∀ i op, .begin i op ∈ actions → op.record = none) :
    (∀ u v : UUID, (u.string ≤ v.string ↔ u.bytes ≤ v.bytes) ∧ (u.bytes ≤ v.bytes ↔ u ≤ v)) ∧
      ∀ i, ¬Relation.TransGen (s.Waits engine (locking false hashtext)) i i := by
  refine ⟨fun u v => ⟨UUID.string_le_string.trans UUID.bytes_le_bytes.symm, UUID.bytes_le_bytes⟩,
    fun i => ?_⟩
  refine (postings_inOrder hrun hrecord).not_circular (persists _) (fun i l hl j x hx m hm hlm => ?_) i
  rcases clash_cases hlm with rfl | ⟨u, v, rfl, -, -⟩
  · exact le_rfl
  · obtain ⟨c, t, hmem⟩ := Connections.mem_takes_of_wants hl
    exact absurd hmem advisory_notMem_takes

end Waits

def sampleAccounts : List LedgerOp :=
  [1, 2, 3, 4].map fun n => .createAccount (sampleDraws n) (BitVec.ofNat 128 n)
    ⟨"account " ++ toString n, .asset, "INR", none, true⟩

def samplePoster (n : ℕ) (debit credit : UUID) : Posting :=
  .post (sampleDraws n) (BitVec.ofNat 128 n) (sampleRequest debit credit 500)
    recording_none

/-- Two calls list the same accounts in opposite orders. Both are about to lock, and the first has
one row. -/
def sampleContention : List (Connections.Action Posting 2) :=
  [.begin 0 (samplePoster 10 1 2), .begin 1 (samplePoster 11 2 1), .advance 0, .advance 1, .take 0]

theorem sampleContention_record (i : Fin 2) (op : Posting) (h : .begin i op ∈ sampleContention) :
    op.record = none := by
  simp only [sampleContention, List.mem_cons, List.not_mem_nil, or_false, reduceCtorEq,
    Connections.Action.begin.injEq] at h
  rcases h with ⟨-, rfl⟩ | ⟨-, rfl⟩ <;> rfl

theorem posting_waits_not_circular_contention :
    ∃ s, (Connections.init (runOps sampleAccounts .empty) : LockedPostings 2).run engine
        (locking false fun _ => 0) sampleContention = some s ∧
      s.Waits engine (locking false fun _ => 0) 1 0 ∧
      ∀ i, ¬Relation.TransGen (s.Waits engine (locking false fun _ => 0)) i i := by
  have hsome : ((Connections.init (runOps sampleAccounts .empty) : LockedPostings 2).run engine
      (locking false fun _ => 0) sampleContention).any (fun s =>
        s.wants engine (locking false fun _ => 0) 1 = some (.account 1) ∧
        s.blocks (locking false fun _ => 0) (.account 1) 0) = true := by
    decide +kernel
  obtain ⟨s, hrun, hs⟩ := (Option.any_eq_true ..).1 hsome
  obtain ⟨hwants, hblocks⟩ := of_decide_eq_true hs
  exact ⟨s, hrun, ⟨by decide, _, hwants, hblocks⟩,
    (posting_waits_not_circular hrun sampleContention_record).2⟩

section Advisory
variable {n : ℕ} {hashtext : String → Int32} {db : DB}
  {actions : List (Connections.Action Posting n)} {s : LockedPostings n}

/-- With advisory locks, a circle of waits takes two accounts whose ids hash to one key. -/
theorem advisory_waits_not_circular
    (hrun : (Connections.init db : LockedPostings n).run engine (locking true hashtext) actions =
      some s)
    (hrecord : ∀ i op, .begin i op ∈ actions → op.record = none)
    (hdistinct : ∀ u v, Asked true hashtext s u → Asked true hashtext s v →
      hashtext u.string = hashtext v.string → u = v) (i : Fin n) :
    ¬Relation.TransGen (s.Waits engine (locking true hashtext)) i i := by
  refine (postings_inOrder hrun hrecord).not_circular (persists _) (fun i l hl j x hx m hm hlm => ?_) i
  rcases clash_cases hlm with rfl | ⟨u, v, rfl, rfl, hhash⟩
  · exact le_rfl
  · rw [hdistinct u v ⟨i, .inl hl⟩ ⟨j, .inr ⟨x, hx, hm⟩⟩ hhash]

end Advisory

/-- Accounts 1 and 4 share one key, and all the others another. -/
def sampleHash (text : String) : Int32 :=
  if text = UUID.string 1 ∨ text = UUID.string 4 then 1 else 2

/-- One call posts between accounts 1 and 2, the other between 3 and 4. Each takes its first
advisory lock. -/
def sampleCollision : List (Connections.Action Posting 2) :=
  [.begin 0 (samplePoster 10 1 2), .begin 1 (samplePoster 11 3 4), .advance 0, .advance 1, .take 0,
    .take 1]

theorem advisory_waits_not_circular_contention :
    ∃ s, (Connections.init (runOps sampleAccounts .empty) : LockedPostings 2).run engine
        (locking true sampleHash) sampleContention = some s ∧
      s.Waits engine (locking true sampleHash) 1 0 ∧
      ∀ i, ¬Relation.TransGen (s.Waits engine (locking true sampleHash)) i i := by
  have hsome : ((Connections.init (runOps sampleAccounts .empty) : LockedPostings 2).run engine
      (locking true sampleHash) sampleContention).any (fun s =>
        s.wants engine (locking true sampleHash) 0 = some (.advisory 2) ∧
        s.wants engine (locking true sampleHash) 1 = some (.advisory 1) ∧
        (s.sessions 0).map (fun x => x.held) = some [.advisory 1] ∧
        (s.sessions 1).map (fun x => x.held) = some []) = true := by
    decide +kernel
  obtain ⟨s, hrun, hs⟩ := (Option.any_eq_true ..).1 hsome
  obtain ⟨hwants₀, hwants₁, hheld₀, hheld₁⟩ := of_decide_eq_true hs
  obtain ⟨x₀, hx₀, hheld₀⟩ := Option.map_eq_some_iff.1 hheld₀
  obtain ⟨x₁, hx₁, hheld₁⟩ := Option.map_eq_some_iff.1 hheld₁
  have hblocks : s.blocks (locking true sampleHash) (.advisory 1) 0 := by
    rw [Connections.blocks, hx₀, Option.any_some, hheld₀]
    decide +kernel
  have hasked : ∀ u, Asked true sampleHash s u → u = 1 ∨ u = 2 := by
    rintro u ⟨i, hu⟩
    obtain rfl | rfl : i = 0 ∨ i = 1 := by omega
    · rcases hu with hu | ⟨x, hx, hu⟩
      · cases hwants₀.symm.trans hu
        exact .inr rfl
      · cases hx₀.symm.trans hx
        rw [hheld₀, List.mem_singleton] at hu
        cases hu
        exact .inl rfl
    · rcases hu with hu | ⟨x, hx, hu⟩
      · cases hwants₁.symm.trans hu
        exact .inl rfl
      · cases hx₁.symm.trans hx
        rw [hheld₁] at hu
        cases hu
  refine ⟨s, hrun, ⟨by decide, _, hwants₁, hblocks⟩,
    advisory_waits_not_circular hrun sampleContention_record fun u v hu hv hhash => ?_⟩
  have hkeys : sampleHash (UUID.string 1) ≠ sampleHash (UUID.string 2) := by decide +kernel
  rcases hasked u hu with rfl | rfl <;> rcases hasked v hv with rfl | rfl
  · rfl
  · exact absurd hhash hkeys
  · exact absurd hhash hkeys.symm
  · rfl

/-- The two calls have no account in common, and each waits for the other. -/
theorem advisory_waits_circular :
    ∃ s, (Connections.init (runOps sampleAccounts .empty) : LockedPostings 2).run engine
        (locking true sampleHash) sampleCollision = some s ∧
      s.Waits engine (locking true sampleHash) 0 1 ∧
      s.Waits engine (locking true sampleHash) 1 0 := by
  have hsome : ((Connections.init (runOps sampleAccounts .empty) : LockedPostings 2).run engine
      (locking true sampleHash) sampleCollision).any (fun s =>
        s.wants engine (locking true sampleHash) 0 = some (.advisory 2) ∧
        s.blocks (locking true sampleHash) (.advisory 2) 1 ∧
        s.wants engine (locking true sampleHash) 1 = some (.advisory 4) ∧
        s.blocks (locking true sampleHash) (.advisory 4) 0) = true := by
    decide +kernel
  obtain ⟨s, hrun, hs⟩ := (Option.any_eq_true ..).1 hsome
  obtain ⟨hwants₀, hblocks₁, hwants₁, hblocks₀⟩ := of_decide_eq_true hs
  exact ⟨s, hrun, ⟨by decide, _, hwants₀, hblocks₁⟩, ⟨by decide, _, hwants₁, hblocks₀⟩⟩

end LedgerCore.Ledger
