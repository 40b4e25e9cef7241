import LedgerCore.Idempotency.Manager
import LedgerCore.Ledger.Outcomes
import LedgerCore.Program.Isolation

/-! Principals that share a store of keys and a cache. -/
namespace LedgerCore.Idempotency
open LedgerCore.Program LedgerCore.Http

/-- The database, and every record that was ever put in the cache. -/
structure Shared where
  db : DB
  cached : List (String × Record)

/-- What a call meets: the database's clock and the process's, which of the records under its key
the cache has, if any, and what the ledger's work comes to. -/
structure Meeting where
  now : Time
  clock : Time
  hit : Option ℕ
  outcome : Ledger.Outcome

namespace Shared

def under (w : Shared) (key : String) : List Record :=
  (w.cached.filter fun x => x.1 = key).map Prod.snd

/-- A failed write leaves the database. -/
def attempt {α : Type} (x : DB → Except Error (α × DB)) (db : DB) : Except Error α × DB :=
  match x db with
  | .ok (a, db') => (.ok a, db')
  | .error e => (.error e, db)

def store {ρ : Type} (w : Shared) (op : DB → ρ × DB) : ρ × Shared :=
  ((op w.db).1, { w with db := (op w.db).2 })

def call (m : Meeting) : (c : Call) → Shared → Reply c × Shared
  | .cacheGet key, w => (m.hit.bind fun i => (w.under key)[i]?, w)
  | .cachePut key record, w => ((), { w with cached := w.cached ++ [(key, record)] })
  | .now, w => (m.clock, w)
  | .reserve r, w => w.store (attempt (reserve m.now r))
  | .lookup principalID key, w => (.ok (lookup principalID key w.db), w)
  | .reclaim principalID key lease, w =>
    w.store (attempt fun db => .ok (reclaim m.now principalID key lease db))
  | .fail principalID key status body, w =>
    w.store (attempt fun db => (fail principalID key status body db).map fun db => ((), db))
  | .release principalID key, w =>
    w.store (attempt fun db => .ok ((), release principalID key db))
  | .postTransaction req, w => w.store (attempt (Ledger.finish m.now req.idempotency m.outcome))
  | .reverseTransactionIdempotent _ _ idem, w =>
    w.store (attempt (Ledger.finish m.now (some idem) m.outcome))
  | .respond _, w => ((), w)

end Shared

/-- The operation reads and writes the row of one key. -/
def ActsAt {ρ : Type} (k : String × String) (op : DB → ρ × DB) : Prop :=
  ∃ f : Option RecordRow → ρ × Option RecordRow, ∀ db,
    (op db).1 = (f (db.idempotencyKeys.find? k)).1 ∧
    ∀ k', (op db).2.idempotencyKeys.find? k' =
      if k' = k then (f (db.idempotencyKeys.find? k)).2 else db.idempotencyKeys.find? k'

section ActsAt
variable {ρ : Type} {k : String × String} {principalID key : String}

theorem ActsAt.others {op : DB → ρ × DB} (h : ActsAt k op) (db : DB) {k' : String × String}
    (hne : k' ≠ k) : (op db).2.idempotencyKeys.find? k' = db.idempotencyKeys.find? k' := by
  obtain ⟨f, hf⟩ := h
  rw [(hf db).2, if_neg hne]

theorem ActsAt.reply {op : DB → ρ × DB} (h : ActsAt k op) {db db' : DB}
    (hrow : db.idempotencyKeys.find? k = db'.idempotencyKeys.find? k) : (op db).1 = (op db').1 := by
  obtain ⟨f, hf⟩ := h
  rw [(hf db).1, (hf db').1, hrow]

theorem ActsAt.row {op : DB → ρ × DB} (h : ActsAt k op) {db db' : DB}
    (hrow : db.idempotencyKeys.find? k = db'.idempotencyKeys.find? k) :
    (op db).2.idempotencyKeys.find? k = (op db').2.idempotencyKeys.find? k := by
  obtain ⟨f, hf⟩ := h
  rw [(hf db).2, (hf db').2, if_pos rfl, if_pos rfl, hrow]

theorem find?_left (t : Table (String × String) RecordRow) (k k' : String × String) :
    t.find? k' = if k' = k then t.find? k else t.find? k' := by
  split_ifs with h
  · rw [h]
  · rfl

theorem find?_modified {t : Table (String × String) RecordRow} {r : RecordRow}
    (hrow : t.find? k = some r) (f : RecordRow → RecordRow) (k' : String × String) :
    (t.modify k f).find? k' = if k' = k then some (f r) else t.find? k' := by
  rw [Table.find?_modify]
  split_ifs with hk
  · rw [hk, hrow]
    rfl
  · rfl

theorem reserve_actsAt (now : Time) (r : Reservation) :
    ActsAt (r.principalID, r.key) (Shared.attempt (reserve now r)) := by
  unfold Shared.attempt reserve
  cases (reservedColumns now r).check with
  | error e => exact ⟨fun row => (_, row), fun db => ⟨rfl, find?_left _ _⟩⟩
  | ok new =>
    refine ⟨fun row => (.ok row.isNone, some (row.getD new)), fun db => ?_⟩
    dsimp only
    cases hkeys : db.idempotencyKeys.insert? (r.principalID, r.key) new with
    | none =>
      obtain ⟨row, hrow⟩ := Table.insert?_eq_none.1 hkeys
      refine ⟨by rw [hrow]; rfl, fun k' => ?_⟩
      rw [hrow]
      exact hrow ▸ find?_left db.idempotencyKeys _ k'
    | some keys =>
      have hrow := (Table.insert?_eq_some.1 hkeys).1
      refine ⟨by rw [hrow]; rfl, fun k' => ?_⟩
      rw [hrow]
      exact Table.find?_insert hkeys k'

theorem lookup_actsAt (principalID key : String) :
    ActsAt (principalID, key) fun db =>
      ((.ok (lookup principalID key db) : Except Error (Option Record)), db) :=
  ⟨fun row => (.ok (row.map (toRecord principalID key)), row), fun _ => ⟨rfl, find?_left _ _⟩⟩

theorem reclaim_actsAt (now : Time) (principalID key : String) (lease : ℕ) :
    ActsAt (principalID, key)
      (Shared.attempt fun db => .ok (reclaim now principalID key lease db)) := by
  refine ⟨fun row => row.elim (.ok false, none) fun r =>
    if r.status = .inProgress ∧ r.leaseExpiresAt ≤ now then
      (.ok true, some (renewedRow now lease r)) else (.ok false, some r), fun db => ?_⟩
  have hleft := find?_left db.idempotencyKeys (principalID, key)
  simp only [Shared.attempt, reclaim]
  cases hrow : db.idempotencyKeys.find? (principalID, key) with
  | none =>
    rw [hrow] at hleft
    exact ⟨rfl, hleft⟩
  | some r =>
    rw [hrow] at hleft
    dsimp only [Option.elim]
    split_ifs with hlease
    · exact ⟨rfl, find?_modified hrow (renewedRow now lease)⟩
    · exact ⟨rfl, hleft⟩

theorem fail_actsAt (principalID key : String) (status : ℕ) (body : Bytes) :
    ActsAt (principalID, key) (Shared.attempt fun db =>
      (fail principalID key status body db).map fun db => ((), db)) := by
  let lost : Error := .errorf ("mark idempotency key " ++ key ++ " failed") .leaseLost
  refine ⟨fun row => row.elim (.error lost, none) fun r =>
    if r.status = .inProgress then
      (.ok (), some (settledRow .failed status body r.transactionID r))
    else (.error lost, some r), fun db => ?_⟩
  have hleft := find?_left db.idempotencyKeys (principalID, key)
  simp only [Shared.attempt, fail, fail.failRow, settle]
  cases hrow : db.idempotencyKeys.find? (principalID, key) with
  | none =>
    rw [hrow] at hleft
    exact ⟨rfl, hleft⟩
  | some r =>
    rw [hrow] at hleft
    dsimp only [Option.elim]
    split_ifs with hstatus
    · exact ⟨rfl, find?_modified hrow (settledRow .failed status body r.transactionID)⟩
    · exact ⟨rfl, hleft⟩

theorem release_actsAt (principalID key : String) :
    ActsAt (principalID, key) (Shared.attempt fun db => .ok ((), release principalID key db)) := by
  refine ⟨fun row => (.ok (), row.filter fun r => !decide (r.status = .inProgress)),
    fun db => ⟨rfl, fun k' => ?_⟩⟩
  dsimp only [Shared.attempt, release]
  rw [Table.find?_filter]
  split_ifs with hk
  · simp [hk]
  · cases db.idempotencyKeys.find? k' <;> simp [hk]

theorem completed_actsAt (now : Time) {i : Ledger.Idempotent} {t : Ledger.Transaction}
    {s : Ledger.TxState} {render : Ledger.ResponseRenderer} {status : ℕ} {body : Bytes}
    (hrender : i.render = some render) (hbody : render t = .ok (status, body)) :
    ActsAt (i.principalID, i.key)
      (Shared.attempt (Ledger.finish now (some i) (.ok (t, s)))) := by
  let unknown : Error := (PgError.foreignKey "idempotency_keys"
    "idempotency_keys_transaction_id_fkey").toError.wrap ("complete idempotency key " ++ i.key)
  let lost : Error := .errorf ("complete idempotency key " ++ i.key) .leaseLost
  -- The row after the commit: completed, or as it was.
  let after (r : RecordRow) : RecordRow :=
    if (Ledger.commit s).isOk then settledRow .completed status body (some t.id) r else r
  refine ⟨fun row => row.elim (.error lost, none) fun r =>
    if r.status = .inProgress then
      if s.db.transactions.find? t.id = none then (.error unknown, some r)
      else ((Ledger.commit s).map fun _ => t, some (after r))
    else (.error lost, some r), fun db => ?_⟩
  have hleft := find?_left db.idempotencyKeys (i.principalID, i.key)
  rw [Shared.attempt, Ledger.finish_eq hrender hbody]
  simp only [complete, settle]
  cases hrow : db.idempotencyKeys.find? (i.principalID, i.key) with
  | none =>
    rw [hrow] at hleft
    exact ⟨rfl, hleft⟩
  | some r =>
    rw [hrow] at hleft
    dsimp only [Option.elim]
    by_cases hstatus : r.status = .inProgress
    · simp only [if_pos hstatus]
      by_cases hknown : s.db.transactions.find? t.id = none
      · simp only [if_pos hknown]
        exact ⟨rfl, hleft⟩
      · have hcommit := Ledger.commit_withKeys (db.idempotencyKeys.modify (i.principalID, i.key)
          (settledRow .completed status body (some t.id))) s
        dsimp only [Ledger.TxState.withKeys] at hcommit
        simp only [if_neg hknown, bind, Except.bind, hcommit, after]
        cases Ledger.commit s with
        | error e => exact ⟨rfl, hleft⟩
        | ok db' => exact ⟨rfl, find?_modified hrow _⟩
    · simp only [if_neg hstatus]
      exact ⟨rfl, hleft⟩

/-- The ledger's part of a transaction is given; the key's part is in its row. -/
theorem finish_actsAt (now : Time) (i : Ledger.Idempotent) (outcome : Ledger.Outcome) :
    ActsAt (i.principalID, i.key) (Shared.attempt (Ledger.finish now (some i) outcome)) := by
  -- An error that does not depend on the key's row.
  have herror (e : Error) (h : ∀ db, Ledger.finish now (some i) outcome db = .error e) :
      ActsAt (i.principalID, i.key) (Shared.attempt (Ledger.finish now (some i) outcome)) := by
    refine ⟨fun row => (.error e, row), fun db => ?_⟩
    rw [Shared.attempt, h db]
    exact ⟨rfl, find?_left _ _⟩
  rcases outcome with e | ⟨t, s⟩
  · exact herror e fun db => rfl
  · cases hrender : i.render with
    | none =>
      refine herror (.errorf ("idempotency key " ++ i.key) .missingRenderer) fun db => ?_
      simp [Ledger.finish, Ledger.completeIdempotency, hrender]
      rfl
    | some render =>
      cases hbody : render t with
      | error e =>
        refine herror (e.wrap ("render response for transaction " ++ t.id.string)) fun db => ?_
        have hrun (s : Ledger.TxState) : (Ledger.completeIdempotency (some i) t).run
            (Ledger.exec now) s = .error (e.wrap ("render response for transaction " ++ t.id.string)) := by
          simp only [Ledger.completeIdempotency, hrender, hbody]
          rfl
        change (Ledger.completeIdempotency (some i) t).run _ _ >>= _ = _
        rw [hrun]
        rfl
      | ok x =>
        obtain ⟨status, body⟩ := x
        exact completed_actsAt now hrender hbody

end ActsAt

def Record.OwnedBy (principalID : String) (r : Record) : Prop :=
  r.principalID = principalID ∧ ∃ key : UUID, r.key = key.string

def Asks (principalID : String) : Call → Prop
  | .cacheGet key => ∃ u : UUID, key = cacheKey principalID u.string
  | .cachePut key record =>
    record.OwnedBy principalID ∧ key = cacheKey record.principalID record.key
  | .now => True
  | .reserve r => r.principalID = principalID
  | .lookup p key => p = principalID ∧ ∃ u : UUID, key = u.string
  | .reclaim p _ _ => p = principalID
  | .fail p _ _ _ => p = principalID
  | .release p _ => p = principalID
  | .postTransaction req => ∃ i, req.idempotency = some i ∧ i.principalID = principalID
  | .reverseTransactionIdempotent _ _ idem => idem.principalID = principalID
  | .respond _ => True

/-- The records in the replies are the principal's. -/
def Answers (principalID : String) : (c : Call) → Reply c → Prop
  | .cacheGet _, r => ∀ record ∈ r, record.OwnedBy principalID
  | .lookup _ _, r => ∀ record, r = .ok (some record) → record.OwnedBy principalID
  | _, _ => True

/-- The rows of a principal's keys, and what was cached under them. -/
structure View where
  rows : String → Option RecordRow
  cached : UUID → List Record

namespace Shared
variable {principalID : String} {m : Meeting} {c : Call} {w : Shared}

def view (principalID : String) (w : Shared) : View where
  rows key := w.db.idempotencyKeys.find? (principalID, key)
  cached key := w.under (cacheKey principalID key.string)

/-- Every cached record is under its own key. -/
def Valid (w : Shared) : Prop :=
  ∀ x ∈ w.cached, (∃ u : UUID, x.2.key = u.string) ∧ x.1 = cacheKey x.2.principalID x.2.key

/-- A call that leaves the view of the others, and reads and writes no other than its own. -/
structure Isolated (principalID : String) (m : Meeting) (c : Call) : Prop where
  others : ∀ p w, principalID ≠ p → view p (call m c w).2 = view p w
  reply : ∀ w w', view principalID w = view principalID w' → (call m c w).1 = (call m c w').1
  own : ∀ w w', view principalID w = view principalID w' →
    view principalID (call m c w).2 = view principalID (call m c w').2

theorem isolated_of_actsAt {key : String} {op : DB → Reply c × DB}
    (hop : ActsAt (principalID, key) op) (hc : ∀ w, call m c w = w.store op) :
    Isolated principalID m c := by
  have hrow {w w' : Shared} (h : view principalID w = view principalID w') (key : String) :
      w.db.idempotencyKeys.find? (principalID, key) =
        w'.db.idempotencyKeys.find? (principalID, key) := congrFun (congrArg View.rows h) key
  refine ⟨fun p w hne => ?_, fun w w' h => ?_, fun w w' h => ?_⟩
  · rw [hc]
    refine congrArg (fun rows => View.mk rows _) (funext fun key' => ?_)
    exact hop.others w.db fun heq => hne (congrArg Prod.fst heq).symm
  · rw [hc, hc]
    exact hop.reply (hrow h key)
  · rw [hc, hc]
    have hcached := congrArg View.cached h
    refine congrArg₂ View.mk (funext fun key' => ?_) hcached
    by_cases hkey : key' = key
    · rw [hkey]
      exact hop.row (hrow h key)
    · have hne : (principalID, key') ≠ (principalID, key) := fun heq =>
        hkey (congrArg Prod.snd heq)
      exact (hop.others w.db hne).trans ((hrow h key').trans (hop.others w'.db hne).symm)

theorem under_put (w : Shared) (key key' : String) (record : Record) :
    under { w with cached := w.cached ++ [(key, record)] } key' =
      w.under key' ++ if key = key' then [record] else [] := by
  unfold under
  split_ifs with h <;> simp [h]

theorem isolated (h : Asks principalID c) : Isolated principalID m c := by
  cases c with
  | cacheGet key =>
    obtain ⟨u, rfl⟩ := h
    refine ⟨fun _ _ _ => rfl, fun w w' hview => ?_, fun _ _ hview => hview⟩
    exact congrArg (fun records => m.hit.bind fun i => records[i]?)
      (congrFun (congrArg View.cached hview) u)
  | cachePut key record =>
    obtain ⟨⟨rfl, u, hkey⟩, rfl⟩ := h
    refine ⟨fun p w hne => ?_, fun _ _ _ => rfl, fun w w' hview => ?_⟩
    · refine congrArg (View.mk _) (funext fun u' => ?_)
      refine (under_put w _ _ record).trans ?_
      rw [if_neg, List.append_nil]
      -- Keys of different principals are different texts.
      rw [hkey]
      exact fun heq => hne (cacheKey_inj heq).1
    · refine congrArg₂ View.mk (congrArg View.rows hview) (funext fun u' => ?_)
      refine (under_put w _ _ record).trans (Eq.trans ?_ (under_put w' _ _ record).symm)
      exact congrArg (· ++ _) (congrFun (congrArg View.cached hview) u')
  | now => exact ⟨fun _ _ _ => rfl, fun _ _ _ => rfl, fun _ _ hview => hview⟩
  | reserve r =>
    obtain rfl := h
    exact isolated_of_actsAt (reserve_actsAt m.now r) fun _ => rfl
  | lookup p key =>
    obtain ⟨rfl, -⟩ := h
    exact isolated_of_actsAt (lookup_actsAt p key) fun _ => rfl
  | reclaim p key lease =>
    obtain rfl := h
    exact isolated_of_actsAt (reclaim_actsAt m.now p key lease) fun _ => rfl
  | fail p key status body =>
    obtain rfl := h
    exact isolated_of_actsAt (fail_actsAt p key status body) fun _ => rfl
  | release p key =>
    obtain rfl := h
    exact isolated_of_actsAt (release_actsAt p key) fun _ => rfl
  | postTransaction req =>
    obtain ⟨i, hi, rfl⟩ := h
    refine isolated_of_actsAt (finish_actsAt m.now i m.outcome) fun w => ?_
    rw [← hi]
    rfl
  | reverseTransactionIdempotent txID reason idem =>
    obtain rfl := h
    exact isolated_of_actsAt (finish_actsAt m.now idem m.outcome) fun _ => rfl
  | respond response => exact ⟨fun _ _ _ => rfl, fun _ _ _ => rfl, fun _ _ hview => hview⟩

theorem valid_call (h : Asks principalID c) (hw : w.Valid) : (call m c w).2.Valid := by
  cases c with
  | cachePut key record =>
    intro x hx
    rcases List.mem_append.1 hx with hx | hx
    · exact hw x hx
    · rw [List.mem_singleton.1 hx]
      exact ⟨h.1.2, h.2⟩
  | _ => exact hw

theorem answers_call (h : Asks principalID c) (hw : w.Valid) :
    Answers principalID c (call m c w).1 := by
  cases c with
  | cacheGet key =>
    obtain ⟨u, rfl⟩ := h
    intro record hrecord
    obtain ⟨i, -, hi⟩ := Option.bind_eq_some_iff.1 hrecord
    obtain ⟨x, hx, rfl⟩ := List.mem_map.1 (List.mem_of_getElem? hi)
    obtain ⟨hmem, hkey⟩ := List.mem_filter.1 hx
    obtain ⟨⟨u', hu'⟩, hx'⟩ := hw x hmem
    have hsame : cacheKey x.2.principalID u'.string = cacheKey principalID u.string := by
      rw [← hu', ← hx']
      exact of_decide_eq_true hkey
    exact ⟨(cacheKey_inj hsame).1, u', hu'⟩
  | lookup p key =>
    obtain ⟨rfl, hkey⟩ := h
    intro record hrecord
    obtain ⟨r, -, rfl⟩ := Option.map_eq_some_iff.1 (Except.ok.inj hrecord)
    exact ⟨rfl, hkey⟩
  | _ => trivial

def separation : Separation call String View where
  asks := Asks
  answers := Answers
  valid := Valid
  view := view
  valid_call := valid_call
  answers_call := answers_call
  others h hne := (isolated h).others _ _ hne
  reply h hview := (isolated h).reply _ _ hview
  own h hview := (isolated h).own _ _ hview

end Shared

/-- What a principal can call. Its keys are UUIDs, as `ParseKey` has it. The ledger's two calls
complete their key with the response that `render` makes. -/
inductive KeyCall where
  | acquire (m : Manager) (key : UUID) (fingerprint : Bytes) (method route : String) (ttl lease : ℕ)
  | post (req : Ledger.TransactionRequest) (key : UUID) (render : Ledger.ResponseRenderer)
  | reverse (txID : UUID) (reason : String) (key : UUID) (render : Ledger.ResponseRenderer)
  | fail (key : UUID) (responseStatus : ℕ) (responseBody : Bytes)
  | release (key : UUID)

inductive Answer where
  | disposed (disposition : Except Error Disposition)
  | posted (transaction : Except Error Ledger.Transaction)
  | settled (done : Except Error Unit)

def KeyCall.program (principalID : String) : KeyCall → HttpM Answer
  | .acquire m key fingerprint method route ttl lease => do
    let disposition ← Idempotency.acquire m
      { principalID, key := key.string, fingerprint, method, route, ttl, lease }
    pure (.disposed disposition)
  | .post req key render => do
    let posted ← .perform (Call.postTransaction
      { req with principalID, idempotency := some ⟨principalID, key.string, some render⟩ })
    pure (.posted posted)
  | .reverse txID reason key render => do
    let reversal ← .perform (Call.reverseTransactionIdempotent txID reason
      ⟨principalID, key.string, some render⟩)
    pure (.posted reversal)
  | .fail key status body => do
    let failed ← Manager.fail principalID key.string status body
    pure (.settled failed)
  | .release key => do
    let released ← Manager.release principalID key.string
    pure (.settled released)

/-- A principal makes a call, or a call that is under way reaches the store, the cache or the
ledger the next time. -/
inductive KeyEvent where
  | start (principalID : String) (n : ℕ) (call : KeyCall)
  | perform (principalID : String) (n : ℕ) (m : Meeting)

namespace KeyEvent

def principalID : KeyEvent → String
  | .start p _ _ => p
  | .perform p _ _ => p

def event : KeyEvent → TaskEvent Reply Empty Answer String Meeting
  | .start p n call => .start p n (call.program p)
  | .perform p n m => .perform p n m

theorem owner_event (e : KeyEvent) : e.event.owner = e.principalID := by
  cases e <;> rfl

end KeyEvent

/-- Where a history of calls leads from a database and an empty cache. -/
def runHistory (history : List KeyEvent) (db : DB) : Interleaving Reply Empty Answer String Shared :=
  Interleaving.run Shared.call (history.map KeyEvent.event) ⟨⟨db, []⟩, fun _ => none⟩

section Programs
variable {principalID : String}

theorem resolveExisting_within {existing : Record} (h : existing.OwnedBy principalID)
    (r : Reservation) :
    (resolveExisting existing r).Within (Asks principalID) (Answers principalID) := by
  unfold resolveExisting
  split
  · exact Prog.within_pure _
  · split
    · exact Prog.within_pure _
    · refine Prog.within_perform_bind trivial fun now _ => ?_
      split_ifs
      · exact Prog.within_pure _
      · exact Prog.within_perform_bind ⟨h, rfl⟩ fun _ _ => Prog.within_pure _
      · exact Prog.within_pure _
      · refine Prog.within_perform_bind h.1 fun won _ => ?_
        split <;> exact Prog.within_pure _

theorem acquire_within (m : Manager) {r : Reservation} {key : UUID}
    (hp : r.principalID = principalID) (hkey : r.key = key.string) :
    (acquire m r).Within (Asks principalID) (Answers principalID) := by
  refine Prog.within_perform_bind ⟨key, by rw [← hp, ← hkey]⟩ fun cached hcached => ?_
  split
  · next record => exact resolveExisting_within (hcached record rfl) _
  · refine Prog.within_perform_bind hp fun won _ => ?_
    split
    · exact Prog.within_pure _
    · exact Prog.within_pure _
    · refine Prog.within_perform_bind ⟨hp, key, hkey⟩ fun existing hexisting => ?_
      split
      · exact Prog.within_pure _
      · exact Prog.within_pure _
      · next record => exact resolveExisting_within (hexisting record rfl) _

theorem KeyCall.within (call : KeyCall) :
    (call.program principalID).Within (Asks principalID) (Answers principalID) := by
  cases call with
  | acquire m key fingerprint method route ttl lease =>
    exact (acquire_within m rfl rfl).bind fun _ => Prog.within_pure _
  | post req key render =>
    exact Prog.within_perform_bind ⟨_, rfl, rfl⟩ fun _ _ => Prog.within_pure _
  | reverse txID reason key render =>
    exact Prog.within_perform_bind rfl fun _ _ => Prog.within_pure _
  | fail key status body =>
    refine Prog.Within.bind ?_ fun _ => Prog.within_pure _
    exact Prog.within_perform_bind rfl fun _ _ => Prog.within_pure _
  | release key =>
    refine Prog.Within.bind ?_ fun _ => Prog.within_pure _
    exact Prog.within_perform_bind rfl fun _ _ => Prog.within_pure _

end Programs

/-- What a principal is answered in any history is what it would be answered if nobody else had
called, with the same clocks, hits of the cache and outcomes of the ledger for its own calls. -/
theorem principal_isolated (db : DB) (history : List KeyEvent) (principalID : String) (n : ℕ) :
    (runHistory history db).result principalID n =
      (runHistory (history.filter fun e => e.principalID = principalID) db).result principalID n := by
  have halike : Shared.separation.Alike principalID
      (⟨⟨db, []⟩, fun _ => none⟩ : Interleaving Reply Empty Answer String Shared)
      ⟨⟨db, []⟩, fun _ => none⟩ :=
    ⟨fun _ h => (nomatch h), rfl, fun _ => rfl, fun _ _ _ h => (nomatch h)⟩
  have hadmits : ∀ e ∈ history.map KeyEvent.event, Shared.separation.Admits e := by
    intro e he
    obtain ⟨e, -, rfl⟩ := List.mem_map.1 he
    cases e with
    | start p n call => exact call.within
    | perform p n m => trivial
  have hpurged : (history.map KeyEvent.event).filter (fun e => e.owner = principalID) =
      (history.filter fun e => e.principalID = principalID).map KeyEvent.event := by
    rw [List.filter_map]
    simp only [Function.comp_def, KeyEvent.owner_event]
  unfold runHistory
  rw [← hpurged]
  exact (halike.run hadmits).result n

/-- The key is taken by another principal, whose name begins with the caller's. -/
example : (match (runHistory
    [.start "a:b" 0 (.acquire (newManager 0 0) 8 [1] "POST" "/v1/transactions" 0 0),
     .start "a" 0 (.acquire (newManager 0 0) 8 [2] "POST" "/v1/transactions" 0 0),
     .perform "a:b" 0 ⟨1, 1, none, .error ⟨[], ""⟩⟩, .perform "a" 0 ⟨2, 2, none, .error ⟨[], ""⟩⟩,
     .perform "a:b" 0 ⟨3, 3, none, .error ⟨[], ""⟩⟩, .perform "a" 0 ⟨4, 4, none, .error ⟨[], ""⟩⟩]
    .empty).result "a" 0 with
  | some (.ok (.disposed (.ok .proceed))) => true
  | _ => false) = true := by decide +kernel

end LedgerCore.Idempotency
