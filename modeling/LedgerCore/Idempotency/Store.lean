import LedgerCore.Database.Schema
import Mathlib.Data.List.Sort

/-! The idempotency store: what each of its statements does. `now` is the statement's `now()`. -/
namespace LedgerCore.Idempotency
variable {db db' : DB} {principalID key : String}

structure Record where
  principalID : String
  key : String
  fingerprint : Bytes
  status : RecordStatus
  responseStatus : ℕ
  responseBody : Bytes
  transactionID : Option UUID
  method : String
  route : String
  createdAt : Time
  expiresAt : Time
  leaseExpiresAt : Time
  deriving DecidableEq, Repr

structure Reservation where
  principalID : String
  key : String
  fingerprint : Bytes
  method : String
  route : String
  ttl : ℕ
  lease : ℕ
  deriving DecidableEq, Repr

structure Completion where
  principalID : String
  key : String
  responseStatus : ℕ
  responseBody : Bytes
  transactionID : UUID
  deriving DecidableEq, Repr

def reservedColumns (now : Time) (r : Reservation) : RecordColumns :=
  .mk r.fingerprint .inProgress none none none r.method r.route now (now + r.ttl) (now + r.lease)

/-- `INSERT … ON CONFLICT (principal_id, key) DO NOTHING`; the reply says whether it won. -/
def reserve (now : Time) (r : Reservation) (db : DB) : Except Error (Bool × DB) :=
  match (reservedColumns now r).check with
  | .error e => .error (e.toError.wrap ("insert idempotency key " ++ r.key))
  | .ok row =>
    match db.idempotencyKeys.insert? (r.principalID, r.key) row with
    | none => .ok (false, db)
    | some idempotencyKeys => .ok (true, { db with idempotencyKeys })

def toRecord (principalID key : String) (r : RecordRow) : Record where
  principalID
  key
  fingerprint := r.fingerprint
  status := r.status
  responseStatus := r.responseStatus.getD 0
  responseBody := r.responseBody.getD []
  transactionID := r.transactionID
  method := r.method
  route := r.route
  createdAt := r.createdAt
  expiresAt := r.expiresAt
  leaseExpiresAt := r.leaseExpiresAt

def lookup (principalID key : String) (db : DB) : Option Record :=
  (db.idempotencyKeys.find? (principalID, key)).map (toRecord principalID key)

def renewedRow (now : Time) (lease : ℕ) (r : RecordRow) : RecordRow :=
  { r with
    leaseExpiresAt := min (now + lease) r.expiresAt
    lease_within_ttl_check := min_le_right _ _ }

/-- Renews the lease of a key in progress whose lease has run out. -/
def reclaim (now : Time) (principalID key : String) (lease : ℕ) (db : DB) : Bool × DB :=
  match db.idempotencyKeys.find? (principalID, key) with
  | some r =>
    if r.status = .inProgress ∧ r.leaseExpiresAt ≤ now then
      (true, { db with
        idempotencyKeys := db.idempotencyKeys.modify (principalID, key) (renewedRow now lease) })
    else (false, db)
  | none => (false, db)

def settledRow (status : RecordStatus) (responseStatus : ℕ) (responseBody : Bytes)
    (transactionID : Option UUID) (r : RecordRow) : RecordRow :=
  { r with
    status
    responseStatus := some responseStatus
    responseBody := some responseBody
    transactionID
    completed_check := .inr ⟨rfl, rfl⟩ }

/-- `UPDATE … WHERE principal_id = $1 AND key = $2 AND status = 'IN_PROGRESS'`, setting a
terminal status and the response. `none` when no row matches. -/
def settle (principalID key : String) (status : RecordStatus) (responseStatus : ℕ)
    (responseBody : Bytes) (transactionID : Option UUID) (db : DB) : Option DB :=
  match db.idempotencyKeys.find? (principalID, key) with
  | some r =>
    if r.status = .inProgress then
      some { db with
        idempotencyKeys := db.idempotencyKeys.modify (principalID, key)
          (settledRow status responseStatus responseBody transactionID) }
    else none
  | none => none

/-- `Complete`, inside of the ledger transaction it answers for. -/
def complete (c : Completion) (db : DB) : Except Error DB :=
  match settle c.principalID c.key .completed c.responseStatus c.responseBody
    (some c.transactionID) db with
  | some db' =>
    if db.transactions.find? c.transactionID = none then
      .error ((PgError.foreignKey "idempotency_keys" "idempotency_keys_transaction_id_fkey").toError.wrap
        ("complete idempotency key " ++ c.key))
    else .ok db'
  | none => .error (.errorf ("complete idempotency key " ++ c.key) .leaseLost)

def fail (principalID key : String) (responseStatus : ℕ) (responseBody : Bytes) (db : DB) :
    Except Error DB :=
  match failRow db with
  | some db => .ok db
  | none => .error (.errorf ("mark idempotency key " ++ key ++ " failed") .leaseLost)
where
  failRow (db : DB) : Option DB :=
    settle principalID key .failed responseStatus responseBody
      ((db.idempotencyKeys.find? (principalID, key)).bind fun r => r.transactionID) db

/-- `DELETE … WHERE status = 'IN_PROGRESS'`; no matching row is no error. -/
def release (principalID key : String) (db : DB) : DB :=
  { db with
    idempotencyKeys := db.idempotencyKeys.filter fun k r =>
      !(k = (principalID, key) && r.status = .inProgress) }

/-- Deletes every row whose key, under any principal, is among the `batch` keys that expired
first; rows locked by others are skipped by the subquery. -/
def sweep (now : Time) (batch : ℕ) (locked : String × String → Bool) (db : DB) : DB :=
  let expired := db.idempotencyKeys.rows.filter fun r => r.2.expiresAt < now && !locked r.1
  let keys := ((expired.insertionSort fun a b => a.2.expiresAt ≤ b.2.expiresAt).take batch).map
    fun r => r.1.2
  { db with idempotencyKeys := db.idempotencyKeys.filter fun k _ => !keys.contains k.2 }

theorem RecordColumns.check_eq_ok {c : RecordColumns} {row : RecordRow} (h : c.check = .ok row) :
    row.toRecordColumns = c := by
  unfold LedgerCore.RecordColumns.check at h
  split_ifs at h
  cases h
  rfl

theorem reserve_cases {now : Time} {r : Reservation} {won : Bool}
    (h : reserve now r db = .ok (won, db')) :
    won = false ∧ db' = db ∨ won = true ∧ ∃ row idempotencyKeys,
      row.toRecordColumns = reservedColumns now r ∧
      db.idempotencyKeys.insert? (r.principalID, r.key) row = some idempotencyKeys ∧
      db' = { db with idempotencyKeys } := by
  unfold reserve at h
  split at h
  · cases h
  · next row hrow =>
    split at h
    · cases h
      exact .inl ⟨rfl, rfl⟩
    · next keys hinsert =>
      cases h
      exact .inr ⟨rfl, row, keys, RecordColumns.check_eq_ok hrow, hinsert, rfl⟩

theorem reserve_eq_ok {now : Time} {r : Reservation} {won : Bool}
    (h : reserve now r db = .ok (won, db')) :
    db' = db ∨ ∃ row idempotencyKeys, row.responseStatus = none ∧
      db.idempotencyKeys.insert? (r.principalID, r.key) row = some idempotencyKeys ∧
      db' = { db with idempotencyKeys } := by
  obtain ⟨-, rfl⟩ | ⟨-, row, keys, hrow, hinsert, rfl⟩ := reserve_cases h
  · exact .inl rfl
  · exact .inr ⟨row, keys, by rw [hrow]; rfl, hinsert, rfl⟩

theorem reclaim_cases {now : Time} {lease : ℕ} {won : Bool}
    (h : reclaim now principalID key lease db = (won, db')) :
    won = false ∧ db' = db ∨ won = true ∧ ∃ r,
      db.idempotencyKeys.find? (principalID, key) = some r ∧ r.status = .inProgress ∧
      r.leaseExpiresAt ≤ now ∧ db' = { db with
        idempotencyKeys := db.idempotencyKeys.modify (principalID, key) (renewedRow now lease) } := by
  unfold reclaim at h
  split at h
  · next r hr =>
    split_ifs at h with hstale
    · cases h
      exact .inr ⟨rfl, r, hr, hstale.1, hstale.2, rfl⟩
    · cases h
      exact .inl ⟨rfl, rfl⟩
  · cases h
    exact .inl ⟨rfl, rfl⟩

theorem settle_eq_some {status : RecordStatus} {responseStatus : ℕ} {responseBody : Bytes}
    {transactionID : Option UUID}
    (h : settle principalID key status responseStatus responseBody transactionID db = some db') :
    ∃ r, db.idempotencyKeys.find? (principalID, key) = some r ∧ r.status = .inProgress ∧
      db' = { db with
        idempotencyKeys := db.idempotencyKeys.modify (principalID, key)
          (settledRow status responseStatus responseBody transactionID) } := by
  unfold settle at h
  split at h
  · next r hr =>
    split_ifs at h with hs
    exact ⟨r, hr, hs, (Option.some.inj h).symm⟩
  · cases h

theorem complete_eq_ok {c : Completion} (h : complete c db = .ok db') :
    ∃ r, db.idempotencyKeys.find? (c.principalID, c.key) = some r ∧ r.status = .inProgress ∧
      db' = { db with
        idempotencyKeys := db.idempotencyKeys.modify (c.principalID, c.key)
          (settledRow .completed c.responseStatus c.responseBody (some c.transactionID)) } := by
  unfold complete at h
  split at h
  · next db₁ hs =>
    split_ifs at h
    cases h
    exact settle_eq_some hs
  · cases h

theorem fail_eq_ok {responseStatus : ℕ} {responseBody : Bytes}
    (h : fail principalID key responseStatus responseBody db = .ok db') :
    ∃ transactionID, db' = { db with
      idempotencyKeys := db.idempotencyKeys.modify (principalID, key)
        (settledRow .failed responseStatus responseBody transactionID) } := by
  unfold fail at h
  split at h
  · next db₁ hs =>
    cases h
    obtain ⟨r, -, -, hdb⟩ := settle_eq_some hs
    exact ⟨_, hdb⟩
  · cases h

theorem complete_tables {c : Completion} (h : complete c db = .ok db') :
    ∃ idempotencyKeys, db' = { db with idempotencyKeys } := by
  obtain ⟨r, -, -, rfl⟩ := complete_eq_ok h
  exact ⟨_, rfl⟩

end LedgerCore.Idempotency
