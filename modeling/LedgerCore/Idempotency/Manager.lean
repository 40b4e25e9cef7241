import LedgerCore.Http.Requests
import LedgerCore.Idempotency.Store

/-! The idempotency manager: who may proceed under a key. -/
namespace LedgerCore.Idempotency
open LedgerCore.Program LedgerCore.Http

def defaultTTL : ℕ := 24 * 60 * 60 * 1000000

def defaultLease : ℕ := 30 * 1000000

structure Manager where
  ttl : ℕ
  lease : ℕ
  deriving DecidableEq, Repr

def newManager (ttl lease : ℕ) : Manager where
  ttl := if ttl = 0 then defaultTTL else ttl
  lease := if lease = 0 then defaultLease else lease

inductive Disposition where
  | proceed
  | replay (record : Record)
  deriving DecidableEq, Repr

def cacheKey (principalID key : String) : String := principalID ++ ":" ++ key

theorem cacheKey_inj {principalID principalID' : String} {u u' : UUID}
    (h : cacheKey principalID u.string = cacheKey principalID' u'.string) :
    principalID = principalID' ∧ u.string = u'.string := by
  have hlist := congrArg String.toList h
  simp only [cacheKey, String.toList_append, List.append_assoc] at hlist
  -- Every key has the same length, so the text splits in one place only.
  have hlength : (":".toList ++ u.string.toList).length = (":".toList ++ u'.string.toList).length := by
    simp only [List.length_append, String.length_toList, UUID.length_string]
  obtain ⟨hp, hrest⟩ := List.append_inj' hlist hlength
  exact ⟨String.toList_inj.1 hp, String.toList_inj.1 (List.append_cancel_left hrest)⟩

def terminal : RecordStatus → Bool
  | .inProgress => false
  | .completed => true
  | .failed => true

def statusText : RecordStatus → String
  | .inProgress => "IN_PROGRESS"
  | .completed => "COMPLETED"
  | .failed => "FAILED"

/-- A terminal record that has nothing to replay is refused. -/
def Record.validate (r : Record) : Except Error Unit :=
  failIf (terminal r.status = true ∧ (r.responseStatus = 0 ∨ r.responseBody = []))
    (.errorf ("key " ++ r.key ++ " is " ++ statusText r.status ++ " with no stored response")
      .corruptRecord)

/-- Whole seconds, as `time.Duration` prints them. -/
def secondsText (n : ℕ) : String :=
  let seconds := toString (n % 60) ++ "s"
  if n < 60 then seconds
  else if n < 3600 then toString (n / 60) ++ "m" ++ seconds
  else toString (n / 3600) ++ "h" ++ toString (n / 60 % 60) ++ "m" ++ seconds

/-- The wait that a lease's end asks for: whole seconds, and at least one. -/
def retryAfter (deadline now : Time) : ℕ :=
  if deadline < now + 1000000 then 1 else (deadline - now + 500000) / 1000000

def inProgressError (key : String) (seconds : ℕ) : Error :=
  ⟨[.requestInProgress], "idempotency: key " ++ key ++ " is in progress, retry after " ++
    secondsText seconds⟩

def conflictError (key method route : String) : Error :=
  ⟨[.idempotencyConflict], "idempotency: key " ++ key ++ " was already used for " ++ method ++ " " ++
    route ++ " with a different body"⟩

/-- What a record that is already there means for a request. The clock is the API's own, and the
times it is compared with are the database's. -/
def resolveExisting (existing : Record) (r : Reservation) : HttpM (Except Error Disposition) :=
  if existing.fingerprint ≠ r.fingerprint then
    pure (.error (conflictError r.key existing.method existing.route))
  else
    match existing.validate with
    | .error e => pure (.error e)
    | .ok () => do
      let now ← .perform Call.now
      if existing.expiresAt ≤ now then
        pure (.error (.errorf s!"key {existing.key} expired at {existing.expiresAt}" .keyExpired))
      else if terminal existing.status then do
        .perform (Call.cachePut (cacheKey existing.principalID existing.key) existing)
        pure (.ok (.replay existing))
      else if now < existing.leaseExpiresAt then
        pure (.error (inProgressError existing.key (retryAfter existing.leaseExpiresAt now)))
      else do
        let won ← .perform (Call.reclaim existing.principalID existing.key r.lease)
        match won with
        | .error e => pure (.error (e.wrap ("reclaim idempotency key " ++ existing.key)))
        | .ok false =>
          pure (.error (inProgressError existing.key (retryAfter (now + r.lease) now)))
        | .ok true => pure (.ok .proceed)

def acquire (m : Manager) (reservation : Reservation) : HttpM (Except Error Disposition) := do
  let r :=
    { reservation with
      ttl := if reservation.ttl = 0 then m.ttl else reservation.ttl
      lease := if reservation.lease = 0 then m.lease else reservation.lease }
  let cached ← .perform (Call.cacheGet (cacheKey r.principalID r.key))
  match cached with
  | some record => resolveExisting record r
  | none => do
    let won ← .perform (Call.reserve r)
    match won with
    | .error e => pure (.error (e.wrap ("reserve idempotency key " ++ r.key)))
    | .ok true => pure (.ok .proceed)
    | .ok false => do
      let existing ← .perform (Call.lookup r.principalID r.key)
      match existing with
      | .error e => pure (.error (e.wrap ("look up idempotency key " ++ r.key)))
      -- The row was there when the insert met it, and is not there any more or not yet.
      | .ok none => pure (.error (inProgressError r.key 1))
      | .ok (some record) => resolveExisting record r

def Manager.defaulted (m : Manager) (r : Reservation) : Reservation :=
  { r with
    ttl := if r.ttl = 0 then m.ttl else r.ttl
    lease := if r.lease = 0 then m.lease else r.lease }

def afterLookup (r : Reservation) : Except Error (Option Record) → HttpM (Except Error Disposition)
  | .error e => pure (.error (e.wrap ("look up idempotency key " ++ r.key)))
  | .ok none => pure (.error (inProgressError r.key 1))
  | .ok (some record) => resolveExisting record r

def afterReserve (r : Reservation) : Except Error Bool → HttpM (Except Error Disposition)
  | .error e => pure (.error (e.wrap ("reserve idempotency key " ++ r.key)))
  | .ok true => pure (.ok .proceed)
  | .ok false => .perform (Call.lookup r.principalID r.key) >>= afterLookup r

def afterCache (r : Reservation) : Option Record → HttpM (Except Error Disposition)
  | some record => resolveExisting record r
  | none => .perform (Call.reserve r) >>= afterReserve r

theorem acquire_eq (m : Manager) (r : Reservation) :
    acquire m r =
      .perform (Call.cacheGet (cacheKey r.principalID r.key)) >>= afterCache (m.defaulted r) := by
  refine congrArg (Prog.perform _ >>= ·) (funext fun cached => ?_)
  match cached with
  | some record => rfl
  | none =>
    refine congrArg (Prog.perform _ >>= ·) (funext fun won => ?_)
    match won with
    | .error e => rfl
    | .ok true => rfl
    | .ok false =>
      refine congrArg (Prog.perform _ >>= ·) (funext fun existing => ?_)
      match existing with
      | .error e => rfl
      | .ok none => rfl
      | .ok (some record) => rfl

namespace Manager

def fail (principalID key : String) (responseStatus : ℕ) (responseBody : Bytes) :
    HttpM (Except Error Unit) := do
  let failed ← .perform (Call.fail principalID key responseStatus responseBody)
  pure (failed.mapError (Error.wrap ("record failure for idempotency key " ++ key)))

def release (principalID key : String) : HttpM (Except Error Unit) := do
  let released ← .perform (Call.release principalID key)
  pure (released.mapError (Error.wrap ("release idempotency key " ++ key)))

end Manager

end LedgerCore.Idempotency
