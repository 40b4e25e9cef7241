import LedgerCore.Program.Pool
import LedgerCore.Program.Runs
import LedgerCore.Payout.Steps
import LedgerCore.Ledger.History

/-! Orchestrators, the gateway and everybody else, in any order. A transaction of the database is
one step; the ledger's transactions are serializable. -/
namespace LedgerCore.Payout
open LedgerCore.Program LedgerCore.Saga

abbrev NewUUID := { id : UUID // id ≠ UUID.nil }

/-- `Orchestrator.Start`. `untilDeadline` is the time the first step is given, as the
orchestrator's clock has it. -/
def start (o : Orchestrator) (now untilDeadline : Time) (id : NewUUID) (p : Payload)
    (principalID : String) (idempotencyKey : Option String) (db : DB) :
    Except Error (Instance × DB) := do
  validate p
  Saga.create now untilDeadline
    { id := id.1, sagaType := o.cfg.sagaType, principalID, currentStep := .reserve,
      status := .pending, payload := p, retryCount := 0, lastError := "", idempotencyKey,
      leaseOwner := none, leaseExpiresAt := none, stepDeadlineAt := 0, createdAt := 0 } db

inductive Delivery where
  | inFlight
  | answered (response : Gateway.Response)
  | lost
  deriving DecidableEq, Repr

/-- A `Pay` request, and the saga whose step issued it. -/
structure Sent where
  sagaID : UUID
  request : Gateway.PaymentRequest
  delivery : Delivery
  deriving DecidableEq, Repr

/-- A ledger transaction that a saga's step committed. -/
structure Posting where
  sagaID : UUID
  transactionID : UUID
  deriving DecidableEq, Repr

def postedFor (posted : List Posting) (sagaID : UUID) : List UUID :=
  (posted.filter fun q => q.sagaID = sagaID).map Posting.transactionID

/-- The database, the gateway's records and the requests on their way to it. The logs of the
transactions that steps committed and of the keys that were probed are kept for the
statements about them; no call reads them. -/
structure World where
  db : DB
  records : Gateway.Records
  sent : List Sent
  posted : List Posting
  probed : List String

/-- What a call draws: `now()` and ids for the database, a new id, an event's stamp. -/
structure Choice where
  draws : Ledger.Draws
  uuid : NewUUID
  stamp : Stamp

namespace World

def empty : World := ⟨.empty, .empty, [], [], []⟩

def write {α : Type} (w : World) : Except Error (α × DB) → Except Error α × World
  | .ok (a, db) => (.ok a, { w with db })
  | .error e => (.error e, w)

/-- A ledger transaction for a saga, committed or rolled back. -/
def ledger (w : World) (sagaID : UUID) :
    Except Error (Ledger.Transaction × DB) → Except Error Ledger.Transaction × World
  | .ok (t, db) => (.ok t, { w with db, posted := w.posted ++ [⟨sagaID, t.id⟩] })
  | .error e => (.error e, w)

/-- A call of a saga's step. An answer to `Pay` cannot be had before the gateway gave it. -/
def call (sagaID : UUID) (ch : Choice) : (c : Call) → World → Option (Reply c × World)
  | .newUUID, w => some (.ok ch.uuid.1, w)
  | .stamp, w => some (ch.stamp, w)
  | .nextAttemptNumber id step direction, w =>
    some (.ok (Saga.nextAttemptNumber id step direction w.db), w)
  | .attempts id, w => some (.ok (Saga.attempts id w.db), w)
  | .unresolvedAttempt id step, w => some (.ok (Saga.unresolvedAttempt id step w.db), w)
  | .get id, w => some (Saga.get id w.db, w)
  | .advance t, w => some (w.write ((Saga.advance ch.draws.now t w.db).map fun db => ((), db)))
  | .beginStep a t, w =>
    some (w.write ((Saga.beginStep ch.draws.now a t w.db).map fun db => ((), db)))
  | .recordAttempt a, w =>
    some (w.write ((Saga.recordAttempt ch.draws.now a w.db).map fun db => ((), db)))
  | .finishAttempt f, w => some (w.write (.ok ((), Saga.finishAttempt ch.draws.now f w.db)))
  | .escalate eventID t alert, w =>
    some (w.write ((Saga.escalate ch.draws.now eventID t alert w.db).map fun db => ((), db)))
  | .postTransaction req, w =>
    some (w.ledger sagaID (Ledger.postTransaction ch.draws ch.uuid.1 req w.db))
  | .reverseTransactionRecorded txID reason record, w =>
    some (w.ledger sagaID (Ledger.doReverse ch.draws ch.uuid.1 txID reason none (some record) w.db))
  | .paySend req, w => some (w.sent.length, { w with sent := w.sent ++ [⟨sagaID, req, .inFlight⟩] })
  | .payAwait key request, w =>
    match w.sent[request]? with
    | some ⟨_, _, .answered response⟩ => some (Gateway.doRequest key response, w)
    | _ => none
  | .probe key, w =>
    some (Gateway.doRequest key (Gateway.probe key w.records), { w with probed := w.probed ++ [key] })

/-- The reply to a call whose caller stops waiting: any error from the database, and a transport
error from the gateway. -/
def fault (e : Error) : (c : Call) → Option (Reply c)
  | .newUUID => some (.error e)
  | .stamp => none
  | .nextAttemptNumber _ _ _ => some (.error e)
  | .attempts _ => some (.error e)
  | .unresolvedAttempt _ _ => some (.error e)
  | .get _ => some (.error e)
  | .advance _ => some (.error e)
  | .beginStep _ _ => some (.error e)
  | .recordAttempt _ => some (.error e)
  | .finishAttempt _ => some (.error e)
  | .escalate _ _ _ => some (.error e)
  | .postTransaction _ => some (.error e)
  | .reverseTransactionRecorded _ _ _ => some (.error e)
  | .paySend _ => none
  | .payAwait key _ => some (Gateway.doRequest key (.transport e.text))
  | .probe key => some (Gateway.doRequest key (.transport e.text))

def deliver (n : ℕ) (d : Gateway.Decision) (w : World) : Option World :=
  match w.sent[n]? with
  | some ⟨sagaID, request, .inFlight⟩ =>
    let (response, records) := Gateway.pay d request w.records
    some { w with records, sent := w.sent.set n ⟨sagaID, request, .answered response⟩ }
  | _ => none

def lose (n : ℕ) (w : World) : Option World :=
  match w.sent[n]? with
  | some ⟨sagaID, request, .inFlight⟩ =>
    some { w with sent := w.sent.set n ⟨sagaID, request, .lost⟩ }
  | _ => none

end World

/-- Which orchestrator drives which saga, as it was when it was claimed. -/
structure Worker where
  o : Orchestrator
  inst : Instance
  deriving DecidableEq, Repr

abbrev Sys := Pool Reply Failure World Worker

/-- A call of the ledger from outside of the sagas: it has no `Record` hook. -/
def hookless : Ledger.LedgerOp → Bool
  | .postTransaction _ _ req _ => req.record.isNone
  | .reverseTransaction _ _ _ _ _ record _ => record.isNone
  | _ => true

inductive Action where
  /-- A batch is claimed, by the claim loop or by the sweeper, and each saga in it is driven. -/
  | claim (expired : Bool) (cfg : Config) (now : Time) (locked : UUID → Bool)
  | perform (task : ℕ) (ch : Choice)
  | abandon (task : ℕ) (e : Error)
  | crash (task : ℕ)
  | start (cfg : Config) (now untilDeadline : Time) (id : NewUUID) (p : Payload)
      (principalID : String) (idempotencyKey : Option String)
  | ledger (op : Ledger.LedgerOp)
  /-- The API's own bookkeeping of idempotency keys. -/
  | keys (idempotencyKeys : Table (String × String) RecordRow)
  | deliver (request : ℕ) (d : Gateway.Decision)
  | lose (request : ℕ)

namespace Sys

def init : Sys := ⟨.empty, []⟩

def claim (expired : Bool) (o : Orchestrator) (now : Time) (locked : UUID → Bool) (s : Sys) : Sys :=
  let query := if expired then claimExpired now else claimRunnable now
  let (claimed, db) := query o.cfg.sagaType o.cfg.workerID o.cfg.lease o.cfg.claimBatch locked
    s.world.db
  Pool.spawn (claimed.map fun inst => (⟨o, inst⟩, driveOne o inst))
    { s with world := { s.world with db } }

def step (s : Sys) : Action → Option Sys
  | .claim expired cfg now locked => some (s.claim expired (.new cfg) now locked)
  | .perform i ch => s.perform (fun worker => World.call worker.inst.id ch) i
  | .abandon i e => s.abandon (World.fault e) i
  | .crash i => some (s.crash i)
  | .start cfg now untilDeadline id p principalID key =>
    match Payout.start (.new cfg) now untilDeadline id p principalID key s.world.db with
    | .ok (_, db) => some { s with world := { s.world with db } }
    | .error _ => some s
  | .ledger op =>
    if hookless op then some { s with world := { s.world with db := op.apply s.world.db } } else none
  | .keys idempotencyKeys =>
    some { s with world := { s.world with db := { s.world.db with idempotencyKeys } } }
  | .deliver n d => (s.world.deliver n d).map fun world => { s with world }
  | .lose n => (s.world.lose n).map fun world => { s with world }

/-- A run of actions; `none` when one of them is not possible. -/
def run (s : Sys) (actions : List Action) : Option Sys := actions.foldlM step s

/-- Runs in which every action is allowed where it happens. -/
def Reach (allowed : Sys → Action → Prop) : Sys → Sys → Prop := ReachBy step allowed

end Sys

section Step
variable {s s' : Sys}

theorem step_start {cfg : Config} {now untilDeadline : Time} {id : NewUUID} {p : Payload}
    {principalID : String} {key : Option String}
    (h : s.step (.start cfg now untilDeadline id p principalID key) = some s') :
    s' = s ∨ ∃ inst db,
      start (.new cfg) now untilDeadline id p principalID key s.world.db = .ok (inst, db) ∧
        s' = { s with world := { s.world with db } } := by
  simp only [Sys.step] at h
  split at h
  · next inst db hstart => exact .inr ⟨inst, db, hstart, (Option.some.inj h).symm⟩
  · exact .inl (Option.some.inj h).symm

theorem step_ledger {op : Ledger.LedgerOp} (h : s.step (.ledger op) = some s') :
    hookless op ∧ s' = { s with world := { s.world with db := op.apply s.world.db } } := by
  simp only [Sys.step] at h
  split_ifs at h with hop
  exact ⟨hop, (Option.some.inj h).symm⟩

end Step

theorem reach_of_run {allowed : Sys → Action → Prop} {actions : List Action} {s s' : Sys}
    (h : s.run actions = some s') (ha : ∀ a ∈ actions, ∀ s, allowed s a) :
    Sys.Reach allowed s s' := reachBy_of_run h ha

theorem reach_mono {allowed allowed' : Sys → Action → Prop} {s s' : Sys}
    (h : Sys.Reach allowed s s') (hmono : ∀ s a, allowed s a → allowed' s a) :
    Sys.Reach allowed' s s' := ReachBy.mono h hmono

end LedgerCore.Payout
