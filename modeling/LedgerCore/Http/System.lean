import Mathlib.Logic.Relation
import LedgerCore.Program.Pool
import LedgerCore.Http.Handlers
import LedgerCore.Ledger.Keys

/-! Requests to any number of API processes, in any order, over one database. -/
namespace LedgerCore.Http
open LedgerCore.Program LedgerCore.Idempotency

structure Worker where
  process : Process
  request : Request

structure Commit where
  worker : Worker
  transaction : Ledger.Transaction

structure Sent where
  request : Request
  response : Response

/-- The database, every record that was ever put in a cache, and every response sent. The log of
the committed transactions is kept for the statements about them; no call reads it. -/
structure World where
  db : DB
  cached : List (String × Record)
  committed : List Commit
  sent : List Sent

/-- What a call draws: `now()` and ids for the database, a transaction's id, the process's clock,
and which record the cache has, if any. -/
structure Choice where
  draws : Ledger.Draws
  uuid : UUID
  clock : Time
  hit : Option ℕ

namespace World

def empty : World := ⟨.empty, [], [], []⟩

def write {α : Type} (w : World) : Except Error (α × DB) → Except Error α × World
  | .ok (a, db) => (.ok a, { w with db })
  | .error e => (.error e, w)

/-- A ledger transaction, committed or rolled back. -/
def ledger (w : World) (worker : Worker) :
    Except Error (Ledger.Transaction × DB) → Except Error Ledger.Transaction × World
  | .ok (t, db) => (.ok t, { w with db, committed := w.committed ++ [⟨worker, t⟩] })
  | .error e => (.error e, w)

/-- A cache returns nothing, or any record that was put under the key. -/
def cacheGet (w : World) (key : String) (hit : Option ℕ) : Option Record :=
  (hit.bind fun i => w.cached[i]?).bind fun (k, record) => if k = key then some record else none

def call (worker : Worker) (ch : Choice) : (c : Call) → World → Reply c × World
  | .cacheGet key, w => (w.cacheGet key ch.hit, w)
  | .cachePut key record, w => ((), { w with cached := w.cached ++ [(key, record)] })
  | .now, w => (ch.clock, w)
  | .reserve r, w => w.write (Idempotency.reserve ch.draws.now r w.db)
  | .lookup principalID key, w => (.ok (Idempotency.lookup principalID key w.db), w)
  | .reclaim principalID key lease, w =>
    w.write (.ok (Idempotency.reclaim ch.draws.now principalID key lease w.db))
  | .fail principalID key status body, w =>
    w.write ((Idempotency.fail principalID key status body w.db).map fun db => ((), db))
  | .release principalID key, w =>
    w.write (.ok ((), Idempotency.release principalID key w.db))
  | .postTransaction req, w =>
    w.ledger worker (Ledger.postTransaction ch.draws ch.uuid req w.db)
  | .reverseTransactionIdempotent txID reason idem, w =>
    w.ledger worker (Ledger.doReverse ch.draws ch.uuid txID reason (some idem) none w.db)
  | .respond response, w => ((), { w with sent := w.sent ++ [⟨worker.request, response⟩] })

/-- The reply to a call whose caller stops waiting: any error, and a miss from the cache. -/
def fault (e : Error) : (c : Call) → Option (Reply c)
  | .cacheGet _ => some none
  | .cachePut _ _ => some ()
  | .now => none
  | .reserve _ => some (.error e)
  | .lookup _ _ => some (.error e)
  | .reclaim _ _ _ => some (.error e)
  | .fail _ _ _ _ => some (.error e)
  | .release _ _ => some (.error e)
  | .postTransaction _ => some (.error e)
  | .reverseTransactionIdempotent _ _ _ => some (.error e)
  | .respond _ => none

end World

abbrev Sys := Pool Reply Empty World Worker

inductive Action where
  | accept (process : Process) (request : Request)
  | perform (task : ℕ) (ch : Choice)
  /-- The caller stops waiting; what it asked for may still be done, or not. -/
  | abandon (task : ℕ) (e : Error)
  | crash (task : ℕ)
  | sweep (now : Time) (batch : ℕ) (locked : String × String → Bool)
  /-- Everybody else's calls of the ledger, sagas included. -/
  | ledger (op : Ledger.LedgerOp) (keyless : Ledger.Keyless op)
  | sagas (sagaInstances : Table UUID SagaRow) (sagaSteps : Table UUID StepRow)

namespace Sys

def init : Sys := ⟨.empty, []⟩

def step (s : Sys) : Action → Option Sys
  | .accept process request => some (s.spawn [(⟨process, request⟩, serve process request)])
  | .perform i ch => s.perform (fun worker c w => some (World.call worker ch c w)) i
  | .abandon i e => s.abandon (World.fault e) i
  | .crash i => some (s.crash i)
  | .sweep now batch locked =>
    some { s with world := { s.world with db := Idempotency.sweep now batch locked s.world.db } }
  | .ledger op _ => some { s with world := { s.world with db := op.apply s.world.db } }
  | .sagas sagaInstances sagaSteps =>
    some { s with world := { s.world with db := { s.world.db with sagaInstances, sagaSteps } } }

def run (s : Sys) (actions : List Action) : Option Sys := actions.foldlM step s

def Reach : Sys → Sys → Prop := Relation.ReflTransGen fun s s' => ∃ a, s.step a = some s'

end Sys

end LedgerCore.Http
