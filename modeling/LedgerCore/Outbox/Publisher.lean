import Mathlib.Data.List.Sort
import Mathlib.Logic.Function.Basic
import LedgerCore.Outbox.Writer
import LedgerCore.Program.Basic

/-! The polling publisher: any number of replicas that claim rows of the outbox, produce them to
Kafka and mark them, each batch in one database transaction. -/
namespace LedgerCore.Outbox
open LedgerCore.Program

/-- The wire shape of an event: what `Append` stores as the payload of its row. -/
structure Envelope where
  eventID : UUID
  eventType : String
  eventVersion : ℕ
  aggregateID : String
  occurredAt : Time
  traceID : String
  payload : EventPayload
  deriving DecidableEq, Repr

def envelope (eventID : UUID) (traceID : String) (e : Event) : Envelope :=
  ⟨eventID, e.eventType, e.eventVersion, e.aggregateID, e.occurredAt, traceID, e.payload⟩

structure OutboxRow where
  aggregateType : String
  aggregateID : String
  payload : Envelope
  traceParent : Option String
  publishedAt : Option Time
  deriving DecidableEq, Repr

/-- The row that `Append` inserts, with what its context says of the trace. -/
def appendedRow (eventID : UUID) (traceID traceParent : String) (e : Event) : OutboxRow where
  aggregateType := e.aggregateType
  aggregateID := e.aggregateID
  payload := envelope eventID traceID e
  traceParent := nullIfEmpty traceParent
  publishedAt := none

/-- What one claimed row needs to be produced. -/
structure Row where
  id : ℕ
  aggregateType : String
  aggregateID : String
  payload : Envelope
  traceParent : String
  deriving DecidableEq, Repr

def scanRow (id : ℕ) (r : OutboxRow) : Row :=
  ⟨id, r.aggregateType, r.aggregateID, r.payload, r.traceParent.getD ""⟩

structure Record where
  topic : String
  key : String
  value : Envelope
  headers : List (String × String)
  deriving DecidableEq, Repr

def topicForAggregate (aggregateType : String) : String := "ledger.events." ++ aggregateType

def Row.record (r : Row) : Record where
  topic := topicForAggregate r.aggregateType
  key := r.aggregateID
  value := r.payload
  headers := if r.traceParent = "" then [] else [("traceparent", r.traceParent)]

inductive Call where
  | begin
  | claim (limit : ℕ)
  | produceSync (records : List Record)
  | markPublished (ids : List ℕ)
  | commit

@[reducible] def Reply : Call → Type
  | .begin => Except Error Unit
  | .claim _ => Except Error (List Row)
  | .produceSync _ => Except Error Unit
  | .markPublished _ => Except Error Unit
  | .commit => Except Error Unit

abbrev PublishM := Prog Reply Error

def commitBatch (claimed : List Row) : PublishM ℕ := do
  let committed ← .perform Call.commit
  .ofExcept (committed.mapError (Error.wrap "commit outbox publish batch"))
  pure claimed.length

def markBatch (claimed : List Row) : PublishM ℕ := do
  let ids := claimed.map fun r => r.id
  let marked ← .perform (Call.markPublished ids)
  .ofExcept (marked.mapError (Error.wrap s!"mark {ids.length} outbox rows published"))
  commitBatch claimed

/-- Rows are marked once Kafka has acknowledged all of them. -/
def produceBatch (claimed : List Row) : PublishM ℕ := do
  let records := claimed.map Row.record
  let produced ← .perform (Call.produceSync records)
  .ofExcept (produced.mapError (Error.wrap s!"produce batch of {records.length}"))
  markBatch claimed

def claimBatch (batchSize : ℕ) : PublishM ℕ := do
  let claimed ← .perform (Call.claim batchSize)
  let claimed ← .ofExcept (claimed.mapError (Error.wrap "claim outbox batch"))
  if claimed = [] then pure 0 else produceBatch claimed

def publishBatch (batchSize : ℕ) : PublishM ℕ := do
  let began ← .perform Call.begin
  .ofExcept (began.mapError (Error.wrap "begin outbox publish transaction"))
  claimBatch batchSize

/-- A batch under way: what is left of it, the rows it holds locked, and its uncommitted marks. -/
structure Session where
  rest : PublishM ℕ
  claimed : List Row
  marks : List (ℕ × Time)

/-- The settings of the replicas, and the partition that Kafka's client picks for a topic's key. -/
structure Setup where
  batchSize : ℕ
  partition : String → String → ℕ

/-- The committed outbox, the batches under way, the batch that holds each row, and Kafka's
partitions. What Kafka acknowledged is kept for the statements about it; no step reads it. -/
structure Publishers where
  outbox : Table ℕ OutboxRow
  sessions : ℕ → Option Session
  holder : ℕ → Option ℕ
  log : String → ℕ → List Record
  acknowledged : List Record

/-- What becomes of a call that is not answered, or answered with an error: how many of a
partition's records Kafka took, and whether a commit was carried out. -/
structure Fault where
  taken : String → ℕ → ℕ
  committed : Bool

inductive Action where
  /-- A transaction that has appended the event commits. -/
  | insert (id : ℕ) (eventID : UUID) (traceID traceParent : String) (e : Event)
    (appended : ∃ db db', append eventID e db = .ok db')
  | start (i : ℕ)
  | perform (i : ℕ) (now : Time)
  | refuse (i : ℕ) (e : Error) (fault : Fault)
  /-- The batch has returned, and its deferred rollback runs. -/
  | finish (i : ℕ)
  | crash (i : ℕ) (fault : Fault)

namespace Publishers

def init : Publishers := ⟨.empty, fun _ => none, fun _ => none, fun _ _ => [], []⟩

def claimable (s : Publishers) : List (ℕ × OutboxRow) :=
  s.outbox.rows.filter fun r => r.2.publishedAt = none ∧ s.holder r.1 = none

/-- `ORDER BY id FOR UPDATE SKIP LOCKED LIMIT`. -/
def claim (s : Publishers) (limit : ℕ) : List Row :=
  ((s.claimable.insertionSort fun a b => a.1 ≤ b.1).take limit).map fun r => scanRow r.1 r.2

/-- The records of one partition among those produced, in their order. -/
def routed (P : Setup) (records : List Record) (topic : String) (p : ℕ) : List Record :=
  records.filter fun r => r.topic = topic ∧ P.partition topic r.key = p

def append (P : Setup) (s : Publishers) (records : List Record) (taken : String → ℕ → ℕ) : Publishers :=
  { s with log := fun topic p => s.log topic p ++ (routed P records topic p).take (taken topic p) }

def mark (marks : List (ℕ × Time)) (outbox : Table ℕ OutboxRow) : Table ℕ OutboxRow :=
  marks.foldl (fun t m => t.modify m.1 fun r => { r with publishedAt := some m.2 }) outbox

def set (s : Publishers) (i : ℕ) (x : Session) : Publishers :=
  { s with sessions := Function.update s.sessions i (some x) }

def unlock (s : Publishers) (i : ℕ) : Publishers :=
  { s with holder := fun id => (s.holder id).filter fun j => j ≠ i }

/-- The batch is gone, with what it had not committed. -/
def close (s : Publishers) (i : ℕ) : Publishers :=
  { s.unlock i with sessions := Function.update s.sessions i none }

/-- A call that succeeds, and the batch after it. -/
def call (P : Setup) (s : Publishers) (i : ℕ) (x : Session) (now : Time) :
    (c : Call) → (Reply c → PublishM ℕ) → Publishers
  | .begin, k => s.set i { x with rest := k (.ok ()) }
  | .claim limit, k =>
    let claimed := s.claim limit
    { s.set i { x with rest := k (.ok claimed), claimed } with
      holder := fun id => if id ∈ claimed.map (fun r => r.id) then some i else s.holder id }
  | .produceSync records, k =>
    { (s.append P records fun _ _ => records.length).set i { x with rest := k (.ok ()) } with
      acknowledged := s.acknowledged ++ records }
  | .markPublished ids, k =>
    s.set i { x with rest := k (.ok ()), marks := ids.map fun id => (id, now) }
  | .commit, k =>
    { (s.unlock i).set i { rest := k (.ok ()), claimed := [], marks := [] } with
      outbox := mark x.marks s.outbox }

/-- What a call that fails has done all the same. -/
def partly (P : Setup) (s : Publishers) (i : ℕ) (x : Session) (fault : Fault) : Call → Publishers
  | .produceSync records => s.append P records fault.taken
  | .commit => if fault.committed then { s.unlock i with outbox := mark x.marks s.outbox } else s
  | _ => s

def failed (e : Error) : (c : Call) → Reply c
  | .begin => .error e
  | .claim _ => .error e
  | .produceSync _ => .error e
  | .markPublished _ => .error e
  | .commit => .error e

def step (P : Setup) (s : Publishers) : Action → Option Publishers
  | .insert id eventID traceID traceParent e _ =>
    (s.outbox.insert? id (appendedRow eventID traceID traceParent e)).map fun outbox =>
      { s with outbox }
  | .start i =>
    if (s.sessions i).isNone then some (s.set i ⟨publishBatch P.batchSize, [], []⟩) else none
  | .perform i now => (s.sessions i).bind fun x =>
    match x.rest with
    | .call c k => some (s.call P i x now c k)
    | _ => none
  | .refuse i e fault => (s.sessions i).bind fun x =>
    match x.rest with
    | .call c k => some ((s.partly P i x fault c).set i { x with rest := k (failed e c) })
    | _ => none
  | .finish i => (s.sessions i).bind fun x =>
    match x.rest with
    | .call _ _ => none
    | _ => some (s.close i)
  | .crash i fault => (s.sessions i).bind fun x =>
    match x.rest with
    | .call c _ => some ((s.partly P i x fault c).close i)
    | _ => some (s.close i)

def run (P : Setup) (s : Publishers) (actions : List Action) : Option Publishers :=
  actions.foldlM (step P) s

end Publishers

end LedgerCore.Outbox
