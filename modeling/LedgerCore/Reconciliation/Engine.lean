import Mathlib.Data.Set.Card
import LedgerCore.Ledger.Search
import LedgerCore.Program.Answers
import LedgerCore.Projector.Consumer
import LedgerCore.Reconciliation.Match

/-! Reconciliation runs: a match, the classification of its records, and what is stored of it. -/
namespace LedgerCore.Reconciliation
open LedgerCore.Program

inductive Category where
  | missingInLedger
  | missingInPSP
  | amountMismatch
  | statusMismatch
  | timingDifference
  | duplicate
  deriving DecidableEq, Repr

def Category.all : List Category :=
  [.missingInLedger, .missingInPSP, .amountMismatch, .statusMismatch, .timingDifference, .duplicate]

inductive ExceptionStatus where
  | opened
  | autoResolved
  | resolved
  deriving DecidableEq, Repr

inductive RunStatus where
  | running
  | completed
  | failed
  deriving DecidableEq, Repr

/-- What a category says beyond the columns. -/
inductive Details where
  | none
  | pspRowCount (n : ℕ)
  | amounts (ledgerAmount pspAmount : String)
  | gap (d : Int64)
  deriving DecidableEq, Repr

/-- An exception as the classification leaves it, with no id yet. -/
structure Finding where
  externalRef : String
  category : Category
  status : ExceptionStatus
  ledgerTransactionID : Option UUID
  sagaID : Option UUID
  ledgerAmountMinor : Option Int64
  pspAmountMinor : Option Int64
  currency : String
  ledgerStatus : String
  pspStatus : String
  details : Details
  resolvedAt : Option Time
  deriving DecidableEq, Repr

structure Exception extends Finding where
  id : UUID
  runID : UUID
  createdAt : Time
  deriving DecidableEq, Repr

structure Run where
  id : UUID
  source : String
  startedAt : Time
  finishedAt : Option Time
  status : RunStatus
  pspRowCount : ℕ
  matchedCount : ℕ
  autoResolvedCount : ℕ
  exceptionCount : ℕ
  error : String
  byCategory : Category → ℕ

def statusesAgree (ledgerStatus pspStatus : String) : Bool :=
  match ledgerStatus with
  | "POSTED" => pspStatus = "SETTLED"
  | "REVERSED" => pspStatus = "REFUNDED" || pspStatus = "FAILED"
  | "PENDING" => pspStatus = "PENDING"
  | _ => false

/-- `t.Sub(u)`, for `t` in microseconds and `u` in nanoseconds: what does not fit is the nearest
duration that does. -/
def sub (t : Time) (u : ℤ) : Int64 :=
  let d := (t : ℤ) * 1000 - u
  if d < -2 ^ 63 then Int64.minValue
  else if 2 ^ 63 ≤ d then Int64.maxValue
  else Int64.ofInt d

/-- The distance between two instants. The least duration has no opposite and stays negative. -/
def gap (postedAt : Time) (settledAt : ℤ) : Int64 :=
  let d := sub postedAt settledAt
  if d < 0 then -d else d

/-- An open exception on the reference, with what each side says. -/
def MatchedRecord.finding (m : MatchedRecord) (category : Category) (details : Details) : Finding :=
  let currency := (m.ledger.map fun l => l.currency).getD ""
  { externalRef := m.externalRef, category, status := .opened
    ledgerTransactionID := m.ledger.map fun l => l.transactionID
    sagaID := m.saga.map fun s => s.sagaID
    ledgerAmountMinor := m.ledger.map fun l => l.amountMinor
    pspAmountMinor := m.psp.map fun p => p.amountMinor
    currency := if currency = "" then (m.psp.map fun p => p.currency).getD "" else currency
    ledgerStatus := (m.ledger.map fun l => l.status).getD ""
    pspStatus := (m.psp.map fun p => p.status).getD ""
    details, resolvedAt := none }

def amountText (amountMinor : Int64) (currency : String) : String := s!"{amountMinor} {currency}"

/-- What is wrong with a record; `none` is a clean match. -/
def classify (m : MatchedRecord) (timingWindow : Int64) (now : Time) : Option Finding :=
  match m.psp, m.ledger with
  | none, _ => some (m.finding .missingInPSP .none)
  | some p, ledger =>
    if 1 < p.rowCount then some (m.finding .duplicate (.pspRowCount p.rowCount))
    else match ledger with
      | none => some (m.finding .missingInLedger .none)
      | some l =>
        if l.amountMinor ≠ p.amountMinor ∨ l.currency ≠ p.currency then
          some (m.finding .amountMismatch
            (.amounts (amountText l.amountMinor l.currency) (amountText p.amountMinor p.currency)))
        else if !statusesAgree l.status p.status then some (m.finding .statusMismatch .none)
        else match l.postedAt with
          | none => none
          | some postedAt =>
            let d := gap postedAt p.settledAt
            if d = 0 then none
            else
              let exc := m.finding .timingDifference (.gap d)
              some (if d ≤ timingWindow then
                { exc with status := .autoResolved, resolvedAt := some now } else exc)

inductive Call where
  | newV7
  | now
  | createRun (run : Run)
  | matchRecords (psp : List PSPRecord) (since : Time)
  | saveExceptions (exceptions : List Exception)
  | finishRun (id : UUID) (status : RunStatus) (errMsg : String)
      (matched autoResolved exceptionCount : ℕ)

abbrev Reply : Call → Type
  | .newV7 => Except Error UUID
  | .now => Time
  | .createRun _ => Except Error Unit
  | .matchRecords _ _ => Except Error (List MatchedRecord)
  | .saveExceptions _ => Except Error Unit
  | .finishRun .. => Except Error Unit

def newV7 : Prog Reply Error (Except Error UUID) := Prog.perform Call.newV7

def currentTime : Prog Reply Error Time := Prog.perform Call.now

namespace Store

def createRun (run : Run) : Prog Reply Error (Except Error Unit) := Prog.perform (Call.createRun run)

def matchRecords (psp : List PSPRecord) (since : Time) :
    Prog Reply Error (Except Error (List MatchedRecord)) :=
  Prog.perform (Call.matchRecords psp since)

def saveExceptions (exceptions : List Exception) : Prog Reply Error (Except Error Unit) :=
  Prog.perform (Call.saveExceptions exceptions)

def finishRun (id : UUID) (status : RunStatus) (errMsg : String)
    (matched autoResolved exceptionCount : ℕ) : Prog Reply Error (Except Error Unit) :=
  Prog.perform (Call.finishRun id status errMsg matched autoResolved exceptionCount)

end Store

/-- Durations are in nanoseconds. -/
structure Engine where
  timingWindow : Int64
  lookback : Int64

def defaultTimingWindow : Int64 := 2 * 3600 * 1000000000

def defaultLookback : Int64 := 7 * 24 * 3600 * 1000000000

def newEngine (timingWindow lookback : Int64) : Engine where
  timingWindow := if timingWindow ≤ 0 then defaultTimingWindow else timingWindow
  lookback := if lookback ≤ 0 then defaultLookback else lookback

/-- The lookback instant, as the database takes it. -/
def Engine.since (e : Engine) (startedAt : Time) : Time :=
  (startedAt * 1000 - e.lookback.toInt.toNat) / 1000

/-- What the loop of a run adds up. -/
structure Tally where
  exceptions : List Exception
  matchedCount : ℕ
  autoResolved : ℕ

namespace Engine

/-- Records the run as failed. Whether that is recorded makes no difference to what it returns. -/
def fail {α : Type} (runID : UUID) (cause : Error) : Prog Reply Error α := do
  let _ ← Store.finishRun runID .failed cause.text 0 0 0
  .fail cause

def classifyAll (e : Engine) (runID : UUID) : List MatchedRecord → Tally → Prog Reply Error Tally
  | [], t => pure t
  | m :: ms, t => do
    let now ← currentTime
    match classify m e.timingWindow now with
    | none => classifyAll e runID ms { t with matchedCount := t.matchedCount + 1 }
    | some exc =>
      match ← newV7 with
      | .error err => fail runID (err.wrap "generate exception id")
      | .ok id =>
        let createdAt ← currentTime
        classifyAll e runID ms
          { t with
            exceptions := t.exceptions ++ [{ exc with id, runID, createdAt }]
            autoResolved := t.autoResolved + if exc.status = .autoResolved then 1 else 0 }

/-- Saves what the loop found and returns the completed run. -/
def finish (run : Run) (t : Tally) : Prog Reply Error Run := do
  match ← Store.saveExceptions t.exceptions with
  | .error err => fail run.id (err.wrap "save reconciliation exceptions")
  | .ok _ =>
    match ← Store.finishRun run.id .completed "" t.matchedCount t.autoResolved
      t.exceptions.length with
    | .error err => .fail (err.wrap "finish reconciliation run")
    | .ok _ =>
      let finishedAt ← currentTime
      pure { run with
        finishedAt := some finishedAt, status := .completed, matchedCount := t.matchedCount
        autoResolvedCount := t.autoResolved, exceptionCount := t.exceptions.length
        byCategory := fun c => t.exceptions.countP fun exc => exc.category = c }

def run (e : Engine) (source : String) (psp : List PSPRecord) : Prog Reply Error Run :=
  if psp = [] then .fail (.ofSentinel .emptyStatement)
  else do
    match ← newV7 with
    | .error err => .fail (err.wrap "generate reconciliation run id")
    | .ok id =>
      let startedAt ← currentTime
      let run : Run :=
        { id, source, startedAt, finishedAt := none, status := .running, pspRowCount := psp.length
          matchedCount := 0, autoResolvedCount := 0, exceptionCount := 0, error := ""
          byCategory := fun _ => 0 }
      match ← Store.createRun run with
      | .error err => .fail (err.wrap "create reconciliation run")
      | .ok _ =>
        match ← Store.matchRecords psp (e.since startedAt) with
        | .error err => fail id (err.wrap "three-way match")
        | .ok ms => do
          let t ← e.classifyAll id ms ⟨[], 0, 0⟩
          finish run t

end Engine

structure RunColumns where
  source : String
  startedAt : Time
  finishedAt : Option Time
  status : RunStatus
  pspRowCount : ℕ
  matchedCount : ℕ
  autoResolvedCount : ℕ
  exceptionCount : ℕ
  error : Option String
  deriving DecidableEq, Repr

structure RunRow extends RunColumns where
  finished_at_check : status = .running ↔ finishedAt = none
  deriving DecidableEq, Repr

def RunColumns.check (r : RunColumns) : Except PgError RunRow :=
  if h : r.status = .running ↔ r.finishedAt = none then .ok ⟨r, h⟩
  else .error (.check "reconciliation_runs" "reconciliation_runs_finished_at_check")

/-- A row of `reconciliation_exceptions`; its id is the key. -/
structure ExceptionRow extends Exception where
  resolved_at_check : status = .opened ↔ resolvedAt = none
  deriving DecidableEq, Repr

def Exception.check (exc : Exception) : Except PgError ExceptionRow :=
  if h : exc.status = .opened ↔ exc.resolvedAt = none then .ok ⟨exc, h⟩
  else .error (.check "reconciliation_exceptions" "reconciliation_exceptions_resolved_at_check")

/-- The tables that a run reads and writes. -/
structure Tables where
  db : DB
  runs : Table UUID RunRow
  exceptions : Table UUID ExceptionRow

namespace Repository

def createRun (run : Run) (s : Tables) : Except Error Tables :=
  (do
    let row ← RunColumns.check
      { source := run.source, startedAt := run.startedAt, finishedAt := none, status := run.status
        pspRowCount := run.pspRowCount, matchedCount := 0, autoResolvedCount := 0
        exceptionCount := 0, error := none }
    let runs ← unique "reconciliation_runs_pkey" (s.runs.insert? run.id row)
    pure { s with runs }).mapError fun e : PgError =>
      e.toError.wrap ("insert reconciliation run " ++ run.id.string)

def insertException (s : Tables) (exc : Exception) : Except PgError Tables := do
  let row ← exc.check
  let exceptions ← unique "reconciliation_exceptions_pkey" (s.exceptions.insert? exc.id row)
  failIf (s.runs.find? exc.runID = none)
    (.foreignKey "reconciliation_exceptions" "reconciliation_exceptions_run_id_fkey")
  pure { s with exceptions }

/-- The batch is one transaction. -/
def saveExceptions (exceptions : List Exception) (s : Tables) : Except Error Tables :=
  (exceptions.foldlM insertException s).mapError fun e =>
    e.toError.wrap "insert reconciliation exceptions"

def finishRun (now : Time) (id : UUID) (status : RunStatus) (errMsg : String)
    (matched autoResolved exceptionCount : ℕ) (s : Tables) : Except Error Tables :=
  match s.runs.find? id with
  | none => .ok s
  | some r =>
    (do
      let row ← RunColumns.check
        { r.toRunColumns with
          status, finishedAt := some now, error := nullIfEmpty errMsg
          matchedCount := matched, autoResolvedCount := autoResolved, exceptionCount }
      pure { s with runs := s.runs.modify id fun _ => row }).mapError fun e : PgError =>
        e.toError.wrap ("finish reconciliation run " ++ id.string)

end Repository

/-- What a run's calls meet, by their number. -/
structure Environment where
  now : ℕ → Time
  newV7 : ℕ → Except Error UUID
  database : ℕ → Projector.Fault
  collation : String → String → Bool

structure World extends Tables where
  calls : ℕ

namespace World

def tick (w : World) : World := { w with calls := w.calls + 1 }

/-- A call to the database, which may fail or lose its reply. -/
def query {α : Type} (env : Environment) (op : Tables → Except Error (α × Tables)) (w : World) :
    Except Error α × World :=
  let (reply, tables) := (env.database w.calls).meet (fun s =>
    match op s with
    | .ok (a, s') => (.ok a, s')
    | .error e => (.error e, s)) w.toTables
  (reply, ⟨tables, w.calls + 1⟩)

def answer (env : Environment) : Answers Reply World
  | .newV7, w => (env.newV7 w.calls, w.tick)
  | .now, w => (env.now w.calls, w.tick)
  | .createRun run, w => w.query env fun s => (Repository.createRun run s).map ((), ·)
  | .matchRecords psp since, w => w.query env fun s =>
      (Repository.matchRecords env.collation psp since s.db).map (·, s)
  | .saveExceptions exceptions, w => w.query env fun s =>
      (Repository.saveExceptions exceptions s).map ((), ·)
  | .finishRun id status errMsg matched autoResolved exceptionCount, w => w.query env fun s =>
      (Repository.finishRun (env.now w.calls) id status errMsg matched autoResolved exceptionCount
        s).map ((), ·)

end World

end LedgerCore.Reconciliation
