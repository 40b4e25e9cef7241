import LedgerCore.Ledger.Conflicts
import LedgerCore.Ledger.Isolation
import LedgerCore.Ledger.Balances

/-! Concurrent postings and reversals have a serial order. -/
namespace LedgerCore.Ledger
open LedgerCore.Program

theorem postingCall_side {c : TxCall} (h : SideCall c) : PostingCall c := by
  cases c with
  | insertAccount a => exact h.elim
  | _ => trivial

theorem postingCall_event {c : TxCall} (h : EventCall c) : PostingCall c := by
  cases c with
  | insertAccount a => exact h.elim
  | _ => trivial

theorem postingCall_store {c : TxCall} (h : StoreCall c) : PostingCall c := by
  cases c with
  | insertAccount a => exact h.elim
  | _ => trivial

theorem Posting.program_calls (op : Posting) : op.program.OnlyCalls PostingCall := by
  have hevents (d : Draws) (eventType : String) (header : Transaction)
      (balances : List EventBalance) (reverses : Option UUID) (reason : String) :=
    (appendTransactionEvent_events d eventType header balances reverses reason).mono
      fun _ => postingCall_event
  have hstores (d : Draws) (header : Transaction) (requests : List EntryRequest)
      (accounts : AccountMap) (ids : List UUID) :=
    (writeTransaction_stores d header requests accounts ids).mono fun _ => postingCall_store
  cases op with
  | post d txID req hooks =>
    refine (Prog.onlyCalls_ofExcept _).bind fun _ => (onlyCalls_routeToShards trivial).bind fun _ =>
      (onlyCalls_lockAndValidate trivial).bind fun accounts =>
      (hstores ..).bind fun written => (hevents ..).bind fun _ => Prog.OnlyCalls.bind ?_ fun _ =>
      ((completeIdempotency_sideCalls _ _).mono fun _ => postingCall_side).bind
      fun _ => Prog.onlyCalls_pure _
    rw [record_withKey]
    exact (hooks.sideCalls _).mono fun _ => postingCall_side
  | reverse d reversalID txID reason idem record hooks =>
    exact (Prog.onlyCalls_ofExcept _).bind fun _ => (Prog.onlyCalls_perform trivial).bind
      fun original => (Prog.onlyCalls_ofExcept _).bind fun _ =>
      (onlyCalls_lockAndValidate trivial).bind fun accounts =>
      (hstores ..).bind fun written => (Prog.onlyCalls_perform trivial).bind fun _ =>
      (hevents ..).bind fun _ =>
      ((hooks.sideCalls _).mono fun _ => postingCall_side).bind fun _ =>
      ((completeIdempotency_sideCalls _ _).mono fun _ => postingCall_side).bind
      fun _ => Prog.onlyCalls_pure _

/-- The outcomes of postings that run one after another, and the database after them. -/
def runPostings (db : DB) (ops : List Posting) : List (Except Error Transaction) × DB :=
  ops.foldl (fun done op =>
    match op.run done.2 with
    | .ok (t, db') => (done.1 ++ [.ok t], db')
    | .error e => (done.1 ++ [.error e], done.2)) ([], db)

theorem serial_eq_runPostings (db : DB) (ops : List Posting) :
    engine.serial db ops = runPostings db ops := by
  have hstep (done : List (Except Error Transaction) × DB) (op : Posting) :
      engine.serialStep done op =
        match op.run done.2 with
        | .ok (t, db') => (done.1 ++ [.ok t], db')
        | .error e => (done.1 ++ [.error e], done.2) := by
    rw [Engine.serialStep, transact_eq_run]
    rcases op.run done.2 with e | ⟨t, db'⟩ <;> rfl
  exact congrArg (fun f => ops.foldl f ([], db)) (funext fun done => funext (hstep done))

/-- The state that postings, begun, advanced and cancelled in some order, leave behind. -/
abbrev Interleaved := Engine.Sys TxReply Error Posting TxState DB Patch Lock Transaction

theorem interleaved_serializes {db : DB} {actions : List (Engine.Action Posting)} {s : Interleaved}
    (h : (Engine.Sys.init db : Interleaved).run engine actions = some s) :
    Engine.Serializes engine PostingCall Kept db s := by
  refine Engine.serializes engine_isolates (fun a _ => ?_) Engine.serializes_init h
  cases a with
  | begin i op => exact op.program_calls
  | _ => trivial

/-- What a call that fails keeps, and a call that commits carries on, holds after every
interleaving of calls. -/
theorem interleaved_induction {motive : List (Engine.Finished Error Posting Transaction) → DB → Prop}
    {db : DB} {actions : List (Engine.Action Posting)} {s : Interleaved}
    (h : (Engine.Sys.init db : Interleaved).run engine actions = some s) (nil : motive [] db)
    (fail : ∀ done db op e, motive done db → motive (done ++ [⟨op, .error e⟩]) db)
    (commit : ∀ done db db' op t, motive done db → op.run db = .ok (t, db') →
      motive (done ++ [⟨op, .ok t⟩]) db') : motive s.finished s.committed := by
  refine Engine.serial_induction nil (fun done db op e hdone _ => fail done db op e hdone) ?_
    (interleaved_serializes h).finished
  intro done db db' op t hdone hrun
  rw [transact_eq_run] at hrun
  exact commit done db db' op t hdone hrun

/-- However the statements of postings and reversals interleave, those that ended have the
outcomes, and the database the contents, of a run one after another in the order of their ends;
and no version ever conflicts. -/
theorem postings_serializable {db : DB} {actions : List (Engine.Action Posting)} {s : Interleaved}
    (h : (Engine.Sys.init db : Interleaved).run engine actions = some s) :
    runPostings db (s.finished.map fun f => f.kind) =
        (s.finished.map fun f => f.outcome, s.committed) ∧
      ∀ f ∈ s.finished, f.kind.Quiet → ∀ e, f.outcome = .error e →
        e.is .balanceVersionConflict = false := by
  have hserial := interleaved_serializes h
  refine ⟨(serial_eq_runPostings ..).symm.trans hserial.finished, fun f hf hquiet e he => ?_⟩
  obtain ⟨db', hdb⟩ := hserial.outcome hf
  rw [transact_eq_run, he] at hdb
  cases hrun : f.kind.run db' with
  | ok x =>
    rw [hrun] at hdb
    cases hdb
  | error e' =>
    rw [hrun] at hdb
    cases hdb
    exact raises_run hquiet db' e hrun

/-- Two payouts of 400 from a wallet that holds 500. -/
def samplePosting (n : ℕ) : Posting :=
  .post (sampleDraws n) (BitVec.ofNat 128 n)
    { principalID := "p", type := .payout, externalRef := none, metadata := []
      entries := [⟨2, .debit, ⟨400, "INR"⟩⟩, ⟨1, .credit, ⟨400, "INR"⟩⟩]
      idempotencyKey := none, idempotency := none, record := none } recording_none

/-- Both route; the first then locks, posts and commits, and the second finds the wallet short. -/
def sampleInterleaving : List (Engine.Action Posting) :=
  [.begin 0 (samplePosting 10), .begin 1 (samplePosting 11), .advance 0, .advance 1] ++
    List.replicate 9 (.advance 0) ++ List.replicate 4 (.advance 1)

def refused (x : Except Error Transaction) : Bool :=
  match x with
  | .ok _ => false
  | .error e => e.is .insufficientFunds

theorem postings_serializable_race :
    ∃ s, (Engine.Sys.init (runOps (sampleOps.take 3) DB.empty) : Interleaved).run engine
        sampleInterleaving = some s ∧
      (s.finished.map fun f => refused f.outcome) = [false, true] ∧
      runPostings (runOps (sampleOps.take 3) DB.empty) (s.finished.map fun f => f.kind) =
        (s.finished.map fun f => f.outcome, s.committed) := by
  have hsome : ((Engine.Sys.init (runOps (sampleOps.take 3) DB.empty) : Interleaved).run engine
      sampleInterleaving).any
        (fun s => (s.finished.map fun f => refused f.outcome) = [false, true]) = true := by
    decide +kernel
  obtain ⟨s, hrun, houtcomes⟩ := (Option.any_eq_true ..).1 hsome
  exact ⟨s, hrun, of_decide_eq_true houtcomes, (postings_serializable hrun).1⟩

end LedgerCore.Ledger
