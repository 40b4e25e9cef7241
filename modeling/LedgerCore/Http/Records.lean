import LedgerCore.Http.Idempotence
import LedgerCore.Program.Runs

/-! What the steps of the system can do to the records of the keys. -/
namespace LedgerCore.Http
open LedgerCore.Program LedgerCore.Idempotency

/-- What a call that is carried out does to the records, and to the transactions. -/
inductive CallMoves (ch : Choice) (db : DB) : Call → DB → Prop where
  | keeps {c : Call} : CallMoves ch db c db
  | reserves {r : Reservation} {row : RecordRow}
      {idempotencyKeys : Table (String × String) RecordRow}
      (columns : row.toRecordColumns = reservedColumns ch.draws.now r)
      (insert : db.idempotencyKeys.insert? (r.principalID, r.key) row = some idempotencyKeys) :
      CallMoves ch db (.reserve r) { db with idempotencyKeys }
  | reclaims {principalID key : String} {lease : ℕ} {row : RecordRow}
      (found : db.idempotencyKeys.find? (principalID, key) = some row)
      (status : row.status = .inProgress) (stale : row.leaseExpiresAt ≤ ch.draws.now) :
      CallMoves ch db (.reclaim principalID key lease) { db with
        idempotencyKeys := db.idempotencyKeys.modify (principalID, key)
          (renewedRow ch.draws.now lease) }
  | fails {principalID key : String} {status : ℕ} {body : Bytes} {transactionID : Option UUID} :
      CallMoves ch db (.fail principalID key status body) { db with
        idempotencyKeys := db.idempotencyKeys.modify (principalID, key)
          (settledRow .failed status body transactionID) }
  | releases {principalID key : String} :
      CallMoves ch db (.release principalID key) (release principalID key db)
  | commits {c : Call} {db' : DB} {i : Ledger.Idempotent} {t : Ledger.Transaction}
      (keyed : Ledger.Keyed db db' i t) : CallMoves ch db c db'

/-- What a step does to the records, and to the transactions. -/
inductive Moves (s : Sys) : Action → DB → Prop where
  | keeps {a : Action} {db : DB} (idempotencyKeys : db.idempotencyKeys = s.world.db.idempotencyKeys)
      (transactions : db.transactions = s.world.db.transactions) : Moves s a db
  | calls {i : ℕ} {ch : Choice} {worker : Worker} {c : Call} {k : Reply c → HttpM Unit} {db : DB}
      (task : s.tasks[i]? = some (worker, .call c k)) (moves : CallMoves ch s.world.db c db) :
      Moves s (.perform i ch) db
  | sweeps {now : Time} {batch : ℕ} {locked : String × String → Bool} :
      Moves s (.sweep now batch locked) (sweep now batch locked s.world.db)
  | commits {op : Ledger.LedgerOp} {hop : Ledger.Keyless op} {t : Ledger.Transaction} {db : DB}
      (committed : Ledger.Committed s.world.db db t)
      (key : t.idempotencyKey = op.idempotencyKey)
      (idempotencyKeys : db.idempotencyKeys = s.world.db.idempotencyKeys) :
      Moves s (.ledger op hop) db

section Calls
variable {accepted : Worker → Prop} {w w' : World} {worker : Worker} {ch : Choice} {c : Call}

theorem write_moves {α : Type} {x : Except Error (α × DB)} {r : Except Error α}
    (h : w.write x = (r, w')) (hx : ∀ a db, x = .ok (a, db) → CallMoves ch w.db c db) :
    CallMoves ch w.db c w'.db := by
  cases x with
  | error e =>
    cases h
    exact .keeps
  | ok y =>
    cases h
    exact hx y.1 y.2 rfl

theorem ledger_moves {x : Except Error (Ledger.Transaction × DB)}
    {r : Except Error Ledger.Transaction} {i : Ledger.Idempotent}
    (h : w.ledger worker x = (r, w')) (hx : ∀ t db, x = .ok (t, db) → Ledger.Keyed w.db db i t) :
    CallMoves ch w.db c w'.db := by
  cases x with
  | error e =>
    cases h
    exact .keeps
  | ok y =>
    cases h
    exact .commits (hx y.1 y.2 rfl)

theorem call_moves {r : Reply c} (hasks : Asks accepted worker w c)
    (h : World.call worker ch c w = (r, w')) : CallMoves ch w.db c w'.db := by
  cases c with
  | reserve r₀ =>
    refine write_moves h fun won db hdb => ?_
    obtain ⟨-, rfl⟩ | ⟨-, row, keys, hrow, hinsert, rfl⟩ := reserve_cases hdb
    · exact .keeps
    · exact .reserves hrow hinsert
  | reclaim principalID key lease =>
    have hcall : w.write (.ok (reclaim ch.draws.now principalID key lease w.db)) = (r, w') := h
    refine write_moves hcall fun won db hdb => ?_
    obtain ⟨-, rfl⟩ | ⟨-, row, hrow, hstatus, hstale, rfl⟩ := reclaim_cases (Except.ok.inj hdb)
    · exact .keeps
    · exact .reclaims hrow hstatus hstale
  | fail principalID key status body =>
    refine write_moves h fun _ db hdb => ?_
    obtain ⟨db₁, hfail, he⟩ := map_eq_ok.1 hdb
    cases he
    obtain ⟨transactionID, rfl⟩ := fail_eq_ok hfail
    exact .fails
  | release principalID key =>
    cases h
    exact .releases
  | postTransaction req =>
    obtain ⟨-, hook, hp, u, -, hidem⟩ := hasks
    exact ledger_moves h fun t db hdb => Ledger.postTransaction_keyed hidem hp hook hdb
  | reverseTransactionIdempotent txID reason idem =>
    exact ledger_moves h fun t db hdb => Ledger.doReverse_keyed hdb
  | _ =>
    cases h
    exact .keeps

end Calls

variable {accepted : Worker → Prop} {s s' : Sys} {a : Action}

theorem step_moves (h : s.Kept (discipline accepted)) (hstep : s.step a = some s') :
    Moves s a s'.world.db := by
  cases a with
  | perform i ch =>
    have hperform : s.perform (fun worker c w => some (World.call worker ch c w)) i = some s' :=
      hstep
    obtain ⟨worker, c, k, r, w, htask, hcall, rfl⟩ := Pool.perform_eq_some hperform
    exact .calls htask (call_moves (h.asks (List.mem_of_getElem? htask)) (Option.some.inj hcall))
  | abandon i e =>
    obtain ⟨worker, c, k, r, -, -, rfl⟩ := Pool.abandon_eq_some hstep
    exact .keeps rfl rfl
  | sweep now batch locked =>
    cases hstep
    exact .sweeps
  | ledger op hop =>
    cases hstep
    change Moves s _ (op.apply s.world.db)
    unfold Ledger.LedgerOp.apply
    split
    · next db hrun =>
      obtain hopened | ⟨t, hcommitted, hkey⟩ := hop.run_cases hrun
      · exact .keeps hopened.idempotencyKeys hopened.transactions
      · exact .commits hcommitted hkey (hop.idempotencyKeys hrun)
    · exact .keeps rfl rfl
  | _ =>
    cases hstep
    exact .keeps rfl rfl

/-- Runs in which every action is allowed where it happens. -/
abbrev Sys.ReachBy (allowed : Sys → Action → Prop) : Sys → Sys → Prop :=
  Program.ReachBy Sys.step allowed

theorem any_accepts (a : Action) : Accepts (fun _ => True) a := by cases a <;> trivial

end LedgerCore.Http
