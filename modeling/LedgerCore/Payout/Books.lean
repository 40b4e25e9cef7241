import LedgerCore.Consistency.Sweeps
import LedgerCore.Ledger.Books
import LedgerCore.Payout.References

/-! The ledger's books while sagas run: orchestrators, crashes and retries leave them in order. -/
namespace LedgerCore.Payout
open LedgerCore.Program LedgerCore.Saga

/-- A change that leaves balanced books balanced, and keeps what is in them. -/
structure Orderly (db db' : DB) : Prop where
  conserved : Ledger.Conserved db → Ledger.Conserved db'
  kept : Ledger.BooksKept db db'

variable {db db' : DB}

theorem Orderly.of_eq (ha : db'.accounts = db.accounts) (ht : db'.transactions = db.transactions)
    (hj : db'.journal = db.journal) : Orderly db db' := by
  refine ⟨fun hc => ?_, .of_eq ha ht hj⟩
  obtain ⟨accounts, transactions, journal, _, _, _, _⟩ := db
  obtain ⟨_, _, _, _, _, _, _⟩ := db'
  cases ha
  cases ht
  cases hj
  exact ⟨⟨⟨hc.agrees.referenced.headers, hc.agrees.referenced.accounts⟩, fun id r hr =>
    ⟨(hc.agrees.rows id r hr).available, (hc.agrees.rows id r hr).version,
      (hc.agrees.rows id r hr).lastEntry⟩⟩, hc.doubleEntries, hc.net⟩

theorem Orderly.of_unposted {w w' : World} (h : Unposted w w') : Orderly w.db w'.db :=
  .of_eq h.accounts h.transactions h.journal

theorem orderly_apply (op : Ledger.LedgerOp) (db : DB) : Orderly db (op.apply db) :=
  ⟨op.apply_conserved, op.apply_booksKept db⟩

theorem orderly_of_run (op : Ledger.LedgerOp) (h : op.run db = .ok db') : Orderly db db' := by
  have happly : op.apply db = db' := by rw [Ledger.LedgerOp.apply, h]
  exact happly ▸ orderly_apply op db

theorem call_orderly {R : Rules} {worker : Worker} {ch : Choice} {c : Call} {w w' : World}
    {r : Reply c} (hasks : Asks R.refund worker w.view c)
    (h : World.call worker.inst.id ch c w = some (r, w')) : Orderly w.db w'.db := by
  cases c with
  | postTransaction req =>
    obtain ⟨rfl, -⟩ | ⟨t, db', hpost, -, rfl⟩ := ledger_cases (Option.some.inj h)
    · exact .of_eq rfl rfl rfl
    · have hooks : Ledger.Recording req.record := by
        obtain ⟨-, attemptID, number, ev, ⟨-, rfl⟩ | ⟨-, rfl⟩⟩ := hasks <;>
          exact recordStep_recording
      exact orderly_of_run (.postTransaction _ _ req hooks) (map_eq_ok.2 ⟨_, hpost, rfl⟩)
  | reverseTransactionRecorded txID reason record =>
    obtain ⟨rfl, -⟩ | ⟨t, db', hpost, -, rfl⟩ := ledger_cases (Option.some.inj h)
    · exact .of_eq rfl rfl rfl
    · obtain ⟨-, -, -, attemptID, number, ev, rfl⟩ := hasks
      exact orderly_of_run (.reverseTransaction _ _ txID reason none _ recordStep_recording)
        (map_eq_ok.2 ⟨_, hpost, rfl⟩)
  | _ => exact .of_unposted (plain_unposted (R := R) h hasks)

theorem step_orderly {R : Rules} {s s' : Sys} {a : Action} (h : s.Kept (discipline R))
    (hstep : s.step a = some s') : Orderly s.world.db s'.world.db := by
  obtain ⟨i, ch, rfl⟩ | ⟨op, -, hworld⟩ | hunposted := step_unposted hstep
  · obtain ⟨worker, c, k, r, w, htask, hcall, rfl⟩ := Pool.perform_eq_some hstep
    exact call_orderly (h.asks (List.mem_of_getElem? htask)) hcall
  · rw [hworld]
    exact orderly_apply op _
  · exact .of_unposted hunposted

theorem reach_orderly {s s' : Sys} (hs : Sys.Reach (fun _ _ => True) .init s)
    (h : Sys.Reach (fun _ _ => True) s s') : Orderly s.world.db s'.world.db := by
  induction h with
  | refl => exact .of_eq rfl rfl rfl
  | tail hreach hstep ih =>
    obtain ⟨a, -, hstep⟩ := hstep
    have hkept := (reach_kept (reach_mono (hs.trans hreach) fun s a _ => allowed_anything s a)
      init_kept).1
    have hlast := step_orderly hkept hstep
    exact ⟨fun hc => hlast.conserved (ih.conserved hc), ih.kept.trans hlast.kept⟩

/-- Whatever orchestrators, the gateway and other callers do, the sweeps find nothing, and what
was in the books at some moment is in them at every later one. -/
theorem payouts_keep_books {s s' : Sys} (hs : Sys.Reach (fun _ _ => True) .init s)
    (h : Sys.Reach (fun _ _ => True) s s') (collation : String → String → Bool) :
    Consistency.Clean collation s.world.db ∧ Ledger.BooksKept s.world.db s'.world.db :=
  ⟨Consistency.clean_of_conserved ((reach_orderly .refl hs).conserved
    (Ledger.noEntries_empty.conserved rfl)) collation, (reach_orderly hs h).kept⟩

/-- A payout after its reserve, and once it is paid and settled. -/
theorem payouts_keep_books_completed :
    ∃ s s', Sys.init.run (sampleStart ++ drive 10 4) = some s ∧
      s.run (sampleRun.drop (sampleStart ++ drive 10 4).length) = some s' ∧
      s.world.db.transactions.keys.length = 2 ∧ s'.world.db.transactions.keys.length = 3 ∧
      Consistency.Clean (fun x y => x ≤ y) s.world.db ∧
      Ledger.BooksKept s.world.db s'.world.db := by
  have hrun : (Sys.init.run (sampleStart ++ drive 10 4)).any (fun s =>
      s.world.db.transactions.keys.length = 2 &&
        (s.run (sampleRun.drop (sampleStart ++ drive 10 4).length)).any fun s' =>
          s'.world.db.transactions.keys.length = 3) = true := by
    decide +kernel
  obtain ⟨s, s', hs, hs', hlength, hlength'⟩ := two_runs hrun
  exact ⟨s, s', hs, hs', hlength, hlength',
    payouts_keep_books (reach_of_run hs fun _ _ _ => trivial)
      (reach_of_run hs' fun _ _ _ => trivial) _⟩

end LedgerCore.Payout
