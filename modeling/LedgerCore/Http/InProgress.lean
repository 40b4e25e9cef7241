import LedgerCore.Http.Records

/-! A key in progress, and the transactions that carry it. -/
namespace LedgerCore.Http
open LedgerCore.Program LedgerCore.Idempotency

variable {db db' : DB}

def carriers (principalID key : String) (db : DB) : List (UUID × TransactionRow) :=
  db.transactions.rows.filter fun x =>
    x.2.principalID = principalID && x.2.idempotencyKey = some key

theorem mem_carriers {principalID key : String} {id : UUID} {r : TransactionRow} :
    (id, r) ∈ carriers principalID key db ↔ db.transactions.find? id = some r ∧
      r.principalID = principalID ∧ r.idempotencyKey = some key := by
  rw [carriers, List.mem_filter, Table.find?_eq_some, Bool.and_eq_true, decide_eq_true_eq,
    decide_eq_true_eq]

/-- No transaction was committed under a key that is in progress. -/
def Unposted (db : DB) : Prop :=
  ∀ principalID key row, db.idempotencyKeys.find? (principalID, key) = some row →
    row.status = .inProgress → carriers principalID key db = []

/-- No reservation is made for a key whose record is gone while its transaction is there, and the
other callers of the ledger use no UUID as a key. -/
def ReservesUnposted (s : Sys) : Action → Prop
  | .perform i _ =>
    match s.tasks[i]? with
    | some (_, .call (.reserve r) _) =>
      s.world.db.idempotencyKeys.find? (r.principalID, r.key) = none →
        carriers r.principalID r.key s.world.db = []
    | _ => True
  | .ledger op _ => ∀ u : UUID, op.idempotencyKey ≠ some u.string
  | _ => True

theorem carriers_congr (h : db'.transactions = db.transactions) (principalID key : String) :
    carriers principalID key db' = carriers principalID key db := by
  rw [carriers, h, carriers]

theorem Unposted.of_rows (h : Unposted db) (htransactions : db'.transactions = db.transactions)
    (hrows : ∀ k row', db'.idempotencyKeys.find? k = some row' → row'.status = .inProgress →
      ∃ row, db.idempotencyKeys.find? k = some row ∧ row.status = .inProgress) : Unposted db' := by
  intro principalID key row' hrow' hstatus'
  obtain ⟨row, hrow, hstatus⟩ := hrows _ row' hrow' hstatus'
  rw [carriers_congr htransactions]
  exact h principalID key row hrow hstatus

theorem Unposted.filter (h : Unposted db) (p : String × String → RecordRow → Bool) :
    Unposted { db with idempotencyKeys := db.idempotencyKeys.filter p } := by
  refine h.of_rows rfl fun k row hrow hstatus => ⟨row, ?_, hstatus⟩
  rw [Table.find?_filter] at hrow
  exact Option.eq_some_of_filter_eq_some hrow

theorem Unposted.modify (h : Unposted db) (k : String × String) {f : RecordRow → RecordRow}
    (hf : ∀ r, (f r).status = .inProgress → r.status = .inProgress) :
    Unposted { db with idempotencyKeys := db.idempotencyKeys.modify k f } := by
  refine h.of_rows rfl fun k' row' hrow' hstatus' => ?_
  rw [Table.find?_modify] at hrow'
  split_ifs at hrow'
  · obtain ⟨row, hrow, rfl⟩ := Option.map_eq_some_iff.1 hrow'
    exact ⟨row, hrow, hf row hstatus'⟩
  · exact ⟨row', hrow', hstatus'⟩

theorem Unposted.insert (h : Unposted db) {principalID key : String} {row : RecordRow}
    {idempotencyKeys : Table (String × String) RecordRow}
    (hinsert : db.idempotencyKeys.insert? (principalID, key) row = some idempotencyKeys)
    (hfree : carriers principalID key db = []) : Unposted { db with idempotencyKeys } := by
  intro principalID' key' row' hrow' hstatus
  rw [Table.find?_insert hinsert] at hrow'
  split_ifs at hrow' with hk
  · cases hk
    exact hfree
  · exact h principalID' key' row' hrow' hstatus

theorem Committed.carriers_eq_nil {t : Ledger.Transaction} (hc : Ledger.Committed db db' t)
    {principalID key : String} (h : carriers principalID key db = [])
    (hne : ¬(t.principalID = principalID ∧ t.idempotencyKey = some key)) :
    carriers principalID key db' = [] := by
  refine List.eq_nil_iff_forall_not_mem.2 fun ⟨id, r⟩ hmem => ?_
  obtain ⟨hr, hp, hk⟩ := mem_carriers.1 hmem
  by_cases hid : id = t.id
  · obtain ⟨rt, hrt, hof⟩ := hc.header
    obtain rfl : r = rt := Option.some.inj ((hid ▸ hr).symm.trans hrt)
    exact hne ⟨hof.key.1.symm.trans hp, hof.key.2.symm.trans hk⟩
  · obtain ⟨r₀, hr₀, hkept⟩ := hc.header_old hid hr
    have hold := mem_carriers.2 ⟨hr₀, hkept.key.1.symm.trans hp, hkept.key.2.symm.trans hk⟩
    rw [h] at hold
    cases hold

theorem Unposted.keyed (h : Unposted db) {i : Ledger.Idempotent} {t : Ledger.Transaction}
    (hkeyed : Ledger.Keyed db db' i t) : Unposted db' := by
  intro principalID key row hrow hstatus
  obtain ⟨render, status, body, r, -, -, hr, -, hkeys⟩ := hkeyed.record
  rw [hkeys, Table.find?_modify] at hrow
  split_ifs at hrow with hk
  · obtain ⟨r', -, rfl⟩ := Option.map_eq_some_iff.1 hrow
    cases hstatus
  · refine Committed.carriers_eq_nil hkeyed.committed (h principalID key row hrow hstatus) ?_
    rintro ⟨hp, hkey⟩
    have : i.key = key := Option.some.inj (hkeyed.key.symm.trans hkey)
    exact hk (Prod.ext (hp.symm.trans hkeyed.principalID) this.symm)

theorem Unposted.call {ch : Choice} {c : Call} (h : Unposted db) (hmoves : CallMoves ch db c db')
    (hfresh : ∀ r, c = .reserve r → db.idempotencyKeys.find? (r.principalID, r.key) = none →
      carriers r.principalID r.key db = []) : Unposted db' := by
  cases hmoves with
  | keeps => exact h
  | reserves columns insert => exact h.insert insert (hfresh _ rfl (Table.insert?_eq_some.1 insert).1)
  | reclaims found status stale => exact h.modify _ fun r hr => hr
  | fails => exact h.modify _ fun r hr => nomatch hr
  | releases => exact h.filter _
  | commits keyed => exact h.keyed keyed

theorem Unposted.moves {s : Sys} {a : Action} (h : Unposted s.world.db)
    (hkept : s.Kept (discipline fun _ => True)) (ha : ReservesUnposted s a) (hmoves : Moves s a db') :
    Unposted db' := by
  cases hmoves with
  | keeps idempotencyKeys transactions =>
    refine h.of_rows transactions fun k row hrow hstatus => ⟨row, ?_, hstatus⟩
    rwa [← idempotencyKeys]
  | calls task moves =>
    refine h.call moves ?_
    rintro r rfl
    simpa only [ReservesUnposted, task] using ha
  | sweeps =>
    refine h.of_rows rfl fun k row hrow hstatus => ⟨row, ?_, hstatus⟩
    rw [sweep, Table.find?_filter] at hrow
    exact Option.eq_some_of_filter_eq_some hrow
  | commits committed key idempotencyKeys =>
    intro principalID k row hrow hstatus
    rw [idempotencyKeys] at hrow
    refine Committed.carriers_eq_nil committed (h principalID k row hrow hstatus) ?_
    rintro ⟨-, hk⟩
    obtain ⟨u, hu⟩ := (hkept.valid.rows principalID k row hrow).key
    exact ha u (key.symm.trans (hk.trans (congrArg some hu)))

/-- As long as no key is sent again whose record was swept and whose transaction was committed, a
record in progress is proof that no transaction was committed under its key. -/
theorem in_progress_unposted {s : Sys} (h : Sys.ReachBy ReservesUnposted .init s)
    {principalID key : String} {row : RecordRow}
    (hrow : s.world.db.idempotencyKeys.find? (principalID, key) = some row)
    (hstatus : row.status = .inProgress) {id : UUID} {r : TransactionRow}
    (hr : s.world.db.transactions.find? id = some r) :
    ¬(r.principalID = principalID ∧ r.idempotencyKey = some key) := by
  have hinv : Unposted s.world.db ∧ s.Kept (discipline fun _ => True) := by
    refine h.keeps (I := fun s => Unposted s.world.db ∧ s.Kept (discipline fun _ => True))
      ⟨fun _ _ _ h => (nomatch h), init_kept⟩ fun s s' a hs ha hstep => ?_
    exact ⟨hs.1.moves hs.2 ha (step_moves hs.2 hstep), (step_kept hs.2 (any_accepts a) hstep).1⟩
  rintro ⟨hp, hk⟩
  have hmem := mem_carriers.2 ⟨hr, hp, hk⟩
  rw [hinv.1 principalID key row hrow hstatus] at hmem
  cases hmem

def reservesUnposted (s : Sys) : Action → Bool
  | .perform i _ =>
    match s.tasks[i]? with
    | some (_, .call (.reserve r) _) => carriers r.principalID r.key s.world.db = []
    | _ => true
  | .ledger op _ => op.idempotencyKey = none
  | _ => true

theorem reservesUnposted_sound (s : Sys) (a : Action) (h : reservesUnposted s a = true) :
    ReservesUnposted s a := by
  cases a with
  | perform i ch =>
    simp only [ReservesUnposted, reservesUnposted] at h ⊢
    split
    · next htask =>
      rw [htask] at h
      exact fun _ => of_decide_eq_true h
    · trivial
  | ledger op hop =>
    intro u hu
    cases (of_decide_eq_true h).symm.trans hu
  | _ => trivial

theorem in_progress_unposted_sample :
    ∃ s, Sys.ReachBy ReservesUnposted .init s ∧
      ∃ row, s.world.db.idempotencyKeys.find? ("p", (8 : UUID).string) = some row ∧
        row.status = .inProgress ∧ ∀ id r, s.world.db.transactions.find? id = some r →
          ¬(r.principalID = "p" ∧ r.idempotencyKey = some (8 : UUID).string) := by
  have hrun : (runChecked Sys.step reservesUnposted .init (sampleRequests.take 5)).any (fun s =>
      (s.world.db.idempotencyKeys.find? ("p", (8 : UUID).string)).any fun row =>
        row.status = .inProgress) = true := by decide +kernel
  obtain ⟨s, hs, hrow⟩ := (Option.any_eq_true ..).1 hrun
  obtain ⟨row, hrow, hstatus⟩ := (Option.any_eq_true ..).1 hrow
  have hreach := reachBy_of_runChecked reservesUnposted_sound hs
  exact ⟨s, hreach, row, hrow, of_decide_eq_true hstatus, fun id r hr =>
    in_progress_unposted hreach hrow (of_decide_eq_true hstatus) hr⟩

/-- The first request commits. A day later its record is swept, and the key is sent again. -/
theorem in_progress_after_commit :
    ∃ s, Sys.init.run (sampleRequests.take 7 ++ .sweep (10 + 2 * defaultTTL) 1 (fun _ => false) ::
        .accept (sampleProcess 1) sampleRequest :: performs 1 (20 + 2 * defaultTTL) 2) = some s ∧
      ∃ row, s.world.db.idempotencyKeys.find? ("p", (8 : UUID).string) = some row ∧
        row.status = .inProgress ∧ ∃ id r, s.world.db.transactions.find? id = some r ∧
          r.principalID = "p" ∧ r.idempotencyKey = some (8 : UUID).string := by
  have hrun : (Sys.init.run (sampleRequests.take 7 ++ .sweep (10 + 2 * defaultTTL) 1 (fun _ => false) ::
      .accept (sampleProcess 1) sampleRequest :: performs 1 (20 + 2 * defaultTTL) 2)).any (fun s =>
        (s.world.db.idempotencyKeys.find? ("p", (8 : UUID).string)).any (fun row =>
          row.status = .inProgress) &&
        (carriers "p" (8 : UUID).string s.world.db).any fun _ => true) = true := by decide +kernel
  obtain ⟨s, hs, hboth⟩ := (Option.any_eq_true ..).1 hrun
  obtain ⟨hrow, hcarried⟩ := Bool.and_eq_true_iff.1 hboth
  obtain ⟨row, hrow, hstatus⟩ := (Option.any_eq_true ..).1 hrow
  obtain ⟨⟨id, r⟩, hmem, -⟩ := List.any_eq_true.1 hcarried
  exact ⟨s, hs, row, hrow, of_decide_eq_true hstatus, id, r, mem_carriers.1 hmem⟩

end LedgerCore.Http
