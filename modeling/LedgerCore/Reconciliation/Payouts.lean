import LedgerCore.Program.Alike
import LedgerCore.Payout.References
import LedgerCore.Reconciliation.Accounting

/-! Payouts as a reconciliation sees them: the transactions of one payout share its reference, and
the newest of them says what became of it. -/
namespace LedgerCore.Reconciliation
open LedgerCore.Program LedgerCore.Payout LedgerCore.Saga

theorem map_debits (txID : UUID) (db : DB) :
    (debits txID db).map (fun e => (⟨e.amountMinor, e.currency⟩ : Ledger.Money)) =
      ((Ledger.transactionEntries txID db).filter fun e => e.direction = .debit).map fun e =>
        e.amount := by
  simp only [debits, Ledger.transactionEntries, Ledger.journalEntries, Table.values,
    List.filter_map, List.filter_filter, List.map_map]
  congr 1
  refine List.filter_congr fun row _ => ?_
  simp [Ledger.toEntry, Bool.and_comm]

theorem booked_debits {parent : UUID → Option UUID} {legs : List Ledger.EntryRequest}
    {entries : List Ledger.JournalEntry} (h : Booked parent legs entries) :
    (entries.filter fun e => e.direction = .debit).map (fun e => e.amount) =
      (legs.filter fun r => r.direction = .debit).map fun r => r.amount := by
  induction h with
  | nil => rfl
  | @cons r e legs entries hleg _ ih =>
    obtain ⟨hdirection, hamount, -⟩ := hleg
    simp only [List.filter_cons, hdirection]
    split_ifs
    · rw [List.map_cons, List.map_cons, hamount, ih]
    · exact ih

theorem debits_payout {w : Payout.World} {p : Payload} {txID : UUID}
    (h : Carries w txID (reserveLegs p) ∨ Carries w txID (settleLegs p)) :
    (debits txID w.db).map (fun e => (⟨e.amountMinor, e.currency⟩ : Ledger.Money)) =
      [⟨p.amountMinor, p.currency⟩] := by
  rcases h with h | h
  · rw [map_debits, booked_debits h]
    rfl
  · rw [map_debits, booked_debits h]
    unfold settleLegs
    split_ifs <;> rfl

theorem amount_of_newest {since : Time} {w : Payout.World} {ref : String} {l : LedgerSide}
    {t : TransactionRow} {p : Payload} (h : Newest since w.db ref l t)
    (hlegs : Carries w l.transactionID (reserveLegs p) ∨ Carries w l.transactionID (settleLegs p)) :
    l.amountMinor = p.amountMinor ∧ l.currency = p.currency := by
  have hdebits := debits_payout hlegs
  obtain ⟨e, hone, he⟩ := List.map_eq_singleton_iff.1 hdebits
  obtain ⟨hamount, hcurrency⟩ := Ledger.Money.mk.inj he
  constructor
  · rw [← Int64.toInt_inj, h.amountMinor, hone, ← hamount]
    simp [sumOf]
  · rw [h.currency, hone, ← hcurrency]
    rfl

/-- What a record says of a payout. -/
structure Understood (w : Payout.World) (id : UUID) (p : Payload) (st : Status) (m : MatchedRecord) :
    Prop where
  amount : ∀ l ∈ m.ledger, l.amountMinor = p.amountMinor ∧ l.currency = p.currency
  completed : st = .completed → ∃ l t, m.ledger = some l ∧ l.status = "POSTED" ∧
    postedFor w.posted id = [t, l.transactionID] ∧ Holds w l.transactionID .posted (settleLegs p)
  compensated : st = .compensated → ∃ l, m.ledger = some l ∧ l.status = "REVERSED"

/-- The reference of a payout is its own: nothing else carries it, and its transactions are young
enough to be looked at. -/
structure Recent (w : Payout.World) (id : UUID) (ref : String) (since : Time) : Prop where
  nonempty : ref ≠ ""
  own : ∀ row ∈ w.db.transactions.rows, row.2.externalRef = some ref → row.1 ∈ postedFor w.posted id
  recent : ∀ txID ∈ postedFor w.posted id, ∀ x ∈ labelOf w.db txID, since ≤ x.2

section Record
variable {w : Payout.World} {id : UUID} {p : Payload} {st : Status} {since : Time} {psp : List PSPRecord}
  {m : MatchedRecord}

theorem externalRef_eq (h : Recent w id p.externalRef since) :
    externalRef p = some p.externalRef := by
  rw [externalRef, nullIfEmpty, if_neg h.nonempty]

theorem labelOf_eq_some {db : DB} {txID : UUID} {x : Option String × Time}
    (h : labelOf db txID = some x) :
    ∃ t, (txID, t) ∈ db.transactions.rows ∧ t.externalRef = x.1 ∧ t.createdAt = x.2 := by
  obtain ⟨t, ht, rfl⟩ := Option.map_eq_some_iff.1 h
  exact ⟨t, Table.find?_eq_some.1 ht, rfl, rfl⟩

theorem exists_ledger (hown : Recent w id p.externalRef since) (hsides : Sides psp since w.db m)
    (hm : m.externalRef = p.externalRef) {txID : UUID} {created : Time}
    (hposted : txID ∈ postedFor w.posted id)
    (hlabel : labelOf w.db txID = some (externalRef p, created)) : ∃ l, m.ledger = some l := by
  obtain ⟨t, hrow, href, hcreated⟩ := labelOf_eq_some hlabel
  rw [← Option.isSome_iff_exists, Option.isSome_iff_ne_none]
  intro hnone
  have hold := hsides.absent hnone (txID, t) hrow (by rw [href, externalRef_eq hown, hm])
  have hrecent : since ≤ t.createdAt := by
    rw [hcreated]
    exact hown.recent txID hposted _ hlabel
  exact absurd hold (Nat.not_lt.2 hrecent)

theorem ledger_posted (hown : Recent w id p.externalRef since) (hsides : Sides psp since w.db m)
    (hm : m.externalRef = p.externalRef) {l : LedgerSide} (hl : m.ledger = some l) :
    ∃ t, Newest since w.db p.externalRef l t ∧ l.transactionID ∈ postedFor w.posted id ∧
      labelOf w.db l.transactionID = some (some p.externalRef, t.createdAt) := by
  obtain ⟨t, hnewest⟩ := hsides.ledger l hl
  rw [hm] at hnewest
  refine ⟨t, hnewest, hown.own _ hnewest.row hnewest.carries, ?_⟩
  rw [labelOf, Table.find?_eq_some.2 hnewest.row, Option.map_some, hnewest.carries]

theorem understood (hown : Recent w id p.externalRef since) (hsides : Sides psp since w.db m)
    (hm : m.externalRef = p.externalRef) (h : Referenced w id p st) : Understood w id p st m := by
  constructor
  · intro l hl
    obtain ⟨t, hnewest, hposted, hlabel⟩ := ledger_posted hown hsides hm hl
    rcases h.legs _ hposted with ⟨created, hnone⟩ | hlegs
    · cases hlabel.symm.trans hnone
    · exact amount_of_newest hnewest hlegs
  · intro hcompleted
    obtain ⟨t, t', created, created', hlist, hlabel, hlabel', hlt, hholds⟩ := h.completed hcompleted
    obtain ⟨l, hl⟩ := exists_ledger hown hsides hm (by rw [hlist]; exact List.mem_cons_self) hlabel
    obtain ⟨r, hnewest, hposted, hlabel₀⟩ := ledger_posted hown hsides hm hl
    -- The settlement is newer than the reserve.
    have hsettle : l.transactionID = t' := by
      rw [hlist] at hposted
      rcases List.mem_cons.1 hposted with heq | hmem
      · obtain ⟨r', hrow', href', hcreated'⟩ := labelOf_eq_some hlabel'
        have hle := hnewest.newest _ hrow' (by rw [href', externalRef_eq hown])
        rw [heq, hlabel] at hlabel₀
        have hreserve : created = r.createdAt := congrArg Prod.snd (Option.some.inj hlabel₀)
        rw [hcreated', ← hreserve] at hle
        exact absurd hlt (Nat.not_lt.2 hle)
      · exact List.mem_singleton.1 hmem
    obtain ⟨r', hr', hstatus⟩ := hholds.header
    have hrow := Table.find?_eq_some.2 hnewest.row
    rw [hsettle, hr'] at hrow
    cases hrow
    refine ⟨l, t, hl, ?_, ?_, ?_⟩
    · rw [hnewest.status, hstatus]
      rfl
    · rw [hsettle, hlist]
    · rw [hsettle]
      exact hholds
  · intro hcompensated
    obtain ⟨t, t', created, created', hlist, hlabel, hnone, hholds⟩ := h.compensated hcompensated
    obtain ⟨l, hl⟩ := exists_ledger hown hsides hm (by rw [hlist]; exact List.mem_cons_self) hlabel
    obtain ⟨r, hnewest, hposted, hlabel₀⟩ := ledger_posted hown hsides hm hl
    -- The reversal has no reference.
    have hreserve : l.transactionID = t := by
      rw [hlist] at hposted
      rcases List.mem_cons.1 hposted with heq | hmem
      · exact heq
      · rw [List.mem_singleton.1 hmem, hnone] at hlabel₀
        cases hlabel₀
    obtain ⟨r', hr', hstatus⟩ := hholds.header
    have hrow := Table.find?_eq_some.2 hnewest.row
    rw [hreserve, hr'] at hrow
    cases hrow
    refine ⟨l, hl, ?_⟩
    rw [hnewest.status, hstatus]
    rfl

end Record

/-- The statement says what became of the payout. -/
structure Tells (p : Payload) (st : Status) (row : PSPRecord) : Prop where
  amountMinor : row.amountMinor = p.amountMinor
  currency : row.currency = p.currency
  status : (st = .completed ∧ row.status = "SETTLED") ∨
    (st = .compensated ∧ (row.status = "FAILED" ∨ row.status = "REFUNDED"))

theorem classify_of_agreement {m : MatchedRecord} {l : LedgerSide} {a : PSPAggregate}
    {window : Int64} {now : Time} (hl : m.ledger = some l) (ha : m.psp = some a)
    (hrows : a.rowCount = 1) (hamount : l.amountMinor = a.amountMinor)
    (hcurrency : l.currency = a.currency) (hstatus : statusesAgree l.status a.status = true)
    {f : Finding} (hf : classify m window now = some f) : f.category = .timingDifference := by
  have hclassified := classified m window now
  rw [hf] at hclassified
  cases hclassified with
  | timingDifference => rfl
  | missingInPSP hp => cases ha.symm.trans hp
  | duplicate hp hmany =>
    cases ha.symm.trans hp
    omega
  | missingInLedger hp hnone => cases hl.symm.trans hnone
  | amountMismatch hp hl' hne =>
    cases ha.symm.trans hp
    cases hl.symm.trans hl'
    exact absurd hne (by simp [hamount, hcurrency])
  | statusMismatch hp hl' hne =>
    cases ha.symm.trans hp
    cases hl.symm.trans hl'
    exact absurd hstatus hne

theorem classify_of_understood {w : Payout.World} {id : UUID} {p : Payload} {st : Status}
    {psp : List PSPRecord} {since : Time} {m : MatchedRecord} (h : Understood w id p st m)
    (hsides : Sides psp since w.db m) {row : PSPRecord}
    (hone : psp.filter (fun r => r.externalRef = m.externalRef) = [row]) (htells : Tells p st row)
    {window : Int64} {now : Time} {f : Finding} (hf : classify m window now = some f) :
    f.category = .timingDifference := by
  have hpsp := hsides.psp
  rw [hone, aggregate_singleton] at hpsp
  have hstatus : ∃ l, m.ledger = some l ∧ statusesAgree l.status row.status = true := by
    rcases htells.status with ⟨hst, hrow⟩ | ⟨hst, hrow⟩
    · obtain ⟨l, t, hl, hposted, -⟩ := h.completed hst
      exact ⟨l, hl, by rw [hposted, hrow]; decide⟩
    · obtain ⟨l, hl, hreversed⟩ := h.compensated hst
      refine ⟨l, hl, ?_⟩
      rcases hrow with hrow | hrow
      · rw [hreversed, hrow]
        decide
      · rw [hreversed, hrow]
        decide
  obtain ⟨l, hl, hagree⟩ := hstatus
  obtain ⟨hamount, hcurrency⟩ := h.amount l hl
  exact classify_of_agreement hl hpsp rfl (hamount.trans htells.amountMinor.symm)
    (hcurrency.trans htells.currency.symm) hagree hf

/-- Reconciliation understands payouts. In every run in which the database's clock moves on between
the transactions of a payout and nobody outside reverses its settlement, a payout whose reference
nothing else carries is matched with its own amount, as posted if it is completed and as reversed if
it is compensated; a statement that says the same has at most a difference in time. -/
theorem payout_understood {id : UUID} {s : Sys} {r : SagaRow} {since : Time}
    (h : Sys.Reach (fun s a => Ticks id s a ∧ SparesSettlement id s a) .init s)
    (hr : s.world.db.sagaInstances.find? id = some r)
    (hown : Recent s.world id r.payload.externalRef since)
    {collation : String → String → Bool} {psp : List PSPRecord} {ms : List MatchedRecord}
    (hmatch : Repository.matchRecords collation psp since s.world.db = .ok ms) :
    (r.status = .completed ∨ r.status = .compensated →
      ∃ m ∈ ms, m.externalRef = r.payload.externalRef) ∧
    ∀ m ∈ ms, m.externalRef = r.payload.externalRef →
      Understood s.world id r.payload r.status m ∧
      ∀ row, psp.filter (fun x => x.externalRef = r.payload.externalRef) = [row] →
        Tells r.payload r.status row → ∀ window now f, classify m window now = some f →
          f.category = .timingDifference := by
  have hsaga : s.world.view.saga id = some ⟨r.payload, r.status⟩ :=
    Option.map_eq_some_iff.2 ⟨r, hr, rfl⟩
  have hreferenced := reach_referenced h hsaga
  constructor
  · intro hended
    have hlabelled : ∃ t created, t ∈ postedFor s.world.posted id ∧
        labelOf s.world.db t = some (externalRef r.payload, created) := by
      rcases hended with hst | hst
      · obtain ⟨t, t', created, -, hlist, hlabel, -⟩ := hreferenced.completed hst
        exact ⟨t, created, by rw [hlist]; exact List.mem_cons_self, hlabel⟩
      · obtain ⟨t, t', created, -, hlist, hlabel, -⟩ := hreferenced.compensated hst
        exact ⟨t, created, by rw [hlist]; exact List.mem_cons_self, hlabel⟩
    obtain ⟨t, created, hposted, hlabel⟩ := hlabelled
    obtain ⟨row, hrow, href, hcreated⟩ := labelOf_eq_some hlabel
    have hoccurs : Occurs psp since s.world.db r.payload.externalRef := by
      refine .inr ⟨(t, row), hrow, href.trans (externalRef_eq hown), ?_⟩
      exact hcreated.symm ▸ hown.recent t hposted _ hlabel
    exact List.mem_map.1 ((mem_matchRecords hmatch).2 hoccurs)
  · intro m hm href
    have hsides := sides_of_mem hmatch hm
    have hunderstood := understood hown hsides href hreferenced
    refine ⟨hunderstood, fun row hone htells window now f hf => ?_⟩
    rw [← href] at hone
    exact classify_of_understood hunderstood hsides hone htells hf

/-- A payout with a reference, from its start to its end. -/
def sampleReferenced : List Action :=
  sampleStart.dropLast ++
    .start sampleConfig 10 10 sampleFirst { samplePayload with externalRef := "po-1" } "p" none ::
    drive 10 4 ++ .crash 0 :: drive 20 4 ++ .deliver 0 (.accept "g" 40) :: performs 0 30 3 ++
    .crash 0 :: drive 40 4

def sampleSettled : PSPRecord := ⟨"po-1", 500, "INR", "SETTLED", 44⟩

/-- The payout is completed, and its reference is its own. -/
def sampleCompleted (s : Sys) : Prop :=
  (s.world.db.sagaInstances.find? 7).map (fun r => (r.status, r.payload)) =
      some (.completed, { samplePayload with externalRef := "po-1" }) ∧
    ∀ row ∈ s.world.db.transactions.rows, row.2.externalRef = some "po-1" →
      row.1 ∈ postedFor s.world.posted 7

instance : DecidablePred sampleCompleted := fun _ => inferInstanceAs (Decidable (_ ∧ _))

theorem sampleCompleted.recent {s : Sys} (h : sampleCompleted s) : Recent s.world 7 "po-1" 0 where
  nonempty := by decide
  own := h.2
  recent _ _ _ _ := Nat.zero_le _

theorem payout_understood_completed :
    ∃ s ms m, Sys.Reach (fun s a => Ticks 7 s a ∧ SparesSettlement 7 s a) .init s ∧
      sampleCompleted s ∧
      Repository.matchRecords (fun _ _ => true) [sampleSettled] 0 s.world.db = .ok ms ∧ m ∈ ms ∧
      Understood s.world 7 { samplePayload with externalRef := "po-1" } .completed m ∧
      ∀ window now f, classify m window now = some f → f.category = .timingDifference := by
  have hrun : (Sys.init.run sampleReferenced).any (fun s => sampleCompleted s ∧
      (Repository.matchRecords (fun _ _ => true) [sampleSettled] 0 s.world.db).isOk) = true := by
    decide +kernel
  obtain ⟨s, hs, hcompleted, hok⟩ := one_run hrun
  have hclock : (0 :: sampleReferenced.filterMap Action.dated).Pairwise (· < ·) := by decide +kernel
  have hspares : sampleReferenced.all (fun a => a.reverses = none) = true := by decide +kernel
  have hreach : Sys.Reach (fun s a => Ticks 7 s a ∧ SparesSettlement 7 s a) .init s := by
    refine reach_of_clock init_kept (fun _ _ h => nomatch h) hclock (fun a ha s txID htx => ?_) hs 7
    rw [of_decide_eq_true (List.all_eq_true.1 hspares a ha)] at htx
    exact nomatch htx
  obtain ⟨ms, hms⟩ := exists_of_isOk hok
  obtain ⟨r, hr, hrow⟩ := Option.map_eq_some_iff.1 hcompleted.1
  obtain ⟨hstatus, hpayload⟩ := Prod.mk.inj hrow
  have hown : Recent s.world 7 r.payload.externalRef 0 := by
    rw [hpayload]
    exact hcompleted.recent
  obtain ⟨hexists, hall⟩ := payout_understood hreach hr hown hms
  obtain ⟨m, hm, href⟩ := hexists (.inl hstatus)
  obtain ⟨hunderstood, hclass⟩ := hall m hm href
  rw [hstatus, hpayload] at hunderstood hclass
  exact ⟨s, ms, m, hreach, hcompleted, hms, hm, hunderstood,
    hclass sampleSettled rfl ⟨rfl, rfl, .inl ⟨rfl, rfl⟩⟩⟩

/-- The side of the ledger and the class of each record, for a settled row on the sample's
reference. -/
def sampleClasses (s : Sys) : Option (List (Option (UUID × String) × Option Category)) :=
  (Repository.matchRecords (fun _ _ => true) [sampleSettled] 0 s.world.db).toOption.map fun ms =>
    ms.map fun m => (m.ledger.map fun l => (l.transactionID, l.status),
      (classify m defaultTimingWindow 50).map fun f => f.category)

/-- After a payout is completed, its settlement is reversed from outside. -/
theorem settlement_reversed :
    ∃ s, Sys.Reach (fun s a => Ticks 7 s a ∧ True) .init s ∧ sampleCompleted s ∧
      sampleClasses s = some [(some (44999, "REVERSED"), some .statusMismatch)] := by
  let actions := sampleReferenced ++
    [.ledger (.reverseTransaction (Ledger.sampleDraws 50) 9 44999 "refund" none none
      Ledger.recording_none)]
  have hrun : (Sys.init.run actions).any (fun s => sampleCompleted s ∧
      sampleClasses s = some [(some (44999, "REVERSED"), some .statusMismatch)]) = true := by
    decide +kernel
  obtain ⟨s, hs, houtcome⟩ := one_run hrun
  have hclock : (0 :: actions.filterMap Action.dated).Pairwise (· < ·) := by decide +kernel
  exact ⟨s, reach_of_clock init_kept (fun _ _ h => nomatch h) hclock (fun _ _ _ => trivial) hs 7,
    houtcome⟩

end LedgerCore.Reconciliation
