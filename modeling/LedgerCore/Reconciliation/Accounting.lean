import LedgerCore.Reconciliation.Engine

/-! What a reconciliation run accounts for. -/
namespace LedgerCore.Reconciliation
open LedgerCore.Program

/-- Both sides are there, with one row of the statement, and they agree. -/
def MatchedRecord.Clean (m : MatchedRecord) : Prop :=
  ∃ l p, m.ledger = some l ∧ m.psp = some p ∧ p.rowCount = 1 ∧ l.amountMinor = p.amountMinor ∧
    l.currency = p.currency ∧ statusesAgree l.status p.status = true ∧
    ∀ postedAt ∈ l.postedAt, (postedAt : ℤ) * 1000 = p.settledAt

/-- The ledger agrees with the one row that the statement has for the reference: on the time, to the
microsecond. -/
def MatchedRecord.Agrees (psp : List PSPRecord) (m : MatchedRecord) : Prop :=
  ∃ l r, m.ledger = some l ∧ (psp.filter fun r => r.externalRef = m.externalRef) = [r] ∧
    l.amountMinor = r.amountMinor ∧ l.currency = r.currency ∧
    statusesAgree l.status r.status = true ∧
    ∀ postedAt ∈ l.postedAt, (postedAt : ℤ) = r.settledAt / 1000

theorem Sides.clean_iff {psp : List PSPRecord} {since : Time} {db : DB} {m : MatchedRecord}
    (h : Sides psp since db m) : m.Clean ↔ m.Agrees psp := by
  have htime (t s : ℤ) : t * 1000 = timestamptz s ↔ t = s / 1000 := by
    unfold timestamptz
    omega
  constructor
  · rintro ⟨l, p, hl, hp, hone, hamount, hcurrency, hstatus, hposted⟩
    rw [rowCount_of_sides h hp, List.length_eq_one_iff] at hone
    obtain ⟨r, hr⟩ := hone
    rw [h.psp, hr, aggregate_singleton] at hp
    cases hp
    exact ⟨l, r, hl, hr, hamount, hcurrency, hstatus, fun t ht => (htime _ _).1 (hposted t ht)⟩
  · rintro ⟨l, r, hl, hr, hamount, hcurrency, hstatus, hposted⟩
    have hp := h.psp
    rw [hr, aggregate_singleton] at hp
    exact ⟨l, _, hl, hp, rfl, hamount, hcurrency, hstatus, fun t ht => (htime _ _).2 (hposted t ht)⟩

theorem abs_eq_zero {d : Int64} : (if d < 0 then -d else d) = 0 ↔ d = 0 := by
  split_ifs with h
  · constructor
    · intro hneg
      rw [← Int64.neg_neg (a := d), hneg]
      rfl
    · rintro rfl
      rfl
  · rfl

theorem sub_eq_zero {t : ℕ} {u : ℤ} : sub t u = 0 ↔ (t : ℤ) * 1000 = u := by
  simp only [sub]
  split_ifs with hlow hhigh
  · have hne : Int64.minValue ≠ 0 := by decide
    simp only [hne, false_iff]
    omega
  · have hne : Int64.maxValue ≠ 0 := by decide
    simp only [hne, false_iff]
    omega
  · rw [← Int64.toInt_inj, Int64.toInt_ofInt_of_le (by omega) (by omega)]
    have hzero : (0 : Int64).toInt = 0 := rfl
    rw [hzero]
    omega

theorem gap_eq_zero {postedAt : Time} {settledAt : ℤ} :
    gap postedAt settledAt = 0 ↔ (postedAt : ℤ) * 1000 = settledAt := by
  rw [gap, abs_eq_zero, sub_eq_zero]

/-- The classes, in the order in which they are tried. -/
inductive Classified (m : MatchedRecord) (window : Int64) (now : Time) : Option Finding → Prop
  | missingInPSP (hp : m.psp = none) : Classified m window now (m.finding .missingInPSP .none)
  | duplicate {p : PSPAggregate} (hp : m.psp = some p) (hrows : 1 < p.rowCount) :
      Classified m window now (m.finding .duplicate (.pspRowCount p.rowCount))
  | missingInLedger {p : PSPAggregate} (hp : m.psp = some p) (hl : m.ledger = none) :
      Classified m window now (m.finding .missingInLedger .none)
  | amountMismatch {p : PSPAggregate} {l : LedgerSide} {details : Details} (hp : m.psp = some p)
      (hl : m.ledger = some l) (h : l.amountMinor ≠ p.amountMinor ∨ l.currency ≠ p.currency) :
      Classified m window now (m.finding .amountMismatch details)
  | statusMismatch {p : PSPAggregate} {l : LedgerSide} (hp : m.psp = some p)
      (hl : m.ledger = some l) (h : ¬statusesAgree l.status p.status) :
      Classified m window now (m.finding .statusMismatch .none)
  | timingDifference {p : PSPAggregate} {l : LedgerSide} {postedAt : Time} {details : Details}
      {status : ExceptionStatus} {resolvedAt : Option Time} (hp : m.psp = some p)
      (hl : m.ledger = some l) (hposted : l.postedAt = some postedAt)
      (h : (postedAt : ℤ) * 1000 ≠ p.settledAt) : Classified m window now
        (some { m.finding .timingDifference details with status, resolvedAt })
  | clean {p : PSPAggregate} {l : LedgerSide} (hp : m.psp = some p) (hl : m.ledger = some l)
      (hrows : ¬1 < p.rowCount) (hamount : l.amountMinor = p.amountMinor)
      (hcurrency : l.currency = p.currency) (hstatus : statusesAgree l.status p.status = true)
      (hposted : ∀ postedAt ∈ l.postedAt, (postedAt : ℤ) * 1000 = p.settledAt) :
      Classified m window now none

section Classes
variable {m : MatchedRecord} {window : Int64} {now : Time} {exc : Finding}

theorem classified (m : MatchedRecord) (window : Int64) (now : Time) :
    Classified m window now (classify m window now) := by
  unfold classify
  split
  · next hp => exact .missingInPSP hp
  · next p hp =>
    split_ifs with hrows
    · exact .duplicate hp hrows
    split
    · next hl => exact .missingInLedger hp hl
    · next l hl =>
      split_ifs with hamount hstatus
      · exact .amountMismatch hp hl hamount
      · exact .statusMismatch hp hl (by simpa using hstatus)
      rw [not_or, not_not, not_not] at hamount
      have hstatus : statusesAgree l.status p.status = true := by simpa using hstatus
      cases hposted : l.postedAt with
      | none =>
        refine .clean hp hl hrows hamount.1 hamount.2 hstatus fun t ht => ?_
        cases hposted.symm.trans ht
      | some postedAt =>
        dsimp only
        split_ifs with hgap hwindow
        · refine .clean hp hl hrows hamount.1 hamount.2 hstatus fun t ht => ?_
          cases hposted.symm.trans ht
          exact gap_eq_zero.1 hgap
        · exact .timingDifference hp hl hposted fun heq => hgap (gap_eq_zero.2 heq)
        · exact .timingDifference hp hl hposted fun heq => hgap (gap_eq_zero.2 heq)

theorem classify_eq_none (hrows : ∀ p ∈ m.psp, 0 < p.rowCount) :
    classify m window now = none ↔ m.Clean := by
  have h := classified m window now
  constructor
  · intro hnone
    rw [hnone] at h
    cases h with
    | clean hp hl hone hamount hcurrency hstatus hposted =>
      have hpos := hrows _ hp
      exact ⟨_, _, hl, hp, by omega, hamount, hcurrency, hstatus, hposted⟩
  · rintro ⟨l, p, hl, hp, hone, hamount, hcurrency, hstatus, hposted⟩
    cases hres : classify m window now with
    | none => rfl
    | some exc =>
      rw [hres] at h
      cases h <;> grind

theorem category_of_autoResolved (h : classify m window now = some exc)
    (hstatus : exc.status = .autoResolved) : exc.category = .timingDifference := by
  have hc := classified m window now
  rw [h] at hc
  cases hc with
  | timingDifference => rfl
  | _ => cases hstatus

theorem sides_of_missing (h : classify m window now = some exc)
    (hcategory : exc.category = .missingInLedger) : m.ledger = none ∧ m.psp ≠ none := by
  have hc := classified m window now
  rw [h] at hc
  cases hc with
  | missingInLedger hp hl =>
    rw [hp]
    exact ⟨hl, Option.some_ne_none _⟩
  | _ => cases hcategory

end Classes

/-- The ledger says of the references in the statement what it says of them at any age. -/
structure Unbounded (psp : List PSPRecord) (db : DB) (ms : List MatchedRecord) : Prop where
  missing : ∀ m ∈ ms, ∀ window now exc, classify m window now = some exc →
    exc.category = .missingInLedger →
      ∀ row ∈ db.transactions.rows, row.2.externalRef ≠ some m.externalRef
  current : ∀ m ∈ ms, (∃ r ∈ psp, r.externalRef = m.externalRef) →
    ∀ row ∈ db.transactions.rows, row.2.externalRef = some m.externalRef →
      ∃ l ∈ m.ledger, row.2.createdAt ≤ l.createdAt

/-- A match is not bounded by the lookback exactly if every reference in the statement that the
ledger has at all, it has since then. -/
theorem unbounded_iff {collation : String → String → Bool} {psp : List PSPRecord} {since : Time}
    {db : DB} {ms : List MatchedRecord}
    (h : Repository.matchRecords collation psp since db = .ok ms) :
    Unbounded psp db ms ↔ ∀ r ∈ psp,
      (∃ row ∈ db.transactions.rows, row.2.externalRef = some r.externalRef) →
      ∃ row ∈ db.transactions.rows, row.2.externalRef = some r.externalRef ∧
        since ≤ row.2.createdAt := by
  constructor
  · rintro hall r hr ⟨row, hrow, href⟩
    have hoccurs : Occurs psp since db r.externalRef := .inl ⟨r, hr, rfl⟩
    obtain ⟨m, hm, hmr⟩ := List.mem_map.1 ((mem_matchRecords h).2 hoccurs)
    rw [← hmr] at href ⊢
    obtain ⟨l, hl, -⟩ := hall.current m hm ⟨r, hr, hmr.symm⟩ row hrow href
    obtain ⟨t, ht⟩ := (sides_of_mem h hm).ledger l hl
    exact ⟨_, ht.row, ht.carries, ht.recent⟩
  · intro hall
    have hcurrent : ∀ m ∈ ms, (∃ r ∈ psp, r.externalRef = m.externalRef) →
        ∀ row ∈ db.transactions.rows, row.2.externalRef = some m.externalRef →
          ∃ l ∈ m.ledger, row.2.createdAt ≤ l.createdAt := by
      rintro m hm ⟨r, hr, hrm⟩ row hrow href
      have hsides := sides_of_mem h hm
      cases hl : m.ledger with
      | none =>
        rw [← hrm] at href
        obtain ⟨row', hrow', href', hsince⟩ := hall r hr ⟨row, hrow, href⟩
        rw [hrm] at href'
        exact absurd (hsides.absent hl row' hrow' href') (Nat.not_lt.2 hsince)
      | some l =>
        obtain ⟨t, ht⟩ := hsides.ledger l hl
        exact ⟨l, rfl, ht.createdAt ▸ ht.newest row hrow href⟩
    refine ⟨fun m hm window now exc hexc hcategory row hrow href => ?_, hcurrent⟩
    obtain ⟨hl, hp⟩ := sides_of_missing hexc hcategory
    obtain ⟨r, hr, hrm⟩ := mem_of_psp (sides_of_mem h hm) hp
    obtain ⟨l, hl', -⟩ := hcurrent m hm ⟨r, hr, hrm⟩ row hrow href
    rw [hl] at hl'
    cases hl'

def byBytes (a b : String) : Bool := a ≤ b

def sampleStatement : List PSPRecord := [⟨"abc", 500, "INR", "SETTLED", 3000⟩]

def day : Time := 24 * 3600 * 1000000

/-- A payin of reference `xyz` after the one of `abc`. -/
def sampleLater : DB := Ledger.runOps
  [.postTransaction (Ledger.sampleDraws 5) 6
    { principalID := "p", type := .payin, externalRef := some "xyz", metadata := []
      entries := [⟨1, .debit, ⟨700, "INR"⟩⟩, ⟨2, .credit, ⟨700, "INR"⟩⟩]
      idempotencyKey := none, idempotency := none, record := none } Ledger.recording_none]
  (Ledger.samplePayin [])

/-- A match that looks back to between the two payins finds the one that the statement settles. -/
theorem unbounded_later_payin : ∃ ms,
    Repository.matchRecords byBytes [⟨"xyz", 700, "INR", "SETTLED", 6000⟩] 5 sampleLater = .ok ms ∧
      ms.map MatchedRecord.externalRef = ["xyz"] ∧
      Unbounded [⟨"xyz", 700, "INR", "SETTLED", 6000⟩] sampleLater ms := by
  have hmatch : ((Repository.matchRecords byBytes [⟨"xyz", 700, "INR", "SETTLED", 6000⟩] 5
      sampleLater).toOption.any fun ms => ms.map MatchedRecord.externalRef = ["xyz"]) = true := by
    decide +kernel
  have hrecent : (sampleLater.transactions.rows.any
      fun row => row.2.externalRef = some "xyz" ∧ 5 ≤ row.2.createdAt) = true := by decide +kernel
  cases h : Repository.matchRecords byBytes [⟨"xyz", 700, "INR", "SETTLED", 6000⟩] 5 sampleLater with
  | error e =>
    rw [h] at hmatch
    cases hmatch
  | ok ms =>
    rw [h] at hmatch
    refine ⟨ms, rfl, of_decide_eq_true hmatch, (unbounded_iff h).2 fun r hr _ => ?_⟩
    obtain ⟨row, hrow, hcarries⟩ := List.any_eq_true.1 hrecent
    obtain rfl := List.mem_singleton.1 hr
    exact ⟨row, hrow, of_decide_eq_true hcarries⟩

/-- Eight days later, with the default lookback, the reference is reported to be missing in a
ledger that has a transaction with it. -/
theorem old_reference_reported_missing :
    ((Ledger.samplePayin []).transactions.rows.any fun row => row.2.externalRef = some "abc") = true ∧
      (Repository.matchRecords byBytes sampleStatement ((newEngine 0 0).since (8 * day))
        (Ledger.samplePayin [])).toOption.map (fun ms => ms.map fun m =>
          (m.externalRef, (classify m (newEngine 0 0).timingWindow (8 * day)).map fun exc =>
            exc.category)) = some [("abc", some .missingInLedger)] := by
  decide +kernel

/-- However the run goes, if it ends with a value then `post` holds. -/
def Ends {α : Type} (env : Environment) (post : α → World → Prop) (p : Prog Reply Error α)
    (w : World) : Prop :=
  p.Course (World.answer env) (fun _ _ => True) post (fun _ _ => True) w

section Ends
variable {env : Environment} {α β : Type} {post : α → World → Prop} {w : World}

theorem ends_pure {a : α} (h : post a w) : Ends env post (pure a) w := h

theorem ends_failure (e : Error) : Ends env post (.fail e) w := trivial

theorem ends_fail (runID : UUID) (cause : Error) : Ends env post (Engine.fail runID cause) w :=
  ⟨trivial, trivial⟩

theorem ends_bind {p : Prog Reply Error β} {f : β → Prog Reply Error α}
    {mid : β → World → Prop} (hp : Ends env mid p w) (hf : ∀ b w, mid b w → Ends env post (f b) w) :
    Ends env post (p >>= f) w :=
  Prog.course_bind.2 (hp.mono hf fun _ _ => id)

theorem ends_perform {c : Call} {f : Reply c → Prog Reply Error α}
    (h : Ends env post (f (World.answer env c w).1) (World.answer env c w).2) :
    Ends env post (Prog.perform c >>= f) w := ⟨trivial, h⟩

/-- A call that is answered without an error has been carried out. -/
theorem ends_query {op : Tables → Except Error (β × Tables)}
    {f : Except Error β → Prog Reply Error α} (herror : ∀ e w, Ends env post (f (.error e)) w)
    (hok : ∀ b s calls, op w.toTables = .ok (b, s) → Ends env post (f (.ok b)) ⟨s, calls⟩) :
    Ends env post (f (w.query env op).1) (w.query env op).2 := by
  simp only [World.query, Projector.Fault.meet]
  cases env.database w.calls with
  | none =>
    cases hop : op w.toTables with
    | error e => exact herror e _
    | ok r => exact hok r.1 r.2 _ hop
  | lost e => exact herror e _
  | unanswered e => exact herror e _

section Writes
variable {f : Except Error Unit → Prog Reply Error α}
  (herror : ∀ e w, Ends env post (f (.error e)) w)

include herror

private theorem ends_write {op : Tables → Except Error Tables}
    (hok : ∀ s calls, op w.toTables = .ok s → Ends env post (f (.ok ())) ⟨s, calls⟩) :
    Ends env post (f (w.query env fun s => (op s).map ((), ·)).1)
      (w.query env fun s => (op s).map ((), ·)).2 := by
  refine ends_query herror fun b s calls hop => ?_
  obtain ⟨s', hs', heq⟩ := map_eq_ok.1 hop
  cases heq
  exact hok s calls hs'

theorem ends_createRun {run : Run} (hok : ∀ s calls, Repository.createRun run w.toTables = .ok s →
      Ends env post (f (.ok ())) ⟨s, calls⟩) : Ends env post (Store.createRun run >>= f) w :=
  ends_perform (ends_write herror hok)

theorem ends_saveExceptions {exceptions : List Exception}
    (hok : ∀ s calls, Repository.saveExceptions exceptions w.toTables = .ok s →
      Ends env post (f (.ok ())) ⟨s, calls⟩) :
    Ends env post (Store.saveExceptions exceptions >>= f) w :=
  ends_perform (ends_write herror hok)

theorem ends_finishRun {id : UUID} {status : RunStatus} {errMsg : String}
    {matched autoResolved exceptionCount : ℕ}
    (hok : ∀ now s calls, Repository.finishRun now id status errMsg matched autoResolved
      exceptionCount w.toTables = .ok s → Ends env post (f (.ok ())) ⟨s, calls⟩) :
    Ends env post
      (Store.finishRun id status errMsg matched autoResolved exceptionCount >>= f) w :=
  ends_perform (ends_write herror (hok _))

end Writes

theorem ends_matchRecords {psp : List PSPRecord} {since : Time}
    {f : Except Error (List MatchedRecord) → Prog Reply Error α}
    (herror : ∀ e w, Ends env post (f (.error e)) w)
    (hok : ∀ ms calls, Repository.matchRecords env.collation psp since w.db = .ok ms →
      Ends env post (f (.ok ms)) ⟨w.toTables, calls⟩) :
    Ends env post (Store.matchRecords psp since >>= f) w := by
  refine ends_perform (@ends_query env α _ post w
    (fun s => (Repository.matchRecords env.collation psp since s.db).map (·, s)) f herror
    fun ms s calls hop => ?_)
  obtain ⟨ms', hms, heq⟩ := map_eq_ok.1 hop
  cases heq
  exact hok ms calls hms

end Ends

/-- The exception is what the classification of the record says. -/
structure Raised (window : Int64) (runID : UUID) (m : MatchedRecord) (exc : Exception) : Prop where
  runID : exc.runID = runID
  finding : ∃ now, classify m window now = some exc.toFinding

/-- The tally counts the clean records and has an exception for each of the others. -/
structure Tallies (window : Int64) (runID : UUID) (clean flawed : List MatchedRecord) (t : Tally) :
    Prop where
  matchedCount : t.matchedCount = clean.length
  agree : ∀ m ∈ clean, m.Clean
  differ : ∀ m ∈ flawed, ¬m.Clean
  raised : List.Forall₂ (Raised window runID) flawed t.exceptions
  autoResolved : t.autoResolved = t.exceptions.countP fun exc => exc.status = .autoResolved

section Loop
variable {env : Environment} {e : Engine} {runID : UUID} {clean flawed : List MatchedRecord}
  {t : Tally} {m : MatchedRecord} {window : Int64}

theorem Tallies.addClean (h : Tallies window runID clean flawed t) (hm : m.Clean) :
    Tallies window runID (clean ++ [m]) flawed { t with matchedCount := t.matchedCount + 1 } where
  agree := List.forall_mem_append.2 ⟨h.agree, List.forall_mem_singleton.2 hm⟩
  differ := h.differ
  matchedCount := by
    rw [h.matchedCount, List.length_append, List.length_singleton]
  raised := h.raised
  autoResolved := h.autoResolved

theorem Tallies.addRaised (h : Tallies window runID clean flawed t) {exc : Exception}
    (hm : ¬m.Clean) (hexc : Raised window runID m exc) :
    Tallies window runID clean (flawed ++ [m])
      { t with
        exceptions := t.exceptions ++ [exc]
        autoResolved := t.autoResolved + if exc.status = .autoResolved then 1 else 0 } where
  agree := h.agree
  differ := List.forall_mem_append.2 ⟨h.differ, List.forall_mem_singleton.2 hm⟩
  matchedCount := h.matchedCount
  raised := List.rel_append h.raised (.cons hexc .nil)
  autoResolved := by
    rw [h.autoResolved, List.countP_append, List.countP_singleton]
    simp only [decide_eq_true_eq]

theorem ends_classifyAll {ms : List MatchedRecord} {w : World}
    (hrows : ∀ m ∈ ms, ∀ p ∈ m.psp, 0 < p.rowCount)
    (h : Tallies e.timingWindow runID clean flawed t) :
    Ends env (fun t' w' => w'.toTables = w.toTables ∧ ∃ clean' flawed',
      (clean ++ flawed ++ ms).Perm (clean' ++ flawed') ∧
        Tallies e.timingWindow runID clean' flawed' t') (e.classifyAll runID ms t) w := by
  induction ms generalizing t w clean flawed with
  | nil => exact ends_pure ⟨rfl, clean, flawed, by rw [List.append_nil], h⟩
  | cons m ms ih =>
    obtain ⟨hm, hms⟩ := List.forall_mem_cons.1 hrows
    rw [Engine.classifyAll]
    refine ends_perform ?_
    generalize hnow : (World.answer env .now w).1 = now
    cases hclass : classify m e.timingWindow now with
    | none =>
      refine (ih hms (h.addClean ((classify_eq_none hm).1 hclass))).mono ?_ fun _ _ => id
      rintro t' w' ⟨hw, clean', flawed', hperm, ht⟩
      refine ⟨hw, clean', flawed', .trans ?_ hperm, ht⟩
      simp only [List.append_assoc, List.singleton_append]
      exact List.perm_middle.append_left clean
    | some exc =>
      refine ends_perform ?_
      split
      · exact ends_fail _ _
      · refine ends_perform ?_
        have hflawed : ¬m.Clean := by
          intro hclean
          rw [(classify_eq_none hm).2 hclean] at hclass
          cases hclass
        refine (ih hms (h.addRaised hflawed ⟨rfl, now, hclass⟩)).mono ?_ fun _ _ => id
        rintro t' w' ⟨hw, clean', flawed', hperm, ht⟩
        refine ⟨hw, clean', flawed', .trans ?_ hperm, ht⟩
        simp only [List.append_assoc, List.singleton_append]
        rfl

end Loop

def Tables.stored (s : Tables) : List Exception := s.exceptions.values.map fun r => r.toException

theorem toRunColumns_of_check {r : RunColumns} {row : RunRow} (h : r.check = .ok row) :
    row.toRunColumns = r := by
  unfold RunColumns.check at h
  split_ifs at h
  exact (congrArg RunRow.toRunColumns (Except.ok.inj h)).symm

theorem toException_of_check {exc : Exception} {row : ExceptionRow} (h : exc.check = .ok row) :
    row.toException = exc := by
  unfold Exception.check at h
  split_ifs at h
  exact (congrArg ExceptionRow.toException (Except.ok.inj h)).symm

section Store
variable {s s' : Tables} {run : Run}

theorem createRun_eq_ok (h : Repository.createRun run s = .ok s') :
    s'.db = s.db ∧ s'.stored = s.stored ∧
      ∃ row, s'.runs.find? run.id = some row ∧ row.pspRowCount = run.pspRowCount := by
  obtain ⟨row, hrow, h⟩ := bind_eq_ok.1 (mapError_eq_ok.1 h)
  obtain ⟨runs, hruns, h⟩ := bind_eq_ok.1 h
  cases h
  refine ⟨rfl, rfl, row, ?_, ?_⟩
  · rw [Table.find?_insert (unique_eq_ok.1 hruns), if_pos rfl]
  · rw [toRunColumns_of_check hrow]

theorem insertException_eq_ok {exc : Exception}
    (h : Repository.insertException s exc = .ok s') :
    s'.db = s.db ∧ s'.runs = s.runs ∧ s'.stored = s.stored ++ [exc] := by
  obtain ⟨row, hrow, h⟩ := bind_eq_ok.1 h
  obtain ⟨exceptions, hins, h⟩ := bind_eq_ok.1 h
  obtain ⟨_, -, h⟩ := bind_eq_ok.1 h
  cases h
  refine ⟨rfl, rfl, ?_⟩
  have hexc := toException_of_check hrow
  obtain ⟨-, hrows⟩ := Table.insert?_eq_some.1 (unique_eq_ok.1 hins)
  simp only [Tables.stored, Table.values, hrows, List.map_append, List.map_cons, List.map_nil, hexc]

theorem saveExceptions_eq_ok {exceptions : List Exception}
    (h : Repository.saveExceptions exceptions s = .ok s') :
    s'.db = s.db ∧ s'.runs = s.runs ∧ s'.stored = s.stored ++ exceptions := by
  refine foldlM_eq_ok (fun done s' => s'.db = s.db ∧ s'.runs = s.runs ∧
    s'.stored = s.stored ++ done) (mapError_eq_ok.1 h) ⟨rfl, rfl, (List.append_nil _).symm⟩ ?_
  rintro done exc rest c c' - ⟨hdb, hruns, hstored⟩ hins
  obtain ⟨hdb', hruns', hstored'⟩ := insertException_eq_ok hins
  exact ⟨hdb'.trans hdb, hruns'.trans hruns, by rw [hstored', hstored, List.append_assoc]⟩

theorem finishRun_eq_ok {now : Time} {id : UUID} {status : RunStatus} {errMsg : String}
    {matched autoResolved exceptionCount : ℕ} {r : RunRow} (hr : s.runs.find? id = some r)
    (h : Repository.finishRun now id status errMsg matched autoResolved exceptionCount s = .ok s') :
    s'.stored = s.stored ∧ ∃ row, s'.runs.find? id = some row ∧
      row.toRunColumns = { r.toRunColumns with
        status, finishedAt := some now, error := nullIfEmpty errMsg, matchedCount := matched
        autoResolvedCount := autoResolved, exceptionCount } := by
  rw [Repository.finishRun, hr] at h
  obtain ⟨row, hrow, h⟩ := bind_eq_ok.1 (mapError_eq_ok.1 h)
  cases h
  refine ⟨rfl, row, ?_, toRunColumns_of_check hrow⟩
  rw [Table.find?_modify_self, hr, Option.map_some]

end Store

/-- A completed run accounts for every reference: the clean ones, and those it raised exceptions
for. -/
structure Accounts (e : Engine) (psp : List PSPRecord) (db : DB) (run : Run)
    (raised : List Exception) (clean flawed : List MatchedRecord) : Prop where
  once : ((clean ++ flawed).map MatchedRecord.externalRef).Nodup
  occurs : ∀ ref, ref ∈ (clean ++ flawed).map MatchedRecord.externalRef ↔
    Occurs psp (e.since run.startedAt) db ref
  sides : ∀ m ∈ clean ++ flawed, Sides psp (e.since run.startedAt) db m
  agree : ∀ m ∈ clean ++ flawed, m ∈ clean ↔ m.Agrees psp
  findings : List.Forall₂ (Raised e.timingWindow run.id) flawed raised
  matchedCount : run.matchedCount = clean.length
  exceptionCount : run.exceptionCount = raised.length
  total : run.matchedCount + run.exceptionCount =
    Set.ncard {ref | Occurs psp (e.since run.startedAt) db ref}
  byCategory : (Category.all.map run.byCategory).sum = run.exceptionCount
  autoResolved : run.autoResolvedCount ≤ run.byCategory .timingDifference

/-- What the tables keep of a completed run. -/
structure Recorded (run : Run) (raised : List Exception) (s s' : Tables) : Prop where
  exceptions : s'.stored = s.stored ++ raised
  run : ∃ row, s'.runs.find? run.id = some row ∧ row.status = .completed ∧
    row.pspRowCount = run.pspRowCount ∧ row.matchedCount = run.matchedCount ∧
    row.autoResolvedCount = run.autoResolvedCount ∧ row.exceptionCount = run.exceptionCount

theorem sum_countP_category (l : List Exception) :
    (Category.all.map fun c => l.countP fun exc => exc.category = c).sum = l.length := by
  induction l with
  | nil => rfl
  | cons exc l ih =>
    simp only [Category.all, List.map_cons, List.map_nil, List.sum_cons, List.sum_nil,
      List.countP_cons, List.length_cons, decide_eq_true_eq] at ih ⊢
    cases exc.category <;> simp only [reduceCtorEq, if_true, if_false] <;> omega

section Runs
variable {env : Environment} {e : Engine} {psp : List PSPRecord} {db : DB} {run : Run}
  {clean flawed : List MatchedRecord} {t : Tally} {ms : List MatchedRecord}

theorem countP_autoResolved_le {window : Int64} {runID : UUID} {raised : List Exception}
    (h : List.Forall₂ (Raised window runID) flawed raised) :
    (raised.countP fun exc => exc.status = .autoResolved) ≤
      raised.countP fun exc => exc.category = .timingDifference := by
  induction h with
  | nil => exact Nat.le_refl 0
  | @cons m exc _ _ hexc _ ih =>
    obtain ⟨now, hclass⟩ := hexc.finding
    have hcategory : exc.status = .autoResolved → exc.category = .timingDifference :=
      category_of_autoResolved hclass
    simp only [List.countP_cons, decide_eq_true_eq]
    split_ifs with hstatus htiming
    · exact Nat.succ_le_succ ih
    · exact absurd (hcategory hstatus) htiming
    · exact Nat.le_succ_of_le ih
    · exact ih

theorem ncard_of_nodup {refs : List String} {P : String → Prop} (hnodup : refs.Nodup)
    (hP : ∀ ref, ref ∈ refs ↔ P ref) : Set.ncard {ref | P ref} = refs.length := by
  have hset : {ref | P ref} = (refs.toFinset : Set String) := by
    ext ref
    rw [Set.mem_ofPred_eq, ← hP, Finset.mem_coe, List.mem_toFinset]
  rw [hset, Set.ncard_coe_finset, List.toFinset_card_of_nodup hnodup]

theorem accounts_of_tallies (hmatch : Repository.matchRecords env.collation psp
      (e.since run.startedAt) db = .ok ms) (hperm : ms.Perm (clean ++ flawed))
    (ht : Tallies e.timingWindow run.id clean flawed t)
    (hmatched : run.matchedCount = t.matchedCount)
    (hauto : run.autoResolvedCount = t.autoResolved)
    (hcount : run.exceptionCount = t.exceptions.length)
    (hcategory : run.byCategory = fun c => t.exceptions.countP fun exc => exc.category = c) :
    Accounts e psp db run t.exceptions clean flawed := by
  have hrefs := hperm.map MatchedRecord.externalRef
  have hoccurs : ∀ ref, ref ∈ (clean ++ flawed).map MatchedRecord.externalRef ↔
      Occurs psp (e.since run.startedAt) db ref :=
    fun ref => hrefs.mem_iff.symm.trans (mem_matchRecords hmatch)
  have hnodup := hrefs.nodup_iff.1 (nodup_matchRecords hmatch)
  constructor
  · exact hnodup
  · exact hoccurs
  · exact fun m hm => sides_of_mem hmatch (hperm.mem_iff.2 hm)
  · intro m hm
    rw [← (sides_of_mem hmatch (hperm.mem_iff.2 hm)).clean_iff]
    refine ⟨ht.agree m, fun hclean => ?_⟩
    rcases List.mem_append.1 hm with hm | hm
    · exact hm
    · exact absurd hclean (ht.differ m hm)
  · exact ht.raised
  · rw [hmatched, ht.matchedCount]
  · exact hcount
  · rw [ncard_of_nodup hnodup hoccurs, List.length_map, List.length_append, hmatched, hcount,
      ht.matchedCount, ht.raised.length_eq]
  · rw [hcategory, hcount, sum_countP_category]
  · rw [hauto, ht.autoResolved, hcategory]
    exact countP_autoResolved_le ht.raised

/-- What is found and returned, of a run over the statement that began in `w`. -/
def Completes (e : Engine) (psp : List PSPRecord) (w : World) (run : Run) (w' : World) : Prop :=
  ∃ raised clean flawed, Accounts e psp w.db run raised clean flawed ∧
    Recorded run raised w.toTables w'.toTables

theorem ends_finish {w₀ w : World} {row : RunRow} (hrow : w.runs.find? run.id = some row)
    (hpsp : row.pspRowCount = run.pspRowCount) (hstored : w.stored = w₀.stored)
    (hmatch : Repository.matchRecords env.collation psp (e.since run.startedAt) w₀.db = .ok ms)
    (hperm : ms.Perm (clean ++ flawed)) (ht : Tallies e.timingWindow run.id clean flawed t) :
    Ends env (Completes e psp w₀) (Engine.finish run t) w := by
  refine ends_saveExceptions (fun _ _ => ends_fail _ _) fun s₁ _ hs₁ => ?_
  obtain ⟨-, hruns₁, hstored₁⟩ := saveExceptions_eq_ok hs₁
  refine ends_finishRun (fun _ _ => ends_failure _) fun _ s₂ _ hs₂ => ?_
  obtain ⟨hstored₂, row', hrow', hcolumns⟩ := finishRun_eq_ok (hruns₁ ▸ hrow) hs₂
  refine ends_perform (ends_pure ⟨t.exceptions, clean, flawed,
    accounts_of_tallies hmatch hperm ht rfl rfl rfl rfl, ?_, row', hrow', ?_⟩)
  · exact hstored₂.trans (hstored₁.trans (hstored ▸ rfl))
  · rw [hcolumns]
    exact ⟨rfl, hpsp, rfl, rfl, rfl⟩

/-- Every completed run accounts for every reference once, and stores what it found. -/
theorem run_accounts {source : String} {w w' : World}
    (h : (e.run source psp).finish (World.answer env) w = (.ok run, w')) :
    ∃ raised clean flawed, Accounts e psp w.db run raised clean flawed ∧
      Recorded run raised w.toTables w'.toTables := by
  suffices hends : Ends env (Completes e psp w) (e.run source psp) w from hends.finish h
  unfold Engine.run
  split_ifs
  · exact ends_failure _
  refine ends_perform ?_
  split
  · exact ends_failure _
  refine ends_perform (ends_createRun (fun _ _ => ends_failure _) fun s₁ _ hs₁ => ?_)
  obtain ⟨hdb, hstored, row, hrow, hpsp⟩ := createRun_eq_ok hs₁
  refine ends_matchRecords (fun _ _ => ends_fail _ _) fun ms _ hmatch => ?_
  rw [hdb] at hmatch
  have hstart (runID : UUID) : Tallies e.timingWindow runID [] [] ⟨[], 0, 0⟩ :=
    ⟨rfl, by simp, by simp, .nil, rfl⟩
  refine ends_bind (ends_classifyAll (fun m hm p hp => rowCount_pos (sides_of_mem hmatch hm) hp)
    (hstart _)) ?_
  rintro t w₃ ⟨hw₃, clean, flawed, hperm, ht⟩
  exact ends_finish (hw₃ ▸ hrow) hpsp (hw₃ ▸ hstored) hmatch hperm ht

end Runs

/-- An undisturbed run, after a payin of reference `abc`. -/
def sampleEnvironment : Environment where
  now n := day + n
  newV7 n := .ok (BitVec.ofNat 128 (100 + n))
  database _ := .none
  collation := byBytes

def sampleWorld : World := ⟨⟨Ledger.samplePayin [], .empty, .empty⟩, 0⟩

/-- A statement that settles `abc`, and a reference that the ledger does not have. -/
theorem run_accounts_two_references : ∃ run w',
    ((newEngine 0 0).run "statement.csv" (⟨"xyz", 700, "INR", "SETTLED", 3000⟩ :: sampleStatement)).finish
      (World.answer sampleEnvironment) sampleWorld = (.ok run, w') ∧
    run.matchedCount = 1 ∧ run.exceptionCount = 1 ∧ run.byCategory .missingInLedger = 1 ∧
    ∃ raised clean flawed, Accounts (newEngine 0 0)
      (⟨"xyz", 700, "INR", "SETTLED", 3000⟩ :: sampleStatement) sampleWorld.db run raised clean flawed ∧
      Recorded run raised sampleWorld.toTables w'.toTables := by
  have hrun : (((newEngine 0 0).run "statement.csv"
      (⟨"xyz", 700, "INR", "SETTLED", 3000⟩ :: sampleStatement)).finish
      (World.answer sampleEnvironment) sampleWorld).1.toOption.any (fun run =>
        run.matchedCount = 1 ∧ run.exceptionCount = 1 ∧ run.byCategory .missingInLedger = 1) = true := by
    decide +kernel
  obtain ⟨run, hok, hcounts⟩ := (Option.any_eq_true ..).1 hrun
  obtain ⟨hmatched, hcount, hmissing⟩ := of_decide_eq_true hcounts
  cases hfinish : ((newEngine 0 0).run "statement.csv"
      (⟨"xyz", 700, "INR", "SETTLED", 3000⟩ :: sampleStatement)).finish
      (World.answer sampleEnvironment) sampleWorld with
  | mk result w' =>
    rw [hfinish] at hok
    cases result with
    | error e => cases hok
    | ok run' =>
      obtain rfl := Option.some.inj hok
      exact ⟨run', w', rfl, hmatched, hcount, hmissing, run_accounts hfinish⟩

/-- A row that is settled half a microsecond after the payin was posted is clean. -/
theorem run_clean_half_microsecond :
    (sampleWorld.db.transactions.rows.map fun row => (row.2.externalRef, row.2.postedAt)) =
        [(some "abc", some 3)] ∧
      (((newEngine 0 0).run "statement.csv" [⟨"abc", 500, "INR", "SETTLED", 3500⟩]).finish
        (World.answer sampleEnvironment) sampleWorld).1.toOption.any (fun run =>
          run.matchedCount = 1 ∧ run.exceptionCount = 0) = true := by
  decide +kernel

end LedgerCore.Reconciliation
