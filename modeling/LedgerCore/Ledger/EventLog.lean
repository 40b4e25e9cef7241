import LedgerCore.Ledger.Events
import LedgerCore.Ledger.Overdraft
import LedgerCore.Ledger.Reversals

/-! The outbox as a history of each account: which versions its events carry, and what balances. -/
namespace LedgerCore.Ledger
open LedgerCore.Program
variable {balances : List EventBalance} {done : List (Engine.Finished Error Posting Transaction)}

variable {now : Time} {db db' : DB} {s s' : TxState} {t : Transaction}

/-- The transaction of an event, and the balances that it reports. -/
def transactionReports : EventPayload → List (UUID × EventBalance)
  | .transaction p => p.balances.map fun b => (p.transactionID, b)
  | _ => []

def balanceUpdatedReports : EventPayload → List (UUID × EventBalance)
  | .balanceUpdated p => [(p.transactionID, ⟨p.accountID, p.available, p.version⟩)]
  | _ => []

/-- What `TransactionPosted` and `TransactionReversed` events say of an account. -/
def reportedBy (id : UUID) (rows : List (UUID × Event)) : List (UUID × EventBalance) :=
  rows.flatMap fun x =>
    if Transactional x.2 then (transactionReports x.2.payload).filter fun b => b.2.accountID = id
    else []

def updatedBy (id : UUID) (rows : List (UUID × Event)) : List (UUID × EventBalance) :=
  rows.flatMap fun x =>
    if x.2.eventType = "BalanceUpdated" then
      (balanceUpdatedReports x.2.payload).filter fun b => b.2.accountID = id
    else []

/-- The ledger's own events. -/
def Telling (e : Event) : Prop := Transactional e ∨ e.eventType = "BalanceUpdated"

theorem reportedBy_append (id : UUID) (rows rows' : List (UUID × Event)) :
    reportedBy id (rows ++ rows') = reportedBy id rows ++ reportedBy id rows' :=
  List.flatMap_append

theorem updatedBy_append (id : UUID) (rows rows' : List (UUID × Event)) :
    updatedBy id (rows ++ rows') = updatedBy id rows ++ updatedBy id rows' :=
  List.flatMap_append

theorem reportedBy_eq_nil {id : UUID} {rows : List (UUID × Event)}
    (h : ∀ x ∈ rows, ¬Transactional x.2) : reportedBy id rows = [] :=
  List.flatMap_eq_nil_iff.2 fun x hx => if_neg (h x hx)

theorem updatedBy_eq_nil {id : UUID} {rows : List (UUID × Event)}
    (h : ∀ x ∈ rows, x.2.eventType ≠ "BalanceUpdated") : updatedBy id rows = [] :=
  List.flatMap_eq_nil_iff.2 fun x hx => if_neg (h x hx)

def balanceUpdatedEvent (header : Transaction) (occurredAt : Time) (b : EventBalance) : Event where
  aggregateType := Outbox.aggregateAccount
  aggregateID := b.accountID.string
  eventType := "BalanceUpdated"
  eventVersion := eventVersion
  occurredAt := occurredAt
  payload := .balanceUpdated ⟨b.accountID, header.id, b.available, b.version⟩

theorem append_rows {eventID : UUID} {e : Event} {u : Unit}
    (h : exec now (.appendEvent eventID e) s = .ok (u, s')) :
    s'.db.outbox.rows = s.db.outbox.rows ++ [(eventID, e)] := by
  obtain ⟨db₁, hdb, he⟩ := map_eq_ok.1 h
  cases he
  obtain ⟨outbox, hi, rfl⟩ := Outbox.append_eq_ok hdb
  exact (Table.insert?_eq_some.1 hi).2

theorem appendBalanceUpdatedEvents_rows {d : Draws} {header : Transaction} {occurredAt : Time}
    {u : Unit}
    (h : (appendBalanceUpdatedEvents d header balances occurredAt).run (exec now) s = .ok (u, s')) :
    s'.db.outbox.rows = s.db.outbox.rows ++ balances.zipIdx.map fun (b, i) =>
      (d.eventID (i + 1), balanceUpdatedEvent header occurredAt b) := by
  unfold appendBalanceUpdatedEvents at h
  generalize balances.zipIdx = bs at h ⊢
  induction bs generalizing s with
  | nil =>
    cases h
    simp
  | cons b bs ih =>
    obtain ⟨_, s₁, hb, h⟩ := Prog.run_bind_ok.1 h
    obtain ⟨payload, hp, hb⟩ := Prog.run_ofExcept_bind_ok.1 hb
    obtain ⟨_, -, rfl⟩ := map_eq_ok.1 hp
    rw [ih h, append_rows ((Prog.run_perform _).symm.trans hb), List.append_assoc]
    rfl

theorem appendTransactionEvent_rows {d : Draws} {eventType : String} {header : Transaction}
    {reverses : Option UUID} {reason : String} {u : Unit}
    (h : (appendTransactionEvent d eventType header balances reverses reason).run (exec now) s =
      .ok (u, s')) :
    ∃ e occurredAt, e.eventType = eventType ∧
      transactionReports e.payload = balances.map (fun b => (header.id, b)) ∧
      s'.db.outbox.rows = s.db.outbox.rows ++ (d.eventID 0, e) :: balances.zipIdx.map fun (b, i) =>
        (d.eventID (i + 1), balanceUpdatedEvent header occurredAt b) := by
  obtain ⟨payload, hp, h⟩ := Prog.run_ofExcept_bind_ok.1 h
  obtain ⟨_, -, rfl⟩ := map_eq_ok.1 hp
  obtain ⟨_, s₁, hcall, h⟩ := Prog.run_perform_bind_ok.1 h
  have hrows := appendBalanceUpdatedEvents_rows h
  rw [append_rows hcall, List.append_assoc] at hrows
  refine ⟨_, _, ?_, ?_, hrows⟩
  · rfl
  · rfl

theorem filter_accountID (hnd : (balances.map fun b => b.accountID).Nodup) {b : EventBalance}
    (hb : b ∈ balances) : balances.filter (fun b' => b'.accountID = b.accountID) = [b] := by
  induction balances with
  | nil => cases hb
  | cons a balances ih =>
    obtain ⟨hnot, hnd⟩ := List.nodup_cons.1 hnd
    rcases List.mem_cons.1 hb with rfl | hb
    · rw [List.filter_cons_of_pos (by simp), List.filter_eq_nil_iff.2]
      intro b' hb' heq
      exact hnot (List.mem_map.2 ⟨b', hb', of_decide_eq_true heq⟩)
    · have hne : a.accountID ≠ b.accountID := fun he => hnot (List.mem_map.2 ⟨b, hb, he.symm⟩)
      rw [List.filter_cons_of_neg (by simpa using hne), ih hnd hb]

theorem updatedBy_balances (id : UUID) (d : Draws) (header : Transaction) (occurredAt : Time)
    (balances : List EventBalance) :
    updatedBy id (balances.zipIdx.map fun (b, i) =>
        (d.eventID (i + 1), balanceUpdatedEvent header occurredAt b)) =
      (balances.filter fun b => b.accountID = id).map fun b => (header.id, b) := by
  generalize 0 = n
  induction balances generalizing n with
  | nil => rfl
  | cons b balances ih =>
    rw [List.zipIdx_cons, List.map_cons, List.filter_cons]
    change (_ ++ updatedBy id _) = _
    rw [ih]
    by_cases hb : b.accountID = id
    · subst hb
      simp [balanceUpdatedEvent, balanceUpdatedReports]
    · simp [hb, balanceUpdatedEvent, balanceUpdatedReports]

/-- The events of a transaction report each account that it touches once, as it leaves it. -/
structure Recounts (db db' : DB) (t : Transaction) (new : List (UUID × Event)) : Prop where
  rows : db'.outbox.rows = db.outbox.rows ++ new
  untouched : ∀ id, onAccount id t.entries = [] → reportedBy id new = [] ∧ updatedBy id new = []
  touched : ∀ id, onAccount id t.entries ≠ [] → ∃ b r, db'.accounts.find? id = some r ∧
    Reports b r ∧ reportedBy id new = [(t.id, b)] ∧ updatedBy id new = [(t.id, b)]

def OutsideCall : TxCall → Prop
  | .appendEvent _ e => ¬Telling e
  | c => HookCall c

theorem OutsideCall.hookCall {c : TxCall} (h : OutsideCall c) : HookCall c := by
  cases c with
  | appendEvent id e => exact fun he => h (.inl he)
  | _ => exact h

theorem run_outsideCalls {p : TxM Unit} {u : Unit} (hp : p.OnlyCalls OutsideCall)
    (h : p.run (exec now) s = .ok (u, s')) :
    ∃ rest, s'.db.outbox.rows = s.db.outbox.rows ++ rest ∧ ∀ x ∈ rest, ¬Telling x.2 := by
  refine Prog.run_of_onlyCalls (T := fun s s' : TxState => ∃ rest,
    s'.db.outbox.rows = s.db.outbox.rows ++ rest ∧ ∀ x ∈ rest, ¬Telling x.2)
    (fun s => ⟨[], by simp⟩) ?_ ?_ hp h
  · rintro s s' s'' ⟨rest, hrest, hnone⟩ ⟨rest', hrest', hnone'⟩
    refine ⟨rest ++ rest', by rw [hrest', hrest, List.append_assoc], fun x hx => ?_⟩
    exact (List.mem_append.1 hx).elim (hnone x) (hnone' x)
  · intro c s r s' hc hcall
    cases c with
    | appendEvent id e => exact ⟨[(id, e)], append_rows hcall, by simpa [OutsideCall] using hc⟩
    | applyPendingDelta d =>
      obtain ⟨db₁, hdb, he⟩ := map_eq_ok.1 hcall
      cases he
      obtain ⟨row, b, hr, hm, rfl⟩ := applyPendingDelta_eq_ok hdb
      exact ⟨[], by simp⟩
    | commitSagaStep c =>
      obtain ⟨db₁, hdb, he⟩ := map_eq_ok.1 hcall
      cases he
      obtain ⟨_, _, rfl⟩ := Saga.commitStep_tables hdb
      exact ⟨[], by simp⟩
    | completeIdempotency c =>
      obtain ⟨db₁, hdb, he⟩ := map_eq_ok.1 hcall
      cases he
      obtain ⟨_, rfl⟩ := Idempotency.complete_tables hdb
      exact ⟨[], by simp⟩
    | _ => exact hc.elim

theorem Announcement.recounts {after : TxM Unit} (h : Announcement db db' t after)
    (hafter : after.OnlyCalls OutsideCall) : ∃ new, Recounts db db' t new := by
  obtain ⟨e, occurredAt, htype, hreports, hrows⟩ := appendTransactionEvent_rows h.announces
  obtain ⟨rest, hrest, hnone⟩ := run_outsideCalls hafter h.runs
  have hquiet := run_hookCalls (hafter.mono fun _ => OutsideCall.hookCall) h.runs
  rw [← h.result] at hrest hquiet
  have htransactional : Transactional e := by
    rw [Transactional, htype]
    exact h.type
  have hnotUpdated : e.eventType ≠ "BalanceUpdated" := by
    rcases h.type with ht | ht <;> rw [htype, ht] <;> decide
  -- Both kinds of event report the same balances, and what follows them reports none.
  obtain ⟨updates, hupdates⟩ : ∃ updates, updates = h.balances.zipIdx.map fun (b, i) =>
    (h.d.eventID (i + 1), balanceUpdatedEvent t occurredAt b) := ⟨_, rfl⟩
  rw [← hupdates] at hrows
  have hreported (id : UUID) : reportedBy id (((h.d.eventID 0, e) :: updates) ++ rest) =
      (h.balances.filter fun b => b.accountID = id).map fun b => (t.id, b) := by
    rw [reportedBy_append, reportedBy_eq_nil fun x hx ht => hnone x hx (.inl ht), List.append_nil]
    change (if Transactional e then _ else _) ++ reportedBy id updates = _
    rw [if_pos htransactional, hreports, reportedBy_eq_nil, List.append_nil, List.filter_map]
    · rfl
    · intro x hx
      rw [hupdates] at hx
      obtain ⟨_, -, rfl⟩ := List.mem_map.1 hx
      simp [Transactional, balanceUpdatedEvent]
  have hupdated (id : UUID) : updatedBy id (((h.d.eventID 0, e) :: updates) ++ rest) =
      (h.balances.filter fun b => b.accountID = id).map fun b => (t.id, b) := by
    rw [updatedBy_append, updatedBy_eq_nil fun x hx ht => hnone x hx (.inr ht), List.append_nil]
    change (if e.eventType = "BalanceUpdated" then _ else _) ++ updatedBy id updates = _
    rw [if_neg hnotUpdated, List.nil_append, hupdates, updatedBy_balances]
  refine ⟨((h.d.eventID 0, e) :: updates) ++ rest, ?_, fun id hid => ?_, fun id hid => ?_⟩
  · rw [hrest, hrows, h.marks_outbox, h.writes.outbox, List.append_assoc]
  · have hnil : h.balances.filter (fun b => b.accountID = id) = [] := by
      refine List.filter_eq_nil_iff.2 fun b hb heq => ?_
      exact h.mem_accounts.1 (List.mem_map.2 ⟨b, hb, of_decide_eq_true heq⟩) hid
    rw [hreported, hupdated, hnil]
    exact ⟨rfl, rfl⟩
  · obtain ⟨b, hb, rfl⟩ := List.mem_map.1 (h.mem_accounts.2 hid)
    have hnd : (h.balances.map fun b => b.accountID).Nodup :=
      h.accounts ▸ sortedAccountIDs_nodup h.requests
    obtain ⟨r, hr, hreport⟩ := h.reports b hb
    have hsame := run_events (appendTransactionEvent_events ..) h.announces
    obtain ⟨outbox, hsame⟩ := hsame
    obtain ⟨r', hr', hreport'⟩ := hreport.of_unreported hquiet (by
      rw [hsame, h.marks_accounts, hr])
    refine ⟨b, r', hr', hreport', ?_, ?_⟩
    · rw [hreported, filter_accountID hnd hb]
      rfl
    · rw [hupdated, filter_accountID hnd hb]
      rfl

/-- A hook that appends none of the ledger's own events, as no hook of the service does. -/
def Discreet (record : Option Recorder) : Prop :=
  ∀ r ∈ record, ∀ t, (r t).OnlyCalls OutsideCall

theorem discreet_none : Discreet none := nofun

theorem Discreet.afterEvents {record : Option Recorder} (h : Discreet record)
    (idem : Option Idempotent) (t : Transaction) :
    (afterEvents record idem t).OnlyCalls OutsideCall :=
  (onlyCalls_runRecord h t).bind fun _ =>
    onlyCalls_completeIdempotency (fun _ => trivial) idem t

theorem Posting.run_recounts {op : Posting} (hop : Discreet op.record) (h : op.run db = .ok (t, db')) :
    ∃ new, Recounts db db' t new := by
  cases op with
  | post d txID req hooks =>
    obtain ⟨ha⟩ := postTransaction_announcement h
    exact ha.recounts (Discreet.afterEvents hop _ _)
  | reverse d reversalID txID reason idem record hooks =>
    obtain ⟨ha⟩ := doReverse_announcement h
    exact ha.recounts (Discreet.afterEvents hop _ _)

/-- The transactions that calls which ended have committed, in the order of their commits. -/
def committedTransactions (finished : List (Engine.Finished Error Posting Transaction)) :
    List Transaction :=
  finished.filterMap fun f => f.outcome.toOption

def journalOf (ts : List Transaction) : List JournalEntry := ts.flatMap fun t => t.entries

def touching (id : UUID) (ts : List Transaction) : List Transaction :=
  ts.filter fun t => onAccount id t.entries ≠ []

/-- What there is to say of an account after the last transaction `t` of `ts`: its id, its number
among those that touch the account, and the sum of the account's entries in the journal. -/
def accountReport (n : Direction) (id : UUID) (ts : List Transaction) (t : Transaction) :
    UUID × ℤ × ℤ :=
  (t.id, (touching id ts).length, signedTotal n (onAccount id (journalOf ts)))

def accountHistory (n : Direction) (id : UUID) (ts : List Transaction) : List (UUID × ℤ × ℤ) :=
  (List.range ts.length).filterMap fun i => ts[i]?.bind fun t =>
    if onAccount id t.entries = [] then none else some (accountReport n id (ts.take (i + 1)) t)

theorem accountHistory_concat (n : Direction) (id : UUID) (ts : List Transaction) (t : Transaction) :
    accountHistory n id (ts ++ [t]) = accountHistory n id ts ++
      if onAccount id t.entries = [] then [] else [accountReport n id (ts ++ [t]) t] := by
  rw [accountHistory, List.length_append, List.length_singleton, List.range_succ,
    List.filterMap_append]
  congr 1
  · refine List.filterMap_congr fun i hi => ?_
    have hlt : i < ts.length := List.mem_range.1 hi
    rw [List.getElem?_append_left hlt, List.take_append_of_le_length hlt]
  · have htake : (ts ++ [t]).take (ts.length + 1) = ts ++ [t] := List.take_of_length_le (by simp)
    by_cases hnil : onAccount id t.entries = [] <;> simp [hnil, htake]

theorem accountHistory_versions (n : Direction) (id : UUID) (ts : List Transaction) :
    (accountHistory n id ts).map (fun x => x.2.1) =
      (List.range (touching id ts).length).map fun v : ℕ => (v : ℤ) + 1 := by
  induction ts using List.reverseRecOn with
  | nil => rfl
  | append_singleton ts t ih =>
    rw [accountHistory_concat, List.map_append, ih]
    by_cases hnil : onAccount id t.entries = []
    · simp [touching, hnil]
    · simp [touching, accountReport, hnil, List.range_succ]

theorem accountHistory_ids (n : Direction) (id : UUID) (ts : List Transaction) :
    (accountHistory n id ts).map (fun x => x.1) = (touching id ts).map fun t => t.id := by
  induction ts using List.reverseRecOn with
  | nil => rfl
  | append_singleton ts t ih =>
    rw [accountHistory_concat, List.map_append, ih]
    by_cases hnil : onAccount id t.entries = [] <;> simp [touching, accountReport, hnil]

def said (x : UUID × EventBalance) : UUID × ℤ × ℤ :=
  (x.1, x.2.version.toInt, x.2.available.amountMinor.toInt)

/-- Both kinds of event tell the history of every account. -/
structure Chronicle (done : List (Engine.Finished Error Posting Transaction)) (db : DB) : Prop where
  agrees : Agrees db
  journal : journalEntries db = journalOf (committedTransactions done)
  postings : ∀ id, postingsOn id db = (touching id (committedTransactions done)).map fun t => t.id
  reported : ∀ id r, db.accounts.find? id = some r →
    (reportedBy id db.outbox.rows).map said =
      accountHistory r.normalBalance id (committedTransactions done)
  updated : ∀ id r, db.accounts.find? id = some r →
    (updatedBy id db.outbox.rows).map said =
      accountHistory r.normalBalance id (committedTransactions done)

theorem Chronicle.init {db₀ : DB} (h₀ : NoEntries db₀) (hquiet : ∀ x ∈ db₀.outbox.rows, ¬Telling x.2) :
    Chronicle [] db₀ := by
  have hjournal : journalEntries db₀ = [] := by simp [journalEntries, h₀.journal]
  refine ⟨h₀.agrees, hjournal, fun id => ?_, fun id r _ => ?_, fun id r _ => ?_⟩
  · simp [postingsOn, entriesOn, transactionEntries, hjournal, onAccount, touching,
      committedTransactions]
  · rw [reportedBy_eq_nil fun x hx ht => hquiet x hx (.inl ht)]
    rfl
  · rw [updatedBy_eq_nil fun x hx ht => hquiet x hx (.inr ht)]
    rfl

theorem Chronicle.fail (h : Chronicle done db) (op : Posting) (e : Error) :
    Chronicle (done ++ [⟨op, .error e⟩]) db := by
  have hsame : committedTransactions (done ++ [⟨op, .error e⟩]) = committedTransactions done := by
    simp [committedTransactions, Except.toOption]
  exact ⟨h.agrees, hsame ▸ h.journal, hsame ▸ h.postings, hsame ▸ h.reported, hsame ▸ h.updated⟩

theorem Chronicle.commit {op : Posting} (h : Chronicle done db) (hop : Discreet op.record)
    (hrun : op.run db = .ok (t, db')) : Chronicle (done ++ [⟨op, .ok t⟩]) db' := by
  have hc := (Posting.run_eq_ok hrun).1
  obtain ⟨new, hnew⟩ := Posting.run_recounts hop hrun
  obtain ⟨pending, hmoved⟩ := hc.accounts
  have hagrees := hc.agrees h.agrees
  have hts : committedTransactions (done ++ [⟨op, .ok t⟩]) = committedTransactions done ++ [t] := by
    simp [committedTransactions, Except.toOption]
  have hjournal : journalEntries db' = journalOf (committedTransactions done ++ [t]) := by
    rw [hc.journal, h.journal, journalOf, journalOf, List.flatMap_append, List.flatMap_singleton]
  have hpostings (id : UUID) :
      postingsOn id db' = (touching id (committedTransactions done ++ [t])).map fun t => t.id := by
    rw [hc.postingsOn h.agrees.referenced, h.postings]
    by_cases hnil : onAccount id t.entries = [] <;> simp [touching, hnil]
  have hsaid {id : UUID} {r' : AccountRow} (hr' : db'.accounts.find? id = some r') {b : EventBalance}
      (hb : Reports b r') :
      said (t.id, b) = accountReport r'.normalBalance id (committedTransactions done ++ [t]) t := by
    have hrow := hagrees.rows id r' hr'
    rw [said, accountReport, hb.version, hb.available, hrow.version, hrow.available, hpostings,
      List.length_map, hjournal]
  have hstep {id : UUID} {r' : AccountRow} (hr' : db'.accounts.find? id = some r')
      {old rest : List (UUID × EventBalance)}
      (hold : ∀ r, db.accounts.find? id = some r →
        old.map said = accountHistory r.normalBalance id (committedTransactions done))
      (huntouched : onAccount id t.entries = [] → rest = [])
      (htouched : onAccount id t.entries ≠ [] → ∃ b, Reports b r' ∧ rest = [(t.id, b)]) :
      (old ++ rest).map said =
        accountHistory r'.normalBalance id (committedTransactions (done ++ [⟨op, .ok t⟩])) := by
    obtain ⟨r, hr, hrow⟩ := hmoved.rows_of_after hr'
    have hnormal : r'.normalBalance = r.normalBalance := congrArg _ hrow.columns
    rw [hts, accountHistory_concat, List.map_append, hold r hr, hnormal]
    by_cases hnil : onAccount id t.entries = []
    · rw [if_pos hnil, huntouched hnil, List.map_nil]
    · obtain ⟨b, hb, rfl⟩ := htouched hnil
      rw [if_neg hnil, List.map_singleton, hsaid hr' hb, hnormal]
  refine ⟨hagrees, hts ▸ hjournal, hts ▸ hpostings, fun id r' hr' => ?_, fun id r' hr' => ?_⟩
  · rw [hnew.rows, reportedBy_append]
    refine hstep hr' (h.reported id) (fun hnil => (hnew.untouched id hnil).1) fun hne => ?_
    obtain ⟨b, r, hr, hb, hrest, -⟩ := hnew.touched id hne
    obtain rfl : r = r' := Option.some.inj (hr.symm.trans hr')
    exact ⟨b, hb, hrest⟩
  · rw [hnew.rows, updatedBy_append]
    refine hstep hr' (h.updated id) (fun hnil => (hnew.untouched id hnil).2) fun hne => ?_
    obtain ⟨b, r, hr, hb, -, hrest⟩ := hnew.touched id hne
    obtain rfl : r = r' := Option.some.inj (hr.symm.trans hr')
    exact ⟨b, hb, hrest⟩

def committedCalls (finished : List (Engine.Finished Error Posting Transaction)) :
    List (Engine.Finished Error Posting Transaction) :=
  finished.filter fun f => f.outcome.isOk

/-- The calls that committed, run by themselves, leave the same database. -/
def LeftBy (db₀ : DB) (done : List (Engine.Finished Error Posting Transaction)) (db : DB) : Prop :=
  runPostings db₀ ((committedCalls done).map fun f => f.kind) =
    ((committedCalls done).map fun f => f.outcome, db)

theorem LeftBy.fail {db₀ : DB} (h : LeftBy db₀ done db) (op : Posting) (e : Error) :
    LeftBy db₀ (done ++ [⟨op, .error e⟩]) db := by
  have hsame : committedCalls (done ++ [⟨op, .error e⟩]) = committedCalls done := by
    simp [committedCalls, Except.isOk, Except.toBool]
  rwa [LeftBy, hsame]

theorem LeftBy.commit {db₀ : DB} {op : Posting} (h : LeftBy db₀ done db)
    (hrun : op.run db = .ok (t, db')) : LeftBy db₀ (done ++ [⟨op, .ok t⟩]) db' := by
  have hsnoc : committedCalls (done ++ [⟨op, .ok t⟩]) = committedCalls done ++ [⟨op, .ok t⟩] := by
    simp [committedCalls, Except.isOk, Except.toBool]
  unfold LeftBy at h ⊢
  unfold runPostings at h ⊢
  rw [hsnoc, List.map_append, List.map_append, List.foldl_append, h]
  simp only [List.map_cons, List.map_nil, List.foldl_cons, List.foldl_nil, hrun]

theorem interleaved_chronicle {db₀ : DB} (h₀ : NoEntries db₀)
    (hquiet : ∀ x ∈ db₀.outbox.rows, ¬Telling x.2) {actions : List (Engine.Action Posting)}
    {s : Interleaved} (h : (Engine.Sys.init db₀ : Interleaved).run engine actions = some s) :
    (∀ f ∈ s.finished, Discreet f.kind.record) → Chronicle s.finished s.committed := by
  refine interleaved_induction
    (motive := fun done db => (∀ f ∈ done, Discreet f.kind.record) → Chronicle done db) h
    (fun _ => .init h₀ hquiet) ?_ ?_
  · intro done db op e hdone hooks
    exact (hdone fun f hf => hooks f (List.mem_append_left _ hf)).fail op e
  · intro done db db' op t hdone hrun hooks
    exact (hdone fun f hf => hooks f (List.mem_append_left _ hf)).commit
      (hooks ⟨op, .ok t⟩ (by simp)) hrun

/-- However postings and reversals interleave, both kinds of event give each account's versions
from one to its current one, in the order of the commits. The event of a version belongs to the
transaction of that number on the account, and its balance is the account's sum in the journal
after it. What is rolled back leaves nothing: the committed calls alone leave the same database. -/
theorem event_log_faithful {db₀ : DB} (h₀ : NoEntries db₀)
    (hquiet : ∀ x ∈ db₀.outbox.rows, ¬Telling x.2) {actions : List (Engine.Action Posting)}
    {s : Interleaved} (h : (Engine.Sys.init db₀ : Interleaved).run engine actions = some s)
    (hooks : ∀ f ∈ s.finished, Discreet f.kind.record) :
    journalEntries s.committed = journalOf (committedTransactions s.finished) ∧
    (∀ id r, s.committed.accounts.find? id = some r →
      r.balance.version.toInt = (touching id (committedTransactions s.finished)).length ∧
      (∀ reports ∈ [reportedBy id s.committed.outbox.rows, updatedBy id s.committed.outbox.rows],
        reports.map said =
          accountHistory r.normalBalance id (committedTransactions s.finished) ∧
        reports.map (fun x => x.1) =
          (touching id (committedTransactions s.finished)).map (fun t => t.id) ∧
        reports.map (fun x => x.2.version.toInt) =
          (List.range r.balance.version.toInt.toNat).map fun v : ℕ => (v : ℤ) + 1)) ∧
    LeftBy db₀ s.finished s.committed := by
  have hc := interleaved_chronicle h₀ hquiet h hooks
  refine ⟨hc.journal, fun id r hr => ?_, interleaved_induction h rfl (fun _ _ op e hdone =>
    hdone.fail op e) fun _ _ _ _ _ hdone hrun => hdone.commit hrun⟩
  have hversion : r.balance.version.toInt = (touching id (committedTransactions s.finished)).length := by
    rw [(hc.agrees.rows id r hr).version, hc.postings, List.length_map]
  refine ⟨hversion, fun reports hreports => ?_⟩
  have hsaid : reports.map said =
      accountHistory r.normalBalance id (committedTransactions s.finished) := by
    rcases List.mem_pair.1 hreports with rfl | rfl
    · exact hc.reported id r hr
    · exact hc.updated id r hr
  refine ⟨hsaid, ?_, ?_⟩
  · rw [← accountHistory_ids r.normalBalance, ← hsaid, List.map_map]
    rfl
  · rw [hversion, Int.toNat_natCast, ← accountHistory_versions r.normalBalance, ← hsaid, List.map_map]
    rfl

theorem sampleOps_noEntries : NoEntries (runOps (sampleOps.take 2) .empty) := by
  have hrows : (runOps (sampleOps.take 2) .empty).accounts.rows.all (fun x =>
      x.2.balance.availableMinor = 0 ∧ x.2.balance.version = 0 ∧ x.2.balance.lastEntryID = none) =
        true := by decide +kernel
  exact ⟨by decide +kernel, fun id r hr =>
    of_decide_eq_true (List.all_eq_true.1 hrows (id, r) (Table.find?_eq_some.1 hr))⟩

theorem sampleOps_quiet : ∀ x ∈ (runOps (sampleOps.take 2) .empty).outbox.rows, ¬Telling x.2 := by
  have hcreated : (runOps (sampleOps.take 2) .empty).outbox.rows.all (fun x =>
      x.2.eventType = "AccountCreated") = true := by decide +kernel
  intro x hx
  have htype : x.2.eventType = "AccountCreated" := of_decide_eq_true (List.all_eq_true.1 hcreated x hx)
  simp [Telling, Transactional, htype]

/-- A wallet is funded while a payout from it waits, and the funding can then not be reversed. -/
def sampleEventful : List (Engine.Action Posting) :=
  [.begin 0 (.post (sampleDraws 9) 9 (sampleRequest 1 2 500) recording_none),
    .begin 1 (samplePosting 10), .advance 0, .advance 1] ++ List.replicate 9 (.advance 0) ++
    List.replicate 9 (.advance 1) ++
    .begin 0 (sampleReversal 12 9) :: List.replicate 5 (.advance 0)

theorem event_log_faithful_sample :
    ∃ s, (Engine.Sys.init (runOps (sampleOps.take 2) .empty) : Interleaved).run engine
        sampleEventful = some s ∧
      (s.finished.map fun f => f.outcome.isOk) = [true, true, false] ∧
      (updatedBy 2 s.committed.outbox.rows).map said = [(9, 1, 500), (10, 2, 100)] ∧
      LeftBy (runOps (sampleOps.take 2) .empty) s.finished s.committed := by
  have hsome : ((Engine.Sys.init (runOps (sampleOps.take 2) .empty) : Interleaved).run engine
      sampleEventful).any (fun s => (s.finished.map fun f => f.outcome.isOk) = [true, true, false] ∧
        (updatedBy 2 s.committed.outbox.rows).map said = [(9, 1, 500), (10, 2, 100)] ∧
        s.finished.all (fun f => f.kind.record.isNone) = true) = true := by
    decide +kernel
  obtain ⟨s, hrun, hs⟩ := (Option.any_eq_true ..).1 hsome
  obtain ⟨houtcomes, hsaid, hrecords⟩ := of_decide_eq_true hs
  refine ⟨s, hrun, houtcomes, hsaid,
    (event_log_faithful sampleOps_noEntries sampleOps_quiet hrun fun f hf => ?_).2.2⟩
  have hnone : f.kind.record = none :=
    Option.isNone_iff_eq_none.1 (List.all_eq_true.1 hrecords f hf)
  rw [hnone]
  exact discreet_none

end LedgerCore.Ledger
