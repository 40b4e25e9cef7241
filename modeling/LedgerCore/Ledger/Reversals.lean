import LedgerCore.Ledger.Keys
import LedgerCore.Ledger.Serializable
import LedgerCore.Ledger.TrialBalance

/-! Reversals: a transaction is undone at most once, account by account, and nothing of it changes
but its status. -/
namespace LedgerCore.Ledger
open LedgerCore.Program
variable {txID : UUID}

variable {db db' : DB} {t : Transaction}

def Posting.reverses : Posting → Option UUID
  | .post _ _ _ _ => none
  | .reverse _ _ txID _ _ _ _ => some txID

def statusOf (txID : UUID) (db : DB) : Option TransactionStatus :=
  (db.transactions.find? txID).map fun r => r.status

def deltaOn (id txID : UUID) (db : DB) : ℤ :=
  ((db.accounts.find? id).map fun r => signedTotal r.normalBalance (entriesOn id txID db)).getD 0

def JournalEntry.request (e : JournalEntry) : EntryRequest := ⟨e.accountID, e.direction, e.amount⟩

theorem map_request_postedEntries (d : Draws) (txID : UUID) (requests : List EntryRequest) :
    (postedEntries d txID requests).map JournalEntry.request = requests := by
  have hfst : (fun x : EntryRequest × ℕ => (⟨x.1.accountID, x.1.direction, x.1.amount⟩ : EntryRequest)) =
      Prod.fst := rfl
  simp only [postedEntries, buildEntries, List.map_map, Function.comp_def, JournalEntry.request, hfst,
    List.zipIdx_map_fst]

theorem signedTotal_onAccount_cons (n : Direction) (id : UUID) (e : JournalEntry)
    (es : List JournalEntry) : signedTotal n (onAccount id (e :: es)) =
      (if e.accountID = id then signed e.direction n e.amount.amountMinor.toInt else 0) +
        signedTotal n (onAccount id es) := by
  by_cases h : e.accountID = id <;> simp [onAccount, signedTotal, h]

/-- Mirrored legs undo the legs they mirror on every account, however often it is named. -/
theorem signedTotal_mirrored {n : Direction} (hn : n.Valid) (id : UUID) {es es' : List JournalEntry}
    (hv : ∀ e ∈ es, e.direction.Valid) (h : es'.map JournalEntry.request = mirrored es) :
    signedTotal n (onAccount id es') = -signedTotal n (onAccount id es) := by
  induction es generalizing es' with
  | nil =>
    obtain rfl := List.map_eq_nil_iff.1 h
    rfl
  | cons e es ih =>
    obtain ⟨e', es', rfl, he, hes⟩ := List.map_eq_cons_iff.1 h
    obtain ⟨hacc, hdir, hamount⟩ := EntryRequest.mk.inj he
    have hrest := ih (fun x hx => hv x (List.mem_cons_of_mem _ hx)) hes
    rw [signedTotal_onAccount_cons, signedTotal_onAccount_cons, hacc, hdir, hamount, hrest]
    split_ifs
    · rw [signed_opposite (hv e List.mem_cons_self) hn, neg_add]
    · rw [zero_add, zero_add]

theorem signedTotal_onAccount_perm {n : Direction} {id : UUID} {es es' : List JournalEntry}
    (h : es.Perm es') : signedTotal n (onAccount id es) = signedTotal n (onAccount id es') :=
  ((h.filter _).map _).sum_eq

/-- What a call that commits does to the statuses: its own transaction is posted, and the one it
reverses, which was posted, is marked. -/
structure Marks (reverses : Option UUID) (t : Transaction) (db db' : DB) : Prop where
  own : statusOf t.id db' = some .posted
  target : ∀ txID ∈ reverses, statusOf txID db = some .posted ∧ statusOf txID db' = some .reversed
  others : ∀ txID, txID ≠ t.id → txID ∉ reverses → statusOf txID db' = statusOf txID db

/-- The entries of `t` are those of a transaction, each on the other side. -/
def Undoes (txID : UUID) (db : DB) (t : Transaction) : Prop :=
  ∃ es, es.Perm (transactionEntries txID db) ∧ t.entries.map JournalEntry.request = mirrored es

theorem Written.statusOf {d : Draws} {header : Transaction} {requests : List EntryRequest}
    {s s' : TxState} (h : Written d header requests s s') (txID : UUID) :
    statusOf txID s'.db = if txID = header.id then some header.status else statusOf txID s.db := by
  obtain ⟨row, hrow, hi⟩ := h.row
  rw [Ledger.statusOf, Table.find?_insert hi]
  split_ifs
  · simp [hrow, headerColumns]
  · rfl

theorem postTransaction_marks {d : Draws} {req : TransactionRequest} (hooks : Recording req.record)
    (h : postTransaction d txID req db = .ok (t, db')) : Marks none t db db' := by
  obtain ⟨_, -, h⟩ := bind_eq_ok.1 h
  obtain ⟨s, hrun, -, rfl⟩ := inTx_eq_ok h
  obtain ⟨requests, s₁, outbox, s₂, -, rfl, hwritten, hrecord, hcomplete⟩ := postTx_eq_ok hrun
  have hooks' : Recording req.withKey.record := by rwa [record_withKey]
  have hside := (run_sideCalls (hooks'.sideCalls _) hrecord).trans
    (run_sideCalls (completeIdempotency_sideCalls _ _) hcomplete)
  have hstatus (id : UUID) : statusOf id s.db = statusOf id s₁.db := by
    rw [statusOf, hside.transactions]
    rfl
  refine ⟨?_, by simp, fun id hne _ => ?_⟩
  · rw [hstatus, hwritten.statusOf]
    exact if_pos rfl
  · rw [hstatus, hwritten.statusOf]
    exact if_neg hne

theorem doReverse_marks {d : Draws} {reversalID : UUID} {reason : String} {idem : Option Idempotent}
    {record : Option Recorder} (hooks : Recording record)
    (h : doReverse d reversalID txID reason idem record db = .ok (t, db')) :
    Marks (some txID) t db db' ∧ Undoes txID db t := by
  unfold doReverse at h
  split_ifs at h
  obtain ⟨s, hrun, -, rfl⟩ := inTx_eq_ok h
  obtain ⟨original, s₁, outbox, s₂, r, hload, hposted, -, rfl, hwritten, hr, hs, hrecord, hcomplete⟩ :=
    reverseTx_eq_ok hrun
  have hside := (run_sideCalls (hooks.sideCalls _) hrecord).trans
    (run_sideCalls (completeIdempotency_sideCalls _ _) hcomplete)
  obtain ⟨r₀, hr₀, -, hstatus₀, hentries⟩ := loadTransactionForUpdate_eq_ok hload
  have hbefore : statusOf txID db = some .posted := by
    simp [statusOf, hr₀, ← hstatus₀, hposted]
  -- The reversal's own header is new, so it is not the one it marks.
  have hne : txID ≠ reversalID := by
    rintro rfl
    have hfresh := (Table.insert?_eq_some.1 hwritten.row.choose_spec.2).1
    cases hfresh.symm.trans hr₀
  have hstatus (id : UUID) : statusOf id s.db =
      if id = txID then some .reversed else statusOf id s₁.db := by
    rw [statusOf, hside.transactions, Table.find?_modify]
    split_ifs with hid
    · simp [hid, hr, reversedRow_of_posted hs]
    · rfl
  refine ⟨⟨?_, ?_, fun id hid hmem => ?_⟩, original.entries, ?_, map_request_postedEntries ..⟩
  · have hown := hstatus reversalID
    rw [if_neg hne.symm, hwritten.statusOf] at hown
    exact hown.trans (if_pos rfl)
  · intro id hid
    obtain rfl := Option.some.inj hid
    exact ⟨hbefore, by rw [hstatus, if_pos rfl]⟩
  · have hid' : id ≠ txID := fun he => hmem (he ▸ rfl)
    rw [hstatus, if_neg hid', hwritten.statusOf]
    exact if_neg hid
  · rw [hentries, map_toEntry_entriesOf]
    exact List.perm_insertionSort _ _

theorem Posting.run_eq_ok {op : Posting} (h : op.run db = .ok (t, db')) :
    Committed db db' t ∧ Marks op.reverses t db db' ∧ ∀ txID ∈ op.reverses, Undoes txID db t := by
  cases op with
  | post d txID req hooks =>
    exact ⟨(postTransaction_committed hooks h).1, postTransaction_marks hooks h, by
      simp [Posting.reverses]⟩
  | reverse d reversalID txID reason idem record hooks =>
    obtain ⟨hmarks, hundoes⟩ := doReverse_marks hooks h
    refine ⟨(doReverse_committed hooks h).1, hmarks, fun id hid => ?_⟩
    obtain rfl := Option.some.inj hid
    exact hundoes

/-- The reversals of a transaction among the calls that ended: those that committed. -/
def reversalsOf (txID : UUID) (finished : List (Engine.Finished Error Posting Transaction)) :
    List (Engine.Finished Error Posting Transaction) :=
  finished.filter fun f => f.kind.reverses = some txID && f.outcome.isOk

def committedIDs (finished : List (Engine.Finished Error Posting Transaction)) : List UUID :=
  finished.filterMap fun f => f.outcome.toOption.map fun t => t.id

/-- A transaction is in the database as it was returned, up to its status. -/
def Stored (c : TransactionColumns) (entries : List JournalEntry) (txID : UUID) (db : DB) : Prop :=
  ∃ r, db.transactions.find? txID = some r ∧ HeaderOf c r ∧ transactionEntries txID db = entries

/-- What holds of the calls that ended, in the order in which they did, since the database was
`db₀`. -/
structure Reversals (db₀ : DB) (done : List (Engine.Finished Error Posting Transaction)) (db : DB) :
    Prop where
  referenced : Referenced db
  once : ∀ txID, (reversalsOf txID done).length + (if statusOf txID db₀ = some .reversed then 1 else 0) =
    if statusOf txID db = some .reversed then 1 else 0
  kept : ∀ txID r, db₀.transactions.find? txID = some r →
    Stored r.toTransactionColumns (transactionEntries txID db₀) txID db
  stored : ∀ f ∈ done, ∀ t, f.outcome = .ok t → Stored t.columns t.entries t.id db
  negated : ∀ f ∈ done, ∀ txID t, f.kind.reverses = some txID → f.outcome = .ok t →
    txID ∈ db.transactions.keys ∧ ∀ id, deltaOn id t.id db = -deltaOn id txID db
  moved : ∀ id r, db₀.accounts.find? id = some r → ∃ r', db.accounts.find? id = some r' ∧
    r'.balance.availableMinor.toInt = r.balance.availableMinor.toInt +
      ((committedIDs done).map fun txID => deltaOn id txID db).sum

theorem mem_keys_iff_statusOf {db : DB} :
    txID ∈ db.transactions.keys ↔ statusOf txID db ≠ none := by
  rw [Table.mem_keys, ← Option.ne_none_iff_exists', statusOf, ne_eq, ne_eq,
    Option.map_eq_none_iff]

section Step
variable {op : Posting} {done : List (Engine.Finished Error Posting Transaction)} {db₀ : DB}

theorem Committed.deltaOn_old (h : Committed db db' t) (hne : txID ≠ t.id) (id : UUID) :
    deltaOn id txID db' = deltaOn id txID db := by
  obtain ⟨p, hp⟩ := h.accounts
  rw [deltaOn, deltaOn, entriesOn, entriesOn, h.transactionEntries_old hne]
  cases hr : db.accounts.find? id with
  | none =>
    have hnone : db'.accounts.find? id = none := by
      rw [Table.find?_eq_none, hp.keys, ← Table.find?_eq_none, hr]
    rw [hnone]
  | some r =>
    obtain ⟨r', hr', hm⟩ := hp.rows id r hr
    simp [hr', hm.columns]

theorem Committed.deltaOn_new (h : Committed db db' t) (href : Referenced db) {id : UUID}
    {r : AccountRow} (hr : db.accounts.find? id = some r) :
    deltaOn id t.id db' = signedTotal r.normalBalance (onAccount id t.entries) := by
  obtain ⟨p, hp⟩ := h.accounts
  obtain ⟨r', hr', hm⟩ := hp.rows id r hr
  simp [deltaOn, entriesOn, h.transactionEntries_new href, hr', hm.columns]

theorem Committed.mem_keys (h : Committed db db' t) (hmem : txID ∈ db.transactions.keys) :
    txID ∈ db'.transactions.keys ∧ txID ≠ t.id := by
  refine ⟨by rw [h.keys]; exact List.mem_append_left _ hmem, ?_⟩
  rintro rfl
  exact Table.find?_eq_none.1 h.fresh hmem

theorem Committed.stored_old (h : Committed db db' t) {c : TransactionColumns}
    {entries : List JournalEntry} (hs : Stored c entries txID db) : Stored c entries txID db' := by
  obtain ⟨r, hr, hof, hentries⟩ := hs
  obtain ⟨-, hne⟩ := h.mem_keys (Table.mem_keys.2 ⟨r, hr⟩)
  obtain ⟨r', hr', hkept⟩ := h.headers txID r hr
  exact ⟨r', hr', hof.trans hkept, (h.transactionEntries_old hne).trans hentries⟩

theorem Committed.deltaOn_undoes (h : Committed db db' t) (href : Referenced db)
    (hmem : txID ∈ db.transactions.keys) (hu : Undoes txID db t) (id : UUID) :
    deltaOn id t.id db' = -deltaOn id txID db' := by
  obtain ⟨es, hperm, hmirror⟩ := hu
  obtain ⟨-, hne⟩ := h.mem_keys hmem
  rw [h.deltaOn_old hne]
  cases hr : db.accounts.find? id with
  | none =>
    obtain ⟨p, hp⟩ := h.accounts
    have hnone : db'.accounts.find? id = none := by
      rw [Table.find?_eq_none, hp.keys, ← Table.find?_eq_none, hr]
    simp [deltaOn, hr, hnone]
  | some r =>
    have hvalid : ∀ e ∈ es, e.direction.Valid := fun e he =>
      journalEntries_valid (List.mem_of_mem_filter (hperm.mem_iff.1 he))
    have hn : r.normalBalance.Valid := by
      rw [r.normal_balance_matches_type_check]
      exact Direction.valid_iff.2 r.type.normalBalance_cases
    rw [h.deltaOn_new href hr, signedTotal_mirrored hn id hvalid hmirror,
      signedTotal_onAccount_perm hperm]
    simp [deltaOn, hr, entriesOn]

theorem Marks.once (h : Marks op.reverses t db db') (hfresh : db.transactions.find? t.id = none)
    (txID : UUID) : (reversalsOf txID (done ++ [⟨op, .ok t⟩])).length +
        (if statusOf txID db = some .reversed then 1 else 0) =
      (reversalsOf txID done).length + if statusOf txID db' = some .reversed then 1 else 0 := by
  have hfresh : statusOf t.id db = none := by rw [statusOf, hfresh]; rfl
  by_cases hmem : txID ∈ op.reverses
  · obtain ⟨hbefore, hafter⟩ := h.target txID hmem
    simp [reversalsOf, List.filter_append, Option.mem_def.1 hmem, hbefore, hafter, Except.isOk,
      Except.toBool]
  · have hnone : reversalsOf txID (done ++ [⟨op, .ok t⟩]) = reversalsOf txID done := by
      have hne : op.reverses ≠ some txID := hmem
      simp [reversalsOf, List.filter_append, hne]
    rw [hnone]
    by_cases hid : txID = t.id
    · rw [hid, hfresh, h.own]
      rfl
    · rw [h.others txID hid hmem]

theorem Reversals.init (href : Referenced db) : Reversals db [] db where
  referenced := href
  once txID := by simp [reversalsOf]
  kept txID r hr := ⟨r, hr, .refl r, rfl⟩
  stored := by simp
  negated := by simp
  moved id r hr := ⟨r, hr, by simp [committedIDs]⟩

theorem Reversals.fail (h : Reversals db₀ done db) (e : Error) :
    Reversals db₀ (done ++ [⟨op, .error e⟩]) db := by
  have hold : ∀ f ∈ done ++ [⟨op, .error e⟩], ∀ t, f.outcome = .ok t → f ∈ done := by
    intro f hf t hok
    rcases List.mem_append.1 hf with hf | hf
    · exact hf
    · rw [List.mem_singleton.1 hf] at hok
      cases hok
  refine ⟨h.referenced, fun txID => ?_, h.kept, fun f hf t hok => h.stored f (hold f hf t hok) t hok,
    fun f hf txID t hrev hok => h.negated f (hold f hf t hok) txID t hrev hok, fun id r hr => ?_⟩
  · simpa [reversalsOf, List.filter_append, Except.isOk, Except.toBool] using h.once txID
  · simpa [committedIDs, List.filterMap_append, Except.toOption] using h.moved id r hr

theorem Reversals.commit (h : Reversals db₀ done db) (hrun : op.run db = .ok (t, db')) :
    Reversals db₀ (done ++ [⟨op, .ok t⟩]) db' := by
  obtain ⟨hc, hmarks, hundoes⟩ := Posting.run_eq_ok hrun
  have href := h.referenced
  refine ⟨hc.referenced href, fun txID => ?_, fun txID r hr => hc.stored_old (h.kept txID r hr),
    fun f hf t' hok => ?_, fun f hf txID t' hrev hok => ?_, fun id r hr => ?_⟩
  · have honce := h.once txID
    have hstep : (reversalsOf txID (done ++ [⟨op, .ok t⟩])).length + _ = _ :=
      hmarks.once hc.fresh txID
    omega
  · rcases List.mem_append.1 hf with hf | hf
    · exact hc.stored_old (h.stored f hf t' hok)
    · rw [List.mem_singleton.1 hf] at hok
      cases hok
      obtain ⟨r, hr, hof⟩ := hc.header
      exact ⟨r, hr, hof, hc.transactionEntries_new href⟩
  · rcases List.mem_append.1 hf with hf | hf
    · obtain ⟨hmem, hneg⟩ := h.negated f hf txID t' hrev hok
      obtain ⟨r, hr, -⟩ := h.stored f hf t' hok
      obtain ⟨-, hne'⟩ := hc.mem_keys (Table.mem_keys.2 ⟨r, hr⟩)
      obtain ⟨hmem', hne⟩ := hc.mem_keys hmem
      exact ⟨hmem', fun id => by rw [hc.deltaOn_old hne, hc.deltaOn_old hne', hneg]⟩
    · rw [List.mem_singleton.1 hf] at hrev hok
      cases hok
      have hmem : txID ∈ db.transactions.keys := by
        rw [mem_keys_iff_statusOf, (hmarks.target txID hrev).1]
        exact Option.some_ne_none _
      exact ⟨(hc.mem_keys hmem).1, hc.deltaOn_undoes href hmem (hundoes txID hrev)⟩
  · obtain ⟨r₁, hr₁, havailable⟩ := h.moved id r hr
    obtain ⟨p, hp⟩ := hc.accounts
    obtain ⟨r', hr', hm⟩ := hp.rows id r₁ hr₁
    -- The transactions committed before this one have the deltas they had.
    have hold : ∀ txID ∈ committedIDs done, deltaOn id txID db' = deltaOn id txID db := by
      intro txID hmem
      obtain ⟨f, hf, ht⟩ := List.mem_filterMap.1 hmem
      obtain ⟨t', ht', rfl⟩ := Option.map_eq_some_iff.1 ht
      have hok : f.outcome = .ok t' := by
        cases ho : f.outcome with
        | error e => rw [ho] at ht'; cases ht'
        | ok x => rw [ho] at ht'; cases ht'; rfl
      obtain ⟨r, hr, -⟩ := h.stored f hf t' hok
      exact hc.deltaOn_old (hc.mem_keys (Table.mem_keys.2 ⟨r, hr⟩)).2 id
    refine ⟨r', hr', ?_⟩
    have hids : committedIDs (done ++ [⟨op, .ok t⟩]) = committedIDs done ++ [t.id] := by
      simp [committedIDs, Except.toOption]
    rw [hm.available, havailable, hids, List.map_append, List.sum_append, List.map_congr_left hold,
      ← hc.deltaOn_new href hr₁]
    simp [add_assoc]

end Step

/-- However reversals and postings interleave, a transaction is reversed exactly when one committed
reversal was produced for it, and never twice. The reversal moves every account by the negated
delta of the transaction, of which nothing else changes; reversing the reversal moves it back. -/
theorem reversed_at_most_once {db : DB} (href : Referenced db)
    {actions : List (Engine.Action Posting)} {s : Interleaved}
    (h : (Engine.Sys.init db : Interleaved).run engine actions = some s) :
    Reversals db s.finished s.committed ∧
      ∀ f ∈ s.finished, ∀ g ∈ s.finished, ∀ txID t t', f.kind.reverses = some txID →
        f.outcome = .ok t → g.kind.reverses = some t.id → g.outcome = .ok t' →
        ∀ id, deltaOn id t'.id s.committed = deltaOn id txID s.committed := by
  have hrev : Reversals db s.finished s.committed :=
    interleaved_induction h (.init href) (fun _ _ _ e hdone => hdone.fail e)
      fun _ _ _ _ _ hdone hrun => hdone.commit hrun
  refine ⟨hrev, fun f hf g hg txID t t' hft ht hgt ht' id => ?_⟩
  rw [(hrev.negated g hg t.id t' hgt ht').2, (hrev.negated f hf txID t hft ht).2, neg_neg]

/-- Two callers reverse the funding at once, and a third then reverses the reversal. -/
def sampleReversal (n : ℕ) (txID : UUID) : Posting :=
  .reverse (sampleDraws n) (BitVec.ofNat 128 n) txID "duplicate" none none recording_none

def sampleReversals : List (Engine.Action Posting) :=
  [.begin 0 (sampleReversal 10 3), .begin 1 (sampleReversal 11 3)] ++
    List.replicate 11 (.advance 0) ++ List.replicate 2 (.advance 1) ++
    .begin 0 (sampleReversal 12 10) :: List.replicate 11 (.advance 0)

theorem reversed_at_most_once_race :
    ∃ s, (Engine.Sys.init (runOps (sampleOps.take 3) DB.empty) : Interleaved).run engine
        sampleReversals = some s ∧
      (s.finished.map fun f => f.outcome.isOk) = [true, false, true] ∧
      deltaOn 2 12 s.committed = 500 ∧
      Reversals (runOps (sampleOps.take 3) DB.empty) s.finished s.committed := by
  have hsome : ((Engine.Sys.init (runOps (sampleOps.take 3) DB.empty) : Interleaved).run engine
      sampleReversals).any (fun s => (s.finished.map fun f => f.outcome.isOk) = [true, false, true] ∧
        deltaOn 2 12 s.committed = 500) = true := by
    decide +kernel
  obtain ⟨s, hrun, hs⟩ := (Option.any_eq_true ..).1 hsome
  obtain ⟨houtcomes, hdelta⟩ := of_decide_eq_true hs
  have href := (runOps_agrees (sampleOps.take 3) noEntries_empty.agrees).referenced
  exact ⟨s, hrun, houtcomes, hdelta, (reversed_at_most_once href hrun).1⟩

end LedgerCore.Ledger
