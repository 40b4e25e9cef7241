import LedgerCore.Ledger.Overdraft
import LedgerCore.Ledger.Reversals

/-! The version that `GetBalance` returns: a sum of counters, one for the account and one for each
shard. It counts transactions where each of them falls on one of these rows only. -/
namespace LedgerCore.Ledger
open LedgerCore.Program

def NamesNoShard (db : DB) (entries : List EntryRequest) : Prop :=
  ∀ e ∈ entries, ∀ r, db.accounts.find? e.accountID = some r → r.parentAccountID = none

def LedgerOp.NamesNoShard (db : DB) : LedgerOp → Prop
  | .postTransaction _ _ req _ => Ledger.NamesNoShard db req.entries
  | _ => True

def Posting.NamesNoShard (db : DB) : Posting → Prop
  | .post _ _ req _ => Ledger.NamesNoShard db req.entries
  | .reverse .. => True

def Transaction.touches (t : Transaction) (id : UUID) (db : DB) : Bool :=
  t.entries.any fun e => e.accountID ∈ physicalIDs id db

/-- Of the account and its shards, at most one row is among the accounts. -/
def OneRow (id : UUID) (db : DB) (accounts : List UUID) : Prop :=
  ∀ a ∈ physicalIDs id db, ∀ a' ∈ physicalIDs id db, a ∈ accounts → a' ∈ accounts → a = a'

variable {db db' : DB} {t : Transaction}

theorem routedAccount_mem_physicalIDs {d : Draws} {entries : List EntryRequest} {a id : UUID}
    (hnone : ∀ r, db.accounts.find? a = some r → r.parentAccountID = none)
    (h : routedAccount d entries db a ∈ physicalIDs id db) :
    a = id ∨ routedAccount d entries db a = id ∧
      ∃ r, db.accounts.find? id = some r ∧ r.parentAccountID = some a := by
  obtain ⟨r, hr, hid⟩ := mem_physicalIDs.1 h
  rcases routedAccount_cases d entries db a with hstay | ⟨r', hr', hparent, -⟩
  · rw [hstay] at hr hid
    rcases hid with hid | hid
    · exact .inl hid
    · exact nomatch (hnone r hr).symm.trans hid
  · obtain rfl : r = r' := Option.some.inj (hr.symm.trans hr')
    rcases hid with hid | hid
    · exact .inr ⟨hid, r, hid ▸ hr, hparent⟩
    · exact .inl (Option.some.inj (hparent.symm.trans hid))

theorem NamesNoShard.oneRow {entries : List EntryRequest} (h : NamesNoShard db entries) (d : Draws)
    (id : UUID) : OneRow id db ((routed d entries db).map fun e => e.accountID) := by
  intro a hid a' hid' ha ha'
  simp only [routed, List.map_map, List.mem_map] at ha ha'
  obtain ⟨e, he, rfl⟩ := ha
  obtain ⟨e', he', rfl⟩ := ha'
  rcases routedAccount_mem_physicalIDs (h e he) hid with hname | ⟨hname, r, hr, hparent⟩
  · rcases routedAccount_mem_physicalIDs (h e' he') hid' with hname' | ⟨-, r, hr, hparent⟩
    · exact congrArg (routedAccount d entries db) (hname.trans hname'.symm)
    · cases (h e he r (hname ▸ hr)).symm.trans hparent
  · rcases routedAccount_mem_physicalIDs (h e' he') hid' with hname' | ⟨hname', -⟩
    · cases (h e' he' r (hname' ▸ hr)).symm.trans hparent
    · exact hname.trans hname'.symm

theorem Shards.physicalIDs_nodup {P : AccountRow → AccountRow → Prop} (h : Shards P db) (id : UUID) :
    (physicalIDs id db).Nodup := by
  have hkeys (p : UUID × AccountRow → Bool) : ((db.accounts.rows.filter p).map Prod.fst).Nodup :=
    db.accounts.nodup.sublist (List.filter_sublist.map _)
  rw [physicalIDs, physical, List.map_append]
  refine List.nodup_append.2 ⟨hkeys _, hkeys _, ?_⟩
  -- An account that is its own shard would be no shard.
  rintro a ha b hb rfl
  obtain ⟨⟨k, r⟩, hr, rfl⟩ := List.mem_map.1 ha
  obtain ⟨⟨k', r'⟩, hr', hk⟩ := List.mem_map.1 hb
  simp only [List.mem_filter, decide_eq_true_eq] at hr hr' hk
  obtain ⟨rp, hrp, hnone, -⟩ := h k' r' id (Table.find?_eq_some.2 hr'.1) hr'.2
  have hsame := (Table.find?_eq_some.2 hr'.1).symm.trans (hk.trans hr.2 ▸ hrp)
  obtain rfl := Option.some.inj hsame
  cases hnone.symm.trans hr'.2

theorem sum_hits_iff {l : List UUID} {p : UUID → Bool} (hl : l.Nodup) :
    (l.map fun a => if p a then (1 : ℤ) else 0).sum = (if l.any p then 1 else 0) ↔
      ∀ a ∈ l, ∀ a' ∈ l, p a → p a' → a = a' := by
  have hsum : (l.map fun a => if p a then (1 : ℤ) else 0).sum = (l.filter p).length := by
    clear hl
    induction l with
    | nil => rfl
    | cons a l ih =>
      rw [List.map_cons, List.sum_cons, ih, List.filter_cons]
      split_ifs <;> simp [add_comm]
  have hany : l.any p = true ↔ l.filter p ≠ [] := by
    simp [List.filter_eq_nil_iff]
  have hmem (a : UUID) : a ∈ l.filter p ↔ a ∈ l ∧ p a = true := List.mem_filter
  have hhits : (∀ a ∈ l, ∀ a' ∈ l, p a → p a' → a = a') ↔
      ∀ a ∈ l.filter p, ∀ a' ∈ l.filter p, a = a' := by
    simp only [hmem]
    grind
  have hnodup := hl.filter p
  rw [hsum, hhits]
  simp only [hany]
  generalize l.filter p = hits at hnodup
  rcases hits with _ | ⟨a, _ | ⟨b, rest⟩⟩
  · simp
  · simp
  · have hne : a ≠ b := fun h => (List.nodup_cons.1 hnodup).1 (h ▸ List.mem_cons_self)
    constructor
    · intro h
      simp at h
      omega
    · intro h
      exact absurd (h a (by simp) b (by simp)) hne

theorem Committed.logicalSum_version (h : Committed db db' t) (id : UUID) :
    logicalSum (fun b => b.version.toInt) id db' = logicalSum (fun b => b.version.toInt) id db +
      ((Ledger.physicalIDs id db).map fun a => if onAccount a t.entries ≠ [] then (1 : ℤ) else 0).sum := by
  obtain ⟨pending, hmoved⟩ := h.accounts
  rw [Ledger.physicalIDs, List.map_map]
  refine hmoved.logicalSum (g := fun k _ => if onAccount k t.entries ≠ [] then 1 else 0) id
    fun k r r' _ hm => ?_
  rw [hm.version, ite_not]

/-- A transaction counts once exactly if it falls on one row of the account. -/
theorem Committed.version_once_iff (h : Committed db db' t) (hs : Shards SameKind db) (id : UUID) :
    logicalSum (fun b => b.version.toInt) id db' =
        logicalSum (fun b => b.version.toInt) id db + (if t.touches id db then 1 else 0) ↔
      OneRow id db (t.entries.map fun e => e.accountID) := by
  have hhit (a : UUID) : onAccount a t.entries ≠ [] ↔ a ∈ t.entries.map fun e => e.accountID := by
    simp [onAccount, List.filter_eq_nil_iff, List.mem_map]
  have hsum := sum_hits_iff (p := fun a => a ∈ t.entries.map fun e => e.accountID)
    (hs.physicalIDs_nodup id)
  have htouches : (Ledger.physicalIDs id db).any (fun a => a ∈ t.entries.map fun e => e.accountID) =
      t.touches id db := by
    rw [Bool.eq_iff_iff, Transaction.touches, List.any_eq_true, List.any_eq_true]
    simp only [decide_eq_true_eq, List.mem_map]
    constructor
    · rintro ⟨a, ha, e, he, rfl⟩
      exact ⟨e, he, ha⟩
    · rintro ⟨e, he, ha⟩
      exact ⟨_, ha, e, he, rfl⟩
  rw [htouches] at hsum
  simp only [decide_eq_true_eq] at hsum
  rw [h.logicalSum_version, add_right_inj, OneRow, ← hsum]
  simp only [hhit]

/-- Every stored transaction falls on one row of each account. -/
structure OneRowEach (db : DB) : Prop where
  referenced : Referenced db
  shards : Shards SameKind db
  rows : ∀ txID id, OneRow id db ((transactionEntries txID db).map fun e => e.accountID)

theorem NoEntries.oneRowEach (h : NoEntries db) (hs : Shards SameKind db) : OneRowEach db := by
  refine ⟨h.agrees.referenced, hs, fun txID id a _ a' _ ha => ?_⟩
  simp [transactionEntries, journalEntries, h.journal] at ha

theorem OneRowEach.opened (h : OneRowEach db) (ho : Opened db db') (hg : Grows db db') :
    OneRowEach db' := by
  refine ⟨ho.referenced h.referenced, hg.sameKind h.shards, fun txID id a hid a' hid' ha ha' => ?_⟩
  rw [transactionEntries, ho.journalEntries] at ha ha'
  -- An account with entries was there before, with the parent that it has now.
  have hold : ∀ a ∈ ((journalEntries db).filter fun e => e.transactionID = txID).map
      (fun e => e.accountID), a ∈ physicalIDs id db' → a ∈ physicalIDs id db := by
    intro a ha hid
    obtain ⟨e, he, rfl⟩ := List.mem_map.1 ha
    obtain ⟨r, hr, -⟩ := h.referenced.accounts e (List.mem_filter.1 he).1
    obtain ⟨r', hr', hstays⟩ := hg.kept _ r hr
    obtain ⟨r'', hr'', hid⟩ := mem_physicalIDs.1 hid
    obtain rfl : r' = r'' := Option.some.inj (hr'.symm.trans hr'')
    exact mem_physicalIDs.2 ⟨r, hr, hstays.parentAccountID ▸ hid⟩
  exact h.rows txID id a (hold a ha hid) a' (hold a' ha' hid') ha ha'

theorem OneRowEach.committed (h : OneRowEach db) (hc : Committed db db' t)
    (hone : ∀ id, OneRow id db (t.entries.map fun e => e.accountID)) : OneRowEach db' := by
  refine ⟨hc.referenced h.referenced, hc.grows.sameKind h.shards, fun txID id => ?_⟩
  rw [OneRow, hc.physicalIDs]
  by_cases htx : txID = t.id
  · rw [htx, hc.transactionEntries_new h.referenced]
    exact hone id
  · rw [hc.transactionEntries_old htx]
    exact h.rows txID id

theorem map_accountID_request (entries : List JournalEntry) :
    entries.map (fun e => e.accountID) =
      (entries.map JournalEntry.request).map fun e => e.accountID := by
  rw [List.map_map]
  rfl

theorem postTransaction_oneRow {d : Draws} {txID : UUID} {req : TransactionRequest}
    (hname : NamesNoShard db req.entries) (h : postTransaction d txID req db = .ok (t, db'))
    (id : UUID) : OneRow id db (t.entries.map fun e => e.accountID) := by
  rw [map_accountID_request, postTransaction_entries h, map_request_postedEntries]
  exact hname.oneRow d id

/-- A reversal falls where the transaction that it reverses fell. -/
theorem OneRowEach.undoes (h : OneRowEach db) {txID : UUID} (hu : Undoes txID db t) (id : UUID) :
    OneRow id db (t.entries.map fun e => e.accountID) := by
  obtain ⟨es, hperm, hrequests⟩ := hu
  rw [map_accountID_request, hrequests, mirrored, List.map_map]
  intro a hid a' hid' ha ha'
  have hmem : ∀ a ∈ es.map ((fun e : EntryRequest => e.accountID) ∘
      fun e : JournalEntry => ⟨e.accountID, e.direction.opposite, e.amount⟩),
      a ∈ (transactionEntries txID db).map fun e => e.accountID :=
    fun a ha => (hperm.map _).mem_iff.1 ha
  exact h.rows txID id a hid a' hid' (hmem a ha) (hmem a' ha')

theorem Posting.run_oneRow {op : Posting} (h : OneRowEach db) (hname : op.NamesNoShard db)
    (hrun : op.run db = .ok (t, db')) (id : UUID) :
    OneRow id db (t.entries.map fun e => e.accountID) := by
  cases op with
  | post d txID req hooks => exact postTransaction_oneRow hname hrun id
  | reverse d reversalID txID reason idem record hooks =>
    exact h.undoes ((Posting.run_eq_ok hrun).2.2 txID rfl) id

theorem OneRowEach.apply {op : LedgerOp} (h : OneRowEach db) (hname : op.NamesNoShard db) :
    OneRowEach (op.apply db) := by
  unfold LedgerOp.apply
  split
  · next db' hop =>
    cases LedgerOp.ran hop with
    | opened ho => exact h.opened ho (LedgerOp.run_grows hop)
    | posted hooks hrun =>
      exact h.committed (postTransaction_committed hooks hrun).1 (postTransaction_oneRow hname hrun)
    | reversed hooks hrun =>
      exact h.committed (doReverse_committed hooks hrun).1
        (h.undoes (doReverse_marks hooks hrun).2)
  · exact h

theorem runOps_oneRowEach {ops : List LedgerOp} (h : OneRowEach db)
    (hops : EachOp LedgerOp.apply LedgerOp.NamesNoShard db ops) : OneRowEach (runOps ops db) := by
  induction ops generalizing db with
  | nil => exact h
  | cons op ops ih => exact ih (h.apply hops.1) hops.2

/-- A transaction that commits moves the version of an account by one if it has an entry on the
account or on a shard, and by zero otherwise, exactly if it falls on one row of the account at most.
It does so where no posting of the run names a shard. -/
theorem version_advances_once {db₀ : DB} (h₀ : NoEntries db₀) (hs₀ : Shards SameKind db₀)
    {ops : List LedgerOp} {op : Posting} (hrun : op.run (runOps ops db₀) = .ok (t, db'))
    {id : UUID} {b b' : Balance} (hb : getBalance id (runOps ops db₀) = .ok b)
    (hb' : getBalance id db' = .ok b') :
    (b'.version.toInt = b.version.toInt + (if t.touches id (runOps ops db₀) then 1 else 0) ↔
      OneRow id (runOps ops db₀) (t.entries.map fun e => e.accountID)) ∧
    (EachOp LedgerOp.apply LedgerOp.NamesNoShard db₀ ops → op.NamesNoShard (runOps ops db₀) →
      OneRow id (runOps ops db₀) (t.entries.map fun e => e.accountID)) := by
  obtain ⟨-, -, -, -, -, -, -, hversion⟩ := getBalance_eq_ok hb
  obtain ⟨-, -, -, -, -, -, -, hversion'⟩ := getBalance_eq_ok hb'
  constructor
  · rw [hversion, hversion']
    exact (Posting.run_eq_ok hrun).1.version_once_iff (runOps_sameKind ops hs₀) id
  · intro hops hop
    exact Posting.run_oneRow (runOps_oneRowEach (h₀.oneRowEach hs₀) hops) hop hrun id

/-- A posting after the float was split, as one call. -/
def sampleCall (debit credit : UUID) : Posting :=
  .post (sampleDraws 3) 3 (sampleRequest debit credit 500) recording_none

/-- What a call on the split float does to its version. -/
def sampleVersions (op : Posting) : Except Error (Bool × Int64 × Int64) := do
  let (t, db') ← op.run (runOps sampleSplit .empty)
  let b ← getBalance 1 (runOps sampleSplit .empty)
  let b' ← getBalance 1 db'
  pure (t.touches 1 (runOps sampleSplit .empty), b.version, b'.version)

theorem version_advances_once_sample :
    ∃ t db' b b', (sampleCall 2 1).run (runOps sampleSplit .empty) = .ok (t, db') ∧
      getBalance 1 (runOps sampleSplit .empty) = .ok b ∧ getBalance 1 db' = .ok b' ∧
      b'.version.toInt = b.version.toInt + 1 := by
  have hcall : sampleVersions (sampleCall 2 1) = .ok (true, 0, 1) := by decide +kernel
  obtain ⟨⟨t, db'⟩, hrun, hcall⟩ := bind_eq_ok.1 hcall
  obtain ⟨b, hb, hcall⟩ := bind_eq_ok.1 hcall
  obtain ⟨b', hb', hcall⟩ := bind_eq_ok.1 hcall
  have htouches : t.touches 1 (runOps sampleSplit .empty) = true :=
    congrArg Prod.fst (Except.ok.inj hcall)
  have hnames : ((sampleRequest 2 1 500).entries.all fun e =>
      ((runOps sampleSplit .empty).accounts.find? e.accountID).all
        fun r => r.parentAccountID = none) = true := by decide +kernel
  have hop : (sampleCall 2 1).NamesNoShard (runOps sampleSplit .empty) := fun e he r hr =>
    of_decide_eq_true ((Option.all_eq_true ..).1 (List.all_eq_true.1 hnames e he) r hr)
  have hops : EachOp LedgerOp.apply LedgerOp.NamesNoShard .empty sampleSplit :=
    ⟨trivial, trivial, trivial, trivial⟩
  have hversion := version_advances_once noEntries_empty (shards_empty _) hrun hb hb'
  rw [htouches] at hversion
  exact ⟨t, db', b, b', hrun, hb, hb', hversion.1.2 (hversion.2 hops hop)⟩

/-- One transaction from a shard to another moves both of their counters. -/
theorem version_advances_twice : sampleVersions (sampleCall 10 11) = .ok (true, 0, 2) := by
  decide +kernel

end LedgerCore.Ledger
