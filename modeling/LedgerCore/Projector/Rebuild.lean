import LedgerCore.Consistency.Sweeps
import LedgerCore.Projector.Convergence

/-! The projection checked against the journal: what a rebuild finds is late, never wrong. -/
namespace LedgerCore.Projector
open LedgerCore.Program LedgerCore.Ledger LedgerCore.Consistency

structure Mismatch where
  accountID : UUID
  currency : String
  rebuiltAvailable : Int64
  liveAvailable : Int64
  liveVersion : Int64
  deriving DecidableEq, Repr

structure RebuildResult where
  accountsCompared : ℕ
  mismatches : List Mismatch
  deriving DecidableEq, Repr

/-- An account without a projection counts as one at zero. -/
def mismatch (live : ProjectionDB) (a : UUID × AccountRow) (rebuiltAvailable : Int64) :
    Option Mismatch :=
  let projection := live.balanceProjections.find? a.1
  let liveAvailable := (projection.map fun p => p.availableMinor).getD 0
  let liveVersion := (projection.map fun p => p.version).getD 0
  if rebuiltAvailable ≠ liveAvailable then
    some ⟨a.1, a.2.currency, rebuiltAvailable, liveAvailable, liveVersion⟩
  else none

def scanRebuilt (live : ProjectionDB) (db : DB) (a : UUID × AccountRow) :
    Except Error (Option Mismatch) := do
  let rebuiltAvailable ← (scanInt64 (rebuilt db a)).mapError (Error.wrap "scan rebuilt balance row")
  pure (mismatch live a rebuiltAvailable)

/-- `Rebuild`; no ids stand for every account. -/
def rebuild (accountIDs : List UUID) (live : ProjectionDB) (db : DB) :
    Except Error RebuildResult := do
  let rows ← (byID Prod.fst (db.accounts.rows.filter fun a =>
    accountIDs = [] ∨ a.1 ∈ accountIDs)).mapM' (scanRebuilt live db)
  pure { accountsCompared := rows.length, mismatches := rows.filterMap fun m => m }

/-- On a ledger whose balances agree with its journal, the stored balances are compared. -/
theorem rebuild_eq_ok {db : DB} (h : Agrees db) (accountIDs : List UUID) (live : ProjectionDB) :
    ∃ r, rebuild accountIDs live db = .ok r ∧ ∀ m ∈ r.mismatches,
      ∃ a ∈ db.accounts.rows, mismatch live a a.2.balance.availableMinor = some m := by
  have hrebuilt : ∀ a ∈ byID Prod.fst (db.accounts.rows.filter fun a =>
      accountIDs = [] ∨ a.1 ∈ accountIDs), a ∈ db.accounts.rows ∧
        rebuilt db a = a.2.balance.availableMinor.toInt := by
    intro a ha
    have ha := List.mem_of_mem_filter ((List.mem_insertionSort _).1 ha)
    exact ⟨ha, (h.rows a.1 a.2 (Table.find?_eq_some.2 ha)).available.symm⟩
  refine ⟨_, bind_eq_ok.2 ⟨_, (mapM'_eq_ok fun a m => scanned_eq_ok).2 ⟨fun a ha => ?_, rfl⟩, rfl⟩,
    fun m hm => ?_⟩
  · rw [InInt64, (hrebuilt a ha).2]
    exact ⟨Int64.le_toInt _, Int64.toInt_lt _⟩
  · obtain ⟨_, hrow, rfl⟩ := List.mem_filterMap.1 hm
    obtain ⟨a, ha, hm⟩ := List.mem_map.1 hrow
    rw [(hrebuilt a ha).2, Int64.ofInt_toInt] at hm
    exact ⟨a, (hrebuilt a ha).1, hm⟩

theorem available_of_version {db : DB} {id : UUID} {r : AccountRow} (h : RowAgrees db id r)
    (href : Referenced db) (hv : r.balance.version = 0) : r.balance.availableMinor = 0 := by
  have hnone : postingsOn id db = [] := by
    have hlength := h.version
    rw [hv, toInt_zero] at hlength
    exact List.length_eq_zero_iff.1 (by omega)
  have hentries : onAccount id (journalEntries db) = [] := by
    refine List.filter_eq_nil_iff.2 fun e he hid => ?_
    have hmem : e.transactionID ∈ postingsOn id db := by
      refine List.mem_filter.2 ⟨href.headers e he, decide_eq_true (List.ne_nil_of_mem (a := e) ?_)⟩
      exact List.mem_filter.2 ⟨List.mem_filter.2 ⟨he, decide_eq_true rfl⟩, hid⟩
    rw [hnone] at hmem
    cases hmem
  have havailable := h.available
  rw [hentries] at havailable
  exact Int64.toInt_inj.1 havailable

theorem Had.version_lt {db₀ : DB} {ops : List LedgerOp} {b : EventBalance} {r : AccountRow}
    (h : Had db₀ ops b) (hr : (runOps ops db₀).accounts.find? b.accountID = some r)
    (hne : r.balance.availableMinor ≠ b.available.amountMinor) :
    b.version.toInt < r.balance.version.toInt := by
  obtain ⟨r₀, r', hr', hreport, hlater⟩ := h.later
  obtain rfl : r = r' := Option.some.inj (hr.symm.trans hr')
  rw [hreport.version]
  refine lt_of_le_of_ne hlater.version fun heq => hne ?_
  exact (hlater.available (Int64.toInt_inj.1 heq.symm)).trans
    (Money.mk.inj hreport.available).1.symm

/-- What a rebuild finds is late and never wrong: whatever consumers have made of the events of a
history, a projection that differs from the journal is at an earlier version of its account, and
an event is there that no consumer has been done with. -/
theorem rebuild_finds_late {db₀ : DB} (h₀ : Genesis db₀) {ops : List LedgerOp}
    (hs : ∀ op ∈ ops, op.Silent) {actions : List (Engine.Action Delivery)}
    (hbegins : ∀ a ∈ actions, a.Begins (Genuine db₀ ops)) {s : Consumers}
    (h : (Engine.Sys.init ProjectionDB.empty : Consumers).run engine actions = some s)
    (accountIDs : List UUID) :
    ∃ r, rebuild accountIDs s.committed (runOps ops db₀) = .ok r ∧
      ∀ m ∈ r.mismatches, (∃ a, (runOps ops db₀).accounts.find? m.accountID = some a ∧
        m.rebuiltAvailable = a.balance.availableMinor ∧
        m.liveVersion.toInt < a.balance.version.toInt) ∧
        ∃ x ∈ (runOps ops db₀).outbox.rows, Transactional x.2 ∧
          ∀ f ∈ s.finished, f.kind.envelope ≠ .ofEvent x.1 x.2 := by
  have hagrees := runOps_agrees ops h₀.noEntries.agrees
  have hp := consumers_projected h₀ hs hbegins h
  obtain ⟨r, hr, hmem⟩ := rebuild_eq_ok hagrees accountIDs s.committed
  refine ⟨r, hr, fun m hm => ?_⟩
  obtain ⟨⟨id, a⟩, ha, hm⟩ := hmem m hm
  have ha := Table.find?_eq_some.2 ha
  obtain ⟨hne, hm⟩ := Option.ite_none_right_eq_some.1 hm
  obtain rfl := Option.some.inj hm
  have hbehind : ∀ p, s.committed.balanceProjections.find? id = some p →
      p.version.toInt < a.balance.version.toInt := by
    intro p hid
    rw [hid] at hne
    exact (hp.faithful id p hid).version_lt ha hne
  have hversion : a.balance.version ≠ 0 := by
    intro hzero
    have hnone : s.committed.balanceProjections.find? id = none := by
      refine Option.eq_none_iff_forall_ne_some.2 fun p hid => ?_
      have hlt := hbehind p hid
      rw [hzero] at hlt
      exact absurd hlt (not_lt.2 (Int64.le_iff_toInt_le.1 p.version_check))
    rw [hnone] at hne
    exact hne (available_of_version (hagrees.rows id a ha) hagrees.referenced hzero)
  constructor
  · refine ⟨a, ha, rfl, ?_⟩
    cases hid : s.committed.balanceProjections.find? id with
    | some p => exact hbehind p hid
    | none =>
      refine lt_of_le_of_ne (Int64.le_iff_toInt_le.1 a.balance.version_check) fun heq => ?_
      exact hversion (Int64.toInt_inj.1 heq.symm)
  · obtain ⟨x, hx, htx, b, hb, rfl, hreport⟩ := (told h₀ hs).complete id a ha hversion
    refine ⟨x, hx, htx, fun f hf henvelope => ?_⟩
    have hprocessed := hp.handled f hf (by rw [henvelope]; exact htx)
    obtain ⟨g, hg, hgid, hreached⟩ := hp.reached _ hprocessed
    have hgenuine := (Engine.begun_init.run hbegins h).finished g hg
    have hsame := hgenuine.payload_eq hs hx (hgid.trans (by rw [henvelope]; rfl))
    obtain ⟨p, hid, hle⟩ := hreached b (by rw [hsame]; exact hb)
    exact absurd (hbehind p hid) (not_lt.2 (Int64.le_iff_toInt_le.1 (hreport.version ▸ hle)))

/-- A consumer applies the funding, and none its reversal. -/
theorem rebuild_finds_late_reversal : ∃ s r,
    (Engine.Sys.init ProjectionDB.empty : Consumers).run engine
        (.begin 0 (sampleDelivery 3500) :: List.replicate 4 (.advance 0)) = some s ∧
      s.finished.length = 1 ∧ rebuild [] s.committed (runOps sampleOps .empty) = .ok r ∧
      r.mismatches = [⟨1, "INR", 0, 500, 1⟩, ⟨2, "INR", 0, 500, 1⟩] ∧
      ∀ m ∈ r.mismatches, ∃ x ∈ (runOps sampleOps .empty).outbox.rows, Transactional x.2 ∧
        ∀ f ∈ s.finished, f.kind.envelope ≠ .ofEvent x.1 x.2 := by
  have hsome : ((Engine.Sys.init ProjectionDB.empty : Consumers).run engine
      (.begin 0 (sampleDelivery 3500) :: List.replicate 4 (.advance 0))).any (fun s =>
        s.finished.length = 1 ∧ (rebuild [] s.committed (runOps sampleOps .empty)).toOption.any
          fun r => r.mismatches = [⟨1, "INR", 0, 500, 1⟩, ⟨2, "INR", 0, 500, 1⟩]) = true := by
    decide +kernel
  have hbegins : ∀ a ∈ (.begin 0 (sampleDelivery 3500) :: List.replicate 4 (.advance 0) :
      List (Engine.Action Delivery)), a.Begins (Genuine .empty sampleOps) := by
    simp [Engine.Action.Begins, genuine_sampleDelivery]
  obtain ⟨s, hrun, hs⟩ := (Option.any_eq_true ..).1 hsome
  obtain ⟨hlength, hfound⟩ := of_decide_eq_true hs
  obtain ⟨r, hr, hlate⟩ :=
    rebuild_finds_late ⟨noEntries_empty, rfl⟩ silent_sampleOps hbegins hrun []
  rw [hr] at hfound
  exact ⟨s, r, hrun, hlength, hr, of_decide_eq_true hfound, fun m hm => (hlate m hm).2⟩

end LedgerCore.Projector
