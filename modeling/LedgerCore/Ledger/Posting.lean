import Mathlib.Data.List.Dedup
import LedgerCore.Ledger.Effects

/-! What a posting and a reversal do to the database when they succeed. -/
namespace LedgerCore.Ledger
open LedgerCore.Program
variable {id : UUID} {accounts : AccountMap} {s s' : TxState} {g : Aggregate}

theorem sortedAccountIDs_nodup (entries : List EntryRequest) : (sortedAccountIDs entries).Nodup :=
  (List.perm_insertionSort _ _).nodup_iff.2 (List.nodup_dedup _)

theorem mem_sortedAccountIDs {entries : List EntryRequest} :
    id ∈ sortedAccountIDs entries ↔ ∃ e ∈ entries, e.accountID = id := by
  simp [sortedAccountIDs, List.mem_insertionSort]

theorem mem_lockAccounts {ids : List UUID} {db : DB} {a : LockedAccount} :
    a ∈ lockAccounts ids db ↔
      a.id ∈ ids ∧ ∃ r, db.accounts.find? a.id = some r ∧ a = lockedAccount a.id r := by
  simp only [lockAccounts, List.mem_insertionSort, List.mem_map, List.mem_filter,
    decide_eq_true_eq, Prod.exists, Table.find?_eq_some]
  constructor
  · rintro ⟨id, r, ⟨hr, hid⟩, rfl⟩
    exact ⟨hid, r, hr, rfl⟩
  · rintro ⟨hid, r, hr, ha⟩
    exact ⟨a.id, r, ⟨hr, hid⟩, ha.symm⟩

theorem accountMap_lockAccounts {ids : List UUID} {db : DB} (hid : id ∈ ids) :
    accountMap (lockAccounts ids db) id = (db.accounts.find? id).map (lockedAccount id) := by
  cases hr : db.accounts.find? id with
  | none =>
    refine List.find?_eq_none.2 fun a ha => ?_
    obtain ⟨-, r, hr', -⟩ := mem_lockAccounts.1 ha
    simp only [decide_eq_true_eq]
    rintro rfl
    exact nomatch hr.symm.trans hr'
  | some r =>
    have hmem : lockedAccount id r ∈ lockAccounts ids db :=
      mem_lockAccounts.2 ⟨hid, r, hr, rfl⟩
    cases hf : accountMap (lockAccounts ids db) id with
    | none => exact absurd (List.find?_eq_none.1 hf _ hmem) (by simp [lockedAccount])
    | some a =>
      have ha : a.id = id := by simpa using List.find?_some hf
      obtain ⟨-, r', hr', he⟩ := mem_lockAccounts.1 (List.mem_of_find?_eq_some hf)
      subst ha
      obtain rfl : r' = r := Option.some.inj (hr'.symm.trans hr)
      simp [← he]

theorem checkPostable_eq_ok (h : checkPostable accounts id = .ok ()) :
    ∃ a, accounts id = some a ∧ a.status = .active := by
  unfold checkPostable at h
  split at h
  · cases h
  · next a ha =>
    split_ifs at h with hp
    exact ⟨a, ha, by simpa [AccountStatus.Postable] using hp⟩

theorem checkCurrency_eq_ok {entry : EntryRequest × ℕ} (h : checkCurrency accounts entry = .ok ()) :
    entry.1.amount.currency =
      ((accounts entry.1.accountID).map fun a => a.currency).getD "" := by
  unfold checkCurrency at h
  dsimp only at h
  split_ifs at h with hc
  exact hc

/-- Locking changes nothing, and leaves the service with each account's own row, in the currency
of the entries. -/
theorem lockAndValidate_eq_ok {now : Time} {ids : List UUID} {requests : List EntryRequest}
    (h : (lockAndValidate ids requests).run (exec now) s = .ok (accounts, s')) :
    s = s' ∧ (∀ id ∈ ids, ∃ r, s.db.accounts.find? id = some r ∧ r.status = .active ∧
      accounts id = some (lockedAccount id r)) ∧
      ∀ e ∈ requests, e.amount.currency = ((accounts e.accountID).map fun a => a.currency).getD "" := by
  obtain ⟨locked, s₁, hl, h⟩ := Prog.run_perform_bind_ok.1 h
  cases hl
  obtain ⟨_, hp, h⟩ := Prog.run_ofExcept_bind_ok.1 h
  obtain ⟨_, hc, h⟩ := Prog.run_ofExcept_bind_ok.1 h
  cases h
  refine ⟨rfl, fun id hid => ?_, fun e he => ?_⟩
  · obtain ⟨a, ha, hs⟩ := checkPostable_eq_ok (forM_eq_ok.1 hp id hid)
    rw [accountMap_lockAccounts hid] at ha ⊢
    obtain ⟨r, hr, rfl⟩ := Option.map_eq_some_iff.1 ha
    exact ⟨r, hr, hs, by simp [hr]⟩
  · obtain ⟨i, hi⟩ := List.mem_iff_getElem?.1 he
    exact checkCurrency_eq_ok (forM_eq_ok.1 hc (e, i) (List.mem_zipIdx_iff_getElem?.2 hi))

theorem onAccount_append_self {e : JournalEntry} (entries : List JournalEntry) :
    onAccount e.accountID (entries ++ [e]) = onAccount e.accountID entries ++ [e] := by
  simp [onAccount]

theorem onAccount_append_of_ne {e : JournalEntry} (entries : List JournalEntry)
    (h : id ≠ e.accountID) : onAccount id (entries ++ [e]) = onAccount id entries := by
  simp [onAccount, h.symm]

/-- The normal balance that the aggregation reads for an account. -/
def normalOf (accounts : AccountMap) (id : UUID) : Direction :=
  ((accounts id).map fun a => a.normalBalance).getD (.other "")

theorem aggregateEntry_eq_ok {g' : Aggregate} {e : JournalEntry}
    (h : aggregateEntry accounts g e = .ok g') :
    ∃ total, total.toInt = (g.deltas e.accountID).toInt +
        signed e.direction (normalOf accounts e.accountID) e.amount.amountMinor.toInt ∧
      g' = ⟨Function.update g.deltas e.accountID total,
        Function.update g.lastEntry e.accountID e.id⟩ := by
  obtain ⟨v, hv, h⟩ := bind_eq_ok.1 h
  obtain ⟨-, -, -, hsigned⟩ := signedAmount_eq_ok (mapError_eq_ok.1 hv)
  split at h
  · cases h
  · next total ht =>
    cases h
    exact ⟨total, by rw [addInt64_eq_some.1 ht, hsigned]; rfl, rfl⟩

/-- Each account's delta is the signed total of its entries, and its last entry is the last
of them. -/
theorem aggregate_eq_ok {entries : List JournalEntry}
    (h : entries.foldlM (aggregateEntry accounts) .zero = .ok g) (id : UUID) :
    (g.deltas id).toInt = signedTotal (normalOf accounts id) (onAccount id entries) ∧
      g.lastEntry id = ((onAccount id entries).getLast?.map fun e => e.id).getD UUID.nil := by
  refine foldlM_eq_ok (fun done g => (g.deltas id).toInt =
      signedTotal (normalOf accounts id) (onAccount id done) ∧
      g.lastEntry id = ((onAccount id done).getLast?.map fun e => e.id).getD UUID.nil) h
    ⟨by simp [Aggregate.zero, onAccount, signedTotal, toInt_zero], by simp [Aggregate.zero, onAccount]⟩ ?_
  rintro done e rest g g' - ⟨hd, hl⟩ hstep
  obtain ⟨total, ht, rfl⟩ := aggregateEntry_eq_ok hstep
  by_cases hid : id = e.accountID
  · subst hid
    rw [onAccount_append_self]
    exact ⟨by simp [ht, hd, signedTotal], by simp⟩
  · rw [onAccount_append_of_ne done hid]
    exact ⟨by simpa [hid] using hd, by simpa [hid] using hl⟩

theorem applyBalance_eq_ok {now : Time} {b : EventBalance}
    (h : (applyBalance accounts g id).run (exec now) s = .ok (b, s')) :
    ∃ r row, s.db.accounts.find? id = some r ∧
      BalanceMoved r.balance row (g.deltas id).toInt (g.lastEntry id) ∧
      s' = { s with db := { s.db with
        accounts := s.db.accounts.modify id fun r => { r with balance := row } } } := by
  obtain ⟨_, -, h⟩ := Prog.run_ofExcept_bind_ok.1 h
  obtain ⟨bal, s₂, hb, h⟩ := Prog.run_perform_bind_ok.1 h
  obtain ⟨⟨bal', db'⟩, hdelta, he⟩ := map_eq_ok.1 hb
  cases he
  cases h
  obtain ⟨r, row, hr, hm, rfl⟩ := applyBalanceDelta_eq_ok hdelta
  exact ⟨r, row, hr, hm, rfl⟩

/-- The loop over the accounts moves each of them once, and no other. -/
theorem applyBalances_eq_ok {now : Time} {order : List UUID} {bs : List EventBalance}
    (hnd : order.Nodup)
    (h : (order.mapM' (applyBalance accounts g)).run (exec now) s = .ok (bs, s')) :
    (∃ t, t.keys = s.db.accounts.keys ∧ s' = { s with db := { s.db with accounts := t } }) ∧
      ∀ id r, s.db.accounts.find? id = some r →
        ∃ row, s'.db.accounts.find? id = some { r with balance := row } ∧
          (id ∉ order → row = r.balance) ∧
          (id ∈ order → BalanceMoved r.balance row (g.deltas id).toInt (g.lastEntry id)) := by
  induction order generalizing s bs with
  | nil =>
    cases h
    exact ⟨⟨_, rfl, rfl⟩, fun id r hr => ⟨r.balance, hr, fun _ => rfl, fun hid => by simp at hid⟩⟩
  | cons a order ih =>
    obtain ⟨b, s₁, hb, h⟩ := Prog.run_bind_ok.1 h
    obtain ⟨bs', s₂, hbs, h⟩ := Prog.run_bind_ok.1 h
    cases h
    obtain ⟨ra, rowa, hra, hma, rfl⟩ := applyBalance_eq_ok hb
    obtain ⟨hnot, hnd⟩ := List.nodup_cons.1 hnd
    obtain ⟨⟨t, hkeys, rfl⟩, hrows⟩ := ih hnd hbs
    refine ⟨⟨t, by simpa using hkeys, rfl⟩, fun id r hr => ?_⟩
    by_cases hid : id = a
    · subst hid
      obtain rfl : ra = r := Option.some.inj (hra.symm.trans hr)
      obtain ⟨row, hf, hkeep, -⟩ := hrows id { ra with balance := rowa } (by simp [hra])
      obtain rfl := hkeep hnot
      exact ⟨_, hf, fun hn => by simp at hn, fun _ => hma⟩
    · obtain ⟨row, hf, hkeep, hmoved⟩ := hrows id r (by
        simpa [Table.find?_modify_of_ne _ hid] using hr)
      exact ⟨row, hf, fun hn => hkeep fun h => hn (by simp [h]),
        fun hm => hmoved (by simpa [hid] using hm)⟩

/-- The accounts named by the entries are the ones in `order`, and the service aggregates over
the rows it locked. -/
theorem applyEntries_eq_ok {now : Time} {entries : List JournalEntry} {order : List UUID}
    {bs : List EventBalance} (hnd : order.Nodup)
    (horder : ∀ id, id ∈ order ↔ ∃ e ∈ entries, e.accountID = id)
    (haccounts : ∀ id ∈ order, ∀ r, s.db.accounts.find? id = some r →
      normalOf accounts id = r.normalBalance)
    (h : (applyEntries entries accounts order).run (exec now) s = .ok (bs, s')) :
    AccountsMoved entries 0 s.db.accounts s'.db.accounts ∧
      ∃ t, s' = { s with db := { s.db with accounts := t } } := by
  obtain ⟨g, hg, h⟩ := Prog.run_ofExcept_bind_ok.1 h
  obtain ⟨⟨t, hkeys, rfl⟩, hrows⟩ := applyBalances_eq_ok hnd h
  refine ⟨⟨hkeys, fun id r hr => ?_⟩, t, rfl⟩
  obtain ⟨row, hf, hkeep, hmoved⟩ := hrows id r hr
  refine ⟨_, hf, ?_⟩
  obtain ⟨hdelta, hlast⟩ := aggregate_eq_ok hg id
  by_cases hid : id ∈ order
  · have hne : onAccount id entries ≠ [] := by
      obtain ⟨e, he, hea⟩ := (horder id).1 hid
      exact List.ne_nil_of_mem (List.mem_filter.2 ⟨he, by simpa using hea⟩)
    obtain ⟨last, hlast'⟩ := Option.ne_none_iff_exists'.1 (mt List.getLast?_eq_none_iff.1 hne)
    have hm := hmoved hid
    rw [haccounts id hid r hr] at hdelta
    constructor
    · rfl
    · rw [hm.available, hdelta]
    · simp [hm.version, hne]
    · simp [hm.lastEntry, hlast, hlast']
    · simp [hm.pending]
    · exact hm.allowNegative
  · have hnil : onAccount id entries = [] :=
      List.filter_eq_nil_iff.2 fun e he hea => hid ((horder id).2 ⟨e, he, by simpa using hea⟩)
    obtain rfl := hkeep hid
    simpa [hnil] using RowMoved.refl r

end LedgerCore.Ledger
