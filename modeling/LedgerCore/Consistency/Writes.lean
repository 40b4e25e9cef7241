import LedgerCore.Consistency.Sweeps

/-! Writes that go past the ledger, and which of them the sweeps find. -/
namespace LedgerCore.Consistency
open LedgerCore.Ledger LedgerCore.Program

/-- A write to one row: it is the given one afterwards, or gone. -/
inductive Write where
  | entry (id : UUID) (row : Option JournalRow)
  | header (id : UUID) (row : Option TransactionRow)
  | balance (accountID : UUID) (row : Option BalanceRow)

def Write.apply (db : DB) : Write → Balances × DB
  | .entry id row => (accountBalances db, { db with journal := db.journal.overwrite id row })
  | .header id row => (accountBalances db, { db with transactions := db.transactions.overwrite id row })
  | .balance accountID row => ((accountBalances db).overwrite accountID row, db)

/-- The transaction can do without one of its entries. -/
def Spare (db : DB) (txID : UUID) : Prop :=
  ∀ t, db.transactions.find? txID = some t → t.status = .posted ∨ t.status = .reversed →
    2 < (transactionEntries txID db).length

/-- The rows move the same amount on the same account, and the second has a header, whose
transaction is that of the first or gets it from one that can do without it. -/
structure Replaces (db : DB) (r r' : JournalRow) : Prop where
  accountID : r'.accountID = r.accountID
  direction : r'.direction = r.direction
  amountMinor : r'.amountMinor = r.amountMinor
  currency : r'.currency = r.currency
  header : r'.transactionID ∈ db.transactions.keys
  transaction : r'.transactionID ≠ r.transactionID → Spare db r.transactionID

/-- What no sweep can see. -/
def Write.Unseen (db : DB) : Write → Prop
  | .entry id row => Option.Rel (Replaces db) (db.journal.find? id) row
  | .header id none => id ∉ db.transactions.keys
  | .header id (some t) => t.status = .pending ∨ id ∈ db.transactions.keys
  | .balance accountID row => ∀ a, db.accounts.find? accountID = some a →
    (row.map fun b => b.availableMinor).getD 0 = a.balance.availableMinor

section Entry
variable {db : DB} {id : UUID} {row : Option JournalRow}

def entryOf (id : UUID) (row : Option JournalRow) : List JournalEntry :=
  row.toList.map (toEntry id)

def others (id : UUID) (db : DB) : List JournalEntry :=
  (db.journal.rows.filter fun r => r.1 ≠ id).map fun r => toEntry r.1 r.2

theorem perm_journal (id : UUID) (db : DB) :
    (journalEntries db).Perm (entryOf id (db.journal.find? id) ++ others id db) := by
  have hperm := (db.journal.perm_overwrite id).map fun r : UUID × JournalRow => toEntry r.1 r.2
  rwa [List.map_append, List.map_map] at hperm

theorem journal_overwrite : journalEntries { db with journal := db.journal.overwrite id row } =
    entryOf id row ++ others id db := by
  simp only [journalEntries, Table.overwrite, List.map_append, List.map_map]
  rfl

theorem netTotal_perm {l l' : List JournalEntry} (h : l.Perm l') (currency : String) :
    netTotal currency l = netTotal currency l' := (h.map _).sum_eq

theorem signedTotal_perm {l l' : List JournalEntry} (h : l.Perm l') (n : Direction) (id : UUID) :
    signedTotal n (onAccount id l) = signedTotal n (onAccount id l') := ((h.filter _).map _).sum_eq

theorem length_transactionEntries (txID : UUID) : (transactionEntries txID db).length =
    ((entryOf id (db.journal.find? id)).filter fun e => e.transactionID = txID).length +
      ((others id db).filter fun e => e.transactionID = txID).length := by
  rw [transactionEntries, ((perm_journal id db).filter _).length_eq, List.filter_append,
    List.length_append]

/-- The write is consistent when the new entry weighs what the old one did, everywhere. -/
theorem consistent_entry_iff (hc : Conserved db) :
    Consistent (accountBalances db) { db with journal := db.journal.overwrite id row } ↔
      (∀ currency, netTotal currency (entryOf id row) =
        netTotal currency (entryOf id (db.journal.find? id))) ∧
      (∀ accountID a, db.accounts.find? accountID = some a →
        signedTotal a.normalBalance (onAccount accountID (entryOf id row)) =
          signedTotal a.normalBalance (onAccount accountID (entryOf id (db.journal.find? id)))) ∧
      (∀ e ∈ entryOf id row, e.transactionID ∈ db.transactions.keys) ∧
      ∀ txID t, db.transactions.find? txID = some t → t.status = .posted ∨ t.status = .reversed →
        2 ≤ ((entryOf id row).filter fun e => e.transactionID = txID).length +
          ((others id db).filter fun e => e.transactionID = txID).length := by
  have hbefore := consistent_of_conserved hc
  have hperm := perm_journal id db
  have hnet (currency : String) := (netTotal_perm hperm currency).symm.trans (hc.net currency)
  have havailable (accountID : UUID) (a : AccountRow)
      (ha : db.accounts.find? accountID = some a) :=
    (signedTotal_perm hperm a.normalBalance accountID).symm.trans
      (hbefore.available accountID a ha)
  have hothers : ∀ e ∈ others id db, e.transactionID ∈ db.transactions.keys := fun e he =>
    hbefore.headers e (hperm.mem_iff.2 (List.mem_append_right _ he))
  simp only [netTotal_append] at hnet
  simp only [onAccount_append, signedTotal_append] at havailable
  constructor
  · intro h
    have hnet' := h.net
    have havailable' := h.available
    have hheaders := h.headers
    have htwo := h.two
    simp only [transactionEntries, journal_overwrite, netTotal_append, onAccount_append,
      signedTotal_append, List.filter_append, List.length_append] at hnet' havailable' hheaders htwo
    refine ⟨fun currency => ?_, fun accountID a ha => ?_, fun e he => ?_, htwo⟩
    · have h₁ := hnet currency
      have h₂ := hnet' currency
      omega
    · have h₁ := havailable accountID a ha
      have h₂ := havailable' accountID a ha
      omega
    · exact hheaders e (List.mem_append_left _ he)
  · rintro ⟨hsame, hmoved, hheaders, htwo⟩
    constructor
    · intro currency
      rw [journal_overwrite, netTotal_append, hsame currency, hnet currency]
    · intro accountID a ha
      rw [journal_overwrite, onAccount_append, signedTotal_append, hmoved accountID a ha,
        havailable accountID a ha]
    · intro e he
      rw [journal_overwrite] at he
      exact (List.mem_append.1 he).elim (hheaders e) (hothers e)
    · intro txID t ht hsettled
      rw [transactionEntries, journal_overwrite, List.filter_append, List.length_append]
      exact htwo txID t ht hsettled

theorem netTotal_entry (id : UUID) (r : JournalRow) (currency : String) :
    netTotal currency (entryOf id (some r)) =
      if r.currency = currency then signed r.direction .debit r.amountMinor.toInt else 0 := by
  simp [netTotal, entryOf, toEntry]

theorem signedTotal_entry (id : UUID) (r : JournalRow) (n : Direction) (accountID : UUID) :
    signedTotal n (onAccount accountID (entryOf id (some r))) =
      if r.accountID = accountID then signed r.direction n r.amountMinor.toInt else 0 := by
  by_cases h : r.accountID = accountID <;> simp [signedTotal, onAccount, entryOf, toEntry, h]

theorem length_entry (id : UUID) (r : JournalRow) (txID : UUID) :
    ((entryOf id (some r)).filter fun e => e.transactionID = txID).length =
      if r.transactionID = txID then 1 else 0 := by
  by_cases h : r.transactionID = txID <;> simp [entryOf, toEntry, h]

theorem signed_ne_zero (r : JournalRow) (n : Direction) :
    signed r.direction n r.amountMinor.toInt ≠ 0 := by
  have hpos : 0 < r.amountMinor.toInt := Int64.lt_iff_toInt_lt.1 r.amount_check
  unfold signed
  split_ifs <;> omega

theorem signed_inj {r r' : JournalRow} (h : signed r'.direction .debit r'.amountMinor.toInt =
    signed r.direction .debit r.amountMinor.toInt) :
    r'.direction = r.direction ∧ r'.amountMinor = r.amountMinor := by
  have hpos : 0 < r.amountMinor.toInt := Int64.lt_iff_toInt_lt.1 r.amount_check
  have hpos' : 0 < r'.amountMinor.toInt := Int64.lt_iff_toInt_lt.1 r'.amount_check
  rw [← Int64.toInt_inj]
  rcases Direction.valid_iff.1 r.direction_check with hd | hd <;>
    rcases Direction.valid_iff.1 r'.direction_check with hd' | hd' <;>
    simp only [signed, hd, hd', reduceCtorEq, if_true, if_false] at h ⊢ <;>
    simp <;> omega

theorem nets_eq_iff {r r' : JournalRow} : (∀ currency, netTotal currency (entryOf id (some r')) =
    netTotal currency (entryOf id (some r))) ↔
      r'.currency = r.currency ∧ r'.direction = r.direction ∧ r'.amountMinor = r.amountMinor := by
  simp only [netTotal_entry]
  constructor
  · intro h
    have hcurrency : r'.currency = r.currency := by
      by_contra hne
      have hr := h r.currency
      rw [if_neg hne, if_pos rfl] at hr
      exact signed_ne_zero r .debit hr.symm
    have hr := h r.currency
    rw [if_pos hcurrency, if_pos rfl] at hr
    exact ⟨hcurrency, signed_inj hr⟩
  · rintro ⟨hcurrency, hdirection, hamount⟩ currency
    rw [hcurrency, hdirection, hamount]

theorem nets_ne (id : UUID) (r : JournalRow) :
    ¬∀ currency, netTotal currency (entryOf id (some r)) = netTotal currency (entryOf id none) := by
  intro h
  have hr := h r.currency
  rw [netTotal_entry, if_pos rfl] at hr
  exact signed_ne_zero r .debit hr

theorem toEntry_mem {r : JournalRow} (h : db.journal.find? id = some r) :
    toEntry id r ∈ journalEntries db := List.mem_map.2 ⟨(id, r), Table.find?_eq_some.1 h, rfl⟩

theorem replaces_iff (hc : Conserved db) {r r' : JournalRow} (hr : db.journal.find? id = some r) :
    Consistent (accountBalances db) { db with journal := db.journal.overwrite id (some r') } ↔
      Replaces db r r' := by
  have htwo := (consistent_of_conserved hc).two
  have hlength (txID : UUID) := @length_transactionEntries db id txID
  obtain ⟨a, ha, -⟩ := hc.agrees.referenced.accounts _ (toEntry_mem hr)
  rw [consistent_entry_iff hc, hr, nets_eq_iff]
  simp only [signedTotal_entry, length_entry]
  simp only [hr, length_entry] at hlength
  constructor
  · rintro ⟨⟨hcurrency, hdirection, hamount⟩, hmoved, hheader, hcount⟩
    refine ⟨?_, hdirection, hamount, hcurrency, hheader _ (List.mem_singleton_self _), ?_⟩
    · by_contra hne
      have hzero := hmoved r.accountID a ha
      rw [if_neg hne, if_pos rfl] at hzero
      exact signed_ne_zero r _ hzero.symm
    · intro hne t ht hsettled
      have hrest := hcount r.transactionID t ht hsettled
      rw [if_neg hne] at hrest
      rw [hlength, if_pos rfl]
      omega
  · intro h
    refine ⟨⟨h.currency, h.direction, h.amountMinor⟩, fun accountID a ha => ?_, fun e he => ?_,
      fun txID t ht hsettled => ?_⟩
    · rw [h.accountID, h.direction, h.amountMinor]
    · rw [List.mem_singleton.1 he]
      exact h.header
    · have hboth := htwo txID t ht hsettled
      rw [hlength] at hboth
      by_cases htx : r'.transactionID = r.transactionID
      · rwa [htx]
      · by_cases hid : r.transactionID = txID
        · subst hid
          have hspare := h.transaction htx t ht hsettled
          rw [hlength, if_pos rfl] at hspare
          omega
        · rw [if_neg hid] at hboth
          omega

theorem entry_unseen_iff (hc : Conserved db) :
    Consistent (accountBalances db) { db with journal := db.journal.overwrite id row } ↔
      (Write.entry id row).Unseen db := by
  rw [Write.Unseen]
  cases hr : db.journal.find? id with
  | none =>
    rw [consistent_entry_iff hc, hr]
    cases row with
    | none =>
      refine iff_of_true ⟨fun _ => rfl, fun _ _ _ => rfl, (fun e he => by cases he), ?_⟩ .none
      intro txID t ht hsettled
      have hlength := @length_transactionEntries db id txID
      rw [hr] at hlength
      rw [← hlength]
      exact (consistent_of_conserved hc).two txID t ht hsettled
    | some r' => exact iff_of_false (fun h => nets_ne id r' h.1) (by rintro ⟨⟩)
  | some r =>
    cases row with
    | none =>
      rw [consistent_entry_iff hc, hr]
      exact iff_of_false (fun h => nets_ne id r fun c => (h.1 c).symm) (by rintro ⟨⟩)
    | some r' =>
      rw [replaces_iff hc hr]
      exact ⟨.some, fun h => by cases h; assumption⟩

end Entry

section Header
variable {db : DB} {id : UUID} {row : Option TransactionRow}

theorem mem_keys_overwrite {txID : UUID} : txID ∈ (db.transactions.overwrite id row).keys ↔
    if txID = id then row ≠ none else txID ∈ db.transactions.keys := by
  rw [Table.mem_keys, Table.find?_overwrite]
  split_ifs
  · exact Option.ne_none_iff_exists'.symm
  · exact Table.mem_keys.symm

/-- A transaction has entries exactly when it has a header. -/
theorem header_iff_two_entries (hc : Conserved db) :
    id ∈ db.transactions.keys ↔ 2 ≤ (transactionEntries id db).length := by
  constructor
  · intro hid
    have htwo := (hc.doubleEntries id hid).two_legs
    rwa [List.length_map] at htwo
  · intro htwo
    obtain ⟨e, he⟩ := List.exists_mem_of_length_pos (Nat.zero_lt_of_lt htwo)
    obtain ⟨he, hid⟩ := List.mem_filter.1 he
    exact of_decide_eq_true hid ▸ (consistent_of_conserved hc).headers e he

theorem lost_header_unseen_iff (hc : Conserved db) :
    Consistent (accountBalances db) { db with transactions := db.transactions.overwrite id none } ↔
      id ∉ db.transactions.keys := by
  have hbefore := consistent_of_conserved hc
  constructor
  · intro h hid
    have htwo := (header_iff_two_entries hc).1 hid
    obtain ⟨e, he⟩ := List.exists_mem_of_length_pos (Nat.zero_lt_of_lt htwo)
    obtain ⟨he, hid⟩ := List.mem_filter.1 he
    have hheader := mem_keys_overwrite.1 (h.headers e he)
    rw [if_pos (of_decide_eq_true hid)] at hheader
    exact hheader rfl
  · intro hid
    refine ⟨hbefore.net, hbefore.available, fun e he => mem_keys_overwrite.2 ?_, fun txID t ht => ?_⟩
    · have hheader := hbefore.headers e he
      have hne : e.transactionID ≠ id := fun heq => hid (heq ▸ hheader)
      rwa [if_neg hne]
    · rw [Table.find?_overwrite] at ht
      split_ifs at ht
      exact hbefore.two txID t ht

theorem written_header_unseen_iff (hc : Conserved db) {t : TransactionRow} :
    Consistent (accountBalances db)
        { db with transactions := db.transactions.overwrite id (some t) } ↔
      t.status = .pending ∨ id ∈ db.transactions.keys := by
  have hbefore := consistent_of_conserved hc
  constructor
  · intro h
    by_cases hstatus : t.status = .pending
    · exact .inl hstatus
    · have hsettled : t.status = .posted ∨ t.status = .reversed := by
        cases ht : t.status <;> simp_all
      have htwo := h.two id t (by rw [Table.find?_overwrite, if_pos rfl]) hsettled
      exact .inr ((header_iff_two_entries hc).2 htwo)
  · intro hunseen
    refine ⟨hbefore.net, hbefore.available, fun e he => mem_keys_overwrite.2 ?_,
      fun txID t' ht' hsettled => ?_⟩
    · split_ifs
      · exact Option.some_ne_none t
      · exact hbefore.headers e he
    · rw [Table.find?_overwrite] at ht'
      split_ifs at ht' with hid
      · obtain rfl := Option.some.inj ht'
        rcases hunseen with hpending | hmem
        · simp [hpending] at hsettled
        · subst hid
          exact (header_iff_two_entries hc).1 hmem
      · exact hbefore.two txID t' ht' hsettled

end Header

theorem balance_unseen_iff {db : DB} (hc : Conserved db) {accountID : UUID}
    {row : Option BalanceRow} :
    Consistent ((accountBalances db).overwrite accountID row) db ↔
      (Write.balance accountID row).Unseen db := by
  have hbefore := consistent_of_conserved hc
  have hlive (id : UUID) : liveAvailable ((accountBalances db).overwrite accountID row) id =
      if id = accountID then (row.map fun b => b.availableMinor).getD 0
      else liveAvailable (accountBalances db) id := by
    rw [liveAvailable, Table.find?_overwrite]
    split_ifs <;> rfl
  constructor
  · intro h a ha
    have hafter := h.available accountID a ha
    rw [hlive, if_pos rfl, ← (hc.agrees.rows accountID a ha).available] at hafter
    exact (Int64.toInt_inj.1 hafter).symm
  · intro hunseen
    refine ⟨hbefore.net, fun id a ha => ?_, hbefore.headers, hbefore.two⟩
    rw [hlive]
    split_ifs with hid
    · subst hid
      rw [hunseen a ha]
      exact (hc.agrees.rows id a ha).available.symm
    · exact hbefore.available id a ha

/-- Whatever the ledger did, the sweeps find a write of one row past it, but for those that leave
every sum they take as it was. -/
theorem write_unseen_iff {db : DB} (h : NoEntries db) (ht : db.transactions.keys = [])
    (collation : String → String → Bool) (ops : List LedgerOp) (w : Write) :
    CleanOn collation (w.apply (runOps ops db)).1 (w.apply (runOps ops db)).2 ↔
      w.Unseen (runOps ops db) := by
  have hc := runOps_conserved ops (h.conserved ht)
  rw [cleanOn_iff]
  cases w with
  | entry id row => exact entry_unseen_iff hc
  | header id row =>
    cases row with
    | none => exact lost_header_unseen_iff hc
    | some t => exact written_header_unseen_iff hc
  | balance accountID row => exact balance_unseen_iff hc

/-- A deleted entry is found. The loss of the balance row of an account that holds nothing is
not. -/
theorem write_unseen_lost_rows :
    ¬CleanOn (fun x y => x ≤ y)
        ((Write.entry 3000 none).apply (runOps (sampleOps.take 3) .empty)).1
        ((Write.entry 3000 none).apply (runOps (sampleOps.take 3) .empty)).2 ∧
      CleanOn (fun x y => x ≤ y) ((Write.balance 1 none).apply (runOps (sampleOps.take 2) .empty)).1
        ((Write.balance 1 none).apply (runOps (sampleOps.take 2) .empty)).2 := by
  have hentry : ((runOps (sampleOps.take 3) .empty).journal.find? 3000).isSome = true := by
    decide +kernel
  have hbalance : ((runOps (sampleOps.take 2) .empty).accounts.find? 1).all
      (fun a => 0 = a.balance.availableMinor) = true := by decide +kernel
  constructor
  · rw [write_unseen_iff noEntries_empty rfl]
    obtain ⟨r, hr⟩ := Option.isSome_iff_exists.1 hentry
    rw [Write.Unseen, hr]
    rintro ⟨⟩
  · rw [write_unseen_iff noEntries_empty rfl]
    exact fun a ha => of_decide_eq_true ((Option.all_eq_true ..).1 hbalance a ha)

end LedgerCore.Consistency
