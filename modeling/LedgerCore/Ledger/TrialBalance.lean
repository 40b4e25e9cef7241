import LedgerCore.Ledger.Balances

/-! Conservation: every transaction is a double entry, and the trial balance is zero. -/
namespace LedgerCore.Ledger
open LedgerCore.Program
variable {db db' : DB} {entries : List JournalEntry}

abbrev Leg := Direction × Money

def EntryRequest.leg (e : EntryRequest) : Leg := (e.direction, e.amount)

def JournalEntry.leg (e : JournalEntry) : Leg := (e.direction, e.amount)

def sideTotal (side : Direction) (legs : List Leg) : ℤ :=
  (legs.map fun l => if l.1 = side then l.2.amountMinor.toInt else 0).sum

structure DoubleEntry (legs : List Leg) : Prop where
  two_legs : 2 ≤ legs.length
  one_currency : ∃ currency, ∀ l ∈ legs, l.2.currency = currency
  balanced : sideTotal .debit legs = sideTotal .credit legs

@[simp] theorem sideTotal_cons (side : Direction) (l : Leg) (legs : List Leg) :
    sideTotal side (l :: legs) =
      (if l.1 = side then l.2.amountMinor.toInt else 0) + sideTotal side legs := by
  simp [sideTotal]

theorem sideTotal_concat (side : Direction) (legs : List Leg) (l : Leg) :
    sideTotal side (legs ++ [l]) =
      sideTotal side legs + if l.1 = side then l.2.amountMinor.toInt else 0 := by
  simp [sideTotal]

theorem sideTotal_perm {side : Direction} {l l' : List Leg} (h : l.Perm l') :
    sideTotal side l = sideTotal side l' := (h.map _).sum_eq

theorem DoubleEntry.perm {l l' : List Leg} (h : DoubleEntry l) (hp : l.Perm l') :
    DoubleEntry l' := by
  obtain ⟨c, hc⟩ := h.one_currency
  exact ⟨hp.length_eq ▸ h.two_legs, ⟨c, fun x hx => hc x (hp.mem_iff.2 hx)⟩,
    by rw [← sideTotal_perm hp, ← sideTotal_perm hp, h.balanced]⟩

def Leg.mirror (l : Leg) : Leg := (l.1.opposite, l.2)

theorem sideTotal_mirror {legs : List Leg} (hv : ∀ l ∈ legs, l.1.Valid) :
    sideTotal .debit (legs.map Leg.mirror) = sideTotal .credit legs ∧
      sideTotal .credit (legs.map Leg.mirror) = sideTotal .debit legs := by
  induction legs with
  | nil => exact ⟨rfl, rfl⟩
  | cons l legs ih =>
    obtain ⟨h₁, h₂⟩ := ih fun x hx => hv x (by simp [hx])
    rw [List.map_cons, sideTotal_cons, sideTotal_cons, sideTotal_cons, sideTotal_cons, h₁, h₂]
    rcases Direction.valid_iff.1 (hv l (by simp)) with hd | hd <;>
      simp [Leg.mirror, Direction.opposite, hd]

theorem DoubleEntry.mirror {legs : List Leg} (h : DoubleEntry legs) (hv : ∀ l ∈ legs, l.1.Valid) :
    DoubleEntry (legs.map Leg.mirror) := by
  obtain ⟨c, hc⟩ := h.one_currency
  obtain ⟨hd, hcr⟩ := sideTotal_mirror hv
  refine ⟨by simpa using h.two_legs, ⟨c, fun l hl => ?_⟩, by rw [hd, hcr, h.balanced]⟩
  obtain ⟨x, hx, rfl⟩ := List.mem_map.1 hl
  exact hc x hx

/-- The totals that validation has reached after some entries. -/
structure Totals (currency : String) (totals : Money × Money) (legs : List Leg) : Prop where
  debits : totals.1.amountMinor.toInt = sideTotal .debit legs
  credits : totals.2.amountMinor.toInt = sideTotal .credit legs
  legs_currency : ∀ l ∈ legs, l.2.currency = currency

theorem validateEntry_eq_ok {currency : String} {totals totals' : Money × Money}
    {entry : EntryRequest × ℕ} {legs : List Leg}
    (h : validateEntry currency totals entry = .ok totals') (ht : Totals currency totals legs) :
    Totals currency totals' (legs ++ [entry.1.leg]) := by
  obtain ⟨debits, credits⟩ := totals
  obtain ⟨e, i⟩ := entry
  obtain ⟨_, -, h⟩ := bind_eq_ok.1 h
  obtain ⟨_, hdir, h⟩ := bind_eq_ok.1 h
  obtain ⟨_, -, h⟩ := bind_eq_ok.1 h
  obtain ⟨_, -, h⟩ := bind_eq_ok.1 h
  obtain ⟨_, hcur, h⟩ := bind_eq_ok.1 h
  have hvalid : e.direction.Valid := by simpa using failIf_eq_ok.1 hdir
  have hcurrency : e.amount.currency = currency := not_not.1 (failIf_eq_ok.1 hcur)
  have hlegs : ∀ l ∈ legs ++ [e.leg], l.2.currency = currency := by
    intro l hl
    rcases List.mem_append.1 hl with hl | hl
    · exact ht.legs_currency l hl
    · rw [List.mem_singleton.1 hl]
      exact hcurrency
  split_ifs at h with hdebit
  · obtain ⟨sum, hadd, h⟩ := bind_eq_ok.1 h
    cases h
    obtain ⟨-, -, hsum⟩ := Money.add_eq_ok.1 (mapError_eq_ok.1 hadd)
    refine ⟨?_, ?_, hlegs⟩
    · simp [sideTotal_concat, hsum, ht.debits, EntryRequest.leg, hdebit]
    · simp [sideTotal_concat, ht.credits, EntryRequest.leg, hdebit]
  · have hcredit : e.direction = .credit := (Direction.valid_iff.1 hvalid).resolve_left hdebit
    obtain ⟨sum, hadd, h⟩ := bind_eq_ok.1 h
    cases h
    obtain ⟨-, -, hsum⟩ := Money.add_eq_ok.1 (mapError_eq_ok.1 hadd)
    refine ⟨?_, ?_, hlegs⟩
    · simp [sideTotal_concat, ht.debits, EntryRequest.leg, hcredit]
    · simp [sideTotal_concat, hsum, ht.credits, EntryRequest.leg, hcredit]

theorem TransactionRequest.validate_totals {req : TransactionRequest} {u : Unit}
    (h : req.validate = .ok u) : 2 ≤ req.entries.length ∧ ∃ currency total,
      Totals currency (total, total) (req.entries.map EntryRequest.leg) := by
  obtain ⟨_, -, h⟩ := bind_eq_ok.1 h
  obtain ⟨_, htwo, h⟩ := bind_eq_ok.1 h
  obtain ⟨zero, hzero, h⟩ := bind_eq_ok.1 h
  obtain ⟨⟨debits, credits⟩, hfold, hequal⟩ := bind_eq_ok.1 h
  obtain ⟨-, rfl⟩ := newMoney_eq_ok.1 hzero
  have htotals := foldlM_eq_ok (fun (done : List (EntryRequest × ℕ)) totals =>
      Totals ((req.entries.head?.map fun e => e.amount.currency).getD "") totals
        (done.map fun x => x.1.leg)) hfold
    ⟨toInt_zero, toInt_zero, by simp⟩
    (fun done x rest t t' _ ht hstep => by simpa using validateEntry_eq_ok hstep ht)
  have hlegs : (req.entries.zipIdx.map fun x => x.1.leg) = req.entries.map EntryRequest.leg := by
    rw [show (fun x : EntryRequest × ℕ => x.1.leg) = EntryRequest.leg ∘ Prod.fst from rfl,
      ← List.map_map, List.zipIdx_map_fst]
  obtain rfl : debits = credits := not_not.1 (failIf_eq_ok.1 hequal)
  exact ⟨not_lt.1 (failIf_eq_ok.1 htwo), _, debits, hlegs ▸ htotals⟩

/-- A request that validates is a double entry. -/
theorem TransactionRequest.validate_doubleEntry {req : TransactionRequest} {u : Unit}
    (h : req.validate = .ok u) : DoubleEntry (req.entries.map EntryRequest.leg) := by
  obtain ⟨htwo, currency, total, htotals⟩ := TransactionRequest.validate_totals h
  refine ⟨by simpa using htwo, ⟨currency, htotals.legs_currency⟩, ?_⟩
  rw [← htotals.debits, ← htotals.credits]

theorem map_leg_postedEntries (d : Draws) (txID : UUID) (requests : List EntryRequest) :
    (postedEntries d txID requests).map JournalEntry.leg = requests.map EntryRequest.leg := by
  have hleg : ∀ l : List (EntryRequest × ℕ), l.map (fun x => x.1.leg) =
      (l.map Prod.fst).map EntryRequest.leg := fun l => by simp
  rw [← List.zipIdx_map_fst 0 requests, ← hleg, List.zipIdx_map_fst]
  simp [postedEntries, buildEntries, Function.comp_def, JournalEntry.leg, EntryRequest.leg]

theorem map_leg_of_routes {entries requests : List EntryRequest}
    (h : List.Forall₂ (Routes db) entries requests) :
    requests.map EntryRequest.leg = entries.map EntryRequest.leg := by
  induction h with
  | nil => rfl
  | cons hr _ ih => simp [ih, EntryRequest.leg, hr.direction, hr.amount]

theorem journalEntries_valid {e : JournalEntry} (h : e ∈ journalEntries db) :
    e.direction.Valid := by
  obtain ⟨⟨id, r⟩, -, rfl⟩ := List.mem_map.1 h
  exact r.direction_check

theorem map_toEntry_entriesOf (txID : UUID) (db : DB) :
    ((entriesOf txID db).map fun e => toEntry e.1 e.2) = transactionEntries txID db := by
  rw [transactionEntries, journalEntries, List.filter_map]
  rfl

theorem Opened.eachTransaction {P : List JournalEntry → Prop} (h : Opened db db')
    (hold : ∀ txID ∈ db.transactions.keys, P (transactionEntries txID db)) :
    ∀ txID ∈ db'.transactions.keys, P (transactionEntries txID db') := by
  intro txID htx
  rw [transactionEntries, h.journalEntries]
  exact hold txID (h.transactions ▸ htx)

theorem Committed.eachTransaction {t : Transaction} {P : List JournalEntry → Prop}
    (h : Committed db db' t) (href : Referenced db) (hnew : P t.entries)
    (hold : ∀ txID ∈ db.transactions.keys, P (transactionEntries txID db)) :
    ∀ txID ∈ db'.transactions.keys, P (transactionEntries txID db') := by
  intro txID htx
  by_cases hid : txID = t.id
  · rw [hid, h.transactionEntries_new href]
    exact hnew
  · rw [h.transactionEntries_old hid]
    rw [h.keys, List.mem_append, List.mem_singleton] at htx
    exact hold txID (htx.resolve_right hid)

def DoubleEntries (db : DB) : Prop :=
  ∀ txID ∈ db.transactions.keys, DoubleEntry ((transactionEntries txID db).map JournalEntry.leg)

theorem Origin.doubleEntry {t : Transaction} (h : Origin db t) (hdb : DoubleEntries db) :
    DoubleEntry (t.entries.map JournalEntry.leg) := by
  cases h with
  | posting valid routes =>
    rw [postedTransaction, map_leg_postedEntries, map_leg_of_routes routes]
    exact TransactionRequest.validate_doubleEntry valid
  | @reversal d reversalID txID reason idem original load posted =>
    obtain ⟨r, hr, -, -, he⟩ := loadTransactionForUpdate_eq_ok load
    rw [map_toEntry_entriesOf] at he
    have hperm : original.entries.Perm (transactionEntries txID db) :=
      he ▸ List.perm_insertionSort _ _
    have hmirror : (mirrored original.entries).map EntryRequest.leg =
        (original.entries.map JournalEntry.leg).map Leg.mirror := by
      simp [mirrored, Function.comp_def, EntryRequest.leg, JournalEntry.leg, Leg.mirror]
    rw [postedTransaction, map_leg_postedEntries, hmirror]
    refine ((hdb txID (Table.mem_keys.2 ⟨r, hr⟩)).perm (hperm.map _).symm).mirror fun l hl => ?_
    obtain ⟨e, he, rfl⟩ := List.mem_map.1 hl
    exact journalEntries_valid (List.mem_filter.1 (hperm.mem_iff.1 he)).1

/-- The stored balances of the accounts with one normal balance, in one currency. -/
def normalTotal (normalBalance : Direction) (currency : String) (db : DB) : ℤ :=
  db.accounts.sum fun _ r =>
    if r.normalBalance = normalBalance ∧ r.currency = currency then r.balance.availableMinor.toInt
    else 0

/-- Debits less credits of some entries, in one currency. -/
def netTotal (currency : String) (entries : List JournalEntry) : ℤ :=
  (entries.map fun e =>
    if e.amount.currency = currency then signed e.direction .debit e.amount.amountMinor.toInt
    else 0).sum

theorem netTotal_cons (currency : String) (e : JournalEntry) (entries : List JournalEntry) :
    netTotal currency (e :: entries) = (if e.amount.currency = currency then
      signed e.direction .debit e.amount.amountMinor.toInt else 0) + netTotal currency entries := by
  simp [netTotal]

theorem netTotal_append (currency : String) (l l' : List JournalEntry) :
    netTotal currency (l ++ l') = netTotal currency l + netTotal currency l' := by
  simp [netTotal]

theorem netTotal_of_uniform {currency : String} (hv : ∀ e ∈ entries, e.direction.Valid)
    (hc : ∀ e ∈ entries, e.amount.currency = currency) :
    netTotal currency entries = sideTotal .debit (entries.map JournalEntry.leg) -
      sideTotal .credit (entries.map JournalEntry.leg) := by
  induction entries with
  | nil => rfl
  | cons e entries ih =>
    have ih := ih (fun x hx => hv x (by simp [hx])) fun x hx => hc x (by simp [hx])
    rw [netTotal_cons, ih, if_pos (hc e (by simp)), List.map_cons, sideTotal_cons, sideTotal_cons]
    rcases Direction.valid_iff.1 (hv e (by simp)) with hd | hd <;>
      simp only [signed, JournalEntry.leg, hd, if_true, reduceCtorEq, if_false] <;> omega

theorem netTotal_of_ne {currency : String} (hc : ∀ e ∈ entries, e.amount.currency ≠ currency) :
    netTotal currency entries = 0 :=
  List.sum_eq_zero fun x hx => by
    obtain ⟨e, he, rfl⟩ := List.mem_map.1 hx
    exact if_neg (hc e he)

theorem DoubleEntry.netTotal_eq_zero (h : DoubleEntry (entries.map JournalEntry.leg))
    (hv : ∀ e ∈ entries, e.direction.Valid) (currency : String) :
    netTotal currency entries = 0 := by
  obtain ⟨c, hc⟩ := h.one_currency
  have hc' : ∀ e ∈ entries, e.amount.currency = c := fun e he =>
    hc e.leg (List.mem_map_of_mem he)
  by_cases heq : c = currency
  · subst heq
    rw [netTotal_of_uniform hv hc', h.balanced, sub_self]
  · exact netTotal_of_ne fun e he => hc' e he ▸ heq

theorem signedTotal_credit (hv : ∀ e ∈ entries, e.direction.Valid) :
    signedTotal .credit entries = -signedTotal .debit entries := by
  induction entries with
  | nil => rfl
  | cons e entries ih =>
    have ih := ih fun x hx => hv x (by simp [hx])
    simp only [signedTotal, List.map_cons, List.sum_cons] at ih ⊢
    rw [ih]
    rcases Direction.valid_iff.1 (hv e (by simp)) with hd | hd <;>
      simp only [signed, hd, if_true, reduceCtorEq, if_false] <;> omega

theorem sum_onAccount (accounts : Table UUID AccountRow) (currency : String)
    (hknown : ∀ e ∈ entries,
      ∃ r, accounts.find? e.accountID = some r ∧ r.currency = e.amount.currency) :
    (accounts.sum fun id r =>
      if r.currency = currency then signedTotal .debit (onAccount id entries) else 0) =
      netTotal currency entries := by
  induction entries with
  | nil => simp [Table.sum, onAccount, signedTotal, netTotal]
  | cons e entries ih =>
    obtain ⟨r, hr, hc⟩ := hknown e (by simp)
    have hsingle := accounts.sum_single (fun id r => if id = e.accountID then
      if r.currency = currency then signed e.direction .debit e.amount.amountMinor.toInt else 0
      else 0) hr fun _ _ hne => if_neg hne
    rw [netTotal_cons, ← ih fun x hx => hknown x (by simp [hx]), ← hc]
    rw [if_pos rfl] at hsingle
    rw [← hsingle, ← Table.sum_add]
    refine Table.sum_congr fun id r' _ => ?_
    by_cases hid : e.accountID = id
    · subst hid
      split_ifs <;> simp_all [onAccount, signedTotal]
    · have hid' : id ≠ e.accountID := Ne.symm hid
      simp [onAccount, hid, hid']

theorem Agrees.normalTotal_debit (h : Agrees db) (currency : String) :
    normalTotal .debit currency db =
      netTotal currency (journalEntries db) + normalTotal .credit currency db := by
  rw [← sum_onAccount db.accounts currency h.referenced.accounts, normalTotal, normalTotal,
    ← Table.sum_add]
  refine Table.sum_congr fun id r hr => ?_
  have hrow := (h.rows id r hr).available
  have hcredit : signedTotal .credit (onAccount id (journalEntries db)) =
      -signedTotal .debit (onAccount id (journalEntries db)) :=
    signedTotal_credit fun e he => journalEntries_valid (mem_onAccount.1 he).1
  have hnormal : r.normalBalance = .debit ∨ r.normalBalance = .credit :=
    r.normal_balance_matches_type_check ▸ r.type.normalBalance_cases
  by_cases hc : r.currency = currency
  · rcases hnormal with hn | hn <;> rw [hn] at hrow <;> simp [hc, hn, hrow, hcredit]
  · simp [hc]

/-- What every run of operations keeps. -/
structure Conserved (db : DB) : Prop where
  agrees : Agrees db
  doubleEntries : DoubleEntries db
  net : ∀ currency, netTotal currency (journalEntries db) = 0

theorem Opened.conserved (h : Opened db db') (hc : Conserved db) : Conserved db' := by
  have hdouble : DoubleEntries db' :=
    h.eachTransaction (P := fun es => DoubleEntry (es.map JournalEntry.leg)) hc.doubleEntries
  exact ⟨h.agrees hc.agrees, hdouble, h.journalEntries ▸ hc.net⟩

theorem Committed.conserved {t : Transaction} (h : Committed db db' t) (ho : Origin db t)
    (hc : Conserved db) : Conserved db' := by
  have href := hc.agrees.referenced
  have hdouble := ho.doubleEntry hc.doubleEntries
  refine ⟨h.agrees hc.agrees, h.eachTransaction (P := fun es => DoubleEntry (es.map JournalEntry.leg))
    href hdouble hc.doubleEntries, fun currency => ?_⟩
  · have hvalid : ∀ e ∈ t.entries, e.direction.Valid := fun e he =>
      @journalEntries_valid db' e (h.journal ▸ List.mem_append_right _ he)
    rw [h.journal, netTotal_append, hc.net, hdouble.netTotal_eq_zero hvalid, add_zero]

theorem LedgerOp.apply_conserved (op : LedgerOp) (h : Conserved db) : Conserved (op.apply db) := by
  unfold LedgerOp.apply
  split
  · next db' hrun =>
    rcases LedgerOp.run_cases hrun with hopen | ⟨t, hcommit, horigin⟩
    · exact hopen.conserved h
    · exact hcommit.conserved horigin h
  · exact h

theorem runOps_conserved (ops : List LedgerOp) (h : Conserved db) : Conserved (runOps ops db) :=
  List.foldlRecOn ops LedgerOp.apply h fun _ h op _ => op.apply_conserved h

theorem NoEntries.conserved (h : NoEntries db) (ht : db.transactions.keys = []) : Conserved db := by
  have hj : journalEntries db = [] := by simp [journalEntries, h.journal]
  exact ⟨h.agrees, fun txID htx => by simp [ht] at htx, fun _ => by rw [hj]; rfl⟩

/-- After any run of operations on a database nothing was posted to, the accounts of the two
normal balances hold the same total in every currency, and every transaction is a double entry. -/
theorem money_conserved {db : DB} (h : NoEntries db) (ht : db.transactions.keys = [])
    (ops : List LedgerOp) :
    (∀ currency, normalTotal .debit currency (runOps ops db) =
        normalTotal .credit currency (runOps ops db)) ∧
      ∀ txID ∈ (runOps ops db).transactions.keys,
        DoubleEntry ((transactionEntries txID (runOps ops db)).map JournalEntry.leg) := by
  have hc := runOps_conserved ops (h.conserved ht)
  refine ⟨fun currency => ?_, hc.doubleEntries⟩
  rw [hc.agrees.normalTotal_debit, hc.net, zero_add]

theorem money_conserved_sample :
    normalTotal .debit "INR" (runOps (sampleOps.take 3) DB.empty) = 500 ∧
      (runOps (sampleOps.take 3) DB.empty).transactions.keys = [3] ∧
      (∀ currency, normalTotal .debit currency (runOps (sampleOps.take 3) DB.empty) =
        normalTotal .credit currency (runOps (sampleOps.take 3) DB.empty)) ∧
      ∀ txID ∈ (runOps (sampleOps.take 3) DB.empty).transactions.keys,
        DoubleEntry ((transactionEntries txID (runOps (sampleOps.take 3) DB.empty)).map
          JournalEntry.leg) :=
  ⟨by decide +kernel, by decide +kernel, money_conserved noEntries_empty rfl (sampleOps.take 3)⟩

end LedgerCore.Ledger
