import LedgerCore.Text.Base64
import LedgerCore.Text.Timestamp
import LedgerCore.Ledger.AccountStatement
import LedgerCore.Ledger.Balances

/-! Cursors: a statement's position as one token, and what a client gets who hands each page's
token back to the service. -/
namespace LedgerCore.Http
open LedgerCore.Program LedgerCore.Ledger

def toBytes (text : List Char) : Bytes := text.map fun c => .ofNat c.toNat

/-- A byte as the character of that code. What is read from a token is ASCII, or refused. -/
def ofBytes (bytes : Bytes) : List Char := bytes.map fun b => .ofNat b.toNat

/-- `strings.Cut`, at a character. -/
def cut (sep : Char) : List Char → Option (List Char × List Char)
  | [] => none
  | c :: rest =>
    if c = sep then some ([], rest)
    else (cut sep rest).map fun (before, after) => (c :: before, after)

def encodeCursor (c : StatementCursor) : String :=
  let raw := Timestamp.format (c.createdAt * 1000) ++ '|' :: c.entryID.string.toList
  .ofList (Base64.encode (toBytes raw))

/-- The position that a token stands for, its instant cut to microseconds as the query does. An
instant before the first day of year 1 is taken for the first, as no entry is as old. -/
def readCursor (token : String) : Option StatementCursor := do
  let raw ← Base64.decode token.toList
  let (instant, id) ← cut '|' (ofBytes raw)
  let createdAt ← Timestamp.parse instant
  let entryID ← UUID.parse id
  return ⟨(createdAt / 1000).toNat, entryID⟩

/-- Every failure is the same error. -/
def decodeCursor (token : String) : Except Error StatementCursor :=
  match readCursor token with
  | none => .error (.errorf "cursor is not valid" .invalidEntry)
  | some c => .ok c

/-- `handleGetStatement`, once the other parameters are read. -/
def handleGetStatement (q : StatementQuery) (cursor : String) (db : DB) : Except Error Statement :=
  if cursor = "" then getStatement { q with after := none } db
  else do
    let c ← decodeCursor cursor
    getStatement { q with after := some c } db

def nextToken (s : Statement) : Option String := s.nextCursor.map encodeCursor

theorem ofBytes_toBytes {text : List Char} (h : ∀ c ∈ text, c.toNat < 128) :
    ofBytes (toBytes text) = text := by
  rw [ofBytes, toBytes, List.map_map]
  conv_rhs => rw [← List.map_id text]
  refine List.map_congr_left fun c hc => ?_
  have hbyte : (UInt8.ofNat c.toNat).toNat = c.toNat := by
    rw [UInt8.toNat_ofNat', Nat.mod_eq_of_lt]
    exact Nat.lt_trans (h c hc) (by decide)
  rw [Function.comp_apply, hbyte, Char.ofNat_toNat, id]

theorem cut_append {sep : Char} {before after : List Char} (h : sep ∉ before) :
    cut sep (before ++ sep :: after) = some (before, after) := by
  induction before with
  | nil => exact if_pos rfl
  | cons c before ih =>
    rw [List.mem_cons, not_or] at h
    rw [List.cons_append, cut, if_neg (Ne.symm h.1), ih h.2]
    rfl

section Token
variable {c : StatementCursor}

theorem format_ascii {t : ℕ} (h : t < Timestamp.yearTenThousand * 1000) {c : Char}
    (hc : c ∈ Timestamp.format t) : c.toNat < 128 ∧ c ≠ '|' := by
  rcases Timestamp.mem_format h hc with hdigit | hmem
  · rw [Char.isDigit, Bool.and_eq_true, decide_eq_true_eq, decide_eq_true_eq] at hdigit
    have hle : c.toNat ≤ 57 := hdigit.2
    refine ⟨by omega, ?_⟩
    rintro rfl
    exact absurd hle (by decide)
  · have hall : ['-', 'T', ':', '.', 'Z'].all (fun c => c.toNat < 128 ∧ c ≠ '|') = true := by
      decide
    exact of_decide_eq_true (List.all_eq_true.1 hall c hmem)

theorem string_ascii {u : UUID} {c : Char} (hc : c ∈ u.string.toList) : c.toNat < 128 := by
  have hall : "0123456789abcdef-".toList.all (fun c => c.toNat < 128) = true := by decide +kernel
  exact of_decide_eq_true (List.all_eq_true.1 hall c (UUID.mem_string hc))

theorem readCursor_encodeCursor (h : c.createdAt < Timestamp.yearTenThousand) :
    readCursor (encodeCursor c) = some c := by
  have h : c.createdAt * 1000 < Timestamp.yearTenThousand * 1000 :=
    Nat.mul_lt_mul_of_pos_right h (by decide)
  have hascii : ∀ x ∈ Timestamp.format (c.createdAt * 1000) ++ '|' :: c.entryID.string.toList,
      x.toNat < 128 := by
    intro x hx
    rcases List.mem_append.1 hx with hx | hx
    · exact (format_ascii h hx).1
    · rcases List.mem_cons.1 hx with rfl | hx
      · decide
      · exact string_ascii hx
  have hcut : cut '|' (Timestamp.format (c.createdAt * 1000) ++ '|' :: c.entryID.string.toList) =
      some (Timestamp.format (c.createdAt * 1000), c.entryID.string.toList) :=
    cut_append fun hbar => (format_ascii h hbar).2 rfl
  have hinstant : (((c.createdAt * 1000 : ℕ) : ℤ) / 1000).toNat = c.createdAt := by omega
  simp only [readCursor, encodeCursor, String.toList_ofList, Base64.decode_encode,
    ofBytes_toBytes hascii, hcut, Timestamp.parse_format h, UUID.parse_string, Option.bind_eq_bind,
    Option.bind_some, hinstant]
  rfl

theorem encodeCursor_ne_empty (c : StatementCursor) : encodeCursor c ≠ "" := by
  intro hempty
  have hlist := congrArg String.toList hempty
  rw [encodeCursor, String.toList_ofList] at hlist
  refine Base64.encode_ne_nil (fun hnil => ?_) hlist
  rw [toBytes, List.map_eq_nil_iff, List.append_eq_nil_iff] at hnil
  cases hnil.2

/-- The service goes on from the position that it named. -/
theorem handleGetStatement_encodeCursor (h : c.createdAt < Timestamp.yearTenThousand)
    (q : StatementQuery) (db : DB) :
    handleGetStatement q (encodeCursor c) db = getStatement { q with after := some c } db := by
  rw [handleGetStatement, if_neg (encodeCursor_ne_empty c), decodeCursor,
    readCursor_encodeCursor h]
  rfl

end Token

section Balances
variable {q : StatementQuery} {db : DB} {a : AccountRow} {s : Statement} {base : ℤ}
  {done : List JournalEntry} {pages : List Statement}

structure PageInfo (a : AccountRow) (base : ℤ) (done : List JournalEntry) (s : Statement) : Prop
    extends PageBalances a base done s where
  opening_currency : s.opening.currency = a.currency
  closing_currency : s.closing.currency = a.currency

theorem getStatement_currency (ha : db.accounts.find? q.accountID = some a)
    (h : getStatement q db = .ok s) :
    s.opening.currency = a.currency ∧ s.closing.currency = a.currency := by
  obtain ⟨-, -, hpage⟩ := getStatement_eq_ok.1 h
  obtain ⟨a', ha', -, -, rfl⟩ := Repository.getStatement_eq_ok.1 hpage
  obtain rfl := Option.some.inj (ha.symm.trans ha')
  exact ⟨rfl, rfl⟩

theorem laid_chain (h : Paging.Laid Statement.entries (PageInfo a base) done pages) :
    pages.IsChain fun s s' => s'.opening = s.closing := by
  induction pages generalizing done with
  | nil => exact .nil
  | cons s pages ih =>
    obtain ⟨hs, hpages⟩ := h
    cases pages with
    | nil => exact .singleton s
    | cons s' pages =>
      refine .cons_cons ?_ (ih hpages)
      have hs' := hpages.1
      have hminor : s'.opening.amountMinor = s.closing.amountMinor :=
        Int64.toInt_inj.1 (hs'.opening.trans hs.closing.symm)
      have hcurrency := hs'.opening_currency.trans hs.closing_currency.symm
      exact (Money.mk.injEq ..).mpr ⟨hminor, hcurrency⟩

theorem laid_running (h : Paging.Laid Statement.entries (PageInfo a base) done pages) :
    (pages.flatMap fun s => s.lines).map (fun l => (l.entry, l.runningBalance.amountMinor.toInt)) =
      withRunning a (base + signedSum a done) (pages.flatMap Statement.entries) := by
  induction pages generalizing done with
  | nil => rfl
  | cons s pages ih =>
    obtain ⟨hs, hpages⟩ := h
    rw [List.flatMap_cons, List.map_append, hs.running, ih hpages, List.flatMap_cons,
      withRunning_append, signedSum_append, Int.add_assoc]

theorem laid_last (h : Paging.Laid Statement.entries (PageInfo a base) done pages) {last : Statement}
    (hlast : pages.getLast? = some last) : last.closing.currency = a.currency ∧
      last.closing.amountMinor.toInt =
        base + signedSum a (done ++ pages.flatMap Statement.entries) := by
  induction pages generalizing done with
  | nil => cases hlast
  | cons s pages ih =>
    obtain ⟨hs, hpages⟩ := h
    cases pages with
    | nil =>
      obtain rfl := Option.some.inj hlast
      rw [List.flatMap_singleton]
      exact ⟨hs.closing_currency, hs.closing⟩
    | cons s' pages =>
      rw [List.getLast?_cons_cons] at hlast
      rw [List.flatMap_cons, ← List.append_assoc]
      exact ih hpages hlast

end Balances

section AsOf
variable {accountID : UUID} {periodFrom periodTo : Time} {db : DB} {a : AccountRow}

theorem signedSum_entriesAsOf (h : periodFrom ≤ periodTo) :
    signedSum a (entriesAsOf accountID periodTo db) = balanceBefore a accountID periodFrom db +
      signedSum a (periodEntries accountID periodFrom periodTo db) := by
  have hasOf : entriesAsOf accountID periodTo db =
      (accountEntries accountID db).filter fun e => e.createdAt ≤ periodTo := by
    rw [accountEntries, List.filter_filter, entriesAsOf]
    refine List.filter_congr fun e _ => ?_
    rw [← Bool.decide_and, decide_eq_decide, and_comm]
  have hperiod : signedSum a (periodEntries accountID periodFrom periodTo db) =
      signedSum a ((accountEntries accountID db).filter fun e =>
        periodFrom ≤ e.createdAt ∧ e.createdAt ≤ periodTo) :=
    signedSum_perm (List.perm_insertionSort _ _)
  rw [hasOf, hperiod, ← signedSum_filter_add fun e : JournalEntry => e.createdAt < periodFrom,
    List.filter_filter, List.filter_filter, balanceBefore]
  congr 2
  · refine List.filter_congr fun e _ => ?_
    rw [← Bool.decide_and, decide_eq_decide]
    exact and_iff_left_of_imp fun hlt => hlt.le.trans h
  · refine List.filter_congr fun e _ => ?_
    rw [← decide_not, ← Bool.decide_and, decide_eq_decide, not_lt]

theorem getBalanceAsOf_eq_ok (ha : db.accounts.find? accountID = some a) {m : Money}
    (hcurrency : m.currency = a.currency)
    (hminor : m.amountMinor.toInt = signedSum a (entriesAsOf accountID periodTo db)) :
    getBalanceAsOf accountID periodTo db = .ok m := by
  obtain ⟨amountMinor, currency⟩ := m
  obtain rfl : currency = a.currency := hcurrency
  have hscan : scanInt64 ((entriesAsOf accountID periodTo db).map fun e =>
      if e.direction = a.normalBalance then e.amount.amountMinor.toInt
      else -e.amount.amountMinor.toInt).sum = .ok amountMinor := scanInt64_eq_ok.2 hminor
  simp only [getBalanceAsOf, ha, hscan]
  exact newMoney_currency a amountMinor

end AsOf

/-- What the pages of a statement say of an account and a period. -/
structure Exact (a : AccountRow) (q : StatementQuery) (db : DB) (pages : List Statement) : Prop where
  /-- The entries come in the order of `(created_at, id)`, none of them twice. -/
  ordered : (pages.flatMap Statement.entries).Pairwise fun e e' => entryKey e < entryKey e'
  mem_entries (e : JournalEntry) : e ∈ pages.flatMap Statement.entries ↔
    ∃ x ∈ accountEntries q.accountID db, q.periodFrom ≤ x.createdAt ∧ x.createdAt ≤ q.periodTo ∧
      e = listed a q.accountID x
  joined : pages.IsChain fun s s' => s'.opening = s.closing
  opening : pages.head?.map (fun s => s.opening.amountMinor.toInt) =
    some (balanceBefore a q.accountID q.periodFrom db)
  running : (pages.flatMap fun s => s.lines).map
      (fun l => (l.entry, l.runningBalance.amountMinor.toInt)) =
    withRunning a (balanceBefore a q.accountID q.periodFrom db) (pages.flatMap Statement.entries)
  closing : ∃ last, pages.getLast? = some last ∧
    getBalanceAsOf q.accountID q.periodTo db = .ok last.closing

def statementPage (q : StatementQuery) (db : DB) (token : Option String) : Except Error Statement :=
  handleGetStatement q (token.getD "") db

section Follow
variable {q : StatementQuery} {db : DB} {a : AccountRow} {s : Statement}
  {done rest : List JournalEntry}

def tokenOf (e : JournalEntry) : String := encodeCursor (cursorOf e)

/-- A client who hands back the last token goes on from the last entry. -/
theorem statementPage_position
    (hyear : ∀ e ∈ periodEntries q.accountID q.periodFrom q.periodTo db,
      e.createdAt < Timestamp.yearTenThousand) (hrows : listedEntries a q db = done ++ rest) :
    statementPage q db (Paging.position tokenOf done) =
      getStatement { q with after := Paging.position cursorOf done } db := by
  cases hlast : done.getLast? with
  | none =>
    rw [Paging.position, Paging.position, hlast, Option.map_none, Option.map_none, statementPage,
      Option.getD_none, handleGetStatement, if_pos rfl]
  | some e =>
    have he : e ∈ listedEntries a q db :=
      hrows ▸ List.mem_append_left _ (List.mem_of_getLast? hlast)
    obtain ⟨x, hx, rfl⟩ := List.mem_map.1 he
    rw [Paging.position, Paging.position, hlast]
    exact handleGetStatement_encodeCursor (hyear x hx) q db

theorem statementPage_continues (ha : db.accounts.find? q.accountID = some a)
    (hnil : db.journal.find? UUID.nil = none)
    (hyear : ∀ e ∈ periodEntries q.accountID q.periodFrom q.periodTo db,
      e.createdAt < Timestamp.yearTenThousand) (hrows : listedEntries a q db = done ++ rest)
    (h : statementPage q db (Paging.position tokenOf done) = .ok s) :
    Paging.Continues tokenOf q.pageLimit Statement.entries nextToken
      (PageInfo a (balanceBefore a q.accountID q.periodFrom db)) done rest s := by
  rw [statementPage_position hyear hrows] at h
  have hpage := getStatement_continues ha hnil hrows h
  have hcurrency :=
    @getStatement_currency { q with after := Paging.position cursorOf done } db a s ha h
  refine ⟨hpage.items, ?_, hpage.info, hcurrency.1, hcurrency.2⟩
  rw [nextToken, hpage.next]
  split_ifs
  · rw [Option.map_map]
    rfl
  · rfl

theorem mem_listedEntries (e : JournalEntry) : e ∈ listedEntries a q db ↔
    ∃ x ∈ accountEntries q.accountID db, q.periodFrom ≤ x.createdAt ∧ x.createdAt ≤ q.periodTo ∧
      e = listed a q.accountID x := by
  simp only [listedEntries, List.mem_map, mem_periodEntries]
  constructor
  · rintro ⟨x, ⟨hx, hfrom, hto⟩, rfl⟩
    exact ⟨x, hx, hfrom, hto, rfl⟩
  · rintro ⟨x, hx, hfrom, hto, rfl⟩
    exact ⟨x, ⟨hx, hfrom, hto⟩, rfl⟩

theorem pairwise_listedEntries :
    (listedEntries a q db).Pairwise fun e e' => entryKey e < entryKey e' :=
  List.pairwise_map.2 pairwise_periodEntries

theorem exact_of_laid {pages : List Statement} (ha : db.accounts.find? q.accountID = some a)
    (hperiod : q.periodFrom ≤ q.periodTo) (hne : pages ≠ [])
    (hentries : pages.flatMap Statement.entries = listedEntries a q db)
    (h : Paging.Laid Statement.entries
      (PageInfo a (balanceBefore a q.accountID q.periodFrom db)) [] pages) : Exact a q db pages := by
  have hlast := List.getLast?_eq_some_getLast hne
  obtain ⟨hcurrency, hminor⟩ := laid_last h hlast
  refine ⟨hentries ▸ pairwise_listedEntries, fun e => hentries ▸ mem_listedEntries e, laid_chain h,
    ?_, ?_, _, hlast, getBalanceAsOf_eq_ok ha hcurrency ?_⟩
  · cases pages with
    | nil => exact absurd rfl hne
    | cons s pages => exact congrArg some (h.1.opening.trans (Int.add_zero _))
  · exact (laid_running h).trans (congrArg (withRunning a · _) (Int.add_zero _))
  · rw [hminor, List.nil_append, hentries, listedEntries, signedSum_listed,
      signedSum_entriesAsOf hperiod]

end Follow

/-- Whoever follows a statement from its first page gets to the last, and has then seen every entry
of the period once and in order, with balances that add up. -/
theorem statement_pages_exact (q : StatementQuery) (db : DB) (a : AccountRow)
    (ha : db.accounts.find? q.accountID = some a) (hid : q.accountID ≠ UUID.nil)
    (hnil : db.journal.find? UUID.nil = none) (hperiod : q.periodFrom ≤ q.periodTo)
    (hfits : ∀ b ∈ balancesUpTo a q db, InInt64 b)
    (hyear : ∀ e ∈ periodEntries q.accountID q.periodFrom q.periodTo db,
      e.createdAt < Timestamp.yearTenThousand) :
    ∃ pages, (∀ pages', Paging.Follows (statementPage q db) nextToken none pages' ↔
      pages' = pages) ∧ Exact a q db pages := by
  have hfetch (done rest : List JournalEntry) (hrows : listedEntries a q db = done ++ rest) :
      ∃ s, statementPage q db (Paging.position tokenOf done) = .ok s := by
    rw [statementPage_position hyear hrows]
    exact exists_getStatement ha hid hnil hperiod hfits hrows
  have hpage (done rest : List JournalEntry) (s : Statement)
      (hrows : listedEntries a q db = done ++ rest)
      (h : statementPage q db (Paging.position tokenOf done) = .ok s) :=
    statementPage_continues ha hnil hyear hrows h
  obtain ⟨pages, hpages⟩ := Paging.exists_follows q.pageLimit_pos hpage hfetch
  obtain ⟨hentries, hlaid⟩ := hpages.laid q.pageLimit_pos hpage [] _ rfl rfl
  have hne : pages ≠ [] := by
    rintro rfl
    cases hpages
  exact ⟨pages, fun pages' => ⟨hpages.unique, fun h => h ▸ hpages⟩,
    exact_of_laid ha hperiod hne hentries hlaid⟩

/-- A wallet split in two shards, each of which gets a payin of the amount from a bank of its own. -/
def samplePayins (amount : Int64) : DB := runOps
  [.createAccount (sampleDraws 0) 1 ⟨"bank", .asset, "INR", none, false⟩,
   .createAccount (sampleDraws 1) 4 ⟨"cash", .asset, "INR", none, false⟩,
   .createAccount (sampleDraws 2) 2 ⟨"wallet", .liability, "INR", none, false⟩,
   .shardAccount 3 (fun i => BitVec.ofNat 128 (10 + i)) 2 2,
   payin 4 5 1, payin 5 6 4] .empty
where
  payin (n : ℕ) (txID bank : UUID) : LedgerOp := .postTransaction (sampleDraws n) txID
    { principalID := "p", type := .payin, externalRef := none, metadata := []
      entries := [⟨bank, .debit, ⟨amount, "INR"⟩⟩, ⟨2, .credit, ⟨amount, "INR"⟩⟩]
      idempotencyKey := none, idempotency := none, record := none } recording_none

def sampleStatement : StatementQuery := ⟨2, 0, 9, 1, none⟩

/-- Two pages of one entry each. -/
theorem statement_pages_exact_split : ∃ a pages,
    (samplePayins 500).accounts.find? 2 = some a ∧
    (∀ pages', Paging.Follows (statementPage sampleStatement (samplePayins 500)) nextToken none
      pages' ↔ pages' = pages) ∧ Exact a sampleStatement (samplePayins 500) pages := by
  have haccount : ((samplePayins 500).accounts.find? 2).any (fun a =>
      (balancesUpTo a sampleStatement (samplePayins 500)).all
        fun b => -2 ^ 63 ≤ b ∧ b < 2 ^ 63) = true := by decide +kernel
  have hnil : ((samplePayins 500).journal.find? UUID.nil).isNone = true := by decide +kernel
  have hyear : (periodEntries 2 0 9 (samplePayins 500)).all
      (fun e => e.createdAt < Timestamp.yearTenThousand) = true := by decide +kernel
  obtain ⟨a, ha, hfits⟩ := (Option.any_eq_true ..).1 haccount
  obtain ⟨pages, hpages⟩ := statement_pages_exact sampleStatement (samplePayins 500) a ha (by decide)
    (Option.isNone_iff_eq_none.1 hnil) (by decide)
    (fun b hb => show -2 ^ 63 ≤ b ∧ b < 2 ^ 63 from
      of_decide_eq_true (List.all_eq_true.1 hfits b hb))
    (fun e he => of_decide_eq_true (List.all_eq_true.1 hyear e he))
  exact ⟨a, pages, ha, hpages⟩

/-- Two shards that hold `2 ^ 62` each: the wallet has no statement, as its balance does not fit. -/
theorem statement_overflows : ((samplePayins (2 ^ 62)).accounts.find? 2).isSome = true ∧
    (statementPage sampleStatement (samplePayins (2 ^ 62)) none).toOption = none := by
  decide +kernel

end LedgerCore.Http
