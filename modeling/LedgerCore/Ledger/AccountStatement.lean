import Mathlib.Data.Prod.Lex
import LedgerCore.Paging.Basic
import LedgerCore.Ledger.Reads

/-! Statements of an account: its entries in a period, page by page, with a running balance. -/
namespace LedgerCore.Ledger
open LedgerCore.Program
variable {e e' : JournalEntry}

structure StatementCursor where
  createdAt : Time
  entryID : UUID
  deriving DecidableEq, Repr

structure StatementQuery where
  accountID : UUID
  periodFrom : Time
  periodTo : Time
  limit : ℤ
  after : Option StatementCursor
  deriving DecidableEq, Repr

structure StatementLine where
  entry : JournalEntry
  signed : Money
  runningBalance : Money
  deriving DecidableEq, Repr

structure Statement where
  accountID : UUID
  currency : String
  periodFrom : Time
  periodTo : Time
  opening : Money
  closing : Money
  lines : List StatementLine
  nextCursor : Option StatementCursor
  deriving DecidableEq, Repr

/-- The pair `(created_at, id)`, in the order of its columns. -/
def StatementCursor.key (c : StatementCursor) : ℕ ×ₗ ℕ := toLex (c.createdAt, c.entryID.toNat)

def cursorOf (e : JournalEntry) : StatementCursor := ⟨e.createdAt, e.id⟩

def entryKey (e : JournalEntry) : ℕ ×ₗ ℕ := (cursorOf e).key

def accountEntries (accountID : UUID) (db : DB) : List JournalEntry :=
  (journalEntries db).filter fun e => e.accountID ∈ physicalIDs accountID db

/-- `signed_minor`, over the integers. -/
def signedMinor (a : AccountRow) (e : JournalEntry) : ℤ :=
  signed e.direction a.normalBalance e.amount.amountMinor.toInt

def signedSum (a : AccountRow) (entries : List JournalEntry) : ℤ :=
  (entries.map (signedMinor a)).sum

def byKey (entries : List JournalEntry) : List JournalEntry :=
  entries.insertionSort fun a b => entryKey a ≤ entryKey b

/-- The common table expression `opening`: everything up to the cursor. -/
def openingMinor (a : AccountRow) (accountID : UUID) (c : StatementCursor) (db : DB) : ℤ :=
  signedSum a ((accountEntries accountID db).filter fun e => entryKey e ≤ c.key)

/-- The rows of the common table expression `page`, before its limit. -/
def entriesAfter (accountID : UUID) (c : StatementCursor) (periodTo : Time) (db : DB) :
    List JournalEntry :=
  byKey ((accountEntries accountID db).filter fun e => c.key < entryKey e ∧ e.createdAt ≤ periodTo)

/-- `SUM(signed_minor) OVER (ORDER BY created_at, id)`, on top of a balance. -/
def withRunning (a : AccountRow) (balance : ℤ) : List JournalEntry → List (JournalEntry × ℤ)
  | [] => []
  | e :: entries =>
    (e, balance + signedMinor a e) :: withRunning a (balance + signedMinor a e) entries

namespace Repository

def scanLine (a : AccountRow) (accountID : UUID) (row : JournalEntry × ℤ) :
    Except Error StatementLine := do
  let e := row.1
  let runningMinor ← (scanInt64 row.2).mapError
    (Error.wrap ("scan statement row for account " ++ accountID.string))
  let money (amount : Int64) := (newMoney amount a.currency).mapError
    (Error.wrap ("statement line " ++ e.id.string))
  let signed ← money
    (if e.direction = a.normalBalance then e.amount.amountMinor else -e.amount.amountMinor)
  let running ← money runningMinor
  let amount ← money e.amount.amountMinor
  pure ⟨{ e with accountID, amount }, signed, running⟩

def assemble (a : AccountRow) (q : StatementQuery) (opening : Money)
    (fetched : List StatementLine) : Statement :=
  let (lines, last) := Paging.trim q.limit.toNat fetched
  { accountID := q.accountID, currency := a.currency, periodFrom := q.periodFrom,
    periodTo := q.periodTo, opening
    closing := (lines.getLast?.map fun l => l.runningBalance).getD opening
    lines, nextCursor := last.map fun l => cursorOf l.entry }

/-- `GetStatement`: every row of the result carries the opening balance, and there is a row
without an entry when the page has none. -/
def getStatement (q : StatementQuery) (db : DB) : Except Error Statement :=
  match db.accounts.find? q.accountID with
  | none => .error (.errorf ("account " ++ q.accountID.string) .accountNotFound)
  | some a => do
    let c := q.after.getD ⟨q.periodFrom, UUID.nil⟩
    let limit := q.limit.toNat
    let openingMinor ← (scanInt64 (openingMinor a q.accountID c db)).mapError
      (Error.wrap ("scan statement row for account " ++ q.accountID.string))
    let page := (entriesAfter q.accountID c q.periodTo db).take (limit + 1)
    let fetched ← (withRunning a openingMinor.toInt page).mapM' (scanLine a q.accountID)
    let opening ← (newMoney openingMinor a.currency).mapError
      (Error.wrap ("statement opening balance for account " ++ q.accountID.string))
    pure (assemble a q opening fetched)

end Repository

def defaultStatementLimit : ℤ := 100

def maxStatementLimit : ℤ := 1000

def clampLimit (default max limit : ℤ) : ℤ :=
  if limit ≤ 0 then default else if limit > max then max else limit

def getStatement (q : StatementQuery) (db : DB) : Except Error Statement := do
  failIf (q.accountID = UUID.nil) (.errorf "statement: account id is required" .accountNotFound)
  failIf (q.periodTo < q.periodFrom)
    (.errorf s!"statement: period ends ({q.periodTo}) before it starts ({q.periodFrom})"
      .invalidEntry)
  Repository.getStatement
    { q with limit := clampLimit defaultStatementLimit maxStatementLimit q.limit } db

def InInt64 (n : ℤ) : Prop := -2 ^ 63 ≤ n ∧ n < 2 ^ 63

theorem scanInt64_eq_ok_iff {n : ℤ} {i : Int64} : scanInt64 n = .ok i ↔ InInt64 n ∧ i = .ofInt n := by
  unfold scanInt64
  split_ifs with h
  · rw [Except.ok.injEq, eq_comm]
    exact (and_iff_right h).symm
  · exact ⟨fun hok => (nomatch hok), fun hok => absurd hok.1 h⟩

/-- An entry as a statement lists it: on the account asked for, also when it is a shard's. -/
def listed (a : AccountRow) (accountID : UUID) (e : JournalEntry) : JournalEntry :=
  { e with accountID, amount := ⟨e.amount.amountMinor, a.currency⟩ }

def lineOf (a : AccountRow) (accountID : UUID) (row : JournalEntry × ℤ) : StatementLine where
  entry := listed a accountID row.1
  signed := ⟨if row.1.direction = a.normalBalance then row.1.amount.amountMinor
    else -row.1.amount.amountMinor, a.currency⟩
  runningBalance := ⟨.ofInt row.2, a.currency⟩

theorem newMoney_currency (a : AccountRow) (amount : Int64) :
    newMoney amount a.currency = .ok ⟨amount, a.currency⟩ :=
  newMoney_eq_ok.2 ⟨a.currency_check, rfl⟩

theorem scanLine_eq_ok {a : AccountRow} {accountID : UUID} (row : JournalEntry × ℤ)
    (l : StatementLine) :
    Repository.scanLine a accountID row = .ok l ↔ InInt64 row.2 ∧ l = lineOf a accountID row := by
  simp only [Repository.scanLine, newMoney_currency]
  rw [bind_eq_ok]
  simp only [mapError_eq_ok, scanInt64_eq_ok_iff]
  constructor
  · rintro ⟨i, ⟨hfits, rfl⟩, h⟩
    exact ⟨hfits, (Except.ok.inj h).symm⟩
  · rintro ⟨hfits, rfl⟩
    exact ⟨_, ⟨hfits, rfl⟩, rfl⟩

section Running
variable {a : AccountRow} {b : ℤ} {entries rest : List JournalEntry}

@[simp] theorem signedSum_nil : signedSum a [] = 0 := rfl

@[simp] theorem signedSum_cons (e : JournalEntry) :
    signedSum a (e :: entries) = signedMinor a e + signedSum a entries := rfl

theorem signedSum_append : signedSum a (entries ++ rest) = signedSum a entries + signedSum a rest := by
  simp only [signedSum, List.map_append, List.sum_append]

theorem signedSum_perm (h : entries.Perm rest) : signedSum a entries = signedSum a rest :=
  (h.map _).sum_eq

theorem signedSum_filter_add (p : JournalEntry → Bool) :
    signedSum a (entries.filter p) + signedSum a (entries.filter fun e => !p e) =
      signedSum a entries := by
  rw [← signedSum_append]
  exact signedSum_perm (List.filter_append_perm p entries)

theorem withRunning_append : withRunning a b (entries ++ rest) =
    withRunning a b entries ++ withRunning a (b + signedSum a entries) rest := by
  induction entries generalizing b with
  | nil => simp [withRunning]
  | cons e entries ih =>
    simp only [List.cons_append, withRunning, ih, signedSum_cons, Int.add_assoc]

theorem length_withRunning : (withRunning a b entries).length = entries.length := by
  induction entries generalizing b with
  | nil => rfl
  | cons e entries ih => rw [withRunning, List.length_cons, List.length_cons, ih]

theorem map_fst_withRunning : (withRunning a b entries).map Prod.fst = entries := by
  induction entries generalizing b with
  | nil => rfl
  | cons e entries ih => rw [withRunning, List.map_cons, ih]

theorem withRunning_take (n : ℕ) :
    withRunning a b (entries.take n) = (withRunning a b entries).take n := by
  induction entries generalizing b n with
  | nil => simp [withRunning]
  | cons e entries ih =>
    cases n with
    | zero => rfl
    | succ n => rw [List.take_succ_cons, withRunning, withRunning, List.take_succ_cons, ih]

theorem getLast?_withRunning :
    ((withRunning a b entries).getLast?.map Prod.snd).getD b = b + signedSum a entries := by
  rcases List.eq_nil_or_concat entries with rfl | ⟨init, e, rfl⟩
  · simp [withRunning]
  · simp only [List.concat_eq_append, withRunning_append, withRunning, List.getLast?_append,
      List.getLast?_singleton, Option.some_or, Option.map_some, Option.getD_some, signedSum_append,
      signedSum_cons, signedSum_nil]
    omega

end Running

/-- The page that starts at a cursor, given the account, the balance up to the cursor and the
entries after it. -/
def statementOf (a : AccountRow) (q : StatementQuery) (opening : ℤ) (rest : List JournalEntry) :
    Statement where
  accountID := q.accountID
  currency := a.currency
  periodFrom := q.periodFrom
  periodTo := q.periodTo
  opening := ⟨.ofInt opening, a.currency⟩
  closing := ⟨.ofInt (opening + signedSum a (rest.take q.limit.toNat)), a.currency⟩
  lines := (withRunning a opening (rest.take q.limit.toNat)).map (lineOf a q.accountID)
  nextCursor :=
    if q.limit.toNat < rest.length then rest[q.limit.toNat - 1]?.map cursorOf else none

section Page
variable {a : AccountRow} {accountID : UUID} {opening : ℤ} {rest : List JournalEntry} {limit : ℕ}

theorem trim_lines :
    Paging.trim limit ((withRunning a opening (rest.take (limit + 1))).map (lineOf a accountID)) =
      ((withRunning a opening (rest.take limit)).map (lineOf a accountID),
        if limit < rest.length then (withRunning a opening rest)[limit - 1]?.map (lineOf a accountID)
        else none) := by
  rw [Paging.trim_map, withRunning_take, Paging.trim_take, length_withRunning, withRunning_take]
  split_ifs <;> rfl

theorem closing_lines :
    (((withRunning a opening rest).map (lineOf a accountID)).getLast?.map fun l =>
      l.runningBalance).getD ⟨.ofInt opening, a.currency⟩ =
        ⟨.ofInt (opening + signedSum a rest), a.currency⟩ := by
  rw [← getLast?_withRunning, List.getLast?_map]
  cases (withRunning a opening rest).getLast? <;> rfl

theorem cursorOf_withRunning (n : ℕ) :
    (((withRunning a opening rest)[n]?.map (lineOf a accountID)).map fun l => cursorOf l.entry) =
      rest[n]?.map cursorOf := by
  conv_rhs => rw [← @map_fst_withRunning a opening rest]
  rw [List.getElem?_map]
  cases (withRunning a opening rest)[n]? <;> rfl

theorem assemble_eq_statementOf (q : StatementQuery) :
    Repository.assemble a q ⟨.ofInt opening, a.currency⟩
      ((withRunning a opening (rest.take (q.limit.toNat + 1))).map (lineOf a q.accountID)) =
        statementOf a q opening rest := by
  simp only [Repository.assemble, statementOf, trim_lines, closing_lines, Statement.mk.injEq,
    true_and]
  split_ifs
  · exact cursorOf_withRunning _
  · rfl

end Page

/-- A page comes back when every balance on it fits, that of the row of look-ahead included. -/
theorem Repository.getStatement_eq_ok {q : StatementQuery} {db : DB} {s : Statement} :
    Repository.getStatement q db = .ok s ↔ ∃ a, db.accounts.find? q.accountID = some a ∧
      let c := q.after.getD ⟨q.periodFrom, UUID.nil⟩
      let opening := openingMinor a q.accountID c db
      let rest := entriesAfter q.accountID c q.periodTo db
      InInt64 opening ∧
      (∀ row ∈ withRunning a opening (rest.take (q.limit.toNat + 1)), InInt64 row.2) ∧
      s = statementOf a q opening rest := by
  unfold Repository.getStatement
  cases db.accounts.find? q.accountID with
  | none => simp
  | some a =>
    simp only [Option.some.injEq, exists_eq_left', newMoney_currency]
    rw [bind_eq_ok]
    simp only [mapError_eq_ok, scanInt64_eq_ok_iff, bind_eq_ok, mapM'_eq_ok scanLine_eq_ok]
    constructor
    · rintro ⟨_, ⟨hopening, rfl⟩, _, ⟨hfits, rfl⟩, _, ⟨⟩, hs⟩
      rw [Int64.toInt_ofInt_of_le hopening.1 hopening.2] at hfits hs
      rw [assemble_eq_statementOf] at hs
      exact ⟨hopening, hfits, (Except.ok.inj hs).symm⟩
    · rintro ⟨hopening, hfits, rfl⟩
      refine ⟨_, ⟨hopening, rfl⟩, _, ⟨?_, rfl⟩, _, rfl, ?_⟩
      all_goals rw [Int64.toInt_ofInt_of_le hopening.1 hopening.2]
      · exact hfits
      · rw [assemble_eq_statementOf]
        rfl

/-- The entries of an account in a period, as a statement orders them. -/
def periodEntries (accountID : UUID) (periodFrom periodTo : Time) (db : DB) : List JournalEntry :=
  byKey ((accountEntries accountID db).filter fun e =>
    periodFrom ≤ e.createdAt ∧ e.createdAt ≤ periodTo)

def balanceBefore (a : AccountRow) (accountID : UUID) (periodFrom : Time) (db : DB) : ℤ :=
  signedSum a ((accountEntries accountID db).filter fun e => e.createdAt < periodFrom)

section Rows
variable {accountID : UUID} {periodFrom periodTo : Time} {db : DB} {done rest : List JournalEntry}

theorem journal_eq_of_id (he : e ∈ journalEntries db) (he' : e' ∈ journalEntries db)
    (h : e.id = e'.id) : e = e' := by
  obtain ⟨r, hr, rfl⟩ := List.mem_map.1 he
  obtain ⟨r', hr', rfl⟩ := List.mem_map.1 he'
  rw [List.inj_on_of_nodup_map db.journal.nodup hr hr' h]

theorem eq_of_entryKey (he : e ∈ accountEntries accountID db)
    (he' : e' ∈ accountEntries accountID db) (h : entryKey e ≤ entryKey e')
    (h' : entryKey e' ≤ entryKey e) : e = e' := by
  have hkey := congrArg Prod.snd (congrArg ofLex (le_antisymm h h'))
  exact journal_eq_of_id (List.mem_of_mem_filter he) (List.mem_of_mem_filter he')
    (BitVec.eq_of_toNat_eq hkey)

theorem byKey_filter (p : JournalEntry → Bool) :
    byKey ((accountEntries accountID db).filter p) = (byKey (accountEntries accountID db)).filter p :=
  Paging.insertionSort_filter (fun _ he _ he' => eq_of_entryKey he he') p

theorem createdAt_le_of_key (h : entryKey e ≤ entryKey e') : e.createdAt ≤ e'.createdAt := by
  rcases Prod.Lex.le_iff.1 h with h | h
  · exact h.le
  · exact h.1.le

theorem pairwise_byKey : (byKey (accountEntries accountID db)).Pairwise fun e e' =>
    entryKey e < entryKey e' := by
  have hnodup : (byKey (accountEntries accountID db)).Nodup :=
    (List.perm_insertionSort _ _).nodup_iff.2
      ((List.Nodup.of_map _ (by simpa [journalEntries, Function.comp_def, toEntry] using
        db.journal.nodup : ((journalEntries db).map fun e => e.id).Nodup)).filter _)
  refine (hnodup.and (List.pairwise_insertionSort _ _)).imp_of_mem fun he he' h => ?_
  refine lt_of_le_not_ge h.2 fun h' => h.1 ?_
  exact eq_of_entryKey ((List.mem_insertionSort _).1 he) ((List.mem_insertionSort _).1 he') h.2 h'

theorem periodEntries_eq_filter : periodEntries accountID periodFrom periodTo db =
    (byKey (accountEntries accountID db)).filter fun e =>
      periodFrom ≤ e.createdAt ∧ e.createdAt ≤ periodTo := byKey_filter _

theorem entriesAfter_eq_filter {c : StatementCursor} : entriesAfter accountID c periodTo db =
    (byKey (accountEntries accountID db)).filter fun e =>
      c.key < entryKey e ∧ e.createdAt ≤ periodTo := byKey_filter _

theorem pairwise_periodEntries : (periodEntries accountID periodFrom periodTo db).Pairwise
    fun e e' => entryKey e < entryKey e' := by
  rw [periodEntries_eq_filter]
  exact pairwise_byKey.filter _

theorem mem_periodEntries : e ∈ periodEntries accountID periodFrom periodTo db ↔
    e ∈ accountEntries accountID db ∧ periodFrom ≤ e.createdAt ∧ e.createdAt ≤ periodTo := by
  rw [periodEntries, byKey, List.mem_insertionSort, List.mem_filter, decide_eq_true_eq]

theorem signedSum_accountEntries (a : AccountRow) (p : JournalEntry → Bool) :
    signedSum a ((accountEntries accountID db).filter p) =
      signedSum a ((byKey (accountEntries accountID db)).filter p) :=
  signedSum_perm ((List.perm_insertionSort _ _).symm.filter p)

/-- The cursor that goes on from `done`; the first page starts below every entry of the period. -/
def cursorAt (periodFrom : Time) (done : List JournalEntry) : StatementCursor :=
  (Paging.position cursorOf done).getD ⟨periodFrom, UUID.nil⟩

theorem first_key_lt (periodFrom : Time) (h : e.id ≠ UUID.nil) :
    (StatementCursor.mk periodFrom UUID.nil).key < entryKey e ↔ periodFrom ≤ e.createdAt := by
  have hpos : 0 < e.id.toNat := by
    refine Nat.pos_of_ne_zero fun hzero => h (BitVec.eq_of_toNat_eq ?_)
    rw [hzero]
    rfl
  rw [Prod.Lex.lt_iff]
  change periodFrom < e.createdAt ∨ periodFrom = e.createdAt ∧ 0 < e.id.toNat ↔ _
  rw [and_iff_left hpos]
  exact Nat.le_iff_lt_or_eq.symm

theorem mem_byKey_id_ne_nil (hnil : db.journal.find? UUID.nil = none)
    (he : e ∈ byKey (accountEntries accountID db)) : e.id ≠ UUID.nil := by
  have hmem := List.mem_of_mem_filter ((List.mem_insertionSort _).1 he)
  obtain ⟨r, hr, rfl⟩ := List.mem_map.1 hmem
  rintro (h : r.1 = UUID.nil)
  rw [← h, Table.find?_eq_some.2 hr] at hnil
  cases hnil

theorem entriesAfter_cursorAt (hnil : db.journal.find? UUID.nil = none)
    (h : periodEntries accountID periodFrom periodTo db = done ++ rest) :
    entriesAfter accountID (cursorAt periodFrom done) periodTo db = rest := by
  cases hlast : done.getLast? with
  | none =>
    obtain rfl := List.getLast?_eq_none_iff.1 hlast
    rw [List.nil_append] at h
    rw [← h, periodEntries_eq_filter, entriesAfter_eq_filter]
    refine List.filter_congr fun e he => ?_
    have hfirst := first_key_lt periodFrom (mem_byKey_id_ne_nil hnil he)
    exact decide_eq_decide.2 (and_congr_left' hfirst)
  | some e =>
    have hcursor : cursorAt periodFrom done = cursorOf e := by
      simp only [cursorAt, Paging.position, hlast, Option.map_some, Option.getD_some]
    have hrest := Paging.filter_after (h ▸ pairwise_periodEntries) (fun _ _ => lt_asymm) hlast
    have he : e ∈ periodEntries accountID periodFrom periodTo db :=
      h ▸ List.mem_append_left _ (List.mem_of_getLast? hlast)
    have hfrom := (mem_periodEntries.1 he).2.1
    rw [hcursor, entriesAfter_eq_filter, ← hrest, ← h, periodEntries_eq_filter, List.filter_filter]
    refine List.filter_congr fun x _ => ?_
    rw [← Bool.decide_and, decide_eq_decide]
    constructor
    · rintro ⟨hlt, hto⟩
      exact ⟨hlt, hfrom.trans (createdAt_le_of_key hlt.le), hto⟩
    · rintro ⟨hlt, -, hto⟩
      exact ⟨hlt, hto⟩

theorem openingMinor_cursorAt (a : AccountRow) (hnil : db.journal.find? UUID.nil = none)
    (h : periodEntries accountID periodFrom periodTo db = done ++ rest) :
    openingMinor a accountID (cursorAt periodFrom done) db =
      balanceBefore a accountID periodFrom db + signedSum a done := by
  rw [openingMinor, balanceBefore, signedSum_accountEntries, signedSum_accountEntries]
  cases hlast : done.getLast? with
  | none =>
    obtain rfl := List.getLast?_eq_none_iff.1 hlast
    rw [signedSum_nil, Int.add_zero]
    refine congrArg _ (List.filter_congr fun e he => decide_eq_decide.2 ?_)
    have hfirst := first_key_lt periodFrom (mem_byKey_id_ne_nil hnil he)
    exact not_lt.symm.trans ((not_congr hfirst).trans not_le)
  | some e =>
    have hcursor : cursorAt periodFrom done = cursorOf e := by
      simp only [cursorAt, Paging.position, hlast, Option.map_some, Option.getD_some]
    have hdone := Paging.filter_not_after (h ▸ pairwise_periodEntries) (fun _ _ => lt_asymm) hlast
    have he : e ∈ periodEntries accountID periodFrom periodTo db :=
      h ▸ List.mem_append_left _ (List.mem_of_getLast? hlast)
    obtain ⟨-, hfrom, hto⟩ := mem_periodEntries.1 he
    rw [hcursor, ← hdone, ← h, periodEntries_eq_filter, List.filter_filter,
      ← signedSum_filter_add fun x : JournalEntry => x.createdAt < periodFrom, List.filter_filter,
      List.filter_filter]
    -- What comes before the period comes before the cursor, and what the cursor covers of the
    -- rest lies in the period.
    congr 2
    · refine List.filter_congr fun x _ => ?_
      rw [← Bool.decide_and, decide_eq_decide]
      refine and_iff_left_of_imp fun hbefore => ?_
      exact not_lt.1 fun hlt =>
        absurd (createdAt_le_of_key hlt.le) (not_le.2 (lt_of_lt_of_le hbefore hfrom))
    · refine List.filter_congr fun x _ => ?_
      rw [← decide_not, ← Bool.decide_and, ← Bool.decide_and, decide_eq_decide, not_lt, not_lt]
      constructor
      · rintro ⟨hge, hkey⟩
        exact ⟨hkey, hge, (createdAt_le_of_key hkey).trans hto⟩
      · rintro ⟨hkey, hge, -⟩
        exact ⟨hge, hkey⟩

end Rows

def Statement.entries (s : Statement) : List JournalEntry := s.lines.map fun l => l.entry

/-- What the balances of a page are, given the balance before the period and the entries on the
pages before. -/
structure PageBalances (a : AccountRow) (base : ℤ) (done : List JournalEntry) (s : Statement) :
    Prop where
  opening : s.opening.amountMinor.toInt = base + signedSum a done
  running : s.lines.map (fun l => (l.entry, l.runningBalance.amountMinor.toInt)) =
    withRunning a (base + signedSum a done) s.entries
  closing : s.closing.amountMinor.toInt = base + signedSum a (done ++ s.entries)

section Pages
variable {q : StatementQuery} {db : DB} {a : AccountRow} {s : Statement}
  {done rest entries : List JournalEntry} {b : ℤ}

def StatementQuery.pageLimit (q : StatementQuery) : ℕ :=
  (clampLimit defaultStatementLimit maxStatementLimit q.limit).toNat

theorem StatementQuery.pageLimit_pos (q : StatementQuery) : 0 < q.pageLimit := by
  unfold pageLimit clampLimit defaultStatementLimit maxStatementLimit
  split_ifs <;> omega

theorem getStatement_eq_ok : getStatement q db = .ok s ↔ q.accountID ≠ UUID.nil ∧
    q.periodFrom ≤ q.periodTo ∧ Repository.getStatement
      { q with limit := clampLimit defaultStatementLimit maxStatementLimit q.limit } db = .ok s := by
  simp only [getStatement, bind_eq_ok, failIf_eq_ok, exists_and_left, exists_const, not_lt, ne_eq]

theorem signedSum_listed (accountID : UUID) :
    signedSum a (entries.map (listed a accountID)) = signedSum a entries := by
  simp only [signedSum, List.map_map]
  rfl

theorem withRunning_listed (accountID : UUID) : withRunning a b (entries.map (listed a accountID)) =
    (withRunning a b entries).map fun row => (listed a accountID row.1, row.2) := by
  induction entries generalizing b with
  | nil => rfl
  | cons e entries ih => exact congrArg _ ih

theorem position_listed (accountID : UUID) :
    Paging.position cursorOf (entries.map (listed a accountID)) =
      Paging.position cursorOf entries := by
  simp only [Paging.position, List.getLast?_map, Option.map_map]
  rfl

theorem fits_closing (hopening : InInt64 b) (hfits : ∀ row ∈ withRunning a b entries, InInt64 row.2) :
    InInt64 (b + signedSum a entries) := by
  rw [← getLast?_withRunning]
  cases hlast : (withRunning a b entries).getLast? with
  | none => exact hopening
  | some row => exact hfits row (List.mem_of_getLast? hlast)

theorem entries_statementOf (a : AccountRow) (q : StatementQuery) (opening : ℤ)
    (rest : List JournalEntry) : (statementOf a q opening rest).entries =
      (rest.take q.limit.toNat).map (listed a q.accountID) := by
  conv_rhs => rw [← @map_fst_withRunning a opening (rest.take q.limit.toNat)]
  simp only [Statement.entries, statementOf, List.map_map]
  rfl

theorem statementOf_balances {accountID : UUID} (hopening : InInt64 (b + signedSum a done))
    (hfits : ∀ row ∈ withRunning a (b + signedSum a done) (rest.take q.limit.toNat), InInt64 row.2) :
    PageBalances a b (done.map (listed a accountID))
      (statementOf a q (b + signedSum a done) rest) := by
  have hentries := entries_statementOf a q (b + signedSum a done) rest
  constructor
  · rw [signedSum_listed]
    exact Int64.toInt_ofInt_of_le hopening.1 hopening.2
  · rw [hentries, signedSum_listed, withRunning_listed, statementOf, List.map_map]
    refine List.map_congr_left fun row hrow => Prod.ext rfl ?_
    exact Int64.toInt_ofInt_of_le (hfits row hrow).1 (hfits row hrow).2
  · rw [hentries, signedSum_append, signedSum_listed, signedSum_listed, ← Int.add_assoc]
    have hclosing := fits_closing hopening hfits
    exact Int64.toInt_ofInt_of_le hclosing.1 hclosing.2

/-- The entries that the pages of a statement list, in order. -/
def listedEntries (a : AccountRow) (q : StatementQuery) (db : DB) : List JournalEntry :=
  (periodEntries q.accountID q.periodFrom q.periodTo db).map (listed a q.accountID)

/-- A query as the repository gets it: at a position, and with a limit in range. -/
def StatementQuery.clamped (q : StatementQuery) (after : Option StatementCursor) : StatementQuery :=
  { q with after, limit := clampLimit defaultStatementLimit maxStatementLimit q.limit }

/-- The page that a query gets that goes on from `done`. -/
theorem getStatement_at (ha : db.accounts.find? q.accountID = some a)
    (hnil : db.journal.find? UUID.nil = none)
    (hrows : periodEntries q.accountID q.periodFrom q.periodTo db = done ++ rest) :
    getStatement { q with after := Paging.position cursorOf done } db = .ok s ↔
      q.accountID ≠ UUID.nil ∧ q.periodFrom ≤ q.periodTo ∧
      let opening := balanceBefore a q.accountID q.periodFrom db + signedSum a done
      InInt64 opening ∧ (∀ row ∈ withRunning a opening (rest.take (q.pageLimit + 1)), InInt64 row.2) ∧
      s = statementOf a (q.clamped (Paging.position cursorOf done)) opening rest := by
  rw [getStatement_eq_ok, Repository.getStatement_eq_ok]
  have hrest : entriesAfter q.accountID
      ((Paging.position cursorOf done).getD ⟨q.periodFrom, UUID.nil⟩) q.periodTo db = rest :=
    entriesAfter_cursorAt hnil hrows
  have hopening : openingMinor a q.accountID
      ((Paging.position cursorOf done).getD ⟨q.periodFrom, UUID.nil⟩) db = _ :=
    openingMinor_cursorAt a hnil hrows
  simp only [ha, Option.some.injEq, exists_eq_left', hrest, hopening]
  rfl

theorem getStatement_continues (ha : db.accounts.find? q.accountID = some a)
    (hnil : db.journal.find? UUID.nil = none) (hrows : listedEntries a q db = done ++ rest)
    (h : getStatement { q with after := Paging.position cursorOf done } db = .ok s) :
    Paging.Continues cursorOf q.pageLimit Statement.entries Statement.nextCursor
      (PageBalances a (balanceBefore a q.accountID q.periodFrom db)) done rest s := by
  obtain ⟨done, rest, hperiod, rfl, rfl⟩ := List.map_eq_append_iff.1 hrows
  rw [position_listed] at h
  obtain ⟨-, -, hopening, hfits, rfl⟩ := (getStatement_at ha hnil hperiod).1 h
  refine ⟨?_, ?_, statementOf_balances hopening fun row hrow => hfits row ?_⟩
  · rw [entries_statementOf, List.map_take]
    rfl
  · rw [List.length_map, List.getElem?_map, Option.map_map]
    rfl
  · rw [withRunning_take] at hrow ⊢
    exact List.take_subset_take_left _ (Nat.le_succ _) hrow

/-- The balances that a statement of an account goes through up to the end of its period. -/
def balancesUpTo (a : AccountRow) (q : StatementQuery) (db : DB) : List ℤ :=
  balanceBefore a q.accountID q.periodFrom db ::
    (withRunning a (balanceBefore a q.accountID q.periodFrom db)
      (periodEntries q.accountID q.periodFrom q.periodTo db)).map Prod.snd

theorem exists_getStatement (ha : db.accounts.find? q.accountID = some a)
    (hid : q.accountID ≠ UUID.nil) (hnil : db.journal.find? UUID.nil = none)
    (hperiod : q.periodFrom ≤ q.periodTo) (hfits : ∀ b ∈ balancesUpTo a q db, InInt64 b)
    (hrows : listedEntries a q db = done ++ rest) :
    ∃ s, getStatement { q with after := Paging.position cursorOf done } db = .ok s := by
  obtain ⟨done, rest, hdone, rfl, rfl⟩ := List.map_eq_append_iff.1 hrows
  obtain ⟨hbase, hfits⟩ := List.forall_mem_cons.1 hfits
  rw [List.forall_mem_map, hdone, withRunning_append] at hfits
  rw [position_listed]
  refine ⟨_, (getStatement_at ha hnil hdone).2 ⟨hid, hperiod, ?_, fun row hrow => ?_, rfl⟩⟩
  · exact fits_closing hbase fun row hrow => hfits row (List.mem_append_left _ hrow)
  · rw [withRunning_take] at hrow
    exact hfits row (List.mem_append_right _ (List.mem_of_mem_take hrow))

end Pages

end LedgerCore.Ledger
