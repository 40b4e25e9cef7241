import LedgerCore.Ledger.MoneyWire
import LedgerCore.Reconciliation.Match
import LedgerCore.Text.Timestamp

/-! Settlement files, as the rows that the CSV reader finds in them. -/
namespace LedgerCore.Reconciliation
open LedgerCore.Program
open LedgerCore.Idempotency (itoa)

def pspStatementColumns : List String :=
  ["external_ref", "amount_minor", "currency", "status", "settled_at"]

def validPSPStatuses : List String := ["SETTLED", "FAILED", "REFUNDED", "PENDING"]

/-- `unicode.ToUpper`, for the letters whose upper case is in ASCII. -/
def upper (c : Char) : Char := if c = 'ı' then 'I' else if c = 'ſ' then 'S' else c.toUpper

def column (row : List String) (index : List (String × ℕ)) (name : String) : String :=
  ((index.lookup name).bind (row[·]?)).getD ""

def parsePSPRow (row : List String) (index : List (String × ℕ)) : Except Error PSPRecord := do
  let externalRef := column row index "external_ref"
  let amountRaw := column row index "amount_minor"
  let currency := column row index "currency"
  let status := (column row index "status").map upper
  let settledAtRaw := column row index "settled_at"
  failIf (externalRef = "") (.errorf "external_ref is required" .malformedRecord)
  failIf (status ∉ validPSPStatuses)
    (.errorf ("status " ++ quote status ++ " is not recognised") .malformedRecord)
  let amountMinor ← (Ledger.parseInt amountRaw.toList).mapError fun _ =>
    .errorf ("amount_minor " ++ quote amountRaw ++ " is not an integer") .malformedRecord
  failIf (amountMinor ≤ 0) (.errorf s!"amount_minor {amountMinor} must be positive" .malformedRecord)
  let _ ← (Ledger.newMoney amountMinor currency).mapError fun _ =>
    .errorf ("currency " ++ quote currency) .malformedRecord
  match Timestamp.parse settledAtRaw.toList with
  | none => .error (.errorf ("settled_at " ++ quote settledAtRaw ++ " is not RFC3339") .malformedRecord)
  | some settledAt => .ok ⟨externalRef, amountMinor, currency, status, settledAt⟩

/-- What a record of an accepted file looks like. -/
structure PSPRecord.WellFormed (r : PSPRecord) : Prop where
  externalRef : r.externalRef ≠ ""
  status : r.status ∈ validPSPStatuses
  amountMinor : 0 < r.amountMinor
  currency : Ledger.currencyPattern r.currency = true

/-- The text of a record's field in a file: numbers in decimal, times in UTC. -/
def PSPRecord.text (r : PSPRecord) (name : String) : String :=
  if name = "external_ref" then r.externalRef
  else if name = "amount_minor" then String.ofList (itoa r.amountMinor.toInt)
  else if name = "currency" then r.currency
  else if name = "status" then r.status
  else String.ofList (Timestamp.format r.settledAt.toNat)

/-- The row has the record's fields in the columns that the parser reads, and anything in others. -/
structure PSPRecord.Written (header row : List String) (r : PSPRecord) : Prop where
  length : row.length = header.length
  fields : ∀ name ∈ pspStatementColumns, ∀ i : ℕ, header[i]? = some name →
    row[i]? = some (r.text name)

section Written
variable {header row : List String} {r : PSPRecord} {name : String}

theorem lookup_columns {i : ℕ} (h : header.zipIdx.reverse.lookup name = some i) :
    header[i]? = some name := by
  obtain ⟨l, l', hl, -⟩ := List.lookup_eq_some_iff.1 h
  have hmem : (name, i) ∈ header.zipIdx := by
    rw [← List.mem_reverse, hl]
    simp
  exact List.mem_zipIdx_iff_getElem?.1 hmem

theorem exists_lookup_columns (h : name ∈ header) :
    ∃ i, header.zipIdx.reverse.lookup name = some i := by
  obtain ⟨i, hi⟩ := List.mem_iff_getElem?.1 h
  refine Option.ne_none_iff_exists'.1 fun hnone => ?_
  have hne := List.lookup_eq_none_iff.1 hnone (name, i)
    (List.mem_reverse.2 (List.mem_zipIdx_iff_getElem?.2 hi))
  simp at hne

theorem PSPRecord.Written.column (hw : r.Written header row)
    (h : ∀ name ∈ pspStatementColumns, name ∈ header) (name : String)
    (hname : name ∈ pspStatementColumns) :
    Reconciliation.column row header.zipIdx.reverse name = r.text name := by
  obtain ⟨i, hi⟩ := exists_lookup_columns (h name hname)
  have hfield := hw.fields name hname i (lookup_columns hi)
  rw [Reconciliation.column, hi, Option.bind_some, hfield, Option.getD_some]

theorem map_upper {status : String} (h : status ∈ validPSPStatuses) : status.map upper = status := by
  have hall : validPSPStatuses.all (fun status => status.map upper = status) = true := by
    decide +kernel
  exact of_decide_eq_true (List.all_eq_true.1 hall status h)

theorem PSPRecord.Written.parsePSPRow (hw : r.Written header row)
    (h : ∀ name ∈ pspStatementColumns, name ∈ header) (hr : r.WellFormed) (hnonneg : 0 ≤ r.settledAt)
    (hyear : r.settledAt < Timestamp.yearTenThousand * 1000) :
    Reconciliation.parsePSPRow row header.zipIdx.reverse = .ok r := by
  have hamount : Ledger.parseInt (itoa r.amountMinor.toInt) = .ok r.amountMinor :=
    Ledger.parseInt_eq_ok.2 (Ledger.denotes_itoa _)
  have hsettled : Timestamp.parse (Timestamp.format r.settledAt.toNat) = some r.settledAt := by
    rw [Timestamp.parse_format (by omega), Int.toNat_of_nonneg hnonneg]
  have hmoney : Ledger.newMoney r.amountMinor r.currency = .ok ⟨r.amountMinor, r.currency⟩ :=
    Ledger.newMoney_eq_ok.2 ⟨hr.currency, rfl⟩
  unfold Reconciliation.parsePSPRow
  rw [hw.column h "external_ref" (by decide), hw.column h "amount_minor" (by decide),
    hw.column h "currency" (by decide), hw.column h "status" (by decide),
    hw.column h "settled_at" (by decide)]
  simp only [PSPRecord.text, String.reduceEq, if_true, if_false, String.toList_ofList,
    map_upper hr.status, hsettled]
  exact bind_eq_ok.2 ⟨(), failIf_eq_ok.2 hr.externalRef,
    bind_eq_ok.2 ⟨(), failIf_eq_ok.2 (not_not.2 hr.status),
    bind_eq_ok.2 ⟨_, mapError_eq_ok.2 hamount,
    bind_eq_ok.2 ⟨(), failIf_eq_ok.2 (Int64.not_le.2 hr.amountMinor),
    bind_eq_ok.2 ⟨_, mapError_eq_ok.2 hmoney, rfl⟩⟩⟩⟩⟩

end Written

end LedgerCore.Reconciliation
