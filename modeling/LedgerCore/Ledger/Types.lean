import LedgerCore.Ledger.Money

/-! The ledger's domain types. A Go string type with a `Valid` method keeps the strings it
refuses, as `other`. -/
namespace LedgerCore.Ledger

inductive Direction where
  | debit
  | credit
  | other (text : String)
  deriving DecidableEq, Repr

namespace Direction

def text : Direction → String
  | debit => "DEBIT"
  | credit => "CREDIT"
  | other s => s

def Valid (d : Direction) : Bool := d = debit || d = credit

def opposite (d : Direction) : Direction := if d = debit then credit else debit

end Direction

inductive AccountType where
  | asset
  | liability
  | equity
  | revenue
  | expense
  | other (text : String)
  deriving DecidableEq, Repr

namespace AccountType

def text : AccountType → String
  | asset => "ASSET"
  | liability => "LIABILITY"
  | equity => "EQUITY"
  | revenue => "REVENUE"
  | expense => "EXPENSE"
  | other s => s

def Valid : AccountType → Bool
  | asset | liability | equity | revenue | expense => true
  | other _ => false

/-- The side on which this account type increases. -/
def normalBalance : AccountType → Direction
  | asset | expense => .debit
  | _ => .credit

end AccountType

inductive AccountStatus where
  | active
  | frozen
  | closed
  deriving DecidableEq, Repr

namespace AccountStatus

def text : AccountStatus → String
  | active => "ACTIVE"
  | frozen => "FROZEN"
  | closed => "CLOSED"

def Postable (s : AccountStatus) : Bool := s = active

end AccountStatus

inductive TransactionStatus where
  | pending
  | posted
  | reversed
  deriving DecidableEq, Repr

def TransactionStatus.text : TransactionStatus → String
  | pending => "PENDING"
  | posted => "POSTED"
  | reversed => "REVERSED"

inductive TransactionType where
  | transfer
  | payin
  | payout
  | fee
  | fx
  | reversal
  | adjustment
  | other (text : String)
  deriving DecidableEq, Repr

namespace TransactionType

def text : TransactionType → String
  | transfer => "TRANSFER"
  | payin => "PAYIN"
  | payout => "PAYOUT"
  | fee => "FEE"
  | fx => "FX"
  | reversal => "REVERSAL"
  | adjustment => "ADJUSTMENT"
  | other s => s

def Valid : TransactionType → Bool
  | transfer | payin | payout | fee | fx | reversal | adjustment => true
  | other _ => false

end TransactionType

/-- A JSON object; each value is kept as its JSON text. -/
abbrev Metadata := List (String × String)

structure Account where
  id : UUID
  externalRef : String
  type : AccountType
  normalBalance : Direction
  currency : String
  ownerID : Option String
  allowNegative : Bool
  status : AccountStatus
  createdAt : Time
  deriving DecidableEq, Repr

structure JournalEntry where
  id : UUID
  transactionID : UUID
  accountID : UUID
  direction : Direction
  amount : Money
  entrySeq : ℕ
  createdAt : Time
  deriving DecidableEq, Repr

structure Transaction where
  id : UUID
  idempotencyKey : Option String
  principalID : String
  type : TransactionType
  status : TransactionStatus
  externalRef : Option String
  metadata : Metadata
  createdAt : Time
  postedAt : Option Time
  entries : List JournalEntry
  deriving DecidableEq, Repr

structure Balance where
  accountID : UUID
  available : Money
  pending : Money
  version : Int64
  updatedAt : Time
  deriving DecidableEq, Repr

/-- An account row under lock, with its balance row. -/
structure LockedAccount where
  id : UUID
  currency : String
  type : AccountType
  normalBalance : Direction
  status : AccountStatus
  allowNegative : Bool
  availableMinor : Int64
  pendingMinor : Int64
  version : Int64
  deriving DecidableEq, Repr

structure BalanceDelta where
  accountID : UUID
  deltaMinor : Int64
  expectedVersion : Int64
  lastEntryID : UUID
  deriving DecidableEq, Repr

structure PendingDelta where
  accountID : UUID
  deltaMinor : Int64
  deriving DecidableEq, Repr

/-- The delta an entry applies to an account with the given normal balance. -/
def signedAmount (direction normalBalance : Direction) (amountMinor : Int64) :
    Except Error Int64 :=
  if !direction.Valid then
    .error (.errorf ("direction " ++ quote direction.text) .invalidEntry)
  else if !normalBalance.Valid then
    .error (.errorf ("normal balance " ++ quote normalBalance.text) .invalidEntry)
  else if amountMinor ≤ 0 then
    .error (.errorf s!"amount {amountMinor} must be positive" .invalidEntry)
  else if direction = normalBalance then .ok amountMinor
  else .ok (-amountMinor)

/-- The account sign over the integers: towards the normal balance is positive. -/
def signed (direction normalBalance : Direction) (amount : ℤ) : ℤ :=
  if direction = normalBalance then amount else -amount

theorem AccountType.normalBalance_cases (t : AccountType) :
    t.normalBalance = .debit ∨ t.normalBalance = .credit := by
  cases t <;> simp [AccountType.normalBalance]

theorem Direction.valid_iff {d : Direction} : d.Valid ↔ d = .debit ∨ d = .credit := by
  simp [Direction.Valid]

theorem toInt_neg_of_pos {a : Int64} (h : 0 < a.toInt) : (-a).toInt = -a.toInt := by
  have ha := a.toInt_lt
  rw [Int64.toInt_neg, Int.bmod_eq_of_le (by omega) (by omega)]

theorem signedAmount_eq_ok {d n : Direction} {a s : Int64} (h : signedAmount d n a = .ok s) :
    d.Valid ∧ n.Valid ∧ 0 < a.toInt ∧ s.toInt = signed d n a.toInt := by
  unfold signedAmount at h
  split_ifs at h with hd hn ha he
  · refine ⟨by simpa using hd, by simpa using hn, ?_, ?_⟩
    · simpa [Int64.le_iff_toInt_le, toInt_zero] using ha
    · cases h; simp [signed, he]
  · have hpos : 0 < a.toInt := by simpa [Int64.le_iff_toInt_le, toInt_zero] using ha
    refine ⟨by simpa using hd, by simpa using hn, hpos, ?_⟩
    cases h
    simp [signed, he, toInt_neg_of_pos hpos]

theorem signed_opposite {d n : Direction} (hd : d.Valid) (hn : n.Valid) (a : ℤ) :
    signed d.opposite n a = -signed d n a := by
  rcases Direction.valid_iff.1 hd with rfl | rfl <;>
    rcases Direction.valid_iff.1 hn with rfl | rfl <;> simp [signed, Direction.opposite]

end LedgerCore.Ledger
