import Mathlib.Algebra.Order.Group.Unbundled.Int
import Mathlib.Tactic.Linarith
import LedgerCore.Base

/-! Amounts in minor units: 64-bit arithmetic that refuses to wrap. -/
namespace LedgerCore.Ledger

/-- `currencyPattern`, `^[A-Z]{3}$`. -/
def currencyPattern (currency : String) : Bool :=
  currency.toList.length = 3 && currency.toList.all fun c => 'A' ≤ c && c ≤ 'Z'

def addInt64 (a b : Int64) : Option Int64 :=
  let sum := a + b
  if (0 < a ∧ 0 < b ∧ sum < 0) ∨ (a < 0 ∧ b < 0 ∧ 0 ≤ sum) then none else some sum

def subInt64 (a b : Int64) : Option Int64 :=
  let diff := a - b
  if (b < 0 ∧ diff < a) ∨ (0 < b ∧ a < diff) then none else some diff

/-- Addition as the column type does it: an error outside of the 64-bit range. -/
def bigintAdd (a b : Int64) : Option Int64 :=
  if -2 ^ 63 ≤ a.toInt + b.toInt ∧ a.toInt + b.toInt < 2 ^ 63 then some (a + b) else none

structure Money where
  amountMinor : Int64
  currency : String
  deriving DecidableEq, Repr

def newMoney (amountMinor : Int64) (currency : String) : Except Error Money :=
  if currencyPattern currency then .ok ⟨amountMinor, currency⟩
  else .error (.errorf ("currency " ++ quote currency) .invalidCurrency)

namespace Money

def validate (m : Money) : Except Error Unit :=
  if currencyPattern m.currency then .ok ()
  else .error (.errorf ("currency " ++ quote m.currency) .invalidCurrency)

def string (m : Money) : String := toString m.amountMinor ++ " " ++ m.currency

def sameCurrency (m other : Money) : Except Error Unit :=
  if m.currency = other.currency then .ok ()
  else .error (.errorf (m.currency ++ " and " ++ other.currency) .currencyMismatch)

def add (m other : Money) : Except Error Money := do
  m.sameCurrency other
  match addInt64 m.amountMinor other.amountMinor with
  | none => .error (.errorf ("add " ++ other.string ++ " to " ++ m.string) .moneyOverflow)
  | some sum => .ok ⟨sum, m.currency⟩

def sub (m other : Money) : Except Error Money := do
  m.sameCurrency other
  match subInt64 m.amountMinor other.amountMinor with
  | none => .error (.errorf ("subtract " ++ other.string ++ " from " ++ m.string) .moneyOverflow)
  | some diff => .ok ⟨diff, m.currency⟩

def neg (m : Money) : Except Error Money :=
  if m.amountMinor = Int64.minValue then .error (.errorf ("negate " ++ m.string) .moneyOverflow)
  else .ok ⟨-m.amountMinor, m.currency⟩

end Money

theorem toInt_zero : (0 : Int64).toInt = 0 := by decide

theorem toInt_add_of_fits {a b : Int64} (h₁ : -2 ^ 63 ≤ a.toInt + b.toInt)
    (h₂ : a.toInt + b.toInt < 2 ^ 63) : (a + b).toInt = a.toInt + b.toInt := by
  rw [Int64.toInt_add, Int.bmod_eq_of_le (by omega) (by omega)]

theorem addInt64_eq_some {a b s : Int64} :
    addInt64 a b = some s ↔ s.toInt = a.toInt + b.toInt := by
  have ha := a.le_toInt
  have ha' := a.toInt_lt
  have hb := b.le_toInt
  have hb' := b.toInt_lt
  have hs := s.le_toInt
  have hs' := s.toInt_lt
  have hsum := Int64.toInt_add a b
  simp only [addInt64, Int64.lt_iff_toInt_lt, Int64.le_iff_toInt_le, toInt_zero]
  by_cases hfit : -2 ^ 63 ≤ a.toInt + b.toInt ∧ a.toInt + b.toInt < 2 ^ 63
  · have hexact := toInt_add_of_fits hfit.1 hfit.2
    rw [if_neg (by omega), Option.some_inj, ← Int64.toInt_inj, hexact, eq_comm]
  · rw [Int.bmod_def] at hsum
    have hwrap : (0 < a.toInt ∧ 0 < b.toInt ∧ (a + b).toInt < 0) ∨
        (a.toInt < 0 ∧ b.toInt < 0 ∧ 0 ≤ (a + b).toInt) := by
      split_ifs at hsum <;> omega
    rw [if_pos hwrap]
    simp only [reduceCtorEq, false_iff]
    omega

theorem subInt64_eq_some {a b d : Int64} :
    subInt64 a b = some d ↔ d.toInt = a.toInt - b.toInt := by
  have ha := a.le_toInt
  have ha' := a.toInt_lt
  have hb := b.le_toInt
  have hb' := b.toInt_lt
  have hd := d.le_toInt
  have hd' := d.toInt_lt
  have hdiff := Int64.toInt_sub a b
  simp only [subInt64, Int64.lt_iff_toInt_lt, toInt_zero]
  by_cases hfit : -2 ^ 63 ≤ a.toInt - b.toInt ∧ a.toInt - b.toInt < 2 ^ 63
  · rw [Int.bmod_eq_of_le (by omega) (by omega)] at hdiff
    rw [if_neg (by omega), Option.some_inj, ← Int64.toInt_inj, hdiff, eq_comm]
  · rw [Int.bmod_def] at hdiff
    have hwrap : (b.toInt < 0 ∧ (a - b).toInt < a.toInt) ∨
        (0 < b.toInt ∧ a.toInt < (a - b).toInt) := by
      split_ifs at hdiff <;> omega
    rw [if_pos hwrap]
    simp only [reduceCtorEq, false_iff]
    omega

theorem exists_toInt_eq {n : ℤ} : (∃ s : Int64, s.toInt = n) ↔ -2 ^ 63 ≤ n ∧ n < 2 ^ 63 := by
  constructor
  · rintro ⟨s, rfl⟩
    exact ⟨s.le_toInt, s.toInt_lt⟩
  · intro ⟨hlow, hhigh⟩
    exact ⟨Int64.ofInt n, Int64.toInt_ofInt_of_le hlow hhigh⟩

theorem bigintAdd_eq_some {a b s : Int64} :
    bigintAdd a b = some s ↔ s.toInt = a.toInt + b.toInt := by
  have hs := s.le_toInt
  have hs' := s.toInt_lt
  unfold bigintAdd
  split_ifs with hfit
  · rw [Option.some_inj, ← Int64.toInt_inj, toInt_add_of_fits hfit.1 hfit.2, eq_comm]
  · simp only [false_iff]
    omega

theorem bigintAdd_eq_addInt64 (a b : Int64) : bigintAdd a b = addInt64 a b := by
  ext s
  rw [bigintAdd_eq_some, addInt64_eq_some]

theorem newMoney_eq_ok {amount : Int64} {currency : String} {m : Money} :
    newMoney amount currency = .ok m ↔ currencyPattern currency ∧ m = ⟨amount, currency⟩ := by
  unfold newMoney
  split_ifs with h <;> simp [h, eq_comm]

theorem Money.add_eq_ok {m n s : Money} :
    m.add n = .ok s ↔ m.currency = n.currency ∧ s.currency = m.currency ∧
      s.amountMinor.toInt = m.amountMinor.toInt + n.amountMinor.toInt := by
  unfold Money.add Money.sameCurrency
  by_cases hc : m.currency = n.currency
  · simp only [hc, if_true]
    rw [← addInt64_eq_some]
    cases h : addInt64 m.amountMinor n.amountMinor with
    | none => simp [bind, Except.bind]
    | some v =>
      obtain ⟨sa, sc⟩ := s
      simp [bind, Except.bind, eq_comm, and_comm]
  · simp [hc, bind, Except.bind]

theorem Money.sub_eq_ok {m n d : Money} :
    m.sub n = .ok d ↔ m.currency = n.currency ∧ d.currency = m.currency ∧
      d.amountMinor.toInt = m.amountMinor.toInt - n.amountMinor.toInt := by
  unfold Money.sub Money.sameCurrency
  by_cases hc : m.currency = n.currency
  · simp only [hc, if_true]
    rw [← subInt64_eq_some]
    cases h : subInt64 m.amountMinor n.amountMinor with
    | none => simp [bind, Except.bind]
    | some v =>
      obtain ⟨da, dc⟩ := d
      simp [bind, Except.bind, eq_comm, and_comm]
  · simp [hc, bind, Except.bind]

theorem Money.neg_eq_ok {m n : Money} :
    m.neg = .ok n ↔ n.currency = m.currency ∧ n.amountMinor.toInt = -m.amountMinor.toInt := by
  have hm := m.amountMinor.le_toInt
  have hm' := m.amountMinor.toInt_lt
  have hn := n.amountMinor.le_toInt
  have hn' := n.amountMinor.toInt_lt
  have hneg := Int64.toInt_neg m.amountMinor
  have hmin : Int64.minValue.toInt = -2 ^ 63 := by decide
  unfold neg
  split_ifs with h
  · rw [h, hmin]
    simp only [false_iff]
    omega
  · rw [← Int64.toInt_inj, hmin] at h
    rw [Int.bmod_eq_of_le (by omega) (by omega)] at hneg
    obtain ⟨amount, currency⟩ := n
    simp only [Except.ok.injEq, Money.mk.injEq, ← Int64.toInt_inj, hneg]
    exact ⟨fun h => ⟨h.2.symm, h.1.symm⟩, fun h => ⟨h.2.symm, h.1.symm⟩⟩

/-- `addInt64` and `subInt64` succeed exactly when the result fits, with that result, so `Sub`
undoes an `Add`, `Add` undoes a `Sub`, and `Neg` undoes itself. -/
theorem arithmetic_exact :
    (∀ a b : Int64,
      ((addInt64 a b).isSome ↔ -2 ^ 63 ≤ a.toInt + b.toInt ∧ a.toInt + b.toInt < 2 ^ 63) ∧
        ∀ s, addInt64 a b = some s → s.toInt = a.toInt + b.toInt) ∧
    (∀ a b : Int64,
      ((subInt64 a b).isSome ↔ -2 ^ 63 ≤ a.toInt - b.toInt ∧ a.toInt - b.toInt < 2 ^ 63) ∧
        ∀ d, subInt64 a b = some d → d.toInt = a.toInt - b.toInt) ∧
    (∀ m n s : Money, m.add n = .ok s → s.sub n = .ok m) ∧
    (∀ m n d : Money, m.sub n = .ok d → d.add n = .ok m) ∧
    ∀ m n : Money, m.neg = .ok n → n.neg = .ok m := by
  refine ⟨fun a b => ⟨?_, fun s => addInt64_eq_some.1⟩, fun a b => ⟨?_, fun d => subInt64_eq_some.1⟩,
    fun m n s h => ?_, fun m n d h => ?_, fun m n h => ?_⟩
  · rw [Option.isSome_iff_exists, ← exists_toInt_eq]
    exact exists_congr fun s => addInt64_eq_some
  · rw [Option.isSome_iff_exists, ← exists_toInt_eq]
    exact exists_congr fun d => subInt64_eq_some
  · obtain ⟨hcurrency, hsum, hexact⟩ := Money.add_eq_ok.1 h
    rw [Money.sub_eq_ok]
    exact ⟨hsum.trans hcurrency, hsum.symm, by omega⟩
  · obtain ⟨hcurrency, hdiff, hexact⟩ := Money.sub_eq_ok.1 h
    rw [Money.add_eq_ok]
    exact ⟨hdiff.trans hcurrency, hdiff.symm, by omega⟩
  · obtain ⟨hcurrency, hexact⟩ := Money.neg_eq_ok.1 h
    rw [Money.neg_eq_ok]
    exact ⟨hcurrency.symm, by omega⟩

theorem arithmetic_exact_extremes :
    Money.sub ⟨Int64.maxValue, "INR"⟩ ⟨1, "INR"⟩ = .ok ⟨Int64.maxValue - 1, "INR"⟩ ∧
      Money.add ⟨-1, "INR"⟩ ⟨Int64.minValue + 1, "INR"⟩ = .ok ⟨Int64.minValue, "INR"⟩ ∧
      Money.neg ⟨Int64.minValue + 1, "INR"⟩ = .ok ⟨Int64.maxValue, "INR"⟩ := by
  obtain ⟨-, -, hadd, hsub, hneg⟩ := arithmetic_exact
  refine ⟨hadd _ _ _ ?_, hsub _ _ _ ?_, hneg _ _ ?_⟩ <;> rfl

end LedgerCore.Ledger
