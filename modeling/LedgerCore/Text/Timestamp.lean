import Mathlib.Algebra.Group.Nat.Defs
import Mathlib.Data.Int.Notation
import Mathlib.Data.Nat.Find
import Mathlib.Data.Option.Basic
import Mathlib.Tactic.Common

/-! Timestamps as text: the Gregorian calendar, and RFC 3339 with a fraction of a second, written
in UTC without the zeros at its end and read with what Go's `time.Parse` allows. An instant is a
number of nanoseconds since the first day of year 1. -/
namespace LedgerCore.Timestamp

def isLeap (year : ℕ) : Bool := year % 4 = 0 && (year % 100 ≠ 0 || year % 400 = 0)

def daysIn (month year : ℕ) : ℕ :=
  match month with
  | 2 => if isLeap year then 29 else 28
  | 4 | 6 | 9 | 11 => 30
  | _ => 31

/-- The days of the first `n` years; year 0 comes before year 1. -/
def daysOfYears (n : ℤ) : ℤ := 365 * n + n / 4 - n / 100 + n / 400

def daysOfMonths (year : ℕ) : ℕ → ℕ
  | 0 => 0
  | n + 1 => daysOfMonths year n + daysIn (n + 1) year

structure Date where
  year : ℕ
  month : ℕ
  day : ℕ
  deriving DecidableEq, Repr

/-- How many days a date comes after the first day of year 1. -/
def Date.days (d : Date) : ℤ :=
  daysOfYears ((d.year : ℤ) - 1) + daysOfMonths d.year (d.month - 1) + ((d.day : ℤ) - 1)

def Date.Valid (d : Date) : Prop :=
  (1 ≤ d.month ∧ d.month ≤ 12) ∧ 1 ≤ d.day ∧ d.day ≤ daysIn d.month d.year

instance (d : Date) : Decidable d.Valid := inferInstanceAs (Decidable (_ ∧ _))

def yearsIn (days : ℕ) : ℕ := Nat.findGreatest (fun n => daysOfYears n ≤ days) (days / 365)

def monthsIn (year days : ℕ) : ℕ := Nat.findGreatest (fun n => daysOfMonths year n ≤ days) 11

def dateOf (days : ℕ) : Date :=
  let years := yearsIn days
  let rest := days - (daysOfYears years).toNat
  let months := monthsIn (years + 1) rest
  ⟨years + 1, months + 1, rest - daysOfMonths (years + 1) months + 1⟩

theorem daysIn_le (month year : ℕ) : daysIn month year ≤ 31 := by
  unfold daysIn
  split
  · split_ifs <;> decide
  all_goals decide

theorem daysOfYears_nonneg (n : ℕ) : 0 ≤ daysOfYears n := by
  unfold daysOfYears
  omega

theorem daysOfYears_mono {m n : ℕ} (h : m ≤ n) : daysOfYears m ≤ daysOfYears n := by
  unfold daysOfYears
  omega

theorem daysOfYears_yearsIn_le (days : ℕ) : daysOfYears (yearsIn days) ≤ days :=
  Nat.findGreatest_spec (P := fun n : ℕ => daysOfYears n ≤ days) (Nat.zero_le _)
    (Int.natCast_nonneg days)

theorem lt_daysOfYears_yearsIn (days : ℕ) : (days : ℤ) < daysOfYears (yearsIn days + 1 : ℕ) := by
  by_contra hge
  rw [Int.not_lt] at hge
  have hbound : yearsIn days + 1 ≤ days / 365 := by
    unfold daysOfYears at hge
    omega
  exact Nat.not_succ_le_self _ (Nat.le_findGreatest hbound hge)

theorem daysOfMonths_monthsIn_le (year days : ℕ) : daysOfMonths year (monthsIn year days) ≤ days :=
  Nat.findGreatest_spec (P := fun n => daysOfMonths year n ≤ days) (Nat.zero_le _)
    (Nat.zero_le days)

theorem monthsIn_le (year days : ℕ) : monthsIn year days ≤ 11 := Nat.findGreatest_le 11

theorem daysOfMonths_twelve (n : ℕ) :
    (daysOfMonths (n + 1) 12 : ℤ) = daysOfYears (n + 1 : ℕ) - daysOfYears n := by
  have hleap : isLeap (n + 1) = true ↔
      (n + 1) % 4 = 0 ∧ ((n + 1) % 100 ≠ 0 ∨ (n + 1) % 400 = 0) := by
    simp [isLeap]
  simp only [daysOfMonths, daysIn, daysOfYears]
  split_ifs with h
  · have hmod := hleap.1 h
    omega
  · have hmod := mt hleap.2 h
    omega

theorem lt_daysOfMonths_monthsIn {year days : ℕ} (h : days < daysOfMonths year 12) :
    days < daysOfMonths year (monthsIn year days + 1) := by
  by_contra hge
  rw [Nat.not_lt] at hge
  have hle := monthsIn_le year days
  rcases Nat.lt_or_ge (monthsIn year days) 11 with hlt | hlast
  · exact Nat.not_succ_le_self _ (Nat.le_findGreatest hlt hge)
  · have heleven : monthsIn year days = 11 := by omega
    rw [heleven] at hge
    exact absurd h (Nat.not_lt.2 hge)

theorem dateOf_days (days : ℕ) : (dateOf days).days = days := by
  have hyears := daysOfYears_yearsIn_le days
  have hnonneg := daysOfYears_nonneg (yearsIn days)
  have hmonths := daysOfMonths_monthsIn_le (yearsIn days + 1)
    (days - (daysOfYears (yearsIn days)).toNat)
  simp only [dateOf, Date.days, Nat.add_sub_cancel]
  have hcast : ((yearsIn days + 1 : ℕ) : ℤ) - 1 = yearsIn days := by omega
  rw [hcast]
  omega

theorem dateOf_valid (days : ℕ) : (dateOf days).Valid := by
  have hyears := daysOfYears_yearsIn_le days
  have hnonneg := daysOfYears_nonneg (yearsIn days)
  have hnext := lt_daysOfYears_yearsIn days
  have htwelve := daysOfMonths_twelve (yearsIn days)
  have hlt := @lt_daysOfMonths_monthsIn (yearsIn days + 1)
    (days - (daysOfYears (yearsIn days)).toNat) (by omega)
  have hle := monthsIn_le (yearsIn days + 1) (days - (daysOfYears (yearsIn days)).toNat)
  have hmonths := daysOfMonths_monthsIn_le (yearsIn days + 1)
    (days - (daysOfYears (yearsIn days)).toNat)
  rw [daysOfMonths] at hlt
  refine ⟨⟨Nat.succ_pos _, Nat.succ_le_succ hle⟩, Nat.succ_pos _, ?_⟩
  simp only [dateOf]
  omega

theorem dateOf_year_lt {days n : ℕ} (h : (days : ℤ) < daysOfYears n) : (dateOf days).year < n + 1 := by
  refine Nat.succ_lt_succ (Nat.lt_of_not_le fun hge => ?_)
  have hle := daysOfYears_mono hge
  have hyears := daysOfYears_yearsIn_le days
  omega

def digit (n : ℕ) : Char := Char.ofNat (48 + n % 10)

def two (n : ℕ) : List Char := [digit (n / 10), digit n]

def four (n : ℕ) : List Char := [digit (n / 1000), digit (n / 100), digit (n / 10), digit n]

/-- The digits after a point of `n / 10 ^ width`, without the zeros at their end. -/
def decimals : ℕ → ℕ → List Char
  | 0, _ => []
  | width + 1, n =>
    if n = 0 then [] else digit (n / 10 ^ width) :: decimals width (n % 10 ^ width)

def fraction (nanoseconds : ℕ) : List Char :=
  if nanoseconds = 0 then [] else '.' :: decimals 9 nanoseconds

def formatYear (year : ℕ) : List Char := if year < 10000 then four year else Nat.toDigits 10 year

def nanosecondsPerDay : ℕ := 86400000000000

/-- `RFC3339Nano`, in UTC. -/
def format (t : ℕ) : List Char :=
  let date := dateOf (t / nanosecondsPerDay)
  let seconds := t / 1000000000
  formatYear date.year ++ '-' :: two date.month ++ '-' :: two date.day ++
    'T' :: two (seconds / 3600 % 24) ++ ':' :: two (seconds / 60 % 60) ++ ':' :: two (seconds % 60) ++
    fraction (t % 1000000000) ++ ['Z']

def digitValue (c : Char) : Option ℕ := if c.isDigit then some (c.toNat - 48) else none

/-- Two digits, or one if the field is not of a fixed width. -/
def getNum (fixed : Bool) : List Char → Option (ℕ × List Char)
  | c :: d :: rest => do
    let high ← digitValue c
    match digitValue d with
    | some low => return (high * 10 + low, rest)
    | none => if fixed then none else return (high, d :: rest)
  | [c] => if fixed then none else (digitValue c).map fun n => (n, [])
  | [] => none

def getYear : List Char → Option (ℕ × List Char)
  | a :: b :: c :: d :: rest => do
    let p ← digitValue a
    let q ← digitValue b
    let r ← digitValue c
    let s ← digitValue d
    return (p * 1000 + q * 100 + r * 10 + s, rest)
  | _ => none

def skip (c : Char) : List Char → Option (List Char)
  | d :: rest => if d = c then some rest else none
  | [] => none

/-- The number that the first `width` digits after a point stand for, in units of `10 ^ -width`. -/
def readDecimals : ℕ → List Char → ℕ
  | 0, _ => 0
  | _ + 1, [] => 0
  | width + 1, c :: rest => (digitValue c).getD 0 * 10 ^ width + readDecimals width rest

/-- A fraction of a second, if there is one, in nanoseconds. -/
def getFraction (text : List Char) : ℕ × List Char :=
  match text with
  | p :: c :: rest =>
    if (p = '.' || p = ',') && c.isDigit then
      (readDecimals 9 ((c :: rest).takeWhile Char.isDigit), (c :: rest).dropWhile Char.isDigit)
    else (0, text)
  | _ => (0, text)

/-- The offset of a time zone, in seconds. -/
def getZone : List Char → Option (ℤ × List Char)
  | [] => none
  | sign :: rest =>
    if sign = 'Z' then some (0, rest)
    else do
      let (hours, rest) ← getNum true rest
      let rest ← skip ':' rest
      let (minutes, rest) ← getNum true rest
      guard (hours ≤ 24 ∧ minutes ≤ 60)
      let offset : ℤ := (hours * 60 + minutes) * 60
      if sign = '+' then return (offset, rest)
      else if sign = '-' then return (-offset, rest)
      else none

/-- `time.Parse` with the layout `RFC3339Nano`. -/
def parse (text : List Char) : Option ℤ := do
  let (year, rest) ← getYear text
  let rest ← skip '-' rest
  let (month, rest) ← getNum true rest
  let rest ← skip '-' rest
  let (day, rest) ← getNum true rest
  let rest ← skip 'T' rest
  let (hour, rest) ← getNum false rest
  let rest ← skip ':' rest
  let (minute, rest) ← getNum true rest
  let rest ← skip ':' rest
  let (second, rest) ← getNum true rest
  let (nanoseconds, rest) := getFraction rest
  let (offset, rest) ← getZone rest
  let date : Date := ⟨year, month, day⟩
  guard (rest = [] ∧ date.Valid ∧ hour < 24 ∧ minute < 60 ∧ second < 60)
  let seconds : ℤ := date.days * 86400 + hour * 3600 + minute * 60 + second - offset
  return seconds * 1000000000 + nanoseconds

theorem digitValue_digit (n : ℕ) : digitValue (digit n) = some (n % 10) := by
  have hall : ∀ i < 10, digitValue (Char.ofNat (48 + i)) = some i := by decide
  exact hall (n % 10) (Nat.mod_lt n (by decide))

theorem isDigit_digit (n : ℕ) : (digit n).isDigit = true := by
  have hall : ∀ i < 10, (Char.ofNat (48 + i)).isDigit = true := by decide
  exact hall (n % 10) (Nat.mod_lt n (by decide))

section RoundTrip
variable {n : ℕ} {rest : List Char}

theorem getNum_two (fixed : Bool) (h : n < 100) : getNum fixed (two n ++ rest) = some (n, rest) := by
  simp only [two, List.cons_append, List.nil_append, getNum, digitValue_digit]
  have hn : n / 10 % 10 * 10 + n % 10 = n := by omega
  exact congrArg (fun n => some (n, rest)) hn

theorem getYear_formatYear (h : n < 10000) : getYear (formatYear n ++ rest) = some (n, rest) := by
  rw [formatYear, if_pos h]
  simp only [four, List.cons_append, List.nil_append, getYear, digitValue_digit]
  have hn : n / 1000 % 10 * 1000 + n / 100 % 10 * 100 + n / 10 % 10 * 10 + n % 10 = n := by omega
  exact congrArg (fun n => some (n, rest)) hn

theorem skip_cons (c : Char) : skip c (c :: rest) = some rest := if_pos rfl

theorem decimals_isDigit (width n : ℕ) : ∀ c ∈ decimals width n, c.isDigit = true := by
  induction width generalizing n with
  | zero => exact fun _ hc => absurd hc List.not_mem_nil
  | succ width ih =>
    rw [decimals]
    split_ifs
    · exact fun _ hc => absurd hc List.not_mem_nil
    · exact List.forall_mem_cons.2 ⟨isDigit_digit _, ih _⟩

theorem readDecimals_decimals (width : ℕ) (h : n < 10 ^ width) :
    readDecimals width (decimals width n) = n := by
  induction width generalizing n with
  | zero =>
    rw [Nat.pow_zero] at h
    exact (Nat.lt_one_iff.1 h).symm
  | succ width ih =>
    rw [decimals]
    split_ifs with hzero
    · exact hzero.symm
    · have hhigh : n / 10 ^ width < 10 := by
        rw [Nat.div_lt_iff_lt_mul (Nat.pow_pos (by decide)), ← Nat.pow_succ']
        exact h
      rw [readDecimals, digitValue_digit, ih (Nat.mod_lt n (Nat.pow_pos (by decide))),
        Option.getD_some, Nat.mod_eq_of_lt hhigh]
      exact Nat.div_add_mod' n _

theorem getFraction_fraction {c : Char} (hc : c.isDigit = false) (hpoint : c ≠ '.')
    (hcomma : c ≠ ',') (h : n < 10 ^ 9) :
    getFraction (fraction n ++ c :: rest) = (n, c :: rest) := by
  unfold fraction
  split_ifs with hzero
  · rw [hzero, List.nil_append]
    cases rest with
    | nil => rfl
    | cons d rest => simp [getFraction, hpoint, hcomma]
  · obtain ⟨d, ds, hds⟩ : ∃ d ds, decimals 9 n = d :: ds := ⟨_, _, if_neg hzero⟩
    have hdigits := decimals_isDigit 9 n
    have hd := hdigits d (hds ▸ List.mem_cons_self)
    have hread := readDecimals_decimals 9 h
    rw [hds] at hdigits hread
    rw [List.cons_append, hds, List.cons_append, getFraction, if_pos (by rw [hd]; rfl),
      ← List.cons_append, List.takeWhile_append_of_pos hdigits, List.dropWhile_append_of_pos hdigits,
      List.takeWhile_cons_of_neg (by simp [hc]), List.dropWhile_cons_of_neg (by simp [hc]),
      List.append_nil, hread]

theorem getZone_utc : getZone ['Z'] = some (0, []) := rfl

/-- The first instant whose year has five digits, in microseconds. -/
def yearTenThousand : ℕ := 315537897600000000

theorem year_four_digits {t : ℕ} (h : t < yearTenThousand * 1000) :
    ((t / nanosecondsPerDay : ℕ) : ℤ) < daysOfYears (9999 : ℕ) := by
  have hyears : daysOfYears (9999 : ℕ) = 3652059 := by decide
  rw [hyears]
  unfold yearTenThousand at h
  unfold nanosecondsPerDay
  omega

/-- What is written is read back, while the year has four digits. -/
theorem parse_format {t : ℕ} (h : t < yearTenThousand * 1000) : parse (format t) = some (t : ℤ) := by
  have hyear := dateOf_year_lt (year_four_digits h)
  have hvalid := dateOf_valid (t / nanosecondsPerDay)
  have hdate := dateOf_days (t / nanosecondsPerDay)
  rw [format]
  generalize dateOf (t / nanosecondsPerDay) = date at *
  have hmonth : date.month < 100 := by
    have := hvalid.1.2
    omega
  have hday : date.day < 100 := by
    have := hvalid.2.2
    have := daysIn_le date.month date.year
    omega
  have hclock : t / 1000000000 / 3600 % 24 < 24 ∧ t / 1000000000 / 60 % 60 < 60 ∧
      t / 1000000000 % 60 < 60 := by omega
  have hfraction : t % 1000000000 < 10 ^ 9 := by omega
  simp only [parse, List.append_assoc, List.cons_append, Option.bind_eq_bind,
    Option.bind_some, getYear_formatYear hyear, skip_cons, getNum_two _ hmonth, getNum_two _ hday,
    getNum_two _ (Nat.lt_trans hclock.1 (by decide)),
    getNum_two _ (Nat.lt_trans hclock.2.1 (by decide)),
    getNum_two _ (Nat.lt_trans hclock.2.2 (by decide)),
    getFraction_fraction (c := 'Z') rfl (by decide) (by decide) hfraction, getZone_utc]
  simp only [guard, if_pos (And.intro trivial (And.intro hvalid hclock))]
  refine congrArg some ?_
  rw [hdate]
  unfold nanosecondsPerDay
  omega

theorem fraction_isDigit {c : Char} (hc : c ∈ fraction n) : c.isDigit = true ∨ c = '.' := by
  unfold fraction at hc
  split_ifs at hc
  · exact absurd hc List.not_mem_nil
  · rcases List.mem_cons.1 hc with rfl | hc
    · exact .inr rfl
    · exact .inl (decimals_isDigit 9 n c hc)

theorem mem_format {t : ℕ} (h : t < yearTenThousand * 1000) {c : Char} (hc : c ∈ format t) :
    c.isDigit = true ∨ c ∈ ['-', 'T', ':', '.', 'Z'] := by
  have hyear := dateOf_year_lt (year_four_digits h)
  simp only [format, formatYear, if_pos hyear, four, two, List.mem_append, List.mem_cons,
    List.not_mem_nil, or_false] at hc
  have hfraction := @fraction_isDigit (t % 1000000000) c
  have hdigit (n : ℕ) (h : c = digit n) : c.isDigit = true := h ▸ isDigit_digit n
  grind

end RoundTrip

example : String.ofList (format 63271811045250000000) = "2006-01-02T15:04:05.25Z" := by decide +kernel

end LedgerCore.Timestamp
