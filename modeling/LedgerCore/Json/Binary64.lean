import Mathlib.Algebra.Order.Field.Power
import Mathlib.Algebra.Order.Round
import Mathlib.Data.Int.Log
import Mathlib.Data.Rat.Floor
import Mathlib.Tactic.Linarith
import Mathlib.Tactic.NormNum
import Mathlib.Tactic.Positivity

/-! Binary64 numbers as the rationals they are: the nearest one to a rational, and the shortest
decimal that reads back. The two zeroes are one number, and an overflow is none. -/
namespace LedgerCore.Json
variable {x r f : ℚ}

/-- A half-way case is twice the integer next to its half, the even one of its neighbours. -/
def roundEven (x : ℚ) : ℤ := if Int.fract x = 1 / 2 then 2 * round (x / 2) else round x

/-- The spacing of the doubles around a number; below the normal range it stays the same. -/
def ulp (x : ℚ) : ℚ := 2 ^ (max (Int.log 2 |x|) (-1022) - 52)

/-- The nearest double, the sign kept apart. -/
def binary64 (x : ℚ) : Option ℚ :=
  let r := roundEven (|x| / ulp x) * ulp x
  if r < 2 ^ 1024 then some (if x < 0 then -r else r) else none

theorem abs_sub_roundEven (x : ℚ) : |x - roundEven x| ≤ 1 / 2 := by
  by_cases htie : Int.fract x = 1 / 2
  · rw [roundEven, if_pos htie]
    -- The distance is a whole number and a half, and at most one.
    have hx : x = ⌊x⌋ + 1 / 2 := by rw [← htie, Int.floor_add_fract]
    have hround := abs_le.1 (abs_sub_round (x / 2))
    have hlo : (-2 : ℚ) < (⌊x⌋ - 2 * round (x / 2) : ℤ) := by push_cast; linarith
    have hhi : ((⌊x⌋ - 2 * round (x / 2) : ℤ) : ℚ) < 1 := by push_cast; linarith
    have hcases : ⌊x⌋ - 2 * round (x / 2) = -1 ∨ ⌊x⌋ - 2 * round (x / 2) = 0 := by
      have := Int.cast_lt.1 (by exact_mod_cast hlo : ((-2 : ℤ) : ℚ) < _)
      have := Int.cast_lt.1 (by exact_mod_cast hhi : _ < ((1 : ℤ) : ℚ))
      omega
    have hdist : x - (2 * round (x / 2) : ℤ) = (⌊x⌋ - 2 * round (x / 2) : ℤ) + 1 / 2 := by
      push_cast
      linarith
    rw [hdist]
    rcases hcases with h | h <;> rw [h] <;> norm_num [abs_le]
  · rw [roundEven, if_neg htie]
    exact abs_sub_round x

theorem ulp_pos (x : ℚ) : 0 < ulp x := by
  unfold ulp
  positivity

theorem ulp_neg (x : ℚ) : ulp (-x) = ulp x := by rw [ulp, abs_neg, ulp]

theorem binary64_eq_some : binary64 x = some r ↔
    roundEven (|x| / ulp x) * ulp x < 2 ^ 1024 ∧
      r = if x < 0 then -(roundEven (|x| / ulp x) * ulp x) else roundEven (|x| / ulp x) * ulp x := by
  unfold binary64
  dsimp only
  split_ifs <;> simp [eq_comm, *]

theorem binary64_neg (h : binary64 x = some r) : binary64 (-x) = some (-r) := by
  rw [binary64_eq_some] at h ⊢
  rw [abs_neg, ulp_neg]
  refine ⟨h.1, h.2 ▸ ?_⟩
  rcases lt_trichotomy x 0 with hx | rfl | hx
  · rw [if_pos hx, if_neg (by linarith), neg_neg]
  · simp [roundEven]
  · rw [if_neg hx.le.not_gt, if_pos (by linarith)]

theorem roundEven_intCast (m : ℤ) : roundEven m = m := by
  rw [roundEven, Int.fract_intCast, if_neg (by norm_num), round_intCast]

/-- The significand that rounding leaves has 53 bits, or is the next power of two. -/
theorem roundEven_significand (x : ℚ) :
    0 ≤ roundEven (|x| / ulp x) ∧ roundEven (|x| / ulp x) ≤ 2 ^ 53 := by
  have hpos := ulp_pos x
  have herr := abs_le.1 (abs_sub_roundEven (|x| / ulp x))
  have hlo : 0 ≤ |x| / ulp x := by positivity
  have hhi : |x| / ulp x < 2 ^ 53 := by
    rw [div_lt_iff₀ hpos, ulp, ← zpow_natCast, ← zpow_add₀ (by norm_num)]
    calc |x| < 2 ^ (Int.log 2 |x| + 1) := by
          exact_mod_cast Int.lt_zpow_succ_log_self (b := 2) (by norm_num) |x|
      _ ≤ _ := zpow_le_zpow_right₀ (by norm_num) (by push_cast; omega)
  constructor
  · have : ((-1 : ℤ) : ℚ) < roundEven (|x| / ulp x) := by push_cast; linarith
    have := Int.cast_lt.1 this
    omega
  · have : (roundEven (|x| / ulp x) : ℚ) < ((2 ^ 53 + 1 : ℤ) : ℚ) := by push_cast; linarith
    have := Int.cast_lt.1 this
    omega

theorem abs_of_binary64 (h : binary64 x = some r) : |r| = roundEven (|x| / ulp x) * ulp x := by
  have hnonneg : 0 ≤ (roundEven (|x| / ulp x) : ℚ) * ulp x :=
    mul_nonneg (by exact_mod_cast (roundEven_significand x).1) (ulp_pos x).le
  rw [(binary64_eq_some.1 h).2]
  split_ifs
  · rw [abs_neg, abs_of_nonneg hnonneg]
  · rw [abs_of_nonneg hnonneg]

theorem two_pow_mul (n : ℕ) (e : ℤ) : (2 : ℚ) ^ n * 2 ^ e = 2 ^ (n + e) := by
  rw [zpow_add₀ (by norm_num), zpow_natCast]

theorem exists_int_mul_ulp (h : binary64 x = some r) : ∃ m : ℤ, |r| = m * ulp r := by
  obtain ⟨hlo, hhi⟩ := roundEven_significand x
  have habs := abs_of_binary64 h
  generalize roundEven (|x| / ulp x) = k at hlo hhi habs
  set e := max (Int.log 2 |x|) (-1022) with he
  have hulp : ulp x = 2 ^ (e - 52) := rfl
  rcases eq_or_lt_of_le hhi with rfl | hlt
  · -- The significand is a power of two, and so is the number.
    have hr : |r| = 2 ^ (e + 1) := by
      rw [habs, hulp, Int.cast_pow, Int.cast_ofNat, two_pow_mul]
      congr 1
      omega
    have hlog : Int.log 2 |r| = e + 1 := by
      rw [hr]
      exact Int.log_zpow (R := ℚ) (b := 2) (by norm_num) (e + 1)
    refine ⟨2 ^ 52, ?_⟩
    rw [ulp, hlog, hr, max_eq_left (by omega), Int.cast_pow, Int.cast_ofNat, two_pow_mul]
    congr 1
    omega
  · rcases eq_or_ne r 0 with rfl | hr
    · exact ⟨0, by simp⟩
    · -- The number has no more bits than the spacing left it.
      have hsmall : |r| < 2 ^ (e + 1) := by
        have hk : (k : ℚ) < 2 ^ 53 := by exact_mod_cast hlt
        calc |r| = k * 2 ^ (e - 52) := by rw [habs, hulp]
          _ < 2 ^ 53 * 2 ^ (e - 52) := mul_lt_mul_of_pos_right hk (by positivity)
          _ = 2 ^ (e + 1) := by
            rw [two_pow_mul]
            congr 1
            omega
      have hlog : Int.log 2 |r| < e + 1 :=
        (Int.lt_zpow_iff_log_lt (b := 2) (by norm_num) (abs_pos.2 hr)).1 (by exact_mod_cast hsmall)
      have hle : max (Int.log 2 |r|) (-1022) ≤ e := by omega
      refine ⟨k * 2 ^ (e - max (Int.log 2 |r|) (-1022)).toNat, ?_⟩
      rw [Int.cast_mul, Int.cast_pow, Int.cast_ofNat, mul_assoc, ulp, two_pow_mul]
      refine habs.trans ?_
      rw [hulp]
      congr 2
      omega

theorem binary64_binary64 (h : binary64 x = some r) : binary64 r = some r := by
  obtain ⟨m, hm⟩ := exists_int_mul_ulp h
  have hfinite := (binary64_eq_some.1 h).1
  rw [← abs_of_binary64 h] at hfinite
  have hround : roundEven (|r| / ulp r) * ulp r = |r| := by
    rw [hm, mul_div_cancel_right₀ _ (ulp_pos r).ne', roundEven_intCast]
  rw [binary64_eq_some, hround]
  refine ⟨hfinite, ?_⟩
  split_ifs with hneg
  · rw [abs_of_neg hneg, neg_neg]
  · rw [abs_of_nonneg (not_lt.1 hneg)]

/-- The decimal `d × 10 ^ x` at one place whose double is `f`, if there is one; of two, the nearer
one. -/
def decimalAt (f : ℚ) (x : ℤ) : Option (ℕ × ℤ) :=
  let d := ⌊f / 10 ^ x⌋.toNat
  let down := binary64 (d * 10 ^ x) = some f
  let up := binary64 ((d + 1 : ℕ) * 10 ^ x) = some f
  let rest := f / 10 ^ x - d
  if down ∧ (¬up ∨ rest < 1 / 2 ∨ rest = 1 / 2 ∧ d % 2 = 0) then some (d, x)
  else if up then some (d + 1, x)
  else none

/-- The decimal of the fewest digits whose double is the positive `f`. -/
def shortest (f : ℚ) : ℕ × ℤ :=
  ((List.range 2100).findSome? fun i : ℕ => decimalAt f (Int.log 10 f + 1 - i)).getD (0, 0)

theorem binary64_decimalAt {x : ℤ} {p : ℕ × ℤ} (h : decimalAt f x = some p) :
    binary64 (p.1 * 10 ^ p.2) = some f := by
  unfold decimalAt at h
  dsimp only at h
  split_ifs at h with hdown hup
  · cases h
    exact hdown.1
  · cases h
    exact hup

theorem decimalAt_isSome {x : ℤ} {d : ℕ} (hf : binary64 f = some f) (hd : f = d * 10 ^ x) :
    (decimalAt f x).isSome := by
  have hfloor : ⌊f / 10 ^ x⌋.toNat = d := by
    rw [hd, mul_div_cancel_right₀ _ (by positivity), Int.floor_natCast, Int.toNat_natCast]
  have hdown : binary64 (d * 10 ^ x) = some f := by rw [← hd, hf]
  unfold decimalAt
  dsimp only
  rw [hfloor]
  split_ifs <;> tauto

theorem exists_nat_places (hf : binary64 f = some f) (hpos : 0 < f) {p : ℕ} (hp : 1074 ≤ p) :
    ∃ d : ℕ, f = d * 10 ^ (-p : ℤ) := by
  obtain ⟨m, hm⟩ := exists_int_mul_ulp hf
  rw [abs_of_pos hpos] at hm
  have hm0 : 0 ≤ m := by
    by_contra hneg
    have : (m : ℚ) * ulp f ≤ 0 :=
      mul_nonpos_of_nonpos_of_nonneg (by exact_mod_cast (not_le.1 hneg).le) (ulp_pos f).le
    linarith
  set e := max (Int.log 2 |f|) (-1022) with he
  have hulp : ulp f = 2 ^ (e - 52 + p).toNat * 2 ^ (-p : ℤ) := by
    rw [two_pow_mul, ulp]
    congr 1
    omega
  have hten : (10 : ℚ) ^ (-p : ℤ) = 2 ^ (-p : ℤ) * 5 ^ (-p : ℤ) := by
    rw [← mul_zpow]
    norm_num
  have hfive : (5 : ℚ) ^ p * 5 ^ (-p : ℤ) = 1 := by
    rw [zpow_neg, zpow_natCast]
    exact mul_inv_cancel₀ (by positivity)
  have hcast : ((m.toNat : ℕ) : ℚ) = m := by exact_mod_cast Int.toNat_of_nonneg hm0
  refine ⟨m.toNat * 2 ^ (e - 52 + p).toNat * 5 ^ p, ?_⟩
  calc f = m * 2 ^ (e - 52 + p).toNat * 2 ^ (-p : ℤ) * (5 ^ p * 5 ^ (-p : ℤ)) := by
        rw [hfive, mul_one, mul_assoc, ← hulp, ← hm]
    _ = _ := by
        push_cast
        rw [hcast, hten]
        ring

theorem findSome?_range_isSome {α : Type} {g : ℕ → Option α} {n i : ℕ} (hi : i < n)
    (h : (g i).isSome) : ((List.range n).findSome? g).isSome :=
  List.findSome?_isSome_iff.2 ⟨i, List.mem_range.2 hi, h⟩

theorem binary64_shortest (hf : binary64 f = some f) (hpos : 0 < f) :
    binary64 ((shortest f).1 * 10 ^ (shortest f).2) = some f := by
  obtain ⟨d, hd⟩ := exists_nat_places hf hpos le_rfl
  have hlo : -1074 ≤ Int.log 10 f := by
    rw [← Int.zpow_le_iff_le_log (by norm_num) hpos]
    have hd1 : (1 : ℚ) ≤ d := by
      have : d ≠ 0 := by
        rintro rfl
        rw [hd] at hpos
        simp at hpos
      exact_mod_cast Nat.one_le_iff_ne_zero.2 this
    calc ((10 : ℕ) : ℚ) ^ (-1074 : ℤ) = 1 * 10 ^ (-1074 : ℤ) := by rw [one_mul]; rfl
      _ ≤ f := hd ▸ mul_le_mul_of_nonneg_right hd1 (by positivity)
  have hhi : Int.log 10 f < 1024 := by
    have hfinite := (binary64_eq_some.1 hf).1
    rw [← abs_of_binary64 hf, abs_of_pos hpos] at hfinite
    rw [← Int.lt_zpow_iff_log_lt (by norm_num) hpos, zpow_ofNat]
    exact hfinite.trans_le (pow_le_pow_left₀ (by norm_num) (by norm_num) _)
  have hi : (Int.log 10 f + 1 + 1074).toNat < 2100 := by omega
  have hx : Int.log 10 f + 1 - (Int.log 10 f + 1 + 1074).toNat = -1074 := by omega
  have hfound : (decimalAt f (Int.log 10 f + 1 - (Int.log 10 f + 1 + 1074).toNat)).isSome := by
    rw [hx]
    exact decimalAt_isSome hf hd
  obtain ⟨p, hp⟩ := Option.isSome_iff_exists.1 (findSome?_range_isSome
    (g := fun i : ℕ => decimalAt f (Int.log 10 f + 1 - i)) hi hfound)
  obtain ⟨i, -, hi⟩ := List.exists_of_findSome?_eq_some hp
  rw [shortest, hp]
  exact binary64_decimalAt hi

theorem shortest_pos (hf : binary64 f = some f) (hpos : 0 < f) : 0 < (shortest f).1 := by
  have hshortest := binary64_shortest hf hpos
  rw [Nat.pos_iff_ne_zero]
  intro hzero
  rw [hzero, Nat.cast_zero, zero_mul] at hshortest
  have hneg := binary64_neg hshortest
  rw [neg_zero, hshortest] at hneg
  linarith [Option.some.inj hneg]

theorem binary64_abs (hf : binary64 f = some f) : binary64 |f| = some |f| := by
  rcases abs_choice f with h | h
  · rw [h, hf]
  · rw [h]
    exact binary64_neg hf

end LedgerCore.Json
