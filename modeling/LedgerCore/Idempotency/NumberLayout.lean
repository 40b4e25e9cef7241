import LedgerCore.Idempotency.RoundTrip

/-! How the digits of a number are laid out: what ECMAScript prescribes, and what the text stands
for. -/
namespace LedgerCore.Idempotency
open LedgerCore.Json

/-- The digits that `strconv.FormatFloat` hands over. -/
@[ext] structure Significand where
  digits : List Char
  decimal : Digits digits
  leading : digits.head? ≠ some '0'
  trailing : digits.getLast? ≠ some '0'

/-- What `writeNumber` writes of a sign, some digits and the place of the decimal point. -/
def layout (negative : Bool) (digits : List Char) (n : ℤ) : List Char :=
  (if negative then ['-'] else []) ++ placePoint digits n

theorem numberText_eq_layout {f : ℚ} (hf : f ≠ 0) : numberText f =
    layout (decide (f < 0)) (Nat.toDigits 10 (shortest |f|).1)
      ((Nat.toDigits 10 (shortest |f|).1).length + (shortest |f|).2) := by
  rw [numberText, if_neg hf, layout]
  simp only [decide_eq_true_eq]

/-- `Number::toString` for the radix 10, as ECMAScript states it: `digits` are those of `s`, there
are `k` of them, and the number is `s × 10 ^ (n - k)`. -/
def numberToString (digits : List Char) (n : ℤ) : List Char :=
  let k : ℤ := digits.length
  if -5 ≤ n ∧ n ≤ 21 then
    if k ≤ n then digits ++ List.replicate (n - k).toNat '0'
    else if 0 < n then digits.take n.toNat ++ ['.'] ++ digits.drop n.toNat
    else ['0', '.'] ++ List.replicate (-n).toNat '0' ++ digits
  else
    let exponentSign := if n < 0 then '-' else '+'
    let exponent := Nat.toDigits 10 (n - 1).natAbs
    if k = 1 then digits ++ ['e', exponentSign] ++ exponent
    else digits.take 1 ++ ['.'] ++ digits.drop 1 ++ ['e', exponentSign] ++ exponent

theorem itoa_signed {n : ℤ} (h : ¬(-5 ≤ n ∧ n ≤ 21)) :
    (if 0 ≤ n - 1 then ['+'] else []) ++ itoa (n - 1) =
      (if n < 0 then '-' else '+') :: Nat.toDigits 10 (n - 1).natAbs := by
  unfold itoa
  by_cases hsign : n < 0
  · rw [if_neg (by omega), if_pos (by omega), if_pos hsign]
    rfl
  · rw [if_pos (by omega), if_neg (by omega), if_neg hsign]
    rfl

theorem placePoint_eq_numberToString {digits : List Char} (hne : digits ≠ []) (n : ℤ) :
    placePoint digits n = numberToString digits n := by
  have hlength : 0 < digits.length := List.length_pos_of_ne_nil hne
  unfold placePoint numberToString
  dsimp only
  by_cases hrange : -5 ≤ n ∧ n ≤ 21
  · rw [if_pos hrange]
    by_cases hinteger : (digits.length : ℤ) ≤ n
    · rw [if_pos ⟨hinteger, hrange.2⟩, if_pos hinteger]
    rw [if_neg (fun h => hinteger h.1), if_neg hinteger]
    by_cases hpoint : 0 < n
    · rw [if_pos ⟨hpoint, hrange.2⟩, if_pos hpoint]
      simp
    · rw [if_neg (fun h => hpoint h.1), if_neg hpoint, if_pos (by omega)]
      simp
  · rw [if_neg hrange, if_neg (by omega), if_neg (by omega), if_neg (by omega), itoa_signed hrange]
    by_cases hone : (digits.length : ℤ) = 1
    · rw [if_pos hone, if_neg (by omega), List.take_of_length_le (by omega)]
      simp
    · rw [if_neg hone, if_pos (by omega)]
      simp

theorem eq_of_mul_zpow {a b : ℕ} {x y : ℤ} (ha : ¬10 ∣ a) (hb : ¬10 ∣ b)
    (h : (a : ℚ) * 10 ^ x = b * 10 ^ y) : a = b ∧ x = y := by
  wlog hle : x ≤ y generalizing a b x y
  · obtain ⟨hab, hxy⟩ := this hb ha h.symm (by omega)
    exact ⟨hab.symm, hxy.symm⟩
  obtain ⟨k, rfl⟩ := Int.le.dest hle
  have hten : (10 : ℚ) ^ x ≠ 0 := zpow_ne_zero x (by norm_num)
  rw [zpow_add₀ (by norm_num), zpow_natCast, mul_comm ((10 : ℚ) ^ x), ← mul_assoc] at h
  have heq : a = b * 10 ^ k := by
    exact_mod_cast mul_right_cancel₀ hten h
  cases k with
  | zero => exact ⟨by simpa using heq, by simp⟩
  | succ k =>
    refine absurd ?_ ha
    rw [heq, Nat.pow_succ, ← Nat.mul_assoc]
    exact Nat.dvd_mul_left 10 _

/-- The layout is a number with no zero too many, and stands for the digits after the point, moved
`n` places. -/
theorem layout_reads (negative : Bool) (s : Significand) (n : ℤ) :
    ∃ p : Parts, p.negative = negative ∧ p.WellFormed ∧ Tight p ∧
      p.text = layout negative s.digits n ∧
      p.literal.value = (if negative then -1 else 1) * (natOf s.digits * 10 ^ (n - s.digits.length)) := by
  obtain ⟨⟨_, whole, fraction, exponent⟩, rfl, ⟨hwhole, hleading, hfraction⟩, htext, hmagnitude, htight⟩ :=
    laid_placePoint s.decimal s.leading (n - s.digits.length)
  rw [add_sub_cancel] at htext
  obtain ⟨htail, hexponent⟩ := htight s.trailing
  refine ⟨⟨negative, whole, fraction, exponent⟩, rfl, ⟨hwhole, hleading, hfraction⟩,
    ⟨htail, hexponent⟩, ?_, ?_⟩
  · rw [layout, ← htext]
    rfl
  · rw [literal_value]
    exact congrArg _ hmagnitude

/-- The layout follows ECMAScript, is a JSON number with no zero too many that stands for
`± 0.d₁…dₖ × 10 ^ n`, and is another one for another sign, other digits or another `n`. -/
theorem layout_exact_injective :
    (∀ (negative : Bool) (s : Significand) (n : ℤ),
      layout negative s.digits n =
        (if negative then ['-'] else []) ++ numberToString s.digits n ∧
      ∃ p : Parts, p.negative = negative ∧ p.WellFormed ∧ Tight p ∧
        p.text = layout negative s.digits n ∧
        Reads (layout negative s.digits n) (.number p.literal) ∧
        p.literal.value = (if negative then -1 else 1) *
          ((natOf s.digits : ℚ) / 10 ^ s.digits.length * 10 ^ n)) ∧
    Function.Injective fun x : Bool × Significand × ℤ => layout x.1 x.2.1.digits x.2.2 := by
  constructor
  · intro negative s n
    obtain ⟨p, hnegative, hp, htight, htext, hvalue⟩ := layout_reads negative s n
    refine ⟨?_, p, hnegative, hp, htight, htext, ?_, ?_⟩
    · rw [layout, placePoint_eq_numberToString s.decimal.nonempty]
    · rw [← htext]
      exact reads_number hp
    · rw [hvalue, zpow_sub₀ (by norm_num), zpow_natCast]
      ring
  · intro ⟨negative, s, n⟩ ⟨negative', s', n'⟩ heq
    dsimp only at heq
    obtain ⟨p, hnegative, hp, -, htext, hvalue⟩ := layout_reads negative s n
    obtain ⟨p', hnegative', hp', -, htext', hvalue'⟩ := layout_reads negative' s' n'
    -- The scanner reads one number in the text, so the two have one sign and one value.
    have hreads := reads_number hp
    rw [htext, heq, ← htext'] at hreads
    have hliteral : p.literal = p'.literal := Json.number.inj (hreads.unique (reads_number hp'))
    have hsign : negative = negative' := by
      rw [← hnegative, ← hnegative']
      exact congrArg Literal.negative hliteral
    subst hsign
    rw [hliteral, hvalue'] at hvalue
    have hfactor : (if negative then (-1 : ℚ) else 1) ≠ 0 := by
      split_ifs <;> norm_num
    obtain ⟨hdigits, hexponent⟩ := eq_of_mul_zpow (not_dvd_natOf s'.decimal s'.trailing)
      (not_dvd_natOf s.decimal s.trailing) (mul_left_cancel₀ hfactor hvalue)
    have hs : s = s' := by
      ext1
      rw [← (toDigits_natOf s.decimal s.leading).1, ← (toDigits_natOf s'.decimal s'.leading).1, hdigits]
    subst hs
    have hn : n = n' := by omega
    rw [hn]

def sampleDigits : Significand := ⟨['1', '2', '5'], ⟨by decide, by simp⟩, by decide, by decide⟩

theorem layout_exact_injective_1250 :
    layout true sampleDigits.digits 4 = ['-', '1', '2', '5', '0'] ∧
      layout true sampleDigits.digits 4 = ['-'] ++ numberToString sampleDigits.digits 4 ∧
      layout true sampleDigits.digits 4 ≠ layout false sampleDigits.digits 4 := by
  refine ⟨by decide, (layout_exact_injective.1 true sampleDigits 4).1, fun h => ?_⟩
  have heq : (true, sampleDigits, (4 : ℤ)) = (false, sampleDigits, 4) := layout_exact_injective.2 h
  cases congrArg Prod.fst heq

end LedgerCore.Idempotency
