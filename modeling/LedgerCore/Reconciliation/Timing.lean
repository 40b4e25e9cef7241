import LedgerCore.Reconciliation.Engine
import LedgerCore.Reconciliation.Statement

/-! Which differences in time are resolved on the spot. -/
namespace LedgerCore.Reconciliation

/-- The nanoseconds from the second instant to the first, which is in microseconds. -/
def elapsed (postedAt : Time) (settledAt : ℤ) : ℤ := (postedAt : ℤ) * 1000 - settledAt

theorem toInt_sub (postedAt : Time) (settledAt : ℤ) :
    (sub postedAt settledAt).toInt = max (-2 ^ 63) (min (elapsed postedAt settledAt) (2 ^ 63 - 1)) := by
  have hmin : Int64.minValue.toInt = -2 ^ 63 := by decide
  have hmax : Int64.maxValue.toInt = 2 ^ 63 - 1 := by decide
  unfold sub
  change (if elapsed postedAt settledAt < -2 ^ 63 then _ else _ : Int64).toInt = _
  split_ifs with hlow hhigh
  · rw [hmin]
    omega
  · change 2 ^ 63 ≤ elapsed postedAt settledAt at hhigh
    rw [hmax]
    omega
  · change ¬2 ^ 63 ≤ elapsed postedAt settledAt at hhigh
    change (Int64.ofInt (elapsed postedAt settledAt)).toInt = _
    rw [Int64.toInt_ofInt_of_le (by omega) (by omega)]
    omega

/-- The least duration is its own opposite: what is settled too far in the future has a negative
gap. -/
theorem toInt_gap (postedAt : Time) (settledAt : ℤ) :
    (gap postedAt settledAt).toInt =
      if elapsed postedAt settledAt ≤ -2 ^ 63 then -2 ^ 63
      else min |elapsed postedAt settledAt| (2 ^ 63 - 1) := by
  have habs : |elapsed postedAt settledAt| =
      max (elapsed postedAt settledAt) (-elapsed postedAt settledAt) := abs_eq_max_neg
  have hsub := toInt_sub postedAt settledAt
  have hneg := Int64.toInt_neg (sub postedAt settledAt)
  unfold gap
  dsimp only
  split_ifs with hsign hlow hlow
  · have hmin : (sub postedAt settledAt).toInt = -2 ^ 63 := by omega
    rw [hneg, hmin]
    decide
  · rw [Int64.lt_iff_toInt_lt, Int64.toInt_zero] at hsign
    rw [hneg, Int.bmod_eq_of_le (by omega) (by omega)]
    omega
  · rw [Int64.lt_iff_toInt_lt, Int64.toInt_zero] at hsign
    omega
  · rw [Int64.lt_iff_toInt_lt, Int64.toInt_zero] at hsign
    omega

theorem classify_timing {m : MatchedRecord} {l : LedgerSide} {p : PSPAggregate} {postedAt : Time}
    (window : Int64) (now : Time) (hl : m.ledger = some l) (hp : m.psp = some p)
    (hrows : p.rowCount ≤ 1) (hamount : l.amountMinor = p.amountMinor)
    (hcurrency : l.currency = p.currency) (hstatus : statusesAgree l.status p.status = true)
    (hposted : l.postedAt = some postedAt) (hgap : gap postedAt p.settledAt ≠ 0) :
    ∃ exc, classify m window now = some exc ∧ exc.category = .timingDifference ∧
      (exc.status = .autoResolved ↔ (gap postedAt p.settledAt).toInt ≤ window.toInt) := by
  have hclassify : classify m window now = some (if gap postedAt p.settledAt ≤ window then
      { m.finding .timingDifference (.gap (gap postedAt p.settledAt)) with
        status := .autoResolved, resolvedAt := some now }
      else m.finding .timingDifference (.gap (gap postedAt p.settledAt))) := by
    unfold classify
    simp only [hp, hl, if_neg (Nat.not_lt.2 hrows), hamount, hcurrency, ne_eq, not_true_eq_false,
      or_self, if_false, hstatus, Bool.not_true, Bool.false_eq_true, hposted, hgap]
  refine ⟨_, hclassify, ?_, ?_⟩
  · split_ifs <;> rfl
  · rw [← Int64.le_iff_toInt_le]
    split_ifs with h
    · simp [h]
    · simp [h, MatchedRecord.finding]

/-- A payment and the one row of the statement that settles it, which agree but for the time: the
exception is resolved exactly if the instants lie within the window, if and only if the settlement is
not 2⁶³ nanoseconds or more after the posting, and the window does not part the difference from the
one to the microsecond. The largest window takes in every difference that does not fit. -/
theorem autoResolved_iff_within {m : MatchedRecord} {l : LedgerSide} {r : PSPRecord}
    {postedAt : Time} {window : Int64} (now : Time) (hl : m.ledger = some l)
    (hp : m.psp = aggregate (pspInput [r])) (hamount : l.amountMinor = r.amountMinor)
    (hcurrency : l.currency = r.currency) (hstatus : statusesAgree l.status r.status = true)
    (hposted : l.postedAt = some postedAt) (hdiffer : (postedAt : ℤ) ≠ r.settledAt / 1000)
    (hwindow : 0 < window) :
    ∃ exc, classify m window now = some exc ∧ exc.category = .timingDifference ∧
      ((exc.status = .autoResolved ↔ |elapsed postedAt r.settledAt| ≤ window.toInt) ↔
        -2 ^ 63 < elapsed postedAt (timestamptz r.settledAt) ∧
          ((window.toInt = 2 ^ 63 - 1 ∨
              |elapsed postedAt (timestamptz r.settledAt)| ≤ window.toInt) ↔
            |elapsed postedAt r.settledAt| ≤ window.toInt)) := by
  have hgap := toInt_gap postedAt (timestamptz r.settledAt)
  have habs (t : ℤ) : |t| = max t (-t) := abs_eq_max_neg
  have hbound := window.toInt_lt
  -- The row is settled less than a microsecond after the instant that the database keeps.
  have hcut : elapsed postedAt r.settledAt ≤ elapsed postedAt (timestamptz r.settledAt) ∧
      elapsed postedAt (timestamptz r.settledAt) < elapsed postedAt r.settledAt + 1000 := by
    unfold elapsed timestamptz
    omega
  have hne : elapsed postedAt (timestamptz r.settledAt) ≠ 0 := by
    unfold elapsed timestamptz
    omega
  have hzero : gap postedAt (timestamptz r.settledAt) ≠ 0 := by
    intro h
    rw [h, Int64.toInt_zero, habs] at hgap
    split_ifs at hgap <;> omega
  rw [Int64.lt_iff_toInt_lt, Int64.toInt_zero] at hwindow
  obtain ⟨exc, hexc, hcategory, hresolved⟩ := classify_timing window now hl
    (hp.trans (aggregate_singleton r)) (Nat.le_refl 1) hamount hcurrency hstatus hposted hzero
  refine ⟨exc, hexc, hcategory, ?_⟩
  rw [hresolved, hgap, habs, habs]
  split_ifs <;> omega

/-- A payment that is posted on a day of 2024, and when it is settled. -/
def sampleTimed (settledAt : ℤ) : MatchedRecord where
  externalRef := "abc"
  ledger := some ⟨3, 500, "INR", "POSTED", some 63849600000000000, 63849600000000000⟩
  saga := none
  psp := aggregate (pspInput [⟨"abc", 500, "INR", "SETTLED", settledAt⟩])

theorem autoResolved_within_an_hour :
    ∃ exc, classify (sampleTimed 63849603600000000500) defaultTimingWindow 0 = some exc ∧
      exc.status = .autoResolved := by
  obtain ⟨exc, hexc, -, hiff⟩ := autoResolved_iff_within (m := sampleTimed 63849603600000000500) 0 rfl
    rfl rfl rfl (by decide) rfl (by decide) (by decide : 0 < defaultTimingWindow)
  exact ⟨exc, hexc, (hiff.2 (by decide)).2 (by decide)⟩

/-- Half a microsecond more than two hours is within two hours, and so is the time from a day in 2024
to the last second of the year 9999. -/
theorem autoResolved_beyond_window :
    ["2024-04-25T02:00:00.0000005Z", "9999-12-31T23:59:59Z"].all (fun settledAt =>
      (parsePSPRow ["abc", "500", "INR", "SETTLED", settledAt]
          (pspStatementColumns.zipIdx)).toOption.any fun r =>
        (classify (sampleTimed r.settledAt) defaultTimingWindow 0).any
          (fun exc => exc.status = .autoResolved) &&
        (defaultTimingWindow.toInt < |elapsed 63849600000000000 r.settledAt|)) = true := by
  decide +kernel

end LedgerCore.Reconciliation
