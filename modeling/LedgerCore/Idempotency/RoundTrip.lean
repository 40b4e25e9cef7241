import LedgerCore.Idempotency.Canonical
import LedgerCore.Json.Scan

/-! A canonical text is read back as the value that it was written for. -/
namespace LedgerCore.Idempotency
open LedgerCore.Program LedgerCore.Json

theorem hexValue_digitChar {n : ℕ} (h : n < 16) : hexValue (Nat.digitChar n) = some n := by
  have hall : ∀ n : Fin 16, hexValue (Nat.digitChar n) = some n.val := by decide
  exact hall ⟨n, h⟩

theorem scanString_writeRune (r : Char) (cs : List Char) :
    scanString (writeRune r ++ cs) = (scanString cs).map fun (s, rest) => (r :: s, rest) := by
  unfold writeRune
  split
  case h_8 =>
    split_ifs with hcontrol
    · have hunit : codeUnit '0' '0' (Nat.digitChar (r.toNat / 16)) (Nat.digitChar (r.toNat % 16)) =
          some r.toNat := by
        have hhigh := hexValue_digitChar (n := r.toNat / 16) (by omega)
        have hlow := hexValue_digitChar (n := r.toNat % 16) (by omega)
        have hzero : hexValue '0' = some 0 := by decide
        simp only [codeUnit, hzero, hhigh, hlow, Option.bind_eq_bind, Option.bind_some,
          Option.pure_def, Option.some.injEq]
        omega
      have hchar : unitChar r.toNat = r := by
        rw [unitChar, if_pos (.inl (by omega)), Char.ofNat_toNat]
      have hscan := scanString_unit hunit (by omega) cs
      rw [hchar] at hscan
      exact hscan
    · next hquote hslash _ _ _ _ _ =>
      exact scanString_plain hquote hslash (Nat.not_lt.1 hcontrol) cs
  all_goals exact scanString_escaped (by decide) cs

theorem scanString_flatMap (s rest : List Char) :
    scanString (s.flatMap writeRune ++ '"' :: rest) = some (s, rest) := by
  induction s with
  | nil => rw [List.flatMap_nil, List.nil_append, scanString]
  | cons r s ih =>
    rw [List.flatMap_cons, List.append_assoc, scanString_writeRune, ih]
    rfl

theorem readsString_writeString (s : String) : ReadsString (writeString s) s := by
  refine ⟨s.toList.flatMap writeRune ++ ['"'], rfl, fun rest => ?_⟩
  rw [List.append_assoc, List.singleton_append, scanString_flatMap]

/-- What the parts of a number stand for, without its sign. -/
def magnitude (p : Parts) : ℚ :=
  (natOf p.whole + natOf (p.fraction.getD []) / 10 ^ (p.fraction.getD []).length) *
    10 ^ p.exponent.getD 0

theorem literal_value (p : Parts) :
    p.literal.value = (if p.negative then -1 else 1) * magnitude p := by
  obtain ⟨negative, whole, fraction, exponent⟩ := p
  cases fraction <;> cases negative <;>
    simp [Parts.literal, Literal.value, magnitude, natOf, neg_add_eq_sub, neg_mul]
  ring

def Unsigned (text : List Char) (q : ℚ) : Prop :=
  ∃ p : Parts, p.negative = false ∧ p.WellFormed ∧ p.text = text ∧ magnitude p = q

/-- No zero could be left out of a number: none ends its fraction, and its exponent is not zero.
None starts its whole part, as in every number. -/
structure Tight (p : Parts) : Prop where
  fraction : ∀ ds ∈ p.fraction, ds.getLast? ≠ some '0'
  exponent : p.exponent ≠ some 0

/-- The text is a number of these digits; it has no zero too many if they end with none. -/
def Laid (ds text : List Char) (q : ℚ) : Prop :=
  ∃ p : Parts, p.negative = false ∧ p.WellFormed ∧ p.text = text ∧ magnitude p = q ∧
    (ds.getLast? ≠ some '0' → Tight p)

section Forms
variable {ds : List Char}

theorem getLast_drop {j : ℕ} (hj : j < ds.length) : (ds.drop j).getLast? = ds.getLast? := by
  rw [List.getLast?_drop, if_neg (by omega)]

theorem magnitude_cut {j : ℕ} (hj : j ≤ ds.length) {fraction : Option (List Char)}
    (hfraction : fraction.getD [] = ds.drop j) (exponent : Option ℤ) :
    magnitude ⟨false, ds.take j, fraction, exponent⟩ =
      natOf ds * 10 ^ (j + exponent.getD 0 - ds.length) := by
  have hsplit := natOf_append (ds.take j) (ds.drop j)
  rw [List.take_append_drop, List.length_drop] at hsplit
  have hten : (10 : ℚ) ^ (ds.length - j) ≠ 0 := by positivity
  have hshift : (10 : ℚ) ^ (j + exponent.getD 0 - ds.length) =
      10 ^ exponent.getD 0 / 10 ^ (ds.length - j) := by
    rw [← zpow_natCast, ← zpow_sub₀ (by norm_num), Nat.cast_sub hj]
    congr 1
    ring
  unfold magnitude
  rw [hfraction, hshift, hsplit, List.length_drop]
  push_cast
  field_simp

theorem digits_take (hds : Digits ds) {j : ℕ} (hj : 0 < j) : Digits (ds.take j) where
  nonempty h := by
    rcases List.take_eq_nil_iff.1 h with h | h
    · omega
    · exact hds.nonempty h
  digits c hc := hds.digits c (List.mem_of_mem_take hc)

theorem digits_drop (hds : Digits ds) {j : ℕ} (hj : j < ds.length) : Digits (ds.drop j) where
  nonempty h := by
    rw [List.drop_eq_nil_iff] at h
    omega
  digits c hc := hds.digits c (List.mem_of_mem_drop hc)

theorem digits_append_zeroes (hds : Digits ds) (n : ℕ) :
    Digits (ds ++ List.replicate n '0') where
  nonempty := List.append_ne_nil_of_left_ne_nil hds.nonempty _
  digits c hc := by
    rcases List.mem_append.1 hc with hc | hc
    · exact hds.digits c hc
    · rw [List.eq_of_mem_replicate hc]
      decide

theorem digits_zeroes_append (hds : Digits ds) (n : ℕ) :
    Digits (List.replicate n '0' ++ ds) where
  nonempty := List.append_ne_nil_of_right_ne_nil _ hds.nonempty
  digits c hc := by
    rcases List.mem_append.1 hc with hc | hc
    · rw [List.eq_of_mem_replicate hc]
      decide
    · exact hds.digits c hc

theorem head_take {j : ℕ} (hj : 0 < j) : (ds.take j).head? = ds.head? := by
  cases ds with
  | nil => rw [List.take_nil]
  | cons d ds =>
    obtain ⟨j, rfl⟩ := Nat.exists_eq_succ_of_ne_zero (Nat.ne_of_gt hj)
    rfl

theorem laid_integer (hds : Digits ds) (hhead : ds.head? ≠ some '0') (n : ℕ) :
    Laid ds (ds ++ List.replicate n '0') (natOf ds * 10 ^ (n : ℤ)) := by
  refine ⟨⟨false, ds ++ List.replicate n '0', none, none⟩, rfl,
    ⟨digits_append_zeroes hds n, fun h => ?_, fun _ h => ?_⟩, ?_, ?_, fun _ => ⟨fun _ h => ?_, fun h => ?_⟩⟩
  · rw [List.head?_append_of_ne_nil _ hds.nonempty] at h
    exact absurd h hhead
  · cases h
  · simp [Parts.text, Parts.fractionText, Parts.exponentText]
  · have hnone : (none : Option (List Char)).getD [] =
        (ds ++ List.replicate n '0').drop (ds ++ List.replicate n '0').length := by
      rw [List.drop_length]
      rfl
    have hcut := magnitude_cut le_rfl hnone none
    rw [List.take_length, Option.getD_none, add_zero, sub_self, zpow_zero, mul_one, natOf_append,
      natOf_zeroes, List.length_replicate] at hcut
    rw [hcut, zpow_natCast]
    push_cast
    ring
  · cases h
  · cases h

theorem laid_point (hds : Digits ds) (hhead : ds.head? ≠ some '0') {j : ℕ} (hpos : 0 < j)
    (hj : j < ds.length) :
    Laid ds (ds.take j ++ '.' :: ds.drop j) (natOf ds * 10 ^ (j - ds.length : ℤ)) := by
  refine ⟨⟨false, ds.take j, some (ds.drop j), none⟩, rfl,
    ⟨digits_take hds hpos, fun h => ?_, fun _ h => ?_⟩, ?_, ?_, fun hlast => ⟨fun _ h => ?_, ?_⟩⟩
  · rw [head_take hpos] at h
    exact absurd h hhead
  · obtain rfl := Option.some.inj h
    exact digits_drop hds hj
  · simp [Parts.text, Parts.fractionText, Parts.exponentText]
  · rw [magnitude_cut hj.le rfl, Option.getD_none, add_zero]
  · obtain rfl := Option.some.inj h
    rwa [getLast_drop hj]
  · intro h
    cases h

theorem laid_fraction (hds : Digits ds) (n : ℕ) :
    Laid ds ('0' :: '.' :: (List.replicate n '0' ++ ds)) (natOf ds * 10 ^ (-n - ds.length : ℤ)) := by
  refine ⟨⟨false, ['0'], some (List.replicate n '0' ++ ds), none⟩, rfl,
    ⟨digits_toDigits 0, fun _ => rfl, fun _ h => ?_⟩, ?_, ?_, fun hlast => ⟨fun _ h => ?_, ?_⟩⟩
  · obtain rfl := Option.some.inj h
    exact digits_zeroes_append hds n
  · simp [Parts.text, Parts.fractionText, Parts.exponentText]
  · have hsome : (some (List.replicate n '0' ++ ds)).getD [] =
        (List.replicate (n + 1) '0' ++ ds).drop 1 := rfl
    have hcut := magnitude_cut (by rw [List.length_append, List.length_replicate]; omega) hsome none
    rw [natOf_append, natOf_zeroes, List.length_append, List.length_replicate, Nat.mul_zero,
      Nat.zero_add] at hcut
    refine hcut.trans ?_
    congr 2
    push_cast
    rw [Option.getD_none]
    ring
  · obtain rfl := Option.some.inj h
    rwa [List.getLast?_append_of_ne_nil _ hds.nonempty]
  · intro h
    cases h

theorem laid_exponent (hds : Digits ds) (hhead : ds.head? ≠ some '0') {e : ℤ} (he : e ≠ 0) :
    Laid ds (ds.take 1 ++ ((if 1 < (ds.length : ℤ) then '.' :: ds.drop 1 else []) ++
      'e' :: ((if 0 ≤ e then ['+'] else []) ++ itoa e)))
      (natOf ds * 10 ^ (1 + e - ds.length : ℤ)) := by
  have hlength : 0 < ds.length := List.length_pos_of_ne_nil hds.nonempty
  have htext : 'e' :: ((if 0 ≤ e then ['+'] else []) ++ itoa e) = Parts.exponentText (some e) := by
    unfold itoa Parts.exponentText
    by_cases hsign : 0 ≤ e
    · simp [hsign, not_lt.2 hsign]
    · simp [hsign, not_le.1 hsign]
  rw [htext]
  by_cases hone : 1 < (ds.length : ℤ)
  · refine ⟨⟨false, ds.take 1, some (ds.drop 1), some e⟩, rfl,
      ⟨digits_take hds Nat.one_pos, fun h => ?_, fun _ h => ?_⟩, ?_, ?_, fun hlast => ⟨fun _ h => ?_, ?_⟩⟩
    · rw [head_take Nat.one_pos] at h
      exact absurd h hhead
    · obtain rfl := Option.some.inj h
      exact digits_drop hds (by omega)
    · rw [if_pos hone]
      rfl
    · rw [magnitude_cut hlength rfl, Option.getD_some, Nat.cast_one]
    · obtain rfl := Option.some.inj h
      rwa [getLast_drop (by omega)]
    · exact fun h => he (Option.some.inj h)
  · refine ⟨⟨false, ds.take 1, none, some e⟩, rfl,
      ⟨digits_take hds Nat.one_pos, fun h => ?_, fun _ h => nomatch h⟩, ?_, ?_, fun _ => ⟨fun _ h => ?_, ?_⟩⟩
    · rw [head_take Nat.one_pos] at h
      exact absurd h hhead
    · rw [if_neg hone]
      rfl
    · have hdrop : (none : Option (List Char)).getD [] = ds.drop 1 :=
        (List.drop_eq_nil_of_le (by omega)).symm
      rw [magnitude_cut hlength hdrop, Option.getD_some, Nat.cast_one]
    · cases h
    · exact fun h => he (Option.some.inj h)

/-- Each of the four forms is a number of the digits, with the point where it belongs. -/
theorem laid_placePoint (hds : Digits ds) (hhead : ds.head? ≠ some '0') (x : ℤ) :
    Laid ds (placePoint ds (ds.length + x)) (natOf ds * 10 ^ x) := by
  have hlength : 0 < ds.length := List.length_pos_of_ne_nil hds.nonempty
  unfold placePoint
  dsimp only
  by_cases hinteger : (ds.length : ℤ) ≤ ds.length + x ∧ ds.length + x ≤ 21
  · rw [if_pos hinteger]
    have hx : (((ds.length : ℤ) + x - ds.length).toNat : ℤ) = x := by omega
    have h := laid_integer hds hhead ((ds.length : ℤ) + x - ds.length).toNat
    rwa [hx] at h
  rw [if_neg hinteger]
  by_cases hpoint : 0 < (ds.length : ℤ) + x ∧ ds.length + x ≤ 21
  · rw [if_pos hpoint]
    have hx : (((ds.length : ℤ) + x).toNat : ℤ) - ds.length = x := by omega
    have h := laid_point hds hhead (j := ((ds.length : ℤ) + x).toNat) (by omega) (by omega)
    rwa [hx] at h
  rw [if_neg hpoint]
  by_cases hfraction : -6 < (ds.length : ℤ) + x ∧ ds.length + x ≤ 0
  · rw [if_pos hfraction]
    have hx : -((-((ds.length : ℤ) + x)).toNat : ℤ) - ds.length = x := by omega
    have h := laid_fraction hds (-((ds.length : ℤ) + x)).toNat
    rwa [hx] at h
  · rw [if_neg hfraction]
    have hx : 1 + ((ds.length : ℤ) + x - 1) - ds.length = x := by ring
    have he : (ds.length : ℤ) + x - 1 ≠ 0 := by omega
    have h := laid_exponent hds hhead he
    rwa [hx] at h

theorem unsigned_placePoint (hds : Digits ds) (hhead : ds.head? ≠ some '0') (x : ℤ) :
    Unsigned (placePoint ds (ds.length + x)) (natOf ds * 10 ^ x) := by
  obtain ⟨p, hnegative, hp, htext, hmagnitude, -⟩ := laid_placePoint hds hhead x
  exact ⟨p, hnegative, hp, htext, hmagnitude⟩

end Forms

theorem Unsigned.signed {text : List Char} {q : ℚ} (h : Unsigned text q) (negative : Bool) :
    ∃ n : Literal, Reads ((if negative then ['-'] else []) ++ text) (.number n) ∧
      n.value = (if negative then -1 else 1) * q := by
  obtain ⟨⟨_, whole, fraction, exponent⟩, rfl, ⟨hwhole, hleading, hfraction⟩, rfl, rfl⟩ := h
  have hparts : (⟨negative, whole, fraction, exponent⟩ : Parts).WellFormed :=
    ⟨hwhole, hleading, hfraction⟩
  exact ⟨_, reads_number hparts, literal_value _⟩

theorem reads_numberText {f : ℚ} (hf : binary64 f = some f) :
    ∃ n : Literal, Reads (numberText f) (.number n) ∧ binary64 n.value = some f := by
  unfold numberText
  by_cases hzero : f = 0
  · have hparts : (⟨false, ['0'], none, none⟩ : Parts).WellFormed :=
      ⟨digits_toDigits 0, fun _ => rfl, fun _ h => nomatch h⟩
    refine ⟨_, by rw [if_pos hzero]; exact reads_number hparts, ?_⟩
    have hmagnitude : magnitude ⟨false, ['0'], none, none⟩ = 0 := by
      have hnat : natOf ['0'] = 0 := natOf_zeroes 1
      have hnil : natOf [] = 0 := rfl
      simp [magnitude, hnat, hnil]
    rw [literal_value, hmagnitude, mul_zero]
    rwa [hzero] at hf ⊢
  · rw [if_neg hzero]
    have hpos : 0 < |f| := abs_pos.2 hzero
    have hshortest := binary64_shortest (binary64_abs hf) hpos
    have hd := shortest_pos (binary64_abs hf) hpos
    generalize shortest |f| = p at hshortest hd
    obtain ⟨d, x⟩ := p
    obtain ⟨n, hreads, hvalue⟩ :=
      (unsigned_placePoint (digits_toDigits d) (head_toDigits hd) x).signed (decide (f < 0))
    refine ⟨n, by simpa using hreads, ?_⟩
    rw [hvalue, natOf_toDigits]
    by_cases hneg : f < 0
    · have h := binary64_neg hshortest
      rw [abs_of_neg hneg, neg_neg] at h
      simpa [hneg] using h
    · rw [abs_of_nonneg (not_lt.1 hneg)] at hshortest
      simpa [hneg] using hshortest

/-- The canonical text of a value is read as a document of that value. -/
theorem reads_render {v : Value} (hv : v.Normal) :
    ∃ d, Reads (render v) d ∧ d.duplicate = none ∧ d.value = some v := by
  induction hv with
  | null => exact ⟨.null, reads_null, rfl, rfl⟩
  | bool b =>
    cases b with
    | true => exact ⟨.bool true, reads_true, rfl, rfl⟩
    | false => exact ⟨.bool false, reads_false, rfl, rfl⟩
  | string s => exact ⟨.string s, reads_string (readsString_writeString s), rfl, rfl⟩
  | number double =>
    obtain ⟨n, hreads, hvalue⟩ := reads_numberText double
    exact ⟨.number n, hreads, rfl, by rw [value, hvalue]; rfl⟩
  | @array vs _ ih =>
    obtain ⟨ds, hall⟩ := exists_forall₂ ih
    refine ⟨.array ds, ?_, ?_, ?_⟩
    · rw [render, renderItems_eq]
      exact reads_array (List.forall₂_map_left_iff.2 (hall.imp fun _ _ h => h.1))
    · refine duplicateItem_eq_none.2 fun d hd => ?_
      obtain ⟨_, -, h⟩ := exists_left_of_forall₂ hall hd
      exact h.2.1
    · rw [value, values_eq_some.2 (hall.imp fun _ _ h => h.2.2).flip]
      rfl
  | @object ms keys sorted _ ih =>
    have hmember : ∀ m ∈ ms, ∃ n : String × Json,
        ReadsMember (writeMember m.1 (render m.2)) n ∧ n.2.duplicate = none ∧
          n.1 = m.1 ∧ n.2.value = some m.2 := by
      intro m hm
      obtain ⟨d, hreads, hd, hvalue⟩ := ih m hm
      exact ⟨(m.1, d), ⟨_, _, rfl, readsString_writeString m.1, hreads⟩, hd, rfl, hvalue⟩
    obtain ⟨ns, hall⟩ := exists_forall₂ hmember
    have hvalues : memberValues ns = some ms :=
      memberValues_eq_some.2 (hall.imp fun _ _ h => h.2.2).flip
    refine ⟨.object ns, ?_, ?_, ?_⟩
    · rw [render, renderMembers_eq]
      exact reads_object (List.forall₂_map_left_iff.2 (hall.imp fun _ _ h => h.1))
    · have hfst : ns.map Prod.fst = ms.map Prod.fst :=
        map_eq_of_forall₂ ((memberValues_eq_some.1 hvalues).imp fun _ _ h => h.1)
      refine duplicateMember_eq_none.2 ⟨fun _ _ h => ?_, ?_, fun n hn => ?_⟩
      · cases h
      · rw [← List.pairwise_map (R := (· ≠ ·))] at keys ⊢
        rwa [hfst]
      · obtain ⟨_, -, h⟩ := exists_left_of_forall₂ hall hn
        exact h.2.1
    · rw [value, hvalues, Option.map_some, keepLast_eq_self keys, sortMembers_eq_self sorted]

theorem render_injective {v v' : Value} (hv : v.Normal) (hv' : v'.Normal)
    (h : render v = render v') : v = v' := by
  obtain ⟨d, hreads, -, hvalue⟩ := reads_render hv
  obtain ⟨d', hreads', -, hvalue'⟩ := reads_render hv'
  rw [← h] at hreads'
  rw [hreads.unique hreads'] at hvalue
  exact Option.some.inj (hvalue.symm.trans hvalue')

theorem parseValue_eq_ok {raw rest : List Char} {d : Json} :
    parseValue raw = .ok (d, rest) ↔
      scanValue (raw.length + 1) raw = some (d, rest) ∧ d.duplicate = none := by
  unfold parseValue
  cases hscan : scanValue (raw.length + 1) raw with
  | none => simp
  | some p =>
    obtain ⟨d', rest'⟩ := p
    cases hduplicate : d'.duplicate with
    | some key =>
      simp only [hduplicate, reduceCtorEq, false_iff]
      rintro ⟨h, hnone⟩
      cases h
      cases hduplicate.symm.trans hnone
    | none =>
      simp only [hduplicate, Except.ok.injEq, Option.some.injEq]
      constructor
      · intro h
        cases h
        exact ⟨rfl, hduplicate⟩
      · exact fun h => h.1

/-- A body that is not blank has the canonical form of the value that it is a document of. -/
theorem canonicalize_eq_ok {raw out : List Char} (hraw : raw.all isSpace = false) :
    canonicalize raw = .ok out ↔ ∃ d v, document raw = some d ∧ d.duplicate = none ∧
      d.value = some v ∧ out = render v := by
  rw [canonicalize, if_neg (by simp [hraw])]
  constructor
  · intro h
    obtain ⟨⟨d, rest⟩, hparse, h⟩ := bind_eq_ok.1 h
    obtain ⟨hscan, hduplicate⟩ := parseValue_eq_ok.1 hparse
    dsimp only at h
    split_ifs at h with hrest
    obtain ⟨v, hv⟩ := exists_value_of_writeValue h
    have hwrite := writeValue_of_value hduplicate v hv
    rw [h] at hwrite
    exact ⟨d, v, document_eq_some.2 ⟨rest, hscan, hrest⟩, hduplicate, hv, Except.ok.inj hwrite⟩
  · rintro ⟨d, v, hdocument, hduplicate, hv, rfl⟩
    obtain ⟨rest, hscan, hrest⟩ := document_eq_some.1 hdocument
    rw [parseValue_eq_ok.2 ⟨hscan, hduplicate⟩]
    change (if skipSpace rest = [] then writeValue d else _) = _
    rw [if_pos hrest, writeValue_of_value hduplicate v hv]

theorem not_isSpace_of_opens {c : Char} (h : Opens c) : isSpace c = false := by
  have hrange : 0x21 ≤ c.toNat ∧ c.toNat < 0x7F := by
    rcases h with h | h
    · have hlow : 48 ≤ c.toNat := (Char.isDigit_iff_toNat.1 h).1
      have hhigh : c.toNat ≤ 57 := (Char.isDigit_iff_toNat.1 h).2
      omega
    · have hall : (['-', 'n', 't', 'f', '"', '[', '{'].all fun c =>
          0x21 ≤ c.toNat ∧ c.toNat < 0x7F) = true := by decide
      exact of_decide_eq_true (List.all_eq_true.1 hall c h)
  rw [Bool.eq_false_iff]
  intro hspace
  rcases Bool.or_eq_true_iff.1 hspace with hmem | hwide
  · have hall : (['\t', '\n', '\x0B', '\x0C', '\r', ' ', '\u0085', '\u00A0', '\u1680',
        '\u2028', '\u2029', '\u202F', '\u205F', '\u3000'].all fun c =>
        c.toNat < 0x21 ∨ 0x7F ≤ c.toNat) = true := by decide
    have hout := of_decide_eq_true (List.all_eq_true.1 hall c (of_decide_eq_true hmem))
    omega
  · have hlow : 0x2000 ≤ c.toNat := of_decide_eq_true (Bool.and_eq_true_iff.1 hwide).1
    omega

theorem canonicalize_render {v : Value} (hv : v.Normal) :
    canonicalize (render v) = .ok (render v) := by
  obtain ⟨d, hreads, hduplicate, hvalue⟩ := reads_render hv
  have hraw : (render v).all isSpace = false := by
    obtain ⟨c, cs, htext, hc⟩ := hreads.opens
    rw [htext, List.all_cons, not_isSpace_of_opens hc, Bool.false_and]
  exact (canonicalize_eq_ok hraw).2
    ⟨d, v, hreads.document, hduplicate, hvalue, rfl⟩

end LedgerCore.Idempotency
