import Mathlib.Data.List.Induction
import LedgerCore.Json.Basic

/-! What the scanner reads in a text that starts with a string, a number, an array or an object
that is written without spaces. -/
namespace LedgerCore.Json

theorem scanString_unit {a b c d : Char} {u : ℕ} (h : codeUnit a b c d = some u) (hu : u < 0xD800)
    (cs : List Char) : scanString ('\\' :: 'u' :: a :: b :: c :: d :: cs) =
      (scanString cs).map fun (s, rest) => (unitChar u :: s, rest) := by
  have hpair (v : ℕ) : pairChar u v = none := by
    rw [pairChar, if_neg (by omega)]
  by_cases hnext : ∃ a' b' c' d' cs', cs = '\\' :: 'u' :: a' :: b' :: c' :: d' :: cs'
  · obtain ⟨a', b', c', d', cs', rfl⟩ := hnext
    have hnone : (codeUnit a' b' c' d').bind (pairChar u) = none := by
      cases codeUnit a' b' c' d' with
      | none => rfl
      | some v => exact hpair v
    rw [scanString.eq_4 a b c d u a' b' c' d' cs' h, hnone]
  · exact scanString.eq_5 a b c d cs u h fun a' b' c' d' cs' hcs =>
      hnext ⟨a', b', c', d', cs', hcs⟩

theorem scanString_escaped {c x : Char} (h : escaped c = some x) (cs : List Char) :
    scanString ('\\' :: c :: cs) = (scanString cs).map fun (s, rest) => (x :: s, rest) := by
  have hu : c ≠ 'u' := by
    rintro rfl
    cases h
  rw [scanString.eq_6 c cs fun _ _ _ _ _ hc => absurd hc hu, h]
  rfl

theorem scanString_plain {c : Char} (hquote : c ≠ '"') (hslash : c ≠ '\\') (hc : 0x20 ≤ c.toNat)
    (cs : List Char) :
    scanString (c :: cs) = (scanString cs).map fun (s, rest) => (c :: s, rest) := by
  rw [scanString.eq_7 c cs hquote (fun _ _ _ _ _ h => absurd h hslash)
    fun _ _ h => absurd h hslash, if_neg (Nat.not_lt.2 hc)]

def DigitsEnd (rest : List Char) : Prop := ∀ c ∈ rest.head?, c.isDigit = false

/-- Nothing that comes next goes on with a number. -/
def NumberEnds (rest : List Char) : Prop :=
  ∀ c ∈ rest.head?, c.isDigit = false ∧ c ≠ '.' ∧ c ≠ 'e' ∧ c ≠ 'E'

structure Digits (ds : List Char) : Prop where
  nonempty : ds ≠ []
  digits : ∀ c ∈ ds, c.isDigit = true

theorem NumberEnds.digitsEnd {rest : List Char} (h : NumberEnds rest) : DigitsEnd rest :=
  fun c hc => (h c hc).1

theorem digitsEnd_cons {c : Char} (hc : c.isDigit = false) (cs : List Char) :
    DigitsEnd (c :: cs) := by
  intro c' hc'
  obtain rfl := Option.some.inj hc'
  exact hc

theorem scanDigits_append {ds rest : List Char} (hds : Digits ds) (hrest : DigitsEnd rest) :
    scanDigits (ds ++ rest) = some (ds, rest) := by
  have htake : rest.takeWhile Char.isDigit = [] := by
    cases rest with
    | nil => rfl
    | cons c cs => exact List.takeWhile_cons_of_neg (by simp [hrest c rfl])
  have hdrop : rest.dropWhile Char.isDigit = rest := by
    cases rest with
    | nil => rfl
    | cons c cs => exact List.dropWhile_cons_of_neg (by simp [hrest c rfl])
  rw [scanDigits, List.takeWhile_append_of_pos hds.digits, List.dropWhile_append_of_pos hds.digits,
    htake, hdrop, List.append_nil]
  cases ds with
  | nil => exact absurd rfl hds.nonempty
  | cons d ds => rfl

structure Parts where
  negative : Bool
  whole : List Char
  fraction : Option (List Char)
  exponent : Option ℤ

namespace Parts

def fractionText : Option (List Char) → List Char
  | some ds => '.' :: ds
  | none => []

def exponentText : Option ℤ → List Char
  | some e => 'e' :: (if 0 ≤ e then '+' else '-') :: Nat.toDigits 10 e.natAbs
  | none => []

def text (p : Parts) : List Char :=
  (if p.negative then ['-'] else []) ++
    (p.whole ++ (fractionText p.fraction ++ exponentText p.exponent))

def literal (p : Parts) : Literal :=
  ⟨p.negative, natOf p.whole, p.fraction.map fun ds => (ds.length, natOf ds), p.exponent⟩

structure WellFormed (p : Parts) : Prop where
  whole : Digits p.whole
  leading : p.whole.head? = some '0' → p.whole.length = 1
  fraction : ∀ ds ∈ p.fraction, Digits ds

end Parts

theorem digits_toDigits (n : ℕ) : Digits (Nat.toDigits 10 n) where
  nonempty := Nat.toDigits_ne_nil
  digits _ hc := Nat.isDigit_of_mem_toDigits (by decide) (by decide) hc

theorem natOf_toDigits (n : ℕ) : natOf (Nat.toDigits 10 n) = n := Nat.ofDigitChars_ten_toDigits

theorem exists_digitChar {c : Char} (h : c.isDigit = true) : ∃ d < 10, c = Nat.digitChar d := by
  have hbounds : 48 ≤ c.toNat ∧ c.toNat ≤ 57 := by
    rw [Char.isDigit, Bool.and_eq_true, decide_eq_true_eq, decide_eq_true_eq] at h
    exact ⟨h.1, h.2⟩
  have hall : ∀ d < 10, (Nat.digitChar d).toNat = 48 + d := by decide
  refine ⟨c.toNat - 48, by omega, Char.toNat_inj.1 ?_⟩
  rw [hall _ (by omega)]
  omega

theorem natOf_digitChar {d : ℕ} (h : d < 10) : natOf [Nat.digitChar d] = d := by
  rw [natOf, Nat.ofDigitChars_cons_digitChar_of_lt_ten h, Nat.ofDigitChars_nil, Nat.mul_zero,
    Nat.zero_add]

theorem natOf_append (a b : List Char) : natOf (a ++ b) = 10 ^ b.length * natOf a + natOf b := by
  rw [natOf, Nat.ofDigitChars_append, Nat.ofDigitChars_eq_ofDigitChars_zero]
  rfl

theorem natOf_zeroes (n : ℕ) : natOf (List.replicate n '0') = 0 := by
  rw [natOf, Nat.ofDigitChars_replicate_zero, Nat.mul_zero]

theorem head_toDigits {d : ℕ} (hd : 0 < d) : (Nat.toDigits 10 d).head? ≠ some '0' := by
  induction d using Nat.strongRecOn with
  | ind d ih =>
    by_cases hlt : d < 10
    · rw [Nat.toDigits_of_lt_base hlt, List.head?_cons]
      intro h
      exact absurd (Nat.digitChar_eq_zero.1 (Option.some.inj h)) (Nat.ne_of_gt hd)
    · have hdiv : 0 < d / 10 := by omega
      rw [Nat.toDigits_of_base_le (by decide) (Nat.not_lt.1 hlt), List.head?_append_of_ne_nil]
      · exact ih (d / 10) (by omega) hdiv
      · exact Nat.toDigits_ne_nil

theorem natOf_concat_digitChar (a : List Char) {d : ℕ} (h : d < 10) :
    natOf (a ++ [Nat.digitChar d]) = 10 * natOf a + d := by
  rw [natOf_append, natOf_digitChar h, List.length_singleton, Nat.pow_one]

theorem toDigits_natOf {ds : List Char} (hds : Digits ds) (hhead : ds.head? ≠ some '0') :
    Nat.toDigits 10 (natOf ds) = ds ∧ 0 < natOf ds := by
  induction ds using List.reverseRecOn with
  | nil => exact absurd rfl hds.nonempty
  | append_singleton init c ih =>
    obtain ⟨d, hd, rfl⟩ := exists_digitChar (hds.digits c (List.mem_append_right _ List.mem_cons_self))
    rw [natOf_concat_digitChar init hd]
    by_cases hinit : init = []
    · have hzero : natOf init = 0 := by
        rw [hinit]
        rfl
      rw [hinit, List.nil_append, List.head?_cons, Ne, Option.some_inj, Nat.digitChar_eq_zero] at hhead
      rw [hzero, Nat.mul_zero, Nat.zero_add, Nat.toDigits_of_lt_base hd, hinit, List.nil_append]
      exact ⟨rfl, Nat.pos_of_ne_zero hhead⟩
    · rw [List.head?_append_of_ne_nil _ hinit] at hhead
      obtain ⟨hdigits, hpos⟩ :=
        ih ⟨hinit, fun c hc => hds.digits c (List.mem_append_left _ hc)⟩ hhead
      have hdiv : (10 * natOf init + d) / 10 = natOf init := by omega
      have hmod : (10 * natOf init + d) % 10 = d := by omega
      rw [Nat.toDigits_of_base_le (by decide) (by omega), hdiv, hmod, hdigits]
      exact ⟨rfl, by omega⟩

theorem not_dvd_natOf {ds : List Char} (hds : Digits ds) (hlast : ds.getLast? ≠ some '0') :
    ¬10 ∣ natOf ds := by
  induction ds using List.reverseRecOn with
  | nil => exact absurd rfl hds.nonempty
  | append_singleton init c _ =>
    obtain ⟨d, hd, rfl⟩ := exists_digitChar (hds.digits c (List.mem_append_right _ List.mem_cons_self))
    rw [List.getLast?_concat, Ne, Option.some_inj, Nat.digitChar_eq_zero] at hlast
    rw [natOf_concat_digitChar init hd]
    omega

theorem scanExponent_text {rest : List Char} (e : Option ℤ) (hrest : NumberEnds rest) :
    scanExponent (Parts.exponentText e ++ rest) = some (e, rest) := by
  cases e with
  | none =>
    cases rest with
    | nil => rfl
    | cons c cs =>
      obtain ⟨-, -, he, hE⟩ := hrest c rfl
      unfold scanExponent
      exact if_neg (not_or.2 ⟨he, hE⟩)
  | some e =>
    have hscan := scanDigits_append (digits_toDigits e.natAbs) hrest.digitsEnd
    by_cases hsign : 0 ≤ e
    · have habs : (e.natAbs : ℤ) = e := Int.natAbs_of_nonneg hsign
      simp [Parts.exponentText, scanExponent, hsign, hscan, natOf_toDigits, habs]
    · have habs : (e.natAbs : ℤ) = -e := Int.ofNat_natAbs_of_nonpos (by omega)
      simp [Parts.exponentText, scanExponent, hsign, hscan, natOf_toDigits, habs]

theorem digitsEnd_exponentText {rest : List Char} (e : Option ℤ) (hrest : NumberEnds rest) :
    DigitsEnd (Parts.exponentText e ++ rest) := by
  cases e with
  | none => exact hrest.digitsEnd
  | some e => exact digitsEnd_cons (by decide) _

theorem scanFraction_text {rest : List Char} {f : Option (List Char)}
    (hf : ∀ ds ∈ f, Digits ds) (e : Option ℤ) (hrest : NumberEnds rest) :
    scanFraction (Parts.fractionText f ++ (Parts.exponentText e ++ rest)) =
      some (f.map fun ds => (ds.length, natOf ds), Parts.exponentText e ++ rest) := by
  cases f with
  | none =>
    have hpoint : ∀ cs, Parts.exponentText e ++ rest ≠ '.' :: cs := by
      intro cs hcs
      cases e with
      | none =>
        rw [Parts.exponentText, List.nil_append] at hcs
        exact (hrest '.' (by rw [hcs]; rfl)).2.1 rfl
      | some e => cases hcs
    rw [Parts.fractionText, List.nil_append]
    unfold scanFraction
    split
    · next cs hcs => exact absurd hcs (hpoint cs)
    · rfl
  | some ds =>
    have hscan := scanDigits_append (hf ds rfl) (digitsEnd_exponentText e hrest)
    rw [Parts.fractionText, List.cons_append, scanFraction, hscan]
    rfl

theorem digitsEnd_fractionText {rest : List Char} (f : Option (List Char)) (e : Option ℤ)
    (hrest : NumberEnds rest) :
    DigitsEnd (Parts.fractionText f ++ (Parts.exponentText e ++ rest)) := by
  cases f with
  | none => exact digitsEnd_exponentText e hrest
  | some ds => exact digitsEnd_cons (by decide) _

theorem scanNumber_text {p : Parts} (hp : p.WellFormed) {rest : List Char}
    (hrest : NumberEnds rest) : scanNumber (p.text ++ rest) = some (p.literal, rest) := by
  obtain ⟨negative, whole, fraction, exponent⟩ := p
  obtain ⟨hwhole, hleading, hfraction⟩ := hp
  have hdigits := scanDigits_append hwhole (digitsEnd_fractionText fraction exponent hrest)
  have hzero : ¬(whole.head? = some '0' ∧ 1 < whole.length) := by
    rintro ⟨hhead, hlength⟩
    exact absurd (hleading hhead) (Nat.ne_of_gt hlength)
  have hfraction' := scanFraction_text hfraction exponent hrest
  have hexponent := scanExponent_text exponent hrest
  rw [Parts.text, List.append_assoc, List.append_assoc, List.append_assoc]
  cases negative with
  | true =>
    dsimp only
    rw [if_pos rfl, List.singleton_append, scanNumber, hdigits]
    simp only [Option.bind_eq_bind, Option.bind_some, if_neg hzero, hfraction', hexponent]
    rfl
  | false =>
    dsimp only
    rw [if_neg Bool.false_ne_true, List.nil_append, scanNumber, hdigits]
    · simp only [Option.bind_eq_bind, Option.bind_some, if_neg hzero, hfraction', hexponent]
      rfl
    · intro cs hcs
      obtain ⟨c, ds, rfl⟩ := List.exists_cons_of_ne_nil hwhole.nonempty
      cases hcs
      exact absurd (hwhole.digits '-' List.mem_cons_self) (by decide)

/-- The characters that a value starts with. -/
def Opens (c : Char) : Prop := c.isDigit = true ∨ c ∈ ['-', 'n', 't', 'f', '"', '[', '{']

/-- A text that is read as a document wherever it stands. -/
structure Reads (text : List Char) (d : Json) : Prop where
  opens : ∃ c cs, text = c :: cs ∧ Opens c
  scan (fuel : ℕ) (rest : List Char) (hfuel : text.length < fuel) (hrest : NumberEnds rest) :
    scanValue fuel (text ++ rest) = some (d, rest)

def ReadsString (text : List Char) (s : String) : Prop :=
  ∃ body, text = '"' :: body ∧ ∀ rest, scanString (body ++ rest) = some (s.toList, rest)

def ReadsMember (text : List Char) (m : String × Json) : Prop :=
  ∃ key part, text = key ++ ':' :: part ∧ ReadsString key m.1 ∧ Reads part m.2

theorem Opens.ne {c : Char} (h : Opens c) (c' : Char) (hdigit : c'.isDigit = false)
    (hother : c' ∉ ['-', 'n', 't', 'f', '"', '[', '{']) : c ≠ c' := by
  rintro rfl
  rcases h with h | h
  · rw [h] at hdigit
    cases hdigit
  · exact hother h

theorem Opens.not_space {c : Char} (h : Opens c) : isSpace c = false := by
  have hspace := h.ne ' ' (by decide) (by decide)
  have htab := h.ne '\t' (by decide) (by decide)
  have hline := h.ne '\n' (by decide) (by decide)
  have hreturn := h.ne '\r' (by decide) (by decide)
  simp [isSpace, hspace, htab, hline, hreturn]

theorem skipSpace_opens {c : Char} (h : Opens c) (cs : List Char) :
    skipSpace (c :: cs) = c :: cs :=
  List.dropWhile_cons_of_neg (by simp [h.not_space])

theorem numberEnds_cons {c : Char} (h : c ∈ [',', ']', '}']) (cs : List Char) :
    NumberEnds (c :: cs) := by
  intro c' hc'
  obtain rfl := Option.some.inj hc'
  have hall : ([',', ']', '}'].all fun c =>
      c.isDigit = false ∧ c ≠ '.' ∧ c ≠ 'e' ∧ c ≠ 'E') = true := by decide
  exact of_decide_eq_true (List.all_eq_true.1 hall c h)

theorem scanValue_number {c : Char} {cs rest : List Char} {n : Literal} {fuel : ℕ}
    (hc : c.isDigit = true ∨ c = '-') (hscan : scanNumber (c :: cs) = some (n, rest)) :
    scanValue (fuel + 1) (c :: cs) = some (.number n, rest) := by
  have hopens : Opens c := hc.imp_right fun h => by rw [h]; decide
  unfold scanValue
  rw [skipSpace_opens hopens]
  split
  case h_7 => rw [hscan]; rfl
  all_goals
    next heq =>
      obtain rfl := (List.cons.inj heq).1
      exact absurd hc (by decide)

theorem reads_number {p : Parts} (hp : p.WellFormed) : Reads p.text (.number p.literal) := by
  have hopens : ∃ c cs, p.text = c :: cs ∧ (c.isDigit = true ∨ c = '-') := by
    obtain ⟨c, ds, hwhole⟩ := List.exists_cons_of_ne_nil hp.whole.nonempty
    by_cases hsign : p.negative = true
    · exact ⟨'-', _, by rw [Parts.text, if_pos hsign]; rfl, .inr rfl⟩
    · refine ⟨c, _, by rw [Parts.text, if_neg hsign, hwhole]; rfl, .inl ?_⟩
      exact hp.whole.digits c (by rw [hwhole]; exact List.mem_cons_self)
  obtain ⟨c, cs, htext, hc⟩ := hopens
  refine ⟨⟨c, cs, htext, ?_⟩, fun fuel rest hfuel hrest => ?_⟩
  · rcases hc with hc | rfl
    · exact .inl hc
    · exact .inr (by decide)
  · obtain ⟨fuel, rfl⟩ := Nat.exists_eq_succ_of_ne_zero (Nat.ne_zero_of_lt hfuel)
    have hscan := scanNumber_text hp hrest
    rw [htext] at hscan ⊢
    exact scanValue_number hc hscan

theorem reads_of_scan {text : List Char} {d : Json} (hopens : ∃ c cs, text = c :: cs ∧ Opens c)
    (h : ∀ fuel rest, text.length ≤ fuel → scanValue (fuel + 1) (text ++ rest) = some (d, rest)) :
    Reads text d := by
  refine ⟨hopens, fun fuel rest hfuel _ => ?_⟩
  obtain ⟨fuel, rfl⟩ := Nat.exists_eq_succ_of_ne_zero (Nat.ne_zero_of_lt hfuel)
  exact h fuel rest (Nat.le_of_lt_succ hfuel)

theorem reads_string {text : List Char} {s : String} (h : ReadsString text s) :
    Reads text (.string s) := by
  obtain ⟨body, rfl, hscan⟩ := h
  refine reads_of_scan ⟨'"', body, rfl, .inr (by decide)⟩ fun fuel rest _ => ?_
  change (scanString (body ++ rest)).map _ = _
  rw [hscan]
  simp [String.ofList_toList]

/-- Characters that stand for themselves in a string. -/
def Plain (cs : List Char) : Prop := ∀ c ∈ cs, c ≠ '"' ∧ c ≠ '\\' ∧ 0x20 ≤ c.toNat

instance (cs : List Char) : Decidable (Plain cs) :=
  List.decidableBAll (fun c => c ≠ '"' ∧ c ≠ '\\' ∧ 0x20 ≤ c.toNat) cs

theorem readsString_plain {cs : List Char} (h : Plain cs) :
    ReadsString ('"' :: cs ++ ['"']) (.ofList cs) := by
  refine ⟨cs ++ ['"'], rfl, fun rest => ?_⟩
  rw [String.toList_ofList]
  induction cs with
  | nil => rfl
  | cons c cs ih =>
    obtain ⟨hquote, hslash, hc⟩ := h c List.mem_cons_self
    rw [List.cons_append, List.cons_append, scanString_plain hquote hslash hc,
      ih fun c hc => h c (List.mem_cons_of_mem _ hc)]
    rfl

theorem reads_null : Reads ['n', 'u', 'l', 'l'] .null :=
  reads_of_scan ⟨_, _, rfl, .inr (by decide)⟩ fun _ _ _ => rfl

theorem reads_true : Reads ['t', 'r', 'u', 'e'] (.bool true) :=
  reads_of_scan ⟨_, _, rfl, .inr (by decide)⟩ fun _ _ _ => rfl

theorem reads_false : Reads ['f', 'a', 'l', 's', 'e'] (.bool false) :=
  reads_of_scan ⟨_, _, rfl, .inr (by decide)⟩ fun _ _ _ => rfl

theorem intercalate_cons_cons (part part' : List Char) (parts : List (List Char)) :
    [','].intercalate (part :: part' :: parts) = part ++ ',' :: [','].intercalate (part' :: parts) :=
  rfl

theorem scanItems_intercalate {parts : List (List Char)} {ds : List Json}
    (h : List.Forall₂ Reads parts ds) (hne : parts ≠ []) :
    ∀ fuel rest, ([','].intercalate parts).length + 1 < fuel →
      scanItems fuel ([','].intercalate parts ++ ']' :: rest) = some (ds, rest) := by
  induction h with
  | nil => exact absurd rfl hne
  | @cons part d parts ds hpart hparts ih =>
    intro fuel rest hfuel
    obtain ⟨fuel, rfl⟩ := Nat.exists_eq_succ_of_ne_zero (Nat.ne_zero_of_lt hfuel)
    cases hparts with
    | nil =>
      have hscan := hpart.scan fuel (']' :: rest) (by simp at hfuel; omega)
        (numberEnds_cons (by decide) _)
      rw [List.intercalate_singleton, scanItems, hscan]
      rfl
    | @cons part' d' parts ds hpart' hparts =>
      rw [intercalate_cons_cons, List.length_append, List.length_cons] at hfuel
      have hscan := hpart.scan fuel (',' :: ([','].intercalate (part' :: parts) ++ ']' :: rest))
        (by omega) (numberEnds_cons (by decide) _)
      have hrest := ih (List.cons_ne_nil _ _) fuel rest (by omega)
      rw [intercalate_cons_cons, List.append_assoc, List.cons_append, scanItems, hscan]
      change (scanItems fuel _ >>= _) = _
      rw [hrest]
      rfl

theorem scanMembers_intercalate {parts : List (List Char)} {ms : List (String × Json)}
    (h : List.Forall₂ ReadsMember parts ms) (hne : parts ≠ []) :
    ∀ fuel rest, ([','].intercalate parts).length + 1 < fuel →
      scanMembers fuel ([','].intercalate parts ++ '}' :: rest) = some (ms, rest) := by
  induction h with
  | nil => exact absurd rfl hne
  | @cons part m parts ms hpart hparts ih =>
    intro fuel rest hfuel
    obtain ⟨fuel, rfl⟩ := Nat.exists_eq_succ_of_ne_zero (Nat.ne_zero_of_lt hfuel)
    obtain ⟨_, text, rfl, ⟨body, rfl, hkey⟩, htext⟩ := hpart
    cases hparts with
    | nil =>
      simp only [List.intercalate_singleton, List.length_append, List.length_cons] at hfuel
      have hscan := htext.scan fuel ('}' :: rest) (by omega) (numberEnds_cons (by decide) _)
      rw [List.intercalate_singleton, List.append_assoc, List.cons_append, List.cons_append]
      change (scanString (body ++ _) >>= _) = _
      rw [hkey]
      change (scanValue fuel _ >>= _) = _
      rw [hscan]
      simp [skipSpace, isSpace]
    | @cons part' m' parts ms hpart' hparts =>
      simp only [intercalate_cons_cons, List.length_append, List.length_cons] at hfuel
      have hscan := htext.scan fuel (',' :: ([','].intercalate (part' :: parts) ++ '}' :: rest))
        (by omega) (numberEnds_cons (by decide) _)
      have hrest := ih (List.cons_ne_nil _ _) fuel rest (by omega)
      rw [intercalate_cons_cons, List.append_assoc, List.append_assoc, List.cons_append,
        List.cons_append, List.cons_append]
      change (scanString (body ++ _) >>= _) = _
      rw [hkey]
      change (scanValue fuel _ >>= _) = _
      rw [hscan]
      change (scanMembers fuel _ >>= _) = _
      rw [hrest]
      simp

theorem scanValue_array {c : Char} (hc : Opens c) (cs : List Char) (fuel : ℕ) :
    scanValue (fuel + 1) ('[' :: c :: cs) =
      (scanItems fuel (c :: cs)).map fun (items, rest) => (.array items, rest) := by
  have hopen : skipSpace ('[' :: c :: cs) = '[' :: c :: cs := rfl
  simp only [scanValue.eq_def (fuel + 1), hopen, skipSpace_opens hc]
  split
  · next heq => exact absurd (List.cons.inj heq).1 (hc.ne ']' (by decide) (by decide))
  · rfl

theorem reads_array {parts : List (List Char)} {ds : List Json}
    (h : List.Forall₂ Reads parts ds) :
    Reads ('[' :: [','].intercalate parts ++ [']']) (.array ds) := by
  refine reads_of_scan ⟨'[', _, rfl, .inr (by decide)⟩ fun fuel rest hfuel => ?_
  rw [List.length_append, List.length_cons, List.length_singleton] at hfuel
  rw [List.append_assoc, List.cons_append, List.singleton_append]
  cases h with
  | nil => rfl
  | @cons part d parts ds hpart hparts =>
    have hscan := scanItems_intercalate (.cons hpart hparts) (List.cons_ne_nil _ _) fuel rest
      (by omega)
    obtain ⟨c, cs, hopens, hc⟩ := hpart.opens
    have htext : ∃ cs', [','].intercalate (part :: parts) = c :: cs' := by
      cases parts with
      | nil => exact ⟨cs, by rw [List.intercalate_singleton, hopens]⟩
      | cons part' parts => exact ⟨_, by rw [intercalate_cons_cons, hopens]; rfl⟩
    obtain ⟨cs', htext⟩ := htext
    rw [htext] at hscan ⊢
    rw [List.cons_append] at hscan ⊢
    rw [scanValue_array hc, hscan]
    rfl

theorem reads_object {parts : List (List Char)} {ms : List (String × Json)}
    (h : List.Forall₂ ReadsMember parts ms) :
    Reads ('{' :: [','].intercalate parts ++ ['}']) (.object ms) := by
  refine reads_of_scan ⟨'{', _, rfl, .inr (by decide)⟩ fun fuel rest hfuel => ?_
  rw [List.length_append, List.length_cons, List.length_singleton] at hfuel
  rw [List.append_assoc, List.cons_append, List.singleton_append]
  cases h with
  | nil => rfl
  | @cons part m parts ms hpart hparts =>
    have hscan := scanMembers_intercalate (.cons hpart hparts) (List.cons_ne_nil _ _) fuel rest
      (by omega)
    have htext : ∃ cs, [','].intercalate (part :: parts) = '"' :: cs := by
      obtain ⟨_, _, rfl, ⟨_, rfl, -⟩, -⟩ := hpart
      cases parts with
      | nil => exact ⟨_, by rw [List.intercalate_singleton]; rfl⟩
      | cons part' parts => exact ⟨_, by rw [intercalate_cons_cons]; rfl⟩
    obtain ⟨cs, htext⟩ := htext
    rw [htext] at hscan ⊢
    change (scanMembers fuel ('"' :: cs ++ '}' :: rest)).map _ = _
    rw [hscan]
    rfl

theorem Reads.scan_self {text : List Char} {d : Json} (h : Reads text d) :
    scanValue (text.length + 1) text = some (d, []) := by
  have hscan := h.scan (text.length + 1) [] (Nat.lt_succ_self _) (fun _ hc => nomatch hc)
  rwa [List.append_nil] at hscan

theorem Reads.unique {text : List Char} {d d' : Json} (h : Reads text d) (h' : Reads text d') :
    d = d' :=
  congrArg Prod.fst (Option.some.inj (h.scan_self.symm.trans h'.scan_self))

theorem Reads.document {text : List Char} {d : Json} (h : Reads text d) :
    Json.document text = some d :=
  document_eq_some.2 ⟨[], h.scan_self, rfl⟩

end LedgerCore.Json
