import LedgerCore.Json.Scan

/-! The text that the dashboard shows for an amount. It is made out of the digits that the API sends,
without a number type in between. -/
namespace LedgerCore.Dashboard
open LedgerCore.Json

structure Money where
  amount : String
  currency : String
  scale : Option ℕ
  deriving DecidableEq, Repr

def currencyExponents : List (String × ℕ) :=
  [("JPY", 0), ("KRW", 0), ("INR", 2), ("USD", 2), ("EUR", 2), ("GBP", 2), ("KWD", 3), ("BHD", 3)]

def exponentFor (m : Money) : ℕ := m.scale.getD ((currencyExponents.lookup m.currency).getD 2)

def padStart (width : ℕ) (text : List Char) : List Char :=
  List.replicate (width - text.length) '0' ++ text

/-- `slice(0, -n)` and `slice(-n)`, for `0 < n`. -/
def splitEnd (n : ℕ) (text : List Char) : List Char × List Char :=
  text.splitAt (text.length - n)

def isWord (c : Char) : Bool := c.isAlphanum || c = '_'

/-- `\B`, between what comes before and after a place. -/
def notBoundary (before after : Option Char) : Bool := before.any isWord == after.any isWord

/-- `(\d{3})+(?!\d)` -/
def threes : List Char → Bool
  | a :: b :: c :: rest =>
    a.isDigit && b.isDigit && c.isDigit && (threes rest || !rest.head?.any Char.isDigit)
  | _ => false

/-- `replace`, from a place on: a comma is put wherever the pattern matches. It matches at no end of
a text. -/
def insertCommas (before : Option Char) : List Char → List Char
  | [] => []
  | c :: cs =>
    (if notBoundary before c && threes (c :: cs) then [','] else []) ++ c :: insertCommas c cs

def formatMoney (m : Money) : String :=
  let exponent := exponentFor m
  let negative := m.amount.toList.head? = some '-'
  let digits := if negative then m.amount.toList.drop 1 else m.amount.toList
  let padded := padStart (exponent + 1) digits
  let (whole, fraction) := if exponent = 0 then (padded, []) else splitEnd exponent padded
  let withThousands := insertCommas none whole
  let sign := if negative then ['−'] else []
  let value := if fraction = [] then withThousands else withThousands ++ '.' :: fraction
  .ofList (sign ++ value ++ ' ' :: m.currency.toList)

/-- Commas stand before every group of three digits, counted from the right, and never first. -/
def Grouped (text whole : List Char) : Prop :=
  ∃ first : List Char, ∃ groups : List (List Char), text = [','].intercalate (first :: groups) ∧
    whole = first ++ groups.flatten ∧ 1 ≤ first.length ∧ first.length ≤ 3 ∧
    ∀ g ∈ groups, g.length = 3

theorem intercalate_eq (first : List Char) (groups : List (List Char)) :
    [','].intercalate (first :: groups) = first ++ groups.flatMap (',' :: ·) := by
  induction groups generalizing first with
  | nil => simp
  | cons g groups ih =>
    rw [intercalate_cons_cons, ih]
    simp

section Groups
variable {ds : List Char}

theorem threes_eq (hds : ∀ c ∈ ds, c.isDigit = true) :
    threes ds = decide (ds ≠ [] ∧ ds.length % 3 = 0) := by
  fun_induction threes ds with
  | case1 a b c rest ih =>
    simp only [List.forall_mem_cons] at hds
    obtain ⟨ha, hb, hc, hrest⟩ := hds
    rw [ha, hb, hc, ih hrest]
    cases rest with
    | nil => simp
    | cons d rest =>
      have hd := hrest d List.mem_cons_self
      have hmod : (rest.length + 1) % 3 = (rest.length + 1 + 1 + 1 + 1) % 3 := by omega
      simp [hd, hmod]
  | case2 ds h =>
    match ds with
    | [] => rfl
    | [_] => rfl
    | [_, _] => rfl
    | a :: b :: c :: rest => exact absurd rfl (h a b c rest)

theorem isWord_of_isDigit {c : Char} (h : c.isDigit = true) : isWord c = true := by
  simp [isWord, Char.isAlphanum, h]

theorem insertCommas_cons {p c : Char} (hp : p.isDigit = true)
    (hds : ∀ d ∈ c :: ds, d.isDigit = true) : insertCommas p (c :: ds) =
      (if (c :: ds).length % 3 = 0 then [','] else []) ++ c :: insertCommas c ds := by
  have hc := hds c List.mem_cons_self
  rw [insertCommas, threes_eq hds]
  simp [notBoundary, isWord_of_isDigit hp, isWord_of_isDigit hc]

theorem insertCommas_first {c : Char} (hc : c.isDigit = true) :
    insertCommas none (c :: ds) = c :: insertCommas c ds := by
  simp [insertCommas, notBoundary, isWord_of_isDigit hc]

theorem insertCommas_groups (n : ℕ) {p : Char} (hp : p.isDigit = true) (hlength : ds.length = 3 * n)
    (hds : ∀ c ∈ ds, c.isDigit = true) :
    ∃ groups : List (List Char), insertCommas p ds = groups.flatMap (',' :: ·) ∧
      ds = groups.flatten ∧ ∀ g ∈ groups, g.length = 3 := by
  induction n generalizing ds p with
  | zero =>
    obtain rfl := List.length_eq_zero_iff.1 hlength
    exact ⟨[], rfl, rfl, fun g hg => nomatch hg⟩
  | succ n ih =>
    match ds, hlength with
    | a :: b :: c :: rest, hlength =>
      have hrest : rest.length = 3 * n := by
        simp only [List.length_cons] at hlength
        omega
      have hbc := (List.forall_mem_cons.1 hds).2
      have hc := (List.forall_mem_cons.1 hbc).2
      obtain ⟨groups, htext, hflatten, hgroups⟩ :=
        ih (hc c List.mem_cons_self) hrest (List.forall_mem_cons.1 hc).2
      refine ⟨[a, b, c] :: groups, ?_, ?_, List.forall_mem_cons.2 ⟨rfl, hgroups⟩⟩
      · rw [insertCommas_cons hp hds, insertCommas_cons (hds a List.mem_cons_self) hbc,
          insertCommas_cons (hbc b List.mem_cons_self) hc, htext]
        simp only [List.length_cons, hrest]
        rw [if_pos (by omega), if_neg (by omega), if_neg (by omega)]
        rfl
      · rw [List.flatten_cons, ← hflatten]
        rfl

theorem grouped_insertCommas (hds : Digits ds) : Grouped (insertCommas none ds) ds := by
  obtain ⟨a, rest, rfl⟩ := List.exists_cons_of_ne_nil hds.nonempty
  have ha := hds.digits a List.mem_cons_self
  have hrest := (List.forall_mem_cons.1 hds.digits).2
  rw [insertCommas_first ha]
  by_cases hzero : rest.length % 3 = 0
  · obtain ⟨groups, htext, hflatten, hgroups⟩ :=
      insertCommas_groups (rest.length / 3) ha (by omega) hrest
    refine ⟨[a], groups, ?_, ?_, by simp, by simp, hgroups⟩
    · rw [intercalate_eq, htext]
      rfl
    · rw [← hflatten]
      rfl
  obtain ⟨b, rest, rfl⟩ := List.exists_cons_of_ne_nil (List.ne_nil_of_length_pos (by omega : 0 < rest.length))
  have hb := hrest b List.mem_cons_self
  have hrest' := (List.forall_mem_cons.1 hrest).2
  rw [insertCommas_cons ha hrest, if_neg hzero]
  rw [List.length_cons] at hzero
  by_cases hone : rest.length % 3 = 0
  · obtain ⟨groups, htext, hflatten, hgroups⟩ :=
      insertCommas_groups (rest.length / 3) hb (by omega) hrest'
    refine ⟨[a, b], groups, ?_, ?_, by simp, by simp, hgroups⟩
    · rw [intercalate_eq, htext]
      rfl
    · rw [← hflatten]
      rfl
  obtain ⟨c, rest, rfl⟩ := List.exists_cons_of_ne_nil (List.ne_nil_of_length_pos (by omega : 0 < rest.length))
  rw [insertCommas_cons hb hrest', if_neg hone]
  rw [List.length_cons] at hzero hone
  obtain ⟨groups, htext, hflatten, hgroups⟩ := insertCommas_groups (rest.length / 3)
    (hrest' c List.mem_cons_self) (by omega) (List.forall_mem_cons.1 hrest').2
  refine ⟨[a, b, c], groups, ?_, ?_, by simp, by simp, hgroups⟩
  · rw [intercalate_eq, htext]
    rfl
  · rw [← hflatten]
    rfl

theorem Grouped.filter {text : List Char} (h : Grouped text ds) (hds : ∀ c ∈ ds, c.isDigit = true) :
    text.filter (· ≠ ',') = ds := by
  obtain ⟨first, groups, rfl, rfl, -, -, -⟩ := h
  have hkeep {l : List Char} (hl : ∀ c ∈ l, c.isDigit = true) : l.filter (· ≠ ',') = l := by
    refine List.filter_eq_self.2 fun c hc => decide_eq_true ?_
    rintro rfl
    exact absurd (hl ',' hc) (by decide)
  rw [List.forall_mem_append] at hds
  rw [intercalate_eq, List.filter_append, hkeep hds.1]
  congr 1
  have hgroups := hds.2
  clear hds
  induction groups with
  | nil => rfl
  | cons g groups ih =>
    rw [List.flatten_cons, List.forall_mem_append] at hgroups
    rw [List.flatMap_cons, List.filter_append, ih hgroups.2, List.flatten_cons,
      List.filter_cons_of_neg (by simp), hkeep hgroups.1]

end Groups

theorem toList_toString (n : ℤ) :
    (toString n).toList = (if n < 0 then ['-'] else []) ++ Nat.toDigits 10 n.natAbs := by
  cases n with
  | ofNat n =>
    rw [if_neg (by simp), List.nil_append]
    change (Nat.repr n).toList = _
    rw [Nat.repr_eq_ofList_toDigits, String.toList_ofList]
    rfl
  | negSucc n =>
    rw [if_pos (Int.negSucc_lt_zero n), List.singleton_append]
    change ("-" ++ Nat.repr (n + 1)).toList = _
    rw [Nat.repr_eq_ofList_toDigits, String.toList_append, String.toList_ofList, String.toList_ofList]
    rfl

/-- What is shown for `n` minor units: the sign, the grouped whole digits, as many digits after the
point as the scale says, and the currency. -/
structure Shows (n : ℤ) (scale : ℕ) (currency : String) (text grouped whole fraction : List Char) :
    Prop where
  parts : text = (if n < 0 then ['−'] else []) ++ grouped ++
    (if scale = 0 then [] else '.' :: fraction) ++ ' ' :: currency.toList
  groups : Grouped grouped whole
  commas : grouped.filter (· ≠ ',') = whole
  digits : Digits whole
  decimals : ∀ c ∈ fraction, c.isDigit = true
  places : fraction.length = scale
  value : (if n < 0 then -1 else 1) * (natOf whole + natOf fraction / 10 ^ scale : ℚ) = n / 10 ^ scale

theorem digits_padStart {ds : List Char} (hds : Digits ds) (width : ℕ) :
    Digits (padStart width ds) where
  nonempty := List.append_ne_nil_of_right_ne_nil _ hds.nonempty
  digits c hc := by
    rcases List.mem_append.1 hc with hc | hc
    · rw [List.eq_of_mem_replicate hc]
      decide
    · exact hds.digits c hc

theorem length_padStart (width : ℕ) (ds : List Char) :
    (padStart width ds).length = max width ds.length := by
  rw [padStart, List.length_append, List.length_replicate]
  omega

theorem natOf_padStart (width : ℕ) (ds : List Char) : natOf (padStart width ds) = natOf ds := by
  rw [padStart, natOf_append, natOf_zeroes, Nat.mul_zero, Nat.zero_add]

theorem formatMoney_eq (n : ℤ) (scale : ℕ) (currency : String) {padded : List Char}
    (hpadded : padStart (scale + 1) (Nat.toDigits 10 n.natAbs) = padded) :
    (formatMoney ⟨toString n, currency, some scale⟩).toList =
      (if n < 0 then ['−'] else []) ++ insertCommas none (padded.take (padded.length - scale)) ++
        (if scale = 0 then [] else '.' :: padded.drop (padded.length - scale)) ++
          ' ' :: currency.toList := by
  have hlength : scale + 1 ≤ padded.length := by
    rw [← hpadded, length_padStart]
    exact Nat.le_max_left _ _
  have hsign : (toString n).toList.head? = some '-' ↔ n < 0 := by
    rw [toList_toString]
    split_ifs with hneg
    · simp [hneg]
    · have hhead : (Nat.toDigits 10 n.natAbs).head? ≠ some '-' := by
        intro h
        exact absurd ((digits_toDigits n.natAbs).digits '-' (List.mem_of_mem_head? h)) (by decide)
      simp [hneg, hhead]
  have hdigits : (if n < 0 then (toString n).toList.drop 1 else (toString n).toList) =
      Nat.toDigits 10 n.natAbs := by
    rw [toList_toString]
    split_ifs <;> rfl
  have hsplit : (if scale = 0 then (padded, []) else splitEnd scale padded) =
      (padded.take (padded.length - scale), padded.drop (padded.length - scale)) := by
    split_ifs with hzero
    · rw [hzero, Nat.sub_zero, List.take_length, List.drop_length]
    · rw [splitEnd, List.splitAt_eq]
  have hfraction : padded.drop (padded.length - scale) = [] ↔ scale = 0 := by
    rw [List.drop_eq_nil_iff]
    omega
  unfold formatMoney
  simp only [exponentFor, Option.getD_some, hsign, hdigits, hpadded, hsplit, hfraction,
    String.toList_ofList]
  split_ifs <;> simp

theorem formatMoney_shows (n : ℤ) (scale : ℕ) (currency : String) :
    ∃ grouped whole fraction, Shows n scale currency
      (formatMoney ⟨toString n, currency, some scale⟩).toList grouped whole fraction := by
  obtain ⟨padded, hpadded⟩ : ∃ padded, padStart (scale + 1) (Nat.toDigits 10 n.natAbs) = padded :=
    ⟨_, rfl⟩
  have hlength : scale + 1 ≤ padded.length := by
    rw [← hpadded, length_padStart]
    exact Nat.le_max_left _ _
  have hdigits : Digits padded := by
    rw [← hpadded]
    exact digits_padStart (digits_toDigits _) _
  have hnat : natOf padded = n.natAbs := by
    rw [← hpadded, natOf_padStart, natOf_toDigits]
  have hwhole : Digits (padded.take (padded.length - scale)) := by
    refine ⟨fun h => ?_, fun c hc => hdigits.digits c (List.mem_of_mem_take hc)⟩
    rcases List.take_eq_nil_iff.1 h with h | h
    · omega
    · exact hdigits.nonempty h
  have hplaces : (padded.drop (padded.length - scale)).length = scale := by
    rw [List.length_drop]
    omega
  have hgrouped := grouped_insertCommas hwhole
  refine ⟨_, _, _, formatMoney_eq n scale currency hpadded, hgrouped, hgrouped.filter hwhole.digits,
    hwhole, fun c hc => hdigits.digits c (List.mem_of_mem_drop hc), hplaces, ?_⟩
  have hsplit := natOf_append (padded.take (padded.length - scale)) (padded.drop (padded.length - scale))
  rw [List.take_append_drop, hnat, hplaces] at hsplit
  have hten : (10 : ℚ) ^ scale ≠ 0 := by positivity
  have habs : (n : ℚ) = (if n < 0 then -1 else 1) * (n.natAbs : ℚ) := by
    split_ifs with hneg
    · rw [Nat.cast_natAbs, abs_of_neg hneg]
      push_cast
      ring
    · rw [Nat.cast_natAbs, abs_of_nonneg (not_lt.1 hneg), one_mul]
  rw [habs, hsplit]
  push_cast
  field_simp

section Unique
variable {n n' : ℤ} {scale : ℕ} {currency : String}
  {text grouped grouped' whole whole' fraction fraction' : List Char}

theorem Shows.no_minus (h : Shows n scale currency text grouped whole fraction) :
    '−' ∉ grouped ++ (if scale = 0 then [] else '.' :: fraction) := by
  have hdigit : '−'.isDigit = false := by decide
  rw [List.mem_append, not_or]
  constructor
  · intro hmem
    have hwhole : '−' ∈ whole := by
      rw [← h.commas]
      exact List.mem_filter.2 ⟨hmem, by decide⟩
    rw [h.digits.digits _ hwhole] at hdigit
    cases hdigit
  · split_ifs
    · exact List.not_mem_nil
    · intro hmem
      rcases List.mem_cons.1 hmem with hpoint | hmem
      · exact absurd hpoint (by decide)
      · rw [h.decimals _ hmem] at hdigit
        cases hdigit

theorem Shows.unique (h : Shows n scale currency text grouped whole fraction)
    (h' : Shows n' scale currency text grouped' whole' fraction') : n = n' := by
  have heq := h.parts.symm.trans h'.parts
  rw [List.append_cancel_right_eq, List.append_assoc, List.append_assoc] at heq
  have hsign : n < 0 ↔ n' < 0 := by
    constructor
    · intro hneg
      by_contra hneg'
      rw [if_pos hneg, if_neg hneg', List.nil_append, List.singleton_append] at heq
      exact h'.no_minus (heq ▸ List.mem_cons_self)
    · intro hneg'
      by_contra hneg
      rw [if_neg hneg, if_pos hneg', List.nil_append, List.singleton_append] at heq
      exact h.no_minus (heq ▸ List.mem_cons_self)
  have hvalue := h.value
  have hvalue' := h'.value
  simp only [hsign] at heq hvalue
  have hrest := List.append_cancel_left heq
  have hparts : grouped = grouped' ∧ natOf fraction = natOf fraction' := by
    by_cases hzero : scale = 0
    · rw [if_pos hzero, if_pos hzero, List.append_nil, List.append_nil] at hrest
      have hnil := List.length_eq_zero_iff.1 (h.places.trans hzero)
      have hnil' := List.length_eq_zero_iff.1 (h'.places.trans hzero)
      rw [hnil, hnil']
      exact ⟨hrest, rfl⟩
    · rw [if_neg hzero, if_neg hzero] at hrest
      obtain ⟨hgrouped, hfraction⟩ := List.append_inj' hrest
        (by rw [List.length_cons, List.length_cons, h.places, h'.places])
      exact ⟨hgrouped, by rw [List.tail_eq_of_cons_eq hfraction]⟩
  have hwhole : whole = whole' := by
    rw [← h.commas, ← h'.commas, hparts.1]
  rw [hwhole, hparts.2, hvalue'] at hvalue
  have hten : (10 : ℚ) ^ scale ≠ 0 := by positivity
  exact_mod_cast ((div_left_inj' hten).1 hvalue).symm

end Unique

/-- The dashboard shows an amount exactly, with as many digits after the point as the scale says and
commas before every group of three whole digits, and shows no two amounts alike. -/
theorem formatMoney_exact (scale : ℕ) (currency : String) :
    (∀ n : ℤ, ∃ grouped whole fraction, Shows n scale currency
      (formatMoney ⟨toString n, currency, some scale⟩).toList grouped whole fraction) ∧
    Function.Injective fun n : ℤ => formatMoney ⟨toString n, currency, some scale⟩ := by
  refine ⟨fun n => formatMoney_shows n scale currency, fun n n' heq => ?_⟩
  obtain ⟨_, _, _, h⟩ := formatMoney_shows n scale currency
  obtain ⟨_, _, _, h'⟩ := formatMoney_shows n' scale currency
  rw [← congrArg String.toList heq] at h'
  exact h.unique h'

theorem formatMoney_exact_rupees :
    formatMoney ⟨toString (-123456789 : ℤ), "INR", some 2⟩ = "−1,234,567.89 INR" ∧
      formatMoney ⟨toString (-123456789 : ℤ), "INR", some 2⟩ ≠
        formatMoney ⟨toString (123456789 : ℤ), "INR", some 2⟩ := by
  refine ⟨by decide +kernel, fun h => ?_⟩
  have heq : (-123456789 : ℤ) = 123456789 := (formatMoney_exact 2 "INR").2 h
  omega

end LedgerCore.Dashboard
