import LedgerCore.Idempotency.CanonicalForm
import LedgerCore.Ledger.MoneyJson

/-! An amount that is written is read back, and what is read is the integer that the text denotes or
an error. -/
namespace LedgerCore.Ledger
open LedgerCore.Program LedgerCore.Json LedgerCore.Text
open LedgerCore.Idempotency (itoa utf8 runes_utf8)
variable {cs : List Char}

/-- A sign, if there is one, and decimal digits. -/
inductive Denotes : List Char → ℤ → Prop where
  | plain {digits : List Char} (hdigits : Digits digits) : Denotes digits (natOf digits)
  | plus {digits : List Char} (hdigits : Digits digits) : Denotes ('+' :: digits) (natOf digits)
  | minus {digits : List Char} (hdigits : Digits digits) : Denotes ('-' :: digits) (-natOf digits)

theorem denotes_itoa (n : ℤ) : Denotes (itoa n) n := by
  have hdigits := digits_toDigits n.natAbs
  unfold itoa
  by_cases hn : n < 0
  · have hvalue : -(natOf (Nat.toDigits 10 n.natAbs) : ℤ) = n := by
      rw [natOf_toDigits]
      omega
    rw [if_pos hn, List.singleton_append]
    nth_rewrite 2 [← hvalue]
    exact .minus hdigits
  · have hvalue : (natOf (Nat.toDigits 10 n.natAbs) : ℤ) = n := by
      rw [natOf_toDigits]
      omega
    rw [if_neg hn, List.nil_append]
    nth_rewrite 2 [← hvalue]
    exact .plain hdigits

theorem parseUint_digits {n : ℕ} (hn : n < 2 ^ 64) (hcs : ∀ c ∈ cs, c.isDigit = true) :
    parseUint n cs =
      if Nat.ofDigitChars 10 cs n < 2 ^ 64 then .ok (Nat.ofDigitChars 10 cs n)
      else .error .range := by
  induction cs generalizing n with
  | nil =>
    rw [parseUint, Nat.ofDigitChars_nil, if_pos hn]
  | cons c cs ih =>
    have hc := hcs c List.mem_cons_self
    rw [parseUint, Nat.ofDigitChars_cons, hc]
    by_cases hfits : 2 ^ 64 ≤ 10 * n + (c.toNat - '0'.toNat)
    · -- The digits that follow only make the number greater.
      have hgrows : Nat.ofDigitChars 10 cs (10 * n + (c.toNat - '0'.toNat)) =
          10 ^ cs.length * (10 * n + (c.toNat - '0'.toNat)) + natOf cs :=
        Nat.ofDigitChars_eq_ofDigitChars_zero
      have hpos : 1 ≤ 10 ^ cs.length := Nat.one_le_pow _ _ (by decide)
      have hle : 10 * n + (c.toNat - '0'.toNat) ≤
          10 ^ cs.length * (10 * n + (c.toNat - '0'.toNat)) := Nat.le_mul_of_pos_left _ hpos
      rw [if_neg (by decide), if_pos hfits, if_neg (by omega)]
    · rw [if_neg (by decide), if_neg hfits]
      exact ih (by omega) fun c hc => hcs c (List.mem_cons_of_mem _ hc)

theorem digits_of_parseUint {n k : ℕ} (h : parseUint n cs = .ok k) :
    ∀ c ∈ cs, c.isDigit = true := by
  induction cs generalizing n with
  | nil => exact fun _ hc => nomatch hc
  | cons c cs ih =>
    rw [parseUint] at h
    split_ifs at h with hc hfits
    intro c' hc'
    rcases List.mem_cons.1 hc' with rfl | hc'
    · simpa using hc
    · exact ih h c' hc'

theorem parseDigits_eq {negative : Bool} (hcs : Digits cs) :
    parseDigits negative cs =
      let n : ℤ := if negative then -natOf cs else natOf cs
      if -2 ^ 63 ≤ n ∧ n < 2 ^ 63 then .ok (.ofInt n) else .error .range := by
  rw [parseDigits, if_neg hcs.nonempty, parseUint_digits (by decide) hcs.digits]
  by_cases hfits : Nat.ofDigitChars 10 cs 0 < 2 ^ 64
  · rw [if_pos hfits]
    rfl
  · have hrange : ¬(-2 ^ 63 ≤ (if negative = true then -(natOf cs : ℤ) else natOf cs) ∧
        (if negative = true then -(natOf cs : ℤ) else natOf cs) < 2 ^ 63) := by
      have hnat : 2 ^ 64 ≤ natOf cs := Nat.le_of_not_lt hfits
      split <;> omega
    rw [if_neg hfits]
    dsimp only
    rw [if_neg hrange]
    rfl

theorem digits_of_parseDigits {negative : Bool} {a : Int64} (h : parseDigits negative cs = .ok a) :
    Digits cs := by
  unfold parseDigits at h
  by_cases hnil : cs = []
  · rw [if_pos hnil] at h
    cases h
  · rw [if_neg hnil] at h
    obtain ⟨k, hk, -⟩ := bind_eq_ok.1 h
    exact ⟨hnil, digits_of_parseUint hk⟩

theorem parseInt_of_denotes {n : ℤ} (h : Denotes cs n) :
    parseInt cs = if -2 ^ 63 ≤ n ∧ n < 2 ^ 63 then .ok (.ofInt n) else .error .range := by
  cases h with
  | plus hdigits => exact parseDigits_eq hdigits
  | minus hdigits => exact parseDigits_eq hdigits
  | plain hdigits =>
    unfold parseInt
    split
    · exact absurd (hdigits.digits '+' List.mem_cons_self) (by decide)
    · exact absurd (hdigits.digits '-' List.mem_cons_self) (by decide)
    · exact parseDigits_eq hdigits

theorem exists_denotes_of_parseInt {a : Int64} (h : parseInt cs = .ok a) : ∃ n, Denotes cs n := by
  unfold parseInt at h
  split at h
  · exact ⟨_, .plus (digits_of_parseDigits h)⟩
  · exact ⟨_, .minus (digits_of_parseDigits h)⟩
  · exact ⟨_, .plain (digits_of_parseDigits h)⟩

theorem parseInt_eq_ok {a : Int64} : parseInt cs = .ok a ↔ Denotes cs a.toInt := by
  constructor
  · intro h
    obtain ⟨n, hn⟩ := exists_denotes_of_parseInt h
    rw [parseInt_of_denotes hn] at h
    split_ifs at h with hrange
    have hvalue : a.toInt = n := by
      rw [← Except.ok.inj h, Int64.toInt_ofInt_of_le hrange.1 hrange.2]
    rwa [hvalue]
  · intro h
    rw [parseInt_of_denotes h, if_pos ⟨a.le_toInt, a.toInt_lt⟩, Int64.ofInt_toInt]

/-- `Money.UnmarshalJSON` on bytes. -/
def Money.unmarshal (cause : String) (written : Option Json → String) (data : Bytes) :
    Except Error Money :=
  match valid (runes data) with
  | none => .error ⟨[], "decode money: " ++ cause⟩
  | some d => Money.unmarshalJSON cause written d

section
variable {cause : String} {written : Option Json → String}

theorem unmarshalJSON_eq_ok {d : Json} {m : Money} :
    Money.unmarshalJSON cause written d = .ok m ↔
      ∃ raw amount, intoStruct MoneyJson.fields false ⟨none, "", none⟩ d = some raw ∧
        raw.amount = some (.string amount) ∧ Denotes amount.toList m.amountMinor.toInt ∧
        raw.currency = m.currency ∧ currencyPattern m.currency = true ∧
        ∀ scale ∈ raw.scale, scale = scaleFor m.currency := by
  constructor
  · intro h
    unfold Money.unmarshalJSON at h
    split at h
    · cases h
    next raw hraw =>
      split at h
      · next amount hamount =>
        split at h
        · cases h
        · cases h
        · next amountMinor hparse =>
          obtain ⟨decoded, hnew, h⟩ := bind_eq_ok.1 h
          obtain ⟨hpattern, rfl⟩ := newMoney_eq_ok.1 (mapError_eq_ok.1 hnew)
          have hread := parseInt_eq_ok.1 hparse
          split at h
          · next scale hscale =>
            split_ifs at h with hmatch
            cases h
            refine ⟨raw, amount, hraw, hamount, hread, rfl, hpattern, ?_⟩
            rw [hscale]
            rintro _ ⟨⟩
            exact not_not.1 hmatch
          · next hscale =>
            cases h
            refine ⟨raw, amount, hraw, hamount, hread, rfl, hpattern, ?_⟩
            rw [hscale]
            exact fun _ h => nomatch h
      · cases h
  · rintro ⟨⟨rawAmount, rawCurrency, rawScale⟩, amount, hraw, hamount, hread, hcurrency, hpattern, hscale⟩
    dsimp only at hamount hcurrency hscale
    subst hamount hcurrency
    have hnew := newMoney_eq_ok.2 (⟨hpattern, rfl⟩ : _ ∧ m = ⟨m.amountMinor, m.currency⟩)
    simp only [Money.unmarshalJSON, hraw, parseInt_eq_ok.2 hread, hnew]
    cases rawScale with
    | none => rfl
    | some scale =>
      have hmatch := hscale scale rfl
      change (if scale ≠ scaleFor m.currency then _ else Except.ok m) = _
      rw [if_neg (not_not.2 hmatch)]

theorem into_cases {f : Field Json MoneyJson} (hf : f ∈ MoneyJson.fields) {raw raw' : MoneyJson}
    {v : Json} (h : f.into raw v = some raw') :
    (f.name = "amount" ∧ raw' = { raw with amount := some v }) ∨
      (f.name = "currency" ∧ ∃ currency, raw' = { raw with currency }) ∨
      (f.name = "scale" ∧ ∃ scale, raw' = { raw with scale } ∧
        intoPointer 0 (intoInt (-2 ^ 63) (2 ^ 63 - 1)) raw.scale v = some scale) := by
  simp only [MoneyJson.fields, List.mem_cons, List.not_mem_nil, or_false] at hf
  rcases hf with rfl | rfl | rfl
  · exact .inl ⟨rfl, (Option.some.inj h).symm⟩
  · obtain ⟨currency, -, rfl⟩ := Option.map_eq_some_iff.1 h
    exact .inr (.inl ⟨rfl, currency, rfl⟩)
  · obtain ⟨scale, hscale, rfl⟩ := Option.map_eq_some_iff.1 h
    exact .inr (.inr ⟨rfl, scale, rfl, hscale⟩)

section Members
variable {ms : List (String × Json)} {raw : MoneyJson}

theorem amount_eq_last (h : intoMembers MoneyJson.fields false ⟨none, "", none⟩ ms = some raw) :
    raw.amount = lastInto MoneyJson.fields "amount" ms := by
  have hother : ∀ f ∈ MoneyJson.fields, f.name ≠ "amount" → ∀ s v s', f.into s v = some s' →
      s'.amount = s.amount := by
    intro f hf hname s v s' hinto
    obtain ⟨hamount, -⟩ | ⟨-, _, rfl⟩ | ⟨-, _, rfl, -⟩ := into_cases hf hinto
    · exact absurd hamount hname
    · rfl
    · rfl
  obtain ⟨hnone, hraw⟩ | ⟨v, hlast, f, hf, hname, s₀, s₁, hinto, hraw⟩ :=
    intoMembers_last "amount" MoneyJson.amount hother h
  · rw [hraw, hnone]
  · obtain ⟨-, rfl⟩ | ⟨hcurrency, -⟩ | ⟨hscale, -⟩ := into_cases hf hinto
    · rw [hraw, hlast]
    · exact absurd (hname.symm.trans hcurrency) (by decide)
    · exact absurd (hname.symm.trans hscale) (by decide)

theorem scale_eq_last (h : intoMembers MoneyJson.fields false ⟨none, "", none⟩ ms = some raw)
    {v : Json} (hv : lastInto MoneyJson.fields "scale" ms = some v) :
    v = .null ∨ ∃ l : Literal, v = .number l ∧ l.Integral ∧ raw.scale = some l.int := by
  have hother : ∀ f ∈ MoneyJson.fields, f.name ≠ "scale" → ∀ s v s', f.into s v = some s' →
      s'.scale = s.scale := by
    intro f hf hname s v s' hinto
    obtain ⟨-, rfl⟩ | ⟨-, _, rfl⟩ | ⟨hscale, -⟩ := into_cases hf hinto
    · rfl
    · rfl
    · exact absurd hscale hname
  obtain ⟨hnone, -⟩ | ⟨v', hlast, f, hf, hname, s₀, s₁, hinto, hraw⟩ :=
    intoMembers_last "scale" MoneyJson.scale hother h
  · cases hnone.symm.trans hv
  · cases hlast.symm.trans hv
    obtain ⟨hamount, -⟩ | ⟨hcurrency, -⟩ | ⟨-, scale, rfl, hpointer⟩ := into_cases hf hinto
    · exact absurd (hname.symm.trans hamount) (by decide)
    · exact absurd (hname.symm.trans hcurrency) (by decide)
    · cases v with
      | null => exact .inl rfl
      | number l =>
        obtain ⟨n, hint, rfl⟩ := Option.map_eq_some_iff.1 hpointer
        dsimp only [intoInt] at hint
        split_ifs at hint with hl
        exact .inr ⟨l, rfl, hl.1, by rw [hraw, ← Option.some.inj hint]⟩
      | bool b | string s | array items | object members => cases hpointer

end Members

theorem unmarshal_accepted {data : Bytes} {m : Money}
    (h : Money.unmarshal cause written data = .ok m) :
    currencyPattern m.currency = true ∧ ∃ ms, valid (runes data) = some (.object ms) ∧
      (∃ amount, lastInto MoneyJson.fields "amount" ms = some (.string amount) ∧
        Denotes amount.toList m.amountMinor.toInt) ∧
      ∀ scale, lastInto MoneyJson.fields "scale" ms = some scale →
        scale = .null ∨ ∃ l : Literal, scale = .number l ∧ l.Integral ∧
          l.int = scaleFor m.currency := by
  unfold Money.unmarshal at h
  split at h
  · cases h
  · next d hd =>
    obtain ⟨raw, amount, hraw, hamount, hread, -, hpattern, hscale⟩ := unmarshalJSON_eq_ok.1 h
    cases d with
    | object ms =>
      refine ⟨hpattern, ms, hd, ⟨amount, ?_, hread⟩, ?_⟩
      · rw [← amount_eq_last hraw, hamount]
      · intro scale hlast
        obtain hnull | ⟨l, hl, hintegral, hint⟩ := scale_eq_last hraw hlast
        · exact .inl hnull
        · exact .inr ⟨l, hl, hintegral, hscale l.int hint⟩
    | null =>
      cases hraw
      cases hamount
    | bool b | number l | string s | array items => cases hraw

theorem unmarshal_overflow {data : Bytes} {ms : List (String × Json)} {amount : String} {n : ℤ}
    (hdata : valid (runes data) = some (.object ms))
    (hdecodes : (intoMembers MoneyJson.fields false ⟨none, "", none⟩ ms).isSome)
    (hamount : lastInto MoneyJson.fields "amount" ms = some (.string amount))
    (hread : Denotes amount.toList n) (hrange : ¬(-2 ^ 63 ≤ n ∧ n < 2 ^ 63)) :
    Money.unmarshal cause written data =
      .error (.errorf ("decode money amount " ++ quote amount) .moneyOverflow) := by
  obtain ⟨raw, hraw⟩ := Option.isSome_iff_exists.1 hdecodes
  have hstruct : intoStruct MoneyJson.fields false ⟨none, "", none⟩ (.object ms) = some raw := hraw
  have hparse : parseInt amount.toList = .error .range := by
    rw [parseInt_of_denotes hread, if_neg hrange]
  rw [← amount_eq_last hraw] at hamount
  simp only [Money.unmarshal, hdata, Money.unmarshalJSON, hstruct, hamount, hparse]

/-- A string without characters to escape. -/
def quoted (text : List Char) : List Char := '"' :: text ++ ['"']

def member (key : String) (value : List Char) : List Char := quoted key.toList ++ ':' :: value

def Money.scale (m : Money) : ℤ := scaleFor m.currency

def Money.marshalJSON (m : Money) : Except Error Bytes := do
  m.validate.mapError (Error.wrap "marshal money")
  let members := [member "amount" (quoted (itoa m.amountMinor.toInt)),
    member "currency" (quoted m.currency.toList), member "scale" (itoa m.scale)]
  .ok (utf8 ('{' :: [','].intercalate members ++ ['}']))

def Money.members (m : Money) : List (String × Json) :=
  [("amount", .string (.ofList (itoa m.amountMinor.toInt))), ("currency", .string m.currency),
    ("scale", .number ⟨decide (m.scale < 0), m.scale.natAbs, none, none⟩)]

theorem reads_itoa (n : ℤ) : Reads (itoa n) (.number ⟨decide (n < 0), n.natAbs, none, none⟩) := by
  have hformed : Parts.WellFormed ⟨decide (n < 0), Nat.toDigits 10 n.natAbs, none, none⟩ := by
    constructor
    · exact digits_toDigits n.natAbs
    · intro hzero
      rcases Nat.eq_zero_or_pos n.natAbs with h | h
      · dsimp only
        rw [h]
        rfl
      · exact absurd hzero (head_toDigits h)
    · exact fun _ h => nomatch h
  have hreads := reads_number hformed
  simpa [Parts.text, Parts.literal, Parts.fractionText, Parts.exponentText, natOf_toDigits, itoa]
    using hreads

theorem plain_itoa (n : ℤ) : Plain (itoa n) := by
  intro c hc
  have hsign : c = '-' ∨ c.isDigit = true := by
    unfold itoa at hc
    rcases List.mem_append.1 hc with hc | hc
    · split_ifs at hc
      · exact .inl (List.mem_singleton.1 hc)
      · cases hc
    · exact .inr ((digits_toDigits _).digits c hc)
  rcases hsign with rfl | hdigit
  · decide
  · have hlow : 48 ≤ c.toNat := (Char.isDigit_iff_toNat.1 hdigit).1
    refine ⟨?_, ?_, by omega⟩
    · rintro rfl
      exact absurd hdigit (by decide)
    · rintro rfl
      exact absurd hdigit (by decide)

theorem plain_currency {currency : String} (h : currencyPattern currency = true) :
    Plain currency.toList := by
  intro c hc
  have hletter := List.all_eq_true.1 (Bool.and_eq_true_iff.1 h).2 c hc
  have hlow : 0x41 ≤ c.toNat := of_decide_eq_true (Bool.and_eq_true_iff.1 hletter).1
  have hhigh : c.toNat ≤ 0x5A := of_decide_eq_true (Bool.and_eq_true_iff.1 hletter).2
  refine ⟨?_, ?_, by omega⟩
  · rintro rfl
    exact absurd hlow (by decide)
  · rintro rfl
    exact absurd hhigh (by decide)

theorem readsMember_quoted {key : String} {text : List Char} (hkey : Plain key.toList)
    (htext : Plain text) : ReadsMember (member key (quoted text)) (key, .string (.ofList text)) := by
  have hstring := readsString_plain hkey
  rw [String.ofList_toList] at hstring
  exact ⟨quoted key.toList, quoted text, rfl, hstring, reads_string (readsString_plain htext)⟩

theorem readsMember_itoa {key : String} (hkey : Plain key.toList) (n : ℤ) :
    ReadsMember (member key (itoa n))
      (key, .number ⟨decide (n < 0), n.natAbs, none, none⟩) := by
  have hstring := readsString_plain hkey
  rw [String.ofList_toList] at hstring
  exact ⟨quoted key.toList, itoa n, rfl, hstring, reads_itoa n⟩

theorem valid_object {parts : List (List Char)} {ms : List (String × Json)}
    (h : List.Forall₂ ReadsMember parts ms) (hflat : membersDepth ms = 0) :
    valid (runes (utf8 ('{' :: [','].intercalate parts ++ ['}']))) = some (.object ms) := by
  have hdepth : (Json.object ms).depth ≤ maxNestingDepth := by
    rw [depth, hflat]
    decide
  rw [valid, runes_utf8]
  exact Option.filter_eq_some_iff.2 ⟨(reads_object h).document, decide_eq_true hdepth⟩

theorem valid_marshalJSON {m : Money} (h : currencyPattern m.currency = true) :
    ∃ data, m.marshalJSON = .ok data ∧ valid (runes data) = some (.object m.members) := by
  have hamount := readsMember_quoted (by decide +kernel : Plain "amount".toList)
    (plain_itoa m.amountMinor.toInt)
  have hcurrency := readsMember_quoted (by decide +kernel : Plain "currency".toList)
    (plain_currency h)
  have hscale := readsMember_itoa (by decide +kernel : Plain "scale".toList) m.scale
  rw [String.ofList_toList] at hcurrency
  refine ⟨_, by rw [Money.marshalJSON, Money.validate, if_pos h]; rfl, ?_⟩
  exact valid_object (.cons hamount (.cons hcurrency (.cons hscale .nil))) rfl

theorem scaleFor_range (currency : String) : 0 ≤ scaleFor currency ∧ scaleFor currency ≤ 4 := by
  unfold scaleFor
  cases hlookup : currencyScale.lookup currency with
  | none => decide
  | some scale =>
    have hall : (currencyScale.all fun p => 0 ≤ p.2 ∧ p.2 ≤ 4) = true := by decide
    have hmem : (currency, scale) ∈ currencyScale := by
      obtain ⟨l₁, l₂, hsplit, -⟩ := List.lookup_eq_some_iff.1 hlookup
      rw [hsplit]
      simp
    exact of_decide_eq_true (List.all_eq_true.1 hall _ hmem)

theorem intoMembers_members (m : Money) :
    intoMembers MoneyJson.fields false ⟨none, "", none⟩ m.members =
      some ⟨some (.string (.ofList (itoa m.amountMinor.toInt))), m.currency, some m.scale⟩ := by
  obtain ⟨hlow, hhigh⟩ : 0 ≤ m.scale ∧ m.scale ≤ 4 := scaleFor_range m.currency
  have hint : Literal.int ⟨decide (m.scale < 0), m.scale.natAbs, none, none⟩ = m.scale := by
    simp only [Literal.int, decide_eq_true_eq]
    omega
  have hscale : intoInt (-2 ^ 63) (2 ^ 63 - 1) 0
      (.number ⟨decide (m.scale < 0), m.scale.natAbs, none, none⟩) = some m.scale := by
    rw [intoInt, if_pos ⟨⟨rfl, rfl⟩, by omega, by omega⟩, hint]
  have hpointer : intoPointer 0 (intoInt (-2 ^ 63) (2 ^ 63 - 1)) none
      (.number ⟨decide (m.scale < 0), m.scale.natAbs, none, none⟩) = some (some m.scale) := by
    change (intoInt _ _ 0 _).map some = _
    rw [hscale]
    rfl
  simpa [Money.members, intoMembers, intoMember, fieldOf, MoneyJson.fields, intoString]
    using hpointer

theorem unmarshal_marshalJSON {m : Money} (h : currencyPattern m.currency = true) :
    ∃ data, m.marshalJSON = .ok data ∧ Money.unmarshal cause written data = .ok m := by
  obtain ⟨data, hdata, hvalid⟩ := valid_marshalJSON h
  refine ⟨data, hdata, ?_⟩
  rw [Money.unmarshal, hvalid]
  refine unmarshalJSON_eq_ok.2 ⟨_, _, intoMembers_members m, rfl, ?_, rfl, h, ?_⟩
  · rw [String.toList_ofList]
    exact denotes_itoa _
  · rintro _ ⟨⟩
    rfl

end

/-- Every amount survives the wire; what is accepted is the integer that the amount's text denotes,
in the scale of its currency; and a decimal integer that does not fit is an overflow. -/
theorem money_survives_wire (cause : String) (written : Option Json → String) :
    (∀ amountMinor currency, currencyPattern currency = true →
      ∃ data, Money.marshalJSON ⟨amountMinor, currency⟩ = .ok data ∧
        Money.unmarshal cause written data = .ok ⟨amountMinor, currency⟩) ∧
    (∀ data m, Money.unmarshal cause written data = .ok m →
      (∃ ms, valid (runes data) = some (.object ms) ∧
        (∃ amount, lastInto MoneyJson.fields "amount" ms = some (.string amount) ∧
          Denotes amount.toList m.amountMinor.toInt) ∧
        ∀ scale, lastInto MoneyJson.fields "scale" ms = some scale →
          scale = .null ∨ ∃ l : Literal, scale = .number l ∧ l.Integral ∧
            l.int = scaleFor m.currency) ∧
      ∃ out, m.marshalJSON = .ok out ∧ Money.unmarshal cause written out = .ok m) ∧
    ∀ data ms amount n, valid (runes data) = some (.object ms) →
      (intoMembers MoneyJson.fields false ⟨none, "", none⟩ ms).isSome →
      lastInto MoneyJson.fields "amount" ms = some (.string amount) →
      Denotes amount.toList n → ¬(-2 ^ 63 ≤ n ∧ n < 2 ^ 63) →
      Money.unmarshal cause written data =
        .error (.errorf ("decode money amount " ++ quote amount) .moneyOverflow) := by
  refine ⟨?_, ?_, ?_⟩
  · intro amountMinor currency hpattern
    exact unmarshal_marshalJSON hpattern
  · intro data m h
    obtain ⟨hpattern, hwritten⟩ := unmarshal_accepted h
    exact ⟨hwritten, unmarshal_marshalJSON hpattern⟩
  · intro data ms amount n hdata hdecodes hamount hread hrange
    exact unmarshal_overflow hdata hdecodes hamount hread hrange

example : Money.marshalJSON ⟨1250, "INR"⟩ =
    .ok (utf8 "\x7b\"amount\":\"1250\",\"currency\":\"INR\",\"scale\":2\x7d".toList) := by
  decide +kernel

/-- The greatest amount, and the one after it. -/
theorem money_survives_wire_greatest :
    (∃ data, Money.marshalJSON ⟨Int64.maxValue, "KWD"⟩ = .ok data ∧
      Money.unmarshal "" (fun _ => "") data = .ok ⟨Int64.maxValue, "KWD"⟩) ∧
    Money.unmarshal "" (fun _ => "") (utf8 ('{' :: [','].intercalate
        [member "currency" (quoted "KWD".toList), member "amount" (quoted (itoa (2 ^ 63)))] ++
          ['}'])) =
      .error (.errorf "decode money amount \"9223372036854775808\"" .moneyOverflow) := by
  have hsurvives := money_survives_wire "" fun _ => ""
  constructor
  · exact hsurvives.1 _ _ (by decide)
  · have hcurrency := readsMember_quoted (by decide +kernel : Plain "currency".toList)
      (by decide +kernel : Plain "KWD".toList)
    have hamount := readsMember_quoted (by decide +kernel : Plain "amount".toList)
      (plain_itoa (2 ^ 63))
    have hvalid := valid_object (.cons hcurrency (.cons hamount .nil)) rfl
    have htext : "decode money amount " ++ quote (.ofList (itoa (2 ^ 63))) =
        "decode money amount \"9223372036854775808\"" := by decide +kernel
    rw [← htext]
    refine hsurvives.2.2 _ _ _ (2 ^ 63) hvalid ?_ ?_ ?_ (by decide)
    · simp [intoMembers, intoMember, fieldOf, MoneyJson.fields, intoString]
    · simp [lastInto, fieldOf, MoneyJson.fields]
    · rw [String.toList_ofList]
      exact denotes_itoa _

end LedgerCore.Ledger
