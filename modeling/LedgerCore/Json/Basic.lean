import Mathlib.Data.Rat.Floor

/-! JSON documents as `encoding/json` scans them: members in the order of the document, numbers as
they are written. A text is a list of Unicode scalars. -/
namespace LedgerCore

namespace Json

/-- A number as it is written. The fraction is its digits' count and value. -/
structure Literal where
  negative : Bool
  whole : ℕ
  fraction : Option (ℕ × ℕ)
  exponent : Option ℤ
  deriving DecidableEq, Repr

namespace Literal

def value (l : Literal) : ℚ :=
  let fraction : ℚ := match l.fraction with
    | some (count, digits) => digits / 10 ^ count
    | none => 0
  (if l.negative then -1 else 1) * (l.whole + fraction) * 10 ^ l.exponent.getD 0

/-- The literal has neither a fraction nor an exponent. -/
def Integral (l : Literal) : Prop := l.fraction = none ∧ l.exponent = none

instance (l : Literal) : Decidable l.Integral := inferInstanceAs (Decidable (_ ∧ _))

def int (l : Literal) : ℤ := if l.negative then -l.whole else l.whole

end Literal

end Json

inductive Json where
  | null
  | bool (b : Bool)
  | number (n : Json.Literal)
  | string (s : String)
  | array (items : List Json)
  | object (members : List (String × Json))

namespace Json

theorem induct {P : Json → Prop} (null : P .null) (bool : ∀ b, P (.bool b))
    (number : ∀ n, P (.number n)) (string : ∀ s, P (.string s))
    (array : ∀ items, (∀ v ∈ items, P v) → P (.array items))
    (object : ∀ members, (∀ m ∈ members, P m.2) → P (.object members)) (v : Json) : P v := by
  refine @Json.rec P (fun items => ∀ v ∈ items, P v) (fun members => ∀ m ∈ members, P m.2)
    (fun m => P m.2) null bool number string array object ?_ ?_ ?_ ?_ (fun _ _ h => h) v
  · exact fun _ h => nomatch h
  · exact fun v vs hv hvs => List.forall_mem_cons.2 ⟨hv, hvs⟩
  · exact fun _ h => nomatch h
  · exact fun m ms hm hms => List.forall_mem_cons.2 ⟨hm, hms⟩

def isSpace (c : Char) : Bool := c = ' ' || c = '\t' || c = '\n' || c = '\r'

def skipSpace (cs : List Char) : List Char := cs.dropWhile isSpace

def natOf (cs : List Char) : ℕ := Nat.ofDigitChars 10 cs 0

def hexValue (c : Char) : Option ℕ :=
  if '0' ≤ c ∧ c ≤ '9' then some (c.toNat - '0'.toNat)
  else if 'a' ≤ c ∧ c ≤ 'f' then some (c.toNat - 'a'.toNat + 10)
  else if 'A' ≤ c ∧ c ≤ 'F' then some (c.toNat - 'A'.toNat + 10)
  else none

def codeUnit (a b c d : Char) : Option ℕ := do
  let a ← hexValue a
  let b ← hexValue b
  let c ← hexValue c
  let d ← hexValue d
  pure (((a * 16 + b) * 16 + c) * 16 + d)

def replacement : Char := '\uFFFD'

/-- The scalar of one code unit; half of a pair is no scalar. -/
def unitChar (u : ℕ) : Char := if u.isValidChar then .ofNat u else replacement

/-- The scalar of two code units that are a surrogate pair. -/
def pairChar (high low : ℕ) : Option Char :=
  if 0xD800 ≤ high ∧ high < 0xDC00 ∧ 0xDC00 ≤ low ∧ low < 0xE000 then
    some (.ofNat (0x10000 + (high - 0xD800) * 0x400 + (low - 0xDC00)))
  else none

def escaped (c : Char) : Option Char :=
  [('"', '"'), ('\\', '\\'), ('/', '/'), ('b', '\x08'), ('f', '\x0C'), ('n', '\n'), ('r', '\r'),
    ('t', '\t')].lookup c

/-- The rest of a string, after its opening quote. -/
def scanString : List Char → Option (List Char × List Char)
  | [] => none
  | '"' :: cs => some ([], cs)
  | '\\' :: 'u' :: a :: b :: c :: d :: cs =>
    match codeUnit a b c d, cs with
    | none, _ => none
    | some u, '\\' :: 'u' :: a' :: b' :: c' :: d' :: cs' =>
      match (codeUnit a' b' c' d').bind (pairChar u) with
      | some x => (scanString cs').map fun (s, rest) => (x :: s, rest)
      | none =>
        (scanString ('\\' :: 'u' :: a' :: b' :: c' :: d' :: cs')).map fun (s, rest) =>
          (unitChar u :: s, rest)
    | some u, cs => (scanString cs).map fun (s, rest) => (unitChar u :: s, rest)
  | '\\' :: c :: cs => (escaped c).bind fun x =>
    (scanString cs).map fun (s, rest) => (x :: s, rest)
  | c :: cs => if c.toNat < 0x20 then none else (scanString cs).map fun (s, rest) => (c :: s, rest)

def scanDigits (cs : List Char) : Option (List Char × List Char) :=
  match cs.takeWhile Char.isDigit with
  | [] => none
  | ds => some (ds, cs.dropWhile Char.isDigit)

def scanFraction : List Char → Option (Option (ℕ × ℕ) × List Char)
  | '.' :: cs => (scanDigits cs).map fun (ds, rest) => (some (ds.length, natOf ds), rest)
  | cs => some (none, cs)

def scanExponent : List Char → Option (Option ℤ × List Char)
  | c :: cs =>
    if c = 'e' ∨ c = 'E' then
      match cs with
      | '-' :: cs => (scanDigits cs).map fun (ds, rest) => (some (-natOf ds), rest)
      | '+' :: cs => (scanDigits cs).map fun (ds, rest) => (some (natOf ds), rest)
      | cs => (scanDigits cs).map fun (ds, rest) => (some (natOf ds), rest)
    else some (none, c :: cs)
  | [] => some (none, [])

def scanNumber (cs : List Char) : Option (Literal × List Char) := do
  let (negative, cs) := match cs with
    | '-' :: cs => (true, cs)
    | cs => (false, cs)
  let (whole, cs) ← scanDigits cs
  if whole.head? = some '0' ∧ 1 < whole.length then none
  else do
    let (fraction, cs) ← scanFraction cs
    let (exponent, cs) ← scanExponent cs
    pure (⟨negative, natOf whole, fraction, exponent⟩, cs)

mutual

/-- A value and what follows it. No value nests deeper than its text is long. -/
def scanValue : ℕ → List Char → Option (Json × List Char)
  | 0, _ => none
  | fuel + 1, cs =>
    match skipSpace cs with
    | 'n' :: 'u' :: 'l' :: 'l' :: cs => some (.null, cs)
    | 't' :: 'r' :: 'u' :: 'e' :: cs => some (.bool true, cs)
    | 'f' :: 'a' :: 'l' :: 's' :: 'e' :: cs => some (.bool false, cs)
    | '"' :: cs => (scanString cs).map fun (s, rest) => (.string (.ofList s), rest)
    | '[' :: cs =>
      match skipSpace cs with
      | ']' :: cs => some (.array [], cs)
      | cs => (scanItems fuel cs).map fun (items, rest) => (.array items, rest)
    | '{' :: cs =>
      match skipSpace cs with
      | '}' :: cs => some (.object [], cs)
      | cs => (scanMembers fuel cs).map fun (members, rest) => (.object members, rest)
    | cs => (scanNumber cs).map fun (n, rest) => (.number n, rest)

def scanItems : ℕ → List Char → Option (List Json × List Char)
  | 0, _ => none
  | fuel + 1, cs => do
    let (v, cs) ← scanValue fuel cs
    match skipSpace cs with
    | ',' :: cs => do
      let (vs, cs) ← scanItems fuel cs
      pure (v :: vs, cs)
    | ']' :: cs => pure ([v], cs)
    | _ => none

def scanMembers : ℕ → List Char → Option (List (String × Json) × List Char)
  | 0, _ => none
  | fuel + 1, cs =>
    match skipSpace cs with
    | '"' :: cs => do
      let (key, cs) ← scanString cs
      match skipSpace cs with
      | ':' :: cs => do
        let (v, cs) ← scanValue fuel cs
        match skipSpace cs with
        | ',' :: cs => do
          let (ms, cs) ← scanMembers fuel cs
          pure ((.ofList key, v) :: ms, cs)
        | '}' :: cs => pure ([(.ofList key, v)], cs)
        | _ => none
      | _ => none
    | _ => none

end

def document (text : List Char) : Option Json := do
  let (v, rest) ← scanValue (text.length + 1) text
  if skipSpace rest = [] then some v else none

theorem document_eq_some {text : List Char} {d : Json} : document text = some d ↔
    ∃ rest, scanValue (text.length + 1) text = some (d, rest) ∧ skipSpace rest = [] := by
  unfold document
  rw [Option.bind_eq_bind, Option.bind_eq_some_iff]
  constructor
  · rintro ⟨⟨d', rest⟩, hscan, h⟩
    dsimp only at h
    split_ifs at h with hrest
    cases h
    exact ⟨rest, hscan, hrest⟩
  · rintro ⟨rest, hscan, hrest⟩
    exact ⟨(d, rest), hscan, if_pos hrest⟩

end Json

end LedgerCore
