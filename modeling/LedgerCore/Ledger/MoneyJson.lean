import LedgerCore.Json.Struct
import LedgerCore.Ledger.Money
import LedgerCore.Program.Basic

/-! Amounts on the wire: the minor units are a string, and a scale that is given must be the
currency's. -/
namespace LedgerCore.Ledger
open LedgerCore.Program LedgerCore.Json

inductive NumError where
  | malformed
  | range
  deriving DecidableEq, Repr

/-- The loop of `strconv.ParseUint(s, 10, 64)`, over the number read so far. It stops where that does
not fit any more. -/
def parseUint : ℕ → List Char → Except NumError ℕ
  | n, [] => .ok n
  | n, c :: cs =>
    if !c.isDigit then .error .malformed
    else if 2 ^ 64 ≤ 10 * n + (c.toNat - '0'.toNat) then .error .range
    else parseUint (10 * n + (c.toNat - '0'.toNat)) cs

/-- What `strconv.ParseInt` does after the sign. -/
def parseDigits (negative : Bool) (digits : List Char) : Except NumError Int64 :=
  if digits = [] then .error .malformed
  else do
    let magnitude ← parseUint 0 digits
    let n : ℤ := if negative then -magnitude else magnitude
    if -2 ^ 63 ≤ n ∧ n < 2 ^ 63 then .ok (.ofInt n) else .error .range

/-- `strconv.ParseInt(s, 10, 64)` -/
def parseInt : List Char → Except NumError Int64
  | '+' :: digits => parseDigits false digits
  | '-' :: digits => parseDigits true digits
  | digits => parseDigits false digits

def defaultScale : ℤ := 2

/-- The currencies whose ISO-4217 exponent is another one. -/
def currencyScale : List (String × ℤ) :=
  [("BIF", 0), ("CLP", 0), ("DJF", 0), ("GNF", 0), ("ISK", 0), ("JPY", 0), ("KMF", 0), ("KRW", 0),
    ("PYG", 0), ("RWF", 0), ("UGX", 0), ("UYI", 0), ("VND", 0), ("VUV", 0), ("XAF", 0), ("XOF", 0),
    ("XPF", 0), ("BHD", 3), ("IQD", 3), ("JOD", 3), ("KWD", 3), ("LYD", 3), ("OMR", 3), ("TND", 3),
    ("CLF", 4), ("UYW", 4)]

def scaleFor (currency : String) : ℤ := (currencyScale.lookup currency).getD defaultScale

structure MoneyJson where
  amount : Option Json
  currency : String
  scale : Option ℤ

def MoneyJson.fields : List (Field Json MoneyJson) :=
  [⟨"amount", fun raw d => some { raw with amount := some d }⟩,
    ⟨"currency", fun raw d => (intoString raw.currency d).map fun currency => { raw with currency }⟩,
    ⟨"scale", fun raw d => (intoPointer 0 (intoInt (-2 ^ 63) (2 ^ 63 - 1)) raw.scale d).map
      fun scale => { raw with scale }⟩]

/-- `Money.UnmarshalJSON`. The texts are those of `encoding/json`'s error and of the amount as it is
written. -/
def Money.unmarshalJSON (cause : String) (written : Option Json → String) (d : Json) :
    Except Error Money :=
  match intoStruct MoneyJson.fields false ⟨none, "", none⟩ d with
  | none => .error ⟨[], "decode money: " ++ cause⟩
  | some raw =>
    match raw.amount with
    | some (.string amount) =>
      match parseInt amount.toList with
      | .error .range => .error (.errorf ("decode money amount " ++ quote amount) .moneyOverflow)
      | .error .malformed => .error (.errorf ("decode money amount " ++ quote amount) .invalidEntry)
      | .ok amountMinor => do
        let decoded ← (newMoney amountMinor raw.currency).mapError (Error.wrap "decode money")
        match raw.scale with
        | some scale =>
          if scale ≠ scaleFor decoded.currency then
            .error (.errorf ("decode money: scale " ++ toString scale ++ " for " ++ decoded.currency ++
              ", expected " ++ toString (scaleFor decoded.currency)) .scaleMismatch)
          else .ok decoded
        | none => .ok decoded
    | amount =>
      .error (.errorf ("decode money: amount must be a JSON string in minor units, got " ++
        written amount) .invalidEntry)

def intoMoney (_ : Money) (d : Json) : Option Money :=
  (Money.unmarshalJSON "" (fun _ => "") d).toOption

end LedgerCore.Ledger
