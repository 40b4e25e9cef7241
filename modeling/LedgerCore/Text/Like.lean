import Mathlib.Data.List.Infix
import Mathlib.Tactic.Common

/-! Patterns of SQL's `LIKE`: `%` stands for any text, `_` for any character, and a backslash
takes the next character as it is. -/
namespace LedgerCore.Text
variable {f s : List Char} {lower : Char → Char}

inductive Token where
  | any
  | one
  | char (c : Char)
  deriving DecidableEq, Repr

/-- A pattern as tokens; `none` when it ends in an escape. -/
def tokens : List Char → Option (List Token)
  | [] => some []
  | '%' :: p => (tokens p).map (.any :: ·)
  | '_' :: p => (tokens p).map (.one :: ·)
  | ['\\'] => none
  | '\\' :: c :: p => (tokens p).map (.char c :: ·)
  | c :: p => (tokens p).map (.char c :: ·)

def matchesTokens : List Token → List Char → Bool
  | [], s => s.isEmpty
  | .any :: ts, s => s.tails.any (matchesTokens ts)
  | .one :: _, [] => false
  | .one :: ts, _ :: s => matchesTokens ts s
  | .char _ :: _, [] => false
  | .char c :: ts, d :: s => c = d && matchesTokens ts s

/-- `s ILIKE pattern`: both sides in lower case, by the database's locale. A pattern that ends in
an escape is an error there. -/
def ilike (lower : Char → Char) (s pattern : List Char) : Bool :=
  match tokens (pattern.map lower) with
  | some ts => matchesTokens ts (s.map lower)
  | none => false

/-- A text that a search pattern finds: nothing for `%`, a letter for `_`, and the character
itself after a backslash; a last backslash takes the `%` that the search appends. -/
def found : List Char → List Char
  | [] => []
  | '%' :: p => found p
  | '_' :: p => 'x' :: found p
  | ['\\'] => ['%']
  | '\\' :: c :: p => c :: found p
  | c :: p => c :: found p

end LedgerCore.Text
