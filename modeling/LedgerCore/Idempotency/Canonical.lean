import LedgerCore.Base
import LedgerCore.Json.Value
import LedgerCore.Program.Basic

/-! Canonical request bodies, and what is digested into a fingerprint. A body is the text that Go
reads in its bytes, where a byte that is no UTF-8 counts as U+FFFD. -/
namespace LedgerCore.Idempotency
open LedgerCore.Program LedgerCore.Json

def writeRune (r : Char) : List Char :=
  match r with
  | '"' => ['\\', '"']
  | '\\' => ['\\', '\\']
  | '\x08' => ['\\', 'b']
  | '\x0C' => ['\\', 'f']
  | '\n' => ['\\', 'n']
  | '\r' => ['\\', 'r']
  | '\t' => ['\\', 't']
  | r =>
    if r.toNat < 0x20 then
      ['\\', 'u', '0', '0', Nat.digitChar (r.toNat / 16), Nat.digitChar (r.toNat % 16)]
    else [r]

def writeString (s : String) : List Char := '"' :: s.toList.flatMap writeRune ++ ['"']

def itoa (n : ℤ) : List Char :=
  (if n < 0 then ['-'] else []) ++ Nat.toDigits 10 n.natAbs

/-- The four forms of ECMAScript's `Number::toString`; `n` is the place of the decimal point,
counted from the start of the digits. -/
def placePoint (digits : List Char) (n : ℤ) : List Char :=
  let k : ℤ := digits.length
  if k ≤ n ∧ n ≤ 21 then digits ++ List.replicate (n - k).toNat '0'
  else if 0 < n ∧ n ≤ 21 then digits.take n.toNat ++ '.' :: digits.drop n.toNat
  else if -6 < n ∧ n ≤ 0 then '0' :: '.' :: (List.replicate (-n).toNat '0' ++ digits)
  else
    digits.take 1 ++ ((if 1 < k then '.' :: digits.drop 1 else []) ++
      'e' :: ((if 0 ≤ n - 1 then ['+'] else []) ++ itoa (n - 1)))

/-- Both zeroes are written as one. -/
def numberText (f : ℚ) : List Char :=
  if f = 0 then ['0']
  else
    let (d, x) := shortest |f|
    let digits := Nat.toDigits 10 d
    (if f < 0 then ['-'] else []) ++ placePoint digits (digits.length + x)

def writeNumber (number : Literal) : Except Error (List Char) :=
  match binary64 number.value with
  | none => .error (.errorf "canonicalize number" .malformedBody)
  | some f => .ok (numberText f)

def sequence {ε α : Type} : List (Except ε α) → Except ε (List α)
  | [] => .ok []
  | x :: xs => do
    let a ← x
    let as ← sequence xs
    .ok (a :: as)

def writeList (opening : Char) (parts : List (List Char)) (closing : Char) : List Char :=
  opening :: [','].intercalate parts ++ [closing]

def writeMember (key : String) (text : List Char) : List Char := writeString key ++ ':' :: text

mutual

def writeValue : Json → Except Error (List Char)
  | .null => .ok ['n', 'u', 'l', 'l']
  | .bool true => .ok ['t', 'r', 'u', 'e']
  | .bool false => .ok ['f', 'a', 'l', 's', 'e']
  | .string s => .ok (writeString s)
  | .number n => writeNumber n
  | .array items => do
    let parts ← sequence (writeItems items)
    .ok (writeList '[' parts ']')
  -- `writeObject`
  | .object members => do
    let parts ← sequence ((sortMembers (writeMembers members)).map fun m => m.2.map (writeMember m.1))
    .ok (writeList '{' parts '}')

def writeItems : List Json → List (Except Error (List Char))
  | [] => []
  | d :: ds => writeValue d :: writeItems ds

def writeMembers : List (String × Json) → List (String × Except Error (List Char))
  | [] => []
  | (key, d) :: ms => (key, writeValue d) :: writeMembers ms

end

/-- The white space that `bytes.TrimSpace` cuts off. -/
def isSpace (c : Char) : Bool :=
  c ∈ ['\t', '\n', '\x0B', '\x0C', '\r', ' ', '\u0085', '\u00A0',
    '\u1680', '\u2028', '\u2029', '\u202F', '\u205F', '\u3000'] || '\u2000' ≤ c && c ≤ '\u200A'

def parseValue (raw : List Char) : Except Error (Json × List Char) :=
  match scanValue (raw.length + 1) raw with
  | none => .error (.errorf "canonicalize" .malformedBody)
  | some (d, rest) =>
    match d.duplicate with
    | some key =>
      .error (.errorf ("canonicalize: duplicate object key " ++ quote key) .malformedBody)
    | none => .ok (d, rest)

def canonicalize (raw : List Char) : Except Error (List Char) :=
  if raw.all isSpace then .ok []
  else do
    let (d, rest) ← parseValue raw
    if skipSpace rest = [] then writeValue d
    else
      .error (.errorf "canonicalize: trailing content after the top-level JSON value" .malformedBody)

def utf8 (text : List Char) : Bytes := (String.ofList text).toByteArray.data.toList

def fingerprintInput (method route : String) (canonical : List Char) : Bytes :=
  utf8 (method.toList ++ '\n' :: (route.toList ++ '\n' :: canonical))

def fingerprintOf (sha256 : Bytes → Bytes) (method route : String) (body : List Char) :
    Except Error Bytes := do
  let canonical ← canonicalize body
  .ok (sha256 (fingerprintInput method route canonical))

mutual

def render : Value → List Char
  | .null => ['n', 'u', 'l', 'l']
  | .bool true => ['t', 'r', 'u', 'e']
  | .bool false => ['f', 'a', 'l', 's', 'e']
  | .string s => writeString s
  | .number f => numberText f
  | .array items => writeList '[' (renderItems items) ']'
  | .object members => writeList '{' (renderMembers members) '}'

def renderItems : List Value → List (List Char)
  | [] => []
  | v :: vs => render v :: renderItems vs

def renderMembers : List (String × Value) → List (List Char)
  | [] => []
  | (key, v) :: ms => writeMember key (render v) :: renderMembers ms

end

theorem renderItems_eq (vs : List Value) : renderItems vs = vs.map render := by
  induction vs with
  | nil => rfl
  | cons v vs ih => rw [renderItems, ih, List.map_cons]

theorem renderMembers_eq (ms : List (String × Value)) :
    renderMembers ms = ms.map fun m => writeMember m.1 (render m.2) := by
  induction ms with
  | nil => rfl
  | cons m ms ih => rw [renderMembers, ih, List.map_cons]

theorem writeItems_eq (ds : List Json) : writeItems ds = ds.map writeValue := by
  induction ds with
  | nil => rfl
  | cons d ds ih => rw [writeItems, ih, List.map_cons]

theorem writeMembers_eq (ms : List (String × Json)) :
    writeMembers ms = ms.map fun m => (m.1, writeValue m.2) := by
  induction ms with
  | nil => rfl
  | cons m ms ih => rw [writeMembers, ih, List.map_cons]

theorem sequence_eq_ok {ε α : Type} {xs : List (Except ε α)} {as : List α} :
    sequence xs = .ok as ↔ xs = as.map .ok := by
  induction xs generalizing as with
  | nil => cases as <;> simp [sequence]
  | cons x xs ih =>
    cases x with
    | error e => cases as <;> simp [sequence, bind, Except.bind]
    | ok a =>
      cases hxs : sequence xs with
      | error e =>
        cases as with
        | nil => simp [sequence, hxs, bind, Except.bind]
        | cons b bs =>
          have hne : xs ≠ bs.map .ok := fun h => by cases hxs.symm.trans (ih.2 h)
          simp [sequence, hxs, bind, Except.bind, hne]
      | ok bs =>
        cases as with
        | nil => simp [sequence, hxs, bind, Except.bind]
        | cons b bs' => simp [sequence, hxs, bind, Except.bind, ← ih]

/-- A document that has a value is written as the value's canonical text. -/
theorem writeValue_of_value {d : Json} :
    d.duplicate = none → ∀ v : Value, d.value = some v → writeValue d = .ok (render v) := by
  induction d using Json.induct with
  | null =>
    intro _ v h
    cases h
    rfl
  | bool b =>
    intro _ v h
    cases h
    cases b <;> rfl
  | string s =>
    intro _ v h
    cases h
    rfl
  | number n =>
    intro _ v h
    obtain ⟨f, hf, rfl⟩ := Option.map_eq_some_iff.1 h
    rw [writeValue, writeNumber, hf]
    rfl
  | array items ih =>
    intro hd v h
    obtain ⟨vs, hvs, rfl⟩ := Option.map_eq_some_iff.1 h
    have hall := (List.forall₂_and_left _ _).2
      ⟨fun d hmem => ih d hmem (duplicateItem_eq_none.1 hd d hmem), values_eq_some.1 hvs⟩
    have hparts : writeItems items = (renderItems vs).map .ok := by
      rw [writeItems_eq, renderItems_eq, List.map_map]
      exact map_eq_of_forall₂ (hall.imp fun d v hdv => hdv.1 v hdv.2)
    rw [writeValue, sequence_eq_ok.2 hparts]
    rfl
  | object members ih =>
    intro hd v h
    obtain ⟨vs, hvs, rfl⟩ := Option.map_eq_some_iff.1 h
    obtain ⟨-, hkeys, hdistinct⟩ := duplicateMember_eq_none.1 hd
    have hall := (List.forall₂_and_left _ _).2
      ⟨fun m hmem => ih m hmem (hdistinct m hmem), memberValues_eq_some.1 hvs⟩
    have hmembers : writeMembers members = vs.map fun m => (m.1, .ok (render m.2)) := by
      rw [writeMembers_eq]
      exact map_eq_of_forall₂ (hall.imp fun m v hmv => by rw [hmv.2.1, hmv.1 _ hmv.2.2])
    have hparts : ((sortMembers (writeMembers members)).map fun m => m.2.map (writeMember m.1)) =
        (renderMembers (sortMembers vs)).map .ok := by
      rw [hmembers, sortMembers_map fun v => Except.ok (render v), renderMembers_eq,
        List.map_map, List.map_map]
      rfl
    rw [writeValue, sequence_eq_ok.2 hparts, keepLast_eq_self (keys_of_memberValues hvs hkeys)]
    rfl

theorem exists_value_of_writeValue {d : Json} :
    ∀ {text : List Char}, writeValue d = .ok text → ∃ v, d.value = some v := by
  induction d using Json.induct with
  | null | bool | string => exact fun _ => ⟨_, rfl⟩
  | number n =>
    intro text h
    rw [writeValue, writeNumber] at h
    split at h
    · cases h
    · next f hf => exact ⟨.number f, by rw [value, hf]; rfl⟩
  | array items ih =>
    intro text h
    obtain ⟨parts, hparts, -⟩ := bind_eq_ok.1 h
    rw [sequence_eq_ok, writeItems_eq] at hparts
    have hall : ∀ d ∈ items, ∃ v, d.value = some v := by
      intro d hmem
      obtain ⟨text, -, htext⟩ := List.mem_map.1 (hparts ▸ List.mem_map_of_mem hmem)
      exact ih d hmem htext.symm
    obtain ⟨vs, hvs⟩ := exists_values hall
    exact ⟨.array vs, by rw [value, hvs]; rfl⟩
  | object members ih =>
    intro text h
    obtain ⟨parts, hparts, -⟩ := bind_eq_ok.1 h
    rw [sequence_eq_ok, writeMembers_eq] at hparts
    have hall : ∀ m ∈ members, ∃ v, m.2.value = some v := by
      intro m hmem
      have hsorted : (m.1, writeValue m.2) ∈
          sortMembers (members.map fun m => (m.1, writeValue m.2)) :=
        sortMembers_perm.symm.subset (List.mem_map_of_mem hmem)
      obtain ⟨part, -, hpart⟩ := List.mem_map.1 (hparts ▸ List.mem_map_of_mem hsorted)
      obtain ⟨text, htext, -⟩ := map_eq_ok.1 hpart.symm
      exact ih m hmem htext
    obtain ⟨vs, hvs⟩ := exists_memberValues hall
    exact ⟨.object (sortMembers (keepLast vs)), by rw [value, hvs]; rfl⟩

end LedgerCore.Idempotency
