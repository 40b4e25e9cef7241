import LedgerCore.Json.Basic

/-! Documents decoded into Go values as `json.Unmarshal` does it: over the value that is there, the
members of an object in the order of the document, each into the field whose name it has, or else
has in another case. The result is `none` where `Unmarshal` returns an error; what the error says is
left out. -/
namespace LedgerCore.Json

mutual

def depth : Json → ℕ
  | .array items => itemsDepth items + 1
  | .object members => membersDepth members + 1
  | _ => 0

def itemsDepth : List Json → ℕ
  | [] => 0
  | d :: ds => max (depth d) (itemsDepth ds)

def membersDepth : List (String × Json) → ℕ
  | [] => 0
  | (_, d) :: ms => max (depth d) (membersDepth ms)

end

def maxNestingDepth : ℕ := 10000

/-- `checkValid`: the text is one document, and does not nest too deep. -/
def valid (text : List Char) : Option Json :=
  (document text).filter fun d => d.depth ≤ maxNestingDepth

section Into
variable {α β γ σ : Type}

/-- A string; `null` is no change. -/
def intoString (s : String) : Json → Option String
  | .null => some s
  | .string s => some s
  | _ => none

/-- An integer type with the values from `low` to `high`; a fraction or an exponent is an error. -/
def intoInt (low high n : ℤ) : Json → Option ℤ
  | .null => some n
  | .number l => if l.Integral ∧ low ≤ l.int ∧ l.int ≤ high then some l.int else none
  | _ => none

def intoText (parse : String → Option α) (a : α) : Json → Option α
  | .null => some a
  | .string s => parse s
  | _ => none

/-- A pointer, to `zero` if it is set by the decoder. -/
def intoPointer (zero : α) (into : α → Json → Option α) (p : Option α) : Json → Option (Option α)
  | .null => some none
  | d => (into (p.getD zero) d).map some

/-- A slice, and what its array holds beyond its length. -/
structure Slice (α : Type) where
  elements : List α
  beyond : List α

/-- Every element is decoded over the one that is there. -/
def intoElements (zero : α) (into : α → Json → Option α) : List α → List Json → Option (List α)
  | _, [] => some []
  | old, d :: ds => do
    let a ← into (old.head?.getD zero) d
    let as ← intoElements zero into old.tail ds
    some (a :: as)

def intoSlice (zero : α) (into : α → Json → Option α) (s : Slice α) : Json → Option (Slice α)
  | .null | .array [] => some ⟨[], []⟩
  | .array ds =>
    let old := s.elements ++ s.beyond
    (intoElements zero into old ds).map fun as => ⟨as, old.drop ds.length⟩
  | _ => none

/-- The smallest character that differs from `c` in case only, if there is an ASCII one. -/
def foldRune (c : Char) : Char :=
  if c = '\u017F' then 'S' else if c = '\u212A' then 'K' else c.toUpper

def foldName (name : String) : List Char := name.toList.map foldRune

/-- A field: its name, and what a member makes of the struct. -/
structure Field (γ σ : Type) where
  name : String
  into : σ → γ → Option σ

/-- The field of a member: the one of its name, or else one of its name in another case. -/
def fieldOf (fields : List (Field γ σ)) (key : String) : Option (Field γ σ) :=
  (fields.find? fun f => f.name = key).or
    (fields.find? fun f => foldName f.name = foldName key)

/-- A member that has no field is an error if `strict`. -/
def intoMember (fields : List (Field γ σ)) (strict : Bool) (s : σ) (m : String × γ) : Option σ :=
  match fieldOf fields m.1 with
  | some f => f.into s m.2
  | none => if strict then none else some s

def intoMembers (fields : List (Field γ σ)) (strict : Bool) : σ → List (String × γ) → Option σ
  | s, [] => some s
  | s, m :: ms => (intoMember fields strict s m).bind fun s => intoMembers fields strict s ms

def intoStruct (fields : List (Field Json σ)) (strict : Bool) (s : σ) : Json → Option σ
  | .null => some s
  | .object ms => intoMembers fields strict s ms
  | _ => none

/-- The value of the last member that is read into the field `name`. -/
def lastInto (fields : List (Field γ σ)) (name : String) : List (String × γ) → Option γ
  | [] => none
  | m :: ms =>
    (lastInto fields name ms).or
      (if (fieldOf fields m.1).any fun f => f.name = name then some m.2 else none)

theorem fieldOf_mem {fields : List (Field γ σ)} {key : String} {f : Field γ σ}
    (h : fieldOf fields key = some f) : f ∈ fields := by
  rcases Option.or_eq_some_iff.1 h with h | ⟨-, h⟩
  · exact List.mem_of_find?_eq_some h
  · exact List.mem_of_find?_eq_some h

theorem intoMembers_last {fields : List (Field γ σ)} {strict : Bool} (name : String) (g : σ → β)
    (hother : ∀ f ∈ fields, f.name ≠ name → ∀ s v s', f.into s v = some s' → g s' = g s)
    {s s' : σ} {ms : List (String × γ)} (h : intoMembers fields strict s ms = some s') :
    (lastInto fields name ms = none ∧ g s' = g s) ∨
      ∃ v, lastInto fields name ms = some v ∧
        ∃ f ∈ fields, f.name = name ∧ ∃ s₀ s₁, f.into s₀ v = some s₁ ∧ g s' = g s₁ := by
  induction ms generalizing s with
  | nil =>
    rw [intoMembers] at h
    cases h
    exact .inl ⟨rfl, rfl⟩
  | cons m ms ih =>
    obtain ⟨s₁, hmember, hmembers⟩ := Option.bind_eq_some_iff.1 h
    rcases ih hmembers with ⟨hnone, hs'⟩ | ⟨v, hlast, hread⟩
    · rw [lastInto, hnone, Option.none_or, hs']
      unfold intoMember at hmember
      cases hfield : fieldOf fields m.1 with
      | none =>
        rw [hfield] at hmember
        cases strict with
        | true => cases hmember
        | false =>
          cases hmember
          exact .inl ⟨rfl, rfl⟩
      | some f =>
        rw [hfield] at hmember
        have hf := fieldOf_mem hfield
        by_cases hname : f.name = name
        · exact .inr ⟨m.2, by simp [hname], f, hf, hname, s, s₁, hmember, rfl⟩
        · exact .inl ⟨by simp [hname], hother f hf hname s m.2 s₁ hmember⟩
    · refine .inr ⟨v, ?_, hread⟩
      rw [lastInto, hlast, Option.some_or]

end Into

/-- The members of an object, each with the text of its value. -/
def scanFields : ℕ → List Char → Option (List (String × Json × List Char))
  | 0, _ => none
  | fuel + 1, cs =>
    match skipSpace cs with
    | '"' :: cs => do
      let (key, cs) ← scanString cs
      match skipSpace cs with
      | ':' :: cs => do
        let (v, rest) ← scanValue fuel cs
        let text := (skipSpace cs).take ((skipSpace cs).length - rest.length)
        match skipSpace rest with
        | ',' :: cs => do
          let ms ← scanFields fuel cs
          some ((.ofList key, v, text) :: ms)
        | '}' :: _ => some [(.ofList key, v, text)]
        | _ => none
      | _ => none
    | _ => none

def fieldsOf (text : List Char) : Option (List (String × Json × List Char)) :=
  match skipSpace text with
  | '{' :: cs =>
    match skipSpace cs with
    | '}' :: _ => some []
    | cs => scanFields text.length cs
  | _ => none

end LedgerCore.Json
