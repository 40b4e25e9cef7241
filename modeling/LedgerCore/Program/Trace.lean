import LedgerCore.Program.Basic

/-! The calls of a run, in order. -/
namespace LedgerCore.Program.Prog

variable {C : Type} {R : C → Type} {ε α β σ : Type}

/-- The calls that a run makes, each with the state it is made in. -/
def trace (h : Handler R ε σ) : Prog R ε α → σ → List (C × σ)
  | .pure _, _ => []
  | .fail _, _ => []
  | .call c k, s =>
    (c, s) :: match h c s with
      | .ok (r, s') => (k r).trace h s'
      | .error _ => []

/-- Some replies lead the program to make the call. -/
def Makes (c : C) : Prog R ε α → Prop
  | .pure _ => False
  | .fail _ => False
  | .call c' k => c' = c ∨ ∃ r, (k r).Makes c

section Rules
variable {h : Handler R ε σ} {P : C → Prop} {s : σ}

theorem OnlyCalls.of_makes {p : Prog R ε α} {c : C} (hp : p.OnlyCalls P) (hc : p.Makes c) : P c := by
  induction p with
  | pure a => exact hc.elim
  | fail e => exact hc.elim
  | call c' k ih =>
    rcases hc with rfl | ⟨r, hr⟩
    · exact hp.1
    · exact ih r (hp.2 r) hr

theorem OnlyCalls.of_mem_trace {p : Prog R ε α} {x : C × σ} (hp : p.OnlyCalls P)
    (hx : x ∈ p.trace h s) : P x.1 := by
  induction p generalizing s with
  | pure a => cases hx
  | fail e => cases hx
  | call c k ih =>
    simp only [trace, List.mem_cons] at hx
    rcases hx with rfl | hx
    · exact hp.1
    · split at hx
      · next r s' _ => exact ih r (hp.2 r) hx
      · cases hx

theorem trace_bind (p : Prog R ε α) (f : α → Prog R ε β) :
    (p >>= f).trace h s = p.trace h s ++
      match p.run h s with
      | .ok (a, s') => (f a).trace h s'
      | .error _ => [] := by
  induction p generalizing s with
  | pure a => rfl
  | fail e => rfl
  | call c k ih =>
    change (Prog.call c fun r => (k r).bind f).trace h s = _
    simp only [trace, run, List.cons_append]
    congr 1
    cases h c s with
    | error e => rfl
    | ok rs => exact ih rs.1

theorem trace_perform_bind (c : C) (f : R c → Prog R ε β) :
    (perform c >>= f).trace h s = (c, s) ::
      match h c s with
      | .ok (r, s') => (f r).trace h s'
      | .error _ => [] := by
  change (Prog.call c f).trace h s = _
  rw [trace]

theorem trace_ofExcept_bind (x : Except ε α) (f : α → Prog R ε β) :
    (ofExcept x >>= f).trace h s =
      match x with
      | .ok a => (f a).trace h s
      | .error _ => [] := by
  cases x <;> rfl

end Rules

end LedgerCore.Program.Prog
