import Mathlib.Logic.Basic
import Mathlib.Tactic.Common

/-! Programs as trees of calls, and their runs against a handler of the calls. -/
namespace LedgerCore.Program

variable {C : Type} {R : C → Type} {ε α β σ : Type}

/-- A program makes calls `c : C`, each answered in `R c`, and ends with a value or an error. -/
inductive Prog {C : Type} (R : C → Type) (ε α : Type) where
  | pure (a : α)
  | fail (e : ε)
  | call (c : C) (k : R c → Prog R ε α)

/-- What a call does to the state it runs in: a reply and a next state, or an error. -/
abbrev Handler {C : Type} (R : C → Type) (ε σ : Type) := (c : C) → σ → Except ε (R c × σ)

variable {ε' : Type} {x : Except ε α}

theorem bind_eq_ok {f : α → Except ε β} {b : β} :
    x >>= f = .ok b ↔ ∃ a, x = .ok a ∧ f a = .ok b := by
  cases x <;> simp [Bind.bind, Except.bind]

theorem bind_eq_error {f : α → Except ε β} {e : ε} :
    x >>= f = .error e ↔ x = .error e ∨ ∃ a, x = .ok a ∧ f a = .error e := by
  cases x <;> simp [Bind.bind, Except.bind]

theorem map_eq_ok {f : α → β} {b : β} : x.map f = .ok b ↔ ∃ a, x = .ok a ∧ f a = b := by
  cases x <;> simp [Except.map]

theorem mapError_eq_ok {f : ε → ε'} {a : α} : x.mapError f = .ok a ↔ x = .ok a := by
  cases x <;> simp [Except.mapError]

theorem mapError_eq_error {f : ε → ε'} {e : ε'} :
    x.mapError f = .error e ↔ ∃ e₀, x = .error e₀ ∧ f e₀ = e := by
  cases x <;> simp [Except.mapError]

theorem map_bind_eq {γ : Type} {f : α → Except ε β} {g : β → γ} :
    (x >>= f).map g = x >>= fun a => (f a).map g := by
  cases x <;> rfl

theorem map_mapError {f : ε → ε'} {g : α → β} : (x.mapError f).map g = (x.map g).mapError f := by
  cases x <;> rfl

/-- `if c { return err }`. -/
def failIf (c : Prop) [Decidable c] (e : ε) : Except ε Unit := if c then .error e else .ok ()

theorem failIf_eq_ok {c : Prop} [Decidable c] {e : ε} {u : Unit} : failIf c e = .ok u ↔ ¬c := by
  unfold failIf
  split_ifs with h <;> simp [h]

theorem forM_eq_ok {f : α → Except ε Unit} {l : List α} {u : Unit} :
    l.forM f = .ok u ↔ ∀ a ∈ l, f a = .ok () := by
  induction l with
  | nil => simp [List.forM, pure, Except.pure]
  | cons a l ih =>
    change (f a >>= fun _ => l.forM f) = .ok u ↔ _
    rw [bind_eq_ok]
    simp only [List.mem_cons, forall_eq_or_imp, ih]
    exact ⟨fun ⟨_, h₁, h₂⟩ => ⟨h₁, h₂⟩, fun ⟨h₁, h₂⟩ => ⟨(), h₁, h₂⟩⟩

theorem foldlM_eq_ok {f : β → α → Except ε β} {l : List α} {b b' : β} (P : List α → β → Prop)
    (h : l.foldlM f b = .ok b') (h₀ : P [] b)
    (hstep : ∀ done a rest c c', l = done ++ a :: rest → P done c → f c a = .ok c' →
      P (done ++ [a]) c') : P l b' := by
  suffices H : ∀ rest done c, l = done ++ rest → P done c → rest.foldlM f c = .ok b' → P l b' from
    H l [] b rfl h₀ h
  intro rest
  induction rest with
  | nil =>
    intro done c hl hc h
    cases h
    simpa [hl] using hc
  | cons a rest ih =>
    intro done c hl hc h
    obtain ⟨c', hc', h⟩ := bind_eq_ok.1 h
    exact ih (done ++ [a]) c' (by simp [hl]) (hstep done a rest c c' hl hc hc') h

theorem mapM'_eq_ok {f : α → Except ε β} {l : List α} {g : α → β} {P : α → Prop}
    (hf : ∀ a b, f a = .ok b ↔ P a ∧ b = g a) {l' : List β} :
    l.mapM' f = .ok l' ↔ (∀ a ∈ l, P a) ∧ l' = l.map g := by
  induction l generalizing l' with
  | nil => simp [List.mapM', pure, Except.pure, eq_comm]
  | cons a l ih =>
    rw [List.mapM', bind_eq_ok]
    simp only [bind_eq_ok, ih, hf, List.forall_mem_cons, List.map_cons]
    constructor
    · rintro ⟨_, ⟨ha, rfl⟩, _, ⟨hl, rfl⟩, h⟩
      exact ⟨⟨ha, hl⟩, (Except.ok.inj h).symm⟩
    · rintro ⟨⟨ha, hl⟩, rfl⟩
      exact ⟨_, ⟨ha, rfl⟩, _, ⟨hl, rfl⟩, rfl⟩

/-- Every error that the result can be satisfies `P`. -/
def Raises (P : ε → Prop) (x : Except ε α) : Prop := ∀ e, x = .error e → P e

section Raises
variable {P : ε → Prop}

theorem raises_ok (a : α) : Raises P (.ok a) := fun _ h => nomatch h

theorem raises_error {e : ε} (h : P e) : Raises P (.error e : Except ε α) := by
  rintro _ ⟨⟩
  exact h

theorem Raises.bind {f : α → Except ε β} (hx : Raises P x)
    (hf : ∀ a, x = .ok a → Raises P (f a)) : Raises P (x >>= f) := by
  intro e he
  rcases bind_eq_error.1 he with he | ⟨a, ha, he⟩
  · exact hx e he
  · exact hf a ha e he

theorem Raises.map {f : α → β} (hx : Raises P x) : Raises P (x.map f) := by
  cases x with
  | error e => exact raises_error (hx e rfl)
  | ok a => exact raises_ok _

theorem raises_mapError {P : ε' → Prop} {f : ε → ε'} (h : Raises (fun e => P (f e)) x) :
    Raises P (x.mapError f) := by
  intro e he
  obtain ⟨e₀, he₀, rfl⟩ := mapError_eq_error.1 he
  exact h e₀ he₀

theorem raises_failIf {c : Prop} [Decidable c] {e : ε} (h : P e) : Raises P (failIf c e) := by
  unfold failIf
  split_ifs
  · exact raises_error h
  · exact raises_ok ()

theorem raises_forM {f : β → Except ε Unit} {l : List β} (h : ∀ b ∈ l, Raises P (f b)) :
    Raises P (l.forM f) := by
  induction l with
  | nil => exact raises_ok ()
  | cons b l ih =>
    exact (h b List.mem_cons_self).bind fun _ _ => ih fun c hc => h c (List.mem_cons_of_mem _ hc)

theorem raises_foldlM_mem {f : β → α → Except ε β} {l : List α}
    (h : ∀ b, ∀ a ∈ l, Raises P (f b a)) (b : β) : Raises P (l.foldlM f b) := by
  induction l generalizing b with
  | nil => exact raises_ok b
  | cons a l ih =>
    exact (h b a List.mem_cons_self).bind fun c _ =>
      ih (fun b a ha => h b a (List.mem_cons_of_mem _ ha)) c

theorem raises_foldlM {f : β → α → Except ε β} {l : List α} (h : ∀ b a, Raises P (f b a)) (b : β) :
    Raises P (l.foldlM f b) := raises_foldlM_mem (fun b a _ => h b a) b

end Raises

namespace Prog

def bind : Prog R ε α → (α → Prog R ε β) → Prog R ε β
  | .pure a, f => f a
  | .fail e, _ => .fail e
  | .call c k, f => .call c fun r => (k r).bind f

instance : Monad (Prog R ε) where
  pure := .pure
  bind := .bind

def perform (c : C) : Prog R ε (R c) := .call c .pure

def ofExcept : Except ε α → Prog R ε α
  | .ok a => .pure a
  | .error e => .fail e

/-- The first error ends the run; the state it was met in is dropped with it. -/
def run (h : Handler R ε σ) : Prog R ε α → σ → Except ε (α × σ)
  | .pure a, s => .ok (a, s)
  | .fail e, _ => .error e
  | .call c k, s =>
    match h c s with
    | .ok (r, s') => (k r).run h s'
    | .error e => .error e

/-- Every call the program can make satisfies `P`, whatever the replies. -/
def OnlyCalls (P : C → Prop) : Prog R ε α → Prop
  | .pure _ => True
  | .fail _ => True
  | .call c k => P c ∧ ∀ r, (k r).OnlyCalls P

theorem bind_assoc {γ : Type} (p : Prog R ε α) (f : α → Prog R ε β) (g : β → Prog R ε γ) :
    (p >>= f) >>= g = p >>= fun a => f a >>= g := by
  induction p with
  | pure a => rfl
  | fail e => rfl
  | call c k ih => exact congrArg (Prog.call c) (funext ih)

variable {p : Prog R ε α} {f : α → Prog R ε β}

section Run
variable {h : Handler R ε σ} {s : σ}

@[simp] theorem run_pure (a : α) : (Pure.pure a : Prog R ε α).run h s = .ok (a, s) := rfl

@[simp] theorem run_fail (e : ε) : (Prog.fail e : Prog R ε α).run h s = .error e := rfl

@[simp] theorem run_perform (c : C) : (perform c : Prog R ε (R c)).run h s = h c s := by
  simp only [perform, run]
  cases h c s <;> rfl

theorem run_ofExcept (x : Except ε α) :
    (ofExcept x : Prog R ε α).run h s = x.map fun a => (a, s) := by
  cases x <;> rfl

theorem run_bind (p : Prog R ε α) (f : α → Prog R ε β) :
    (p >>= f).run h s =
      match p.run h s with
      | .ok (a, s') => (f a).run h s'
      | .error e => .error e := by
  induction p generalizing s with
  | pure a => rfl
  | fail e => rfl
  | call c k ih =>
    change (Prog.call c fun r => (k r).bind f).run h s = _
    simp only [run]
    cases h c s with
    | error e => rfl
    | ok rs => exact ih rs.1

/-- A run of a sequence that ends well is a run of each part that ends well. -/
theorem run_bind_ok {b : β} {s'' : σ} :
    (p >>= f).run h s = .ok (b, s'') ↔
      ∃ a s', p.run h s = .ok (a, s') ∧ (f a).run h s' = .ok (b, s'') := by
  rw [run_bind]
  rcases p.run h s with e | ⟨a, s'⟩ <;> simp

theorem run_bind_error {e : ε} :
    (p >>= f).run h s = .error e ↔
      p.run h s = .error e ∨ ∃ a s', p.run h s = .ok (a, s') ∧ (f a).run h s' = .error e := by
  rw [run_bind]
  rcases p.run h s with e' | ⟨a, s'⟩ <;> simp

theorem run_ofExcept_bind_ok {b : β} {s' : σ} :
    (ofExcept x >>= f).run h s = .ok (b, s') ↔ ∃ a, x = .ok a ∧ (f a).run h s = .ok (b, s') := by
  cases x with
  | error e => simp [ofExcept, Bind.bind, Prog.bind]
  | ok a => simp [ofExcept, Bind.bind, Prog.bind]

theorem run_perform_bind_ok {c : C} {f : R c → Prog R ε β} {b : β} {s'' : σ} :
    (perform c >>= f).run h s = .ok (b, s'') ↔
      ∃ r s', h c s = .ok (r, s') ∧ (f r).run h s' = .ok (b, s'') := by
  rw [run_bind_ok, run_perform]

end Run

section OnlyCalls
variable {P Q : C → Prop}

theorem OnlyCalls.bind (hp : p.OnlyCalls P) (hf : ∀ a, (f a).OnlyCalls P) :
    (p >>= f).OnlyCalls P := by
  induction p with
  | pure a => exact hf a
  | fail e => trivial
  | call c k ih => exact ⟨hp.1, fun r => ih r (hp.2 r)⟩

theorem onlyCalls_pure (a : α) : (Pure.pure a : Prog R ε α).OnlyCalls P := trivial

theorem onlyCalls_perform {c : C} (hc : P c) : (perform c : Prog R ε (R c)).OnlyCalls P :=
  ⟨hc, fun _ => trivial⟩

theorem onlyCalls_ofExcept (x : Except ε α) : (ofExcept x : Prog R ε α).OnlyCalls P := by
  cases x <;> trivial

theorem OnlyCalls.mono (h : ∀ c, P c → Q c) (hp : p.OnlyCalls P) : p.OnlyCalls Q := by
  induction p with
  | pure a => trivial
  | fail e => trivial
  | call c k ih => exact ⟨h c hp.1, fun r => ih r (hp.2 r)⟩

theorem onlyCalls_true (p : Prog R ε α) : p.OnlyCalls fun _ => True := by
  induction p with
  | pure a => trivial
  | fail e => trivial
  | call c k ih => exact ⟨trivial, ih⟩

theorem onlyCalls_forM {f : β → Prog R ε Unit} {l : List β} (h : ∀ b ∈ l, (f b).OnlyCalls P) :
    (l.forM f).OnlyCalls P := by
  induction l with
  | nil => trivial
  | cons b l ih => exact (h b (by simp)).bind fun _ => ih fun c hc => h c (by simp [hc])

theorem onlyCalls_mapM' {f : β → Prog R ε α} {l : List β}
    (h : ∀ b ∈ l, (f b).OnlyCalls P) : (l.mapM' f).OnlyCalls P := by
  induction l with
  | nil => trivial
  | cons b l ih =>
    refine (h b List.mem_cons_self).bind fun _ => OnlyCalls.bind ?_ fun _ => onlyCalls_pure _
    exact ih fun b hb => h b (List.mem_cons_of_mem _ hb)

/-- What every admitted call of a program does to the state, up to reflexivity and transitivity,
the whole run does. -/
theorem run_of_onlyCalls {h : Handler R ε σ} {T : σ → σ → Prop} (hrefl : ∀ s, T s s)
    (htrans : ∀ {s s' s''}, T s s' → T s' s'' → T s s'')
    (hcall : ∀ {c s r s'}, P c → h c s = .ok (r, s') → T s s') (hp : p.OnlyCalls P) {s s' : σ}
    {a : α} (hrun : p.run h s = .ok (a, s')) : T s s' := by
  induction p generalizing s with
  | pure b =>
    cases hrun
    exact hrefl _
  | fail e => cases hrun
  | call c k ih =>
    simp only [run] at hrun
    split at hrun
    · next r s₁ hc => exact htrans (hcall hp.1 hc) (ih r (hp.2 r) hrun)
    · cases hrun

/-- A change of the state that every admitted call commutes with, the whole run commutes with. -/
theorem OnlyCalls.run_map {h : Handler R ε σ} {φ : σ → σ} (hp : p.OnlyCalls P)
    (hφ : ∀ c s, P c → h c (φ s) = (h c s).map fun x => (x.1, φ x.2)) (s : σ) :
    p.run h (φ s) = (p.run h s).map fun x => (x.1, φ x.2) := by
  induction p generalizing s with
  | pure a => rfl
  | fail e => rfl
  | call c k ih =>
    simp only [run]
    rw [hφ c s hp.1]
    cases h c s with
    | error e => rfl
    | ok x => exact ih x.1 (hp.2 x.1) x.2

end OnlyCalls

/-- Every call that the run from a state reaches satisfies `P` where it is made. -/
def Along (h : Handler R ε σ) (P : C → σ → Prop) : Prog R ε α → σ → Prop
  | .pure _, _ => True
  | .fail _, _ => True
  | .call c k, s => P c s ∧ ∀ r s', h c s = .ok (r, s') → (k r).Along h P s'

section Along
variable {h : Handler R ε σ} {P : C → σ → Prop} {s : σ}

theorem Along.bind (hp : p.Along h P s)
    (hf : ∀ a s', p.run h s = .ok (a, s') → (f a).Along h P s') : (p >>= f).Along h P s := by
  induction p generalizing s with
  | pure a => exact hf a s rfl
  | fail e => trivial
  | call c k ih =>
    refine ⟨hp.1, fun r s' hc => ih r (hp.2 r s' hc) fun a s'' hrun => hf a s'' ?_⟩
    rw [run, hc]
    exact hrun

theorem along_ofExcept_bind (hf : ∀ a, x = .ok a → (f a).Along h P s) :
    (ofExcept x >>= f).Along h P s := by
  cases x with
  | error e => trivial
  | ok a => exact hf a rfl

theorem along_perform_bind {c : C} {f : R c → Prog R ε β} (hc : P c s)
    (hf : ∀ r s', h c s = .ok (r, s') → (f r).Along h P s') : (perform c >>= f).Along h P s :=
  ⟨hc, hf⟩

theorem along_of_onlyCalls {Q : C → Prop} (hp : p.OnlyCalls Q) (hQ : ∀ c s, Q c → P c s) :
    p.Along h P s := by
  induction p generalizing s with
  | pure a => trivial
  | fail e => trivial
  | call c k ih => exact ⟨hQ c s hp.1, fun r _ _ => ih r (hp.2 r)⟩

end Along

/-- Every error that the program itself ends with satisfies `P`. -/
def OnlyFails (P : ε → Prop) : Prog R ε α → Prop
  | .pure _ => True
  | .fail e => P e
  | .call _ k => ∀ r, (k r).OnlyFails P

def Answered (h : Handler R ε σ) : Prog R ε α → σ → Prop
  | .pure _, _ => True
  | .fail _, _ => True
  | .call c k, s => ∃ r s', h c s = .ok (r, s') ∧ (k r).Answered h s'

theorem OnlyFails.bind {P : ε → Prop} (hp : p.OnlyFails P) (hf : ∀ a, (f a).OnlyFails P) :
    (p >>= f).OnlyFails P := by
  induction p with
  | pure a => exact hf a
  | fail e => exact hp
  | call c k ih => exact fun r => ih r (hp r)

theorem onlyFails_forM {P : ε → Prop} {f : β → Prog R ε Unit} {l : List β}
    (h : ∀ b ∈ l, (f b).OnlyFails P) : (l.forM f).OnlyFails P := by
  induction l with
  | nil => trivial
  | cons b l ih => exact (h b (by simp)).bind fun _ => ih fun c hc => h c (by simp [hc])

section Raises
variable {h : Handler R ε σ} {P : ε → Prop} {s : σ}

theorem raises_bind (hp : Raises P (p.run h s))
    (hf : ∀ a s', p.run h s = .ok (a, s') → Raises P ((f a).run h s')) :
    Raises P ((p >>= f).run h s) := by
  intro e he
  rcases run_bind_error.1 he with he | ⟨a, s', ha, he⟩
  · exact hp e he
  · exact hf a s' ha e he

theorem raises_ofExcept (hx : Raises P x) : Raises P ((ofExcept x : Prog R ε α).run h s) := by
  rw [run_ofExcept]
  exact hx.map

theorem raises_perform {c : C} (hc : Raises P (h c s)) :
    Raises P ((perform c : Prog R ε (R c)).run h s) := by
  rwa [run_perform]

theorem raises_forM {f : β → Prog R ε Unit} {l : List β}
    (hf : ∀ b ∈ l, ∀ s, Raises P ((f b).run h s)) : Raises P ((l.forM f).run h s) := by
  induction l generalizing s with
  | nil => exact raises_ok _
  | cons b l ih =>
    exact raises_bind (hf b List.mem_cons_self s) fun _ _ _ =>
      ih fun c hc => hf c (List.mem_cons_of_mem _ hc)

theorem raises_of_onlyCalls {Q : C → Prop} (hp : p.OnlyCalls Q) (hf : p.OnlyFails P)
    (hcall : ∀ c s, Q c → Raises P (h c s)) : Raises P (p.run h s) := by
  induction p generalizing s with
  | pure a => exact raises_ok _
  | fail e => exact raises_error hf
  | call c k ih =>
    simp only [run]
    split
    · next r s' _ => exact ih r (hp.2 r) (hf r)
    · next e he => exact raises_error (hcall c s hp.1 e he)

/-- A program whose calls are all answered has no errors but its own. -/
theorem raises_of_answered (hf : p.OnlyFails P) (ha : p.Answered h s) : Raises P (p.run h s) := by
  induction p generalizing s with
  | pure a => exact raises_ok _
  | fail e => exact raises_error hf
  | call c k ih =>
    obtain ⟨r, s', hc, ha⟩ := ha
    simp only [run, hc]
    exact ih r (hf r) ha

end Raises

end Prog

end LedgerCore.Program
