import LedgerCore.Program.Basic

/-! Two runs side by side: they end with the same value or the same error, in states that are
related. -/
namespace LedgerCore.Program

variable {C : Type} {R : C → Type} {ε α β σ τ : Type}

/-- Two results that differ in their states at most, and there only as `T` says. -/
inductive Alike (T : σ → τ → Prop) : Except ε (α × σ) → Except ε (α × τ) → Prop
  | ok {a : α} {s : σ} {t : τ} (h : T s t) : Alike T (.ok (a, s)) (.ok (a, t))
  | error (e : ε) : Alike T (.error e) (.error e)

theorem map_eq_map {f : α → β} {x y : Except ε α} (h : x.map f = y.map f) :
    (∃ e, x = .error e ∧ y = .error e) ∨ ∃ a b, x = .ok a ∧ y = .ok b ∧ f a = f b := by
  cases x with
  | error e =>
    cases y with
    | error e' =>
      cases h
      exact .inl ⟨e, rfl, rfl⟩
    | ok b => cases h
  | ok a =>
    cases y with
    | error e' => cases h
    | ok b => exact .inr ⟨a, b, rfl, rfl, Except.ok.inj h⟩

theorem exists_of_isOk {x : Except ε α} (h : x.isOk = true) : ∃ a, x = .ok a := by
  cases x with
  | error e => cases h
  | ok a => exact ⟨a, rfl⟩

namespace Prog
variable {T : σ → τ → Prop} {h : Handler R ε σ} {h' : Handler R ε τ} {s : σ} {t : τ}

theorem alike_bind {p p' : Prog R ε α} {f f' : α → Prog R ε β}
    (hp : Alike T (p.run h s) (p'.run h' t))
    (hf : ∀ a s t, T s t → Alike T ((f a).run h s) ((f' a).run h' t)) :
    Alike T ((p >>= f).run h s) ((p' >>= f').run h' t) := by
  rw [run_bind, run_bind]
  generalize p.run h s = x at hp
  generalize p'.run h' t = y at hp
  cases hp with
  | ok hst => exact hf _ _ _ hst
  | error e => exact .error e

theorem alike_ofExcept (hst : T s t) (x : Except ε α) :
    Alike T ((ofExcept x : Prog R ε α).run h s) ((ofExcept x : Prog R ε α).run h' t) := by
  cases x with
  | ok a => exact .ok hst
  | error e => exact .error e

theorem alike_mapM' {f f' : β → Prog R ε α} {l : List β} (hst : T s t)
    (hf : ∀ b ∈ l, ∀ s t, T s t → Alike T ((f b).run h s) ((f' b).run h' t)) :
    Alike T ((l.mapM' f).run h s) ((l.mapM' f').run h' t) := by
  induction l generalizing s t with
  | nil => exact .ok hst
  | cons b l ih =>
    refine alike_bind (hf b List.mem_cons_self s t hst) fun a s t hst => ?_
    refine alike_bind (ih hst fun c hc => hf c (List.mem_cons_of_mem b hc)) fun as s t hst => ?_
    exact .ok hst

end Prog

end LedgerCore.Program
