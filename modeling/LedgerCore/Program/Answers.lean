import LedgerCore.Program.Basic

/-! Runs of a program whose calls are all answered. Unlike a database transaction, a run that ends
in an error keeps what it did before. -/
namespace LedgerCore.Program

variable {C : Type} {R : C → Type} {ε α β σ : Type}

/-- An answer to every call, and the state the call leaves. -/
abbrev Answers {C : Type} (R : C → Type) (σ : Type) := (c : C) → σ → R c × σ

namespace Prog
variable {h : Answers R σ} {T : σ → σ → Prop} {s : σ}

def leave (h : Answers R σ) : Prog R ε α → σ → σ
  | .pure _, s => s
  | .fail _, s => s
  | .call c k, s => (k (h c s).1).leave h (h c s).2

/-- What a run ends with, and the state at its end. -/
def finish (h : Answers R σ) : Prog R ε α → σ → Except ε α × σ
  | .pure a, s => (.ok a, s)
  | .fail e, s => (.error e, s)
  | .call c k, s => (k (h c s).1).finish h (h c s).2

/-- The value of a program that cannot fail, as the replies to its calls have it. -/
def value (reply : (c : C) → R c) : Prog R Empty α → α
  | .pure a => a
  | .fail e => e.elim
  | .call c k => (k (reply c)).value reply

theorem value_congr {reply reply' : (c : C) → R c} {P : C → Prop} {p : Prog R Empty α}
    (hp : p.OnlyCalls P) (h : ∀ c, P c → reply c = reply' c) : p.value reply = p.value reply' := by
  induction p with
  | pure a => rfl
  | fail e => exact e.elim
  | call c k ih =>
    rw [value, value, ← h c hp.1]
    exact ih _ (hp.2 _)

theorem value_perform_bind (reply : (c : C) → R c) (c : C) (f : R c → Prog R Empty α) :
    (perform c >>= f).value reply = (f (reply c)).value reply := rfl

/-- Every call of the run changes the state as `T` says, and the run ends with a value and a
state in `post`, or with an error and a state in `abort`. -/
def Course (h : Answers R σ) (T : σ → σ → Prop) (post : α → σ → Prop) (abort : ε → σ → Prop) :
    Prog R ε α → σ → Prop
  | .pure a, s => post a s
  | .fail e, s => abort e s
  | .call c k, s => T s (h c s).2 ∧ (k (h c s).1).Course h T post abort (h c s).2

/-- Every call of the run changes the state as `T` says. -/
def Throughout (h : Answers R σ) (T : σ → σ → Prop) (p : Prog R ε α) (s : σ) : Prop :=
  p.Course h T (fun _ _ => True) (fun _ _ => True) s

section Rules
variable {post : α → σ → Prop} {abort : ε → σ → Prop}

theorem course_bind {p : Prog R ε α} {f : α → Prog R ε β} {post : β → σ → Prop} :
    (p >>= f).Course h T post abort s ↔
      p.Course h T (fun a => (f a).Course h T post abort) abort s := by
  induction p generalizing s with
  | pure a => exact .rfl
  | fail e => exact .rfl
  | call c k ih => exact and_congr_right fun _ => ih (h c s).1

theorem course_perform {c : C} {post : R c → σ → Prop} :
    (perform c : Prog R ε (R c)).Course h T post abort s ↔
      T s (h c s).2 ∧ post (h c s).1 (h c s).2 := .rfl

theorem Course.mono {p : Prog R ε α} {post' : α → σ → Prop} {abort' : ε → σ → Prop}
    (hp : p.Course h T post abort s) (hpost : ∀ a s, post a s → post' a s)
    (habort : ∀ e s, abort e s → abort' e s) : p.Course h T post' abort' s := by
  induction p generalizing s with
  | pure a => exact hpost a s hp
  | fail e => exact habort e s hp
  | call c k ih => exact ⟨hp.1, ih (h c s).1 hp.2⟩

theorem Course.leave {p : Prog R ε α} {Q : σ → Prop}
    (hp : p.Course h T (fun _ => Q) (fun _ => Q) s) : Q (p.leave h s) := by
  induction p generalizing s with
  | pure a => exact hp
  | fail e => exact hp
  | call c k ih => exact ih (h c s).1 hp.2

theorem Course.finish {p : Prog R ε α} {a : α} {s' : σ} (hp : p.Course h T post abort s)
    (hfinish : p.finish h s = (.ok a, s')) : post a s' := by
  induction p generalizing s with
  | pure b =>
    obtain ⟨ha, rfl⟩ := Prod.mk.inj hfinish
    exact Except.ok.inj ha ▸ hp
  | fail e => cases (Prod.mk.inj hfinish).1
  | call c k ih => exact ih (h c s).1 hp.2 hfinish

theorem Course.throughout {p : Prog R ε α} (hp : p.Course h T post abort s) :
    p.Throughout h T s :=
  hp.mono (fun _ _ _ => trivial) fun _ _ _ => trivial

end Rules
end Prog

end LedgerCore.Program
