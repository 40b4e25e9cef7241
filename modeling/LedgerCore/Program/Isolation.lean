import Mathlib.Logic.Function.Basic
import LedgerCore.Program.Pool

/-! Programs of several owners, interleaved call by call over one world, and when an owner cannot
tell the calls of the others from their absence. -/
namespace LedgerCore.Program

variable {C : Type} {R : C → Type} {ε α β ι K W V : Type}

namespace Prog
variable {asks : C → Prop} {answers : (c : C) → R c → Prop}

/-- Every call is one of `asks`, as long as every reply is one of `answers`. -/
def Within (asks : C → Prop) (answers : (c : C) → R c → Prop) : Prog R ε α → Prop
  | .pure _ => True
  | .fail _ => True
  | .call c k => asks c ∧ ∀ r, answers c r → (k r).Within asks answers

theorem within_pure (a : α) : (Pure.pure a : Prog R ε α).Within asks answers := trivial

theorem within_perform_bind {c : C} {f : R c → Prog R ε α} (hc : asks c)
    (hf : ∀ r, answers c r → (f r).Within asks answers) :
    (perform c >>= f).Within asks answers := ⟨hc, hf⟩

theorem Within.bind {p : Prog R ε α} {f : α → Prog R ε β} (hp : p.Within asks answers)
    (hf : ∀ a, (f a).Within asks answers) : (p >>= f).Within asks answers := by
  induction p with
  | pure a => exact hf a
  | fail e => trivial
  | call c k ih => exact ⟨hp.1, fun r hr => ih r (hp.2 r hr)⟩

end Prog

/-- A task is named by its owner and a number. -/
inductive TaskEvent (R : C → Type) (ε α ι K : Type) where
  | start (owner : ι) (n : ℕ) (p : Prog R ε α)
  | perform (owner : ι) (n : ℕ) (choice : K)

def TaskEvent.owner : TaskEvent R ε α ι K → ι
  | .start i _ _ => i
  | .perform i _ _ => i

structure Interleaving (R : C → Type) (ε α ι W : Type) where
  world : W
  tasks : ι × ℕ → Option (Prog R ε α)

namespace Interleaving
variable [DecidableEq ι]

/-- A name is used once. A task makes its next call, if it has one. -/
def step (call : K → (c : C) → W → R c × W) (s : Interleaving R ε α ι W) :
    TaskEvent R ε α ι K → Interleaving R ε α ι W
  | .start i n p =>
    match s.tasks (i, n) with
    | none => { s with tasks := Function.update s.tasks (i, n) (some p) }
    | some _ => s
  | .perform i n choice =>
    match s.tasks (i, n) with
    | some (.call c k) =>
      let x := call choice c s.world
      ⟨x.2, Function.update s.tasks (i, n) (some (k x.1))⟩
    | _ => s

def run (call : K → (c : C) → W → R c × W) (events : List (TaskEvent R ε α ι K))
    (s : Interleaving R ε α ι W) : Interleaving R ε α ι W := events.foldl (step call) s

def result (s : Interleaving R ε α ι W) (i : ι) (n : ℕ) : Option (Except ε α) :=
  match s.tasks (i, n) with
  | some (.pure a) => some (.ok a)
  | some (.fail e) => some (.error e)
  | _ => none

end Interleaving

namespace Interleaving
variable {D : Discipline R W ι} {call : K → (c : C) → W → R c × W} {s : Interleaving R ε α ι W}
  {e : TaskEvent R ε α ι K}

/-- The world is one that can occur, and every task keeps to the discipline from here on. -/
structure Kept (D : Discipline R W ι) (s : Interleaving R ε α ι W) : Prop where
  valid : D.valid s.world
  tasks : ∀ i n p, s.tasks (i, n) = some p → p.Keeps D i (fun _ _ => True) s.world

/-- The event starts no program that breaks the discipline. -/
def Starts (D : Discipline R W ι) : TaskEvent R ε α ι K → Prop
  | .start i _ p => ∀ w, D.valid w → p.Keeps D i (fun _ _ => True) w
  | .perform _ _ _ => True

variable [DecidableEq ι]

theorem Kept.step (h : Kept D s)
    (hcall : ∀ i ch c w, D.effect i c w (call ch c w).1 (call ch c w).2) (he : Starts D e) :
    Kept D (s.step call e) ∧ D.later s.world (s.step call e).world := by
  cases e with
  | start i n p =>
    dsimp only [Interleaving.step]
    split
    · refine ⟨⟨h.valid, fun j m q hq => ?_⟩, D.refl _⟩
      dsimp only at hq
      rw [Function.update_apply] at hq
      split_ifs at hq with hname
      · cases hname
        cases hq
        exact he s.world h.valid
      · exact h.tasks j m q hq
    · exact ⟨h, D.refl _⟩
  | perform i n ch =>
    dsimp only [Interleaving.step]
    split
    · next c k htask =>
      obtain ⟨hasks, hk⟩ := h.tasks i n _ htask s.world (D.refl _) h.valid
      have heffect := hcall i ch c s.world
      have hlater := D.effect_later hasks h.valid heffect
      refine ⟨⟨D.valid_later hlater h.valid, fun j m q hq => ?_⟩, hlater⟩
      dsimp only at hq
      rw [Function.update_apply] at hq
      split_ifs at hq with hname
      · cases hname
        cases hq
        exact hk _ _ heffect
      · exact (h.tasks j m q hq).later hlater
    · exact ⟨h, D.refl _⟩

theorem Kept.run {events : List (TaskEvent R ε α ι K)} (h : Kept D s)
    (hcall : ∀ i ch c w, D.effect i c w (call ch c w).1 (call ch c w).2)
    (he : ∀ e ∈ events, Starts D e) :
    Kept D (s.run call events) ∧ D.later s.world (s.run call events).world := by
  induction events generalizing s with
  | nil => exact ⟨h, D.refl _⟩
  | cons e events ih =>
    obtain ⟨hstart, hrest⟩ := List.forall_mem_cons.1 he
    obtain ⟨hstep, hlater⟩ := h.step hcall hstart
    obtain ⟨hrun, hlater'⟩ := ih hstep hrest
    exact ⟨hrun, D.trans hlater hlater'⟩

end Interleaving

/-- Every owner has a view of the world: calls of the others leave it, and its own calls read and
write nothing else. `asks` are the calls that an owner makes, `answers` the replies to them. -/
structure Separation (call : K → (c : C) → W → R c × W) (ι V : Type) where
  asks : ι → C → Prop
  answers : ι → (c : C) → R c → Prop
  valid : W → Prop
  view : ι → W → V
  valid_call : ∀ {i ch c w}, asks i c → valid w → valid (call ch c w).2
  answers_call : ∀ {i ch c w}, asks i c → valid w → answers i c (call ch c w).1
  others : ∀ {i j ch c w}, asks j c → j ≠ i → view i (call ch c w).2 = view i w
  reply : ∀ {i ch c w w'}, asks i c → view i w = view i w' → (call ch c w).1 = (call ch c w').1
  own : ∀ {i ch c w w'}, asks i c → view i w = view i w' →
    view i (call ch c w).2 = view i (call ch c w').2

namespace Separation
variable {call : K → (c : C) → W → R c × W} (S : Separation call ι V)

/-- The event starts no program that asks in the name of others. -/
def Admits : TaskEvent R ε α ι K → Prop
  | .start i _ p => p.Within (S.asks i) (S.answers i)
  | .perform _ _ _ => True

/-- Two interleavings that one owner cannot tell apart. -/
structure Alike (i : ι) (s s' : Interleaving R ε α ι W) : Prop where
  valid : S.valid s.world
  view : S.view i s.world = S.view i s'.world
  tasks : ∀ n, s.tasks (i, n) = s'.tasks (i, n)
  within : ∀ j n p, s.tasks (j, n) = some p → p.Within (S.asks j) (S.answers j)

variable {S} {i : ι} {s s' : Interleaving R ε α ι W} {e : TaskEvent R ε α ι K}

theorem Alike.result (h : S.Alike i s s') (n : ℕ) : s.result i n = s'.result i n := by
  unfold Interleaving.result
  rw [h.tasks n]

variable [DecidableEq ι]

theorem Alike.step_valid (h : S.Alike i s s') (he : S.Admits e) :
    S.valid (s.step call e).world ∧ ∀ j n p, (s.step call e).tasks (j, n) = some p →
      p.Within (S.asks j) (S.answers j) := by
  cases e with
  | start j n p =>
    dsimp only [Interleaving.step]
    split
    · refine ⟨h.valid, fun j' n' p' hp => ?_⟩
      dsimp only at hp
      rw [Function.update_apply] at hp
      split_ifs at hp with hname
      · cases hname
        cases hp
        exact he
      · exact h.within j' n' p' hp
    · exact ⟨h.valid, h.within⟩
  | perform j n ch =>
    dsimp only [Interleaving.step]
    split
    · next c k htask =>
      obtain ⟨hasks, hk⟩ := h.within j n _ htask
      refine ⟨S.valid_call hasks h.valid, fun j' n' p' hp => ?_⟩
      dsimp only at hp
      rw [Function.update_apply] at hp
      split_ifs at hp with hname
      · cases hname
        cases hp
        exact hk _ (S.answers_call hasks h.valid)
      · exact h.within j' n' p' hp
    · exact ⟨h.valid, h.within⟩

theorem Alike.step_others (h : S.Alike i s s') (he : S.Admits e) (howner : e.owner ≠ i) :
    S.Alike i (s.step call e) s' := by
  obtain ⟨hvalid, hwithin⟩ := h.step_valid he
  refine ⟨hvalid, ?_, fun n => ?_, hwithin⟩
  · cases e with
    | start j n p =>
      dsimp only [Interleaving.step]
      split <;> exact h.view
    | perform j n ch =>
      dsimp only [Interleaving.step]
      split
      · next c k htask =>
        exact (S.others (h.within j n _ htask).1 howner).trans h.view
      · exact h.view
  · rw [← h.tasks n]
    have hname (m : ℕ) : (i, n) ≠ (e.owner, m) := fun heq => howner (congrArg Prod.fst heq).symm
    cases e with
    | start j m p =>
      dsimp only [Interleaving.step]
      split
      · exact Function.update_of_ne (hname m) _ _
      · rfl
    | perform j m ch =>
      dsimp only [Interleaving.step]
      split
      · exact Function.update_of_ne (hname m) _ _
      · rfl

theorem Alike.step_own (h : S.Alike i s s') (he : S.Admits e) (howner : e.owner = i) :
    S.Alike i (s.step call e) (s'.step call e) := by
  obtain ⟨hvalid, hwithin⟩ := h.step_valid he
  suffices hsame : S.view i (s.step call e).world = S.view i (s'.step call e).world ∧
      ∀ n, (s.step call e).tasks (i, n) = (s'.step call e).tasks (i, n) from
    ⟨hvalid, hsame.1, hsame.2, hwithin⟩
  subst howner
  cases e with
  | start j m p =>
    have htasks : ∀ n, s.tasks (j, n) = s'.tasks (j, n) := h.tasks
    dsimp only [Interleaving.step, TaskEvent.owner]
    rw [← htasks m]
    split
    · refine ⟨h.view, fun n => ?_⟩
      dsimp only
      rw [Function.update_apply, Function.update_apply, htasks n]
    · exact ⟨h.view, h.tasks⟩
  | perform j m ch =>
    have htasks : ∀ n, s.tasks (j, n) = s'.tasks (j, n) := h.tasks
    dsimp only [Interleaving.step, TaskEvent.owner]
    rw [← htasks m]
    split
    · next c k htask =>
      have hasks := (h.within j m _ htask).1
      refine ⟨S.own hasks h.view, fun n => ?_⟩
      dsimp only
      rw [S.reply hasks h.view, Function.update_apply, Function.update_apply, htasks n]
    · exact ⟨h.view, h.tasks⟩

/-- What an owner sees of an interleaving is what it would see of its own events alone. -/
theorem Alike.run {events : List (TaskEvent R ε α ι K)} (h : S.Alike i s s')
    (he : ∀ e ∈ events, S.Admits e) :
    S.Alike i (s.run call events) (s'.run call (events.filter fun e => e.owner = i)) := by
  induction events generalizing s s' with
  | nil => exact h
  | cons e events ih =>
    obtain ⟨hadmits, hrest⟩ := List.forall_mem_cons.1 he
    by_cases howner : e.owner = i
    · rw [List.filter_cons_of_pos (by simpa using howner)]
      exact ih (h.step_own hadmits howner) hrest
    · rw [List.filter_cons_of_neg (by simpa using howner)]
      exact ih (h.step_others hadmits howner) hrest

end Separation

end LedgerCore.Program
