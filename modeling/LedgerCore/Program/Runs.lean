import Mathlib.Logic.Relation

/-! Runs of a step function, with a condition on every step. -/
namespace LedgerCore.Program

variable {S A : Type} {step : S → A → Option S}

/-- Runs in which every action is allowed where it happens. -/
def ReachBy (step : S → A → Option S) (allowed : S → A → Prop) : S → S → Prop :=
  Relation.ReflTransGen fun s s' => ∃ a, allowed s a ∧ step s a = some s'

/-- A run in which every action passes a test where it happens. -/
def runChecked (step : S → A → Option S) (ok : S → A → Bool) (s : S) (actions : List A) : Option S :=
  actions.foldlM (fun s a => if ok s a then step s a else none) s

variable {allowed allowed' : S → A → Prop} {s s' : S}

theorem reachBy_of_runChecked_mem {ok : S → A → Bool} {actions : List A}
    (hok : ∀ s, ∀ a ∈ actions, ok s a = true → allowed s a)
    (h : runChecked step ok s actions = some s') : ReachBy step allowed s s' := by
  induction actions generalizing s with
  | nil =>
    cases h
    exact .refl
  | cons a actions ih =>
    obtain ⟨s₁, hstep, h⟩ := Option.bind_eq_some_iff.1 h
    dsimp only at hstep
    split at hstep
    · next ha =>
      refine .head ⟨a, hok s a List.mem_cons_self ha, hstep⟩ (ih (fun s b hb => ?_) h)
      exact hok s b (List.mem_cons_of_mem a hb)
    · cases hstep

theorem reachBy_of_runChecked {ok : S → A → Bool} (hok : ∀ s a, ok s a = true → allowed s a)
    {actions : List A} (h : runChecked step ok s actions = some s') :
    ReachBy step allowed s s' :=
  reachBy_of_runChecked_mem (fun s a _ => hok s a) h

theorem reachBy_of_run {actions : List A} (h : actions.foldlM step s = some s')
    (hallowed : ∀ a ∈ actions, ∀ s, allowed s a) : ReachBy step allowed s s' := by
  have hrun : runChecked step (fun _ _ => true) s actions = some s' := by
    simpa only [runChecked, if_true] using h
  exact reachBy_of_runChecked_mem (fun s a ha _ => hallowed a ha s) hrun

theorem ReachBy.mono (h : ReachBy step allowed s s') (hmono : ∀ s a, allowed s a → allowed' s a) :
    ReachBy step allowed' s s' := by
  refine Relation.ReflTransGen.mono ?_ s s' h
  exact fun s _ ⟨a, ha, hstep⟩ => ⟨a, hmono s a ha, hstep⟩

/-- What holds at first and is kept by every allowed step holds at the end. -/
theorem ReachBy.keeps {I : S → Prop} (h : ReachBy step allowed s s') (hs : I s)
    (hstep : ∀ s s' a, I s → allowed s a → step s a = some s' → I s') : I s' := by
  induction h with
  | refl => exact hs
  | tail _ hlast ih =>
    obtain ⟨a, ha, hlast⟩ := hlast
    exact hstep _ _ a ih ha hlast

end LedgerCore.Program
