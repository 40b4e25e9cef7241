import Mathlib.Data.List.Basic
import LedgerCore.Program.Basic

/-! Pools of programs that share a world. A call is atomic. Between the calls of one program
anything may happen that the other programs and the environment do, and a call that its caller
gave up on may still be carried out later. -/
namespace LedgerCore.Program

variable {C : Type} {R : C → Type} {ε α β W L : Type}

/-- What a program labelled `l` may ask for and what its calls then do, the worlds that can
occur, and how a world can change over time. -/
structure Discipline (R : C → Type) (W L : Type) where
  asks : L → C → W → Prop
  effect : L → (c : C) → W → R c → W → Prop
  valid : W → Prop
  later : W → W → Prop
  refl : ∀ w, later w w
  trans : ∀ {w w' w''}, later w w' → later w' w'' → later w w''
  valid_later : ∀ {w w'}, later w w' → valid w → valid w'
  effect_later : ∀ {l c w r w'}, asks l c w → valid w → effect l c w r w' → later w w'

namespace Prog

/-- Every call the program can make is one it may ask for, wherever the others have moved the
world in the meantime, and a result satisfies `post`. -/
def Keeps (D : Discipline R W L) (l : L) (post : α → W → Prop) : Prog R ε α → W → Prop
  | .pure a, w => ∀ w', D.later w w' → D.valid w' → post a w'
  | .fail _, _ => True
  | .call c k, w => ∀ w', D.later w w' → D.valid w' → D.asks l c w' ∧
      ∀ r w'', D.effect l c w' r w'' → (k r).Keeps D l post w''

variable {D : Discipline R W L} {l : L} {post : α → W → Prop} {p : Prog R ε α} {w w' : W}

theorem Keeps.later (h : p.Keeps D l post w) (hw : D.later w w') : p.Keeps D l post w' := by
  cases p with
  | pure a => exact fun w'' hlater => h w'' (D.trans hw hlater)
  | fail e => trivial
  | call c k => exact fun w'' hlater => h w'' (D.trans hw hlater)

theorem Keeps.bind {f : α → Prog R ε β} {post' : β → W → Prop} (hp : p.Keeps D l post w)
    (hvalid : D.valid w)
    (hf : ∀ a w', D.later w w' → D.valid w' → post a w' → (f a).Keeps D l post' w') :
    (p >>= f).Keeps D l post' w := by
  induction p generalizing w with
  | pure a => exact hf a w (D.refl w) hvalid (hp w (D.refl w) hvalid)
  | fail e => trivial
  | call c k ih =>
    intro w₁ hlater hvalid₁
    obtain ⟨hasks, hk⟩ := hp w₁ hlater hvalid₁
    refine ⟨hasks, fun r w₂ heffect => ?_⟩
    have hstep := D.effect_later hasks hvalid₁ heffect
    refine ih r (hk r w₂ heffect) (D.valid_later hstep hvalid₁) fun a w' hw' => ?_
    exact hf a w' (D.trans hlater (D.trans hstep hw'))

theorem keeps_pure {a : α} (h : ∀ w', D.later w w' → D.valid w' → post a w') :
    (Pure.pure a : Prog R ε α).Keeps D l post w := h

/-- The rule for a call and what follows it. -/
theorem keeps_perform_bind {c : C} {f : R c → Prog R ε α}
    (hasks : ∀ w', D.later w w' → D.valid w' → D.asks l c w')
    (hf : ∀ w' r w'', D.later w w' → D.valid w' → D.effect l c w' r w'' → D.later w w'' →
      D.valid w'' → (f r).Keeps D l post w'') : (perform c >>= f).Keeps D l post w := by
  intro w' hlater hvalid
  refine ⟨hasks w' hlater hvalid, fun r w'' heffect => ?_⟩
  have hstep := D.effect_later (hasks w' hlater hvalid) hvalid heffect
  exact hf w' r w'' hlater hvalid heffect (D.trans hlater hstep) (D.valid_later hstep hvalid)

theorem OnlyCalls.keeps {P : C → Prop} (h : p.OnlyCalls P) (hP : ∀ c w, P c → D.asks l c w)
    (w : W) : p.Keeps D l (fun _ _ => True) w := by
  induction p generalizing w with
  | pure a => exact fun _ _ _ => trivial
  | fail e => trivial
  | call c k ih => exact fun w' _ _ => ⟨hP c w' h.1, fun r w'' _ => ih r (h.2 r) w''⟩

/-- A call that nobody waits for. -/
def unattended (c : C) : Prog R ε Unit := .call c fun _ => .pure ()

theorem Keeps.unattended {c : C} {k : R c → Prog R ε α} (h : (Prog.call c k).Keeps D l post w) :
    (Prog.unattended c : Prog R ε Unit).Keeps D l (fun _ _ => True) w :=
  fun w' hlater hvalid => ⟨(h w' hlater hvalid).1, fun _ _ _ _ _ _ => trivial⟩

end Prog

structure Pool (R : C → Type) (ε W L : Type) where
  world : W
  tasks : List (L × Prog R ε Unit)

namespace Pool

/-- The next call of the `i`th task is carried out and answered. -/
def perform (call : L → (c : C) → W → Option (R c × W)) (i : ℕ) (s : Pool R ε W L) :
    Option (Pool R ε W L) :=
  match s.tasks[i]? with
  | some (l, .call c k) => (call l c s.world).map fun (r, w) => ⟨w, s.tasks.set i (l, k r)⟩
  | _ => none

/-- The `i`th task stops waiting for its next call, with the reply that `fault` makes up. The
call stays outstanding, without a caller. -/
def abandon (fault : (c : C) → Option (R c)) (i : ℕ) (s : Pool R ε W L) : Option (Pool R ε W L) :=
  match s.tasks[i]? with
  | some (l, .call c k) =>
    (fault c).map fun r => { s with tasks := s.tasks.set i (l, k r) ++ [(l, .unattended c)] }
  | _ => none

def crash (i : ℕ) (s : Pool R ε W L) : Pool R ε W L := { s with tasks := s.tasks.eraseIdx i }

def spawn (tasks : List (L × Prog R ε Unit)) (s : Pool R ε W L) : Pool R ε W L :=
  { s with tasks := s.tasks ++ tasks }

variable {call : L → (c : C) → W → Option (R c × W)} {fault : (c : C) → Option (R c)} {i : ℕ}
  {s s' : Pool R ε W L} {T : W → L × Prog R ε Unit → Prop}

theorem perform_eq_some (h : s.perform call i = some s') :
    ∃ l c k r w, s.tasks[i]? = some (l, .call c k) ∧ call l c s.world = some (r, w) ∧
      s' = ⟨w, s.tasks.set i (l, k r)⟩ := by
  unfold perform at h
  split at h
  · next l c k ht =>
    obtain ⟨⟨r, w⟩, hc, rfl⟩ := Option.map_eq_some_iff.1 h
    exact ⟨l, c, k, r, w, ht, hc, rfl⟩
  · cases h

theorem abandon_eq_some (h : s.abandon fault i = some s') :
    ∃ l c k r, s.tasks[i]? = some (l, .call c k) ∧ fault c = some r ∧
      s' = { s with tasks := s.tasks.set i (l, k r) ++ [(l, .unattended c)] } := by
  unfold abandon at h
  split at h
  · next l c k ht =>
    obtain ⟨r, hr, rfl⟩ := Option.map_eq_some_iff.1 h
    exact ⟨l, c, k, r, ht, hr, rfl⟩
  · cases h

/-- What holds of every task, if the one that moved has it again and the world lets the others keep
it. -/
theorem perform_tasks (h : ∀ t ∈ s.tasks, T s.world t) (hs : s.perform call i = some s')
    (hkeeps : ∀ t, T s.world t → T s'.world t)
    (hnext : ∀ l c k r, s.tasks[i]? = some (l, .call c k) →
      call l c s.world = some (r, s'.world) → T s'.world (l, k r)) :
    ∀ t ∈ s'.tasks, T s'.world t := by
  obtain ⟨l, c, k, r, w, ht, hc, rfl⟩ := perform_eq_some hs
  intro t htask
  rcases List.mem_or_eq_of_mem_set htask with hold | rfl
  · exact hkeeps t (h t hold)
  · exact hnext l c k r ht hc

theorem abandon_tasks (h : ∀ t ∈ s.tasks, T s.world t) (hs : s.abandon fault i = some s')
    (hnext : ∀ l c k r, s.tasks[i]? = some (l, .call c k) → fault c = some r →
      T s.world (l, k r) ∧ T s.world (l, .unattended c)) : ∀ t ∈ s'.tasks, T s'.world t := by
  obtain ⟨l, c, k, r, ht, hr, rfl⟩ := abandon_eq_some hs
  obtain ⟨hk, hunattended⟩ := hnext l c k r ht hr
  intro t hmem
  rcases List.mem_append.1 hmem with hmem | hmem
  · rcases List.mem_or_eq_of_mem_set hmem with hold | rfl
    · exact h t hold
    · exact hk
  · rw [List.mem_singleton.1 hmem]
    exact hunattended

/-- The world is one that can occur, and every task keeps to the discipline from here on. -/
structure Kept (D : Discipline R W L) (s : Pool R ε W L) : Prop where
  valid : D.valid s.world
  tasks : ∀ t ∈ s.tasks, t.2.Keeps D t.1 (fun _ _ => True) s.world

variable {D : Discipline R W L}

theorem Kept.later {w : W} (h : Kept D s) (hw : D.later s.world w) :
    Kept D { s with world := w } :=
  ⟨D.valid_later hw h.valid, fun t ht => (h.tasks t ht).later hw⟩

theorem Kept.asks (h : Kept D s) {l : L} {c : C} {k : R c → Prog R ε Unit}
    (ht : (l, Prog.call c k) ∈ s.tasks) : D.asks l c s.world :=
  (h.tasks _ ht s.world (D.refl _) h.valid).1

theorem Kept.perform (h : Kept D s) (hs : s.perform call i = some s')
    (heffect : ∀ l c k r w, s.tasks[i]? = some (l, .call c k) → call l c s.world = some (r, w) →
      D.effect l c s.world r w) : Kept D s' ∧ D.later s.world s'.world := by
  obtain ⟨l, c, k, r, w, ht, hc, hs'⟩ := perform_eq_some hs
  have heff := heffect l c k r w ht hc
  have hw : D.later s.world s'.world := by
    rw [hs']
    exact D.effect_later (h.asks (List.mem_of_getElem? ht)) h.valid heff
  refine ⟨⟨D.valid_later hw h.valid, perform_tasks
    (T := fun w t => t.2.Keeps D t.1 (fun _ _ => True) w) h.tasks hs
    (fun _ ht => ht.later hw) ?_⟩, hw⟩
  intro l c k r ht hc
  exact (h.tasks _ (List.mem_of_getElem? ht) s.world (D.refl _) h.valid).2 r _
    (heffect l c k r _ ht hc)

theorem Kept.abandon (h : Kept D s) (hs : s.abandon fault i = some s')
    (heffect : ∀ l c k r, s.tasks[i]? = some (l, .call c k) → fault c = some r →
      D.effect l c s.world r s.world) : Kept D s' ∧ D.later s.world s'.world := by
  have hworld : s'.world = s.world := by
    obtain ⟨l, c, k, r, ht, hr, rfl⟩ := abandon_eq_some hs
    rfl
  refine ⟨⟨hworld ▸ h.valid, abandon_tasks
    (T := fun w t => t.2.Keeps D t.1 (fun _ _ => True) w) h.tasks hs ?_⟩, hworld ▸ D.refl _⟩
  intro l c k r ht hr
  have htask := h.tasks _ (List.mem_of_getElem? ht)
  exact ⟨(htask s.world (D.refl _) h.valid).2 r s.world (heffect l c k r ht hr), htask.unattended⟩

theorem Kept.crash (h : Kept D s) (i : ℕ) : Kept D (s.crash i) :=
  ⟨h.valid, fun t ht => h.tasks t (List.mem_of_mem_eraseIdx ht)⟩

theorem Kept.spawn {tasks : List (L × Prog R ε Unit)} (h : Kept D s)
    (ht : ∀ t ∈ tasks, t.2.Keeps D t.1 (fun _ _ => True) s.world) : Kept D (s.spawn tasks) :=
  ⟨h.valid, fun t hmem => (List.mem_append.1 hmem).elim (h.tasks t) (ht t)⟩

end Pool

end LedgerCore.Program
