import Mathlib.Data.Fin.Basic
import Mathlib.Data.Fintype.Basic
import Mathlib.Data.List.Pairwise
import Mathlib.Logic.Relation
import Mathlib.Order.WithBot
import LedgerCore.Program.Serial

/-! Transactions that take their locks one at a time, and wait for each other meanwhile. Where all
of them take locks in one order, no circle of waits can form. -/
namespace LedgerCore.Program.Engine

variable {C : Type} {R : C → Type} {ε κ σ S P Λ₀ Λ α β ρ : Type}

/-- How statements lock. -/
structure Locking (C S Λ : Type) where
  /-- The locks that a statement takes before it runs, one at a time and in this order. -/
  takes : C → S → List Λ
  /-- The locks that it has once it ran, without waiting for them. -/
  gains : C → S → List Λ
  /-- Whether the one who wants the first waits for the one who holds the second. -/
  clash : Λ → Λ → Bool

/-- The next lock that a statement needs beside those held. -/
def Locking.next [DecidableEq Λ] (L : Locking C S Λ) (c : C) (s : S) (held : List Λ) : Option Λ :=
  (L.takes c s).find? fun l => l ∉ held

/-- A running transaction and its locks. -/
structure Holding (R : C → Type) (ε κ σ P Λ α : Type) where
  session : Session R ε κ σ P α
  held : List Λ

/-- The committed store, and what runs on each of `n` connections to it. -/
structure Connections (R : C → Type) (ε κ σ S P Λ α : Type) (n : ℕ) where
  committed : S
  sessions : Fin n → Option (Holding R ε κ σ P Λ α)

namespace Connections

variable {n : ℕ} [DecidableEq Λ]

inductive Action (κ : Type) (n : ℕ) where
  | begin (i : Fin n) (kind : κ)
  /-- One more lock for the statement that is next. -/
  | take (i : Fin n)
  /-- That statement, once it has its locks, or the end of the transaction. -/
  | advance (i : Fin n)
  | cancel (i : Fin n)

def init (s : S) : Connections R ε κ σ S P Λ α n := ⟨s, fun _ => none⟩

def close (s : Connections R ε κ σ S P Λ α n) (i : Fin n) : Connections R ε κ σ S P Λ α n :=
  { s with sessions := Function.update s.sessions i none }

def put (s : Connections R ε κ σ S P Λ α n) (i : Fin n) (x : Holding R ε κ σ P Λ α) :
    Connections R ε κ σ S P Λ α n :=
  { s with sessions := Function.update s.sessions i (some x) }

def wants (E : Engine R ε κ σ S P Λ₀ α) (L : Locking C S Λ) (s : Connections R ε κ σ S P Λ α n)
    (i : Fin n) : Option Λ :=
  (s.sessions i).bind fun x =>
    match x.session.rest with
    | .call c _ => L.next c (E.stored (x.session.view E s.committed)) x.held
    | _ => none

def blocks (L : Locking C S Λ) (s : Connections R ε κ σ S P Λ α n) (l : Λ) (j : Fin n) : Bool :=
  (s.sessions j).any fun x => x.held.any (L.clash l)

/-- Connection `i` waits for connection `j` to end its transaction. -/
def Waits (E : Engine R ε κ σ S P Λ₀ α) (L : Locking C S Λ) (s : Connections R ε κ σ S P Λ α n)
    (i j : Fin n) : Prop :=
  i ≠ j ∧ ∃ l, s.wants E L i = some l ∧ s.blocks L l j

def take (E : Engine R ε κ σ S P Λ₀ α) (L : Locking C S Λ) (s : Connections R ε κ σ S P Λ α n)
    (i : Fin n) : Option (Connections R ε κ σ S P Λ α n) :=
  (s.sessions i).bind fun x =>
    (s.wants E L i).bind fun l =>
      if ∀ j, j ≠ i → ¬s.blocks L l j then some (s.put i { x with held := x.held ++ [l] }) else none

def advance (E : Engine R ε κ σ S P Λ₀ α) (L : Locking C S Λ)
    (s : Connections R ε κ σ S P Λ α n) (i : Fin n) : Option (Connections R ε κ σ S P Λ α n) :=
  (s.sessions i).bind fun x =>
    let view := x.session.view E s.committed
    match x.session.rest with
    | .pure _ =>
      match E.commit view with
      | .ok committed => some { s.close i with committed }
      | .error _ => some (s.close i)
    | .fail _ => some (s.close i)
    | .call c k =>
      match L.next c (E.stored view) x.held with
      | some _ => none
      | none =>
        match E.exec x.session.kind c view with
        | .ok (r, state) =>
          some (s.put i ⟨x.session.next E s.committed (k r) state,
            x.held ++ L.gains c (E.stored view)⟩)
        | .error _ => some (s.close i)

def step (E : Engine R ε κ σ S P Λ₀ α) (L : Locking C S Λ) (s : Connections R ε κ σ S P Λ α n) :
    Action κ n → Option (Connections R ε κ σ S P Λ α n)
  | .begin i kind =>
    if (s.sessions i).isNone then
      some (s.put i ⟨⟨kind, E.program kind, E.start s.committed, []⟩, []⟩)
    else none
  | .take i => s.take E L i
  | .advance i => s.advance E L i
  | .cancel i => some (s.close i)

def run (E : Engine R ε κ σ S P Λ₀ α) (L : Locking C S Λ) (s : Connections R ε κ σ S P Λ α n)
    (actions : List (Action κ n)) : Option (Connections R ε κ σ S P Λ α n) :=
  actions.foldlM (step E L) s

end Connections

section Ascends
variable [DecidableEq Λ] [Preorder ρ]

/-- Wherever `Inv` holds of the store, every lock that the program takes ranks above all it holds;
`Q` is then true of its result and its locks. -/
inductive Ascends (E : Engine R ε κ σ S P Λ₀ α) (L : Locking C S Λ) (Inv : S → Prop) (rank : Λ → ρ)
    (k : κ) (Q : β → List Λ → Prop) : Prog R ε β → List Λ → Prop
  | pure {a : β} {held : List Λ} : Q a held → Ascends E L Inv rank k Q (.pure a) held
  | fail {e : ε} {held : List Λ} : Ascends E L Inv rank k Q (.fail e) held
  | call {c : C} {f : R c → Prog R ε β} {held : List Λ} :
    (∀ s l, Inv s → L.next c s held = some l → ∀ m ∈ held, rank m < rank l) →
    (∀ s l, Inv s → L.next c s held = some l →
      Ascends E L Inv rank k Q (.call c f) (held ++ [l])) →
    (∀ x r x', Inv (E.stored x) → E.exec k c x = .ok (r, x') → Inv (E.stored x')) →
    (∀ x r x', Inv (E.stored x) → L.next c (E.stored x) held = none →
      E.exec k c x = .ok (r, x') →
      Ascends E L Inv rank k Q (f r) (held ++ L.gains c (E.stored x))) →
    Ascends E L Inv rank k Q (.call c f) held

variable {E : Engine R ε κ σ S P Λ₀ α} {L : Locking C S Λ} {Inv : S → Prop} {rank : Λ → ρ} {k : κ}
  {γ : Type} {Q : β → List Λ → Prop} {held : List Λ}

theorem Ascends.bind {Q' : γ → List Λ → Prop} {p : Prog R ε β} {f : β → Prog R ε γ}
    (hp : Ascends E L Inv rank k (fun a held => Ascends E L Inv rank k Q' (f a) held) p held) :
    Ascends E L Inv rank k Q' (p >>= f) held := by
  induction hp with
  | pure h => exact h
  | fail => exact .fail
  | call hrank _ hinv _ ihtake ihnext => exact .call hrank ihtake hinv ihnext

theorem ascends_ofExcept {x : Except ε β} (h : ∀ a, x = .ok a → Q a held) :
    Ascends E L Inv rank k Q (.ofExcept x) held := by
  cases x with
  | error e => exact .fail
  | ok a => exact .pure (h a rfl)

theorem Ascends.mono {Q' : β → List Λ → Prop} {p : Prog R ε β}
    (hp : Ascends E L Inv rank k Q p held) (h : ∀ a held, Q a held → Q' a held) :
    Ascends E L Inv rank k Q' p held := by
  induction hp with
  | pure hq => exact .pure (h _ _ hq)
  | fail => exact .fail
  | call hrank _ hinv _ ihtake ihnext => exact .call hrank ihtake hinv ihnext

theorem ascends_mapM {I : List Λ → Prop} {f : γ → Prog R ε β} {l : List γ}
    (h : ∀ b ∈ l, ∀ held, I held → Ascends E L Inv rank k (fun _ => I) (f b) held)
    (hI : I held) : Ascends E L Inv rank k (fun _ => I) (l.mapM' f) held := by
  induction l generalizing held with
  | nil => exact .pure hI
  | cons b l ih =>
    refine .bind ((h b List.mem_cons_self held hI).mono fun _ held' hI' => .bind ?_)
    exact (ih (fun c hc => h c (List.mem_cons_of_mem _ hc)) hI').mono fun _ _ hI'' => .pure hI''

theorem Locking.next_eq_none {c : C} {s : S} :
    L.next c s held = none ↔ ∀ l ∈ L.takes c s, l ∈ held := by
  simp [Locking.next, List.find?_eq_none]

theorem Locking.next_eq_some {c : C} {s : S} {l : Λ} {order : List Λ}
    (htakes : L.takes c s <+: order) (hsorted : order.Pairwise fun l m => rank l < rank m)
    (hnext : L.next c s held = some l) :
    l ∉ held ∧ l ∈ order ∧ ∀ m ∈ order, rank m < rank l → m ∈ held := by
  obtain ⟨hl, before, after, heq, hbefore⟩ := List.find?_eq_some_iff_append.1 hnext
  obtain ⟨rest, rfl⟩ := htakes
  rw [heq, List.append_assoc, List.cons_append] at hsorted ⊢
  refine ⟨by simpa using hl, by simp, fun m hm hlt => ?_⟩
  rcases List.mem_append.1 hm with hm | hm
  · simpa using hbefore m hm
  rcases List.mem_cons.1 hm with rfl | hm
  · exact absurd hlt (lt_irrefl _)
  · have habove := (List.pairwise_cons.1 (List.pairwise_append.1 hsorted).2.1).1 m hm
    exact absurd hlt (lt_asymm habove)

/-- A statement whose locks are, in any store, the first ones of a list that ascends. -/
theorem ascends_call {c : C} {f : R c → Prog R ε β} (order : List Λ)
    (htakes : ∀ s, Inv s → L.takes c s <+: order)
    (hsorted : order.Pairwise fun l m => rank l < rank m)
    (habove : ∀ l ∈ order, l ∈ held ∨ ∀ m ∈ held, rank m < rank l)
    (hinv : ∀ x r x', Inv (E.stored x) → E.exec k c x = .ok (r, x') → Inv (E.stored x'))
    (hnext : ∀ held', (∀ l ∈ held, l ∈ held') → (∀ l ∈ held', l ∈ held ∨ l ∈ order) →
      ∀ x r x', Inv (E.stored x) → (∀ l ∈ L.takes c (E.stored x), l ∈ held') →
        E.exec k c x = .ok (r, x') →
        Ascends E L Inv rank k Q (f r) (held' ++ L.gains c (E.stored x))) :
    Ascends E L Inv rank k Q (.call c f) held := by
  -- What was taken so far is all of `order` up to some rank; what is left of it gets shorter.
  suffices H : ∀ N held', (∀ l ∈ held, l ∈ held') → (∀ l ∈ held', l ∈ held ∨ l ∈ order) →
      (∀ m ∈ held', m ∉ held → ∀ l ∈ order, rank l < rank m → l ∈ held') →
      (order.filter fun l => l ∉ held').length = N →
      Ascends E L Inv rank k Q (.call c f) held' from
    H _ held (fun _ h => h) (fun _ h => .inl h) (fun m hm hm' => absurd hm hm') rfl
  intro N
  induction N using Nat.strong_induction_on with
  | _ N ih =>
    intro held' hsub hmem hdown hN
    refine .call (fun s l hs hl m hm => ?_) (fun s l hs hl => ?_) hinv
      fun x r x' hx hnone hexec => hnext held' hsub hmem x r x' hx (L.next_eq_none.1 hnone) hexec
    · obtain ⟨hl', horder, -⟩ := L.next_eq_some (htakes s hs) hsorted hl
      by_cases hm' : m ∈ held
      · exact (habove l horder).resolve_left (fun h => hl' (hsub l h)) m hm'
      · have hsymm : Std.Symm fun l m => rank l < rank m ∨ rank m < rank l := ⟨fun _ _ => Or.symm⟩
        have hcompare : order.Pairwise fun l m => rank l < rank m ∨ rank m < rank l :=
          hsorted.imp Or.inl
        have horder' := (hmem m hm).resolve_left hm'
        rcases hcompare.forall horder horder' (fun h => hl' (h ▸ hm)) with h | h
        · exact absurd (hdown m hm hm' l horder h) hl'
        · exact h
    · obtain ⟨hl', horder, hbelow⟩ := L.next_eq_some (htakes s hs) hsorted hl
      have hless : (order.filter fun m => m ∉ held' ++ [l]) =
          (order.filter fun m => m ∉ held').filter fun m => m ≠ l := by
        rw [List.filter_filter]
        refine List.filter_congr fun m _ => ?_
        simp [and_comm]
      have hshorter : (order.filter fun m => m ∉ held' ++ [l]).length < N := by
        rw [hless, ← hN]
        exact List.length_filter_lt_length_iff_exists.2 ⟨l, by simpa using ⟨horder, hl'⟩, by simp⟩
      refine ih _ hshorter (held' ++ [l]) (fun m hm => List.mem_append_left _ (hsub m hm))
        (fun m hm => ?_) (fun m hm hm' m' horder' hlt => List.mem_append_left _ ?_) rfl
      · rcases List.mem_append.1 hm with hm | hm
        · exact hmem m hm
        · exact .inr (List.mem_singleton.1 hm ▸ horder)
      · rcases List.mem_append.1 hm with hm | hm
        · exact hdown m hm hm' m' horder' hlt
        · exact hbelow m' horder' (List.mem_singleton.1 hm ▸ hlt)

end Ascends

section Runs
variable [Preorder ρ] {n : ℕ} {E : Engine R ε κ σ S P Λ₀ α} {L : Locking C S Λ} {Inv : S → Prop}
  {rank : Λ → ρ} {s s' : Connections R ε κ σ S P Λ α n} {i : Fin n} {x : Holding R ε κ σ P Λ α}

/-- `Inv` is about the store alone, and changes between stores that have it can be laid over any
other. -/
structure Persists (E : Engine R ε κ σ S P Λ₀ α) (Inv : S → Prop) : Prop where
  stored_start : ∀ s, E.stored (E.start s) = s
  stored_rebase : ∀ x s, E.stored (E.rebase x s) = s
  commit_stored : ∀ {x s}, E.commit x = .ok s → s = E.stored x
  patch : ∀ {s s' t}, Inv s → Inv s' → Inv t → Inv (E.patch (E.diff s s') t)

variable [DecidableEq Λ]

/-- A transaction that takes locks in order, whatever the others commit. -/
structure InOrder (E : Engine R ε κ σ S P Λ₀ α) (L : Locking C S Λ) (Inv : S → Prop) (rank : Λ → ρ)
    (x : Holding R ε κ σ P Λ α) : Prop where
  patches : ∀ t, Inv t → Inv (E.patches x.session.changes t)
  ascends : Ascends E L Inv rank x.session.kind (fun _ _ => True) x.session.rest x.held

structure AllInOrder (E : Engine R ε κ σ S P Λ₀ α) (L : Locking C S Λ) (Inv : S → Prop)
    (rank : Λ → ρ) (s : Connections R ε κ σ S P Λ α n) : Prop where
  committed : Inv s.committed
  sessions : ∀ i x, s.sessions i = some x → InOrder E L Inv rank x

theorem allInOrder_init {s : S} (h : Inv s) :
    AllInOrder E L Inv rank (Connections.init s : Connections R ε κ σ S P Λ α n) :=
  ⟨h, fun _ _ hx => (nomatch hx)⟩

theorem AllInOrder.put (h : AllInOrder E L Inv rank s) (hx : InOrder E L Inv rank x) :
    AllInOrder E L Inv rank (s.put i x) := by
  refine ⟨h.committed, fun j y hy => ?_⟩
  by_cases hj : j = i
  · subst hj
    cases (Function.update_self ..).symm.trans hy
    exact hx
  · exact h.sessions j y ((Function.update_of_ne hj ..).symm.trans hy)

theorem AllInOrder.close (h : AllInOrder E L Inv rank s) : AllInOrder E L Inv rank (s.close i) := by
  refine ⟨h.committed, fun j y hy => ?_⟩
  by_cases hj : j = i
  · subst hj
    cases (Function.update_self ..).symm.trans hy
  · exact h.sessions j y ((Function.update_of_ne hj ..).symm.trans hy)

theorem InOrder.view (hE : Persists E Inv) (h : InOrder E L Inv rank x) {t : S} (ht : Inv t) :
    Inv (E.stored (x.session.view E t)) := by
  rw [Session.view, hE.stored_rebase]
  exact h.patches t ht

theorem AllInOrder.take (hE : Persists E Inv) (h : AllInOrder E L Inv rank s)
    (hstep : s.take E L i = some s') : AllInOrder E L Inv rank s' := by
  obtain ⟨x, hx, hstep⟩ := Option.bind_eq_some_iff.1 hstep
  obtain ⟨l, hl, hstep⟩ := Option.bind_eq_some_iff.1 hstep
  split_ifs at hstep
  cases hstep
  have hin := h.sessions i x hx
  refine h.put ⟨hin.patches, ?_⟩
  rw [Connections.wants, hx, Option.bind_some] at hl
  split at hl
  · next c f hrest =>
    have hascends := hin.ascends
    rw [hrest] at hascends
    cases hascends with
    | call _ htake _ _ =>
      change Ascends E L Inv rank x.session.kind _ x.session.rest (x.held ++ [l])
      rw [hrest]
      exact htake _ l (hin.view hE h.committed) hl
  · cases hl

theorem AllInOrder.advance (hE : Persists E Inv) (h : AllInOrder E L Inv rank s)
    (hstep : s.advance E L i = some s') : AllInOrder E L Inv rank s' := by
  obtain ⟨x, hx, hstep⟩ := Option.bind_eq_some_iff.1 hstep
  have hin := h.sessions i x hx
  have hview := hin.view hE h.committed
  dsimp only at hstep
  split at hstep
  · split at hstep
    · next committed hcommit =>
      cases hstep
      refine ⟨?_, h.close.sessions⟩
      rw [hE.commit_stored hcommit]
      exact hview
    · cases hstep
      exact h.close
  · cases hstep
    exact h.close
  · next c f hrest =>
    split at hstep
    · cases hstep
    · next hnone =>
      split at hstep
      · next r state hexec =>
        cases hstep
        have hascends := hin.ascends
        rw [hrest] at hascends
        cases hascends with
        | call _ _ hinv hnext =>
          refine h.put ⟨fun t ht => ?_, hnext _ r state hview hnone hexec⟩
          rw [Session.next, patches_concat]
          exact hE.patch hview (hinv _ r state hview hexec) (hin.patches t ht)
      · cases hstep
        exact h.close

/-- What a run begins takes locks in order, from none on. -/
def Connections.Action.InOrder (E : Engine R ε κ σ S P Λ₀ α) (L : Locking C S Λ) (Inv : S → Prop)
    (rank : Λ → ρ) : Connections.Action κ n → Prop
  | .begin _ kind => Ascends E L Inv rank kind (fun _ _ => True) (E.program kind) []
  | _ => True

theorem AllInOrder.step {a : Connections.Action κ n} (hE : Persists E Inv)
    (h : AllInOrder E L Inv rank s) (ha : a.InOrder E L Inv rank) (hstep : s.step E L a = some s') :
    AllInOrder E L Inv rank s' := by
  cases a with
  | begin i kind =>
    simp only [Connections.step] at hstep
    split_ifs at hstep
    cases hstep
    exact h.put ⟨fun _ ht => ht, ha⟩
  | take i => exact h.take hE hstep
  | advance i => exact h.advance hE hstep
  | cancel i =>
    cases hstep
    exact h.close

theorem AllInOrder.run {actions : List (Connections.Action κ n)} (hE : Persists E Inv)
    (h : AllInOrder E L Inv rank s) (ha : ∀ a ∈ actions, a.InOrder E L Inv rank)
    (hrun : s.run E L actions = some s') : AllInOrder E L Inv rank s' := by
  induction actions generalizing s with
  | nil =>
    cases hrun
    exact h
  | cons a actions ih =>
    obtain ⟨s₁, hstep, hrest⟩ := Option.bind_eq_some_iff.1 hrun
    exact ih (h.step hE (ha a List.mem_cons_self) hstep)
      (fun b hb => ha b (List.mem_cons_of_mem _ hb)) hrest

theorem AllInOrder.rank_lt (hE : Persists E Inv) (h : AllInOrder E L Inv rank s) {l : Λ}
    (hx : s.sessions i = some x) (hl : s.wants E L i = some l) : ∀ m ∈ x.held, rank m < rank l := by
  have hin := h.sessions i x hx
  rw [Connections.wants, hx, Option.bind_some] at hl
  split at hl
  · next c f hrest =>
    have hascends := hin.ascends
    rw [hrest] at hascends
    cases hascends with
    | call hrank _ _ _ => exact hrank _ l (hin.view hE h.committed) hl
  · cases hl

omit [Preorder ρ] in
theorem Connections.mem_takes_of_wants {l : Λ} (hl : s.wants E L i = some l) :
    ∃ c t, l ∈ L.takes c t := by
  obtain ⟨x, -, hl⟩ := Option.bind_eq_some_iff.1 hl
  split at hl
  · exact ⟨_, _, List.mem_of_find?_eq_some hl⟩
  · cases hl

/-- Locks that clash are equal in rank, among those that are wanted and held. -/
def Connections.ClashInRank (E : Engine R ε κ σ S P Λ₀ α) (L : Locking C S Λ) (rank : Λ → ρ)
    (s : Connections R ε κ σ S P Λ α n) : Prop :=
  ∀ i l, s.wants E L i = some l → ∀ j x, s.sessions j = some x → ∀ m ∈ x.held, L.clash l m →
    rank l ≤ rank m

/-- A wait goes up in the rank of what is wanted, where those who want nothing stand on top. -/
theorem AllInOrder.waits (hE : Persists E Inv) (h : AllInOrder E L Inv rank s)
    (hclash : s.ClashInRank E L rank) {j : Fin n} (hwaits : s.Waits E L i j) :
    (s.wants E L i).elim ⊤ (fun l => (rank l : WithTop ρ)) <
      (s.wants E L j).elim ⊤ fun l => (rank l : WithTop ρ) := by
  obtain ⟨-, l, hl, hblocks⟩ := hwaits
  obtain ⟨x, hx, hany⟩ := (Option.any_eq_true _ _).1 hblocks
  obtain ⟨m, hm, hlm⟩ := List.any_eq_true.1 hany
  rw [hl]
  cases hj : s.wants E L j with
  | none => exact WithTop.coe_lt_top _
  | some l' =>
    have hle := hclash i l hl j x hx m hm hlm
    exact WithTop.coe_lt_coe.2 (hle.trans_lt (h.rank_lt hE hx hj m hm))

theorem AllInOrder.not_circular (hE : Persists E Inv) (h : AllInOrder E L Inv rank s)
    (hclash : s.ClashInRank E L rank) (i : Fin n) : ¬Relation.TransGen (s.Waits E L) i i := by
  intro hcircle
  have hup := hcircle.lift (p := (· < ·)) _ fun _ _ hwaits => h.waits hE hclash hwaits
  rw [Relation.transGen_eq_self] at hup
  exact lt_irrefl _ hup

end Runs

end LedgerCore.Program.Engine
