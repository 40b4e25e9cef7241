import Mathlib.Data.List.Forall2
import Mathlib.Data.List.Induction
import Mathlib.Logic.Function.Basic
import LedgerCore.Program.Basic

/-! Transactions that run at the same time on one store. Each sees the latest committed state
under its own uncommitted changes, and keeps the locks it takes until it ends. -/
namespace LedgerCore.Program

variable {C : Type} {R : C → Type} {ε κ σ S P Λ α : Type}

/-- A store whose transactions, of kinds `κ`, work in states `σ`: what a statement does there, the
locks it needs, and changes of the store as values. -/
structure Engine (R : C → Type) (ε κ σ S P Λ α : Type) where
  program : κ → Prog R ε α
  exec : κ → Handler R ε σ
  start : S → σ
  commit : σ → Except ε S
  stored : σ → S
  rebase : σ → S → σ
  locks : C → List Λ
  diff : S → S → P
  patch : P → S → S

namespace Engine

/-- A transaction that runs alone. -/
def transact (E : Engine R ε κ σ S P Λ α) (k : κ) (s : S) : Except ε (α × S) := do
  let (a, x) ← (E.program k).run (E.exec k) (E.start s)
  let s' ← E.commit x
  pure (a, s')

/-- One more transaction after others; one that fails leaves the store as it is. -/
def serialStep (E : Engine R ε κ σ S P Λ α) (done : List (Except ε α) × S) (k : κ) :
    List (Except ε α) × S :=
  match E.transact k done.2 with
  | .ok (a, s) => (done.1 ++ [.ok a], s)
  | .error e => (done.1 ++ [.error e], done.2)

/-- The outcomes of transactions that run one after another, and the store after them. -/
def serial (E : Engine R ε κ σ S P Λ α) (s : S) (ks : List κ) : List (Except ε α) × S :=
  ks.foldl E.serialStep ([], s)

/-- A running transaction: what is left of its program, its state, and its uncommitted changes. -/
structure Session (R : C → Type) (ε κ σ P α : Type) where
  kind : κ
  rest : Prog R ε α
  state : σ
  changes : List P

structure Finished (ε κ α : Type) where
  kind : κ
  outcome : Except ε α

/-- The committed store, the running transactions, the holder of each lock, and the transactions
that ended, in the order in which they did. -/
structure Sys (R : C → Type) (ε κ σ S P Λ α : Type) where
  committed : S
  sessions : ℕ → Option (Session R ε κ σ P α)
  holder : Λ → Option ℕ
  finished : List (Finished ε κ α)

inductive Action (κ : Type) where
  | begin (i : ℕ) (kind : κ)
  | advance (i : ℕ)
  /-- The transaction goes away without an outcome: its connection is lost, or a deadlock is
  broken at its cost. -/
  | cancel (i : ℕ)

def patches (E : Engine R ε κ σ S P Λ α) (changes : List P) (s : S) : S :=
  changes.foldl (fun s δ => E.patch δ s) s

/-- What the session sees: the latest committed state under its own changes. -/
def Session.view (E : Engine R ε κ σ S P Λ α) (x : Session R ε κ σ P α) (s : S) : σ :=
  E.rebase x.state (E.patches x.changes s)

/-- The session after a statement on the committed state `s`. -/
def Session.next (E : Engine R ε κ σ S P Λ α) (x : Session R ε κ σ P α) (s : S) (rest : Prog R ε α)
    (state : σ) : Session R ε κ σ P α :=
  { x with
    rest
    state
    changes := x.changes ++ [E.diff (E.stored (x.view E s)) (E.stored state)] }

namespace Sys

def init (s : S) : Sys R ε κ σ S P Λ α := ⟨s, fun _ => none, fun _ => none, []⟩

def close (s : Sys R ε κ σ S P Λ α) (i : ℕ) : Sys R ε κ σ S P Λ α :=
  { s with
    sessions := Function.update s.sessions i none
    holder := fun l => (s.holder l).filter fun j => j ≠ i }

def finish (s : Sys R ε κ σ S P Λ α) (i : ℕ) (x : Session R ε κ σ P α) (outcome : Except ε α) :
    Sys R ε κ σ S P Λ α :=
  { s.close i with finished := s.finished ++ [⟨x.kind, outcome⟩] }

variable [DecidableEq Λ]

/-- The next statement of a session, or its end. A statement that succeeds first waits for its
locks; one that fails ends the transaction, with or without them. -/
def advance (E : Engine R ε κ σ S P Λ α) (s : Sys R ε κ σ S P Λ α) (i : ℕ) :
    Option (Sys R ε κ σ S P Λ α) :=
  (s.sessions i).bind fun x =>
    match x.rest with
    | .pure a =>
      match E.commit (x.view E s.committed) with
      | .ok committed => some { s.finish i x (.ok a) with committed }
      | .error e => some (s.finish i x (.error e))
    | .fail e => some (s.finish i x (.error e))
    | .call c k =>
      match E.exec x.kind c (x.view E s.committed) with
      | .ok (r, state) =>
        if (E.locks c).all fun l => s.holder l = none || s.holder l = some i then
          some { s with
            sessions := Function.update s.sessions i (some (x.next E s.committed (k r) state))
            holder := fun l => if l ∈ E.locks c then some i else s.holder l }
        else none
      | .error e => some (s.finish i x (.error e))

def step (E : Engine R ε κ σ S P Λ α) (s : Sys R ε κ σ S P Λ α) :
    Action κ → Option (Sys R ε κ σ S P Λ α)
  | .begin i kind =>
    if (s.sessions i).isNone then
      some { s with
        sessions := Function.update s.sessions i
          (some ⟨kind, E.program kind, E.start s.committed, []⟩) }
    else none
  | .advance i => s.advance E i
  | .cancel i => some (s.close i)

def run (E : Engine R ε κ σ S P Λ α) (s : Sys R ε κ σ S P Λ α) (actions : List (Action κ)) :
    Option (Sys R ε κ σ S P Λ α) :=
  actions.foldlM (step E) s

end Sys

/-- What a step can be. -/
inductive Sys.Steps [DecidableEq Λ] (E : Engine R ε κ σ S P Λ α) (s : Sys R ε κ σ S P Λ α) :
    Action κ → Sys R ε κ σ S P Λ α → Prop where
  | begins {i : ℕ} {kind : κ} (idle : s.sessions i = none) :
    Steps E s (.begin i kind) { s with
      sessions := Function.update s.sessions i
        (some ⟨kind, E.program kind, E.start s.committed, []⟩) }
  | calls {i : ℕ} {x : Session R ε κ σ P α} {c : C} {k : R c → Prog R ε α} {r : R c} {state : σ}
    (session : s.sessions i = some x) (rest : x.rest = .call c k)
    (exec : E.exec x.kind c (x.view E s.committed) = .ok (r, state))
    (free : ∀ l ∈ E.locks c, s.holder l = none ∨ s.holder l = some i) :
    Steps E s (.advance i) { s with
      sessions := Function.update s.sessions i (some (x.next E s.committed (k r) state))
      holder := fun l => if l ∈ E.locks c then some i else s.holder l }
  | commits {i : ℕ} {x : Session R ε κ σ P α} {a : α} {committed : S}
    (session : s.sessions i = some x) (rest : x.rest = .pure a)
    (commit : E.commit (x.view E s.committed) = .ok committed) :
    Steps E s (.advance i) { s.finish i x (.ok a) with committed }
  | fails {i : ℕ} {x : Session R ε κ σ P α} {e : ε} (session : s.sessions i = some x)
    (error : (x.rest.run (E.exec x.kind) (x.view E s.committed) >>= fun y => E.commit y.2) = .error e) :
    Steps E s (.advance i) (s.finish i x (.error e))
  | cancels {i : ℕ} : Steps E s (.cancel i) (s.close i)

theorem Sys.steps [DecidableEq Λ] {E : Engine R ε κ σ S P Λ α} {s s' : Sys R ε κ σ S P Λ α}
    {a : Action κ} (hstep : s.step E a = some s') : s.Steps E a s' := by
  cases a with
  | begin i kind =>
    simp only [Sys.step] at hstep
    split_ifs at hstep with hidle
    cases hstep
    exact .begins (Option.isNone_iff_eq_none.1 hidle)
  | advance i =>
    obtain ⟨x, hi, hstep⟩ := Option.bind_eq_some_iff.1 hstep
    split at hstep
    · next a hrest =>
      split at hstep
      · next committed hcommit =>
        cases hstep
        exact .commits hi hrest hcommit
      · next e hcommit =>
        cases hstep
        exact .fails hi (by rw [hrest]; exact hcommit)
    · next e hrest =>
      cases hstep
      exact .fails hi (by rw [hrest]; rfl)
    · next c k hrest =>
      split at hstep
      · next r state hexec =>
        split_ifs at hstep with hlocks
        cases hstep
        simp only [List.all_eq_true, Bool.or_eq_true, decide_eq_true_eq] at hlocks
        exact .calls hi hrest hexec hlocks
      · next e hexec =>
        cases hstep
        exact .fails hi (by rw [hrest, Prog.run, hexec]; rfl)
  | cancel i =>
    cases hstep
    exact .cancels

/-- What makes locks enough. `Kept L s t` says that `t` may come from `s` by what others commit
while the locks in `L` are held. -/
structure Isolates (E : Engine R ε κ σ S P Λ α) (Q : C → Prop) (Kept : (Λ → Prop) → S → S → Prop) :
    Prop where
  stored_start : ∀ s, E.stored (E.start s) = s
  rebase_start : ∀ s t, E.rebase (E.start s) t = E.start t
  stored_rebase : ∀ x s, E.stored (E.rebase x s) = s
  rebase_rebase : ∀ x s t, E.rebase (E.rebase x s) t = E.rebase x t
  rebase_stored : ∀ x, E.rebase x (E.stored x) = x
  commit_stored : ∀ {x s}, E.commit x = .ok s → s = E.stored x
  refl : ∀ L s, Kept L s s
  trans : ∀ {L s t u}, Kept L s t → Kept L t u → Kept L s u
  mono : ∀ {L L' : Λ → Prop} {s t}, (∀ l, L' l → L l) → Kept L s t → Kept L' s t
  /-- A statement whose locks are held does the same wherever the others take the store. -/
  replay : ∀ {k c x t r x'}, Q c → Kept (· ∈ E.locks c) (E.stored x) t →
    E.exec k c x = .ok (r, x') →
    E.exec k c (E.rebase x t) =
      .ok (r, E.rebase x' (E.patch (E.diff (E.stored x) (E.stored x')) t))
  keeps : ∀ {k c L x t r r' x' y}, Q c → (∀ l ∈ E.locks c, L l) → Kept L (E.stored x) t →
    E.exec k c x = .ok (r, x') → E.exec k c (E.rebase x t) = .ok (r', y) →
    Kept L (E.stored x') (E.stored y)
  frame : ∀ {k c L x r x'}, Q c → (∀ l ∈ E.locks c, ¬L l) → E.exec k c x = .ok (r, x') →
    Kept L (E.stored x) (E.stored x')

/-- The session's program, from its start on the committed state `s` to the state `x` where `rest`
is left: every statement took locks in `L`, and does what it did wherever they are kept. -/
inductive Ran (E : Engine R ε κ σ S P Λ α) (Kept : (Λ → Prop) → S → S → Prop) (k : κ)
    (L : Λ → Prop) (s : S) : List P → σ → Prog R ε α → Prop
  | start : Ran E Kept k L s [] (E.start s) (E.program k)
  | call {changes : List P} {x x' : σ} {c : C} {f : R c → Prog R ε α} {r : R c} {δ : P} :
    Ran E Kept k L s changes x (.call c f) → (∀ l ∈ E.locks c, L l) →
    (∀ t, Kept (· ∈ E.locks c) (E.stored x) t →
      E.exec k c (E.rebase x t) = .ok (r, E.rebase x' (E.patch δ t))) →
    Ran E Kept k L s (changes ++ [δ]) (E.rebase x' (E.patch δ (E.stored x))) (f r)

section Ran
variable {E : Engine R ε κ σ S P Λ α} {Q : C → Prop} {Kept : (Λ → Prop) → S → S → Prop} {k : κ}
  {rest : Prog R ε α} {L L' : Λ → Prop} {s t : S} {changes : List P} {x : σ}

theorem patches_concat (changes : List P) (δ : P) (s : S) :
    E.patches (changes ++ [δ]) s = E.patch δ (E.patches changes s) := by
  simp only [patches, List.foldl_append, List.foldl_cons, List.foldl_nil]

theorem Ran.mono (h : Ran E Kept k L s changes x rest) (hL : ∀ l, L l → L' l) :
    Ran E Kept k L' s changes x rest := by
  induction h with
  | start => exact .start
  | call _ hlocks hδ ih => exact .call ih (fun l hl => hL l (hlocks l hl)) hδ

theorem Ran.onlyCalls (h : Ran E Kept k L s changes x rest) (hp : (E.program k).OnlyCalls Q) :
    rest.OnlyCalls Q := by
  induction h with
  | start => exact hp
  | call _ _ _ ih => exact ih.2 _

variable (hE : E.Isolates Q Kept)
include hE

theorem Ran.exec_eq {x x' : σ} {c : C} {r : R c} {δ : P}
    (hδ : ∀ t, Kept (· ∈ E.locks c) (E.stored x) t →
      E.exec k c (E.rebase x t) = .ok (r, E.rebase x' (E.patch δ t))) :
    E.exec k c x = .ok (r, E.rebase x' (E.patch δ (E.stored x))) := by
  have h := hδ _ (hE.refl _ _)
  rwa [hE.rebase_stored] at h

/-- What is left runs as the whole program does on the committed state. -/
theorem Ran.run (h : Ran E Kept k L s changes x rest) :
    (E.program k).run (E.exec k) (E.start s) = rest.run (E.exec k) x := by
  induction h with
  | start => rfl
  | call _ _ hδ ih => rw [ih, Prog.run, exec_eq hE hδ]

/-- A session's changes do not show to those who hold other locks. -/
theorem Ran.frame (h : Ran E Kept k L s changes x rest) (hp : (E.program k).OnlyCalls Q)
    (hL : ∀ l, L l → ¬L' l) : Kept L' s (E.stored x) := by
  induction h with
  | start => rw [hE.stored_start]; exact hE.refl _ _
  | call hran hlocks hδ ih =>
    exact hE.trans ih (hE.frame (hran.onlyCalls hp).1 (fun l hl => hL l (hlocks l hl)) (exec_eq hE hδ))

/-- While its locks are kept, a session can be replayed on every later committed state. -/
theorem Ran.replay (h : Ran E Kept k L s changes x rest) (hp : (E.program k).OnlyCalls Q)
    (hkept : Kept L s t) :
    Ran E Kept k L t changes (E.rebase x (E.patches changes t)) rest ∧
      Kept L (E.stored x) (E.patches changes t) := by
  induction h with
  | start => 
    rw [hE.rebase_start, hE.stored_start]
    exact ⟨.start, hkept⟩
  | @call changes x x' c f r δ hran hlocks hδ ih =>
    obtain ⟨hran', hkept'⟩ := ih
    have hQ := (hran.onlyCalls hp).1
    have hlocked := hE.mono hlocks hkept'
    -- The statement's own locks are kept from where it ran to where it is replayed.
    have hδ' : ∀ u, Kept (· ∈ E.locks c) (E.stored (E.rebase x (E.patches changes t))) u →
        E.exec k c (E.rebase (E.rebase x (E.patches changes t)) u) =
          .ok (r, E.rebase x' (E.patch δ u)) := by
      intro u hu
      rw [hE.stored_rebase] at hu
      rw [hE.rebase_rebase]
      exact hδ u (hE.trans hlocked hu)
    have hnext := Ran.call hran' hlocks hδ'
    rw [hE.stored_rebase] at hnext
    rw [patches_concat, hE.rebase_rebase, hE.stored_rebase]
    refine ⟨hnext, ?_⟩
    have hkeeps := hE.keeps hQ hlocks hkept' (exec_eq hE hδ) (hδ _ hlocked)
    rwa [hE.stored_rebase, hE.stored_rebase] at hkeeps

end Ran

/-- The transactions that ended did so as if each had run alone, in the order of their ends; those
that still run could be replayed on the state that these left. -/
structure Serializes (E : Engine R ε κ σ S P Λ α) (Q : C → Prop) (Kept : (Λ → Prop) → S → S → Prop)
    (s₀ : S) (s : Sys R ε κ σ S P Λ α) : Prop where
  programs : ∀ i x, s.sessions i = some x → (E.program x.kind).OnlyCalls Q
  sessions : ∀ i x, s.sessions i = some x →
    Ran E Kept x.kind (fun l => s.holder l = some i) s.committed x.changes
      (x.view E s.committed) x.rest
  finished : E.serial s₀ (s.finished.map fun f => f.kind) =
    (s.finished.map fun f => f.outcome, s.committed)

section Serial
variable {E : Engine R ε κ σ S P Λ α} {Q : C → Prop} {Kept : (Λ → Prop) → S → S → Prop} {s₀ : S}
  {s s' : Sys R ε κ σ S P Λ α} {i : ℕ} {x : Session R ε κ σ P α}

theorem transact_of_ok {k : κ} {s : S} {a : α} {x : σ}
    (h : (E.program k).run (E.exec k) (E.start s) = .ok (a, x)) :
    E.transact k s = (E.commit x).map fun s' => (a, s') := by
  rw [transact, h]
  change (E.commit x >>= fun s' => pure (a, s')) = _
  cases E.commit x <;> rfl

theorem transact_of_error {k : κ} {s : S} {e : ε}
    (h : ((E.program k).run (E.exec k) (E.start s) >>= fun y => E.commit y.2) = .error e) :
    E.transact k s = .error e := by
  rcases bind_eq_error.1 h with hrun | ⟨y, hrun, hcommit⟩
  · rw [transact, hrun]
    rfl
  · rw [transact_of_ok hrun, hcommit]
    rfl

theorem serial_concat (s : S) (ks : List κ) (k : κ) :
    E.serial s (ks ++ [k]) = E.serialStep (E.serial s ks) k := by
  simp only [serial, List.foldl_append, List.foldl_cons, List.foldl_nil]

/-- Every outcome is that of the transaction on some state. -/
theorem serial_outcomes (E : Engine R ε κ σ S P Λ α) (s : S) (ks : List κ) :
    List.Forall₂ (fun k o => ∃ t, (E.transact k t).map Prod.fst = o) ks (E.serial s ks).1 := by
  induction ks using List.reverseRecOn with
  | nil => exact .nil
  | append_singleton ks k ih =>
    rw [serial_concat, serialStep]
    split
    · next a t ht => exact List.rel_append ih (.cons ⟨_, by rw [ht]; rfl⟩ .nil)
    · next e ht => exact List.rel_append ih (.cons ⟨_, by rw [ht]; rfl⟩ .nil)

/-- What holds before any transaction, and stays when one more of them fails or commits, holds of
every serial run. -/
theorem serial_induction {motive : List (Finished ε κ α) → S → Prop} (nil : motive [] s₀)
    (fail : ∀ done t k e, motive done t → E.transact k t = .error e →
      motive (done ++ [⟨k, .error e⟩]) t)
    (commit : ∀ done t t' k a, motive done t → E.transact k t = .ok (a, t') →
      motive (done ++ [⟨k, .ok a⟩]) t') {done : List (Finished ε κ α)} {t : S}
    (h : E.serial s₀ (done.map fun f => f.kind) = (done.map fun f => f.outcome, t)) :
    motive done t := by
  induction done using List.reverseRecOn generalizing t with
  | nil =>
    cases h
    exact nil
  | append_singleton done f ih =>
    obtain ⟨k, o⟩ := f
    simp only [List.map_append, List.map_cons, List.map_nil, serial_concat, serialStep] at h
    split at h
    · next a t' ht =>
      obtain ⟨hdone, ho⟩ := List.append_inj' (congrArg Prod.fst h) rfl
      cases List.head_eq_of_cons_eq ho
      cases congrArg Prod.snd h
      exact commit _ _ _ _ _ (ih (Prod.ext hdone rfl)) ht
    · next e ht =>
      obtain ⟨hdone, ho⟩ := List.append_inj' (congrArg Prod.fst h) rfl
      cases List.head_eq_of_cons_eq ho
      cases congrArg Prod.snd h
      exact fail _ _ _ _ (ih (Prod.ext hdone rfl)) ht

theorem Sys.close_session {j : ℕ} {y : Session R ε κ σ P α}
    (h : (s.close i).sessions j = some y) : j ≠ i ∧ s.sessions j = some y := by
  by_cases hj : j = i
  · subst hj
    simp [Sys.close] at h
  · exact ⟨hj, by simpa [Sys.close, hj] using h⟩

theorem Sys.close_holder {j : ℕ} (hj : j ≠ i) {l : Λ} (h : s.holder l = some j) :
    (s.close i).holder l = some j := by
  simp [Sys.close, h, hj]

theorem Sys.holder_of_free [DecidableEq Λ] {c : C} {j : ℕ} {l : Λ}
    (hfree : ∀ l ∈ E.locks c, s.holder l = none ∨ s.holder l = some i) (h : s.holder l = some j) :
    (if l ∈ E.locks c then some i else s.holder l) = some j := by
  split_ifs with hmem
  · rcases hfree l hmem with hnone | hown
    · exact nomatch hnone.symm.trans h
    · exact hown.symm.trans h
  · exact h

theorem Serializes.close (h : Serializes E Q Kept s₀ s) (i : ℕ) :
    Serializes E Q Kept s₀ (s.close i) := by
  refine ⟨fun j y hy => h.programs j y (Sys.close_session hy).2, fun j y hy => ?_, h.finished⟩
  obtain ⟨hj, hy⟩ := Sys.close_session hy
  exact (h.sessions j y hy).mono fun l => Sys.close_holder hj

theorem Serializes.finish_error (h : Serializes E Q Kept s₀ s) {e : ε}
    (hx : E.transact x.kind s.committed = .error e) :
    Serializes E Q Kept s₀ (s.finish i x (.error e)) := by
  refine { h.close i with finished := ?_ }
  change E.serial s₀ ((s.finished ++ [_]).map _) = ((s.finished ++ [_]).map _, s.committed)
  rw [List.map_append, List.map_singleton, serial_concat, h.finished, serialStep]
  simp only [hx, List.map_append, List.map_singleton]

variable (hE : E.Isolates Q Kept)
include hE

theorem Serializes.finish_ok (h : Serializes E Q Kept s₀ s) {a : α} {committed : S}
    (hi : s.sessions i = some x)
    (hcommit : E.commit (x.view E s.committed) = .ok committed)
    (hx : E.transact x.kind s.committed = .ok (a, committed)) :
    Serializes E Q Kept s₀ { s.finish i x (.ok a) with committed } := by
  refine ⟨fun j y hy => h.programs j y (Sys.close_session hy).2, fun j y hy => ?_, ?_⟩
  · obtain ⟨hj, hy⟩ := Sys.close_session hy
    -- No lock has two holders, so the commit does not show to the other session.
    have hkept : Kept (fun l => s.holder l = some j) s.committed committed := by
      rw [hE.commit_stored hcommit]
      refine (h.sessions i x hi).frame hE (h.programs i x hi) fun l hl hl' => hj ?_
      exact Option.some.inj (hl'.symm.trans hl)
    have hran := ((h.sessions j y hy).replay hE (h.programs j y hy) hkept).1
    rw [Session.view, hE.rebase_rebase] at hran
    exact hran.mono fun l => Sys.close_holder hj
  · change E.serial s₀ ((s.finished ++ [_]).map _) = ((s.finished ++ [_]).map _, committed)
    rw [List.map_append, List.map_singleton, serial_concat, h.finished, serialStep]
    simp only [hx, List.map_append, List.map_singleton]

theorem Session.view_next (s : S) (rest : Prog R ε α) (state : σ) :
    (x.next E s rest state).view E s = E.rebase state
      (E.patch (E.diff (E.stored (x.view E s)) (E.stored state)) (E.stored (x.view E s))) := by
  have hview : E.stored (x.view E s) = E.patches x.changes s := hE.stored_rebase _ _
  change E.rebase state (E.patches (x.changes ++ [_]) s) = _
  rw [patches_concat, hview]

theorem Serializes.statement [DecidableEq Λ] (h : Serializes E Q Kept s₀ s)
    (hi : s.sessions i = some x) {c : C} {k : R c → Prog R ε α} {r : R c} {state : σ}
    (hrest : x.rest = .call c k) (hexec : E.exec x.kind c (x.view E s.committed) = .ok (r, state))
    (hlocks : ∀ l ∈ E.locks c, s.holder l = none ∨ s.holder l = some i) :
    Serializes E Q Kept s₀ { s with
      sessions := Function.update s.sessions i (some (x.next E s.committed (k r) state))
      holder := fun l => if l ∈ E.locks c then some i else s.holder l } := by
  have hran := h.sessions i x hi
  rw [hrest] at hran
  have hQ : Q c := (hran.onlyCalls (h.programs i x hi)).1
  refine ⟨fun j y hy => ?_, fun j y hy => ?_, h.finished⟩
  · by_cases hj : j = i
    · subst hj
      simp only [Function.update_self, Option.some.injEq] at hy
      exact hy ▸ h.programs j x hi
    · exact h.programs j y (by simpa [hj] using hy)
  · by_cases hj : j = i
    · subst hj
      simp only [Function.update_self, Option.some.injEq] at hy
      subst hy
      rw [Session.view_next hE]
      exact .call (hran.mono fun l => Sys.holder_of_free hlocks) (fun l hl => if_pos hl) fun t ht => hE.replay hQ ht hexec
    · have hy' : s.sessions j = some y := by simpa [hj] using hy
      exact (h.sessions j y hy').mono fun l => Sys.holder_of_free hlocks

/-- The programs of a run make only the calls that `Q` admits. -/
def Action.Admits (E : Engine R ε κ σ S P Λ α) (Q : C → Prop) : Action κ → Prop
  | .begin _ kind => (E.program kind).OnlyCalls Q
  | _ => True

theorem Serializes.step [DecidableEq Λ] {a : Action κ} (h : Serializes E Q Kept s₀ s)
    (ha : a.Admits E Q) (hstep : s.step E a = some s') : Serializes E Q Kept s₀ s' := by
  cases Sys.steps hstep with
  | @begins i kind idle =>
    refine ⟨fun j y hy => ?_, fun j y hy => ?_, h.finished⟩
    · by_cases hj : j = i
      · subst hj
        simp only [Function.update_self, Option.some.injEq] at hy
        exact hy ▸ ha
      · exact h.programs j y (by simpa [hj] using hy)
    · by_cases hj : j = i
      · subst hj
        simp only [Function.update_self, Option.some.injEq] at hy
        subst hy
        rw [Session.view, hE.rebase_start]
        exact .start
      · exact h.sessions j y (by simpa [hj] using hy)
  | calls session rest exec free => exact h.statement hE session rest exec free
  | @commits i x a committed session rest commit =>
    have hrun := (h.sessions i x session).run hE
    have halone := transact_of_ok (hrun.trans (by rw [rest, Prog.run]))
    exact h.finish_ok hE session commit (halone.trans (by rw [commit]; rfl))
  | @fails i x e session error =>
    have hrun := (h.sessions i x session).run hE
    exact h.finish_error (transact_of_error (by rw [hrun, error]))
  | cancels => exact h.close _

theorem serializes [DecidableEq Λ] {actions : List (Action κ)}
    (ha : ∀ a ∈ actions, a.Admits E Q) (hs : Serializes E Q Kept s₀ s)
    (hrun : s.run E actions = some s') : Serializes E Q Kept s₀ s' := by
  induction actions generalizing s with
  | nil =>
    cases hrun
    exact hs
  | cons a actions ih =>
    obtain ⟨s₁, hstep, hrest⟩ := Option.bind_eq_some_iff.1 hrun
    exact ih (fun b hb => ha b (List.mem_cons_of_mem _ hb))
      (hs.step hE (ha a List.mem_cons_self) hstep) hrest

/-- A step leaves the committed state alone, or commits one transaction on it. -/
theorem Serializes.committed_step [DecidableEq Λ] {a : Action κ} (h : Serializes E Q Kept s₀ s)
    (hstep : s.step E a = some s') :
    s'.committed = s.committed ∨ ∃ k r, E.transact k s.committed = .ok (r, s'.committed) := by
  cases Sys.steps hstep with
  | @commits i x a committed session rest commit =>
    have hrun := (h.sessions i x session).run hE
    have halone := transact_of_ok (hrun.trans (by rw [rest, Prog.run]))
    exact .inr ⟨x.kind, a, halone.trans (by rw [commit]; rfl)⟩
  | _ => exact .inl rfl

omit hE in
theorem Serializes.outcome (h : Serializes E Q Kept s₀ s) {f : Finished ε κ α}
    (hf : f ∈ s.finished) : ∃ t, (E.transact f.kind t).map Prod.fst = f.outcome := by
  have houtcomes := E.serial_outcomes s₀ (s.finished.map fun f => f.kind)
  rw [h.finished, List.forall₂_map_left_iff, List.forall₂_map_right_iff, List.forall₂_same] at houtcomes
  exact houtcomes f hf

/-- The kinds that a run begins are all of `K`. -/
def Action.Begins (K : κ → Prop) : Action κ → Prop
  | .begin _ kind => K kind
  | _ => True

/-- Whatever runs or has ended is of a kind in `K`. -/
structure Begun (K : κ → Prop) (s : Sys R ε κ σ S P Λ α) : Prop where
  sessions : ∀ i x, s.sessions i = some x → K x.kind
  finished : ∀ f ∈ s.finished, K f.kind

section Begun
omit hE
variable {K : κ → Prop}

theorem begun_init : Begun K (Sys.init s₀ : Sys R ε κ σ S P Λ α) :=
  ⟨fun _ _ h => (nomatch h), fun _ h => (nomatch h)⟩

theorem Begun.finish (h : Begun K s) (hi : s.sessions i = some x) (o : Except ε α) :
    Begun K (s.finish i x o) := by
  refine ⟨fun j y hy => h.sessions j y (Sys.close_session hy).2, fun f hf => ?_⟩
  rcases List.mem_append.1 hf with hf | hf
  · exact h.finished f hf
  · rw [List.mem_singleton.1 hf]
    exact h.sessions i x hi

theorem Begun.update (h : Begun K s) {y : Session R ε κ σ P α} (hy : K y.kind) {j : ℕ}
    {z : Session R ε κ σ P α} (hz : Function.update s.sessions i (some y) j = some z) : K z.kind := by
  by_cases hj : j = i
  · subst hj
    rw [Function.update_self] at hz
    exact Option.some.inj hz ▸ hy
  · rw [Function.update_of_ne hj] at hz
    exact h.sessions j z hz

variable [DecidableEq Λ]

theorem Begun.step {a : Action κ} (h : Begun K s) (ha : a.Begins K) (hstep : s.step E a = some s') :
    Begun K s' := by
  cases Sys.steps hstep with
  | @begins i kind idle => exact ⟨fun j z hz => h.update (y := ⟨kind, _, _, _⟩) ha hz, h.finished⟩
  | @calls i x c k r state session =>
    exact ⟨fun j z hz => h.update (y := x.next E s.committed (k r) state) (h.sessions i x session) hz,
      h.finished⟩
  | @commits i x a committed session =>
    have hdone := h.finish session (.ok a)
    exact ⟨hdone.sessions, hdone.finished⟩
  | fails session error => exact h.finish session _
  | cancels => exact ⟨fun j y hy => h.sessions j y (Sys.close_session hy).2, h.finished⟩

theorem Begun.run {actions : List (Action κ)} (h : Begun K s) (ha : ∀ a ∈ actions, a.Begins K)
    (hrun : s.run E actions = some s') : Begun K s' := by
  induction actions generalizing s with
  | nil =>
    cases hrun
    exact h
  | cons a actions ih =>
    obtain ⟨s₁, hstep, hrest⟩ := Option.bind_eq_some_iff.1 hrun
    exact ih (h.step (ha a List.mem_cons_self) hstep) (fun b hb => ha b (List.mem_cons_of_mem _ hb))
      hrest

end Begun

omit hE in
theorem serializes_init : Serializes E Q Kept s₀ (Sys.init s₀ : Sys R ε κ σ S P Λ α) :=
  ⟨fun _ _ h => (nomatch h), fun _ _ h => (nomatch h), rfl⟩

end Serial

end Engine

end LedgerCore.Program
