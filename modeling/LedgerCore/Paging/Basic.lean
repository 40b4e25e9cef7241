import Mathlib.Data.List.Sort
import Mathlib.Tactic.Common

/-! Keyset pagination: a query returns the first rows after a position, with one row of look-ahead
that tells whether there are more, and its client goes on from the last row it got. -/
namespace LedgerCore.Paging

variable {α κ π ε : Type}

/-- The first `limit` of the rows fetched, and the last of them if there are more. -/
def trim (limit : ℕ) (fetched : List α) : List α × Option α :=
  if limit < fetched.length then (fetched.take limit, fetched[limit - 1]?) else (fetched, none)

/-- The pages that a client gets who starts at a position and follows each page to the next. -/
inductive Follows (fetch : Option κ → Except ε π) (next : π → Option κ) :
    Option κ → List π → Prop
  | last {c : Option κ} {p : π} (hp : fetch c = .ok p) (hnext : next p = none) :
      Follows fetch next c [p]
  | more {c : Option κ} {p : π} {k : κ} {ps : List π} (hp : fetch c = .ok p)
      (hnext : next p = some k) (hps : Follows fetch next (some k) ps) :
      Follows fetch next c (p :: ps)

def position (mark : α → κ) (done : List α) : Option κ := done.getLast?.map mark

/-- What a page tells of itself, given the rows on the pages before it. -/
def Laid (items : π → List α) (info : List α → π → Prop) : List α → List π → Prop
  | _, [] => True
  | done, p :: ps => info done p ∧ Laid items info (done ++ items p) ps

/-- A page that goes on from `done` holds the first `limit` of the rows that are left, and names
the last of them if it is not the last row of all. -/
structure Continues (mark : α → κ) (limit : ℕ) (items : π → List α) (next : π → Option κ)
    (info : List α → π → Prop) (done rest : List α) (p : π) : Prop where
  items : items p = rest.take limit
  next : next p = if limit < rest.length then rest[limit - 1]?.map mark else none
  info : info done p

/-- One row of look-ahead tells whether there are more. -/
theorem trim_take (limit : ℕ) (rows : List α) :
    trim limit (rows.take (limit + 1)) =
      (rows.take limit, if limit < rows.length then rows[limit - 1]? else none) := by
  unfold trim
  by_cases h : limit < rows.length
  · have hmore : limit < (rows.take (limit + 1)).length := by
      rw [List.length_take]
      omega
    have hlast : (rows.take (limit + 1))[limit - 1]? = rows[limit - 1]? :=
      List.getElem?_take_of_lt (by omega)
    simp only [if_pos hmore, if_pos h, hlast, List.take_take, Nat.min_eq_left (Nat.le_succ limit)]
  · have hall : rows.length ≤ limit := Nat.not_lt.1 h
    simp only [if_neg h, List.take_of_length_le hall,
      List.take_of_length_le (Nat.le_succ_of_le hall)]

theorem trim_map {β : Type} (f : α → β) (limit : ℕ) (fetched : List α) :
    trim limit (fetched.map f) = ((trim limit fetched).1.map f, (trim limit fetched).2.map f) := by
  unfold trim
  rw [List.length_map]
  split_ifs
  · simp only [List.map_take, List.getElem?_map]
  · rfl

theorem insertionSort_filter {r : α → α → Prop} [DecidableRel r] [Std.Total r] [IsTrans α r]
    {l : List α} (hanti : ∀ a ∈ l, ∀ b ∈ l, r a b → r b a → a = b) (p : α → Bool) :
    (l.filter p).insertionSort r = (l.insertionSort r).filter p := by
  refine List.Perm.eq_of_pairwise (fun a b ha hb => ?_) (List.pairwise_insertionSort r _)
    ((List.pairwise_insertionSort r l).filter p) ?_
  · rw [List.mem_insertionSort] at ha
    have hb := (List.mem_insertionSort r).1 (List.mem_of_mem_filter hb)
    exact hanti a (List.mem_of_mem_filter ha) b hb
  · exact (List.perm_insertionSort r _).trans ((List.perm_insertionSort r l).filter p).symm

section Position
variable {r : α → α → Prop} {done rest : List α} {a : α}

theorem not_after_of_mem (hsorted : (done ++ rest).Pairwise r) (hasymm : ∀ a b, r a b → ¬r b a)
    (ha : done.getLast? = some a) {b : α} (hb : b ∈ done) : ¬r a b := by
  obtain ⟨init, rfl⟩ := List.getLast?_eq_some_iff.1 ha
  obtain ⟨-, -, hinit⟩ := List.pairwise_append.1 (List.pairwise_append.1 hsorted).1
  intro hab
  rcases List.mem_append.1 hb with hb | hb
  · exact hasymm _ _ hab (hinit b hb a (List.mem_singleton_self a))
  · rw [List.mem_singleton.1 hb] at hab
    exact hasymm _ _ hab hab

theorem after_of_mem (hsorted : (done ++ rest).Pairwise r) (ha : done.getLast? = some a) {b : α}
    (hb : b ∈ rest) : r a b :=
  (List.pairwise_append.1 hsorted).2.2 a (List.mem_of_getLast? ha) b hb

theorem filter_after [DecidableRel r] (hsorted : (done ++ rest).Pairwise r)
    (hasymm : ∀ a b, r a b → ¬r b a) (ha : done.getLast? = some a) : (done ++ rest).filter (fun b => r a b) = rest := by
  rw [List.filter_append, List.filter_eq_nil_iff.2, List.nil_append, List.filter_eq_self.2]
  · exact fun b hb => decide_eq_true (after_of_mem hsorted ha hb)
  · exact fun b hb => by simpa using not_after_of_mem hsorted hasymm ha hb

theorem filter_not_after [DecidableRel r] (hsorted : (done ++ rest).Pairwise r)
    (hasymm : ∀ a b, r a b → ¬r b a) (ha : done.getLast? = some a) : (done ++ rest).filter (fun b => ¬r a b) = done := by
  rw [List.filter_append, List.filter_eq_self.2, List.filter_eq_nil_iff.2, List.append_nil]
  · exact fun b hb => by simpa using after_of_mem hsorted ha hb
  · exact fun b hb => decide_eq_true (not_after_of_mem hsorted hasymm ha hb)

end Position

section Pages
variable {fetch : Option κ → Except ε π} {next : π → Option κ} {mark : α → κ} {limit : ℕ}
  {items : π → List α} {info : List α → π → Prop} {rows : List α}

theorem position_append_take {done rest : List α} (hlimit : 0 < limit)
    (hmore : limit < rest.length) :
    position mark (done ++ rest.take limit) = rest[limit - 1]?.map mark := by
  have hlast : (rest.take limit).getLast? = rest[limit - 1]? := by
    rw [List.getLast?_eq_getElem?, List.length_take, Nat.min_eq_left (Nat.le_of_lt hmore)]
    exact List.getElem?_take_of_lt (by omega)
  rw [position, List.getLast?_append, hlast]
  have hsome : rest[limit - 1]? = some rest[limit - 1] := List.getElem?_eq_getElem (by omega)
  rw [hsome, Option.some_or]

/-- Every page is fetched with the token of the one before, so there is one way to go on. -/
theorem Follows.unique {c : Option κ} {ps ps' : List π} (h : Follows fetch next c ps)
    (h' : Follows fetch next c ps') : ps' = ps := by
  induction h generalizing ps' with
  | last hp hnext =>
    cases h' with
    | last hp' _ => rw [Except.ok.inj (hp.symm.trans hp')]
    | more hp' hnext' _ =>
      rw [← Except.ok.inj (hp.symm.trans hp'), hnext] at hnext'
      cases hnext'
  | more hp hnext _ ih =>
    cases h' with
    | last hp' hnext' =>
      rw [← Except.ok.inj (hp.symm.trans hp'), hnext] at hnext'
      cases hnext'
    | more hp' hnext' hps' =>
      obtain rfl := Except.ok.inj (hp.symm.trans hp')
      obtain rfl := Option.some.inj (hnext.symm.trans hnext')
      rw [ih hps']

/-- The pages that a client gets hold every row once, in order. -/
theorem Follows.laid {c : Option κ} {ps : List π} (h : Follows fetch next c ps) (hlimit : 0 < limit)
    (hpage : ∀ done rest p, rows = done ++ rest → fetch (position mark done) = .ok p →
      Continues mark limit items next info done rest p) :
    ∀ done rest, rows = done ++ rest → c = position mark done →
      ps.flatMap items = rest ∧ Laid items info done ps := by
  induction h with
  | last hp hnext =>
    rintro done rest hrows rfl
    obtain ⟨hitems, hnext', hinfo⟩ := hpage done rest _ hrows hp
    have hall : rest.length ≤ limit := by
      by_contra hmore
      rw [Nat.not_le] at hmore
      have hsome : rest[limit - 1]? = some rest[limit - 1] := List.getElem?_eq_getElem (by omega)
      rw [hnext, if_pos hmore, hsome] at hnext'
      cases hnext'
    rw [List.flatMap_singleton, hitems, List.take_of_length_le hall]
    exact ⟨rfl, hinfo, trivial⟩
  | more hp hnext hps ih =>
    rintro done rest hrows rfl
    obtain ⟨hitems, hnext', hinfo⟩ := hpage done rest _ hrows hp
    have hmore : limit < rest.length := by
      by_contra hall
      rw [hnext, if_neg hall] at hnext'
      cases hnext'
    rw [hnext, if_pos hmore] at hnext'
    obtain ⟨hrest, hlaid⟩ := ih (done ++ rest.take limit) (rest.drop limit)
      (by rw [List.append_assoc, List.take_append_drop, hrows])
      (hnext'.trans (position_append_take hlimit hmore).symm)
    rw [List.flatMap_cons, hrest, hitems, List.take_append_drop]
    exact ⟨rfl, hinfo, hitems ▸ hlaid⟩

/-- A client whose every page comes back gets to the last page. -/
theorem exists_follows (hlimit : 0 < limit)
    (hpage : ∀ done rest p, rows = done ++ rest → fetch (position mark done) = .ok p →
      Continues mark limit items next info done rest p)
    (hfetch : ∀ done rest, rows = done ++ rest → ∃ p, fetch (position mark done) = .ok p) :
    ∃ ps, Follows fetch next none ps := by
  suffices H : ∀ n done rest, rest.length ≤ n → rows = done ++ rest →
      ∃ ps, Follows fetch next (position mark done) ps from
    H rows.length [] rows (Nat.le_refl _) rfl
  intro n
  -- The rows that are left get fewer, by at least one a page.
  induction n with
  | zero =>
    intro done rest hlength hrows
    obtain ⟨p, hp⟩ := hfetch done rest hrows
    refine ⟨[p], .last hp ?_⟩
    rw [(hpage done rest p hrows hp).next, if_neg (by omega)]
  | succ n ih =>
    intro done rest hlength hrows
    obtain ⟨p, hp⟩ := hfetch done rest hrows
    have hnext := (hpage done rest p hrows hp).next
    by_cases hmore : limit < rest.length
    · have hsome : rest[limit - 1]? = some rest[limit - 1] := List.getElem?_eq_getElem (by omega)
      obtain ⟨ps, hps⟩ := ih (done ++ rest.take limit) (rest.drop limit)
        (by rw [List.length_drop]; omega)
        (by rw [List.append_assoc, List.take_append_drop, hrows])
      rw [position_append_take hlimit hmore, hsome] at hps
      rw [if_pos hmore, hsome] at hnext
      exact ⟨p :: ps, .more hp hnext hps⟩
    · rw [if_neg hmore] at hnext
      exact ⟨[p], .last hp hnext⟩

end Pages

end LedgerCore.Paging
