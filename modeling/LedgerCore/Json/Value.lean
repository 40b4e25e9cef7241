import Mathlib.Data.List.Forall2
import Mathlib.Data.List.Pairwise
import Mathlib.Data.List.Perm.Basic
import Mathlib.Data.List.Sort
import LedgerCore.Json.Basic
import LedgerCore.Json.Binary64

/-! What a document means: its numbers are doubles, and the members of an object have no order. -/
namespace LedgerCore.Json
variable {ms : List (String × Json)}

inductive Value where
  | null
  | bool (b : Bool)
  | number (f : ℚ)
  | string (s : String)
  | array (items : List Value)
  | object (members : List (String × Value))

def codeUnits (s : String) : List ℕ :=
  s.toList.flatMap fun c =>
    if c.toNat < 0x10000 then [c.toNat]
    else [0xD800 + (c.toNat - 0x10000) / 0x400, 0xDC00 + (c.toNat - 0x10000) % 0x400]

def lessUTF16 (a b : String) : Bool := codeUnits a < codeUnits b

section Members
variable {α : Type}

def keepLast (members : List (String × α)) : List (String × α) :=
  members.pwFilter fun m n => m.1 ≠ n.1

def sortMembers (members : List (String × α)) : List (String × α) :=
  members.insertionSort fun m n => ¬lessUTF16 n.1 m.1

end Members

mutual

/-- The value of a document; a number that no double is near has none. -/
def value : Json → Option Value
  | .null => some .null
  | .bool b => some (.bool b)
  | .number n => (binary64 n.value).map .number
  | .string s => some (.string s)
  | .array items => (values items).map .array
  | .object members => (memberValues members).map fun ms => .object (sortMembers (keepLast ms))

def values : List Json → Option (List Value)
  | [] => some []
  | d :: ds => do
    let v ← value d
    let vs ← values ds
    some (v :: vs)

def memberValues : List (String × Json) → Option (List (String × Value))
  | [] => some []
  | (key, d) :: ms => do
    let v ← value d
    let vs ← memberValues ms
    some ((key, v) :: vs)

end

mutual

/-- The first key that an object has twice. -/
def duplicate : Json → Option String
  | .array items => duplicateItem items
  | .object members => duplicateMember [] members
  | _ => none

def duplicateItem : List Json → Option String
  | [] => none
  | d :: ds => (duplicate d).or (duplicateItem ds)

def duplicateMember (seen : List String) : List (String × Json) → Option String
  | [] => none
  | (key, d) :: ms =>
    if key ∈ seen then some key else (duplicate d).or (duplicateMember (key :: seen) ms)

end

section Pairs
variable {α β γ : Type} {R : α → γ → Prop} {S : β → γ → Prop} {l : List α} {m : List β}
  {r : List γ}

theorem exists_left_of_forall₂ (h : List.Forall₂ R l r) {c : γ} (hc : c ∈ r) :
    ∃ a ∈ l, R a c := by
  induction h with
  | nil => cases hc
  | cons hac _ ih =>
    rcases List.mem_cons.1 hc with rfl | hc
    · exact ⟨_, List.mem_cons_self, hac⟩
    · obtain ⟨a, ha, hr⟩ := ih hc
      exact ⟨a, List.mem_cons_of_mem _ ha, hr⟩

theorem exists_forall₂ {R : γ → α → Prop} {r : List γ} (h : ∀ c ∈ r, ∃ a, R c a) :
    ∃ l, List.Forall₂ R r l := by
  induction r with
  | nil => exact ⟨[], .nil⟩
  | cons c r ih =>
    obtain ⟨⟨a, ha⟩, hr⟩ := List.forall_mem_cons.1 h
    obtain ⟨l, hl⟩ := ih hr
    exact ⟨a :: l, .cons ha hl⟩

theorem forall₂_meet (h : List.Forall₂ R l r) (h' : List.Forall₂ S m r) :
    List.Forall₂ (fun a b => ∃ c, R a c ∧ S b c) l m := by
  induction h generalizing m with
  | nil =>
    cases h'
    exact .nil
  | cons hac _ ih =>
    cases h' with
    | cons hbc h' => exact .cons ⟨_, hac, hbc⟩ (ih h')

theorem map_eq_of_forall₂ {f : α → β} {g : γ → β} (h : List.Forall₂ (fun a c => f a = g c) l r) :
    l.map f = r.map g := by
  rw [← List.forall₂_eq_eq_eq, List.forall₂_map_left_iff, List.forall₂_map_right_iff]
  exact h

end Pairs

theorem values_eq_some {ds : List Json} {vs : List Value} :
    values ds = some vs ↔ List.Forall₂ (fun d v => d.value = some v) ds vs := by
  induction ds generalizing vs with
  | nil => simp [values, eq_comm]
  | cons d ds ih =>
    cases vs with
    | nil => simp [values, Option.bind_eq_some_iff]
    | cons v vs => simp [values, ih, Option.bind_eq_some_iff]

theorem memberValues_eq_some {vs : List (String × Value)} :
    memberValues ms = some vs ↔
      List.Forall₂ (fun m v => m.1 = v.1 ∧ m.2.value = some v.2) ms vs := by
  induction ms generalizing vs with
  | nil => simp [memberValues, eq_comm]
  | cons m ms ih =>
    cases vs with
    | nil => simp [memberValues, Option.bind_eq_some_iff]
    | cons v vs =>
      obtain ⟨key, w⟩ := v
      simp only [memberValues, Option.bind_eq_bind, Option.bind_eq_some_iff, Option.some.injEq,
        List.cons.injEq, Prod.mk.injEq, List.forall₂_cons, ih]
      grind

theorem exists_values {ds : List Json} (h : ∀ d ∈ ds, ∃ v, d.value = some v) :
    ∃ vs, values ds = some vs := by
  obtain ⟨vs, hvs⟩ := exists_forall₂ h
  exact ⟨vs, values_eq_some.2 hvs⟩

theorem exists_memberValues (h : ∀ m ∈ ms, ∃ v, m.2.value = some v) :
    ∃ vs, memberValues ms = some vs := by
  have hmember : ∀ m ∈ ms, ∃ n : String × Value, m.1 = n.1 ∧ m.2.value = some n.2 := by
    intro m hm
    obtain ⟨v, hv⟩ := h m hm
    exact ⟨(m.1, v), rfl, hv⟩
  obtain ⟨vs, hvs⟩ := exists_forall₂ hmember
  exact ⟨vs, memberValues_eq_some.2 hvs⟩

theorem duplicateItem_eq_none {ds : List Json} :
    duplicateItem ds = none ↔ ∀ d ∈ ds, d.duplicate = none := by
  induction ds with
  | nil => simp [duplicateItem]
  | cons d ds ih => simp [duplicateItem, ih]

theorem duplicateMember_eq_none {seen : List String} :
    duplicateMember seen ms = none ↔ (∀ m ∈ ms, m.1 ∉ seen) ∧ ms.Pairwise (fun m n => m.1 ≠ n.1) ∧
      ∀ m ∈ ms, m.2.duplicate = none := by
  induction ms generalizing seen with
  | nil => simp [duplicateMember]
  | cons m ms ih =>
    obtain ⟨key, d⟩ := m
    unfold duplicateMember
    split_ifs with hseen
    · simp [hseen]
    · rw [Option.or_eq_none_iff, ih, List.pairwise_cons, List.forall_mem_cons, List.forall_mem_cons]
      simp only [List.mem_cons, not_or, forall_and, ne_comm]
      grind

/-- A value that a document can have. -/
inductive Value.Normal : Value → Prop where
  | null : Normal .null
  | bool (b : Bool) : Normal (.bool b)
  | number {f : ℚ} (double : binary64 f = some f) : Normal (.number f)
  | string (s : String) : Normal (.string s)
  | array {vs : List Value} (items : ∀ v ∈ vs, v.Normal) : Normal (.array vs)
  | object {ms : List (String × Value)} (keys : ms.Pairwise fun m n => m.1 ≠ n.1)
      (sorted : ms.Pairwise fun m n => ¬lessUTF16 n.1 m.1)
      (members : ∀ m ∈ ms, m.2.Normal) : Normal (.object ms)

section Members
variable {α : Type} {ms : List (String × α)}

theorem keepLast_eq_self (h : ms.Pairwise fun m n => m.1 ≠ n.1) : keepLast ms = ms :=
  List.pwFilter_eq_self.2 h

theorem pairwise_keepLast : (keepLast ms).Pairwise fun m n => m.1 ≠ n.1 :=
  List.pairwise_pwFilter _

theorem keepLast_subset : keepLast ms ⊆ ms := List.pwFilter_subset _

theorem sortMembers_perm : (sortMembers ms).Perm ms := List.perm_insertionSort _ _

theorem pairwise_sortMembers :
    (sortMembers ms).Pairwise fun m n => ¬lessUTF16 n.1 m.1 := by
  have htotal : Std.Total fun m n : String × α => ¬lessUTF16 n.1 m.1 :=
    ⟨fun m n => by simpa [lessUTF16] using le_total (codeUnits m.1) (codeUnits n.1)⟩
  have htrans : IsTrans (String × α) fun m n => ¬lessUTF16 n.1 m.1 :=
    ⟨fun l m n => by simpa [lessUTF16] using le_trans⟩
  exact List.pairwise_insertionSort _ _

theorem sortMembers_eq_self (h : ms.Pairwise fun m n => ¬lessUTF16 n.1 m.1) :
    sortMembers ms = ms := h.insertionSort_eq

theorem sortMembers_map {β : Type} (f : α → β) :
    sortMembers (ms.map fun m => (m.1, f m.2)) = (sortMembers ms).map fun m => (m.1, f m.2) := by
  have h := List.map_insertionSort (fun m n : String × α => ¬lessUTF16 n.1 m.1)
    (fun m n : String × β => ¬lessUTF16 n.1 m.1) (fun m => (m.1, f m.2)) ms
    fun _ _ _ _ => Iff.rfl
  exact h.symm

theorem pairwise_keys_perm {ns : List (String × α)} (hp : ms.Perm ns)
    (h : ns.Pairwise fun m n => m.1 ≠ n.1) : ms.Pairwise fun m n => m.1 ≠ n.1 :=
  (hp.pairwise_iff fun h => h.symm).2 h

end Members

theorem value_normal {d : Json} : ∀ {v : Value}, d.value = some v → v.Normal := by
  induction d using induct with
  | null | bool | string =>
    intro v h
    cases h
    constructor
  | number n =>
    intro v h
    obtain ⟨f, hf, rfl⟩ := Option.map_eq_some_iff.1 h
    exact .number (binary64_binary64 hf)
  | array items ih =>
    intro v h
    obtain ⟨vs, hvs, rfl⟩ := Option.map_eq_some_iff.1 h
    refine .array fun v hv => ?_
    obtain ⟨d, hd, hval⟩ := exists_left_of_forall₂ (values_eq_some.1 hvs) hv
    exact ih d hd hval
  | object members ih =>
    intro v h
    obtain ⟨vs, hvs, rfl⟩ := Option.map_eq_some_iff.1 h
    refine .object (pairwise_keys_perm sortMembers_perm pairwise_keepLast) pairwise_sortMembers
      fun m hm => ?_
    have hmem := keepLast_subset (sortMembers_perm.subset hm)
    obtain ⟨n, hn, hval⟩ := exists_left_of_forall₂ (memberValues_eq_some.1 hvs) hmem
    exact ih n hn hval.2

/-- Two documents with the same value, in which every key stands once. -/
structure Alike (d d' : Json) : Prop where
  distinct : d.duplicate = none
  distinct' : d'.duplicate = none
  value : ∃ v, d.value = some v ∧ d'.value = some v

/-- How two documents of one value can differ. -/
inductive Alike.View : Json → Json → Prop where
  | null : View .null .null
  | bool (b : Bool) : View (.bool b) (.bool b)
  | number {n n' : Literal} {f : ℚ} (double : binary64 n.value = some f)
      (double' : binary64 n'.value = some f) : View (.number n) (.number n')
  | string (s : String) : View (.string s) (.string s)
  | array {ds ds' : List Json} (items : List.Forall₂ Alike ds ds') : View (.array ds) (.array ds')
  | object {ms ns ms' : List (String × Json)} (perm : ms.Perm ns)
      (members : List.Forall₂ (fun m m' => m.1 = m'.1 ∧ Alike m.2 m'.2) ns ms') :
      View (.object ms) (.object ms')

theorem value_cases {d : Json} {v : Value} (h : d.value = some v) :
    match v with
    | .null => d = .null
    | .bool b => d = .bool b
    | .number f => ∃ n, d = .number n ∧ binary64 n.value = some f
    | .string s => d = .string s
    | .array vs => ∃ ds, d = .array ds ∧ values ds = some vs
    | .object ms => ∃ ns vs, d = .object ns ∧ memberValues ns = some vs ∧
        ms = sortMembers (keepLast vs) := by
  cases d with
  | null | bool | string =>
    cases h
    rfl
  | number n =>
    obtain ⟨f, hf, rfl⟩ := Option.map_eq_some_iff.1 h
    exact ⟨n, rfl, hf⟩
  | array ds =>
    obtain ⟨vs, hvs, rfl⟩ := Option.map_eq_some_iff.1 h
    exact ⟨ds, rfl, hvs⟩
  | object ns =>
    obtain ⟨vs, hvs, rfl⟩ := Option.map_eq_some_iff.1 h
    exact ⟨ns, vs, rfl, hvs, rfl⟩

theorem keys_of_memberValues {vs : List (String × Value)} (h : memberValues ms = some vs)
    (hkeys : ms.Pairwise fun m n => m.1 ≠ n.1) : vs.Pairwise fun m n => m.1 ≠ n.1 := by
  have hfst : ms.map Prod.fst = vs.map Prod.fst :=
    map_eq_of_forall₂ ((memberValues_eq_some.1 h).imp fun _ _ hmv => hmv.1)
  rw [← List.pairwise_map (R := (· ≠ ·))] at hkeys ⊢
  rwa [← hfst]

theorem Alike.view {d d' : Json} (h : Alike d d') : View d d' := by
  obtain ⟨hd, hd', v, hv, hv'⟩ := h
  have hc := value_cases hv
  have hc' := value_cases hv'
  cases v with
  | null => exact hc ▸ hc' ▸ .null
  | bool b => exact hc ▸ hc' ▸ .bool b
  | string s => exact hc ▸ hc' ▸ .string s
  | number f =>
    obtain ⟨n, rfl, hn⟩ := hc
    obtain ⟨n', rfl, hn'⟩ := hc'
    exact .number hn hn'
  | array vs =>
    obtain ⟨ds, rfl, hds⟩ := hc
    obtain ⟨ds', rfl, hds'⟩ := hc'
    have hall := (List.forall₂_and_left _ _).2 ⟨duplicateItem_eq_none.1 hd, values_eq_some.1 hds⟩
    have hall' := (List.forall₂_and_left _ _).2 ⟨duplicateItem_eq_none.1 hd', values_eq_some.1 hds'⟩
    refine .array ((forall₂_meet hall hall').imp ?_)
    rintro d d' ⟨v, ⟨hd, hv⟩, hd', hv'⟩
    exact ⟨hd, hd', v, hv, hv'⟩
  | object vs =>
    obtain ⟨ms, us, rfl, hms, rfl⟩ := hc
    obtain ⟨ms', us', rfl, hms', hsort⟩ := hc'
    obtain ⟨-, hkeys, hdistinct⟩ := duplicateMember_eq_none.1 hd
    obtain ⟨-, hkeys', hdistinct'⟩ := duplicateMember_eq_none.1 hd'
    rw [keepLast_eq_self (keys_of_memberValues hms hkeys),
      keepLast_eq_self (keys_of_memberValues hms' hkeys')] at hsort
    have hperm : us'.Perm us := (hsort ▸ sortMembers_perm.symm).trans sortMembers_perm |>.symm
    have hall := (List.forall₂_and_left _ _).2 ⟨hdistinct, memberValues_eq_some.1 hms⟩
    have hall' := (List.forall₂_and_left _ _).2 ⟨hdistinct', memberValues_eq_some.1 hms'⟩
    -- The members of the first document, in the order of the second one's.
    obtain ⟨ns, hns, hperm'⟩ := List.perm_comp_forall₂ hperm hall.flip
    refine .object hperm'.symm ((forall₂_meet hns.flip hall').imp ?_)
    rintro m m' ⟨v, ⟨hd, hk, hv⟩, hd', hk', hv'⟩
    exact ⟨hk.trans hk'.symm, hd, hd', v.2, hv, hv'⟩

end LedgerCore.Json
