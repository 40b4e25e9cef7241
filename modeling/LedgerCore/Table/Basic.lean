import Mathlib.Algebra.BigOperators.Group.List.Basic
import Mathlib.Data.List.Nodup
import Mathlib.Tactic.Abel

/-! Tables with a primary key, in insertion order. -/
namespace LedgerCore

/-- The rows of a table with their primary keys, oldest first. No key is used twice. -/
@[ext] structure Table (κ ν : Type) where
  rows : List (κ × ν)
  nodup : (rows.map Prod.fst).Nodup

namespace Table

variable {κ ν : Type} [DecidableEq κ] {t t' : Table κ ν} {k k' : κ} {v w : ν}

def empty : Table κ ν := ⟨[], List.nodup_nil⟩

def keys (t : Table κ ν) : List κ := t.rows.map Prod.fst

def values (t : Table κ ν) : List ν := t.rows.map Prod.snd

def find? (t : Table κ ν) (k : κ) : Option ν := (t.rows.find? fun r => r.1 = k).map Prod.snd

/-- Appends a row; `none` when its key is taken. -/
def insert? (t : Table κ ν) (k : κ) (v : ν) : Option (Table κ ν) :=
  if h : k ∈ t.keys then none
  else some ⟨t.rows ++ [(k, v)], by
    simpa [List.nodup_append, keys] using ⟨t.nodup, fun a b hb e => h (List.mem_map.2 ⟨_, hb, e⟩)⟩⟩

/-- Rewrites every row in place; the keys stay. -/
def map (t : Table κ ν) (f : κ → ν → ν) : Table κ ν :=
  ⟨t.rows.map fun r => (r.1, f r.1 r.2), by simpa [Function.comp_def] using t.nodup⟩

def modify (t : Table κ ν) (k : κ) (f : ν → ν) : Table κ ν :=
  t.map fun k' v => if k' = k then f v else v

/-- Drops the rows that do not satisfy `p`. -/
def filter (t : Table κ ν) (p : κ → ν → Bool) : Table κ ν :=
  ⟨t.rows.filter fun r => p r.1 r.2, t.nodup.sublist (List.filter_sublist.map _)⟩

theorem find?_eq_some : t.find? k = some v ↔ (k, v) ∈ t.rows := by
  constructor
  · intro h
    obtain ⟨⟨k', v'⟩, hf, rfl⟩ := Option.map_eq_some_iff.1 h
    have hk : k' = k := by simpa using List.find?_some hf
    exact hk ▸ List.mem_of_find?_eq_some hf
  · intro h
    cases hf : t.rows.find? (fun r => r.1 = k) with
    | none => exact absurd (List.find?_eq_none.1 hf _ h) (by simp)
    | some r =>
      have hk : r.1 = k := by simpa using List.find?_some hf
      have hr : r = (k, v) :=
        List.inj_on_of_nodup_map t.nodup (List.mem_of_find?_eq_some hf) h hk
      simp [find?, hf, hr]

theorem find?_eq_none : t.find? k = none ↔ k ∉ t.keys := by
  simp only [find?, Option.map_eq_none_iff, List.find?_eq_none, decide_eq_true_eq, keys,
    List.mem_map, not_exists, not_and]

theorem mem_keys : k ∈ t.keys ↔ ∃ v, t.find? k = some v := by
  simp only [find?_eq_some, keys, List.mem_map, Prod.exists, exists_and_right, exists_eq_right]

theorem insert?_eq_some :
    t.insert? k v = some t' ↔ t.find? k = none ∧ t'.rows = t.rows ++ [(k, v)] := by
  rw [find?_eq_none, insert?]
  split_ifs with h
  · simp [h]
  · simp [h, Table.ext_iff, eq_comm]

theorem insert?_eq_none : t.insert? k v = none ↔ ∃ v', t.find? k = some v' := by
  rw [← mem_keys, insert?]
  split_ifs with h <;> simp [h]

theorem mem_values_insert (h : t.insert? k v = some t') : v ∈ t'.values := by
  rw [values, (insert?_eq_some.1 h).2]
  simp

theorem find?_insert (h : t.insert? k v = some t') (k' : κ) :
    t'.find? k' = if k' = k then some v else t.find? k' := by
  obtain ⟨hk, hr⟩ := insert?_eq_some.1 h
  ext w
  rw [find?_eq_some, hr, List.mem_append, ← find?_eq_some, List.mem_singleton, Prod.mk.injEq]
  split_ifs with e
  · subst e
    simp [hk, eq_comm]
  · simp [e]

theorem find?_map (f : κ → ν → ν) (k : κ) : (t.map f).find? k = (t.find? k).map (f k) := by
  ext w
  simp only [find?_eq_some, map, List.mem_map, Prod.exists, Prod.mk.injEq, Option.map_eq_some_iff]
  constructor
  · rintro ⟨k', v, hm, rfl, rfl⟩
    exact ⟨v, hm, rfl⟩
  · rintro ⟨v, hm, rfl⟩
    exact ⟨k, v, hm, rfl, rfl⟩

omit [DecidableEq κ] in
@[simp] theorem keys_map (f : κ → ν → ν) : (t.map f).keys = t.keys := by
  simp [keys, map, Function.comp_def]

@[simp] theorem keys_modify (f : ν → ν) : (t.modify k f).keys = t.keys := keys_map _

theorem find?_modify (f : ν → ν) (k' : κ) :
    (t.modify k f).find? k' = if k' = k then (t.find? k').map f else t.find? k' := by
  rw [modify, find?_map]
  split_ifs <;> simp

@[simp] theorem find?_modify_self (f : ν → ν) : (t.modify k f).find? k = (t.find? k).map f := by
  rw [find?_modify, if_pos rfl]

theorem find?_modify_of_ne (f : ν → ν) (h : k' ≠ k) : (t.modify k f).find? k' = t.find? k' := by
  rw [find?_modify, if_neg h]

theorem find?_filter (p : κ → ν → Bool) (k : κ) :
    (t.filter p).find? k = (t.find? k).filter (p k) := by
  ext w
  simp only [find?_eq_some, filter, List.mem_filter, Option.filter_eq_some_iff]

theorem filter_key (t : Table κ ν) (k : κ) :
    (t.rows.filter fun r => r.1 = k) = (t.find? k).toList.map fun v => (k, v) := by
  obtain ⟨rows, hnodup⟩ := t
  unfold find?
  dsimp only
  induction rows with
  | nil => rfl
  | cons r rows ih =>
    obtain ⟨hnot, hnodup⟩ := List.nodup_cons.1 hnodup
    by_cases hk : r.1 = k
    · subst hk
      have hrest : (rows.filter fun r' => r'.1 = r.1) = [] :=
        List.filter_eq_nil_iff.2 fun r' hr' hkey =>
          hnot (of_decide_eq_true hkey ▸ List.mem_map_of_mem hr')
      simp [hrest]
    · simpa [hk] using ih hnodup

/-- The row of the key is the given one, or there is none. -/
def overwrite (t : Table κ ν) (k : κ) (v : Option ν) : Table κ ν where
  rows := (v.toList.map fun v => (k, v)) ++ t.rows.filter fun r => r.1 ≠ k
  nodup := by
    have hrest := t.nodup.sublist (List.filter_sublist (p := fun r => r.1 ≠ k) |>.map Prod.fst)
    cases v with
    | none => exact hrest
    | some v => exact List.nodup_cons.2 ⟨by simp, hrest⟩

theorem find?_overwrite (v : Option ν) (k' : κ) :
    (t.overwrite k v).find? k' = if k' = k then v else t.find? k' := by
  ext w
  rw [find?_eq_some]
  by_cases hk : k' = k
  · simp [overwrite, hk]
  · simp [overwrite, hk, Ne.symm hk, find?_eq_some]

theorem perm_overwrite (t : Table κ ν) (k : κ) :
    t.rows.Perm (((t.find? k).toList.map fun v => (k, v)) ++ t.rows.filter fun r => r.1 ≠ k) := by
  have hsplit := List.filter_append_perm (fun r : κ × ν => r.1 = k) t.rows
  rw [filter_key] at hsplit
  simpa using hsplit.symm

theorem exists_map_of_keys (h : t'.keys = t.keys) :
    ∃ f, t' = t.map f ∧ ∀ k v, t.find? k = some v → t'.find? k = some (f k v) := by
  have hrows : t'.rows = t.rows.map fun r => (r.1, (t'.find? r.1).getD r.2) := by
    have hlength : t'.rows.length = t.rows.length := by
      simpa only [keys, List.length_map] using congrArg List.length h
    refine List.ext_getElem (by rw [List.length_map, hlength]) fun i hi hi' => ?_
    have hi : i < t.rows.length := by rwa [List.length_map] at hi'
    have hkey : t'.rows[i].1 = t.rows[i].1 := by
      have hget := List.getElem_of_eq h (i := i) (by rw [keys, List.length_map]; omega)
      simpa only [keys, List.getElem_map] using hget
    have hrow : t'.find? t.rows[i].1 = some t'.rows[i].2 := by
      rw [find?_eq_some, ← hkey]
      exact List.getElem_mem _
    rw [List.getElem_map, hrow, ← hkey]
    rfl
  refine ⟨fun k v => (t'.find? k).getD v, Table.ext hrows, fun k v hv => ?_⟩
  obtain ⟨w, hw⟩ := mem_keys.1 (h ▸ mem_keys.2 ⟨v, hv⟩)
  simp only [hw, Option.getD_some]

section Sum
variable {M : Type} [AddCommGroup M]

def sum (t : Table κ ν) (g : κ → ν → M) : M := (t.rows.map fun r => g r.1 r.2).sum

theorem sum_congr {g g' : κ → ν → M} (h : ∀ k v, t.find? k = some v → g k v = g' k v) :
    t.sum g = t.sum g' := by
  unfold sum
  congr 1
  exact List.map_congr_left fun r hr => h r.1 r.2 (find?_eq_some.2 hr)

omit [DecidableEq κ] in
theorem sum_add (g g' : κ → ν → M) : (t.sum fun k v => g k v + g' k v) = t.sum g + t.sum g' := by
  simp [sum, List.sum_map_add]

theorem sum_single (g : κ → ν → M) (h : t.find? k = some v) (h0 : ∀ k' v', k' ≠ k → g k' v' = 0) :
    t.sum g = g k v := by
  obtain ⟨l₁, l₂, e⟩ := List.append_of_mem (find?_eq_some.1 h)
  have hn := t.nodup
  rw [e] at hn
  have hz : ∀ l : List (κ × ν), k ∉ l.map Prod.fst → (l.map fun r => g r.1 r.2).sum = 0 := by
    intro l hl
    refine List.sum_eq_zero fun x hx => ?_
    obtain ⟨r, hr, rfl⟩ := List.mem_map.1 hx
    exact h0 _ _ fun e => hl (List.mem_map.2 ⟨r, hr, e⟩)
  simp only [List.map_append, List.map_cons, List.nodup_append, List.nodup_cons] at hn
  rw [sum, e, List.map_append, List.map_cons, List.sum_append, List.sum_cons, hz l₁, hz l₂]
  · simp
  · exact hn.2.1.1
  · exact fun hk => hn.2.2 k hk k (by simp) rfl

end Sum

end Table

end LedgerCore
