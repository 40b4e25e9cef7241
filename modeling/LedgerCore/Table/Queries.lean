import Mathlib.Data.List.Dedup
import Mathlib.Data.List.Sort
import LedgerCore.Table.Basic

/-! Queries over rows: one row for each key, unions and outer joins. -/
namespace LedgerCore.Table

variable {α β κ : Type}

/-- The first row by an order. Of rows that the order does not tell apart, a query may return any;
this is the one that comes first. -/
def first (le : α → α → Prop) [DecidableRel le] (rows : List α) : Option α :=
  (rows.insertionSort le).head?

section First
variable {le : α → α → Prop} [DecidableRel le] {rows : List α} {a : α}

@[simp] theorem first_nil : first le [] = none := rfl

theorem first_eq_none : first le rows = none ↔ rows = [] := by
  rw [first, List.head?_eq_none_iff, ← List.length_eq_zero_iff, List.length_insertionSort,
    List.length_eq_zero_iff]

theorem mem_of_first (h : first le rows = some a) : a ∈ rows :=
  (List.mem_insertionSort le).1 (List.mem_of_head? h)

theorem le_of_first [Std.Total le] [IsTrans α le] (h : first le rows = some a) {b : α}
    (hb : b ∈ rows) : le a b := by
  have hsorted := List.pairwise_insertionSort le rows
  have hb := (List.mem_insertionSort le).2 hb
  obtain ⟨rest, hrest⟩ := List.head?_eq_some_iff.1 h
  rw [hrest] at hsorted hb
  rcases List.mem_cons.1 hb with rfl | hb
  · exact (Std.Total.total b b).elim id id
  · exact (List.pairwise_cons.1 hsorted).1 b hb

end First

section Groups
variable [DecidableEq κ] {key : α → κ} {agg : List α → Option β} {rows : List α} {k : κ}

/-- `GROUP BY key`: of each group, what `agg` computes. -/
def groupBy (key : α → κ) (agg : List α → Option β) (rows : List α) : Table κ β where
  rows := (rows.map key).dedup.filterMap fun k =>
    (agg (rows.filter fun a => key a = k)).map fun b => (k, b)
  nodup := by
    have hkeys : (((rows.map key).dedup.filterMap fun k =>
        (agg (rows.filter fun a => key a = k)).map fun b => (k, b)).map Prod.fst) =
        (rows.map key).dedup.filter fun k => (agg (rows.filter fun a => key a = k)).isSome := by
      rw [List.map_filterMap, ← List.filterMap_eq_filter]
      refine List.filterMap_congr fun k _ => ?_
      cases h : agg (rows.filter fun a => key a = k) <;> simp [Option.guard, h]
    rw [hkeys]
    exact (List.nodup_dedup _).filter _

/-- What a query that groups the rows returns for a key, when it returns nothing for no rows. -/
theorem find?_groupBy (hnil : agg [] = none) :
    (groupBy key agg rows).find? k = agg (rows.filter fun a => key a = k) := by
  have hmem (b : β) : (groupBy key agg rows).find? k = some b ↔
      agg (rows.filter fun a => key a = k) = some b := by
    rw [find?_eq_some]
    simp only [groupBy, List.mem_filterMap, List.mem_dedup, Option.map_eq_some_iff, Prod.mk.injEq]
    constructor
    · rintro ⟨_, -, _, hb, rfl, rfl⟩
      exact hb
    · intro hb
      refine ⟨k, ?_, b, hb, rfl, rfl⟩
      by_contra hk
      have hempty : (rows.filter fun a => key a = k) = [] := by
        rw [List.filter_eq_nil_iff]
        intro a ha hka
        exact hk (List.mem_map.2 ⟨a, ha, of_decide_eq_true hka⟩)
      rw [hempty, hnil] at hb
      cases hb
  exact Option.ext fun b => hmem b

/-- `SELECT DISTINCT ON (key) … ORDER BY key, …`. -/
def distinctOn (key : α → κ) (le : α → α → Prop) [DecidableRel le] (rows : List α) : Table κ α :=
  groupBy key (first le) rows

theorem find?_distinctOn {le : α → α → Prop} [DecidableRel le] :
    (distinctOn key le rows).find? k = first le (rows.filter fun a => key a = k) :=
  find?_groupBy first_nil

end Groups

section Joins
variable [DecidableEq κ]

/-- `UNION`. -/
def union (left right : List κ) : List κ := (left ++ right).dedup

theorem nodup_union (left right : List κ) : (union left right).Nodup := List.nodup_dedup _

theorem mem_union {left right : List κ} {k : κ} : k ∈ union left right ↔ k ∈ left ∨ k ∈ right := by
  rw [union, List.mem_dedup, List.mem_append]

/-- `LEFT JOIN right ON right.key = key`: every row on the left, with each row on the right that
it meets, or alone. -/
def leftJoin (key : α → κ) (left : List α) (right : Table κ β) : List (α × Option β) :=
  left.flatMap fun a =>
    match right.rows.filter fun r => r.1 = key a with
    | [] => [(a, none)]
    | met => met.map fun r => (a, some r.2)

theorem leftJoin_eq_map (key : α → κ) (left : List α) (right : Table κ β) :
    leftJoin key left right = left.map fun a => (a, right.find? (key a)) := by
  rw [leftJoin, ← List.flatMap_pure_eq_map]
  refine List.flatMap_congr fun a _ => ?_
  cases hmet : right.rows.filter fun r => r.1 = key a with
  | nil =>
    have hnone : right.find? (key a) = none := by
      rw [find?_eq_none]
      intro hk
      obtain ⟨r, hr, hra⟩ := List.mem_map.1 hk
      have hmem : r ∈ right.rows.filter fun r => r.1 = key a :=
        List.mem_filter.2 ⟨hr, decide_eq_true hra⟩
      rw [hmet] at hmem
      cases hmem
    rw [Function.comp_apply, hnone]
    rfl
  | cons r rest =>
    have hr : r ∈ right.rows.filter fun r => r.1 = key a := by
      rw [hmet]
      exact List.mem_cons_self
    obtain ⟨hmem, hra⟩ := List.mem_filter.1 hr
    have hfind : right.find? (key a) = some r.2 := find?_eq_some.2 (of_decide_eq_true hra ▸ hmem)
    have hrest : rest = [] := by
      -- Another row that is met would have the same key.
      cases rest with
      | nil => rfl
      | cons r' rest =>
        have hr' : r' ∈ right.rows.filter fun r => r.1 = key a := by simp [hmet]
        have hkeys := right.nodup.sublist ((List.filter_sublist (p := fun r => r.1 = key a)).map _)
        rw [hmet, List.map_cons, List.map_cons, List.nodup_cons] at hkeys
        have hsame : r.1 = r'.1 := by
          rw [of_decide_eq_true hra, of_decide_eq_true (List.mem_filter.1 hr').2]
        exact absurd (hsame ▸ List.mem_cons_self) hkeys.1
    rw [hrest, Function.comp_apply, hfind]
    rfl

end Joins

end LedgerCore.Table
