import LedgerCore.Table.Basic

/-! The rows that changed between two states of a table, and writing them over another state. -/
namespace LedgerCore.Table

variable {κ ν : Type} [DecidableEq κ] {t t' u u' : Table κ ν} {k : κ} {v : ν}

/-- Writes a row: in its place, or at the end when its key is new. -/
def upsert (t : Table κ ν) (k : κ) (v : ν) : Table κ ν :=
  (t.insert? k v).getD (t.modify k fun _ => v)

def overlay (t : Table κ ν) (writes : List (κ × ν)) : Table κ ν :=
  writes.foldl (fun t w => t.upsert w.1 w.2) t

/-- The rows of `t'` that `t` does not have as they are. -/
def changes [DecidableEq ν] (t t' : Table κ ν) : List (κ × ν) :=
  t'.rows.filter fun r => t.find? r.1 ≠ some r.2

@[simp] theorem overlay_nil : t.overlay [] = t := rfl

@[simp] theorem changes_self [DecidableEq ν] : t.changes t = [] := by
  refine List.filter_eq_nil_iff.2 fun r hr => ?_
  simpa using find?_eq_some.2 hr

theorem modify_congr {f g : ν → ν} (h : ∀ v, t.find? k = some v → f v = g v) :
    t.modify k f = t.modify k g := by
  refine Table.ext (List.map_congr_left fun r hr => ?_)
  dsimp only
  split_ifs with e
  · rw [h r.2 (e ▸ find?_eq_some.2 hr)]
  · rfl

theorem modify_eq_self {f : ν → ν} (h : ∀ v, t.find? k = some v → f v = v) : t.modify k f = t := by
  rw [modify_congr h]
  refine Table.ext ((List.map_congr_left fun r _ => ?_).trans (List.map_id _))
  simp

theorem rows_filter_key (h : t.find? k = some v) : (t.rows.filter fun r => r.1 = k) = [(k, v)] := by
  rw [filter_key, h]
  rfl

theorem changes_modify [DecidableEq ν] {f : ν → ν} (h : t.find? k = some v) :
    t.changes (t.modify k f) = if f v = v then [] else [(k, f v)] := by
  split_ifs with hf
  · rw [modify_eq_self (fun w hw => by rwa [Option.some.inj (hw.symm.trans h)]), changes_self]
  · have hnew : (t.modify k f).find? k = some (f v) := by rw [find?_modify_self, h]; rfl
    rw [← rows_filter_key hnew]
    refine List.filter_congr fun r hr => ?_
    by_cases hk : r.1 = k
    · have hrow := (find?_eq_some.2 hr : (t.modify k f).find? r.1 = some r.2)
      rw [hk, hnew] at hrow
      simp [hk, h, ← Option.some.inj hrow, Ne.symm hf]
    · have hrow := (find?_eq_some.2 hr : (t.modify k f).find? r.1 = some r.2)
      rw [find?_modify_of_ne _ hk] at hrow
      simp [hk, hrow]

/-- The change that a rewritten row is, made elsewhere over the same row. -/
theorem overlay_changes_modify [DecidableEq ν] {f : ν → ν} (h : t.find? k = some v)
    (hu : u.find? k = some v) : u.overlay (t.changes (t.modify k f)) = u.modify k f := by
  rw [changes_modify h]
  split_ifs with hf
  · exact (modify_eq_self fun w hw => by rwa [Option.some.inj (hw.symm.trans hu)]).symm
  · have htaken : u.insert? k (f v) = none := dif_pos (mem_keys.2 ⟨v, hu⟩)
    change (u.insert? k (f v)).getD _ = _
    rw [htaken]
    exact modify_congr fun w hw => by rw [Option.some.inj (hw.symm.trans hu)]

theorem overlay_rows {l : List (κ × ν)} (hn : (l.map Prod.fst).Nodup)
    (hfree : ∀ r ∈ l, u.find? r.1 = none) : (u.overlay l).rows = u.rows ++ l := by
  induction l generalizing u with
  | nil => simp
  | cons r l ih =>
    obtain ⟨hr, hn⟩ := List.nodup_cons.1 hn
    have hfresh : r.1 ∉ u.keys := find?_eq_none.1 (hfree r List.mem_cons_self)
    obtain ⟨u₁, hu₁⟩ : ∃ u₁, u.insert? r.1 r.2 = some u₁ := ⟨_, dif_neg hfresh⟩
    have hups : u.upsert r.1 r.2 = u₁ := by rw [upsert, hu₁]; rfl
    change ((u.upsert r.1 r.2).overlay l).rows = _
    rw [hups, ih hn fun r' hr' => ?_, (insert?_eq_some.1 hu₁).2, List.append_assoc]
    · rfl
    · have hne : r'.1 ≠ r.1 := fun e => hr (e ▸ List.mem_map_of_mem hr')
      rw [find?_insert hu₁, if_neg hne]
      exact hfree r' (List.mem_cons_of_mem _ hr')

theorem free_of_append {l : List (κ × ν)} (ht : t'.rows = t.rows ++ l) :
    (l.map Prod.fst).Nodup ∧ ∀ r ∈ l, t.find? r.1 = none := by
  have hn := t'.nodup
  rw [ht, List.map_append, List.nodup_append] at hn
  exact ⟨hn.2.1, fun r hr => find?_eq_none.2 fun hk => hn.2.2 r.1 hk r.1 (List.mem_map_of_mem hr) rfl⟩

theorem changes_append [DecidableEq ν] {l : List (κ × ν)} (ht : t'.rows = t.rows ++ l) :
    t.changes t' = l := by
  rw [changes, ht, List.filter_append,
    List.filter_eq_nil_iff.2 fun r hr => by simpa using find?_eq_some.2 hr, List.nil_append]
  exact List.filter_eq_self.2 fun r hr => by simp [(free_of_append ht).2 r hr]

theorem overlay_changes_append [DecidableEq ν] {l : List (κ × ν)} (ht : t'.rows = t.rows ++ l)
    (hu : u'.rows = u.rows ++ l) : u.overlay (t.changes t') = u' := by
  obtain ⟨hn, hfree⟩ := free_of_append hu
  refine Table.ext ?_
  rw [changes_append ht, overlay_rows hn hfree, hu]

theorem any_values_insert (p : ν → Bool) (ht : t.insert? k v = some t') :
    t'.values.any p = (t.values.any p || p v) := by
  simp [values, (insert?_eq_some.1 ht).2]

theorem any_values_modify {p : ν → Bool} {f : ν → ν} (hf : ∀ v, p (f v) = p v) :
    (t.modify k f).values.any p = t.values.any p := by
  simp only [values, modify, map, List.map_map, List.any_map]
  refine congrArg (fun q => t.rows.any q) (funext fun r => ?_)
  simp only [Function.comp_apply]
  split_ifs
  · exact hf r.2
  · rfl

theorem rows_eq_filterMap (t : Table κ ν) :
    t.rows = t.keys.filterMap fun k => (t.find? k).map (Prod.mk k) := by
  have hrow : ∀ r ∈ t.rows, (t.find? r.1).map (Prod.mk r.1) = some r := fun r hr => by
    rw [find?_eq_some.2 hr]
    rfl
  rw [keys, List.filterMap_map]
  exact ((List.filterMap_congr hrow).trans List.filterMap_some).symm

/-- The rows with keys in `K` are the same. -/
def Fixed (K : κ → Prop) (t u : Table κ ν) : Prop := ∀ k, K k → u.find? k = t.find? k

section Fixed
variable {K K' : κ → Prop} {w : Table κ ν}

theorem Fixed.refl : Fixed K t t := fun _ _ => rfl

theorem Fixed.trans (h : Fixed K t u) (h' : Fixed K u w) : Fixed K t w :=
  fun k hk => (h' k hk).trans (h k hk)

theorem Fixed.mono (hK : ∀ k, K' k → K k) (h : Fixed K t u) : Fixed K' t u :=
  fun k hk => h k (hK k hk)

theorem Fixed.modify (h : Fixed K t u) (f : ν → ν) : Fixed K (t.modify k f) (u.modify k f) := by
  intro k' hk'
  rw [find?_modify, find?_modify, h k' hk']

theorem fixed_modify (hk : ¬K k) (f : ν → ν) : Fixed K t (t.modify k f) := fun _ hk' =>
  find?_modify_of_ne f fun e => hk (e ▸ hk')

theorem Fixed.insert (h : Fixed K t u) (ht : t.insert? k v = some t') (hu : u.insert? k v = some u') :
    Fixed K t' u' := by
  intro k' hk'
  rw [find?_insert ht, find?_insert hu, h k' hk']

theorem fixed_insert (hk : ¬K k) (ht : t.insert? k v = some t') : Fixed K t t' := by
  intro k' hk'
  have hne : k' ≠ k := fun e => hk (e ▸ hk')
  rw [find?_insert ht, if_neg hne]

theorem find?_append {l : List (κ × ν)} (ht : t'.rows = t.rows ++ l) (k : κ) :
    t'.find? k = (t.find? k).or ((l.find? fun r => r.1 = k).map Prod.snd) := by
  rw [find?, ht, List.find?_append, Option.map_or, find?]

theorem Fixed.append {l : List (κ × ν)} (h : Fixed K t u) (ht : t'.rows = t.rows ++ l)
    (hu : u'.rows = u.rows ++ l) : Fixed K t' u' := by
  intro k hk
  rw [find?_append ht, find?_append hu, h k hk]

theorem fixed_append {l : List (κ × ν)} (hl : ∀ r ∈ l, ¬K r.1) (ht : t'.rows = t.rows ++ l) :
    Fixed K t t' := by
  intro k hk
  have hnone : (l.find? fun r => r.1 = k) = none :=
    List.find?_eq_none.2 fun r hr hrk => hl r hr (of_decide_eq_true hrk ▸ hk)
  rw [find?_append ht, hnone]
  exact Option.or_none

theorem find?_modify_eq_none {f : ν → ν} {k' : κ} :
    (t.modify k f).find? k' = none ↔ t.find? k' = none := by
  rw [find?_modify]
  split_ifs <;> simp

theorem find?_eq_none_of_insert (ht : t.insert? k v = some t') {k' : κ} (h : t'.find? k' = none) :
    k' ≠ k ∧ t.find? k' = none := by
  rw [find?_insert ht] at h
  split_ifs at h with hk
  exact ⟨hk, h⟩

theorem Fixed.insert?_eq_some (h : Fixed K t u) (hk : K k) (ht : t.insert? k v = some t') :
    ∃ u', u.insert? k v = some u' := by
  have hfree := (Table.insert?_eq_some.1 ht).1
  rw [← h k hk] at hfree
  exact ⟨_, dif_neg (find?_eq_none.1 hfree)⟩

/-- With the same keys in the same order, the rows with keys in `K` are the same list. -/
theorem Fixed.filter_rows (h : Fixed K t u) (hkeys : u.keys = t.keys) (p : κ → Bool)
    (hp : ∀ k, p k = true → K k) :
    (u.rows.filter fun r => p r.1) = t.rows.filter fun r => p r.1 := by
  have hfilter (t : Table κ ν) : (t.rows.filter fun r => p r.1) =
      (t.keys.filter p).filterMap fun k => (t.find? k).map (Prod.mk k) := by
    conv_lhs => rw [rows_eq_filterMap t]
    rw [List.filter_filterMap, List.filterMap_filter]
    refine List.filterMap_congr fun k _ => ?_
    cases t.find? k <;> by_cases hk : p k = true <;> simp [hk]
  rw [hfilter, hfilter, hkeys]
  refine List.filterMap_congr fun k hk => ?_
  rw [h k (hp k (List.mem_filter.1 hk).2)]

theorem overlay_changes_insert [DecidableEq ν] (ht : t.insert? k v = some t')
    (hu : u.insert? k v = some u') : u.overlay (t.changes t') = u' :=
  overlay_changes_append (insert?_eq_some.1 ht).2 (insert?_eq_some.1 hu).2

theorem upsert_cases (t : Table κ ν) (k : κ) (v : ν) :
    (t.find? k = none ∧ t.insert? k v = some (t.upsert k v)) ∨
      ∃ w, t.find? k = some w ∧ t.upsert k v = t.modify k fun _ => v := by
  cases hk : t.find? k with
  | none =>
    obtain ⟨t', ht'⟩ : ∃ t', t.insert? k v = some t' := ⟨_, dif_neg (find?_eq_none.1 hk)⟩
    exact .inl ⟨rfl, by rw [upsert, ht']; rfl⟩
  | some w =>
    have htaken : t.insert? k v = none := dif_pos (mem_keys.2 ⟨w, hk⟩)
    exact .inr ⟨w, rfl, by rw [upsert, htaken]; rfl⟩

theorem find?_upsert (t : Table κ ν) (k : κ) (v : ν) (k' : κ) :
    (t.upsert k v).find? k' = if k' = k then some v else t.find? k' := by
  rcases t.upsert_cases k v with ⟨-, hi⟩ | ⟨w, hw, hm⟩
  · exact find?_insert hi k'
  · rw [hm, find?_modify]
    split_ifs with h
    · rw [h, hw]
      rfl
    · rfl

theorem keys_overlay {writes : List (κ × ν)} (h : ∀ w ∈ writes, w.1 ∈ t.keys) :
    (t.overlay writes).keys = t.keys := by
  induction writes generalizing t with
  | nil => rfl
  | cons w writes ih =>
    have hups : (t.upsert w.1 w.2).keys = t.keys := by
      rcases t.upsert_cases w.1 w.2 with ⟨hnone, -⟩ | ⟨_, -, hm⟩
      · exact absurd (h w List.mem_cons_self) (find?_eq_none.1 hnone)
      · rw [hm, keys_modify]
    change ((t.upsert w.1 w.2).overlay writes).keys = _
    rw [ih fun w' hw' => hups ▸ h w' (List.mem_cons_of_mem _ hw'), hups]

/-- Writes a row, if there is one to write. -/
def put (t : Table κ ν) (k : κ) : Option ν → Table κ ν
  | none => t
  | some v => t.upsert k v

theorem find?_put (t : Table κ ν) (k : κ) (v : Option ν) (k' : κ) :
    (t.put k v).find? k' = if k' = k then v.or (t.find? k) else t.find? k' := by
  cases v with
  | none =>
    split_ifs with h
    · rw [h]
      rfl
    · rfl
  | some v => exact find?_upsert t k v k'

theorem Fixed.put (h : Fixed K t u) (hk : u.find? k = t.find? k) (v : Option ν) :
    Fixed K (t.put k v) (u.put k v) := by
  intro k' hk'
  rw [find?_put, find?_put, hk, h k' hk']

theorem fixed_put (hk : ¬K k) (v : Option ν) : Fixed K t (t.put k v) := by
  intro k' hk'
  have hne : k' ≠ k := fun e => hk (e ▸ hk')
  rw [find?_put, if_neg hne]

theorem overlay_changes_put [DecidableEq ν] (h : u.find? k = t.find? k) (v : Option ν) :
    u.overlay (t.changes (t.put k v)) = u.put k v := by
  cases v with
  | none => exact congrArg u.overlay changes_self
  | some v =>
    change u.overlay (t.changes (t.upsert k v)) = u.upsert k v
    rcases t.upsert_cases k v with ⟨hk, hi⟩ | ⟨w, hw, hm⟩
    · rcases u.upsert_cases k v with ⟨-, hi'⟩ | ⟨w', hw', -⟩
      · exact overlay_changes_insert hi hi'
      · exact nomatch (h.trans hk).symm.trans hw'
    · rcases u.upsert_cases k v with ⟨hk', -⟩ | ⟨w', hw', hm'⟩
      · exact nomatch (h.trans hw).symm.trans hk'
      · rw [hm, hm']
        exact overlay_changes_modify hw (h.trans hw)

end Fixed

end LedgerCore.Table
