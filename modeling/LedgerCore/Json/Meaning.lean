import LedgerCore.Json.Value

/-! What a document denotes: objects are finite maps, arrays are sequences, and a number is the
decimal that `strconv` writes for it. Documents in which every key stands once denote the same if
and only if they have the same value. -/
namespace LedgerCore.Json

/-- The sign, the shortest digits and the exponent. -/
structure Decimal where
  negative : Bool
  digits : ℕ
  exponent : ℤ
  deriving DecidableEq

/-- The shortest decimal of a double. Both zeroes are one. -/
def decimal (f : ℚ) : Decimal :=
  if f = 0 then ⟨false, 0, 0⟩ else ⟨f < 0, (shortest |f|).1, (shortest |f|).2⟩

inductive Meaning where
  | null
  | bool (b : Bool)
  | number (n : Option Decimal)
  | string (s : List Char)
  | array (items : List Meaning)
  | object (members : String → Option Meaning)

mutual

/-- A number that is out of range denotes no decimal. -/
def denote : Json → Meaning
  | .null => .null
  | .bool b => .bool b
  | .number n => .number ((binary64 n.value).map decimal)
  | .string s => .string s.toList
  | .array items => .array (denoteItems items)
  | .object members => .object (denoteMembers members)

def denoteItems : List Json → List Meaning
  | [] => []
  | d :: ds => denote d :: denoteItems ds

def denoteMembers : List (String × Json) → String → Option Meaning
  | [], _ => none
  | (key, d) :: ms, k => if key = k then some (denote d) else denoteMembers ms k

end

theorem denoteItems_eq (ds : List Json) : denoteItems ds = ds.map denote := by
  induction ds with
  | nil => rfl
  | cons d ds ih => rw [denoteItems, ih, List.map_cons]

theorem denoteMembers_eq_some {ms : List (String × Json)}
    (hkeys : ms.Pairwise fun m n => m.1 ≠ n.1) {k : String} {x : Meaning} :
    denoteMembers ms k = some x ↔ ∃ d, (k, d) ∈ ms ∧ denote d = x := by
  induction ms with
  | nil => simp [denoteMembers]
  | cons m ms ih =>
    obtain ⟨key, d⟩ := m
    obtain ⟨hkey, hkeys⟩ := List.pairwise_cons.1 hkeys
    rw [denoteMembers]
    by_cases h : key = k
    · subst h
      rw [if_pos rfl, Option.some.injEq]
      constructor
      · exact fun hx => ⟨d, List.mem_cons_self, hx⟩
      · rintro ⟨d', hmem, hx⟩
        rcases List.mem_cons.1 hmem with heq | hmem
        · cases heq
          exact hx
        · exact absurd rfl (hkey (key, d') hmem)
    · rw [if_neg h, ih hkeys]
      refine exists_congr fun d' => and_congr_left fun _ => ?_
      rw [List.mem_cons]
      refine ⟨.inr, fun hmem => hmem.resolve_left fun heq => ?_⟩
      cases heq
      exact h rfl

def charUnits (c : Char) : List ℕ :=
  if c.toNat < 0x10000 then [c.toNat]
  else [0xD800 + (c.toNat - 0x10000) / 0x400, 0xDC00 + (c.toNat - 0x10000) % 0x400]

theorem charUnits_append_inj {c c' : Char} {us us' : List ℕ}
    (h : charUnits c ++ us = charUnits c' ++ us') : c = c' ∧ us = us' := by
  have hvalid : c.toNat < 0xD800 ∨ 0xDFFF < c.toNat ∧ c.toNat < 0x110000 := c.valid
  have hvalid' : c'.toNat < 0xD800 ∨ 0xDFFF < c'.toNat ∧ c'.toNat < 0x110000 := c'.valid
  unfold charUnits at h
  -- A unit that stands alone is no half of a pair.
  by_cases hc : c.toNat < 0x10000
  · by_cases hc' : c'.toNat < 0x10000
    · rw [if_pos hc, if_pos hc'] at h
      obtain ⟨hhead, htail⟩ := List.cons.inj h
      exact ⟨Char.toNat_inj.1 hhead, htail⟩
    · rw [if_pos hc, if_neg hc'] at h
      have hhead := (List.cons.inj h).1
      omega
  · by_cases hc' : c'.toNat < 0x10000
    · rw [if_neg hc, if_pos hc'] at h
      have hhead := (List.cons.inj h).1
      omega
    · rw [if_neg hc, if_neg hc'] at h
      obtain ⟨hhigh, h⟩ := List.cons.inj h
      obtain ⟨hlow, htail⟩ := List.cons.inj h
      exact ⟨Char.toNat_inj.1 (by omega), htail⟩

theorem charUnits_ne_nil (c : Char) : charUnits c ≠ [] := by
  unfold charUnits
  split_ifs <;> exact List.cons_ne_nil _ _

theorem flatMap_charUnits_inj {cs cs' : List Char}
    (h : cs.flatMap charUnits = cs'.flatMap charUnits) : cs = cs' := by
  induction cs generalizing cs' with
  | nil =>
    cases cs' with
    | nil => rfl
    | cons c' cs' => exact absurd (List.append_eq_nil_iff.1 h.symm).1 (charUnits_ne_nil c')
  | cons c cs ih =>
    cases cs' with
    | nil => exact absurd (List.append_eq_nil_iff.1 h).1 (charUnits_ne_nil c)
    | cons c' cs' =>
      rw [List.flatMap_cons, List.flatMap_cons] at h
      obtain ⟨rfl, htail⟩ := charUnits_append_inj h
      rw [ih htail]

theorem codeUnits_injective {s t : String} (h : codeUnits s = codeUnits t) : s = t :=
  String.toList_inj.1 (flatMap_charUnits_inj h)

theorem sortMembers_congr {α : Type} {ms ns : List (String × α)} (hp : ms.Perm ns)
    (hkeys : ms.Pairwise fun m n => m.1 ≠ n.1) : sortMembers ms = sortMembers ns := by
  refine List.Perm.eq_of_pairwise (fun m n hm hn hle hge => ?_) pairwise_sortMembers
    pairwise_sortMembers (sortMembers_perm.trans (hp.trans sortMembers_perm.symm))
  have hkey : m.1 = n.1 := by
    refine codeUnits_injective (le_antisymm ?_ ?_)
    · simpa [lessUTF16] using hle
    · simpa [lessUTF16] using hge
  have hm := sortMembers_perm.subset hm
  have hn := hp.symm.subset (sortMembers_perm.subset hn)
  have hsymm : Std.Symm fun m n : String × α => m.1 ≠ n.1 := ⟨fun _ _ h => h.symm⟩
  by_contra hne
  exact hkeys.forall hm hn hne hkey

theorem decimal_zero {f : ℚ} (hf : binary64 f = some f) (h : (decimal f).digits = 0) : f = 0 := by
  by_contra hne
  have hpos := shortest_pos (binary64_abs hf) (abs_pos.2 hne)
  rw [decimal, if_neg hne] at h
  dsimp only at h
  omega

/-- A double is known by its shortest decimal. -/
theorem decimal_injective {f g : ℚ} (hf : binary64 f = some f) (hg : binary64 g = some g)
    (h : decimal f = decimal g) : f = g := by
  by_cases hf0 : f = 0
  · have hzero : (decimal g).digits = 0 := by rw [← h, decimal, if_pos hf0]
    exact hf0.trans (decimal_zero hg hzero).symm
  by_cases hg0 : g = 0
  · have hzero : (decimal f).digits = 0 := by rw [h, decimal, if_pos hg0]
    exact (decimal_zero hf hzero).trans hg0.symm
  have hshortest := binary64_shortest (binary64_abs hf) (abs_pos.2 hf0)
  have hshortest' := binary64_shortest (binary64_abs hg) (abs_pos.2 hg0)
  rw [decimal, decimal, if_neg hf0, if_neg hg0, Decimal.mk.injEq, decide_eq_decide] at h
  obtain ⟨hsign, hdigits, hexponent⟩ := h
  rw [hdigits, hexponent, hshortest'] at hshortest
  have habs : |g| = |f| := Option.some.inj hshortest
  by_cases hneg : f < 0
  · rw [abs_of_neg hneg, abs_of_neg (hsign.1 hneg)] at habs
    linarith
  · rw [abs_of_nonneg (not_lt.1 hneg), abs_of_nonneg (not_lt.1 (hsign.not.1 hneg))] at habs
    exact habs.symm

theorem denoteMembers_perm {ms ns : List (String × Json)} (hp : ms.Perm ns)
    (hkeys : ms.Pairwise fun m n => m.1 ≠ n.1) : denoteMembers ms = denoteMembers ns := by
  funext k
  refine Option.ext fun x => ?_
  rw [denoteMembers_eq_some hkeys, denoteMembers_eq_some (pairwise_keys_perm hp.symm hkeys)]
  exact exists_congr fun d => and_congr_left fun _ => hp.mem_iff

theorem denoteMembers_congr {ms ns : List (String × Json)}
    (h : List.Forall₂ (fun m n => m.1 = n.1 ∧ denote m.2 = denote n.2) ms ns) :
    denoteMembers ms = denoteMembers ns := by
  funext k
  induction h with
  | nil => rfl
  | @cons m n ms ns hmn _ ih =>
    obtain ⟨key, d⟩ := m
    obtain ⟨key', d'⟩ := n
    obtain ⟨rfl, hd⟩ := hmn
    dsimp only at hd
    rw [denoteMembers, denoteMembers, hd, ih]

theorem denote_eq_of_alike {d : Json} : ∀ d', Alike d d' → d.denote = d'.denote := by
  induction d using induct with
  | null | bool | string =>
    intro d' h
    cases h.view
    rfl
  | number n =>
    intro d' h
    cases h.view with
    | number double double' => rw [denote, denote, double, double']
  | array items ih =>
    intro d' h
    cases h.view with
    | array items' =>
      have hall := (List.forall₂_and_left _ _).2 ⟨fun d hd => ih d hd, items'⟩
      rw [denote, denote, denoteItems_eq, denoteItems_eq]
      exact congrArg _ (map_eq_of_forall₂ (hall.imp fun _ d' hd => hd.1 d' hd.2))
  | object members ih =>
    intro d' h
    obtain ⟨-, hkeys, -⟩ := duplicateMember_eq_none.1 h.distinct
    cases h.view with
    | object perm members' =>
      have hall := (List.forall₂_and_left _ _).2 ⟨fun m hm => ih m (perm.symm.subset hm), members'⟩
      rw [denote, denote, denoteMembers_perm perm hkeys]
      exact congrArg _ (denoteMembers_congr (hall.imp fun _ m' hm => ⟨hm.2.1, hm.1 m'.2 hm.2.2⟩))

/-- A document has one value in which its members stand once. -/
structure Means (d : Json) (v : Value) : Prop where
  distinct : d.duplicate = none
  value : d.value = some v

theorem Means.items {ds : List Json} {v : Value} (h : Means (.array ds) v) :
    ∃ vs, v = .array vs ∧ List.Forall₂ Means ds vs := by
  obtain ⟨hd, hv⟩ := h
  obtain ⟨vs, hvs, rfl⟩ := Option.map_eq_some_iff.1 hv
  have hall := (List.forall₂_and_left _ _).2 ⟨duplicateItem_eq_none.1 hd, values_eq_some.1 hvs⟩
  exact ⟨vs, rfl, hall.imp fun _ _ h => ⟨h.1, h.2⟩⟩

theorem Means.members {ms : List (String × Json)} {v : Value} (h : Means (.object ms) v) :
    ∃ vs, v = .object (sortMembers vs) ∧ (vs.Pairwise fun m n => m.1 ≠ n.1) ∧
      (ms.Pairwise fun m n => m.1 ≠ n.1) ∧
      List.Forall₂ (fun m n => m.1 = n.1 ∧ Means m.2 n.2) ms vs := by
  obtain ⟨hd, hv⟩ := h
  obtain ⟨vs, hvs, rfl⟩ := Option.map_eq_some_iff.1 hv
  obtain ⟨-, hkeys, hdistinct⟩ := duplicateMember_eq_none.1 hd
  have hkeys' := keys_of_memberValues hvs hkeys
  have hall := (List.forall₂_and_left _ _).2 ⟨hdistinct, memberValues_eq_some.1 hvs⟩
  exact ⟨vs, by rw [keepLast_eq_self hkeys'], hkeys', hkeys,
    hall.imp fun _ _ h => ⟨h.2.1, h.1, h.2.2⟩⟩

theorem subset_of_denoteMembers {ms ms' : List (String × Json)} {vs vs' : List (String × Value)}
    (hms : List.Forall₂ (fun m n => m.1 = n.1 ∧ Means m.2 n.2) ms vs)
    (hms' : List.Forall₂ (fun m n => m.1 = n.1 ∧ Means m.2 n.2) ms' vs')
    (hkeys : ms.Pairwise fun m n => m.1 ≠ n.1) (hkeys' : ms'.Pairwise fun m n => m.1 ≠ n.1)
    (h : denoteMembers ms = denoteMembers ms')
    (ih : ∀ m ∈ ms, ∀ m' ∈ ms', ∀ v v', Means m.2 v → Means m'.2 v' →
      m.2.denote = m'.2.denote → v = v') : vs ⊆ vs' := by
  rintro ⟨k, v⟩ hv
  obtain ⟨⟨_, d⟩, hd, rfl, hmeans⟩ := exists_left_of_forall₂ hms hv
  have hlookup := (denoteMembers_eq_some hkeys).2 ⟨d, hd, rfl⟩
  rw [h, denoteMembers_eq_some hkeys'] at hlookup
  obtain ⟨d', hd', hdenote⟩ := hlookup
  obtain ⟨⟨_, v'⟩, hv', rfl, hmeans'⟩ := exists_left_of_forall₂ hms'.flip hd'
  rw [ih _ hd _ hd' v v' hmeans hmeans' hdenote.symm]
  exact hv'

theorem right_unique_of_map {ds ds' : List Json} {vs vs' : List Value}
    (h : List.Forall₂ Means ds vs) (h' : List.Forall₂ Means ds' vs')
    (hmap : ds.map denote = ds'.map denote)
    (ih : ∀ d ∈ ds, ∀ d' v v', Means d v → Means d' v' → d.denote = d'.denote → v = v') :
    vs = vs' := by
  induction h generalizing ds' vs' with
  | nil =>
    rw [List.map_nil, eq_comm, List.map_eq_nil_iff] at hmap
    subst hmap
    cases h'
    rfl
  | cons hd _ ihs =>
    cases h' with
    | nil => cases hmap
    | cons hd' hds' =>
      obtain ⟨hhead, htail⟩ := List.cons.inj hmap
      obtain ⟨ihd, ihds⟩ := List.forall_mem_cons.1 ih
      rw [ihd _ _ _ hd hd' hhead, ihs hds' htail ihds]

theorem nodup_of_keys {α : Type} {ms : List (String × α)}
    (h : ms.Pairwise fun m n => m.1 ≠ n.1) : ms.Nodup :=
  h.imp fun hne heq => hne (congrArg Prod.fst heq)

/-- Documents that denote the same have the same value. -/
theorem value_eq_of_denote {d : Json} :
    ∀ d' v v', Means d v → Means d' v' → d.denote = d'.denote → v = v' := by
  induction d using induct with
  | null | bool b =>
    intro d' v v' hv hv' h
    cases d' <;> cases h
    exact Option.some.inj (hv.value.symm.trans hv'.value)
  | string s =>
    intro d' v v' hv hv' h
    cases d' with
    | string s' =>
      obtain rfl := String.toList_inj.1 (Meaning.string.inj h)
      exact Option.some.inj (hv.value.symm.trans hv'.value)
    | _ => cases h
  | number n =>
    intro d' v v' hv hv' h
    cases d' with
    | number n' =>
      obtain ⟨f, hf, rfl⟩ := Option.map_eq_some_iff.1 hv.value
      obtain ⟨f', hf', rfl⟩ := Option.map_eq_some_iff.1 hv'.value
      rw [denote, denote, hf, hf'] at h
      have hdecimal := Option.some.inj (Meaning.number.inj h)
      rw [decimal_injective (binary64_binary64 hf) (binary64_binary64 hf') hdecimal]
    | _ => cases h
  | array items ih =>
    intro d' v v' hv hv' h
    cases d' with
    | array items' =>
      obtain ⟨vs, rfl, hvs⟩ := hv.items
      obtain ⟨vs', rfl, hvs'⟩ := hv'.items
      rw [denote, denote, denoteItems_eq, denoteItems_eq] at h
      rw [right_unique_of_map hvs hvs' (Meaning.array.inj h) ih]
    | _ => cases h
  | object members ih =>
    intro d' v v' hv hv' h
    cases d' with
    | object members' =>
      obtain ⟨vs, rfl, hdistinct, hkeys, hvs⟩ := hv.members
      obtain ⟨vs', rfl, hdistinct', hkeys', hvs'⟩ := hv'.members
      have hmembers := Meaning.object.inj h
      have hsub := subset_of_denoteMembers hvs hvs' hkeys hkeys' hmembers
        fun m hm m' _ => ih m hm m'.2
      have hsub' := subset_of_denoteMembers hvs' hvs hkeys' hkeys hmembers.symm
        fun m _ m' hm' v v' hv hv' h => (ih m' hm' m.2 v' v hv' hv h.symm).symm
      have hperm : vs.Perm vs' :=
        (List.perm_ext_iff_of_nodup (nodup_of_keys hdistinct) (nodup_of_keys hdistinct')).2
          fun m => ⟨fun h => hsub h, fun h => hsub' h⟩
      rw [sortMembers_congr hperm hdistinct]
    | _ => cases h

/-- Documents denote the same if and only if they have the same value. -/
theorem denote_eq_iff {d d' : Json} {v v' : Value} (h : Means d v) (h' : Means d' v') :
    d.denote = d'.denote ↔ v = v' := by
  constructor
  · exact value_eq_of_denote d' v v' h h'
  · rintro rfl
    exact denote_eq_of_alike d' ⟨h.distinct, h'.distinct, v, h.value, h'.value⟩

end LedgerCore.Json
