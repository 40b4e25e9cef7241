import LedgerCore.Outbox.Publisher

/-! At least once: what the replicas mark, Kafka has acknowledged, and what they have not marked is
still there to be claimed. -/
namespace LedgerCore.Outbox
open LedgerCore.Program
variable {row row' : OutboxRow} {rows : List Row} {x : Session}

variable {P : Setup} {s s' : Publishers} {i j : ℕ}

namespace Publishers

/-- A row as it was, but for the time it was published. -/
def SameRow (row row' : OutboxRow) : Prop := { row' with publishedAt := row.publishedAt } = row

theorem SameRow.refl (row : OutboxRow) : SameRow row row := rfl

theorem SameRow.trans {row'' : OutboxRow} (h : SameRow row row') (h' : SameRow row' row'') :
    SameRow row row'' := by
  cases row
  cases row'
  cases row''
  cases h
  cases h'
  rfl

theorem SameRow.scanRow (h : SameRow row row') (id : ℕ) :
    Outbox.scanRow id row' = Outbox.scanRow id row := by
  rw [← h]
  rfl

/-- The row is of an event that `Append` accepted. -/
def Stored (row : OutboxRow) : Prop := ∃ eventID traceID traceParent e,
  (∃ db db', Outbox.append eventID e db = .ok db') ∧
    SameRow (appendedRow eventID traceID traceParent e) row

theorem Stored.sameRow (h : Stored row) (hsame : SameRow row row') : Stored row' := by
  obtain ⟨eventID, traceID, traceParent, e, happended, hrow⟩ := h
  exact ⟨eventID, traceID, traceParent, e, happended, hrow.trans hsame⟩

theorem find?_mark_of_notMem {marks : List (ℕ × Time)} {t : Table ℕ OutboxRow} {id : ℕ}
    (h : id ∉ marks.map Prod.fst) : (mark marks t).find? id = t.find? id := by
  induction marks generalizing t with
  | nil => rfl
  | cons m marks ih =>
    rw [List.map_cons, List.mem_cons, not_or] at h
    exact (ih h.2).trans (Table.find?_modify_of_ne _ h.1)

theorem find?_mark (marks : List (ℕ × Time)) {t : Table ℕ OutboxRow} {id : ℕ}
    (h : t.find? id = some row) :
    ∃ row', (mark marks t).find? id = some row' ∧ SameRow row row' ∧
      (id ∉ marks.map Prod.fst → row' = row) := by
  induction marks generalizing t row with
  | nil => exact ⟨row, h, .refl row, fun _ => rfl⟩
  | cons m marks ih =>
    by_cases hid : id = m.1
    · subst hid
      have hrow : (t.modify m.1 fun r => { r with publishedAt := some m.2 }).find? m.1 =
          some { row with publishedAt := some m.2 } := by rw [Table.find?_modify_self, h]; rfl
      obtain ⟨row', hrow', hsame, -⟩ := ih hrow
      have hmarked : SameRow row { row with publishedAt := some m.2 } := rfl
      exact ⟨row', hrow', hmarked.trans hsame, fun hnot => absurd List.mem_cons_self hnot⟩
    · have hrow : (t.modify m.1 fun r => { r with publishedAt := some m.2 }).find? id = some row := by
        rw [Table.find?_modify_of_ne _ hid, h]
      obtain ⟨row', hrow', hsame, hkept⟩ := ih hrow
      exact ⟨row', hrow', hsame, fun hnot => hkept fun hmem => hnot (List.mem_cons_of_mem _ hmem)⟩

theorem keys_mark (marks : List (ℕ × Time)) (t : Table ℕ OutboxRow) : (mark marks t).keys = t.keys := by
  induction marks generalizing t with
  | nil => rfl
  | cons m marks ih => exact (ih _).trans (Table.keys_modify _)

theorem find?_of_mark {marks : List (ℕ × Time)} {t : Table ℕ OutboxRow} {id : ℕ}
    (h : (mark marks t).find? id = some row') :
    ∃ row, t.find? id = some row ∧ SameRow row row' ∧ (id ∉ marks.map Prod.fst → row' = row) := by
  obtain ⟨row, hrow⟩ := Table.mem_keys.1 (keys_mark marks t ▸ Table.mem_keys.2 ⟨row', h⟩)
  obtain ⟨row'', hrow'', hsame, hkept⟩ := find?_mark marks hrow
  obtain rfl : row'' = row' := Option.some.inj (hrow''.symm.trans h)
  exact ⟨row, hrow, hsame, hkept⟩

/-- The batch holds these rows, which are as it read them and not published. -/
def Held (s : Publishers) (i : ℕ) (rows : List Row) : Prop :=
  ∀ r ∈ rows, s.holder r.id = some i ∧
    ∃ row, s.outbox.find? r.id = some row ∧ row.publishedAt = none ∧ scanRow r.id row = r

def Acknowledged (s : Publishers) (rows : List Row) : Prop :=
  ∀ r ∈ rows, r.record ∈ s.acknowledged

/-- How far a batch is, and what it can rely on there. -/
inductive Under (P : Setup) (s : Publishers) (i : ℕ) : Session → Prop where
  | begins : Under P s i ⟨publishBatch P.batchSize, [], []⟩
  | claims : Under P s i ⟨claimBatch P.batchSize, [], []⟩
  | produces {rows : List Row} (held : Held s i rows) : Under P s i ⟨produceBatch rows, rows, []⟩
  | marks {rows : List Row} (held : Held s i rows) (acknowledged : Acknowledged s rows) :
    Under P s i ⟨markBatch rows, rows, []⟩
  | commits {rows : List Row} {now : Time} (held : Held s i rows)
    (acknowledged : Acknowledged s rows) :
    Under P s i ⟨commitBatch rows, rows, (rows.map fun r => r.id).map fun id => (id, now)⟩
  | ended {x : Session} (rest : ∀ c k, x.rest ≠ .call c k) : Under P s i x

/-- What others leave to a batch. -/
structure Spares (s s' : Publishers) (i : ℕ) : Prop where
  holder : ∀ id, s.holder id = some i → s'.holder id = some i
  rows : ∀ id row, s.holder id = some i → s.outbox.find? id = some row → s'.outbox.find? id = some row
  acknowledged : s.acknowledged ⊆ s'.acknowledged

theorem Held.spares (h : Held s i rows) (hs : Spares s s' i) : Held s' i rows := by
  intro r hr
  obtain ⟨hholder, row, hrow, hrest⟩ := h r hr
  exact ⟨hs.holder r.id hholder, row, hs.rows r.id row hholder hrow, hrest⟩

theorem Under.spares (h : Under P s i x) (hs : Spares s s' i) : Under P s' i x := by
  cases h with
  | begins => exact .begins
  | claims => exact .claims
  | produces held => exact .produces (held.spares hs)
  | marks held acknowledged => exact .marks (held.spares hs) fun r hr => hs.acknowledged (acknowledged r hr)
  | commits held acknowledged => exact .commits (held.spares hs) fun r hr => hs.acknowledged (acknowledged r hr)
  | ended rest => exact .ended rest

/-- Every record in a partition belongs there, and is that of a row. -/
def Traced (P : Setup) (s : Publishers) : Prop :=
  ∀ topic p, ∀ r ∈ s.log topic p, r.topic = topic ∧ P.partition topic r.key = p ∧
    ∃ id row, s.outbox.find? id = some row ∧ (scanRow id row).record = r

/-- What holds of the replicas at any time. -/
structure Sound (P : Setup) (s : Publishers) : Prop where
  sessions : ∀ i x, s.sessions i = some x → Under P s i x
  published : ∀ id row, s.outbox.find? id = some row → row.publishedAt.isSome →
    (scanRow id row).record ∈ s.acknowledged
  logged : ∀ r ∈ s.acknowledged, r ∈ s.log r.topic (P.partition r.topic r.key)
  traced : Traced P s
  stored : ∀ id row, s.outbox.find? id = some row → Stored row

theorem sound_init : Sound P init :=
  ⟨fun _ _ h => (nomatch h), fun _ _ h => (nomatch h), fun _ h => (nomatch h),
    fun _ _ _ h => (nomatch h), fun _ _ h => (nomatch h)⟩

/-- The rows stay, and a published row stays as it is. -/
def Kept (s s' : Publishers) : Prop :=
  ∀ id row, s.outbox.find? id = some row →
    ∃ row', s'.outbox.find? id = some row' ∧ SameRow row row' ∧ (row.publishedAt.isSome → row' = row)

theorem Kept.refl (s : Publishers) : Kept s s := fun _ row h => ⟨row, h, .refl row, fun _ => rfl⟩

theorem Kept.trans {s'' : Publishers} (h : Kept s s') (h' : Kept s' s'') : Kept s s'' := by
  intro id row hrow
  obtain ⟨row', hrow', hsame, hkept⟩ := h id row hrow
  obtain ⟨row'', hrow'', hsame', hkept'⟩ := h' id row' hrow'
  refine ⟨row'', hrow'', hsame.trans hsame', fun hpublished => ?_⟩
  obtain rfl := hkept hpublished
  exact hkept' hpublished

theorem Traced.kept (h : Traced P s) (hkept : Kept s s') (hlog : s'.log = s.log) : Traced P s' := by
  intro topic p r hr
  rw [hlog] at hr
  obtain ⟨htopic, hp, id, row, hrow, hrecord⟩ := h topic p r hr
  obtain ⟨row', hrow', hsame, -⟩ := hkept id row hrow
  exact ⟨htopic, hp, id, row', hrow', by rw [hsame.scanRow, hrecord]⟩

/-- What a batch has done to the rest of the state when it moves on. -/
structure Beside (P : Setup) (s t : Publishers) (i : ℕ) : Prop where
  sessions : t.sessions = s.sessions
  spares : ∀ j, j ≠ i → Spares s t j
  kept : Kept s t
  published : ∀ id row, t.outbox.find? id = some row → row.publishedAt.isSome →
    (scanRow id row).record ∈ t.acknowledged
  logged : ∀ r ∈ t.acknowledged, r ∈ t.log r.topic (P.partition r.topic r.key)
  traced : Traced P t
  stored : ∀ id row, t.outbox.find? id = some row → Stored row

inductive Moves (P : Setup) (s : Publishers) : Publishers → Prop where
  | grows {outbox : Table ℕ OutboxRow}
    (rows : ∀ id row, s.outbox.find? id = some row → outbox.find? id = some row)
    (new : ∀ id row, outbox.find? id = some row →
      s.outbox.find? id = some row ∨ row.publishedAt = none ∧ Stored row) :
    Moves P s { s with outbox }
  | goes {t : Publishers} {i : ℕ} {x : Session} (beside : Beside P s t i) (under : Under P t i x) :
    Moves P s (t.set i x)
  | ends {t : Publishers} {i : ℕ} (beside : Beside P s t i) : Moves P s (t.close i)

@[simp] theorem sessions_set (x : Session) : (s.set i x).sessions i = some x := Function.update_self ..

theorem set_sessions {y : Session} (h : (s.set i x).sessions j = some y) :
    j = i ∧ y = x ∨ j ≠ i ∧ s.sessions j = some y := by
  by_cases hj : j = i
  · subst hj
    exact .inl ⟨rfl, by simpa [set, eq_comm] using h⟩
  · exact .inr ⟨hj, by simpa [set, hj] using h⟩

theorem Spares.refl (s : Publishers) (i : ℕ) : Spares s s i :=
  ⟨fun _ h => h, fun _ _ _ h => h, List.Subset.refl _⟩

theorem Sound.beside (h : Sound P s) (i : ℕ) : Beside P s s i :=
  ⟨rfl, fun j _ => .refl s j, .refl s, h.published, h.logged, h.traced, h.stored⟩

theorem spares_unlock (hj : j ≠ i) : Spares s (s.unlock i) j :=
  ⟨fun id h => by simp [unlock, h, hj], fun _ _ _ h => h, List.Subset.refl _⟩

theorem moves_insert {id : ℕ} {outbox : Table ℕ OutboxRow} (unpublished : row.publishedAt = none)
    (hstored : Stored row) (hinsert : s.outbox.insert? id row = some outbox) :
    Moves P s { s with outbox } := by
  refine .grows (fun id' row' h => ?_) fun id' row' h => ?_
  · have hfree := (Table.insert?_eq_some.1 hinsert).1
    rw [Table.find?_insert hinsert, if_neg, h]
    rintro rfl
    exact nomatch hfree.symm.trans h
  · rw [Table.find?_insert hinsert] at h
    split_ifs at h
    · cases h
      exact .inr ⟨unpublished, hstored⟩
    · exact .inl h

theorem Moves.kept (h : Moves P s s') : Kept s s' := by
  cases h with
  | grows rows new => exact fun id row hrow => ⟨row, rows id row hrow, .refl row, fun _ => rfl⟩
  | goes beside under => exact beside.kept
  | ends beside => exact beside.kept

theorem Sound.moves (h : Sound P s) (hmoves : Moves P s s') : Sound P s' := by
  have hkept := hmoves.kept
  cases hmoves with
  | grows rows new =>
    refine ⟨fun j y hy => ?_, fun id row hrow hpublished => ?_, h.logged,
      h.traced.kept hkept rfl, fun id row hrow => ?_⟩
    · exact (h.sessions j y hy).spares ⟨fun _ h => h, fun id row _ => rows id row, List.Subset.refl _⟩
    · rcases new id row hrow with hrow | ⟨hnone, -⟩
      · exact h.published id row hrow hpublished
      · simp [hnone] at hpublished
    · rcases new id row hrow with hrow | ⟨-, hstored⟩
      · exact h.stored id row hrow
      · exact hstored
  | @goes t i x beside under =>
    refine ⟨fun j y hy => ?_, beside.published, beside.logged, beside.traced, beside.stored⟩
    rcases set_sessions hy with ⟨rfl, rfl⟩ | ⟨hj, hy⟩
    · exact under.spares ⟨fun _ h => h, fun _ _ _ h => h, List.Subset.refl _⟩
    · exact ((h.sessions j y (beside.sessions ▸ hy)).spares (beside.spares j hj)).spares
        ⟨fun _ h => h, fun _ _ _ h => h, List.Subset.refl _⟩
  | @ends t i beside =>
    refine ⟨fun j y hy => ?_, beside.published, beside.logged, beside.traced, beside.stored⟩
    by_cases hj : j = i
    · subst hj
      simp [Publishers.close] at hy
    · have hy : t.sessions j = some y := by simpa [Publishers.close, hj] using hy
      exact ((h.sessions j y (beside.sessions ▸ hy)).spares (beside.spares j hj)).spares
        ⟨(spares_unlock hj).holder, fun _ _ _ h => h, List.Subset.refl _⟩

theorem mem_claim {limit : ℕ} {r : Row} (h : r ∈ s.claim limit) :
    ∃ row, s.outbox.find? r.id = some row ∧ row.publishedAt = none ∧ s.holder r.id = none ∧
      scanRow r.id row = r := by
  obtain ⟨⟨id, row⟩, hmem, rfl⟩ := List.mem_map.1 h
  have hclaimable := (List.mem_insertionSort _).1 (List.mem_of_mem_take hmem)
  obtain ⟨hrow, hfree⟩ := List.mem_filter.1 hclaimable
  obtain ⟨hpublished, hholder⟩ := of_decide_eq_true hfree
  exact ⟨row, Table.find?_eq_some.2 hrow, hpublished, hholder, rfl⟩

def locked (s : Publishers) (i : ℕ) (rows : List Row) : Publishers :=
  { s with holder := fun id => if id ∈ rows.map (fun r => r.id) then some i else s.holder id }

theorem held_claim (limit : ℕ) : Held (s.locked i (s.claim limit)) i (s.claim limit) := by
  intro r hr
  obtain ⟨row, hrow, hpublished, -, hscan⟩ := mem_claim hr
  exact ⟨if_pos (List.mem_map_of_mem hr), row, hrow, hpublished, hscan⟩

theorem mem_take_of_oldest {l : List (ℕ × OutboxRow)} {x : ℕ × OutboxRow} {n : ℕ}
    (hl : l.Pairwise fun a b => a.1 < b.1) (hx : x ∈ l)
    (hn : (l.filter fun r => r.1 < x.1).length < n) : x ∈ l.take n := by
  induction l generalizing n with
  | nil => exact nomatch hx
  | cons y l ih =>
    obtain ⟨hy, hl⟩ := List.pairwise_cons.1 hl
    obtain ⟨n, rfl⟩ := Nat.exists_eq_succ_of_ne_zero (Nat.ne_zero_of_lt hn)
    rw [List.take_succ_cons]
    rcases List.mem_cons.1 hx with rfl | hx
    · exact List.mem_cons_self
    · rw [List.filter_cons_of_pos (by simpa using hy x hx), List.length_cons] at hn
      exact List.mem_cons_of_mem _ (ih hl hx (Nat.lt_of_succ_lt_succ hn))

theorem pairwise_claimable (s : Publishers) :
    (s.claimable.insertionSort fun a b => a.1 ≤ b.1).Pairwise fun a b => a.1 < b.1 := by
  have hnodup : s.claimable.Pairwise fun a b => a.1 ≠ b.1 :=
    (List.pairwise_map.1 s.outbox.nodup).sublist List.filter_sublist
  have hne := ((List.perm_insertionSort (fun a b => a.1 ≤ b.1) s.claimable).pairwise_iff
    fun h => h.symm).2 hnodup
  have hle := List.pairwise_insertionSort (fun a b : ℕ × OutboxRow => a.1 ≤ b.1) s.claimable
  exact (hle.and hne).imp fun h => lt_of_le_of_ne h.1 h.2

theorem mem_claim_of_oldest {limit id : ℕ} (hrow : s.outbox.find? id = some row)
    (hunpublished : row.publishedAt = none) (hfree : s.holder id = none)
    (holdest : (s.claimable.filter fun r => r.1 < id).length < limit) :
    scanRow id row ∈ s.claim limit := by
  have hmem : (id, row) ∈ s.claimable :=
    List.mem_filter.2 ⟨Table.find?_eq_some.1 hrow, by simp [hunpublished, hfree]⟩
  refine List.mem_map.2 ⟨(id, row), mem_take_of_oldest s.pairwise_claimable ?_ ?_, rfl⟩
  · exact (List.mem_insertionSort _).2 hmem
  · rwa [((List.perm_insertionSort _ s.claimable).filter _).length_eq]

theorem Sound.beside_locked (h : Sound P s) (i limit : ℕ) :
    Beside P s (s.locked i (s.claim limit)) i := by
  refine ⟨rfl, fun _ _ => ⟨fun id hid => ?_, fun _ _ _ h => h, List.Subset.refl _⟩, .refl s, h.published,
    h.logged, h.traced, h.stored⟩
  have hnot : id ∉ (s.claim limit).map fun r => r.id := by
    intro hmem
    obtain ⟨r, hr, rfl⟩ := List.mem_map.1 hmem
    obtain ⟨-, -, -, hfree, -⟩ := mem_claim hr
    exact nomatch hfree.symm.trans hid
  exact (if_neg hnot).trans hid

theorem Traced.append (h : Traced P s) (held : Held s i rows) (taken : String → ℕ → ℕ) :
    Traced P (s.append P (rows.map Row.record) taken) := by
  intro topic p r hr
  rcases List.mem_append.1 hr with hr | hr
  · exact h topic p r hr
  · obtain ⟨hr, hrouted⟩ := List.mem_filter.1 (List.mem_of_mem_take hr)
    obtain ⟨htopic, hp⟩ := of_decide_eq_true hrouted
    obtain ⟨r, hmem, rfl⟩ := List.mem_map.1 hr
    obtain ⟨-, row, hrow, -, hscan⟩ := held r hmem
    exact ⟨htopic, hp, r.id, row, hrow, by rw [hscan]⟩

theorem Sound.beside_append (h : Sound P s) (held : Held s i rows) (taken : String → ℕ → ℕ) :
    Beside P s (s.append P (rows.map Row.record) taken) i where
  sessions := rfl
  spares _ _ := ⟨fun _ h => h, fun _ _ _ h => h, List.Subset.refl _⟩
  kept := .refl s
  published := h.published
  logged r hr := List.mem_append_left _ (h.logged r hr)
  traced := h.traced.append held taken
  stored := h.stored

def produced (P : Setup) (s : Publishers) (records : List Record) : Publishers :=
  { s.append P records fun _ _ => records.length with
    acknowledged := s.acknowledged ++ records }

theorem mem_log_produced {records : List Record} {r : Record} (hr : r ∈ records) :
    r ∈ (s.produced P records).log r.topic (P.partition r.topic r.key) := by
  refine List.mem_append_right _ ?_
  change r ∈ (routed P records r.topic (P.partition r.topic r.key)).take records.length
  rw [routed, List.take_of_length_le (List.length_filter_le _ _)]
  exact List.mem_filter.2 ⟨hr, by simp⟩

theorem Sound.beside_produced (h : Sound P s) (held : Held s i rows) :
    Beside P s (s.produced P (rows.map Row.record)) i where
  sessions := rfl
  spares _ _ := ⟨fun _ h => h, fun _ _ _ h => h, List.subset_append_left _ _⟩
  kept := .refl s
  published id row hrow hpublished := List.mem_append_left _ (h.published id row hrow hpublished)
  logged r hr := by
    rcases List.mem_append.1 hr with hr | hr
    · exact List.mem_append_left _ (h.logged r hr)
    · exact mem_log_produced hr
  traced := h.traced.append held _
  stored := h.stored

section Commit
variable {rows : List Row} {now : Time}

def markedBy (s : Publishers) (i : ℕ) (rows : List Row) (now : Time) : Publishers :=
  { s.unlock i with outbox := mark ((rows.map fun r => r.id).map fun id => (id, now)) s.outbox }

theorem mem_marks {id : ℕ} :
    id ∈ ((rows.map fun r => r.id).map fun id => (id, now)).map Prod.fst ↔ ∃ r ∈ rows, r.id = id := by
  simp

theorem kept_markedBy (held : Held s i rows) : Kept s (s.markedBy i rows now) := by
  intro id row hrow
  obtain ⟨row', hrow', hsame, hkept⟩ := find?_mark ((rows.map fun r => r.id).map fun id => (id, now)) hrow
  refine ⟨row', hrow', hsame, fun hpublished => hkept fun hmem => ?_⟩
  obtain ⟨r, hr, rfl⟩ := mem_marks.1 hmem
  obtain ⟨-, row₁, hrow₁, hnone, -⟩ := held r hr
  obtain rfl : row = row₁ := Option.some.inj (hrow.symm.trans hrow₁)
  simp [hnone] at hpublished

/-- A batch marks rows that only it holds, that are not published and that Kafka has acknowledged. -/
theorem Sound.beside_markedBy (h : Sound P s) (held : Held s i rows) (hacked : Acknowledged s rows) :
    Beside P s (s.markedBy i rows now) i where
  sessions := rfl
  spares j hj := by
    refine ⟨(spares_unlock hj).holder, fun id row hid hrow => ?_, List.Subset.refl _⟩
    refine (find?_mark_of_notMem fun hmem => ?_).trans hrow
    obtain ⟨r, hr, rfl⟩ := mem_marks.1 hmem
    exact hj (Option.some.inj (hid.symm.trans (held r hr).1))
  kept := kept_markedBy held
  published id row hrow hpublished := by
    obtain ⟨row₀, hrow₀, hsame, hkept⟩ := find?_of_mark hrow
    by_cases hmem : id ∈ ((rows.map fun r => r.id).map fun id => (id, now)).map Prod.fst
    · obtain ⟨r, hr, rfl⟩ := mem_marks.1 hmem
      obtain ⟨-, row₁, hrow₁, -, hscan⟩ := held r hr
      obtain rfl : row₀ = row₁ := Option.some.inj (hrow₀.symm.trans hrow₁)
      rw [hsame.scanRow, hscan]
      exact hacked r hr
    · obtain rfl := hkept hmem
      exact h.published id row hrow₀ hpublished
  logged := h.logged
  traced := h.traced.kept (kept_markedBy held) rfl
  stored id row hrow := by
    obtain ⟨row₀, hrow₀, hsame, -⟩ := find?_of_mark hrow
    exact (h.stored id row₀ hrow₀).sameRow hsame

end Commit

theorem Sound.perform (h : Sound P s) {now : Time} (hstep : s.step P (.perform i now) = some s') :
    Moves P s s' := by
  obtain ⟨x, hi, hstep⟩ := Option.bind_eq_some_iff.1 hstep
  cases h.sessions i x hi with
  | begins =>
    cases hstep
    exact .goes (h.beside i) .claims
  | claims =>
    cases hstep
    refine .goes (h.beside_locked i P.batchSize) ?_
    change Under P _ i ⟨if s.claim P.batchSize = [] then pure 0
      else produceBatch (s.claim P.batchSize), s.claim P.batchSize, []⟩
    split_ifs
    · exact .ended nofun
    · exact .produces (held_claim _)
  | @produces rows held =>
    cases hstep
    refine .goes (h.beside_produced held) (.marks held fun r hr => ?_)
    exact List.mem_append_right _ (List.mem_map_of_mem hr)
  | @marks rows held acknowledged =>
    cases hstep
    exact .goes (h.beside i) (.commits held acknowledged)
  | @commits rows now' held acknowledged =>
    cases hstep
    exact .goes (h.beside_markedBy held acknowledged) (.ended nofun)
  | ended rest =>
    split at hstep
    · next c k hrest => exact (rest c k hrest).elim
    · cases hstep

/-- A call that fails leaves the other batches alone, whatever it has done, and ends its own. -/
theorem Sound.partly (h : Sound P s) {c : Call} {k : Reply c → PublishM ℕ}
    (hi : s.sessions i = some x) (hrest : x.rest = .call c k) (fault : Fault) :
    Beside P s (s.partly P i x fault c) i ∧ ∀ e c' k', k (failed e c) ≠ .call c' k' := by
  cases h.sessions i x hi with
  | begins =>
    cases hrest
    exact ⟨h.beside i, nofun⟩
  | claims =>
    cases hrest
    exact ⟨h.beside i, nofun⟩
  | produces held =>
    cases hrest
    exact ⟨h.beside_append held _, nofun⟩
  | marks held acknowledged =>
    cases hrest
    exact ⟨h.beside i, nofun⟩
  | @commits rows now held acknowledged =>
    cases hrest
    refine ⟨?_, nofun⟩
    cases hcommitted : fault.committed with
    | false =>
      simp only [Publishers.partly, hcommitted]
      exact h.beside i
    | true =>
      simp only [Publishers.partly, hcommitted]
      exact h.beside_markedBy held acknowledged
  | ended rest => exact (rest c k hrest).elim

theorem Sound.step_moves (h : Sound P s) {a : Action} (hstep : s.step P a = some s') : Moves P s s' := by
  cases a with
  | insert id eventID traceID traceParent e appended =>
    obtain ⟨outbox, hinsert, rfl⟩ := Option.map_eq_some_iff.1 hstep
    exact moves_insert rfl ⟨eventID, traceID, traceParent, e, appended, .refl _⟩ hinsert
  | start i =>
    dsimp only [step] at hstep
    split at hstep
    · cases hstep
      exact .goes (h.beside i) .begins
    · cases hstep
  | perform i now => exact h.perform hstep
  | refuse i e fault =>
    obtain ⟨x, hi, hstep⟩ := Option.bind_eq_some_iff.1 hstep
    split at hstep
    · next c k hrest =>
      cases hstep
      obtain ⟨hbeside, hended⟩ := h.partly hi hrest fault
      exact .goes hbeside (.ended (hended e))
    · cases hstep
  | finish i =>
    obtain ⟨x, hi, hstep⟩ := Option.bind_eq_some_iff.1 hstep
    split at hstep
    · cases hstep
    · cases hstep
      exact .ends (h.beside i)
  | crash i fault =>
    obtain ⟨x, hi, hstep⟩ := Option.bind_eq_some_iff.1 hstep
    split at hstep
    · next c k hrest =>
      cases hstep
      exact .ends (h.partly hi hrest fault).1
    · cases hstep
      exact .ends (h.beside i)

theorem Sound.run (h : Sound P s) {actions : List Action} (hrun : s.run P actions = some s') :
    Sound P s' ∧ Kept s s' := by
  induction actions generalizing s with
  | nil =>
    cases hrun
    exact ⟨h, .refl _⟩
  | cons a actions ih =>
    obtain ⟨s₁, hstep, hrun⟩ := Option.bind_eq_some_iff.1 hrun
    have hmoves := h.step_moves hstep
    obtain ⟨hsound, hkept⟩ := ih (h.moves hmoves) hrun
    exact ⟨hsound, hmoves.kept.trans hkept⟩

/-- Kafka has acknowledged the row: its payload, under its key, is in the partition of its key. -/
def Delivered (P : Setup) (s : Publishers) (row : OutboxRow) : Prop :=
  ∃ r ∈ s.acknowledged, r.topic = topicForAggregate row.aggregateType ∧ r.key = row.aggregateID ∧
    r.value = row.payload ∧ r ∈ s.log r.topic (P.partition r.topic r.key)

/-- The row is among the oldest that a claim may take. -/
def Oldest (P : Setup) (s : Publishers) (id : ℕ) (row : OutboxRow) : Prop :=
  s.outbox.find? id = some row ∧ row.publishedAt = none ∧ s.holder id = none ∧
    (s.claimable.filter fun r => r.1 < id).length < P.batchSize

def Claimed (s : Publishers) (i id : ℕ) (row : OutboxRow) : Prop :=
  s.holder id = some i ∧ ∃ x, s.sessions i = some x ∧ scanRow id row ∈ x.claimed

theorem Sound.delivered (h : Sound P s) {id : ℕ}
    (hacked : (scanRow id row).record ∈ s.acknowledged) : Delivered P s row :=
  ⟨_, hacked, rfl, rfl, rfl, h.logged _ hacked⟩

theorem Sound.delivered_marks (h : Sound P s) {ids : List ℕ}
    {k : Reply (.markPublished ids) → PublishM ℕ} (hi : s.sessions i = some x)
    (hrest : x.rest = .call (.markPublished ids) k) {id : ℕ} (hid : id ∈ ids) :
    ∃ row, s.outbox.find? id = some row ∧ Delivered P s row := by
  cases h.sessions i x hi with
  | begins => cases hrest
  | claims => cases hrest
  | produces held => cases hrest
  | @marks rows held acknowledged =>
    cases hrest
    obtain ⟨r, hr, rfl⟩ := List.mem_map.1 hid
    obtain ⟨-, row, hrow, -, hscan⟩ := held r hr
    exact ⟨row, hrow, h.delivered (hscan ▸ acknowledged r hr)⟩
  | commits held acknowledged => cases hrest
  | ended rest => exact (rest _ k hrest).elim

theorem Sound.claims_oldest (h : Sound P s) {limit : ℕ} {k : Reply (.claim limit) → PublishM ℕ}
    (hi : s.sessions i = some x) (hrest : x.rest = .call (.claim limit) k) {id : ℕ}
    (hold : Oldest P s id row) (now : Time) :
    ∃ s', s.step P (.perform i now) = some s' ∧ Claimed s' i id row := by
  obtain ⟨hrow, hunpublished, hfree, holdest⟩ := hold
  cases h.sessions i x hi with
  | begins => cases hrest
  | claims =>
    have hmem := mem_claim_of_oldest hrow hunpublished hfree holdest
    refine ⟨_, by rw [step, hi]; rfl, ?_, _, Function.update_self .., hmem⟩
    exact if_pos (List.mem_map_of_mem hmem)
  | produces held => cases hrest
  | marks held acknowledged => cases hrest
  | commits held acknowledged => cases hrest
  | ended rest => exact (rest _ k hrest).elim

theorem starts_claim (hidle : s.sessions i = none) (now : Time) :
    s.run P [.start i, .perform i now] = some (s.set i ⟨claimBatch P.batchSize, [], []⟩) := by
  have hstart : s.step P (.start i) = some (s.set i ⟨publishBatch P.batchSize, [], []⟩) := by
    rw [step, hidle]
    rfl
  have hbegin : (s.set i ⟨publishBatch P.batchSize, [], []⟩).step P (.perform i now) =
      some ((s.set i ⟨publishBatch P.batchSize, [], []⟩).set i ⟨claimBatch P.batchSize, [], []⟩) := by
    rw [step, sessions_set]
    rfl
  rw [run, List.foldlM_cons, hstart]
  change ((s.set i ⟨publishBatch P.batchSize, [], []⟩).step P (.perform i now)).bind _ = _
  rw [hbegin]
  simp [set]

theorem outbox_at_least_once (P : Setup) (before after : List Action) (s s' : Publishers)
    (hbefore : init.run P before = some s) (hafter : s.run P after = some s') :
    (∀ id row, s.outbox.find? id = some row → row.publishedAt.isSome → Delivered P s row) ∧
    (∀ i x ids k, s.sessions i = some x → x.rest = .call (.markPublished ids) k →
      ∀ id ∈ ids, ∃ row, s.outbox.find? id = some row ∧ Delivered P s row) ∧
    (∀ id row, s.outbox.find? id = some row → ∃ row', s'.outbox.find? id = some row' ∧
      SameRow row row' ∧ (row.publishedAt.isSome → row' = row)) ∧
    (∀ id row, Oldest P s id row →
      (∀ i x limit k now, s.sessions i = some x → x.rest = .call (.claim limit) k →
        ∃ s₁, s.step P (.perform i now) = some s₁ ∧ Claimed s₁ i id row) ∧
      (∀ i now, s.sessions i = none →
        ∃ s₁, s.run P [.start i, .perform i now, .perform i now] = some s₁ ∧
          Claimed s₁ i id row)) ∧
    ∀ id row, s.outbox.find? id = some row → Stored row := by
  obtain ⟨hsound, -⟩ := sound_init.run hbefore
  obtain ⟨-, hkept⟩ := hsound.run hafter
  refine ⟨fun id row hrow hpublished => hsound.delivered (hsound.published id row hrow hpublished),
    fun i x ids k hi hrest id hid => hsound.delivered_marks hi hrest hid, hkept,
    fun id row hold => ⟨fun i x limit k now hi hrest => hsound.claims_oldest hi hrest hold now,
      fun i now hidle => ?_⟩, hsound.stored⟩
  have hstart := starts_claim (P := P) hidle now
  obtain ⟨hsound', -⟩ := hsound.run hstart
  obtain ⟨s₁, hstep, hclaimed⟩ := hsound'.claims_oldest (Function.update_self ..) rfl
    (show Oldest P (s.set i _) id row from hold) now
  refine ⟨s₁, ?_, hclaimed⟩
  change s.run P ([.start i, .perform i now] ++ [.perform i now]) = some s₁
  rw [run, List.foldlM_append, ← run, hstart]
  exact (bind_pure _).trans hstep

def sampleSetup : Setup := ⟨1, fun _ _ => 0⟩

def sampleEvent (n : ℕ) : Event :=
  ⟨"account", toString n, "AccountCreated", 1, 1,
    .accountCreated ⟨BitVec.ofNat 128 n, "", .asset, .debit, "EUR", none, false⟩⟩

def sampleRow (n : ℕ) : OutboxRow := appendedRow (BitVec.ofNat 128 n) "" "" (sampleEvent n)

/-- Two replicas claim one row each. The first crashes after Kafka has acknowledged its row, the
second's produce fails, and its next batch publishes the first row again. -/
def sampleBatches : List Action :=
  [.insert 1 1 "" "" (sampleEvent 1) ⟨.empty, _, rfl⟩, .insert 2 2 "" "" (sampleEvent 2) ⟨.empty, _, rfl⟩,
    .start 0, .start 1, .perform 0 5, .perform 1 5,
    .perform 0 5, .perform 1 5, .perform 0 6, .refuse 1 (.ofSentinel .canceled) ⟨fun _ _ => 1, false⟩,
    .crash 0 ⟨fun _ _ => 0, false⟩, .finish 1, .start 1, .perform 1 7, .perform 1 7, .perform 1 7,
    .perform 1 8, .perform 1 9]

theorem outbox_at_least_once_sample : ∃ s, init.run sampleSetup sampleBatches = some s ∧
    (∃ row, s.outbox.find? 1 = some row ∧ row.publishedAt = some 8 ∧ Delivered sampleSetup s row) ∧
    ∃ s₁, s.run sampleSetup [.start 0, .perform 0 9, .perform 0 9] = some s₁ ∧
      Claimed s₁ 0 2 (sampleRow 2) := by
  have hrun : (init.run sampleSetup sampleBatches).any (fun s =>
      s.outbox.find? 1 = some { sampleRow 1 with publishedAt := some 8 } ∧
      s.outbox.find? 2 = some (sampleRow 2) ∧ s.holder 2 = none ∧ (s.sessions 0).isNone ∧
      (s.claimable.filter fun r => r.1 < 2).length < 1) = true := by decide +kernel
  obtain ⟨s, hs, hfacts⟩ := (Option.any_eq_true ..).1 hrun
  obtain ⟨hone, htwo, hfree, hidle, holdest⟩ := of_decide_eq_true hfacts
  have h := outbox_at_least_once sampleSetup sampleBatches [] s s hs rfl
  exact ⟨s, hs, ⟨_, hone, rfl, h.1 1 _ hone rfl⟩,
    (h.2.2.2.1 2 _ ⟨htwo, rfl, hfree, holdest⟩).2 0 9 (Option.isNone_iff_eq_none.1 hidle)⟩

end Publishers

end LedgerCore.Outbox
