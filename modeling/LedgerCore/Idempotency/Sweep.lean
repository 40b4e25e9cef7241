import LedgerCore.Idempotency.Store

/-! What a sweep deletes. -/
namespace LedgerCore.Idempotency

variable {now : Time} {batch : ℕ} {locked : String × String → Bool} {db db' : DB}

abbrev RecordEntry := (String × String) × RecordRow

/-- The records that a sweep is meant for: the ones that expired first, at most `batch` of them. -/
def due (now : Time) (batch : ℕ) (locked : String × String → Bool) (db : DB) : List RecordEntry :=
  ((db.idempotencyKeys.rows.filter fun r => r.2.expiresAt < now && !locked r.1).insertionSort
    fun a b => a.2.expiresAt ≤ b.2.expiresAt).take batch

/-- The records that are not due themselves but have the key value of a record that is: they are
other principals'. -/
def sharers (now : Time) (batch : ℕ) (locked : String × String → Bool) (db : DB) :
    List RecordEntry :=
  db.idempotencyKeys.rows.filter fun r =>
    (due now batch locked db).any (fun x => x.1.2 = r.1.2) &&
      !(due now batch locked db).any fun x => x.1 = r.1

theorem sweep_idempotencyKeys :
    (sweep now batch locked db).idempotencyKeys = db.idempotencyKeys.filter fun k _ =>
      !(due now batch locked db).any fun x => x.1.2 = k.2 := by
  have hkeys : (sweep now batch locked db).idempotencyKeys = db.idempotencyKeys.filter fun k _ =>
      !((due now batch locked db).map fun r => r.1.2).contains k.2 := rfl
  rw [hkeys]
  congr 1
  funext k _
  rw [List.contains_eq_any_beq, List.any_map]
  congr 2
  funext x
  simp [Bool.beq_eq_decide_eq, eq_comm]

theorem mem_of_due {x : RecordEntry} (h : x ∈ due now batch locked db) :
    x ∈ db.idempotencyKeys.rows ∧ x.2.expiresAt < now := by
  have hmem := (List.mem_insertionSort _).1 (List.mem_of_mem_take h)
  rw [List.mem_filter, Bool.and_eq_true, decide_eq_true_eq] at hmem
  exact ⟨hmem.1, hmem.2.1⟩

theorem due_nodup : ((due now batch locked db).map Prod.fst).Nodup := by
  refine List.Nodup.sublist ((List.take_sublist _ _).map _) ?_
  refine (((List.perm_insertionSort _ _).map _).nodup_iff).2 ?_
  exact db.idempotencyKeys.nodup.sublist (List.filter_sublist.map _)

theorem due_of_key {x y : RecordEntry} (hx : x ∈ due now batch locked db)
    (hy : y ∈ db.idempotencyKeys.rows) (h : x.1 = y.1) : x = y :=
  List.inj_on_of_nodup_map db.idempotencyKeys.nodup (mem_of_due hx).1 hy h

def deleted (db db' : DB) : List RecordEntry :=
  db.idempotencyKeys.rows.filter fun r => db'.idempotencyKeys.find? r.1 = none

theorem mem_deleted_sweep {x : RecordEntry} :
    x ∈ deleted db (sweep now batch locked db) ↔ x ∈ db.idempotencyKeys.rows ∧
      ∃ y ∈ due now batch locked db, y.1.2 = x.1.2 := by
  rw [deleted, List.mem_filter, decide_eq_true_eq]
  refine and_congr_right fun hx => ?_
  rw [sweep_idempotencyKeys, Table.find?_filter, Table.find?_eq_some.2 hx]
  simp

theorem mem_sharers {x : RecordEntry} :
    x ∈ sharers now batch locked db ↔
      x ∈ deleted db (sweep now batch locked db) ∧ x ∉ due now batch locked db := by
  rw [mem_deleted_sweep, sharers, List.mem_filter, and_assoc]
  refine and_congr_right fun hx => ?_
  simp only [Bool.and_eq_true, List.any_eq_true, decide_eq_true_eq, Bool.not_eq_true',
    List.any_eq_false]
  refine and_congr_right fun _ => ⟨fun h hdue => h x hdue rfl, fun h y hy hkey => h ?_⟩
  rwa [← due_of_key hy hx hkey]

/-- The due records go, and with them everything that shares a key value with one. -/
theorem deleted_sweep_perm :
    (deleted db (sweep now batch locked db)).Perm
      (due now batch locked db ++ sharers now batch locked db) := by
  have hrows : db.idempotencyKeys.rows.Nodup := .of_map _ db.idempotencyKeys.nodup
  have hdisjoint : List.Disjoint (due now batch locked db) (sharers now batch locked db) :=
    fun x hdue hshare => (mem_sharers.1 hshare).2 hdue
  have hnodup : (due now batch locked db ++ sharers now batch locked db).Nodup :=
    .append (.of_map _ due_nodup) (hrows.filter _) hdisjoint
  have hdeleted : (deleted db (sweep now batch locked db)).Nodup := hrows.filter _
  refine (List.perm_ext_iff_of_nodup hdeleted hnodup).2 fun x => ?_
  rw [List.mem_append, mem_sharers]
  by_cases hdue : x ∈ due now batch locked db
  · simpa [hdue] using mem_deleted_sweep.2 ⟨(mem_of_due hdue).1, x, hdue, rfl⟩
  · simp [hdue]

theorem deleted_sweep_length :
    (deleted db (sweep now batch locked db)).length =
      (due now batch locked db).length + (sharers now batch locked db).length := by
  rw [deleted_sweep_perm.length_eq, List.length_append]

theorem sweep_keeps {k : String × String} {r : RecordRow}
    (hr : db.idempotencyKeys.find? k = some r) (hexpires : now ≤ r.expiresAt)
    (hshare : (k, r) ∉ sharers now batch locked db) :
    (sweep now batch locked db).idempotencyKeys.find? k = some r := by
  have hrow := Table.find?_eq_some.1 hr
  have hdue : (k, r) ∉ due now batch locked db := fun h => (mem_of_due h).2.not_ge hexpires
  have hstays : (k, r) ∉ deleted db (sweep now batch locked db) := fun h =>
    hshare (mem_sharers.2 ⟨h, hdue⟩)
  simp only [mem_deleted_sweep, hrow, true_and, not_exists, not_and] at hstays
  rw [sweep_idempotencyKeys, Table.find?_filter, hr, Option.filter_eq_some_iff]
  refine ⟨rfl, ?_⟩
  simpa only [Bool.not_eq_true', List.any_eq_false, decide_eq_true_eq] using hstays

/-- What a sweep is documented to do. -/
structure Swept (now : Time) (batch : ℕ) (db db' : DB) : Prop where
  expired : ∀ x ∈ deleted db db', x.2.expiresAt < now
  bounded : (deleted db db').length ≤ batch
  survives : ∀ k r, db.idempotencyKeys.find? k = some r → now ≤ r.expiresAt →
    db'.idempotencyKeys.find? k = some r

/-- A sweep does what it is documented to do exactly if the records that merely share a key value
with a due one are expired as well, and fit into the batch with the due ones. -/
theorem sweep_swept_iff (now : Time) (batch : ℕ) (locked : String × String → Bool) (db : DB) :
    Swept now batch db (sweep now batch locked db) ↔
      (∀ x ∈ sharers now batch locked db, x.2.expiresAt < now) ∧
        (due now batch locked db).length + (sharers now batch locked db).length ≤ batch := by
  rw [← deleted_sweep_length]
  constructor
  · intro h
    exact ⟨fun x hx => h.expired x (mem_sharers.1 hx).1, h.bounded⟩
  · rintro ⟨hexpired, hbound⟩
    refine ⟨fun x hx => ?_, hbound, fun k r hr hexpires => ?_⟩
    · by_cases hdue : x ∈ due now batch locked db
      · exact (mem_of_due hdue).2
      · exact hexpired x (mem_sharers.2 ⟨hx, hdue⟩)
    · exact sweep_keeps hr hexpires fun hshare => (hexpired _ hshare).not_ge hexpires

/-- Two principals chose the same key, the second one long after the first. -/
def sharedKeys : DB :=
  let first : Reservation := ⟨"a", "k", [1], "POST", "/v1/transactions", 10, 5⟩
  match reserve 0 first .empty with
  | .error _ => .empty
  | .ok (_, db) =>
    match reserve 100 { first with principalID := "b", ttl := 50 } db with
    | .error _ => .empty
    | .ok (_, db) => db

/-- The first one's record has expired, and the second one's goes with it. -/
theorem sweep_deletes_unexpired :
    (∃ r, sharedKeys.idempotencyKeys.find? ("b", "k") = some r ∧ 120 ≤ r.expiresAt) ∧
      (sweep 120 1 (fun _ => false) sharedKeys).idempotencyKeys.find? ("b", "k") = none ∧
      (deleted sharedKeys (sweep 120 1 (fun _ => false) sharedKeys)).length = 2 ∧
      ¬Swept 120 1 sharedKeys (sweep 120 1 (fun _ => false) sharedKeys) := by
  have hrow : (sharedKeys.idempotencyKeys.find? ("b", "k")).any (fun r => 120 ≤ r.expiresAt) = true := by
    decide +kernel
  have hgone : (sweep 120 1 (fun _ => false) sharedKeys).idempotencyKeys.find? ("b", "k") = none := by
    decide +kernel
  obtain ⟨r, hr, hexpires⟩ := (Option.any_eq_true ..).1 hrow
  have hexpires := of_decide_eq_true hexpires
  refine ⟨⟨r, hr, hexpires⟩, hgone, by decide +kernel, fun h => ?_⟩
  cases hgone.symm.trans (h.survives _ r hr hexpires)

end LedgerCore.Idempotency
