import LedgerCore.Http.Records
import LedgerCore.Idempotency.Sweep

/-! Who may proceed under a key, and until when. -/
namespace LedgerCore.Http
open LedgerCore.Program LedgerCore.Idempotency

/-- The key under which a step tells its request to proceed. -/
def Sys.proceeds (s : Sys) : Action → Option (String × String)
  | .perform i ch =>
    match s.tasks[i]? with
    | some (_, .call (.reserve r) _) =>
      match reserve ch.draws.now r s.world.db with
      | .ok (true, _) => some (r.principalID, r.key)
      | _ => none
    | some (_, .call (.reclaim principalID key lease) _) =>
      if (reclaim ch.draws.now principalID key lease s.world.db).1 then some (principalID, key)
      else none
    | _ => none
  | _ => none

def leaseEnd (principalID key : String) (db : DB) : Option Time :=
  (db.idempotencyKeys.find? (principalID, key)).map fun r => r.leaseExpiresAt

/-- What the database's clock reads at a step that asks for it. -/
def Action.now : Action → Option Time
  | .perform _ ch => some ch.draws.now
  | .sweep now _ _ => some now
  | _ => none

def Before (leaseExpiresAt : Time) (a : Action) : Prop := ∀ t ∈ a.now, t < leaseExpiresAt

def Sys.releases (s : Sys) : Action → Option (String × String)
  | .perform i _ =>
    match s.tasks[i]? with
    | some (_, .call (.release principalID key) _) => some (principalID, key)
    | _ => none
  | _ => none

/-- The keys whose records a sweep takes along with another principal's. -/
def Sys.sweepsAlong (s : Sys) : Action → List (String × String)
  | .sweep now batch locked => (sharers now batch locked s.world.db).map Prod.fst
  | _ => []

def Spares (principalID key : String) (s : Sys) (a : Action) : Prop :=
  s.releases a ≠ some (principalID, key) ∧ (principalID, key) ∉ s.sweepsAlong a

instance (leaseExpiresAt : Time) (a : Action) : Decidable (Before leaseExpiresAt a) :=
  inferInstanceAs (Decidable (∀ t ∈ a.now, t < leaseExpiresAt))

instance (principalID key : String) (s : Sys) (a : Action) : Decidable (Spares principalID key s a) :=
  inferInstanceAs (Decidable (_ ∧ _))

/-- The row is leased until then at least, unless it is settled. -/
structure Current (leaseExpiresAt : Time) (row : RecordRow) : Prop where
  expires : leaseExpiresAt ≤ row.expiresAt
  lease : row.status = .inProgress → leaseExpiresAt ≤ row.leaseExpiresAt

def Leased (principalID key : String) (leaseExpiresAt : Time) (db : DB) : Prop :=
  ∃ row, db.idempotencyKeys.find? (principalID, key) = some row ∧ Current leaseExpiresAt row

variable {principalID key : String} {leaseExpiresAt : Time} {db db' : DB} {s s' : Sys} {a : Action}

theorem Leased.modify (h : Leased principalID key leaseExpiresAt db) {k : String × String}
    {f : RecordRow → RecordRow}
    (hkeys : db'.idempotencyKeys = db.idempotencyKeys.modify k f)
    (hf : ∀ row, db.idempotencyKeys.find? k = some row → Current leaseExpiresAt row →
      Current leaseExpiresAt (f row)) : Leased principalID key leaseExpiresAt db' := by
  obtain ⟨row, hrow, hcurrent⟩ := h
  by_cases hk : (principalID, key) = k
  · refine ⟨f row, ?_, hf row (hk ▸ hrow) hcurrent⟩
    rw [hkeys, Table.find?_modify, if_pos hk, hrow]
    rfl
  · refine ⟨row, ?_, hcurrent⟩
    rw [hkeys, Table.find?_modify, if_neg hk, hrow]

theorem Leased.settle (h : Leased principalID key leaseExpiresAt db) {k : String × String}
    {status : RecordStatus} {responseStatus : ℕ} {body : Bytes} {transactionID : Option UUID}
    (hstatus : status ≠ .inProgress)
    (hkeys : db'.idempotencyKeys =
      db.idempotencyKeys.modify k (settledRow status responseStatus body transactionID)) :
    Leased principalID key leaseExpiresAt db' :=
  h.modify hkeys fun _ _ hcurrent => ⟨hcurrent.expires, fun hs => absurd hs hstatus⟩

theorem Leased.call {ch : Choice} {c : Call} (h : Leased principalID key leaseExpiresAt db)
    (hmoves : CallMoves ch db c db') (hnow : ch.draws.now < leaseExpiresAt)
    (hspares : c ≠ .release principalID key) : Leased principalID key leaseExpiresAt db' := by
  cases hmoves with
  | keeps => exact h
  | reserves columns insert =>
    obtain ⟨row, hrow, hcurrent⟩ := h
    refine ⟨row, ?_, hcurrent⟩
    rw [Table.find?_insert insert, if_neg, hrow]
    intro hk
    cases (hk ▸ (Table.insert?_eq_some.1 insert).1).symm.trans hrow
  | reclaims found status stale =>
    refine h.modify rfl fun row hrow hcurrent => ?_
    -- A lease that has run out is not this one.
    obtain rfl : row = _ := Option.some.inj (hrow.symm.trans found)
    exact absurd ((hcurrent.lease status).trans stale) hnow.not_ge
  | fails => exact h.settle (by decide) rfl
  | releases =>
    obtain ⟨row, hrow, hcurrent⟩ := h
    refine ⟨row, ?_, hcurrent⟩
    rw [release, Table.find?_filter, hrow, Option.filter_eq_some_iff]
    refine ⟨rfl, ?_⟩
    simp only [Bool.not_eq_true', Bool.and_eq_false_iff, decide_eq_false_iff_not]
    refine .inl fun hk => hspares ?_
    cases hk
    rfl
  | commits keyed =>
    obtain ⟨render, status, body, r, -, -, -, -, hkeys⟩ := keyed.record
    exact h.settle (by decide) hkeys

theorem Leased.moves (h : Leased principalID key leaseExpiresAt s.world.db)
    (hbefore : Before leaseExpiresAt a) (hspares : Spares principalID key s a)
    (hmoves : Moves s a db') : Leased principalID key leaseExpiresAt db' := by
  cases hmoves with
  | keeps idempotencyKeys transactions =>
    obtain ⟨row, hrow, hcurrent⟩ := h
    exact ⟨row, idempotencyKeys ▸ hrow, hcurrent⟩
  | calls task moves =>
    refine h.call moves (hbefore _ rfl) ?_
    rintro rfl
    exact hspares.1 (by simp [Sys.releases, task])
  | sweeps =>
    obtain ⟨row, hrow, hcurrent⟩ := h
    refine ⟨row, sweep_keeps hrow ?_ fun hmem =>
      hspares.2 (List.mem_map_of_mem hmem), hcurrent⟩
    exact (hbefore _ rfl).le.trans hcurrent.expires
  | commits committed hkey idempotencyKeys =>
    obtain ⟨row, hrow, hcurrent⟩ := h
    exact ⟨row, idempotencyKeys ▸ hrow, hcurrent⟩

theorem Leased.not_proceeds (h : Leased principalID key leaseExpiresAt s.world.db)
    (hbefore : Before leaseExpiresAt a) : s.proceeds a ≠ some (principalID, key) := by
  obtain ⟨row, hrow, hcurrent⟩ := h
  intro hproceeds
  cases a with
  | perform i ch =>
    simp only [Sys.proceeds] at hproceeds
    split at hproceeds
    · split at hproceeds
      · next r _ _ db hreserve =>
        cases hproceeds
        obtain ⟨hfalse, -⟩ | ⟨-, _, _, -, hinsert, -⟩ := reserve_cases hreserve
        · cases hfalse
        · cases (Table.insert?_eq_some.1 hinsert).1.symm.trans hrow
      · cases hproceeds
    · split_ifs at hproceeds with hwon
      cases hproceeds
      obtain ⟨hfalse, -⟩ | ⟨-, row', hrow', hstatus, hstale, -⟩ := reclaim_cases (Prod.ext hwon rfl)
      · cases hfalse
      · obtain rfl : row = row' := Option.some.inj (hrow.symm.trans hrow')
        exact (hbefore _ rfl).not_ge ((hcurrent.lease hstatus).trans hstale)
    · cases hproceeds
  | _ => cases hproceeds

theorem leased_of_leaseEnd (h : leaseEnd principalID key db = some leaseExpiresAt) :
    Leased principalID key leaseExpiresAt db := by
  obtain ⟨row, hrow, rfl⟩ := Option.map_eq_some_iff.1 h
  exact ⟨row, hrow, row.lease_within_ttl_check, fun _ => le_rfl⟩

theorem proceeds_leaseEnd (h : s.proceeds a = some (principalID, key))
    (hstep : s.step a = some s') : ∃ t, leaseEnd principalID key s'.world.db = some t := by
  cases a with
  | perform i ch =>
    have hperform : s.perform (fun worker c w => some (World.call worker ch c w)) i = some s' :=
      hstep
    obtain ⟨worker, c, k, r, w, htask, hcall, rfl⟩ := Pool.perform_eq_some hperform
    simp only [Sys.proceeds, htask] at h
    cases c with
    | reserve r₀ =>
      simp only at h
      split at h
      · next db hreserve =>
        cases h
        obtain ⟨hfalse, -⟩ | ⟨-, row, keys, -, hinsert, rfl⟩ := reserve_cases hreserve
        · cases hfalse
        simp only [World.call, hreserve, World.write] at hcall
        cases hcall
        exact ⟨row.leaseExpiresAt, by simp [leaseEnd, Table.find?_insert hinsert]⟩
      · cases h
    | reclaim principalID' key' lease =>
      simp only at h
      split_ifs at h with hwon
      cases h
      obtain ⟨hfalse, -⟩ | ⟨-, row, hrow, -, -, hdb⟩ := reclaim_cases (Prod.ext hwon rfl)
      · cases hfalse
      cases hcall
      refine ⟨(renewedRow ch.draws.now lease row).leaseExpiresAt, ?_⟩
      refine (congrArg (leaseEnd principalID key) hdb).trans ?_
      rw [leaseEnd, Table.find?_modify_self, hrow]
      rfl
    | _ => cases h
  | _ => cases h

theorem reach_kept (h : Sys.Reach .init s) : s.Kept (discipline fun _ => True) := by
  induction h with
  | refl => exact init_kept
  | tail _ hlast ih =>
    obtain ⟨a, hlast⟩ := hlast
    exact (step_kept ih (any_accepts a) hlast).1

theorem reach_of_run {actions : List Action} (h : Sys.init.run actions = some s) :
    Sys.Reach .init s := by
  have hreach : ReachBy Sys.step (fun _ _ => True) .init s :=
    reachBy_of_run h fun _ _ _ => trivial
  refine Relation.ReflTransGen.mono (fun s s' => ?_) _ _ hreach
  rintro ⟨a, -, hstep⟩
  exact ⟨a, hstep⟩

/-- A request is told to proceed. Until its lease ends on the database's clock nobody else is,
whatever the clocks of the processes say, as long as nobody's release of the key is carried out
and no sweep takes the record along with another principal's. -/
theorem lease_exclusive (hreach : Sys.Reach .init s)
    (hproceeds : s.proceeds a = some (principalID, key)) (hstep : s.step a = some s') :
    ∃ leaseExpiresAt, leaseEnd principalID key s'.world.db = some leaseExpiresAt ∧
      ∀ s'' a', Sys.ReachBy (fun s a => Before leaseExpiresAt a ∧ Spares principalID key s a) s' s'' →
        Before leaseExpiresAt a' → s''.proceeds a' ≠ some (principalID, key) := by
  obtain ⟨leaseExpiresAt, hlease⟩ := proceeds_leaseEnd hproceeds hstep
  refine ⟨leaseExpiresAt, hlease, fun s'' a' hwindow hbefore => ?_⟩
  have hkept := (step_kept (reach_kept hreach) (any_accepts a) hstep).1
  have hleased : Leased principalID key leaseExpiresAt s''.world.db ∧
      s''.Kept (discipline fun _ => True) := by
    refine hwindow.keeps (I := fun s => Leased principalID key leaseExpiresAt s.world.db ∧
      s.Kept (discipline fun _ => True)) ⟨leased_of_leaseEnd hlease, hkept⟩ ?_
    intro s s' b hs hb hstep
    exact ⟨hs.1.moves hb.1 hb.2 (step_moves hs.2 hstep), (step_kept hs.2 (any_accepts b) hstep).1⟩
  exact hleased.1.not_proceeds hbefore

def sampleKey : String × String := ("p", (8 : UUID).string)

/-- The step in which the `i`th task makes its next call, at a time of both clocks. -/
def performAt (i n : ℕ) : Action := .perform i ⟨Ledger.sampleDraws n, .ofNat 128 n, n, none⟩

/-- A second request comes while the first one has the key. -/
theorem lease_exclusive_sample :
    ∃ s s' t s'', Sys.Reach .init s ∧ s.proceeds (performAt 0 11) = some sampleKey ∧
      s.step (performAt 0 11) = some s' ∧ leaseEnd sampleKey.1 sampleKey.2 s'.world.db = some t ∧
      Sys.ReachBy (fun s a => Before t a ∧ Spares sampleKey.1 sampleKey.2 s a) s' s'' ∧
      Before t (performAt 1 21) ∧ s''.proceeds (performAt 1 21) ≠ some sampleKey := by
  have hrun : (Sys.init.run (sampleRequests.take 4)).any (fun s =>
      s.proceeds (performAt 0 11) = some sampleKey && (s.step (performAt 0 11)).any fun s' =>
        leaseEnd sampleKey.1 sampleKey.2 s'.world.db = some (12 + defaultLease) &&
          (runChecked Sys.step (fun s a => Before (12 + defaultLease) a ∧
            Spares sampleKey.1 sampleKey.2 s a) s'
            [.accept (sampleProcess 2) sampleRequest, performAt 1 20]).isSome) = true := by
    decide +kernel
  obtain ⟨s, hs, hrun⟩ := (Option.any_eq_true ..).1 hrun
  obtain ⟨hproceeds, hrun⟩ := Bool.and_eq_true_iff.1 hrun
  obtain ⟨s', hs', hrun⟩ := (Option.any_eq_true ..).1 hrun
  obtain ⟨hlease, hrun⟩ := Bool.and_eq_true_iff.1 hrun
  obtain ⟨s'', hs''⟩ := Option.isSome_iff_exists.1 hrun
  have hreach := reach_of_run hs
  have hproceeds := of_decide_eq_true hproceeds
  have hlease := of_decide_eq_true hlease
  have hwindow := reachBy_of_runChecked (fun _ _ => of_decide_eq_true) hs''
  have hbefore : Before (12 + defaultLease) (performAt 1 21) := by decide
  obtain ⟨t, ht, hexclusive⟩ := lease_exclusive hreach hproceeds hs'
  obtain rfl : 12 + defaultLease = t := Option.some.inj (hlease.symm.trans ht)
  exact ⟨s, s', _, s'', hreach, hproceeds, hs', ht, hwindow, hbefore,
    hexclusive s'' _ hwindow hbefore⟩

/-- The first request stalls, and the second one reclaims the key. -/
def sampleReclaimed : List Action :=
  sampleRequests.take 5 ++ .accept (sampleProcess 2) sampleRequest ::
    performs 1 (20 + defaultLease) 4

/-- The first request's posting is given up on, and it releases the key. -/
def sampleReleased : List Action :=
  .abandon 0 (.ofSentinel .deadlineExceeded) :: performs 0 (30 + defaultLease) 2 ++
    [.accept (sampleProcess 1) sampleRequest, performAt 3 (40 + defaultLease)]

/-- The second request holds the key and has not ended, and the third one is told to proceed. -/
theorem lease_released_by_another :
    ∃ s s' t s'', Sys.init.run sampleReclaimed = some s ∧
      s.proceeds (performAt 1 (24 + defaultLease)) = some sampleKey ∧
      s.step (performAt 1 (24 + defaultLease)) = some s' ∧
      leaseEnd sampleKey.1 sampleKey.2 s'.world.db = some t ∧
      s'.run sampleReleased = some s'' ∧
      (∀ a ∈ sampleReleased, Before t a) ∧ Before t (performAt 3 (41 + defaultLease)) ∧
      s''.proceeds (performAt 3 (41 + defaultLease)) = some sampleKey := by
  have hrun : (Sys.init.run sampleReclaimed).any (fun s =>
      s.proceeds (performAt 1 (24 + defaultLease)) = some sampleKey &&
      (s.step (performAt 1 (24 + defaultLease))).any fun s' =>
        leaseEnd sampleKey.1 sampleKey.2 s'.world.db = some (25 + 2 * defaultLease) &&
          (s'.run sampleReleased).any fun s'' =>
            s''.proceeds (performAt 3 (41 + defaultLease)) = some sampleKey) = true := by
    decide +kernel
  obtain ⟨s, hs, hrun⟩ := (Option.any_eq_true ..).1 hrun
  obtain ⟨hproceeds, hrun⟩ := Bool.and_eq_true_iff.1 hrun
  obtain ⟨s', hs', hrun⟩ := (Option.any_eq_true ..).1 hrun
  obtain ⟨hlease, hrun⟩ := Bool.and_eq_true_iff.1 hrun
  obtain ⟨s'', hs'', hagain⟩ := (Option.any_eq_true ..).1 hrun
  exact ⟨s, s', _, s'', hs, of_decide_eq_true hproceeds, hs', of_decide_eq_true hlease, hs'',
    by decide, by decide, of_decide_eq_true hagain⟩

end LedgerCore.Http
