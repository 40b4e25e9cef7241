import LedgerCore.Payout.Requests

/-! Payouts that have ended, and the alerts that ask for a review of them. -/
namespace LedgerCore.Payout
open LedgerCore.Program LedgerCore.Saga

variable {now : Time} {db db' : DB} {worker : Worker}

/-- A saga that has ended keeps its row. -/
def Final (db db' : DB) : Prop := ∀ id r, db.sagaInstances.find? id = some r →
  r.status.terminal = true → db'.sagaInstances.find? id = some r

/-- A saga under review has one alert, and any other has none. -/
def Alerted (db : DB) : Prop := ∀ id,
  alerts id db = if statusOf db id = some .needsManualReview then 1 else 0

theorem Final.trans {db₁ db₂ db₃ : DB} (h : Final db₁ db₂) (h' : Final db₂ db₃) : Final db₁ db₃ :=
  fun id r hr hend => h' id r (h id r hr hend) hend

theorem alerted_of_same (hi : db'.sagaInstances = db.sagaInstances)
    (ha : ∀ id, alerts id db' = alerts id db) (h : Alerted db) : Final db db' ∧ Alerted db' := by
  refine ⟨fun id r hr _ => hi ▸ hr, fun id => ?_⟩
  rw [ha, h id, statusOf, statusOf, hi]

theorem alerted_of_moved {t : Transition} (hmoved : Moved now t db db')
    (hsource : t.source.terminal = false)
    (ha : ∀ id, alerts id db' =
      alerts id db + if id = t.sagaID ∧ t.target = .needsManualReview then 1 else 0)
    (h : Alerted db) : Final db db' ∧ Alerted db' := by
  obtain ⟨r, hr, hstatus⟩ := hmoved.source
  refine ⟨fun id r' hr' hend => ?_, fun id => ?_⟩
  · have hne : id ≠ t.sagaID := by
      rintro rfl
      obtain rfl := Option.some.inj (hr.symm.trans hr')
      rw [hstatus, hsource] at hend
      cases hend
    rw [hmoved.sagaInstances, Table.find?_modify_of_ne _ hne]
    exact hr'
  · rw [ha, h id, statusOf, statusOf, hmoved.sagaInstances]
    by_cases hid : id = t.sagaID
    · subst hid
      have hbefore : r.status ≠ .needsManualReview := by
        intro hreview
        rw [← hstatus, hreview] at hsource
        cases hsource
      simp [hr, hbefore, Transition.apply]
    · rw [Table.find?_modify_of_ne _ hid]
      simp [hid]

theorem Edge.source_open {source target : Status} (h : Edge True source target)
    (ht : target ≠ .needsManualReview ∨ source ≠ .needsManualReview) : source.terminal = false := by
  cases source <;> cases target <;> simp_all [Edge, Status.terminal]

theorem Commits.source_open {c : Commit} (h : Commits worker c) : c.source.terminal = false := by
  obtain ⟨attemptID, number, txID, ⟨-, rfl⟩ | ⟨-, rfl⟩ | ⟨-, rfl⟩⟩ := h <;> rfl

theorem Commits.target_ne {c : Commit} (h : Commits worker c) : c.target ≠ .needsManualReview := by
  obtain ⟨attemptID, number, txID, ⟨-, rfl⟩ | ⟨-, rfl⟩ | ⟨-, rfl⟩⟩ := h <;> exact nofun

theorem isAlert_iff {alert : Event} {id k : UUID}
    (htype : alert.eventType = eventTypeSagaNeedsManualReview) (hid : alert.aggregateID = id.string) :
    isAlert k alert = true ↔ k = id := by
  simp only [isAlert, htype, hid, true_and, decide_eq_true_eq]
  exact ⟨fun h => (UUID.string_injective h).symm, fun h => by rw [h]⟩

theorem stepped_alerted {c : Commit} (hc : Commits worker c)
    (hstep : Stepped now (c.attempt worker.inst) (c.transition worker.o worker.inst) db db')
    (h : Alerted db) : Final db db' ∧ Alerted db' := by
  refine alerted_of_moved hstep.moved hc.source_open (fun id => ?_) h
  rw [hstep.alerts, if_neg fun hreview => hc.target_ne hreview.2]
  rfl

theorem wrote_alerted {v : View} {c : Call} {r : Reply c} (hasks : Asks True worker v c)
    (hown : Own (fun st => st ≠ .needsManualReview) worker c) (hwrote : Wrote worker now db db' c r)
    (h : Alerted db) : Final db db' ∧ Alerted db' := by
  have hsame : SameSagas db db' → Final db db' ∧ Alerted db' := fun hs =>
    alerted_of_same hs.sagaInstances hs.alerts h
  cases c with
  | advance t =>
    cases r with
    | error e => exact hsame hwrote
    | ok _ =>
      obtain ⟨hmoved, -, halerts⟩ := hwrote
      obtain ⟨-, htarget, -⟩ := hown
      have hedge : Edge True t.source t.target := hasks
      refine alerted_of_moved hmoved (hedge.source_open (.inl htarget)) (fun id => ?_) h
      rw [halerts, if_neg fun hreview => htarget hreview.2]
      rfl
  | beginStep a t =>
    cases r with
    | error e => exact hsame hwrote
    | ok _ =>
      obtain ⟨hmoved, -, halerts⟩ := hwrote
      obtain ⟨-, -, -, hsource, htarget, -⟩ := hown
      refine alerted_of_moved hmoved (by rw [hsource]; rfl) (fun id => ?_) h
      rw [halerts, htarget, if_neg nofun]
      rfl
  | escalate eventID t alert =>
    cases r with
    | error e => exact hsame hwrote
    | ok _ =>
      obtain ⟨hmoved, -, halerts⟩ := hwrote
      obtain ⟨hsaga, hsource, htarget, -, htype, haggregate⟩ := hown
      have hedge : Edge True t.source t.target := hasks
      refine alerted_of_moved hmoved (hedge.source_open (.inr hsource)) (fun id => ?_) h
      rw [halerts]
      simp only [isAlert_iff htype haggregate, hsaga, htarget, and_true]
  | recordAttempt a =>
    cases r with
    | error e => exact hsame hwrote
    | ok _ => exact alerted_of_same hwrote.1 hwrote.2.2 h
  | finishAttempt f =>
    subst hwrote
    exact alerted_of_same rfl (fun _ => rfl) h
  | postTransaction req =>
    cases r with
    | error e => exact hsame hwrote
    | ok t =>
      obtain ⟨c, hc, hstep⟩ := hwrote
      exact stepped_alerted hc hstep h
  | reverseTransactionRecorded txID reason record =>
    cases r with
    | error e => exact hsame hwrote
    | ok t =>
      obtain ⟨c, hc, hstep⟩ := hwrote
      exact stepped_alerted hc hstep h
  | _ => exact hsame hwrote

theorem claimed_alerted {o : Orchestrator} {claimed : List Instance}
    (hclaimed : Claimed o now claimed db db') (h : Alerted db) : Final db db' ∧ Alerted db' := by
  refine ⟨fun id r hr hend => ?_, fun id => ?_⟩
  · have hnot : id ∉ claimed.map Instance.id := by
      intro hmem
      obtain ⟨inst, hinst, rfl⟩ := List.mem_map.1 hmem
      obtain ⟨r', hr', hopen, -⟩ := hclaimed.free inst hinst
      obtain rfl := Option.some.inj (hr.symm.trans hr')
      rw [hend] at hopen
      cases hopen
    rw [hclaimed.rows, hr, Option.map_some, if_neg hnot]
  · have hstatus : statusOf db' id = statusOf db id := by
      rw [statusOf, statusOf, hclaimed.rows, Option.map_map]
      congr 1
      funext r
      simp only [Function.comp]
      split_ifs <;> rfl
    rw [hclaimed.alerts, h id, hstatus]

theorem started_alerted {id : UUID} {row : SagaRow} (hpending : row.status = .pending)
    (hinsert : db.sagaInstances.insert? id row = some db'.sagaInstances)
    (houtbox : db'.outbox = db.outbox) (h : Alerted db) : Final db db' ∧ Alerted db' := by
  have hnew := (Table.insert?_eq_some.1 hinsert).1
  refine ⟨fun k r hr _ => ?_, fun k => ?_⟩
  · have hne : k ≠ id := by
      rintro rfl
      simp [hnew] at hr
    rw [Table.find?_insert hinsert, if_neg hne]
    exact hr
  · have halerts : alerts k db' = alerts k db := by rw [alerts, alerts, houtbox]
    rw [halerts, h k, statusOf, statusOf, Table.find?_insert hinsert]
    by_cases hk : k = id
    · subst hk
      simp [hnew, hpending]
    · rw [if_neg hk]

/-- No worker reads its saga back while the saga is under review. -/
def ReadsBeforeReview (s : Sys) : Action → Prop
  | .perform i _ =>
    match s.tasks[i]? with
    | some (_, .call (.get id) _) => statusOf s.world.db id ≠ some .needsManualReview
    | _ => True
  | _ => True

def readBack (s : Sys) : Action → Option UUID
  | .perform i _ =>
    match s.tasks[i]? with
    | some (_, .call (.get id) _) => some id
    | _ => none
  | _ => none

theorem readsBeforeReview_iff {s : Sys} {a : Action} : ReadsBeforeReview s a ↔
    (readBack s a).all (fun id => statusOf s.world.db id ≠ some .needsManualReview) = true := by
  unfold ReadsBeforeReview readBack
  split
  · split <;> simp
  · simp

instance (s : Sys) (a : Action) : Decidable (ReadsBeforeReview s a) :=
  decidable_of_iff' _ readsBeforeReview_iff

theorem ReadsBeforeReview.reads {s : Sys} {i : ℕ} {ch : Choice} {c : Call}
    {k : Reply c → OrchM Unit} {r : Reply c} {w : World} (h : ReadsBeforeReview s (.perform i ch))
    (htask : s.tasks[i]? = some (worker, .call c k))
    (hcall : World.call worker.inst.id ch c s.world = some (r, w)) :
    Reads (fun st => st ≠ .needsManualReview) c r := by
  cases c with
  | get id =>
    simp only [ReadsBeforeReview, htask] at h
    cases hrow : s.world.db.sagaInstances.find? id with
    | none =>
      simp only [World.call, Saga.get, hrow] at hcall
      cases hcall
      trivial
    | some row =>
      simp only [World.call, Saga.get, hrow] at hcall
      cases hcall
      exact fun hreview => h (by rw [statusOf, hrow]; exact congrArg some hreview)
  | _ => trivial

/-- Workers never escalate what is under review. -/
abbrev escalating : Discipline Reply World Worker :=
  steady (Own fun st => st ≠ .needsManualReview) (Reads fun st => st ≠ .needsManualReview)

structure Ended (s : Sys) : Prop where
  kept : s.Kept (discipline anything)
  own : s.Kept escalating
  alerted : Alerted s.world.db

theorem Ended.step {s s' : Sys} {a : Action} (h : Ended s) (ha : ReadsBeforeReview s a)
    (hstep : s.step a = some s') : Final s.world.db s'.world.db ∧ Ended s' := by
  have hkept := (step_kept h.kept (allowed_anything s a) hstep).1
  have hown : s'.Kept escalating := by
    refine step_steady h.own (driveOne_own nofun nofun) ?_ (fun _ _ _ => reads_fault) hstep
    rintro i ch worker c k r w rfl htask hcall
    exact ha.reads htask hcall
  suffices hdb : Final s.world.db s'.world.db ∧ Alerted s'.world.db from
    ⟨hdb.1, hkept, hown, hdb.2⟩
  cases step_writes h.kept hstep with
  | nothing same => exact alerted_of_same same.sagaInstances same.alerts h.alerted
  | claim claimed => exact claimed_alerted claimed h.alerted
  | start started =>
    obtain heq | ⟨row, sagaInstances, hrow, hpending, -, heq⟩ := start_cases started
    · rw [heq]
      exact alerted_of_same rfl (fun _ => rfl) h.alerted
    · rw [heq]
      exact started_alerted hpending hrow rfl h.alerted
  | call _ task _ wrote =>
    have hmem := List.mem_of_getElem? task
    exact wrote_alerted (h.kept.asks hmem) (h.own.asks hmem) wrote h.alerted

theorem init_ended : Ended .init :=
  ⟨init_kept, init_steady, fun _ => rfl⟩

theorem reach_ended {s s' : Sys} (hs : Ended s) (h : Sys.Reach ReadsBeforeReview s s') :
    Final s.world.db s'.world.db ∧ Ended s' := by
  induction h with
  | refl => exact ⟨fun _ _ hr _ => hr, hs⟩
  | tail _ hstep ih =>
    obtain ⟨a, ha, hstep⟩ := hstep
    obtain ⟨hfinal, hended⟩ := ih.2.step ha hstep
    exact ⟨ih.1.trans hfinal, hended⟩

/-- As long as no worker reads its saga back under review, a saga that has ended keeps its row,
and no saga gets a second alert. -/
theorem terminal_is_final {s s' : Sys} (h : Sys.Reach ReadsBeforeReview .init s)
    (h' : Sys.Reach ReadsBeforeReview s s') (id : UUID) :
    (∀ r, s.world.db.sagaInstances.find? id = some r → r.status.terminal = true →
      s'.world.db.sagaInstances.find? id = some r) ∧ alerts id s'.world.db ≤ 1 := by
  obtain ⟨-, hended⟩ := reach_ended init_ended h
  obtain ⟨hfinal, hended'⟩ := reach_ended hended h'
  refine ⟨hfinal id, ?_⟩
  rw [hended'.alerted id]
  split_ifs <;> decide

/-- One failed attempt at a compensation is too many. -/
def reviewConfig : Config := { sampleConfig with maxCompensationAttempts := 1 }

/-- The sample payout is declined and compensation begins. -/
def sampleDeclined : List Action :=
  sampleStart ++ drive 10 4 ++ .crash 0 :: drive 20 4 ++ .deliver 0 (.decline "g" "no" 40) ::
    performs 0 30 3 ++ .crash 0 :: drive 40 1 ++ [.crash 0]

/-- The reversal is answered with an error of the database, and the saga is escalated. -/
def sampleEscalation (task n : ℕ) : List Action :=
  .claim false reviewConfig (10 + n) (fun _ => false) :: performs task n 4 ++
    .abandon task ⟨[], "connection reset"⟩ :: performs task (n + 4) 3

def reviewOutcome (s : Sys) : Option Status × ℕ := (statusOf s.world.db 7, alerts 7 s.world.db)

/-- The reversal that its worker gave up on is carried out after the saga was escalated, and
comes to nothing. -/
theorem terminal_is_final_escalated :
    ∃ s s', Sys.Reach ReadsBeforeReview .init s ∧ Sys.Reach ReadsBeforeReview s s' ∧
      reviewOutcome s = (some .needsManualReview, 1) ∧
      ∃ r, s.world.db.sagaInstances.find? 7 = some r ∧
        s'.world.db.sagaInstances.find? 7 = some r ∧ alerts 7 s'.world.db ≤ 1 := by
  have hrun : (Sys.init.runChecked (fun s a => ReadsBeforeReview s a)
      (sampleDeclined ++ sampleEscalation 0 50)).any (fun s =>
      reviewOutcome s = (some .needsManualReview, 1) &&
      (s.runChecked (fun s a => ReadsBeforeReview s a) (performs 1 60 1)).any fun _ => True) =
        true := by
    decide +kernel
  obtain ⟨s, s', hs, hs', hreview, -⟩ := two_runs hrun
  have hreach := reach_of_runChecked (fun _ _ => of_decide_eq_true) hs
  have hreach' := reach_of_runChecked (fun _ _ => of_decide_eq_true) hs'
  obtain ⟨r, hr, hstatus⟩ := Option.map_eq_some_iff.1 (congrArg Prod.fst hreview)
  obtain ⟨hfinal, halerts⟩ := terminal_is_final hreach hreach' 7
  exact ⟨s, s', hreach, hreach', hreview, r, hr, hfinal r hr (by rw [hstatus]; rfl), halerts⟩

/-- A worker is held up in its compensation, and another one gives up on the saga. The first then
finds its transition stale, reads the saga back under review, and escalates it again. -/
theorem escalated_again :
    ∃ s s', Sys.init.run (sampleDeclined ++ .claim false reviewConfig 60 (fun _ => false) ::
        performs 0 50 1 ++ sampleEscalation 1 70) = some s ∧
      s.run (performs 0 90 7) = some s' ∧
      reviewOutcome s = (some .needsManualReview, 1) ∧
      s'.world.db.sagaInstances.find? 7 ≠ s.world.db.sagaInstances.find? 7 ∧
      reviewOutcome s' = (some .needsManualReview, 2) := by
  have hrun : (Sys.init.run (sampleDeclined ++ .claim false reviewConfig 60 (fun _ => false) ::
      performs 0 50 1 ++ sampleEscalation 1 70)).any (fun s =>
      reviewOutcome s = (some .needsManualReview, 1) && (s.run (performs 0 90 7)).any fun s' =>
        s'.world.db.sagaInstances.find? 7 ≠ s.world.db.sagaInstances.find? 7 ∧
          reviewOutcome s' = (some .needsManualReview, 2)) = true := by
    decide +kernel
  obtain ⟨s, hs, h⟩ := (Option.any_eq_true ..).1 hrun
  obtain ⟨hreview, h⟩ := Bool.and_eq_true_iff.1 h
  obtain ⟨s', hs', h⟩ := (Option.any_eq_true ..).1 h
  obtain ⟨hrow, hagain⟩ := of_decide_eq_true h
  exact ⟨s, s', hs, hs', of_decide_eq_true hreview, hrow, hagain⟩

end LedgerCore.Payout
