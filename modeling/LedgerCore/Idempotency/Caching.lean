import LedgerCore.Idempotency.Isolation
import LedgerCore.Program.Answers

/-! What a cache in front of the store of keys can change: nothing. A record that is put in it is
the one that its key has in the store, and stays it. -/
namespace LedgerCore.Idempotency
open LedgerCore.Program LedgerCore.Http
variable {record : Record} {r : Reservation}

def SettledIn (db : DB) (record : Record) : Prop :=
  terminal record.status = true ∧ lookup record.principalID record.key db = some record

def KeepsTerminal (db db' : DB) : Prop :=
  ∀ k row, db.idempotencyKeys.find? k = some row → terminal row.status = true →
    db'.idempotencyKeys.find? k = some row

theorem KeepsTerminal.settled {db db' : DB} (h : KeepsTerminal db db') (hs : SettledIn db record) :
    SettledIn db' record := by
  obtain ⟨hterminal, hlookup⟩ := hs
  refine ⟨hterminal, ?_⟩
  obtain ⟨row, hrow, hrecord⟩ := Option.map_eq_some_iff.1 hlookup
  have hstatus : terminal row.status = true := by
    rw [← hrecord] at hterminal
    exact hterminal
  rw [lookup, h _ row hrow hstatus, Option.map_some, hrecord]

theorem keepsTerminal_of_eq {db db' : DB} (h : db'.idempotencyKeys = db.idempotencyKeys) :
    KeepsTerminal db db' := fun _ _ hrow _ => h ▸ hrow

theorem keepsTerminal_modify {db db' : DB} {k : String × String} {r : RecordRow}
    {f : RecordRow → RecordRow} (hr : db.idempotencyKeys.find? k = some r)
    (hstatus : r.status = .inProgress)
    (h : db'.idempotencyKeys = db.idempotencyKeys.modify k f) : KeepsTerminal db db' := by
  intro k' row hrow hterminal
  rw [h, Table.find?_modify]
  split_ifs with hk
  · subst hk
    obtain rfl : row = r := Option.some.inj (hrow.symm.trans hr)
    rw [hstatus] at hterminal
    cases hterminal
  · exact hrow

section Statements
variable {now : Time} {principalID key : String} {db : DB}

theorem reserve_keepsTerminal {won : Bool} {db' : DB} (h : reserve now r db = .ok (won, db')) :
    KeepsTerminal db db' := by
  obtain ⟨-, rfl⟩ | ⟨-, row, keys, -, hinsert, rfl⟩ := reserve_cases h
  · exact keepsTerminal_of_eq rfl
  · intro k row' hrow' _
    rw [Table.find?_insert hinsert, if_neg]
    · exact hrow'
    · rintro rfl
      rw [(Table.insert?_eq_some.1 hinsert).1] at hrow'
      cases hrow'

theorem reclaim_keepsTerminal {lease : ℕ} {won : Bool} {db' : DB}
    (h : reclaim now principalID key lease db = (won, db')) : KeepsTerminal db db' := by
  obtain ⟨-, rfl⟩ | ⟨-, r, hr, hstatus, -, rfl⟩ := reclaim_cases h
  · exact keepsTerminal_of_eq rfl
  · exact keepsTerminal_modify hr hstatus rfl

theorem fail_keepsTerminal {status : ℕ} {body : Bytes} {db' : DB}
    (h : fail principalID key status body db = .ok db') : KeepsTerminal db db' := by
  unfold fail at h
  split at h
  · next db₁ hsettle =>
    cases h
    obtain ⟨r, hr, hstatus, rfl⟩ := settle_eq_some hsettle
    exact keepsTerminal_modify hr hstatus rfl
  · cases h

theorem release_keepsTerminal : KeepsTerminal db (release principalID key db) := by
  intro k row hrow hterminal
  have hne : row.status ≠ .inProgress := by
    intro hstatus
    rw [hstatus] at hterminal
    cases hterminal
  rw [release, Table.find?_filter, hrow]
  simp [Option.filter, hne]

theorem finish_keepsTerminal {idem : Option Ledger.Idempotent} {outcome : Ledger.Outcome}
    {t : Ledger.Transaction} {db' : DB} (h : Ledger.finish now idem outcome db = .ok (t, db')) :
    KeepsTerminal db db' := by
  obtain ⟨⟨t₀, s₀⟩, -, h⟩ := bind_eq_ok.1 h
  obtain ⟨⟨_, s₁⟩, hcomplete, h⟩ := bind_eq_ok.1 h
  obtain ⟨db₁, hcommit, h⟩ := bind_eq_ok.1 h
  cases h
  obtain ⟨_, -, rfl⟩ := map_eq_ok.1 hcommit
  unfold Ledger.completeIdempotency at hcomplete
  split at hcomplete
  · cases hcomplete
    exact keepsTerminal_of_eq rfl
  · split at hcomplete
    · cases hcomplete
    · obtain ⟨⟨status, body⟩, -, hcomplete⟩ := Prog.run_ofExcept_bind_ok.1 hcomplete
      have hexec := (Prog.run_perform (Ledger.TxCall.completeIdempotency _)).symm.trans hcomplete
      obtain ⟨db₂, hdb, hs⟩ := map_eq_ok.1 hexec
      cases hs
      obtain ⟨r, hr, hstatus, rfl⟩ := complete_eq_ok hdb
      exact keepsTerminal_modify hr hstatus rfl

end Statements

/-- A record is put in the cache under its own key, and only if that is how it is settled. -/
def CachedRight (db : DB) (key : String) (record : Record) : Prop :=
  key = cacheKey record.principalID record.key ∧ (∃ u : UUID, record.key = u.string) ∧
    SettledIn db record

theorem attempt_keepsTerminal {α : Type} {x : DB → Except Error (α × DB)} {db : DB}
    (h : ∀ a db', x db = .ok (a, db') → KeepsTerminal db db') :
    KeepsTerminal db (Shared.attempt x db).2 := by
  unfold Shared.attempt
  split
  · next a db' hx => exact h a db' hx
  · exact keepsTerminal_of_eq rfl

theorem call_keepsTerminal (m : Meeting) (c : Call) (w : Shared) :
    KeepsTerminal w.db (Shared.call m c w).2.db := by
  cases c with
  | reserve r => exact attempt_keepsTerminal fun _ _ h => reserve_keepsTerminal h
  | reclaim principalID key lease =>
    exact attempt_keepsTerminal fun _ _ h => reclaim_keepsTerminal (Except.ok.inj h)
  | fail principalID key status body =>
    refine attempt_keepsTerminal fun _ db' h => ?_
    obtain ⟨db₁, hfail, hdb⟩ := map_eq_ok.1 h
    cases hdb
    exact fail_keepsTerminal hfail
  | release principalID key =>
    refine attempt_keepsTerminal fun _ db' h => ?_
    cases h
    exact release_keepsTerminal
  | postTransaction req => exact attempt_keepsTerminal fun _ _ h => finish_keepsTerminal h
  | reverseTransactionIdempotent txID reason idem =>
    exact attempt_keepsTerminal fun _ _ h => finish_keepsTerminal h
  | _ => exact keepsTerminal_of_eq rfl

def Puts (w : Shared) : Call → Prop
  | .cachePut key record => CachedRight w.db key record
  | _ => True

theorem CachedRight.keeps {db db' : DB} {key : String} (h : CachedRight db key record)
    (hkeeps : KeepsTerminal db db') : CachedRight db' key record :=
  ⟨h.1, h.2.1, hkeeps.settled h.2.2⟩

/-- Every record in the cache is the one that its key has. -/
def RightlyCached (w : Shared) : Prop := ∀ x ∈ w.cached, CachedRight w.db x.1 x.2

theorem call_rightlyCached {m : Meeting} {c : Call} {w : Shared} (hputs : Puts w c)
    (h : RightlyCached w) : RightlyCached (Shared.call m c w).2 := by
  have hkeeps := call_keepsTerminal m c w
  have hsame (hcached : (Shared.call m c w).2.cached = w.cached) :
      RightlyCached (Shared.call m c w).2 := by
    intro x hx
    rw [hcached] at hx
    exact (h x hx).keeps hkeeps
  cases c with
  | cachePut key record =>
    intro x hx
    rcases List.mem_append.1 hx with hx | hx
    · exact h x hx
    · rw [List.mem_singleton.1 hx]
      exact hputs
  | _ => exact hsame rfl

def caching : Discipline Reply Shared String where
  asks _ c w := Puts w c
  effect _ c w r w' := ∃ m, Shared.call m c w = (r, w')
  valid := RightlyCached
  later w w' := KeepsTerminal w.db w'.db ∧ (RightlyCached w → RightlyCached w')
  refl w := ⟨keepsTerminal_of_eq rfl, id⟩
  trans h h' := ⟨fun k row hrow hterminal => h'.1 k row (h.1 k row hrow hterminal) hterminal,
    fun hv => h'.2 (h.2 hv)⟩
  valid_later h := h.2
  effect_later := by
    rintro _ c w r w' hputs _ ⟨m, hcall⟩
    obtain rfl : (Shared.call m c w).2 = w' := congrArg Prod.snd hcall
    exact ⟨call_keepsTerminal m c w, call_rightlyCached hputs⟩

section Programs
variable {principalID : String} {w : Shared}

/-- A record that was found under a UUID, and is settled if it is terminal. -/
structure Found (w : Shared) (record : Record) : Prop where
  key : ∃ u : UUID, record.key = u.string
  settled : terminal record.status = true → SettledIn w.db record

theorem Found.later {w' : Shared} (h : Found w record) (hlater : caching.later w w') :
    Found w' record :=
  ⟨h.key, fun hterminal => hlater.1.settled (h.settled hterminal)⟩

theorem resolveExisting_caches {existing : Record} (h : Found w existing) (r : Reservation) :
    (resolveExisting existing r).Keeps caching principalID (fun _ _ => True) w := by
  have hpure (w : Shared) (a : Except Error Disposition) :
      (pure a : HttpM (Except Error Disposition)).Keeps caching principalID (fun _ _ => True) w :=
    Prog.keeps_pure fun _ _ _ => trivial
  unfold resolveExisting
  split
  · exact hpure _ _
  · split
    · exact hpure _ _
    · refine Prog.keeps_perform_bind (fun _ _ _ => trivial) fun w₁ now w₂ _ _ _ hlater _ => ?_
      split_ifs with _ hterminal
      · exact hpure _ _
      · refine Prog.keeps_perform_bind (fun w₃ hlater' _ => ?_) fun _ _ _ _ _ _ _ _ => hpure _ _
        exact ⟨rfl, h.key, ((h.later hlater).later hlater').settled hterminal⟩
      · exact hpure _ _
      · refine Prog.keeps_perform_bind (fun _ _ _ => trivial) fun _ won _ _ _ _ _ _ => ?_
        split <;> exact hpure _ _

theorem found_of_under {key : String} (hw : RightlyCached w) (h : record ∈ w.under key) :
    CachedRight w.db key record := by
  obtain ⟨x, hx, rfl⟩ := List.mem_map.1 h
  obtain ⟨hx, hkey⟩ := List.mem_filter.1 hx
  rw [← of_decide_eq_true hkey]
  exact hw x hx

theorem acquire_caches (m : Manager) {key : UUID} (hkey : r.key = key.string) :
    (acquire m r).Keeps caching principalID (fun _ _ => True) w := by
  have hpure (w : Shared) (a : Except Error Disposition) :
      (pure a : HttpM (Except Error Disposition)).Keeps caching principalID (fun _ _ => True) w :=
    Prog.keeps_pure fun _ _ _ => trivial
  refine Prog.keeps_perform_bind (fun _ _ _ => trivial) fun w₁ cached w₂ _ hw₁ heffect _ _ => ?_
  obtain ⟨meeting, heffect⟩ := heffect
  obtain ⟨hhit, rfl⟩ := Prod.mk.inj heffect
  split
  · next record =>
    obtain ⟨i, -, hi⟩ := Option.bind_eq_some_iff.1 hhit
    obtain ⟨-, hu, hsettled⟩ := found_of_under hw₁ (List.mem_of_getElem? hi)
    exact resolveExisting_caches ⟨hu, fun _ => hsettled⟩ _
  · refine Prog.keeps_perform_bind (fun _ _ _ => trivial) fun _ won w₃ _ _ _ _ _ => ?_
    split
    · exact hpure _ _
    · exact hpure _ _
    · refine Prog.keeps_perform_bind (fun _ _ _ => trivial) fun w₄ existing w₅ _ _ heffect _ _ => ?_
      obtain ⟨meeting', heffect⟩ := heffect
      obtain ⟨hlookup, rfl⟩ := Prod.mk.inj heffect
      split
      · exact hpure _ _
      · exact hpure _ _
      · next record =>
        have hrecord : lookup r.principalID r.key w₄.db = some record := Except.ok.inj hlookup
        obtain ⟨row, -, rfl⟩ := Option.map_eq_some_iff.1 hrecord
        exact resolveExisting_caches ⟨⟨key, hkey⟩, fun hterminal => ⟨hterminal, hrecord⟩⟩ _

theorem KeyCall.caches (call : KeyCall) (w : Shared) (hw : RightlyCached w) :
    (call.program principalID).Keeps caching principalID (fun _ _ => True) w := by
  have hpure (w : Shared) (a : Answer) :
      (pure a : HttpM Answer).Keeps caching principalID (fun _ _ => True) w :=
    Prog.keeps_pure fun _ _ _ => trivial
  have hcall (c : Call) (hputs : ∀ w, Puts w c) (f : Reply c → Answer) :
      (Prog.perform c >>= fun r => pure (f r) : HttpM Answer).Keeps caching principalID
        (fun _ _ => True) w :=
    Prog.keeps_perform_bind (fun w _ _ => hputs w) fun _ _ _ _ _ _ _ _ => hpure _ _
  cases call with
  | acquire m key fingerprint method route ttl lease =>
    exact (acquire_caches m rfl).bind hw fun _ _ _ _ _ => hpure _ _
  | post req key render => exact hcall (.postTransaction _) (fun _ => trivial) _
  | reverse txID reason key render =>
    exact hcall (.reverseTransactionIdempotent _ _ _) (fun _ => trivial) _
  | fail key status body => exact hcall (.fail _ _ _ _) (fun _ => trivial) _
  | release key => exact hcall (.release _ _) (fun _ => trivial) _

end Programs

theorem starts_event (e : KeyEvent) : Interleaving.Starts caching e.event := by
  cases e with
  | start p n call => exact fun w hw => call.caches w hw
  | perform p n m => trivial

theorem effect_call (i : String) (m : Meeting) (c : Call) (w : Shared) :
    caching.effect i c w (Shared.call m c w).1 (Shared.call m c w).2 := ⟨m, rfl⟩

theorem runHistory_kept (db : DB) (history : List KeyEvent) :
    Interleaving.Kept caching (runHistory history db) := by
  have hempty : Interleaving.Kept caching
      (⟨⟨db, []⟩, fun _ => none⟩ : Interleaving Reply Empty Answer String Shared) :=
    ⟨fun _ h => (nomatch h), fun _ _ _ h => (nomatch h)⟩
  refine (hempty.run effect_call fun e he => ?_).1
  obtain ⟨e, -, rfl⟩ := List.mem_map.1 he
  exact starts_event e

theorem runHistory_later (db : DB) (history more : List KeyEvent) :
    caching.later (runHistory history db).world (runHistory (history ++ more) db).world := by
  have happend : runHistory (history ++ more) db =
      (runHistory history db).run Shared.call (more.map KeyEvent.event) := by
    rw [runHistory, List.map_append, Interleaving.run, List.foldl_append]
    rfl
  rw [happend]
  refine ((runHistory_kept db history).run effect_call fun e he => ?_).2
  obtain ⟨e, -, rfl⟩ := List.mem_map.1 he
  exact starts_event e

/-- What each call of an `Acquire` meets: the clocks, and the store and the cache as they are then.
An `Acquire` makes no call twice. -/
abbrev Scene := Call → Meeting × Shared

def Scene.reply (scene : Scene) (c : Call) : Reply c :=
  (Shared.call (scene c).1 c (scene c).2).1

/-- The replies with `NoopCache`, whose `Get` always misses. -/
def Scene.noopCache (scene : Scene) : (c : Call) → Reply c
  | .cacheGet _ => none
  | c => scene.reply c

/-- The calls come after the history, and the cache is asked first. -/
structure Scene.Follows (scene : Scene) (history : List KeyEvent) (db : DB) : Prop where
  first : ∀ key, (scene (.cacheGet key)).2 = (runHistory history db).world
  after : ∀ c, ∃ more, (scene c).2 = (runHistory (history ++ more) db).world

def NoGet : Call → Prop
  | .cacheGet _ => False
  | _ => True

theorem noopCache_of_noGet {scene : Scene} {c : Call} (h : NoGet c) :
    scene.noopCache c = scene.reply c := by
  cases c with
  | cacheGet key => exact h.elim
  | _ => rfl

theorem resolveExisting_noGet (existing : Record) (r : Reservation) :
    (resolveExisting existing r).OnlyCalls NoGet := by
  unfold resolveExisting
  split
  · exact Prog.onlyCalls_pure _
  · split
    · exact Prog.onlyCalls_pure _
    · refine ⟨trivial, fun now => ?_⟩
      change (if _ then _ else _ : HttpM (Except Error Disposition)).OnlyCalls NoGet
      split_ifs
      · exact Prog.onlyCalls_pure _
      · exact ⟨trivial, fun _ => Prog.onlyCalls_pure _⟩
      · exact Prog.onlyCalls_pure _
      · refine ⟨trivial, fun won => ?_⟩
        rcases won with e | (_ | _) <;> exact Prog.onlyCalls_pure _

theorem reserve_taken {now : Time} {db : DB} (httl : 0 < r.ttl) (hlease : r.lease ≤ r.ttl)
    (h : lookup r.principalID r.key db = some record) : reserve now r db = .ok (false, db) := by
  obtain ⟨row, hrow, -⟩ := Option.map_eq_some_iff.1 h
  have hcheck : ∃ new, (reservedColumns now r).check = .ok new := by
    unfold reservedColumns RecordColumns.check
    have hexpiry : now < now + r.ttl := Nat.lt_add_of_pos_right httl
    have hwithin : now + r.lease ≤ now + r.ttl := Nat.add_le_add_left hlease now
    simp [hexpiry, hwithin]
  obtain ⟨new, hcheck⟩ := hcheck
  have hnone : db.idempotencyKeys.insert? (r.principalID, r.key) new = none :=
    Table.insert?_eq_none.2 ⟨row, hrow⟩
  rw [reserve, hcheck]
  dsimp only
  rw [hnone]

theorem defaulted_ttl_pos (ttl lease : ℕ) (r : Reservation) :
    0 < ((newManager ttl lease).defaulted r).ttl := by
  have hmanager : 0 < (newManager ttl lease).ttl := by
    change 0 < if ttl = 0 then defaultTTL else ttl
    split_ifs with h
    · decide
    · exact Nat.pos_of_ne_zero h
  change 0 < if r.ttl = 0 then (newManager ttl lease).ttl else r.ttl
  split_ifs with h
  · exact hmanager
  · exact Nat.pos_of_ne_zero h

theorem value_acquire (m : Manager) (r : Reservation) (reply : (c : Call) → Reply c) :
    (acquire m r).value reply =
      (afterCache (m.defaulted r)
        (reply (.cacheGet (cacheKey r.principalID r.key)))).value reply := by
  rw [acquire_eq, Prog.value_perform_bind]

theorem afterCache_none_noGet (r : Reservation) : (afterCache r none).OnlyCalls NoGet := by
  refine ⟨trivial, fun won => ?_⟩
  rcases won with e | (_ | _)
  · exact Prog.onlyCalls_pure _
  · refine ⟨trivial, fun existing => ?_⟩
    rcases existing with e | (_ | record)
    · exact Prog.onlyCalls_pure _
    · exact Prog.onlyCalls_pure _
    · exact resolveExisting_noGet record r
  · exact Prog.onlyCalls_pure _

/-- Against a store that has the record, and goes on to have it, a miss comes to the same. -/
theorem afterCache_none_settled {scene : Scene} (httl : 0 < r.ttl) (hlease : r.lease ≤ r.ttl)
    (hrecord : ∀ c, lookup r.principalID r.key (scene c).2.db = some record) :
    (afterCache r none).value scene.reply = (resolveExisting record r).value scene.reply := by
  have hreserve : scene.reply (.reserve r) = .ok false := by
    change (Shared.attempt (reserve _ r) _).1 = _
    rw [Shared.attempt, reserve_taken httl hlease (hrecord _)]
  have hlookup : scene.reply (.lookup r.principalID r.key) = .ok (some record) := by
    change (.ok (lookup r.principalID r.key _) : Except Error (Option Record)) = _
    rw [hrecord]
  rw [afterCache, Prog.value_perform_bind, hreserve, afterReserve, Prog.value_perform_bind, hlookup,
    afterLookup]

/-- A cache changes no answer: whatever the history of calls, and whichever of the records put under
its key the cache returns, if any, an `Acquire` whose lease is within its time to live returns what
it would return with `NoopCache`, against the same states of the store and the same clocks. -/
theorem cache_changes_no_answer (db : DB) (history : List KeyEvent) (scene : Scene)
    (hscene : scene.Follows history db) (ttl₀ lease₀ : ℕ) (r : Reservation) (key : UUID)
    (hkey : r.key = key.string)
    (hlease : ((newManager ttl₀ lease₀).defaulted r).lease ≤
      ((newManager ttl₀ lease₀).defaulted r).ttl) :
    (acquire (newManager ttl₀ lease₀) r).value scene.reply =
      (acquire (newManager ttl₀ lease₀) r).value scene.noopCache := by
  have hnoop {p : HttpM (Except Error Disposition)} (hp : p.OnlyCalls NoGet) :
      p.value scene.noopCache = p.value scene.reply :=
    Prog.value_congr hp fun _ => noopCache_of_noGet
  rw [value_acquire, value_acquire]
  have hmiss : scene.noopCache (.cacheGet (cacheKey r.principalID r.key)) = none := rfl
  rw [hmiss, hnoop (afterCache_none_noGet _)]
  cases hhit : scene.reply (.cacheGet (cacheKey r.principalID r.key)) with
  | none => rfl
  | some record =>
    -- The record is the one of the key, and it is there whenever the store is asked.
    obtain ⟨i, -, hi⟩ := Option.bind_eq_some_iff.1 hhit
    rw [hscene.first] at hi
    obtain ⟨htext, ⟨u, hu⟩, hsettled⟩ := found_of_under (runHistory_kept db history).valid
      (List.mem_of_getElem? hi)
    rw [hkey, hu] at htext
    obtain ⟨hp, hk⟩ := cacheKey_inj htext
    symm
    refine afterCache_none_settled (defaulted_ttl_pos _ _ _) hlease fun c => ?_
    obtain ⟨more, hmore⟩ := hscene.after c
    have hlater := (runHistory_later db history more).1.settled hsettled
    rw [hmore]
    change lookup r.principalID r.key _ = _
    rw [hp, hkey, hk, ← hu]
    exact hlater.2

/-- A key is reserved, its request is rejected, and the record of it is put in the cache. -/
def rejectedHistory : List KeyEvent :=
  let meeting : Meeting := ⟨1, 1, none, .error ⟨[], ""⟩⟩
  [.start "a" 0 (.acquire (newManager 0 0) 8 [1] "POST" "/v1/transactions" 0 0),
   .perform "a" 0 meeting, .perform "a" 0 meeting,
   .start "a" 1 (.fail 8 422 [2]), .perform "a" 1 meeting,
   .start "a" 2 (.acquire (newManager 0 0) 8 [1] "POST" "/v1/transactions" 0 0),
   .perform "a" 2 meeting, .perform "a" 2 meeting, .perform "a" 2 meeting, .perform "a" 2 meeting,
   .perform "a" 2 meeting]

/-- Every call finds the store and the cache as that history leaves them, and the cache hits. -/
def rejectedScene : Scene := fun _ =>
  (⟨2, 2, some 0, .error ⟨[], ""⟩⟩, (runHistory rejectedHistory .empty).world)

theorem rejectedScene_follows : rejectedScene.Follows rejectedHistory .empty :=
  ⟨fun _ => rfl, fun _ => ⟨[], by rw [List.append_nil]; rfl⟩⟩

def retryOf (ttl lease : ℕ) : Reservation :=
  { principalID := "a", key := (8 : UUID).string, fingerprint := [1], method := "POST",
    route := "/v1/transactions", ttl, lease }

theorem cache_changes_no_answer_rejected :
    (rejectedScene.reply (.cacheGet (cacheKey "a" (8 : UUID).string))).isSome ∧
      (acquire (newManager 0 0) (retryOf 0 0)).value rejectedScene.reply =
        (acquire (newManager 0 0) (retryOf 0 0)).value rejectedScene.noopCache :=
  ⟨by decide +kernel, cache_changes_no_answer .empty rejectedHistory rejectedScene
    rejectedScene_follows 0 0 (retryOf 0 0) 8 rfl (by decide)⟩

/-- A lease beyond the time to live: the record is replayed from the cache, and without a cache the
table of keys refuses the reservation before it sees that the key is taken. -/
theorem long_lease_answered_from_cache :
    rejectedScene.Follows rejectedHistory .empty ∧
      ((acquire (newManager 0 0) (retryOf 1 30)).value rejectedScene.reply).toOption.isSome = true ∧
      ((acquire (newManager 0 0) (retryOf 1 30)).value rejectedScene.noopCache).toOption.isSome =
        false :=
  ⟨rejectedScene_follows, by decide +kernel, by decide +kernel⟩

end LedgerCore.Idempotency
