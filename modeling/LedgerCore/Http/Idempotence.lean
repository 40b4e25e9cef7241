import LedgerCore.Http.System

/-! One transaction and one response for each key. -/
namespace LedgerCore.Http
open LedgerCore.Program LedgerCore.Idempotency
variable {principalID key : String} {body : Bytes} {db : DB} {t : Ledger.Transaction}

/-- The body of a `201` for a transaction that was committed under the key. -/
def Issued (committed : List Commit) (principalID key : String) (body : Bytes) : Prop :=
  ∃ c ∈ committed, c.transaction.principalID = principalID ∧
    c.transaction.idempotencyKey = some key ∧
    renderCreated c.worker.process.encoder c.transaction = .ok (201, body)

/-- A record that replays as a `201` replays one that was issued under its key. -/
structure Sound (committed : List Commit) (r : Record) : Prop where
  key : ∃ u : UUID, r.key = u.string
  issued : r.responseStatus = 201 → Issued committed r.principalID r.key r.responseBody

/-- The transaction of a commit is the database's, and carries the request's key. -/
structure Commit.Stands (accepted : Worker → Prop) (db : DB) (c : Commit) : Prop where
  accepted : accepted c.worker
  described : Ledger.Described db c.transaction
  principalID : c.transaction.principalID = c.worker.request.principalID
  key : ∃ u : UUID, c.worker.request.key = .ok u ∧ c.transaction.idempotencyKey = some u.string

/-- `accepted` says which requests went to which processes. -/
structure Inv (accepted : Worker → Prop) (w : World) : Prop where
  keysUnique : Ledger.KeysUnique w.db
  referenced : Ledger.Referenced w.db
  commits : ∀ c ∈ w.committed, c.Stands accepted w.db
  distinct : (w.committed.map fun c => c.transaction.id).Nodup
  rows : ∀ principalID key r, w.db.idempotencyKeys.find? (principalID, key) = some r →
    Sound w.committed (toRecord principalID key r)
  cached : ∀ x ∈ w.cached, x.1 = cacheKey x.2.principalID x.2.key ∧ Sound w.committed x.2
  sent : ∀ x ∈ w.sent, x.response.status = 201 →
    ∃ u : UUID, x.request.key = .ok u ∧ Issued w.committed x.request.principalID u.string x.response.body

/-- How a world can change: no transaction goes away, and the invariant is kept. -/
structure Later (accepted : Worker → Prop) (w w' : World) : Prop where
  headers : ∀ id r, w.db.transactions.find? id = some r →
    ∃ r', w'.db.transactions.find? id = some r' ∧ Ledger.HeaderOf r.toTransactionColumns r'
  committed : w.committed ⊆ w'.committed
  inv : Inv accepted w → Inv accepted w'

variable {accepted : Worker → Prop} {w w' w'' : World} {worker : Worker}

theorem Later.refl (w : World) : Later accepted w w :=
  ⟨fun _ r hr => ⟨r, hr, .refl r⟩, List.Subset.refl _, id⟩

theorem Later.trans (h : Later accepted w w') (h' : Later accepted w' w'') :
    Later accepted w w'' := by
  refine ⟨fun id r hr => ?_, List.Subset.trans h.committed h'.committed, h'.inv ∘ h.inv⟩
  obtain ⟨r', hr', hof⟩ := h.headers id r hr
  obtain ⟨r'', hr'', hof'⟩ := h'.headers id r' hr'
  exact ⟨r'', hr'', hof.trans hof'⟩

theorem Issued.mono {l l' : List Commit} (h : Issued l principalID key body) (hsub : l ⊆ l') :
    Issued l' principalID key body := by
  obtain ⟨c, hc, hrest⟩ := h
  exact ⟨c, hsub hc, hrest⟩

theorem Sound.mono {l l' : List Commit} {r : Record} (h : Sound l r) (hsub : l ⊆ l') : Sound l' r :=
  ⟨h.key, fun hs => (h.issued hs).mono hsub⟩

theorem Inv.commit_unique (h : Inv accepted w) {c c' : Commit} (hc : c ∈ w.committed)
    (hc' : c' ∈ w.committed) (hp : c.transaction.principalID = c'.transaction.principalID)
    (hk : c.transaction.idempotencyKey = c'.transaction.idempotencyKey) : c = c' := by
  obtain ⟨r, hr, hof⟩ := (h.commits c hc).described.header
  obtain ⟨r', hr', hof'⟩ := (h.commits c' hc').described.header
  obtain ⟨u, -, hu⟩ := (h.commits c hc).key
  have hid : c.transaction.id = c'.transaction.id := by
    refine h.keysUnique _ _ r r' hr hr' ?_ ?_ ?_
    · exact hof.key.1.trans (hp.trans hof'.key.1.symm)
    · exact hof.key.2.trans (hk.trans hof'.key.2.symm)
    · rw [hof.key.2, Ledger.Transaction.columns, hu]
      rfl
  exact List.inj_on_of_nodup_map h.distinct hc hc' hid

theorem Inv.issued_unique (h : Inv accepted w) {body' : Bytes}
    (hb : Issued w.committed principalID key body)
    (hb' : Issued w.committed principalID key body') : body = body' := by
  obtain ⟨c, hc, hp, hk, hr⟩ := hb
  obtain ⟨c', hc', hp', hk', hr'⟩ := hb'
  obtain rfl := h.commit_unique hc hc' (hp.trans hp'.symm) (hk.trans hk'.symm)
  cases hr.symm.trans hr'
  rfl

theorem Inv.write (h : Inv accepted w) (hu : Ledger.KeysUnique db) (href : Ledger.Referenced db)
    (hd : ∀ t, Ledger.Described w.db t → Ledger.Described db t)
    (hrows : ∀ principalID key r, db.idempotencyKeys.find? (principalID, key) = some r →
      Sound w.committed (toRecord principalID key r)) : Inv accepted { w with db } where
  keysUnique := hu
  referenced := href
  commits c hc :=
    { h.commits c hc with described := hd _ (h.commits c hc).described }
  distinct := h.distinct
  rows := hrows
  cached := h.cached
  sent := h.sent

theorem keys_later {idempotencyKeys : Table (String × String) RecordRow}
    (hrows : Inv accepted w → ∀ principalID key r,
      idempotencyKeys.find? (principalID, key) = some r → Sound w.committed (toRecord principalID key r)) :
    Later accepted w { w with db := { w.db with idempotencyKeys } } where
  headers _ r hr := ⟨r, hr, .refl r⟩
  committed := List.Subset.refl _
  inv h := h.write h.keysUnique ⟨h.referenced.headers, h.referenced.accounts⟩ (fun _ hd => ⟨hd.header, hd.entries⟩) (hrows h)

theorem filter_later (p : String × String → RecordRow → Bool) :
    Later accepted w
      { w with db := { w.db with idempotencyKeys := w.db.idempotencyKeys.filter p } } := by
  refine keys_later fun h principalID key r hr => ?_
  rw [Table.find?_filter] at hr
  exact h.rows principalID key r (Option.eq_some_of_filter_eq_some hr)

theorem modify_later {k : String × String} {f : RecordRow → RecordRow}
    (hf : ∀ r, (f r).responseStatus = some 201 →
      (f r).responseStatus = r.responseStatus ∧ (f r).responseBody = r.responseBody) :
    Later accepted w
      { w with db := { w.db with idempotencyKeys := w.db.idempotencyKeys.modify k f } } := by
  refine keys_later fun h principalID key r hr => ?_
  by_cases hk : (principalID, key) = k
  · subst hk
    rw [Table.find?_modify_self] at hr
    obtain ⟨r₀, hr₀, rfl⟩ := Option.map_eq_some_iff.1 hr
    have hold := h.rows principalID key r₀ hr₀
    refine ⟨hold.key, fun hs => ?_⟩
    have hsome : (f r₀).responseStatus = some 201 := by
      cases hstatus : (f r₀).responseStatus with
      | none => simp [toRecord, hstatus] at hs
      | some n => simpa [toRecord, hstatus] using hs
    obtain ⟨hstatus, hbody⟩ := hf r₀ hsome
    have := hold.issued (by rw [toRecord, ← hstatus, hsome]; rfl)
    rw [toRecord, ← hbody] at this
    exact this
  · rw [Table.find?_modify_of_ne _ hk] at hr
    exact h.rows principalID key r hr

theorem reserve_later {now : Time} {r : Reservation} {won : Bool}
    (hkey : ∃ u : UUID, r.key = u.string) (h : reserve now r w.db = .ok (won, db)) :
    Later accepted w { w with db } := by
  obtain rfl | ⟨row, keys, hnone, hinsert, rfl⟩ := reserve_eq_ok h
  · exact .refl w
  · refine keys_later fun hinv principalID key r' hr' => ?_
    rw [Table.find?_insert hinsert] at hr'
    split_ifs at hr' with hk
    · cases hk
      cases hr'
      refine ⟨hkey, fun hs => ?_⟩
      rw [toRecord, hnone] at hs
      cases hs
    · exact hinv.rows principalID key r' hr'

theorem reclaim_later {now : Time} {lease : ℕ} :
    Later accepted w { w with db := (reclaim now principalID key lease w.db).2 } := by
  unfold reclaim
  split
  · split_ifs
    · exact modify_later fun r _ => ⟨rfl, rfl⟩
    · exact .refl w
  · exact .refl w

theorem fail_later {status : ℕ} (hstatus : status ≠ 201)
    (h : fail principalID key status body w.db = .ok db) : Later accepted w { w with db } := by
  obtain ⟨transactionID, rfl⟩ := fail_eq_ok h
  exact modify_later fun r hr => absurd (Option.some.inj hr) hstatus

theorem committed_later (h : Ledger.Committed w.db db t)
    (hkeys : db.idempotencyKeys = w.db.idempotencyKeys) : Later accepted w { w with db } where
  headers := h.headers
  committed := List.Subset.refl _
  inv hinv := hinv.write (h.keysUnique hinv.keysUnique) (h.referenced hinv.referenced)
    (fun _ => h.described_old) (hkeys ▸ hinv.rows)

theorem opened_later (h : Ledger.Opened w.db db) : Later accepted w { w with db } where
  headers _ r hr := ⟨r, h.transactions ▸ hr, .refl r⟩
  committed := List.Subset.refl _
  inv hinv := hinv.write (h.keysUnique hinv.keysUnique) (h.referenced hinv.referenced)
    (fun _ => h.described) (h.idempotencyKeys ▸ hinv.rows)

def Worker.idempotent (worker : Worker) (key : UUID) : Ledger.Idempotent :=
  ⟨worker.request.principalID, key.string, some (renderCreated worker.process.encoder)⟩

theorem keyed_later {key : UUID} (haccepted : accepted worker) (hkey : worker.request.key = .ok key)
    (h : Ledger.Keyed w.db db (worker.idempotent key) t) :
    Later accepted w { w with db, committed := w.committed ++ [⟨worker, t⟩] } := by
  have hsub : w.committed ⊆ w.committed ++ [⟨worker, t⟩] := List.subset_append_left _ _
  have hc := h.committed
  refine ⟨hc.headers, hsub, fun hinv => ?_⟩
  refine ⟨hc.keysUnique hinv.keysUnique, hc.referenced hinv.referenced, fun c hmem => ?_, ?_,
    fun principalID k r hr => ?_, fun x hx => ?_, fun x hx hs => ?_⟩
  · rcases List.mem_append.1 hmem with hold | hnew
    · have hstands := hinv.commits c hold
      exact { hstands with described := hc.described_old hstands.described }
    · rw [List.mem_singleton.1 hnew]
      exact ⟨haccepted, hc.described hinv.referenced, h.principalID, key, hkey, h.key⟩
  · rw [List.map_append, List.map_singleton]
    refine List.nodup_append.2 ⟨hinv.distinct, List.nodup_singleton _, ?_⟩
    intro id hid id' hid' heq
    obtain ⟨c, hmem, rfl⟩ := List.mem_map.1 hid
    obtain ⟨r, hr, -⟩ := (hinv.commits c hmem).described.header
    rw [heq, List.mem_singleton.1 hid', hc.fresh] at hr
    cases hr
  · obtain ⟨render, status, body, r₀, hrender, hbody, hr₀, -, hkeys⟩ := h.record
    replace hr : (w.db.idempotencyKeys.modify (worker.request.principalID, key.string)
        (settledRow .completed status body (some t.id))).find? (principalID, k) = some r :=
      hkeys ▸ hr
    by_cases hk : (principalID, k) = (worker.request.principalID, key.string)
    · cases hk
      rw [Table.find?_modify_self] at hr
      obtain ⟨r₁, -, rfl⟩ := Option.map_eq_some_iff.1 hr
      refine ⟨⟨key, rfl⟩, fun hs => ?_⟩
      cases hrender
      refine ⟨⟨worker, t⟩, by simp, h.principalID, h.key, ?_⟩
      rw [hbody]
      exact congrArg _ (Prod.ext hs rfl)
    · rw [Table.find?_modify_of_ne _ hk] at hr
      exact (hinv.rows principalID k r hr).mono hsub
  · exact ⟨(hinv.cached x hx).1, (hinv.cached x hx).2.mono hsub⟩
  · obtain ⟨u, hu, hissued⟩ := hinv.sent x hx hs
    exact ⟨u, hu, hissued.mono hsub⟩

def Asks (accepted : Worker → Prop) (worker : Worker) (w : World) : Call → Prop
  | .cachePut key record => key = cacheKey record.principalID record.key ∧ Sound w.committed record
  | .reserve r => ∃ u : UUID, r.key = u.string
  | .fail _ _ status _ => status ≠ 201
  | .postTransaction req => accepted worker ∧ req.record = none ∧
      req.principalID = worker.request.principalID ∧
      ∃ u, worker.request.key = .ok u ∧ req.idempotency = some (worker.idempotent u)
  | .reverseTransactionIdempotent _ _ idem => accepted worker ∧
      ∃ u, worker.request.key = .ok u ∧ idem = worker.idempotent u
  | .respond response => response.status = 201 → ∃ u, worker.request.key = .ok u ∧
      Issued w.committed worker.request.principalID u.string response.body
  | _ => True

def Effect (worker : Worker) (c : Call) (w : World) (r : Reply c) (w' : World) : Prop :=
  (∃ ch, World.call worker ch c w = (r, w')) ∨ ∃ e, World.fault e c = some r ∧ w' = w

theorem write_later {α : Type} {x : Except Error (α × DB)} {r : Except Error α}
    (h : w.write x = (r, w')) (hx : ∀ a db, x = .ok (a, db) → Later accepted w { w with db }) :
    Later accepted w w' := by
  cases x with
  | error e =>
    cases h
    exact .refl w
  | ok y =>
    cases h
    exact hx y.1 y.2 rfl

theorem ledger_later {x : Except Error (Ledger.Transaction × DB)}
    {r : Except Error Ledger.Transaction} (h : w.ledger worker x = (r, w'))
    (hx : ∀ t db, x = .ok (t, db) →
      Later accepted w { w with db, committed := w.committed ++ [⟨worker, t⟩] }) :
    Later accepted w w' := by
  cases x with
  | error e =>
    cases h
    exact .refl w
  | ok y =>
    cases h
    exact hx y.1 y.2 rfl

theorem effect_later {c : Call} {r : Reply c} (hasks : Asks accepted worker w c)
    (heffect : Effect worker c w r w') : Later accepted w w' := by
  obtain ⟨ch, h⟩ | ⟨e, -, rfl⟩ := heffect
  swap
  · exact .refl _
  cases c with
  | cachePut key record =>
    cases h
    refine ⟨fun _ r hr => ⟨r, hr, .refl r⟩, List.Subset.refl _, fun hinv => ?_⟩
    refine { hinv with cached := fun x hx => ?_ }
    rcases List.mem_append.1 hx with hold | hnew
    · exact hinv.cached x hold
    · rw [List.mem_singleton.1 hnew]
      exact hasks
  | reserve r₀ => exact write_later h fun won db hdb => reserve_later hasks hdb
  | reclaim principalID key lease =>
    cases h
    exact reclaim_later
  | fail principalID key status body =>
    refine write_later h fun _ db hdb => ?_
    obtain ⟨db₁, hfail, he⟩ := map_eq_ok.1 hdb
    cases he
    exact fail_later hasks hfail
  | release principalID key =>
    cases h
    exact filter_later _
  | postTransaction req =>
    obtain ⟨haccepted, hook, hp, u, hu, hidem⟩ := hasks
    exact ledger_later h fun t db hdb =>
      keyed_later haccepted hu (Ledger.postTransaction_keyed hidem hp hook hdb)
  | reverseTransactionIdempotent txID reason idem =>
    obtain ⟨haccepted, u, hu, rfl⟩ := hasks
    exact ledger_later h fun t db hdb => keyed_later haccepted hu (Ledger.doReverse_keyed hdb)
  | respond response =>
    cases h
    refine ⟨fun _ r hr => ⟨r, hr, .refl r⟩, List.Subset.refl _, fun hinv => ?_⟩
    refine { hinv with sent := fun x hx => ?_ }
    rcases List.mem_append.1 hx with hold | hnew
    · exact hinv.sent x hold
    · rw [List.mem_singleton.1 hnew]
      exact hasks
  | _ =>
    cases h
    exact .refl w

/-- How requests behave towards each other. -/
def discipline (accepted : Worker → Prop) : Discipline Reply World Worker where
  asks worker c w := Asks accepted worker w c
  effect := Effect
  valid := Inv accepted
  later := Later accepted
  refl := .refl
  trans := .trans
  valid_later h := h.inv
  effect_later hasks _ heffect := effect_later hasks heffect

theorem cacheGet_eq_some {hit : Option ℕ} {record : Record} (h : w.cacheGet key hit = some record) :
    (key, record) ∈ w.cached := by
  obtain ⟨⟨k, record'⟩, hfound, hsome⟩ := Option.bind_eq_some_iff.1 h
  obtain ⟨i, -, hi⟩ := Option.bind_eq_some_iff.1 hfound
  dsimp only at hsome
  split_ifs at hsome with hk
  cases hsome
  exact hk ▸ List.mem_of_getElem? hi

/-- A record of the key that replays soundly. -/
structure Replays (principalID key : String) (r : Record) (w : World) : Prop where
  principalID : r.principalID = principalID
  key : r.key = key
  sound : Sound w.committed r

theorem Replays.later {r : Record} (h : Replays principalID key r w)
    (hlater : Later accepted w w') : Replays principalID key r w' :=
  { h with sound := h.sound.mono hlater.committed }

/-- What a disposition promises to the request that gets it. -/
def Disposed (principalID key : String) (a : Except Error Disposition) (w : World) : Prop :=
  ∀ r, a = .ok (.replay r) → Replays principalID key r w

section Programs
variable {principalID key : String} {p : Process} {r : Request} {s : IdemState}

theorem error_disposed (e : Error) :
    (pure (.error e) : HttpM (Except Error Disposition)).Keeps (discipline accepted) worker
      (Disposed principalID key) w :=
  Prog.keeps_pure fun _ _ _ _ h => nomatch h

theorem proceed_disposed :
    (pure (.ok .proceed) : HttpM (Except Error Disposition)).Keeps (discipline accepted) worker
      (Disposed principalID key) w :=
  Prog.keeps_pure fun _ _ _ _ h => nomatch h

theorem resolveExisting_keeps {existing : Record} {reservation : Reservation}
    (h : Replays principalID key existing w) :
    (resolveExisting existing reservation).Keeps (discipline accepted) worker
      (Disposed principalID key) w := by
  unfold resolveExisting
  split
  · exact error_disposed _
  split
  · exact error_disposed _
  refine Prog.keeps_perform_bind (fun _ _ _ => trivial) fun _ now w₁ _ _ _ hlater _ => ?_
  replace h := h.later hlater
  split_ifs
  · exact error_disposed _
  · refine Prog.keeps_perform_bind (fun w₂ hlater₂ _ => ⟨rfl, (h.later hlater₂).sound⟩)
      fun _ _ w₂ _ _ _ hlater₂ _ => ?_
    refine Prog.keeps_pure fun w₃ hlater₃ _ record hrecord => ?_
    cases hrecord
    exact (h.later hlater₂).later hlater₃
  · exact error_disposed _
  · refine Prog.keeps_perform_bind (fun _ _ _ => trivial) fun _ won _ _ _ _ _ _ => ?_
    match won with
    | .error e => exact error_disposed _
    | .ok false => exact error_disposed _
    | .ok true => exact proceed_disposed

theorem acquire_keeps {m : Manager} {reservation : Reservation} {u : UUID}
    (hkey : reservation.key = u.string) :
    (acquire m reservation).Keeps (discipline accepted) worker
      (Disposed reservation.principalID reservation.key) w := by
  unfold acquire
  refine Prog.keeps_perform_bind (fun _ _ _ => trivial) fun w₁ cached w₂ _ hinv heffect _ _ => ?_
  cases cached with
  | some record =>
    -- A hit was put under the text of its own key, which splits in one way only.
    obtain ⟨ch, hcall⟩ | ⟨e, hfault, -⟩ := heffect
    · obtain ⟨hget, rfl⟩ := Prod.mk.inj hcall
      obtain ⟨htext, hsound⟩ := hinv.cached _ (cacheGet_eq_some hget)
      obtain ⟨u', hu'⟩ := hsound.key
      have hsame : cacheKey reservation.principalID u.string =
          cacheKey record.principalID u'.string := by
        rw [← hkey, ← hu']
        exact htext
      obtain ⟨hp, hk⟩ := cacheKey_inj hsame
      exact resolveExisting_keeps ⟨hp.symm, hu'.trans (hk.symm.trans hkey.symm), hsound⟩
    · cases hfault
  | none =>
    refine Prog.keeps_perform_bind (fun _ _ _ => ⟨u, hkey⟩) fun _ won _ _ _ _ _ _ => ?_
    match won with
    | .error e => exact error_disposed _
    | .ok true => exact proceed_disposed
    | .ok false =>
      refine Prog.keeps_perform_bind (fun _ _ _ => trivial) fun w₃ found w₄ _ hinv heffect _ _ => ?_
      match found with
      | .error e => exact error_disposed _
      | .ok none => exact error_disposed _
      | .ok (some record) =>
        obtain ⟨ch, hcall⟩ | ⟨e, hfault, -⟩ := heffect
        · obtain ⟨hlookup, rfl⟩ := Prod.mk.inj hcall
          obtain ⟨row, hrow, rfl⟩ := Option.map_eq_some_iff.1 (Except.ok.inj hlookup)
          exact resolveExisting_keeps ⟨rfl, rfl, hinv.rows _ _ row hrow⟩
        · cases hfault

theorem respond_keeps {response : Response}
    (h : ∀ w', Later accepted w w' → Asks accepted worker w' (.respond response)) :
    (Prog.perform (Call.respond response) : HttpM Unit).Keeps (discipline accepted) worker
      (fun _ _ => True) w :=
  fun w' hlater _ => ⟨h w' hlater, fun _ _ _ _ _ _ => trivial⟩

theorem writeProblem_keeps (e : Error) :
    (writeProblem p r e).Keeps (discipline accepted) worker (fun x _ => x.1 ≠ 201) w := by
  have hstatus : (problemOf r.path r.requestID e).status ≠ 201 := by
    have := problemFor_status e
    change (problemFor e).1 ≠ 201
    omega
  refine Prog.keeps_perform_bind (fun _ _ _ hs => absurd hs hstatus) fun _ _ _ _ _ _ _ _ => ?_
  exact Prog.keeps_pure fun _ _ _ => hstatus

theorem problem_keeps (e : Error) (hinv : Inv accepted w) :
    (do let _ ← writeProblem p r e; pure () : HttpM Unit).Keeps (discipline accepted) worker
      (fun _ _ => True) w :=
  (writeProblem_keeps e).bind hinv fun _ _ _ _ _ => Prog.keeps_pure fun _ _ _ => trivial

theorem reject_keeps {e : Error} {status : ℕ} (hstatus : status ≠ 201) :
    (reject s e status body).Keeps (discipline accepted) worker (fun _ _ => True) w := by
  unfold reject
  split
  · exact Prog.keeps_perform_bind (fun _ _ _ => hstatus) fun _ _ _ _ _ _ _ _ =>
      Prog.keeps_pure fun _ _ _ => trivial
  · exact Prog.keeps_perform_bind (fun _ _ _ => trivial) fun _ _ _ _ _ _ _ _ =>
      Prog.keeps_pure fun _ _ _ => trivial

theorem refuse_keeps {e : Error} (hinv : Inv accepted w) :
    (refuse p r s e).Keeps (discipline accepted) worker (fun _ _ => True) w :=
  (writeProblem_keeps e).bind hinv fun _ _ _ _ hstatus => reject_keeps hstatus

theorem writeStored_keeps (hinv : Inv accepted w) (hcommit : ⟨worker, t⟩ ∈ w.committed) :
    (writeStored worker.process t).Keeps (discipline accepted) worker (fun _ _ => True) w := by
  unfold writeStored
  split
  · exact respond_keeps fun _ _ hs => nomatch hs
  · next status body hrender =>
    refine respond_keeps fun w' hlater hs => ?_
    obtain ⟨u, hu, hkey⟩ := (hinv.commits _ hcommit).key
    refine ⟨u, hu, ⟨worker, t⟩, hlater.committed hcommit,
      (hinv.commits _ hcommit).principalID, hkey, ?_⟩
    rw [hrender]
    exact congrArg _ (Prod.ext hs rfl)

theorem mem_of_ledger {x : Except Error (Ledger.Transaction × DB)}
    (h : w.ledger worker x = (.ok t, w')) : ⟨worker, t⟩ ∈ w'.committed := by
  cases x with
  | error e => cases h
  | ok y =>
    cases h
    exact List.mem_append_right _ (List.mem_singleton_self _)

theorem handle_keeps {u : UUID} (hinv : Inv accepted w) (haccepted : accepted worker)
    (hu : worker.request.key = .ok u) :
    (handle worker.process worker.request ⟨worker.request.principalID, u.string⟩).Keeps
      (discipline accepted) worker (fun _ _ => True) w := by
  unfold handle
  split
  · exact refuse_keeps hinv
  · refine Prog.keeps_perform_bind (fun _ _ _ => ⟨haccepted, rfl, rfl, u, hu, rfl⟩)
      fun _ posted w' _ _ heffect _ hinv' => ?_
    match posted with
    | .error e => exact refuse_keeps hinv'
    | .ok t =>
      obtain ⟨ch, hcall⟩ | ⟨e, hfault, -⟩ := heffect
      · exact writeStored_keeps hinv' (mem_of_ledger hcall)
      · cases hfault
  · refine Prog.keeps_perform_bind (fun _ _ _ => ⟨haccepted, u, hu, rfl⟩)
      fun _ reversal w' _ _ heffect _ hinv' => ?_
    match reversal with
    | .error e => exact refuse_keeps hinv'
    | .ok t =>
      obtain ⟨ch, hcall⟩ | ⟨e, hfault, -⟩ := heffect
      · exact writeStored_keeps hinv' (mem_of_ledger hcall)
      · cases hfault

theorem serve_keeps (hinv : Inv accepted w) (haccepted : accepted worker) :
    (serve worker.process worker.request).Keeps (discipline accepted) worker
      (fun _ _ => True) w := by
  unfold serve requireIdempotency
  split
  · exact problem_keeps _ hinv
  next u hu =>
  split
  · exact problem_keeps _ hinv
  refine (acquire_keeps (u := u) rfl).bind hinv fun acquired w' _ hinv' hdisposed => ?_
  match acquired with
  | .error e => exact problem_keeps _ hinv'
  | .ok (.replay record) =>
    have hreplays := hdisposed record rfl
    refine respond_keeps fun w'' hlater hs => ⟨u, hu, ?_⟩
    have hissued := (hreplays.sound.issued hs).mono hlater.committed
    rwa [hreplays.principalID, hreplays.key] at hissued
  | .ok .proceed => exact handle_keeps hinv' haccepted hu

end Programs

/-- The requests of a run go to the processes that `accepted` knows. -/
def Accepts (accepted : Worker → Prop) : Action → Prop
  | .accept process request => accepted ⟨process, request⟩
  | _ => True

theorem apply_later (op : Ledger.LedgerOp) (hop : Ledger.Keyless op) :
    Later accepted w { w with db := op.apply w.db } := by
  unfold Ledger.LedgerOp.apply
  split
  · next db hrun =>
    obtain hopened | ⟨t, hcommitted, -⟩ := Ledger.LedgerOp.run_cases hrun
    · exact opened_later hopened
    · exact committed_later hcommitted (hop.idempotencyKeys hrun)
  · exact .refl w

theorem sagas_later (sagaInstances : Table UUID SagaRow) (sagaSteps : Table UUID StepRow) :
    Later accepted w { w with db := { w.db with sagaInstances, sagaSteps } } where
  headers _ r hr := ⟨r, hr, .refl r⟩
  committed := List.Subset.refl _
  inv h := h.write h.keysUnique ⟨h.referenced.headers, h.referenced.accounts⟩
    (fun _ hd => ⟨hd.header, hd.entries⟩) h.rows

theorem step_kept {s s' : Sys} {a : Action} (h : s.Kept (discipline accepted))
    (ha : Accepts accepted a) (hstep : s.step a = some s') :
    s'.Kept (discipline accepted) ∧ Later accepted s.world s'.world := by
  cases a with
  | accept process request =>
    cases hstep
    refine ⟨h.spawn fun t ht => ?_, .refl _⟩
    rw [List.mem_singleton.1 ht]
    exact serve_keeps h.valid ha
  | perform i ch =>
    have hperform : s.perform (fun worker c w => some (World.call worker ch c w)) i = some s' := hstep
    exact h.perform hperform fun worker c k r w _ hcall => .inl ⟨ch, Option.some.inj hcall⟩
  | abandon i e => exact h.abandon hstep fun worker c k r _ hfault => .inr ⟨e, hfault, rfl⟩
  | crash i =>
    cases hstep
    exact ⟨h.crash i, .refl _⟩
  | sweep now batch locked =>
    cases hstep
    have hlater : Later accepted s.world
      { s.world with db := Idempotency.sweep now batch locked s.world.db } := filter_later _
    exact ⟨h.later hlater, hlater⟩
  | ledger op hop =>
    cases hstep
    have hlater : Later accepted s.world _ := apply_later op hop
    exact ⟨h.later hlater, hlater⟩
  | sagas sagaInstances sagaSteps =>
    cases hstep
    have hlater : Later accepted s.world _ := sagas_later sagaInstances sagaSteps
    exact ⟨h.later hlater, hlater⟩

theorem run_kept {actions : List Action} {s s' : Sys} (h : s.Kept (discipline accepted))
    (ha : ∀ a ∈ actions, Accepts accepted a) (hrun : s.run actions = some s') :
    s'.Kept (discipline accepted) ∧ Later accepted s.world s'.world := by
  induction actions generalizing s with
  | nil =>
    cases hrun
    exact ⟨h, .refl _⟩
  | cons a actions ih =>
    obtain ⟨s₁, hstep, hrest⟩ := Option.bind_eq_some_iff.1 hrun
    obtain ⟨hkept, hlater⟩ := step_kept h (ha a List.mem_cons_self) hstep
    obtain ⟨hkept', hlater'⟩ := ih hkept (fun b hb => ha b (List.mem_cons_of_mem _ hb)) hrest
    exact ⟨hkept', hlater.trans hlater'⟩

theorem init_inv : Inv accepted Sys.init.world where
  keysUnique _ _ _ _ h := nomatch h
  referenced := ⟨fun _ h => (nomatch h), fun _ h => (nomatch h)⟩
  commits _ h := nomatch h
  distinct := List.nodup_nil
  rows _ _ _ h := nomatch h
  cached _ h := nomatch h
  sent _ h := nomatch h

theorem init_kept : Sys.init.Kept (discipline accepted) := ⟨init_inv, fun _ h => nomatch h⟩

def Under (db : DB) (principalID : String) (key id : UUID) : Prop :=
  ∃ r, db.transactions.find? id = some r ∧ r.principalID = principalID ∧
    r.idempotencyKey = some key.string

structure Sent.Created (principalID : String) (key : UUID) (x : Sent) : Prop where
  principalID : x.request.principalID = principalID
  key : x.request.key = .ok key
  status : x.response.status = 201

instance (principalID : String) (key : UUID) (x : Sent) : Decidable (x.Created principalID key) :=
  decidable_of_iff (x.request.principalID = principalID ∧ x.request.key = .ok key ∧
    x.response.status = 201) ⟨fun h => ⟨h.1, h.2.1, h.2.2⟩, fun h => ⟨h.1, h.2, h.3⟩⟩

theorem Later.under {key id : UUID} (h : Later accepted w w') (hu : Under w.db principalID key id) :
    Under w'.db principalID key id := by
  obtain ⟨r, hr, hp, hk⟩ := hu
  obtain ⟨r', hr', hof⟩ := h.headers id r hr
  exact ⟨r', hr', hof.key.1.trans hp, hof.key.2.trans hk⟩

theorem Inv.under_unique (h : Inv accepted w) {key id id' : UUID}
    (hu : Under w.db principalID key id) (hu' : Under w.db principalID key id') : id = id' := by
  obtain ⟨r, hr, hp, hk⟩ := hu
  obtain ⟨r', hr', hp', hk'⟩ := hu'
  exact h.keysUnique id id' r r' hr hr' (hp.trans hp'.symm) (hk.trans hk'.symm) (hk ▸ rfl)

theorem Inv.created (h : Inv accepted w) {key : UUID} {x : Sent} (hx : x ∈ w.sent)
    (hc : x.Created principalID key) :
    Issued w.committed principalID key.string x.response.body := by
  obtain ⟨u, hu, hissued⟩ := h.sent x hx hc.status
  obtain rfl : key = u := Except.ok.inj (hc.key.symm.trans hu)
  exact hc.principalID ▸ hissued

/-- Whatever requests, other callers, sweeps, crashes and lost replies do, no two transactions are
ever committed under one key, and every `201` for the key has one body: what the process that
committed the transaction rendered of it. -/
theorem one_transaction_per_key {actions more : List Action} {s s' : Sys}
    (hrun : Sys.init.run actions = some s) (hmore : s.run more = some s') (principalID : String)
    (key : UUID) :
    (∀ id id', Under s.world.db principalID key id → Under s'.world.db principalID key id' →
      id = id') ∧
    ∀ x ∈ s.world.sent, x.Created principalID key →
      (∃ process request t, Action.accept process request ∈ actions ∧
        request.principalID = principalID ∧ request.key = .ok key ∧
        t.principalID = principalID ∧ t.idempotencyKey = some key.string ∧
        Ledger.Described s.world.db t ∧
        renderCreated process.encoder t = .ok (201, x.response.body)) ∧
      ∀ y ∈ s'.world.sent, y.Created principalID key → y.response.body = x.response.body := by
  have hany : ∀ a : Action, Accepts (fun _ => True) a := fun a => by cases a <;> trivial
  obtain ⟨hkept, -⟩ := run_kept init_kept (fun a _ => hany a) hrun
  obtain ⟨hkept', hlater⟩ := run_kept hkept (fun a _ => hany a) hmore
  have hinv : Inv (fun worker => .accept worker.process worker.request ∈ actions) s.world := by
    refine (run_kept init_kept (fun a ha => ?_) hrun).1.valid
    cases a with
    | accept process request => exact ha
    | _ => trivial
  refine ⟨fun id id' hid hid' => hkept'.valid.under_unique (hlater.under hid) hid',
    fun x hx hcreated => ?_⟩
  have hissued := hinv.created hx hcreated
  refine ⟨?_, fun y hy hcreated' => ?_⟩
  · obtain ⟨c, hc, hp, hk, hrender⟩ := hissued
    have hstands := hinv.commits c hc
    obtain ⟨u, hu, hk'⟩ := hstands.key
    obtain rfl : key = u := UUID.string_injective (Option.some.inj (hk.symm.trans hk'))
    exact ⟨c.worker.process, c.worker.request, c.transaction, hstands.accepted,
      hstands.principalID.symm.trans hp, hu, hp, hk, hstands.described, hrender⟩
  · exact hkept'.valid.issued_unique (hkept'.valid.created hy hcreated')
      (hissued.mono hlater.committed)

/-- A process that starts every body with its own number. -/
def sampleProcess (n : UInt8) : Process where
  encoder :=
    { transaction := fun t => .ok (n :: t.id.toList.map fun c => .ofNat c.toNat)
      problem := fun p => [n, .ofNat p.status] }
  manager := newManager 0 0

def sampleRequest : Request where
  principalID := "p"
  key := .ok 8
  fingerprint := .ok [1]
  operation := .ok (.post .payin none []
    [⟨1, .debit, ⟨500, "INR"⟩⟩, ⟨2, .credit, ⟨500, "INR"⟩⟩])
  method := "POST"
  route := "/v1/transactions"
  path := "/v1/transactions"
  requestID := "r"

def performs (task n m : ℕ) : List Action :=
  (List.range m).map fun i => .perform task ⟨Ledger.sampleDraws (n + i), .ofNat 128 (n + i), n + i, none⟩

/-- The first process commits and answers; the second one replays. -/
def sampleRequests : List Action :=
  [.ledger (.createAccount (Ledger.sampleDraws 0) 1 ⟨"bank", .asset, "INR", none, false⟩) trivial,
   .ledger (.createAccount (Ledger.sampleDraws 1) 2 ⟨"wallet", .liability, "INR", none, false⟩) trivial,
   .accept (sampleProcess 1) sampleRequest] ++ performs 0 10 4 ++
  .accept (sampleProcess 2) sampleRequest :: performs 1 20 6

theorem one_transaction_per_key_replayed :
    ∃ s, Sys.init.run sampleRequests = some s ∧
      (∀ id id', Under s.world.db "p" 8 id → Under s.world.db "p" 8 id' → id = id') ∧
      ∃ x ∈ s.world.sent, x.Created "p" 8 ∧ x.response.replay = false ∧
        ∃ y ∈ s.world.sent, y.Created "p" 8 ∧ y.response.replay = true ∧
          y.response.body = x.response.body := by
  have hsent : (Sys.init.run sampleRequests).any (fun s =>
      s.world.sent.any (fun x => x.Created "p" 8 && !x.response.replay) &&
        s.world.sent.any fun y => y.Created "p" 8 && y.response.replay) = true := by decide +kernel
  obtain ⟨s, hrun, hsent⟩ := (Option.any_eq_true ..).1 hsent
  simp only [Bool.and_eq_true, List.any_eq_true, decide_eq_true_eq, Bool.not_eq_true'] at hsent
  obtain ⟨⟨x, hx, hcreated, hfirst⟩, y, hy, hcreated', hreplay⟩ := hsent
  obtain ⟨hunique, hbodies⟩ := one_transaction_per_key hrun (rfl : s.run [] = some s) "p" 8
  exact ⟨s, hrun, hunique, x, hx, hcreated, hfirst, y, hy, hcreated', hreplay,
    (hbodies x hx hcreated).2 y hy hcreated'⟩

end LedgerCore.Http
