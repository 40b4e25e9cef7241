import LedgerCore.Projector.Engine

/-! The read model against the ledger: every projected balance is one that the account had, and
once every event was applied it is the one that it has. -/
namespace LedgerCore.Projector
open LedgerCore.Program
variable {r r' : AccountRow} {b : EventBalance} {actions : List (Engine.Action Delivery)}

section History
open Ledger
variable {db₀ db db' : DB} {ops : List LedgerOp}

/-- An account's row now and later. Its version says which of its balances it is. -/
structure RowLater (r r' : AccountRow) : Prop where
  currency : r'.currency = r.currency
  version : r.balance.version.toInt ≤ r'.balance.version.toInt
  available : r'.balance.version = r.balance.version →
    r'.balance.availableMinor = r.balance.availableMinor

theorem RowLater.refl (r : AccountRow) : RowLater r r := ⟨rfl, le_rfl, fun _ => rfl⟩

theorem RowLater.trans {r'' : AccountRow} (h : RowLater r r') (h' : RowLater r' r'') :
    RowLater r r'' := by
  refine ⟨h'.currency.trans h.currency, h.version.trans h'.version, fun heq => ?_⟩
  have hle := h.version
  have hle' := h'.version
  rw [heq] at hle'
  have hmid : r'.balance.version = r.balance.version := Int64.toInt_inj.1 (le_antisymm hle' hle)
  exact (h'.available (heq.trans hmid.symm)).trans (h.available hmid)

theorem RowMoved.later {entries : List JournalEntry} {pending : ℤ}
    (h : RowMoved entries pending r r') : RowLater r r' := by
  refine ⟨by rw [h.columns], ?_, fun heq => ?_⟩
  · rw [h.version]
    split_ifs <;> omega
  · have hversion := h.version
    rw [heq] at hversion
    by_cases hnil : entries = []
    · have havailable := h.available
      rw [hnil] at havailable
      exact Int64.toInt_inj.1 (by simpa [signedTotal] using havailable)
    · rw [if_neg hnil] at hversion
      omega

theorem apply_later (op : LedgerOp) {id : UUID} (hr : db.accounts.find? id = some r) :
    ∃ r', (op.apply db).accounts.find? id = some r' ∧ RowLater r r' := by
  unfold LedgerOp.apply
  split
  · next db' hrun =>
    rcases LedgerOp.run_cases hrun with hopen | ⟨t, hcommit, -⟩
    · obtain ⟨r', hr', hk⟩ := hopen.kept id r hr
      refine ⟨r', hr', hk.currency, ?_, ?_⟩
      · rw [hk.balance]
      · rw [hk.balance]
        exact fun _ => rfl
    · obtain ⟨p, hp⟩ := hcommit.accounts
      obtain ⟨r', hr', hm⟩ := hp.rows id r hr
      exact ⟨r', hr', RowMoved.later hm⟩
  · exact ⟨r, hr, .refl r⟩

theorem runOps_later (ops : List LedgerOp) {id : UUID} (hr : db.accounts.find? id = some r) :
    ∃ r', (runOps ops db).accounts.find? id = some r' ∧ RowLater r r' := by
  refine List.foldlRecOn (motive := fun db' : DB =>
    ∃ r', db'.accounts.find? id = some r' ∧ RowLater r r') ops LedgerOp.apply ⟨r, hr, .refl r⟩ ?_
  rintro db' ⟨r', hr', hlater⟩ op -
  obtain ⟨r'', hr'', hlater'⟩ := apply_later op hr'
  exact ⟨r'', hr'', hlater.trans hlater'⟩

/-- The account's balance after one of its transactions, at some moment of the history. -/
def Had (db₀ : DB) (ops : List LedgerOp) (b : EventBalance) : Prop :=
  b.version ≠ 0 ∧ ∃ past, past <+: ops ∧
    ∃ r, (runOps past db₀).accounts.find? b.accountID = some r ∧ Reports b r

theorem Had.mono {ops' : List LedgerOp} (h : Had db₀ ops b) (hp : ops <+: ops') :
    Had db₀ ops' b := by
  obtain ⟨hv, past, hpast, hr⟩ := h
  exact ⟨hv, past, hpast.trans hp, hr⟩

theorem Had.later (h : Had db₀ ops b) :
    ∃ r₀ r, (runOps ops db₀).accounts.find? b.accountID = some r ∧ Reports b r₀ ∧ RowLater r₀ r := by
  obtain ⟨-, past, ⟨rest, rfl⟩, r₀, hr₀, hreport⟩ := h
  obtain ⟨r, hr, hlater⟩ := runOps_later rest hr₀
  refine ⟨r₀, r, ?_, hreport, hlater⟩
  rw [runOps, List.foldl_append]
  exact hr

/-- A balance that the account had is not past the one that it has. -/
theorem Had.behind {r : AccountRow} (h : Had db₀ ops b)
    (hr : (runOps ops db₀).accounts.find? b.accountID = some r) :
    b.version.toInt ≤ r.balance.version.toInt ∧
      (b.version = r.balance.version → b.available = ⟨r.balance.availableMinor, r.currency⟩) := by
  obtain ⟨r₀, r', hr', hreport, hlater⟩ := h.later
  obtain rfl := Option.some.inj (hr.symm.trans hr')
  rw [hreport.version, hreport.available]
  refine ⟨hlater.version, fun heq => ?_⟩
  rw [hlater.available heq.symm, hlater.currency]

/-- What the outbox tells: no event lists a balance that its account never had, and the balance that
an account has is listed. -/
structure Told (db₀ : DB) (ops : List LedgerOp) : Prop where
  sound : ∀ x ∈ (runOps ops db₀).outbox.rows, Transactional x.2 →
    ∀ b ∈ eventBalances x.2.payload, Had db₀ ops b
  complete : ∀ id r, (runOps ops db₀).accounts.find? id = some r → r.balance.version ≠ 0 →
    ∃ x ∈ (runOps ops db₀).outbox.rows, Transactional x.2 ∧
      ∃ b ∈ eventBalances x.2.payload, b.accountID = id ∧ Reports b r

/-- Where a history starts: nothing posted, and nothing to publish. -/
structure Genesis (db : DB) : Prop where
  noEntries : NoEntries db
  outbox : db.outbox.rows = []

theorem told_nil (h : Genesis db₀) : Told db₀ [] := by
  refine ⟨fun x hx => ?_, fun id r hr hv => ?_⟩
  · rw [runOps, List.foldl_nil, h.outbox] at hx
    cases hx
  · exact absurd (h.noEntries.balances id r hr).2.1 hv

theorem Reports.of_kept (h : Reports b r) (hc : r'.currency = r.currency)
    (ha : r'.balance.availableMinor = r.balance.availableMinor)
    (hv : r'.balance.version = r.balance.version) : Reports b r' :=
  ⟨by rw [ha, hc]; exact h.available, by rw [hv]; exact h.version⟩

theorem Told.opened {op : LedgerOp} {rest : List (UUID × Event)} (h : Told db₀ ops)
    (hop : runOps (ops ++ [op]) db₀ = db') (hopen : Opened (runOps ops db₀) db')
    (hrows : db'.outbox.rows = (runOps ops db₀).outbox.rows ++ rest)
    (hrest : ∀ x ∈ rest, ¬Transactional x.2) : Told db₀ (ops ++ [op]) := by
  refine ⟨fun x hx htx b hb => ?_, fun id r hr hv => ?_⟩
  · rw [hop, hrows, List.mem_append] at hx
    exact (h.sound x (hx.resolve_right fun hx => hrest x hx htx) htx b hb).mono
      (List.prefix_append ..)
  · rw [hop] at hr ⊢
    cases hr₀ : (runOps ops db₀).accounts.find? id with
    | none =>
      obtain ⟨_, _, hb⟩ := hopen.new id r hr hr₀
      rw [hb] at hv
      exact absurd rfl hv
    | some r₀ =>
      obtain ⟨r₁, hr₁, hk⟩ := hopen.kept id r₀ hr₀
      obtain rfl : r₁ = r := Option.some.inj (hr₁.symm.trans hr)
      obtain ⟨x, hx, htx, b, hb, hid, hreport⟩ := h.complete id r₀ hr₀ (hk.balance ▸ hv)
      exact ⟨x, hrows ▸ List.mem_append_left _ hx, htx, b, hb, hid,
        Reports.of_kept hreport hk.currency (by rw [hk.balance]) (by rw [hk.balance])⟩

theorem Told.committed {op : LedgerOp} {t : Transaction} (h : Told db₀ ops)
    (hop : runOps (ops ++ [op]) db₀ = db') (hcommit : Committed (runOps ops db₀) db' t)
    (hemits : Emits (runOps ops db₀) db' t) : Told db₀ (ops ++ [op]) := by
  obtain ⟨eventID, e, rest, hrows, hannounce, hrest⟩ := hemits
  obtain ⟨p, hp⟩ := hcommit.accounts
  refine ⟨fun x hx htx b hb => ?_, fun id r hr hv => ?_⟩
  · rw [hop, hrows, List.mem_append, List.mem_cons] at hx
    rcases hx with hx | rfl | hx
    · exact (h.sound x hx htx b hb).mono (List.prefix_append ..)
    · obtain ⟨htouched, r, hr, hreport⟩ := hannounce.reports b hb
      obtain ⟨r₀, -, hm⟩ := hp.rows_of_after hr
      refine ⟨?_, ops ++ [op], List.prefix_rfl, r, hop ▸ hr, hreport⟩
      -- The transaction moved the account's version up from a version of at least zero.
      have hversion := hm.version
      have hnonneg := Int64.le_iff_toInt_le.1 r₀.balance.version_check
      rw [if_neg htouched] at hversion
      rw [hreport.version]
      intro hzero
      rw [hzero] at hversion
      rw [toInt_zero] at hversion hnonneg
      omega
    · exact absurd htx (hrest x hx)
  · rw [hop] at hr ⊢
    by_cases hnil : onAccount id t.entries = []
    · obtain ⟨r₀, hr₀, hm⟩ := hp.rows_of_after hr
      have hlater := RowMoved.later hm
      have hsame : r.balance.version = r₀.balance.version :=
        Int64.toInt_inj.1 (by simpa [hnil] using hm.version)
      obtain ⟨x, hx, htx, b, hb, hid, hreport⟩ := h.complete id r₀ hr₀ (hsame ▸ hv)
      exact ⟨x, hrows ▸ List.mem_append_left _ hx, htx, b, hb, hid,
        Reports.of_kept hreport hlater.currency (hlater.available hsame) hsame⟩
    · obtain ⟨b, hb, rfl⟩ := hannounce.covers id hnil
      obtain ⟨-, r', hr', hreport⟩ := hannounce.reports b hb
      obtain rfl : r' = r := Option.some.inj (hr'.symm.trans hr)
      exact ⟨(eventID, e), by rw [hrows]; simp, hannounce.transactional, b, hb, rfl, hreport⟩

theorem told (h : Genesis db₀) (hs : ∀ op ∈ ops, op.Silent) : Told db₀ ops := by
  induction ops using List.reverseRecOn with
  | nil => exact told_nil h
  | append_singleton ops op ih =>
    have htold := ih fun x hx => hs x (List.mem_append_left _ hx)
    have hop : runOps (ops ++ [op]) db₀ = op.apply (runOps ops db₀) := by
      rw [runOps, List.foldl_append]
      rfl
    cases hrun : op.run (runOps ops db₀) with
    | error e =>
      have hsame : op.apply (runOps ops db₀) = runOps ops db₀ := by rw [LedgerOp.apply, hrun]
      exact htold.opened (hop.trans hsame) (.refl _) (List.append_nil _).symm (by simp)
    | ok db' =>
      have happly : op.apply (runOps ops db₀) = db' := by rw [LedgerOp.apply, hrun]
      rcases LedgerOp.run_emits (hs op (by simp)) hrun with ⟨hopen, rest, hrows, hrest⟩ | ⟨t, hc, he⟩
      · exact htold.opened (hop.trans happly) hopen hrows hrest
      · exact htold.committed (hop.trans happly) hc he

end History

section Apply
variable {T : EventBalance → Prop} {accounts : List UUID} {eventID : UUID} {b : EventBalance}
  {bs : List EventBalance} {db db' db'' : ProjectionDB}

def ProjectionRow.balance (p : ProjectionRow) (id : UUID) : EventBalance :=
  ⟨id, ⟨p.availableMinor, p.currency⟩, p.version⟩

/-- Every row projects a balance of which `T` is true. -/
def Faithful (T : EventBalance → Prop) (db : ProjectionDB) : Prop :=
  ∀ id p, db.balanceProjections.find? id = some p → T (p.balance id)

/-- The projection is at the balance, or past it. -/
def Reached (b : EventBalance) (db : ProjectionDB) : Prop :=
  ∃ p, db.balanceProjections.find? b.accountID = some p ∧ b.version ≤ p.version

/-- No row is lost, and no version decreases. -/
def Ahead (db db' : ProjectionDB) : Prop :=
  ∀ id p, db.balanceProjections.find? id = some p →
    ∃ p', db'.balanceProjections.find? id = some p' ∧ p.version ≤ p'.version

theorem Ahead.refl (db : ProjectionDB) : Ahead db db := fun _ p hp => ⟨p, hp, Int64.le_refl _⟩

theorem Ahead.trans (h : Ahead db db') (h' : Ahead db' db'') : Ahead db db'' := by
  intro id p hp
  obtain ⟨p', hp', hle⟩ := h id p hp
  obtain ⟨p'', hp'', hle'⟩ := h' id p' hp'
  exact ⟨p'', hp'', Int64.le_trans hle hle'⟩

theorem Reached.ahead (h : Reached b db) (h' : Ahead db db') : Reached b db' := by
  obtain ⟨p, hp, hle⟩ := h
  obtain ⟨p', hp', hle'⟩ := h' _ p hp
  exact ⟨p', hp', Int64.le_trans hle hle'⟩

theorem balanceWrite_eq_ok {old new : Option ProjectionRow}
    (h : balanceWrite accounts eventID b old = .ok new) :
    ∃ p, new.or old = some p ∧ b.version ≤ p.version ∧ (∀ p₀ ∈ old, p₀.version ≤ p.version) ∧
      (p ∈ old ∨ p.availableMinor = b.available.amountMinor ∧ p.version = b.version ∧
        p.currency = (old.map fun p₀ => p₀.currency).getD b.available.currency) := by
  obtain ⟨row, hrow, h⟩ := bind_eq_ok.1 h
  obtain ⟨_, -, h⟩ := bind_eq_ok.1 h
  cases h
  have hcols : row.toProjectionColumns =
      ⟨b.available.amountMinor, b.available.currency, b.version, eventID⟩ := by
    unfold ProjectionColumns.check at hrow
    split_ifs at hrow
    cases hrow
    rfl
  have hversion : row.version = b.version := by rw [hcols]
  have havailable : row.availableMinor = b.available.amountMinor := by rw [hcols]
  have hle : b.version ≤ row.version := hversion ▸ Int64.le_refl _
  cases old with
  | none => exact ⟨row, rfl, hle, nofun, .inr ⟨havailable, hversion, by rw [hcols]; rfl⟩⟩
  | some p₀ =>
    by_cases hlt : p₀.version < row.version
    · have hnew : projectedRow row (some p₀) = some { row with currency := p₀.currency } := if_pos hlt
      refine ⟨{ row with currency := p₀.currency }, by rw [hnew]; rfl, hle, ?_,
        .inr ⟨havailable, hversion, rfl⟩⟩
      rintro _ ⟨⟩
      exact Int64.le_of_lt hlt
    · have hnew : projectedRow row (some p₀) = none := if_neg hlt
      refine ⟨p₀, by rw [hnew]; rfl, hversion ▸ Int64.not_lt.1 hlt, ?_, .inl rfl⟩
      rintro _ ⟨⟩
      exact Int64.le_refl _

theorem exec_ahead {c : Call} {r : Reply c} (h : exec accounts c db = .ok (r, db')) :
    Ahead db db' := by
  cases c with
  | recordEvent eventID eventType =>
    cases h
    exact .refl db
  | applyBalance eventID b =>
    obtain ⟨new, hwrite, rfl⟩ := exec_applyBalance.1 h
    obtain ⟨p, hp, -, hahead, -⟩ := balanceWrite_eq_ok hwrite
    intro id p₀ hp₀
    by_cases hid : id = b.accountID
    · exact ⟨p, by rw [Table.find?_put, if_pos hid, hp], hahead p₀ (hid ▸ hp₀)⟩
    · exact ⟨p₀, by rw [Table.find?_put, if_neg hid, hp₀], Int64.le_refl _⟩

theorem run_ahead {α : Type} {p : Prog Reply Error α} {a : α}
    (h : p.run (exec accounts) db = .ok (a, db')) : Ahead db db' :=
  Prog.run_of_onlyCalls (h := exec accounts) Ahead.refl Ahead.trans (fun _ => exec_ahead) (Prog.onlyCalls_true p) h

/-- What a delivery needs of the balances that it lists. -/
structure Applicable (T : EventBalance → Prop) (accounts : List UUID) (b : EventBalance) : Prop where
  holds : T b
  currency : Ledger.currencyPattern b.available.currency
  version : 0 ≤ b.version
  known : b.accountID ∈ accounts

/-- The state after some of an event's balances. -/
structure Applied (T : EventBalance → Prop) (bs : List EventBalance) (db db' : ProjectionDB) :
    Prop where
  processedEvents : db'.processedEvents = db.processedEvents
  faithful : Faithful T db → Faithful T db'
  ahead : Ahead db db'
  reached : ∀ b ∈ bs, Reached b db'

theorem exec_applied
    (hT : ∀ b', T b' → b'.accountID = b.accountID → b'.available.currency = b.available.currency)
    (hb : T b) {u : Unit} (hf : Faithful T db)
    (h : exec accounts (.applyBalance eventID b) db = .ok (u, db')) : Applied T [b] db db' := by
  have hahead := exec_ahead h
  obtain ⟨new, hwrite, rfl⟩ := exec_applyBalance.1 h
  obtain ⟨p, hp, hle, -, hfrom⟩ := balanceWrite_eq_ok hwrite
  have hTp : T (p.balance b.accountID) := by
    rcases hfrom with hold | ⟨havailable, hversion, hcurrency⟩
    · exact hf _ p hold
    · have hsame : p.currency = b.available.currency := by
        rw [hcurrency]
        cases hold : db.balanceProjections.find? b.accountID with
        | none => rfl
        | some p₀ => exact hT _ (hf _ p₀ hold) rfl
      rw [ProjectionRow.balance, havailable, hversion, hsame]
      exact hb
  refine ⟨rfl, fun _ id p' hp' => ?_, hahead, fun b' hb' => ?_⟩
  · rw [Table.find?_put] at hp'
    split_ifs at hp' with hid
    · obtain rfl : p = p' := Option.some.inj (hp.symm.trans hp')
      exact hid ▸ hTp
    · exact hf id p' hp'
  · rw [List.mem_singleton.1 hb']
    exact ⟨p, by rw [Table.find?_put, if_pos rfl, hp], hle⟩

theorem Applied.cons (h : Applied T [b] db db') (h' : Applied T bs db' db'') :
    Applied T (b :: bs) db db'' := by
  refine ⟨h'.processedEvents.trans h.processedEvents, fun hf => h'.faithful (h.faithful hf),
    h.ahead.trans h'.ahead, fun x hx => ?_⟩
  rcases List.mem_cons.1 hx with rfl | hx
  · exact (h.reached x List.mem_cons_self).ahead h'.ahead
  · exact h'.reached x hx

theorem exec_applyBalance_ok (eventID : UUID) (h : Applicable T accounts b) (db : ProjectionDB) :
    ∃ db', exec accounts (.applyBalance eventID b) db = .ok ((), db') := by
  have hcheck : ProjectionColumns.check
      ⟨b.available.amountMinor, b.available.currency, b.version, eventID⟩ =
        .ok ⟨_, h.version⟩ := dif_pos h.version
  have hknown : ¬(db.balanceProjections.find? b.accountID = none ∧ b.accountID ∉ accounts) :=
    fun hfk => hfk.2 h.known
  exact ⟨_, exec_applyBalance.2 ⟨_, bind_eq_ok.2 ⟨_, hcheck, bind_eq_ok.2
    ⟨(), failIf_eq_ok.2 hknown, rfl⟩⟩, rfl⟩⟩

variable (hT : ∀ b b', T b → T b' → b'.accountID = b.accountID →
  b'.available.currency = b.available.currency)
include hT

theorem applyBalances_applied (eventID : UUID) (hbs : ∀ b ∈ bs, Applicable T accounts b) (hf : Faithful T db) :
    ∃ db', (bs.forM fun b => (.perform (Call.applyBalance eventID b) : Prog Reply Error Unit)).run
      (exec accounts) db = .ok ((), db') ∧ Applied T bs db db' := by
  induction bs generalizing db with
  | nil => exact ⟨db, rfl, rfl, id, .refl db, by simp⟩
  | cons b bs ih =>
    have hb := hbs b List.mem_cons_self
    obtain ⟨db₁, hexec⟩ := exec_applyBalance_ok eventID hb db
    have happlied := exec_applied (fun b' hb' => hT b b' hb.holds hb') hb.holds hf hexec
    obtain ⟨db', hrun, happlied'⟩ :=
      ih (fun x hx => hbs x (List.mem_cons_of_mem _ hx)) (happlied.faithful hf)
    exact ⟨db', Prog.run_perform_bind_ok.2 ⟨(), db₁, hexec, hrun⟩, happlied.cons happlied'⟩

/-- An event of a known type is always handled: its balances are projected, unless they were when
it was recorded before. -/
theorem apply_handled {envelope : Envelope} (hknown : Known envelope.eventType)
    (hbs : ∀ b ∈ Ledger.eventBalances envelope.payload, Applicable T accounts b)
    (hf : Faithful T db) :
    ∃ applied db', envelope.decoded.apply.run (exec accounts) db = .ok (applied, db') ∧
      Faithful T db' ∧ Ahead db db' ∧
      (∀ id, db'.processedEvents.find? id ≠ none ↔
        id = envelope.eventID ∨ db.processedEvents.find? id ≠ none) ∧
      (db.processedEvents.find? envelope.eventID = none →
        ∀ b ∈ Ledger.eventBalances envelope.payload, Reached b db') := by
  have hdecode : decodeBalances envelope.payload = .ok (Ledger.eventBalances envelope.payload) := by
    refine map_eq_ok.2 ⟨(), forM_eq_ok.2 fun b hb => ?_, rfl⟩
    have hmoney : Ledger.newMoney b.available.amountMinor b.available.currency = .ok b.available :=
      Ledger.newMoney_eq_ok.2 ⟨(hbs b hb).currency, rfl⟩
    rw [hmoney]
    rfl
  have hstart {applied : Bool} {db₁ db' : ProjectionDB} {recorded : Bool}
      (hrecord : recordEvent envelope.eventID envelope.eventType db = (recorded, db₁))
      (hrest : (if recorded then do
          (Ledger.eventBalances envelope.payload).forM fun b =>
            (.perform (Call.applyBalance envelope.eventID b) : Prog Reply Error Unit)
          pure true
        else pure false : Prog Reply Error Bool).run (exec accounts) db₁ = .ok (applied, db')) :
      envelope.decoded.apply.run (exec accounts) db = .ok (applied, db') := by
    have hcheck : envelope.decoded.check = .ok (Ledger.eventBalances envelope.payload) :=
      bind_eq_ok.2 ⟨(), failIf_eq_ok.2 (not_not.2 hknown), mapError_eq_ok.2 hdecode⟩
    exact Prog.run_ofExcept_bind_ok.2 ⟨_, hcheck, Prog.run_perform_bind_ok.2 ⟨recorded, db₁,
      congrArg Except.ok hrecord, hrest⟩⟩
  cases hold : db.processedEvents.find? envelope.eventID with
  | some type =>
    have hrecord : recordEvent envelope.eventID envelope.eventType db = (false, db) := by
      rw [recordEvent, hold]
      rfl
    refine ⟨false, db, hstart hrecord rfl, hf, .refl db, fun id => ⟨.inr, ?_⟩, fun h => ?_⟩
    · rintro (rfl | h)
      · rw [hold]
        exact Option.some_ne_none _
      · exact h
    · cases h
  | none =>
    let recorded : ProjectionDB := { db with
      processedEvents := db.processedEvents.put envelope.eventID (some envelope.eventType) }
    have hrecord : recordEvent envelope.eventID envelope.eventType db = (true, recorded) := by
      rw [recordEvent, hold]
      rfl
    have hf' : Faithful T recorded := hf
    obtain ⟨db', hrun, happlied⟩ := applyBalances_applied hT envelope.eventID hbs hf'
    refine ⟨true, db', hstart hrecord (Prog.run_bind_ok.2 ⟨(), db', hrun, rfl⟩),
      happlied.faithful hf, happlied.ahead, fun id => ?_, fun _ => happlied.reached⟩
    rw [happlied.processedEvents, Table.find?_put]
    split_ifs with hid
    · simp [hid]
    · simp [hid]

end Apply

/-- Consumers at work: begun, advanced and cancelled in some order. -/
abbrev Consumers := Engine.Sys Reply Error Delivery ProjectionDB ProjectionDB Patch Lock Bool

/-- A message that was in the outbox at some moment of the history, taken up then. -/
def Genuine (db₀ : DB) (ops : List Ledger.LedgerOp) (d : Delivery) : Prop :=
  ∃ past, past <+: ops ∧ ∃ x ∈ (Ledger.runOps past db₀).outbox.rows,
    d = ⟨.ofEvent x.1 x.2, (Ledger.runOps past db₀).accounts.keys⟩

/-- What holds of the read model after some deliveries. -/
structure Projected (T : EventBalance → Prop) (done : List (Engine.Finished Error Delivery Bool))
    (db : ProjectionDB) : Prop where
  faithful : Faithful T db
  handled : ∀ f ∈ done, Known f.kind.envelope.eventType →
    db.processedEvents.find? f.kind.envelope.eventID ≠ none
  reached : ∀ id, db.processedEvents.find? id ≠ none → ∃ f ∈ done,
    f.kind.envelope.eventID = id ∧
      ∀ b ∈ Ledger.eventBalances f.kind.envelope.payload, Reached b db

section Schedule
variable {T : EventBalance → Prop} {done : List (Engine.Finished Error Delivery Bool)}
  {db db' : ProjectionDB} {d : Delivery}

theorem projected_empty : Projected T [] .empty :=
  ⟨fun _ _ h => (nomatch h), fun _ h => (nomatch h), fun _ h => absurd rfl h⟩

theorem transact_eq (d : Delivery) (db : ProjectionDB) :
    engine.transact d db = d.envelope.decoded.apply.run (exec d.accounts) db := by
  change (d.envelope.decoded.apply.run (exec d.accounts) db >>= fun x => Except.ok (x.1, x.2)) = _
  rcases d.envelope.decoded.apply.run (exec d.accounts) db with e | ⟨a, s⟩ <;> rfl

theorem check_unknown {e : Decoded} (h : ¬Known e.eventType) : e.check = .error (.errorf ("event " ++
    e.eventID.string ++ " type " ++ quote e.eventType) .unknownEventType) := by
  rw [Decoded.check, failIf, if_pos h]
  rfl

theorem apply_unknown {envelope : Envelope} (accounts : List UUID) (db : ProjectionDB)
    (h : ¬Known envelope.eventType) :
    envelope.decoded.apply.run (exec accounts) db = .error (.errorf ("event " ++
      envelope.eventID.string ++ " type " ++ quote envelope.eventType) .unknownEventType) := by
  rw [Decoded.apply, check_unknown (e := envelope.decoded) h]
  rfl

theorem Projected.deliver (h : Projected T done db)
    (hT : ∀ b b', T b → T b' → b'.accountID = b.accountID →
      b'.available.currency = b.available.currency)
    (hd : Known d.envelope.eventType →
      ∀ b ∈ Ledger.eventBalances d.envelope.payload, Applicable T d.accounts b) :
    (∀ e, engine.transact d db = .error e → Projected T (done ++ [⟨d, .error e⟩]) db) ∧
      ∀ a db', engine.transact d db = .ok (a, db') → Projected T (done ++ [⟨d, .ok a⟩]) db' := by
  rw [transact_eq]
  by_cases hknown : Known d.envelope.eventType
  · obtain ⟨applied, db₁, hrun, hf, hahead, hprocessed, hreached⟩ :=
      apply_handled hT hknown (hd hknown) h.faithful
    rw [hrun]
    refine ⟨nofun, ?_⟩
    rintro a db' ⟨⟩
    refine ⟨hf, fun f hmem hk => ?_, fun id hid => ?_⟩
    · rw [hprocessed]
      rcases List.mem_append.1 hmem with hmem | hmem
      · exact .inr (h.handled f hmem hk)
      · exact .inl (by rw [List.mem_singleton.1 hmem])
    · by_cases hold : db.processedEvents.find? id = none
      · obtain rfl : id = d.envelope.eventID := ((hprocessed id).1 hid).resolve_right fun h => h hold
        exact ⟨⟨d, .ok applied⟩, by simp, rfl, hreached hold⟩
      · obtain ⟨f, hmem, hfid, hb⟩ := h.reached id hold
        exact ⟨f, List.mem_append_left _ hmem, hfid, fun b hb' => (hb b hb').ahead hahead⟩
  · rw [apply_unknown d.accounts db hknown]
    refine ⟨fun e' _ => ⟨h.faithful, fun f hmem hk => ?_, fun id hid => ?_⟩, nofun⟩
    · rcases List.mem_append.1 hmem with hmem | hmem
      · exact h.handled f hmem hk
      · rw [List.mem_singleton.1 hmem] at hk
        exact absurd hk hknown
    · obtain ⟨f, hmem, hfid, hb⟩ := h.reached id hid
      exact ⟨f, List.mem_append_left _ hmem, hfid, hb⟩

theorem consumers_serialize {db : ProjectionDB} {s : Consumers}
    (h : (Engine.Sys.init db : Consumers).run engine actions = some s) :
    Engine.Serializes engine (fun _ => True) Kept db s := by
  refine Engine.serializes engine_isolates (fun a _ => ?_) Engine.serializes_init h
  cases a with
  | begin i d => exact Prog.onlyCalls_true _
  | _ => trivial

theorem consumers_ahead {db : ProjectionDB} {s s' : Consumers}
    (hs : Engine.Serializes engine (fun _ => True) Kept db s) (h : s.run engine actions = some s') :
    Ahead s.committed s'.committed := by
  induction actions generalizing s with
  | nil =>
    cases h
    exact .refl _
  | cons a actions ih =>
    obtain ⟨s₁, hstep, hrest⟩ := Option.bind_eq_some_iff.1 h
    have hadmits : a.Admits engine fun _ => True := by
      cases a with
      | begin i d => exact Prog.onlyCalls_true _
      | _ => trivial
    refine Ahead.trans ?_ (ih (hs.step engine_isolates hadmits hstep) hrest)
    rcases hs.committed_step engine_isolates hstep with hsame | ⟨d, r, hd⟩
    · rw [hsame]
      exact .refl _
    · rw [transact_eq] at hd
      exact run_ahead hd

end Schedule

section Genuine
open Ledger
variable {db₀ : DB} {ops : List LedgerOp} (h₀ : Genesis db₀) (hs : ∀ op ∈ ops, op.Silent)

theorem had_currency {b' : EventBalance} (h : Had db₀ ops b) (h' : Had db₀ ops b')
    (hid : b'.accountID = b.accountID) : b'.available.currency = b.available.currency := by
  obtain ⟨r₀, r, hr, hreport, hlater⟩ := h.later
  obtain ⟨r₀', r', hr', hreport', hlater'⟩ := h'.later
  rw [hid] at hr'
  obtain rfl : r = r' := Option.some.inj (hr.symm.trans hr')
  rw [hreport.available, hreport'.available]
  exact hlater'.currency.symm.trans hlater.currency

theorem outbox_append {db : DB} {rest : List LedgerOp} (hs : ∀ op ∈ rest, op.Silent) {x : UUID × Event}
    (hx : x ∈ db.outbox.rows) : x ∈ (runOps rest db).outbox.rows := by
  refine List.foldlRecOn (motive := fun db' : DB => x ∈ db'.outbox.rows) rest LedgerOp.apply hx ?_
  intro db' hx' op hop
  unfold LedgerOp.apply
  split
  · next db'' hrun =>
    rcases LedgerOp.run_emits (hs op hop) hrun with ⟨-, rest, hrows, -⟩ | ⟨t, -, _, _, rest, hrows, -⟩
    all_goals
      rw [hrows]
      exact List.mem_append_left _ hx'
  · exact hx'

include h₀ hs

theorem Genuine.applicable {d : Delivery} (h : Genuine db₀ ops d)
    (hknown : Known d.envelope.eventType) :
    ∀ b ∈ eventBalances d.envelope.payload, Applicable (Had db₀ ops) d.accounts b := by
  obtain ⟨past, hpast, x, hx, rfl⟩ := h
  intro b hb
  have htold := told h₀ fun op hop => hs op (hpast.subset hop)
  have hhad := htold.sound x hx hknown b hb
  obtain ⟨r₀, r, hr, hreport, -⟩ := hhad.later
  refine ⟨hhad.mono hpast, ?_, ?_, Table.mem_keys.2 ⟨r, hr⟩⟩
  · rw [hreport.available]
    exact r₀.currency_check
  · rw [hreport.version]
    exact r₀.balance.version_check

theorem consumers_projected {s : Consumers} (ha : ∀ a ∈ actions, a.Begins (Genuine db₀ ops))
    (h : (Engine.Sys.init ProjectionDB.empty : Consumers).run engine actions = some s) :
    Projected (Had db₀ ops) s.finished s.committed := by
  have hkinds := (Engine.begun_init.run ha h).finished
  have hdeliver {done : List (Engine.Finished Error Delivery Bool)} {db : ProjectionDB} {d : Delivery}
      (hdone : Projected (Had db₀ ops) done db) (hd : Genuine db₀ ops d) :=
    hdone.deliver (fun _ _ => had_currency) (hd.applicable h₀ hs)
  refine Engine.serial_induction (motive := fun done db =>
    (∀ f ∈ done, Genuine db₀ ops f.kind) → Projected (Had db₀ ops) done db)
    (fun _ => projected_empty) ?_ ?_ (consumers_serialize h).finished hkinds
  · intro done db d e ih herror hd
    have hdone := ih fun f hf => hd f (List.mem_append_left _ hf)
    have hlast := hd ⟨d, .error e⟩ (List.mem_append_right _ List.mem_cons_self)
    exact (hdeliver hdone hlast).1 e herror
  · intro done db db' d a ih hok hd
    have hdone := ih fun f hf => hd f (List.mem_append_left _ hf)
    have hlast := hd ⟨d, .ok a⟩ (List.mem_append_right _ List.mem_cons_self)
    exact (hdeliver hdone hlast).2 a db' hok

omit h₀ in
/-- Two messages with one event id are one event. -/
theorem Genuine.payload_eq {d : Delivery} (h : Genuine db₀ ops d) {x : UUID × Event}
    (hx : x ∈ (runOps ops db₀).outbox.rows) (hid : d.envelope.eventID = x.1) :
    d.envelope = .ofEvent x.1 x.2 := by
  obtain ⟨past, ⟨rest, rfl⟩, y, hy, rfl⟩ := h
  have hy' : y ∈ (runOps (past ++ rest) db₀).outbox.rows := by
    rw [runOps, List.foldl_append]
    exact outbox_append (fun op hop => hs op (List.mem_append_right _ hop)) hy
  obtain rfl : y = x := List.inj_on_of_nodup_map (runOps (past ++ rest) db₀).outbox.nodup hy' hx hid
  rfl

end Genuine

/-- Whatever consumers make of the events of a history, in any order and however often, each
projected balance is the one that its account had after as many transactions as its version says,
and no version decreases. Once every event was applied, the projection is the account's balance. -/
theorem projection_converges {db₀ : DB} (h₀ : Genesis db₀) {ops : List Ledger.LedgerOp}
    (hs : ∀ op ∈ ops, op.Silent) {actions : List (Engine.Action Delivery)}
    (ha : ∀ a ∈ actions, a.Begins (Genuine db₀ ops)) {s : Consumers}
    (h : (Engine.Sys.init ProjectionDB.empty : Consumers).run engine actions = some s) :
    (∀ id p, s.committed.balanceProjections.find? id = some p → ∃ past, past <+: ops ∧
      ∃ r, (Ledger.runOps past db₀).accounts.find? id = some r ∧
        p.availableMinor = r.balance.availableMinor ∧ p.currency = r.currency ∧
        p.version = r.balance.version ∧
        p.version.toInt = (Ledger.postingsOn id (Ledger.runOps past db₀)).length) ∧
    (∀ more s', s.run engine more = some s' → Ahead s.committed s'.committed) ∧
    ((∀ x ∈ (Ledger.runOps ops db₀).outbox.rows, Ledger.Transactional x.2 →
        ∃ f ∈ s.finished, f.kind.envelope = .ofEvent x.1 x.2) →
      ∀ id r, (Ledger.runOps ops db₀).accounts.find? id = some r →
        ((s.committed.balanceProjections.find? id).map fun p =>
          (p.availableMinor, p.currency, p.version)) =
          if r.balance.version = 0 then none
          else some (r.balance.availableMinor, r.currency, r.balance.version)) := by
  have hp := consumers_projected h₀ hs ha h
  refine ⟨fun id p hid => ?_, fun more s' hmore => consumers_ahead (consumers_serialize h) hmore,
    fun hall id r hr => ?_⟩
  · obtain ⟨-, past, hpast, r, hr, hreport⟩ := hp.faithful id p hid
    have hrow := (Ledger.runOps_agrees past h₀.noEntries.agrees).rows id r hr
    obtain ⟨havailable, hcurrency⟩ := Ledger.Money.mk.inj hreport.available
    exact ⟨past, hpast, r, hr, havailable, hcurrency, hreport.version,
      by rw [show p.version = r.balance.version from hreport.version, hrow.version]⟩
  · have hbehind {p : ProjectionRow} (hid : s.committed.balanceProjections.find? id = some p) :=
      (hp.faithful id p hid).behind hr
    split_ifs with hzero
    · cases hid : s.committed.balanceProjections.find? id with
      | none => rfl
      | some p =>
        have hle := (hbehind hid).1
        have hnonneg := Int64.le_iff_toInt_le.1 p.version_check
        rw [hzero, Ledger.toInt_zero] at hle
        rw [Ledger.toInt_zero] at hnonneg
        exact absurd (Int64.toInt_inj.1 ((le_antisymm hle hnonneg).trans Ledger.toInt_zero.symm))
          (hp.faithful id p hid).1
    · obtain ⟨x, hx, htx, b, hb, rfl, hreport⟩ := (told h₀ hs).complete id r hr hzero
      obtain ⟨f, hf, henvelope⟩ := hall x hx htx
      have hprocessed := hp.handled f hf (by rw [henvelope]; exact htx)
      obtain ⟨g, hg, hgid, hreached⟩ := hp.reached _ hprocessed
      have hgenuine := (Engine.begun_init.run ha h).finished g hg
      have hsame := hgenuine.payload_eq hs hx (hgid.trans (by rw [henvelope]; rfl))
      obtain ⟨p, hid, hle⟩ := hreached b (by rw [hsame]; exact hb)
      obtain ⟨hbound, heq⟩ := hbehind hid
      have hversion : p.version = r.balance.version :=
        Int64.toInt_inj.1 (le_antisymm hbound (Int64.le_iff_toInt_le.1 (hreport.version ▸ hle)))
      obtain ⟨havailable, hcurrency⟩ := Ledger.Money.mk.inj (heq hversion)
      rw [hid, Option.map_some, havailable, hcurrency, hversion]

/-- The message with an event id, taken up on the database as it is. -/
def deliveryOf (db : DB) (eventID : UUID) : Option Delivery :=
  (db.outbox.find? eventID).map fun e => ⟨.ofEvent eventID e, db.accounts.keys⟩

theorem genuine_deliveryOf {db₀ : DB} {ops : List Ledger.LedgerOp} {eventID : UUID} {d : Delivery}
    (h : deliveryOf (Ledger.runOps ops db₀) eventID = some d) : Genuine db₀ ops d := by
  obtain ⟨e, he, rfl⟩ := Option.map_eq_some_iff.1 h
  exact ⟨ops, List.prefix_rfl, (eventID, e), Table.find?_eq_some.1 he, rfl⟩

def sampleDelivery (eventID : UUID) : Delivery :=
  (deliveryOf (Ledger.runOps Ledger.sampleOps .empty) eventID).getD
    ⟨⟨eventID, "", .balanceUpdated ⟨0, 0, ⟨0, ""⟩, 0⟩⟩, []⟩

theorem genuine_sampleDelivery {eventID : UUID} (h : eventID = 3500 ∨ eventID = 4500) :
    Genuine .empty Ledger.sampleOps (sampleDelivery eventID) := by
  have hpresent : [(3500 : UUID), 4500].all (fun eventID =>
      (deliveryOf (Ledger.runOps Ledger.sampleOps .empty) eventID).isSome) = true := by
    decide +kernel
  have hid : eventID ∈ [(3500 : UUID), 4500] := by simpa using h
  obtain ⟨d, hd⟩ := Option.isSome_iff_exists.1 (List.all_eq_true.1 hpresent eventID hid)
  apply genuine_deliveryOf
  rw [sampleDelivery, hd]
  rfl

theorem silent_sampleOps : ∀ op ∈ Ledger.sampleOps, op.Silent := by
  simp [Ledger.sampleOps, Ledger.LedgerOp.Silent, Ledger.Silent]

/-- One consumer applies the reversal while another is about to apply the funding, which then comes
again. -/
def sampleSchedule : List (Engine.Action Delivery) :=
  [.begin 0 (sampleDelivery 4500), .begin 1 (sampleDelivery 3500), .advance 1, .advance 0,
    .advance 0, .advance 0, .advance 0, .advance 1, .advance 1, .advance 1,
    .begin 0 (sampleDelivery 3500), .advance 0, .advance 0]

theorem projection_converges_sample :
    ∃ s, (Engine.Sys.init ProjectionDB.empty : Consumers).run engine sampleSchedule = some s ∧
      s.finished.length = 3 ∧
      ∀ id r, (Ledger.runOps Ledger.sampleOps .empty).accounts.find? id = some r →
        ((s.committed.balanceProjections.find? id).map fun p =>
          (p.availableMinor, p.currency, p.version)) =
          if r.balance.version = 0 then none
          else some (r.balance.availableMinor, r.currency, r.balance.version) := by
  have hsome : ((Engine.Sys.init ProjectionDB.empty : Consumers).run engine sampleSchedule).any
      (fun s => s.finished.length = 3 ∧ ∀ x ∈ (Ledger.runOps Ledger.sampleOps .empty).outbox.rows,
        Ledger.Transactional x.2 → ∃ f ∈ s.finished, f.kind.envelope = .ofEvent x.1 x.2) = true := by
    decide +kernel
  obtain ⟨s, hrun, hs⟩ := (Option.any_eq_true ..).1 hsome
  obtain ⟨hlength, hall⟩ := of_decide_eq_true hs
  have ha : ∀ a ∈ sampleSchedule, a.Begins (Genuine .empty Ledger.sampleOps) := by
    simp [sampleSchedule, Engine.Action.Begins, genuine_sampleDelivery]
  exact ⟨s, hrun, hlength,
    (projection_converges ⟨Ledger.noEntries_empty, rfl⟩ silent_sampleOps ha hrun).2.2 hall⟩

end LedgerCore.Projector
