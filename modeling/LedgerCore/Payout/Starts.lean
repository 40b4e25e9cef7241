import LedgerCore.Payout.Requests

/-! What a start returns, to the one who started the payout and to others who use their key. -/
namespace LedgerCore.Payout
open LedgerCore.Program LedgerCore.Saga

/-- What a saga is fixed to when it starts. -/
structure Identity where
  payload : Payload
  principalID : String
  idempotencyKey : Option String
  deriving DecidableEq, Repr

def identity (r : SagaRow) : Identity := ⟨r.payload, r.principalID, r.idempotencyKey⟩

def identityOf (db : DB) (id : UUID) : Option Identity := (db.sagaInstances.find? id).map identity

def Names (db : DB) (principalID key : String) (id : UUID) (p : Payload) : Prop :=
  identityOf db id = some ⟨p, principalID, some key⟩

def KeysUnique (db : DB) : Prop := ∀ principalID key id id' p p',
  Names db principalID key id p → Names db principalID key id' p' → id = id' ∧ p = p'

section Start
variable {o : Orchestrator} {now untilDeadline : Time} {id : NewUUID} {p : Payload}
  {principalID key : String} {inst : Instance} {db db' : DB}

theorem names_of_existing {id : UUID} {r : SagaRow}
    (h : Saga.create.existing db principalID key = some (id, r)) :
    Names db principalID key id r.payload := by
  have hrow : r.principalID = principalID ∧ r.idempotencyKey = some key := by
    simpa using List.find?_some h
  obtain ⟨hprincipal, hkey⟩ := hrow
  rw [Names, identityOf, Table.find?_eq_some.2 (List.mem_of_find?_eq_some h), Option.map_some,
    identity, hprincipal, hkey]

theorem not_names_of_existing (h : Saga.create.existing db principalID key = none) (id : UUID)
    (p : Payload) : ¬Names db principalID key id p := by
  intro hnames
  obtain ⟨r, hr, hidentity⟩ := Option.map_eq_some_iff.1 hnames
  obtain ⟨-, hprincipal, hkey⟩ := Identity.mk.inj hidentity
  exact List.find?_eq_none.1 h (id, r) (Table.find?_eq_some.1 hr)
    (decide_eq_true ⟨hprincipal, hkey⟩)

theorem getByIdempotencyKey_eq_ok (h : getByIdempotencyKey principalID key db = .ok inst) :
    Names db principalID key inst.id inst.payload := by
  unfold getByIdempotencyKey at h
  split at h
  · next id r hexisting =>
    cases h
    exact names_of_existing hexisting
  · cases h

/-- A start returns the saga that its key names already, or else one with its own payload. -/
theorem start_eq_ok {key : Option String}
    (h : start o now untilDeadline id p principalID key db = .ok (inst, db')) :
    (∃ k, key = some k ∧ db' = db ∧ Names db principalID k inst.id inst.payload) ∨
      (∀ k, key = some k → ∀ id q, ¬Names db principalID k id q) ∧ inst.payload = p ∧
        identityOf db id.1 = none ∧ inst.id = id.1 ∧
        ∀ id', identityOf db' id' =
          if id' = id.1 then some ⟨p, principalID, key⟩ else identityOf db id' := by
  obtain ⟨_, -, h⟩ := bind_eq_ok.1 h
  unfold Saga.create at h
  split at h
  · next id' r hexisting =>
    cases h
    obtain ⟨k, rfl, hk⟩ := Option.bind_eq_some_iff.1 hexisting
    exact .inl ⟨k, rfl, rfl, names_of_existing hk⟩
  · next hexisting =>
    dsimp only at h
    split at h
    · cases h
    · next sagaInstances hi =>
      cases h
      refine .inr ⟨fun k hk => ?_, rfl, ?_, rfl, fun id' => ?_⟩
      · subst hk
        exact not_names_of_existing hexisting
      · rw [identityOf, (Table.insert?_eq_some.1 hi).1, Option.map_none]
      · rw [identityOf, Table.find?_insert hi]
        split_ifs <;> rfl

end Start

section Steps
variable {db db' : DB}

theorem identityOf_moved {now : Time} {t : Transition} (h : Moved now t db db') :
    identityOf db' = identityOf db := by
  funext id
  rw [identityOf, h.sagaInstances, Table.find?_modify, identityOf]
  split_ifs
  · rw [Option.map_map]
    rfl
  · rfl

theorem identityOf_claimed {o : Orchestrator} {now : Time} {claimed : List Instance}
    (h : Claimed o now claimed db db') : identityOf db' = identityOf db := by
  funext id
  rw [identityOf, h.rows, Option.map_map, identityOf]
  congr 1
  funext r
  simp only [Function.comp_apply]
  split_ifs <;> rfl

theorem identityOf_same (h : db'.sagaInstances = db.sagaInstances) :
    identityOf db' = identityOf db := by
  funext id
  rw [identityOf, h, identityOf]

theorem identityOf_wrote {worker : Worker} {now : Time} {c : Call} {r : Reply c}
    (h : Wrote worker now db db' c r) : identityOf db' = identityOf db := by
  unfold Wrote at h
  split at h
  · exact identityOf_moved h.1
  · exact identityOf_moved h.1
  · exact identityOf_moved h.1
  · exact identityOf_same h.1
  · subst h
    exact identityOf_same rfl
  · obtain ⟨c, -, hstepped⟩ := h
    exact identityOf_moved hstepped.moved
  · obtain ⟨c, -, hstepped⟩ := h
    exact identityOf_moved hstepped.moved
  · exact identityOf_same h.sagaInstances

/-- Sagas stay what they were started as, and keys stay theirs. -/
structure Stays (db db' : DB) : Prop where
  names : ∀ {principalID key id p}, Names db principalID key id p →
    Names db' principalID key id p
  unique : KeysUnique db → KeysUnique db'

theorem stays_of_eq (h : identityOf db' = identityOf db) : Stays db db' := by
  refine ⟨fun hnames => ?_, fun hunique principalID key id id' p p' hnames hnames' => ?_⟩
  · rw [Names, h]
    exact hnames
  · rw [Names, h] at hnames hnames'
    exact hunique principalID key id id' p p' hnames hnames'

theorem start_stays {o : Orchestrator} {now untilDeadline : Time} {id : NewUUID} {p : Payload}
    {principalID : String} {key : Option String} {inst : Instance}
    (h : start o now untilDeadline id p principalID key db = .ok (inst, db')) : Stays db db' := by
  obtain ⟨k, -, rfl, -⟩ | ⟨hfree, -, hnew, -, hrows⟩ := start_eq_ok h
  · exact stays_of_eq rfl
  have hcases : ∀ {principal k id' q}, Names db' principal k id' q →
      (id' = id.1 ∧ q = p ∧ principal = principalID ∧ key = some k) ∨ Names db principal k id' q := by
    intro principal k id' q hnames
    rw [Names, hrows] at hnames
    split_ifs at hnames with hid
    · obtain ⟨rfl, rfl, rfl⟩ := Identity.mk.inj (Option.some.inj hnames)
      exact .inl ⟨hid, rfl, rfl, rfl⟩
    · exact .inr hnames
  refine ⟨fun {principal k id' q} hnames => ?_, fun hunique principal k id₁ id₂ q₁ q₂ h₁ h₂ => ?_⟩
  · rw [Names, hrows, if_neg]
    · exact hnames
    · rintro rfl
      rw [Names, hnew] at hnames
      cases hnames
  · rcases hcases h₁ with ⟨rfl, rfl, rfl, hk⟩ | h₁ <;> rcases hcases h₂ with ⟨rfl, rfl, hp, hk'⟩ | h₂
    · exact ⟨rfl, rfl⟩
    · exact absurd h₂ (hfree k hk id₂ q₂)
    · subst hp
      exact absurd h₁ (hfree k hk' id₁ q₁)
    · exact hunique principal k id₁ id₂ q₁ q₂ h₁ h₂

end Steps

theorem step_stays {R : Rules} {s s' : Sys} {a : Action} (h : s.Kept (discipline R))
    (hstep : s.step a = some s') : Stays s.world.db s'.world.db := by
  cases step_writes h hstep with
  | nothing same => exact stays_of_eq (identityOf_same same.sagaInstances)
  | claim claimed => exact stays_of_eq (identityOf_claimed claimed)
  | start started => exact start_stays started
  | call _ _ _ wrote => exact stays_of_eq (identityOf_wrote wrote)

theorem reach_stays {s s' : Sys} (hs : Sys.Reach (fun _ _ => True) .init s)
    (h : Sys.Reach (fun _ _ => True) s s') : Stays s.world.db s'.world.db := by
  induction h with
  | refl => exact stays_of_eq rfl
  | tail hreach hlast ih =>
    obtain ⟨a, -, hstep⟩ := hlast
    have hkept := (reach_kept (reach_mono (hs.trans hreach) fun s a _ => allowed_anything s a)
      init_kept).1
    have hstays := step_stays hkept hstep
    exact ⟨fun hnames => hstays.names (ih.names hnames), fun hunique =>
      hstays.unique (ih.unique hunique)⟩

theorem reach_keysUnique {s : Sys} (h : Sys.Reach (fun _ _ => True) .init s) :
    KeysUnique s.world.db := by
  refine (reach_stays .refl h).unique fun _ _ _ _ _ _ hnames => ?_
  cases hnames

/-- A start whose insert takes the system from `s` to `s'`. Where the insert does nothing, what is
returned is read later. -/
inductive Starts (s : Sys) (p : Payload) (principalID key : String) (inst : Instance) (s' : Sys) :
    Prop where
  | inserted {cfg : Config} {now untilDeadline : Time} {id : NewUUID} {db : DB}
      (free : create.existing s.world.db principalID key = none)
      (started : start (.new cfg) now untilDeadline id p principalID (some key) s.world.db =
        .ok (inst, db))
      (next : s' = { s with world := { s.world with db } })
  | found {t : Sys} (valid : validate p = .ok ())
      (taken : create.existing s.world.db principalID key ≠ none)
      (later : Sys.Reach (fun _ _ => True) s t)
      (read : getByIdempotencyKey principalID key t.world.db = .ok inst) (next : s' = s)

section Starts
variable {s s' : Sys} {p : Payload} {principalID key : String} {inst : Instance}

theorem starts_of_ok {cfg : Config} {now untilDeadline : Time} {id : NewUUID} {db : DB}
    (h : start (.new cfg) now untilDeadline id p principalID (some key) s.world.db =
      .ok (inst, db)) :
    Starts s p principalID key inst { s with world := { s.world with db } } := by
  cases hexisting : create.existing s.world.db principalID key with
  | none => exact .inserted hexisting h rfl
  | some found =>
    obtain ⟨_, hvalid, h⟩ := bind_eq_ok.1 h
    simp only [Saga.create, Option.bind_some, hexisting] at h
    cases h
    refine .found hvalid ?_ .refl ?_ rfl
    · rw [hexisting]
      exact Option.some_ne_none _
    · rw [getByIdempotencyKey, hexisting]

theorem Starts.reach (h : Starts s p principalID key inst s') :
    Sys.Reach (fun _ _ => True) s s' := by
  cases h with
  | @inserted cfg now untilDeadline id db free started next =>
    refine .single ⟨.start cfg now untilDeadline id p principalID (some key), trivial, ?_⟩
    rw [next, Sys.step, started]
  | found valid taken later read next => exact next ▸ .refl

theorem Starts.names (h : Starts s p principalID key inst s')
    (hs : Sys.Reach (fun _ _ => True) .init s) :
    Names s'.world.db principalID key inst.id inst.payload := by
  cases h with
  | inserted free started next =>
    obtain ⟨k, hk, -, hnames⟩ | ⟨-, hpayload, -, hid, hrows⟩ := start_eq_ok started
    · cases hk
      exact absurd hnames (not_names_of_existing free _ _)
    · rw [next, Names, hrows, if_pos hid, hpayload]
  | found valid taken later read next =>
    obtain ⟨⟨id, r⟩, hexisting⟩ := Option.ne_none_iff_exists'.1 taken
    have hnames := names_of_existing hexisting
    obtain ⟨hid, hpayload⟩ := reach_keysUnique (hs.trans later) _ _ _ _ _ _
      ((reach_stays hs later).names hnames) (getByIdempotencyKey_eq_ok read)
    rw [next, ← hid, ← hpayload]
    exact hnames

/-- The saga that a start returns has the payload that the start was given, unless the key named
another already. -/
theorem Starts.payload_iff (h : Starts s p principalID key inst s')
    (hs : Sys.Reach (fun _ _ => True) .init s) :
    inst.payload = p ↔ ∀ id q, Names s.world.db principalID key id q → q = p := by
  have hnames := h.names hs
  have hstays := reach_stays hs h.reach
  constructor
  · rintro rfl id q hq
    exact (reach_keysUnique (hs.trans h.reach) _ _ _ _ _ _ (hstays.names hq) hnames).2
  · intro hall
    cases h with
    | inserted free started next =>
      obtain ⟨k, hk, -, hnames⟩ | ⟨-, hpayload, -⟩ := start_eq_ok started
      · cases hk
        exact absurd hnames (not_names_of_existing free _ _)
      · exact hpayload
    | found valid taken later read next => exact hall _ _ (next ▸ hnames)

end Starts

/-- Two starts that use one key of a principal return what they were asked for if and only if they
ask for the same, and the key named no other payout before. -/
theorem payloads_iff {s s₁ t t₁ : Sys} {p q : Payload} {principalID key : String}
    {inst inst' : Instance} (hs : Sys.Reach (fun _ _ => True) .init s)
    (hfirst : Starts s p principalID key inst s₁) (hlater : Sys.Reach (fun _ _ => True) s₁ t)
    (hsecond : Starts t q principalID key inst' t₁) :
    (inst.payload = p ∧ inst'.payload = q) ↔
      (∀ id payload, Names s.world.db principalID key id payload → payload = p) ∧ q = p := by
  have hs₁ := hs.trans hfirst.reach
  have ht := hs₁.trans hlater
  have hnames := (reach_stays hs₁ (hlater.trans hsecond.reach)).names (hfirst.names hs)
  have hsame : inst.payload = inst'.payload :=
    (reach_keysUnique (ht.trans hsecond.reach) _ _ _ _ _ _ hnames (hsecond.names ht)).2
  rw [← hfirst.payload_iff hs, ← hsame]
  constructor
  · rintro ⟨rfl, rfl⟩
    exact ⟨rfl, rfl⟩
  · rintro ⟨rfl, rfl⟩
    exact ⟨rfl, rfl⟩

def sampleKey : String := "018f3c1e-0000-7000-8000-000000000001"

def sampleTwice (p q : Payload) : Except Error (Instance × Instance) := do
  let (inst, db) ← start (.new sampleConfig) 1 10 sampleFirst p "c" (some sampleKey) .empty
  let (inst', _) ← start (.new sampleConfig) 2 10 sampleSecond q "c" (some sampleKey) db
  return (inst, inst')

theorem sampleTwice_starts {p q : Payload} {inst inst' : Instance}
    (h : sampleTwice p q = .ok (inst, inst')) :
    ∃ s t, Starts .init p "c" sampleKey inst s ∧ Starts s q "c" sampleKey inst' t := by
  obtain ⟨⟨inst₁, db⟩, hfirst, h⟩ := bind_eq_ok.1 h
  obtain ⟨⟨inst₂, db'⟩, hsecond, h⟩ := bind_eq_ok.1 h
  cases h
  exact ⟨_, _, starts_of_ok (s := .init) hfirst, starts_of_ok hsecond⟩

theorem payloads_iff_retried : ∃ inst inst' s t,
    Starts .init samplePayload "c" sampleKey inst s ∧ Starts s samplePayload "c" sampleKey inst' t ∧
      inst.payload = samplePayload ∧ inst'.payload = samplePayload := by
  have hrun : (sampleTwice samplePayload samplePayload).map (fun r => r.2.id) = .ok 7 := by
    rfl
  obtain ⟨⟨inst, inst'⟩, hrun, -⟩ := map_eq_ok.1 hrun
  obtain ⟨s, t, hfirst, hsecond⟩ := sampleTwice_starts hrun
  obtain ⟨hpayload, hpayload'⟩ := (payloads_iff .refl hfirst .refl hsecond).2
    ⟨fun _ _ hnames => (nomatch hnames), rfl⟩
  exact ⟨inst, inst', s, t, hfirst, hsecond, hpayload, hpayload'⟩

/-- A key is used again for a payout of another amount, and answered with the first one's saga. -/
theorem other_payout_returned : ∃ inst inst' s t,
    Starts .init samplePayload "c" sampleKey inst s ∧
      Starts s { samplePayload with amountMinor := 700 } "c" sampleKey inst' t ∧
      inst'.id = inst.id ∧ inst'.payload.amountMinor = 500 := by
  have hrun : (sampleTwice samplePayload { samplePayload with amountMinor := 700 }).map
      (fun r => (r.1.id, r.2.id, r.2.payload.amountMinor)) = .ok (7, 7, 500) := by
    rfl
  obtain ⟨⟨inst, inst'⟩, hrun, hresult⟩ := map_eq_ok.1 hrun
  obtain ⟨s, t, hfirst, hsecond⟩ := sampleTwice_starts hrun
  simp only [Prod.mk.injEq] at hresult
  obtain ⟨hid, hid', hamount⟩ := hresult
  exact ⟨inst, inst', s, t, hfirst, hsecond, hid'.trans hid.symm, hamount⟩

end LedgerCore.Payout
