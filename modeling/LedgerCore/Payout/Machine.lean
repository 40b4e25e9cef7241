import LedgerCore.Payout.System

/-! Payouts as they are meant: a machine whose moves pair each status with the ledger
transactions it stands for. -/
namespace LedgerCore.Payout
open LedgerCore.Saga Function
variable {id t : UUID} {p : Payload} {st source target : Status}

/-- A saga as far as money is concerned. -/
structure Progress where
  payload : Payload
  status : Status
  deriving DecidableEq, Repr

structure View where
  /-- The sagas, oldest first. -/
  ids : List UUID
  saga : UUID → Option Progress
  header : UUID → Option Ledger.TransactionStatus
  entries : UUID → List Ledger.JournalEntry
  /-- The account that an account is a shard of. -/
  parent : UUID → Option UUID
  pending : UUID → ℤ
  /-- The transactions that a saga's attempts name as its reserve. -/
  reserves : UUID → List UUID
  posted : List Posting

/-- The entries of a transaction are the legs asked for, each on its account or on a shard. -/
def Booked (parent : UUID → Option UUID) : List Ledger.EntryRequest → List Ledger.JournalEntry → Prop :=
  List.Forall₂ fun r e => e.direction = r.direction ∧ e.amount = r.amount ∧
    (e.accountID = r.accountID ∨ parent e.accountID = some r.accountID)

/-- Each entry undone, in some order: same account, other side, same amount. -/
def Mirrors (es es' : List Ledger.JournalEntry) : Prop :=
  ∃ l, l.Perm es ∧ List.Forall₂ (fun e e' : Ledger.JournalEntry =>
    e'.accountID = e.accountID ∧ e'.direction = e.direction.opposite ∧ e'.amount = e.amount) l es'

/-- The wallet is debited into suspense. -/
def reserveLegs (p : Payload) : List Ledger.EntryRequest :=
  [⟨p.customerWalletID, .debit, ⟨p.amountMinor, p.currency⟩⟩,
   ⟨p.suspenseID, .credit, ⟨p.amountMinor, p.currency⟩⟩]

/-- Suspense is drained to the merchant and, if there is a fee, to fee revenue. -/
def settleLegs (p : Payload) : List Ledger.EntryRequest :=
  ⟨p.suspenseID, .debit, ⟨p.amountMinor, p.currency⟩⟩ ::
  ⟨p.merchantPayableID, .credit, ⟨merchantMinor p, p.currency⟩⟩ ::
  if p.feeMinor > 0 then [⟨p.feeRevenueID, .credit, ⟨p.feeMinor, p.currency⟩⟩] else []

namespace View

def record (v : View) (t : Ledger.Transaction) : View :=
  { v with header := update v.header t.id (some .posted), entries := update v.entries t.id t.entries }

def reverse (v : View) (txID : UUID) : View :=
  { v with header := update v.header txID (some .reversed) }

def move (v : View) (id : UUID) (p : Payload) (status : Status) : View :=
  { v with saga := update v.saga id (some ⟨p, status⟩) }

/-- A saga's step posts a transaction, moves the saga and changes the pending amount of its
suspense account, all at once. -/
def step (v : View) (id : UUID) (p : Payload) (status : Status) (t : Ledger.Transaction)
    (delta : ℤ) : View :=
  { (v.record t).move id p status with
    pending := update v.pending p.suspenseID (v.pending p.suspenseID + delta)
    posted := v.posted ++ [⟨id, t.id⟩] }

@[simp] theorem saga_move_self (v : View) (id : UUID) (p : Payload) (st : Status) :
    (v.move id p st).saga id = some ⟨p, st⟩ := update_self ..

@[simp] theorem saga_move_of_ne (v : View) {k : UUID} (h : k ≠ id) (p : Payload) (st : Status) :
    (v.move id p st).saga k = v.saga k := update_of_ne h ..

theorem header_reverse_of_ne (v : View) {txID x : UUID} (h : x ≠ txID) :
    (v.reverse txID).header x = v.header x := update_of_ne h ..

theorem saga_move_eq_some {v : View} {k : UUID} {p' : Payload} {st' : Status}
    (h : (v.move id p st).saga k = some ⟨p', st'⟩) :
    (k = id ∧ p' = p ∧ st' = st) ∨ (k ≠ id ∧ v.saga k = some ⟨p', st'⟩) := by
  by_cases hk : k = id
  · subst hk
    simp only [saga_move_self, Option.some.injEq, Progress.mk.injEq] at h
    exact .inl ⟨rfl, h.1.symm, h.2.symm⟩
  · rw [saga_move_of_ne v hk] at h
    exact .inr ⟨hk, h⟩

end View

/-- The changes of status that move no money. `refund` says whether a settle that failed may
turn a confirmed payment around. -/
def Edge (refund : Prop) : Status → Status → Prop
  | .pending, .pending => True
  | .pending, .failed => True
  | .reserved, .gatewayPending => True
  | .gatewayPending, .gatewayPending => True
  | .gatewayPending, .gatewaySucceeded => True
  | .gatewayPending, .gatewayFailed => True
  | .gatewayPending, .needsManualReview => True
  | .gatewaySucceeded, .gatewaySucceeded => True
  | .gatewaySucceeded, .compensating => refund
  | .gatewayFailed, .compensating => True
  | .compensating, .compensating => True
  | .compensating, .needsManualReview => True
  | .needsManualReview, .needsManualReview => True
  | _, _ => False

/-- What the world may do besides: turn confirmed payments around, and reverse transactions from
outside. -/
structure Rules where
  refund : Prop
  reversible : View → UUID → Prop

inductive Move (R : Rules) (v : View) : View → Prop where
  /-- Accounts are opened or split; sagas and transactions stay. -/
  | quiet {parent : UUID → Option UUID} (kept : ∀ id q, v.parent id = some q → parent id = some q) :
      Move R v { v with parent }
  | start {id : UUID} {p : Payload} (fresh : v.saga id = none) (valid : validate p = .ok ()) :
      Move R v { v.move id p .pending with ids := v.ids ++ [id] }
  | advance {id : UUID} {p : Payload} {source target : Status}
      (saga : v.saga id = some ⟨p, source⟩) (edge : Edge R.refund source target) :
      Move R v (v.move id p target)
  | post {t : Ledger.Transaction} (fresh : v.header t.id = none) : Move R v (v.record t)
  | reverse {txID : UUID} {t : Ledger.Transaction} (fresh : v.header t.id = none)
      (posted : v.header txID = some .posted) (allowed : R.reversible v txID) :
      Move R v ((v.reverse txID).record t)
  | reserve {id : UUID} {p : Payload} {t : Ledger.Transaction}
      (saga : v.saga id = some ⟨p, .pending⟩) (fresh : v.header t.id = none)
      (nonnil : t.id ≠ UUID.nil) (booked : Booked v.parent (reserveLegs p) t.entries) :
      Move R v { v.step id p .reserved t p.amountMinor.toInt with
        reserves := update v.reserves id (v.reserves id ++ [t.id]) }
  | settle {id : UUID} {p : Payload} {t : Ledger.Transaction}
      (saga : v.saga id = some ⟨p, .gatewaySucceeded⟩) (fresh : v.header t.id = none)
      (booked : Booked v.parent (settleLegs p) t.entries) :
      Move R v (v.step id p .completed t (-p.amountMinor.toInt))
  | compensate {id : UUID} {p : Payload} {txID : UUID} {t : Ledger.Transaction}
      (saga : v.saga id = some ⟨p, .compensating⟩) (reserve : v.reserves id = [txID])
      (fresh : v.header t.id = none) (posted : v.header txID = some .posted)
      (mirror : Mirrors (v.entries txID) t.entries) :
      Move R v ((v.reverse txID).step id p .compensated t (-p.amountMinor.toInt))

def Later (R : Rules) : View → View → Prop := Relation.ReflTransGen (Move R)

/-- A saga's reserve, and the transactions after it. -/
structure Reserved (v : View) (id : UUID) (p : Payload) (t : UUID) (rest : List UUID) : Prop where
  reserves : v.reserves id = [t]
  posted : postedFor v.posted id = t :: rest
  nonnil : t ≠ UUID.nil
  booked : Booked v.parent (reserveLegs p) (v.entries t)

/-- The transactions that each status stands for. -/
def Money (v : View) (id : UUID) (p : Payload) : Status → Prop
  | .pending => v.reserves id = [] ∧ postedFor v.posted id = []
  | .failed => v.reserves id = [] ∧ postedFor v.posted id = []
  | .completed => ∃ t t', Reserved v id p t [t'] ∧ Booked v.parent (settleLegs p) (v.entries t')
  | .compensated => ∃ t t', Reserved v id p t [t'] ∧ Mirrors (v.entries t) (v.entries t')
  | _ => ∃ t, Reserved v id p t []

structure View.Inv (v : View) : Prop where
  nodup : v.ids.Nodup
  ids : ∀ id, id ∈ v.ids ↔ v.saga id ≠ none
  entries : ∀ txID, v.header txID = none → v.entries txID = []
  headers : ∀ q ∈ v.posted, v.header q.transactionID ≠ none
  distinct : (v.posted.map Posting.transactionID).Nodup
  unknown : ∀ id, v.saga id = none → v.reserves id = [] ∧ postedFor v.posted id = []
  valid : ∀ id p st, v.saga id = some ⟨p, st⟩ → validate p = .ok ()
  money : ∀ id p st, v.saga id = some ⟨p, st⟩ → Money v id p st

theorem mem_postedFor {l : List Posting} : t ∈ postedFor l id ↔ ⟨id, t⟩ ∈ l := by
  simp only [postedFor, List.mem_map, List.mem_filter, decide_eq_true_eq]
  exact ⟨fun ⟨⟨_, _⟩, ⟨hq, hid⟩, ht⟩ => hid ▸ ht ▸ hq, fun h => ⟨_, ⟨h, rfl⟩, rfl⟩⟩

theorem postedFor_concat_self (l : List Posting) (id t : UUID) :
    postedFor (l ++ [⟨id, t⟩]) id = postedFor l id ++ [t] := by
  simp [postedFor]

theorem postedFor_concat_of_ne {id' : UUID} (h : id' ≠ id) (l : List Posting) (t : UUID) :
    postedFor (l ++ [⟨id', t⟩]) id = postedFor l id := by
  simp [postedFor, h]

theorem Booked.mono {parent parent' : UUID → Option UUID} {rs : List Ledger.EntryRequest}
    {es : List Ledger.JournalEntry} (h : Booked parent rs es)
    (hp : ∀ a q, parent a = some q → parent' a = some q) : Booked parent' rs es :=
  h.imp fun _ _ ⟨hd, ha, hacc⟩ => ⟨hd, ha, hacc.imp_right (hp _ _)⟩

section Mono
variable {v v' : View} {id : UUID} {p : Payload}
  (hr : v'.reserves id = v.reserves id)
  (hposted : postedFor v'.posted id = postedFor v.posted id)
  (hparent : ∀ a q, v.parent a = some q → v'.parent a = some q)
  (he : ∀ t ∈ postedFor v.posted id, v'.entries t = v.entries t)
include hr hposted hparent he

theorem Reserved.mono {rest : List UUID} (h : Reserved v id p t rest) :
    Reserved v' id p t rest := by
  refine ⟨hr.trans h.reserves, hposted.trans h.posted, h.nonnil, ?_⟩
  rw [he t (by simp [h.posted])]
  exact h.booked.mono hparent

theorem Money.mono (h : Money v id p st) : Money v' id p st := by
  have hreserved : ∀ {t rest}, Reserved v id p t rest → Reserved v' id p t rest :=
    Reserved.mono hr hposted hparent he
  cases st with
  | pending => exact ⟨hr.trans h.1, hposted.trans h.2⟩
  | failed => exact ⟨hr.trans h.1, hposted.trans h.2⟩
  | completed =>
    obtain ⟨t, t', ht, hbooked⟩ := h
    refine ⟨t, t', hreserved ht, ?_⟩
    rw [he t' (by simp [ht.posted])]
    exact hbooked.mono hparent
  | compensated =>
    obtain ⟨t, t', ht, hmirror⟩ := h
    refine ⟨t, t', hreserved ht, ?_⟩
    rw [he t (by simp [ht.posted]), he t' (by simp [ht.posted])]
    exact hmirror
  | _ => exact h.imp fun t ht => hreserved ht

end Mono

theorem Edge.money {refund : Prop} {v : View} (h : Edge refund source target)
    (hm : Money v id p source) : Money v id p target := by
  cases source <;> cases target <;> first | exact hm | exact h.elim

namespace View.Inv
variable {v : View}

theorem posted_ne (h : v.Inv) (id : UUID) {t' : UUID} (fresh : v.header t = none)
    (ht : t' ∈ postedFor v.posted id) : t' ≠ t := by
  rintro rfl
  exact h.headers _ (mem_postedFor.1 ht) fresh

theorem ledger {header : UUID → Option Ledger.TransactionStatus}
    {entries : UUID → List Ledger.JournalEntry} (h : v.Inv)
    (hnone : ∀ x, header x = none → entries x = [])
    (hold : ∀ x, v.header x ≠ none → header x ≠ none ∧ entries x = v.entries x) :
    ({ v with header, entries } : View).Inv where
  nodup := h.nodup
  ids := h.ids
  entries := hnone
  headers := fun q hq => (hold _ (h.headers q hq)).1
  distinct := h.distinct
  unknown := h.unknown
  valid := h.valid
  money := fun id p st hs => by
    refine Money.mono ?_ ?_ ?_ ?_ (h.money id p st hs)
    exacts [rfl, rfl, fun _ _ hq => hq,
      fun t ht => (hold t (h.headers _ (mem_postedFor.1 ht))).2]

theorem record (h : v.Inv) {t : Ledger.Transaction} (fresh : v.header t.id = none) :
    (v.record t).Inv := by
  refine h.ledger (fun x hx => ?_) fun x hx => ?_
  · by_cases hid : x = t.id
    · simp [hid] at hx
    · rw [update_of_ne hid] at hx ⊢
      exact h.entries x hx
  · have hid : x ≠ t.id := by
      rintro rfl
      exact hx fresh
    rw [update_of_ne hid, update_of_ne hid]
    exact ⟨hx, rfl⟩

theorem reverse (h : v.Inv) (txID : UUID) : (v.reverse txID).Inv := by
  refine h.ledger (fun x hx => ?_) fun x hx => ⟨?_, rfl⟩
  · by_cases hid : x = txID
    · simp [hid] at hx
    · rw [update_of_ne hid] at hx
      exact h.entries x hx
  · by_cases hid : x = txID
    · simp [hid]
    · rwa [update_of_ne hid]

theorem move (h : v.Inv) (saga : v.saga id = some ⟨p, source⟩) (hm : Money v id p target) :
    (v.move id p target).Inv := by
  have hnone : ∀ k, (v.move id p target).saga k = none ↔ v.saga k = none := fun k => by
    by_cases hk : k = id
    · simp [hk, saga]
    · simp [hk]
  have hkept : ∀ {k q st}, Money v k q st → Money (v.move id p target) k q st := fun hq => by
    refine Money.mono ?_ ?_ ?_ ?_ hq
    exacts [rfl, rfl, fun _ _ hq => hq, fun _ _ => rfl]
  refine ⟨h.nodup, fun k => ?_, h.entries, h.headers, h.distinct, fun k hk => ?_, ?_, ?_⟩
  · rw [ne_eq, hnone]
    exact h.ids k
  · exact h.unknown k ((hnone k).1 hk)
  · intro k p' st hk
    rcases View.saga_move_eq_some hk with ⟨rfl, rfl, rfl⟩ | ⟨-, hk⟩
    · exact h.valid _ _ _ saga
    · exact h.valid k p' st hk
  · intro k p' st hk
    rcases View.saga_move_eq_some hk with ⟨rfl, rfl, rfl⟩ | ⟨-, hk⟩
    · exact hkept hm
    · exact hkept (h.money k p' st hk)

theorem step (h : v.Inv) {t : Ledger.Transaction} {delta : ℤ} {reserves : UUID → List UUID}
    (saga : v.saga id = some ⟨p, source⟩) (fresh : v.header t.id = none)
    (hreserves : ∀ k ≠ id, reserves k = v.reserves k)
    (hm : Money { v.step id p target t delta with reserves } id p target) :
    ({ v.step id p target t delta with reserves } : View).Inv := by
  have hr := h.record fresh
  have hother : ∀ {k st q}, k ≠ id → Money (v.record t) k q st →
      Money { v.step id p target t delta with reserves } k q st := fun hk hq => by
    refine Money.mono ?_ ?_ ?_ ?_ hq
    exacts [hreserves _ hk, postedFor_concat_of_ne hk.symm .., fun _ _ hq => hq, fun _ _ => rfl]
  refine ⟨h.nodup, fun k => ?_, hr.entries, ?_, ?_, ?_, ?_, ?_⟩
  · change k ∈ v.ids ↔ (v.move id p target).saga k ≠ none
    by_cases hk : k = id
    · simp [hk, h.ids, saga]
    · simp [hk, h.ids]
  · intro q hq
    rcases List.mem_append.1 hq with hq | hq
    · exact hr.headers q hq
    · rw [List.mem_singleton.1 hq]
      simp [View.step, View.record, View.move]
  · change ((v.posted ++ [(⟨id, t.id⟩ : Posting)]).map Posting.transactionID).Nodup
    rw [List.map_append, List.nodup_append]
    refine ⟨h.distinct, by simp, fun a ha b hb => ?_⟩
    obtain ⟨q, hq, rfl⟩ := List.mem_map.1 ha
    rw [List.map_singleton, List.mem_singleton] at hb
    rintro rfl
    exact h.headers q hq (hb ▸ fresh)
  · intro k hk
    have hkid : k ≠ id := by
      rintro rfl
      simp [View.step, View.move] at hk
    have hk' : v.saga k = none := by
      rwa [← View.saga_move_of_ne v hkid p target]
    obtain ⟨h₁, h₂⟩ := h.unknown k hk'
    exact ⟨(hreserves k hkid).trans h₁, (postedFor_concat_of_ne hkid.symm ..).trans h₂⟩
  · intro k p' st hk
    rcases View.saga_move_eq_some hk with ⟨rfl, rfl, rfl⟩ | ⟨-, hk⟩
    · exact h.valid _ _ _ saga
    · exact h.valid k p' st hk
  · intro k p' st hk
    rcases View.saga_move_eq_some hk with ⟨rfl, rfl, rfl⟩ | ⟨hkid, hk⟩
    · exact hm
    · exact hother hkid (hr.money k p' st hk)

end View.Inv

theorem Move.inv {R : Rules} {v v' : View} (hmove : Move R v v') (h : v.Inv) : v'.Inv := by
  cases hmove with
  | quiet kept =>
    refine ⟨h.nodup, h.ids, h.entries, h.headers, h.distinct, h.unknown, h.valid, ?_⟩
    intro id p st hs
    refine Money.mono ?_ ?_ ?_ ?_ (h.money id p st hs)
    exacts [rfl, rfl, kept, fun _ _ => rfl]
  | @start id p fresh valid =>
    have hid : id ∉ v.ids := fun hmem => (h.ids id).1 hmem fresh
    refine ⟨?_, fun k => ?_, h.entries, h.headers, h.distinct, fun k hk => ?_, ?_, ?_⟩
    · exact List.nodup_append.2 ⟨h.nodup, by simp, fun a ha b hb e => hid (by simp_all)⟩
    · change k ∈ v.ids ++ [id] ↔ (v.move id p .pending).saga k ≠ none
      by_cases hk : k = id
      · simp [hk]
      · simp [hk, h.ids]
    · have hkid : k ≠ id := by
        rintro rfl
        simp [View.move] at hk
      exact h.unknown k (by rwa [← View.saga_move_of_ne v hkid p .pending])
    · intro k p' st hk
      rcases View.saga_move_eq_some hk with ⟨-, rfl, -⟩ | ⟨-, hk⟩
      · exact valid
      · exact h.valid k p' st hk
    · intro k p' st hk
      have hm : Money v k p' st := by
        rcases View.saga_move_eq_some hk with ⟨rfl, rfl, rfl⟩ | ⟨-, hk⟩
        · exact h.unknown k fresh
        · exact h.money k p' st hk
      refine Money.mono ?_ ?_ ?_ ?_ hm
      exacts [rfl, rfl, fun _ _ hq => hq, fun _ _ => rfl]
  | advance saga edge => exact h.move saga (edge.money (h.money _ _ _ saga))
  | post fresh => exact h.record fresh
  | reverse fresh posted _ =>
    refine (h.reverse _).record ((View.header_reverse_of_ne v fun e => ?_).trans fresh)
    simp [← e, fresh] at posted
  | @reserve id p t saga fresh nonnil booked =>
    obtain ⟨hreserves, hposted⟩ := h.money _ _ _ saga
    refine h.step saga fresh (fun k hk => update_of_ne hk ..) ⟨t.id, ?_, ?_, nonnil, ?_⟩
    · simp [hreserves]
    · exact (postedFor_concat_self ..).trans (by rw [hposted, List.nil_append])
    · simpa [View.step, View.record, View.move] using booked
  | @settle id p t saga fresh booked =>
    obtain ⟨t₀, ht₀⟩ := h.money _ _ _ saga
    have hne : t₀ ≠ t.id := h.posted_ne id fresh (by simp [ht₀.posted])
    refine h.step saga fresh (fun _ _ => rfl) ⟨t₀, t.id, ⟨ht₀.reserves, ?_, ht₀.nonnil, ?_⟩, ?_⟩
    · exact (postedFor_concat_self ..).trans (by rw [ht₀.posted]; rfl)
    · simpa [View.step, View.record, View.move, hne] using ht₀.booked
    · simpa [View.step, View.record, View.move] using booked
  | @compensate id p txID t saga reserve fresh posted mirror =>
    obtain ⟨t₀, ht₀⟩ := h.money _ _ _ saga
    obtain rfl : t₀ = txID := by simpa [reserve] using ht₀.reserves.symm
    have hne : t₀ ≠ t.id := h.posted_ne id fresh (by simp [ht₀.posted])
    refine (h.reverse t₀).step saga ((View.header_reverse_of_ne v hne.symm).trans fresh) (fun _ _ => rfl)
      ⟨t₀, t.id, ⟨ht₀.reserves, ?_, ht₀.nonnil, ?_⟩, ?_⟩
    · exact (postedFor_concat_self ..).trans (by rw [View.reverse, ht₀.posted]; rfl)
    · simpa [View.step, View.record, View.move, View.reverse, hne] using ht₀.booked
    · simpa [View.step, View.record, View.move, View.reverse, hne] using mirror

theorem Later.inv {R : Rules} {v v' : View} (h : Later R v v') (hi : v.Inv) : v'.Inv := by
  induction h with
  | refl => exact hi
  | tail _ hmove ih => exact hmove.inv ih

/-- A fact that every move keeps is kept by any number of them. -/
theorem Later.keeps {R : Rules} {v v' : View} {P : View → Prop} (h : Later R v v') (hi : v.Inv)
    (hstep : ∀ {u u'}, u.Inv → Move R u u' → P u → P u') (hp : P v) : P v' := by
  induction h with
  | refl => exact hp
  | tail hlater hmove ih => exact hstep (Later.inv hlater hi) hmove ih

/-- The transitions of a saga, those that move money included. -/
def Transitions (refund : Prop) (source target : Status) : Prop :=
  Edge refund source target ∨ (source = .pending ∧ target = .reserved) ∨
    (source = .gatewaySucceeded ∧ target = .completed) ∨
    (source = .compensating ∧ target = .compensated)

theorem Move.saga {R : Rules} {v v' : View} (hmove : Move R v v') (hs : v.saga id = some ⟨p, st⟩) :
    ∃ st', v'.saga id = some ⟨p, st'⟩ ∧ (st' = st ∨ Transitions R.refund st st') := by
  have hmoved : ∀ {k q source target}, v.saga k = some ⟨q, source⟩ →
      Transitions R.refund source target → ∃ st', (v.move k q target).saga id = some ⟨p, st'⟩ ∧
        (st' = st ∨ Transitions R.refund st st') := by
    intro k q source target hk ht
    by_cases hid : id = k
    · subst hid
      obtain ⟨rfl, rfl⟩ := Progress.mk.inj (Option.some.inj (hk.symm.trans hs))
      exact ⟨target, by simp, .inr ht⟩
    · exact ⟨st, by simp [hid, hs], .inl rfl⟩
  cases hmove with
  | quiet _ => exact ⟨st, hs, .inl rfl⟩
  | @start k q fresh valid =>
    have hid : id ≠ k := by
      rintro rfl
      simp [fresh] at hs
    exact ⟨st, (View.saga_move_of_ne v hid ..).trans hs, .inl rfl⟩
  | advance saga edge => exact hmoved saga (.inl edge)
  | post _ => exact ⟨st, hs, .inl rfl⟩
  | reverse _ _ _ => exact ⟨st, hs, .inl rfl⟩
  | reserve saga _ _ _ => exact hmoved saga (.inr (.inl ⟨rfl, rfl⟩))
  | settle saga _ _ => exact hmoved saga (.inr (.inr (.inl ⟨rfl, rfl⟩)))
  | compensate saga _ _ _ _ => exact hmoved saga (.inr (.inr (.inr ⟨rfl, rfl⟩)))

/-- A set of statuses that no transition leaves is never left. -/
theorem Later.saga {R : Rules} {v v' : View} (h : Later R v v') {P : Status → Prop}
    (hclosed : ∀ {s t}, P s → Transitions R.refund s t → P t)
    (hs : ∃ st, v.saga id = some ⟨p, st⟩ ∧ P st) : ∃ st, v'.saga id = some ⟨p, st⟩ ∧ P st := by
  induction h with
  | refl => exact hs
  | tail _ hmove ih =>
    obtain ⟨st, hst, hp⟩ := ih
    obtain ⟨st', hst', rfl | ht⟩ := hmove.saga hst
    · exact ⟨_, hst', hp⟩
    · exact ⟨st', hst', hclosed hp ht⟩

/-- The statuses that a compensation can be met in. -/
def Reversing : Status → Prop
  | .compensating | .compensated | .needsManualReview => True
  | _ => False

theorem Reversing.closed {refund : Prop} {s t : Status} (h : Reversing s)
    (ht : Transitions refund s t) : Reversing t := by
  cases s <;> cases t <;> simp_all [Reversing, Transitions, Edge]

theorem Later.reserves {R : Rules} {v v' : View} (h : Later R v v') (hi : v.Inv)
    (ht : v.reserves id = [t]) : v'.reserves id = [t] := by
  refine Later.keeps (P := fun v => v.reserves id = [t]) h hi (fun {u u'} hu hmove ht => ?_) ht
  cases hmove with
  | @reserve k p t' saga _ _ _ =>
    have hk : id ≠ k := by
      rintro rfl
      simp [(hu.money _ _ _ saga).1] at ht
    simpa [hk] using ht
  | _ => exact ht

end LedgerCore.Payout
