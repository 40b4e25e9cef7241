import LedgerCore.Payout.Confirmed
import LedgerCore.Payout.Requests

/-! Which transactions carry the reference of a payout, and in which order they were created. -/
namespace LedgerCore.Payout
open LedgerCore.Program LedgerCore.Saga Function
variable {txID id : UUID} {p : Payload} {R : Rules} {w w' : World} {s s' : Sys} {a : Action}
  {st st' : Status} {v v' : View}

def labelOf (db : DB) (txID : UUID) : Option (Option String × Time) :=
  (db.transactions.find? txID).map fun r => (r.externalRef, r.createdAt)

/-- No label is lost or changed, and a new one is of the time given, if there is one. -/
structure LabelsKept (now : Option Time) (db db' : DB) : Prop where
  kept : ∀ txID x, labelOf db txID = some x → labelOf db' txID = some x
  new : ∀ txID x, labelOf db' txID = some x → labelOf db txID = some x ∨ now = some x.2

theorem LabelsKept.of_eq {now : Option Time} {db db' : DB}
    (h : db'.transactions = db.transactions) : LabelsKept now db db' := by
  constructor
  · intro txID x hx
    rw [labelOf, h]
    exact hx
  · intro txID x hx
    rw [labelOf, h] at hx
    exact .inl hx

theorem labelOf_of_header {db : DB} {c : TransactionColumns} {r : TransactionRow}
    (hr : db.transactions.find? txID = some r) (h : Ledger.HeaderOf c r) :
    labelOf db txID = some (c.externalRef, c.createdAt) := by
  unfold Ledger.HeaderOf at h
  have href : r.externalRef = c.externalRef := by rw [h]
  have hcreated : r.createdAt = c.createdAt := by rw [h]
  rw [labelOf, hr, Option.map_some, href, hcreated]

theorem labelOf_committed {db db' : DB} {t : Ledger.Transaction} (h : Ledger.Committed db db' t) :
    labelOf db' t.id = some (t.externalRef, t.createdAt) := by
  obtain ⟨r, hr, hheader⟩ := h.header
  exact labelOf_of_header hr hheader

theorem labelsKept_of_committed {db db' : DB} {t : Ledger.Transaction}
    (h : Ledger.Committed db db' t) : LabelsKept (some t.createdAt) db db' := by
  have hkept : ∀ txID x, labelOf db txID = some x → labelOf db' txID = some x := by
    intro txID x hx
    obtain ⟨r, hr, rfl⟩ := Option.map_eq_some_iff.1 hx
    obtain ⟨r', hr', hheader⟩ := h.headers txID r hr
    exact labelOf_of_header hr' hheader
  refine ⟨hkept, fun txID x hx => ?_⟩
  obtain ⟨r', hr', -⟩ := Option.map_eq_some_iff.1 hx
  have hmem : txID ∈ db'.transactions.keys := Table.mem_keys.2 ⟨r', hr'⟩
  rw [h.keys, List.mem_append, List.mem_singleton] at hmem
  rcases hmem with hmem | rfl
  · obtain ⟨r, hr⟩ := Table.mem_keys.1 hmem
    have hlabel : labelOf db txID = some (r.externalRef, r.createdAt) := by
      rw [labelOf, hr, Option.map_some]
    rw [hkept txID _ hlabel] at hx
    exact .inl (hlabel.trans hx)
  · rw [labelOf_committed h] at hx
    exact .inr (congrArg some (congrArg Prod.snd (Option.some.inj hx)))

theorem externalRef_withKey {req : Ledger.TransactionRequest} :
    req.withKey.externalRef = req.externalRef := by
  unfold Ledger.TransactionRequest.withKey
  split <;> rfl

section Calls
variable {db db' : DB} {d : Ledger.Draws} {t : Ledger.Transaction}

theorem postTransaction_label {req : Ledger.TransactionRequest}
    (hooks : Ledger.Recording req.record)
    (h : Ledger.postTransaction d txID req db = .ok (t, db')) :
    LabelsKept (some d.now) db db' ∧ labelOf db' t.id = some (req.externalRef, d.now) := by
  have hcommitted := (Ledger.postTransaction_committed hooks h).1
  have hlabel : t.externalRef = req.externalRef ∧ t.createdAt = d.now := by
    obtain ⟨_, -, h⟩ := bind_eq_ok.1 h
    obtain ⟨s, hrun, -, rfl⟩ := Ledger.inTx_eq_ok h
    obtain ⟨_, s₁, outbox, s₂, -, rfl, -⟩ := Ledger.postTx_eq_ok hrun
    exact ⟨externalRef_withKey, rfl⟩
  rw [← hlabel.1, ← hlabel.2]
  exact ⟨labelsKept_of_committed hcommitted, labelOf_committed hcommitted⟩

theorem doReverse_label {reversalID : UUID} {reason : String} {idem : Option Ledger.Idempotent}
    {record : Option Ledger.Recorder} (hooks : Ledger.Recording record)
    (h : Ledger.doReverse d reversalID txID reason idem record db = .ok (t, db')) :
    LabelsKept (some d.now) db db' ∧ labelOf db' t.id = some (none, d.now) := by
  have hcommitted := (Ledger.doReverse_committed hooks h).1
  have hlabel : t.externalRef = none ∧ t.createdAt = d.now := by
    unfold Ledger.doReverse at h
    split_ifs at h
    obtain ⟨s, hrun, -, rfl⟩ := Ledger.inTx_eq_ok h
    obtain ⟨_, ⟨original, -, -, rfl⟩, -⟩ := Ledger.reverseTx_committed hooks hrun
    exact ⟨rfl, rfl⟩
  rw [← hlabel.1, ← hlabel.2]
  exact ⟨labelsKept_of_committed hcommitted, labelOf_committed hcommitted⟩

theorem recordStep_recording {o : Orchestrator} {inst : Instance} {delta : Int64} {ev : Stamp}
    {c : Commit} : Ledger.Recording (some (recordStep o inst p delta ev c)) := by
  rintro _ ⟨⟩ posted
  exact .bind (Prog.onlyCalls_perform trivial) fun _ =>
    .bind (Prog.onlyCalls_perform trivial) fun _ => Prog.onlyCalls_perform trivial

/-- The time at which a call of the ledger posts, if it does. -/
def postsAt : Ledger.LedgerOp → Option Time
  | .postTransaction d _ _ _ => some d.now
  | .reverseTransaction d _ _ _ _ _ _ => some d.now
  | _ => none

theorem outside_labels (op : Ledger.LedgerOp) : LabelsKept (postsAt op) db (op.apply db) := by
  unfold Ledger.LedgerOp.apply
  split
  · next db' h =>
    cases Ledger.LedgerOp.ran h with
    | opened ho => exact .of_eq ho.transactions
    | posted hooks hrun => exact (postTransaction_label hooks hrun).1
    | reversed hooks hrun => exact (doReverse_label hooks hrun).1
  · exact .of_eq rfl

end Calls

/-- The three steps that move money, with the reference of what they post. -/
def Posts (p : Payload) (source target : Status) (ref : Option String) : Prop :=
  (source = .pending ∧ target = .reserved ∧ ref = externalRef p) ∨
    (source = .gatewaySucceeded ∧ target = .completed ∧ ref = externalRef p) ∨
    (source = .compensating ∧ target = .compensated ∧ ref = none)

/-- The time of the database's transaction that an action posts in, if it does. -/
def Action.dated : Action → Option Time
  | .perform _ ch => some ch.draws.now
  | .ledger op => postsAt op
  | _ => none

/-- A step posts nothing for a saga, or it is one that moves the money of its worker's saga. -/
inductive Books (s : Sys) (a : Action) (s' : Sys) : Prop where
  | nothing (kept : LabelsKept a.dated s.world.db s'.world.db) (posted : s'.world.posted = s.world.posted)
  | posts {i : ℕ} {ch : Choice} {inst : Instance} {t : UUID} {source target : Status}
      {ref : Option String} (action : a = .perform i ch)
      (kept : LabelsKept a.dated s.world.db s'.world.db)
      (posted : s'.world.posted = s.world.posted ++ [⟨inst.id, t⟩])
      (label : labelOf s'.world.db t = some (ref, ch.draws.now))
      (saga : s.world.view.saga inst.id = some ⟨inst.payload, source⟩)
      (moved : s'.world.view.saga =
        update s.world.view.saga inst.id (some ⟨inst.payload, target⟩))
      (posts : Posts inst.payload source target ref)

/-- Nothing is posted: the ledger's tables are as they were. -/
structure Unposted (w w' : World) : Prop where
  accounts : w'.db.accounts = w.db.accounts
  transactions : w'.db.transactions = w.db.transactions
  journal : w'.db.journal = w.db.journal
  posted : w'.posted = w.posted

theorem plain_unposted {ch : Choice} {c : Call} {r : Reply c}
    (h : World.call id ch c w = some (r, w')) (hc : Plain R.refund c) : Unposted w w' := by
  cases c with
  | advance t =>
    obtain rfl | ⟨db, hdb, rfl⟩ := write_cases (Option.some.inj h)
    · exact ⟨rfl, rfl, rfl, rfl⟩
    · obtain ⟨r, -, -, rfl⟩ := advance_eq_ok.1 hdb
      exact ⟨rfl, rfl, rfl, rfl⟩
  | beginStep a t =>
    obtain rfl | ⟨db, hdb, rfl⟩ := write_cases (Option.some.inj h)
    · exact ⟨rfl, rfl, rfl, rfl⟩
    · obtain ⟨db₁, hins, hadvance⟩ := bind_eq_ok.1 hdb
      obtain ⟨sagaSteps, -, rfl⟩ := insertStep_eq_ok (mapError_eq_ok.1 hins)
      obtain ⟨r, -, -, rfl⟩ := advance_eq_ok.1 hadvance
      exact ⟨rfl, rfl, rfl, rfl⟩
  | escalate eventID t alert =>
    obtain rfl | ⟨db, hdb, rfl⟩ := write_cases (Option.some.inj h)
    · exact ⟨rfl, rfl, rfl, rfl⟩
    · obtain ⟨db₁, hadvance, happend⟩ := bind_eq_ok.1 hdb
      obtain ⟨r, -, -, rfl⟩ := advance_eq_ok.1 hadvance
      obtain ⟨outbox, -, rfl⟩ := Outbox.append_eq_ok (mapError_eq_ok.1 happend)
      exact ⟨rfl, rfl, rfl, rfl⟩
  | recordAttempt a =>
    obtain rfl | ⟨db, hdb, rfl⟩ := write_cases (Option.some.inj h)
    · exact ⟨rfl, rfl, rfl, rfl⟩
    · obtain ⟨sagaSteps, -, rfl⟩ := insertStep_eq_ok (mapError_eq_ok.1 hdb)
      exact ⟨rfl, rfl, rfl, rfl⟩
  | postTransaction req => exact hc.elim
  | reverseTransactionRecorded txID reason record => exact hc.elim
  | payAwait key request =>
    simp only [World.call] at h
    split at h
    · cases h
      exact ⟨rfl, rfl, rfl, rfl⟩
    · cases h
  | _ =>
    cases h
    exact ⟨rfl, rfl, rfl, rfl⟩

theorem perform_books {i : ℕ} {ch : Choice} (h : s.Kept (discipline R))
    (hstep : s.step (.perform i ch) = some s') : Books s (.perform i ch) s' := by
  obtain ⟨worker, c, k, r, w, htask, hcall, rfl⟩ := Pool.perform_eq_some hstep
  have hinv : s.world.view.Inv := h.valid
  have hasks : Asks R.refund worker s.world.view c := h.asks (List.mem_of_getElem? htask)
  cases c with
  | postTransaction req =>
    obtain ⟨rfl, -⟩ | ⟨t, db', hpost, -, rfl⟩ := ledger_cases (Option.some.inj hcall)
    · exact .nothing (.of_eq rfl) rfl
    · obtain ⟨hknown, attemptID, number, ev, ⟨-, rfl⟩ | ⟨-, rfl⟩⟩ := hasks
      · obtain ⟨hkept, hlabel⟩ := postTransaction_label recordStep_recording hpost
        obtain ⟨hsaga, -, -, -, hview⟩ :=
          postTransaction_view (l := s.world.posted) hinv hknown hpost
        exact .posts rfl hkept rfl hlabel hsaga (congrArg View.saga hview) (.inl ⟨rfl, rfl, rfl⟩)
      · obtain ⟨hkept, hlabel⟩ := postTransaction_label recordStep_recording hpost
        obtain ⟨hsaga, -, -, -, hview⟩ :=
          postTransaction_view (l := s.world.posted) hinv hknown hpost
        exact .posts rfl hkept rfl hlabel hsaga (congrArg View.saga hview)
          (.inr (.inl ⟨rfl, rfl, rfl⟩))
  | reverseTransactionRecorded txID reason record =>
    obtain ⟨rfl, -⟩ | ⟨t, db', hpost, -, rfl⟩ := ledger_cases (Option.some.inj hcall)
    · exact .nothing (.of_eq rfl) rfl
    · obtain ⟨hknown, -, hreserve, attemptID, number, ev, rfl⟩ := hasks
      obtain ⟨hkept, hlabel⟩ := doReverse_label recordStep_recording hpost
      obtain ⟨hsaga, -, -, -, hview⟩ := doReverse_view (l := s.world.posted) hinv hknown hpost rfl
      exact .posts rfl hkept rfl hlabel hsaga (congrArg View.saga hview)
        (.inr (.inr ⟨rfl, rfl, rfl⟩))
  | _ =>
    have hunposted := plain_unposted (R := R) hcall hasks
    exact .nothing (.of_eq hunposted.transactions) hunposted.posted

/-- Apart from the calls of sagas, only the ledger's other callers post. -/
theorem step_unposted (hstep : s.step a = some s') :
    (∃ i ch, a = .perform i ch) ∨
      (∃ op, a = .ledger op ∧ s'.world = { s.world with db := op.apply s.world.db }) ∨
      Unposted s.world s'.world := by
  cases a with
  | claim expired cfg now locked =>
    obtain rfl : s.claim expired (.new cfg) now locked = s' := Option.some.inj hstep
    cases expired with
    | true => exact .inr (.inr ⟨rfl, rfl, rfl, rfl⟩)
    | false => exact .inr (.inr ⟨rfl, rfl, rfl, rfl⟩)
  | perform i ch => exact .inl ⟨i, ch, rfl⟩
  | abandon i e =>
    obtain ⟨worker, c, k, r, -, -, rfl⟩ := Pool.abandon_eq_some hstep
    exact .inr (.inr ⟨rfl, rfl, rfl, rfl⟩)
  | start cfg now untilDeadline id p principalID key =>
    obtain rfl | ⟨inst, db', hstart, rfl⟩ := step_start hstep
    · exact .inr (.inr ⟨rfl, rfl, rfl, rfl⟩)
    obtain rfl | ⟨row, sagaInstances, -, -, -, rfl⟩ := start_cases hstart
    · exact .inr (.inr ⟨rfl, rfl, rfl, rfl⟩)
    · exact .inr (.inr ⟨rfl, rfl, rfl, rfl⟩)
  | ledger op =>
    obtain ⟨-, rfl⟩ := step_ledger hstep
    exact .inr (.inl ⟨op, rfl, rfl⟩)
  | deliver n d =>
    obtain ⟨_, _, -, rfl⟩ := step_deliver hstep
    exact .inr (.inr ⟨rfl, rfl, rfl, rfl⟩)
  | lose n =>
    obtain ⟨_, _, -, rfl⟩ := step_lose hstep
    exact .inr (.inr ⟨rfl, rfl, rfl, rfl⟩)
  | _ =>
    cases hstep
    exact .inr (.inr ⟨rfl, rfl, rfl, rfl⟩)

theorem step_books (h : s.Kept (discipline R)) (hstep : s.step a = some s') : Books s a s' := by
  obtain ⟨i, ch, rfl⟩ | ⟨op, rfl, hworld⟩ | hunposted := step_unposted hstep
  · exact perform_books h hstep
  · refine .nothing ?_ ?_
    · rw [hworld]
      exact outside_labels op
    · rw [hworld]
  · exact .nothing (.of_eq hunposted.transactions) hunposted.posted

/-- The transactions committed for a saga carry its reference, but for the reversal of its
reserve. -/
structure Labelled (w : World) (id : UUID) (p : Payload) (st : Status) : Prop where
  first : ∀ t ∈ (postedFor w.posted id).head?, ∃ created,
    labelOf w.db t = some (externalRef p, created)
  rest : ∀ t ∈ (postedFor w.posted id).tail, ∃ created,
    labelOf w.db t = some (if st = .compensated then none else externalRef p, created)

/-- The transactions committed for a saga, oldest first. -/
def Dated (w : World) (id : UUID) : Prop :=
  (postedFor w.posted id).Pairwise fun t t' =>
    ∀ x x', labelOf w.db t = some x → labelOf w.db t' = some x' → x.2 < x'.2

theorem Labelled.kept {now : Option Time} (h : Labelled w id p st)
    (hkept : LabelsKept now w.db w'.db) (hposted : postedFor w'.posted id = postedFor w.posted id)
    (hst : st' = .compensated ↔ st = .compensated) : Labelled w' id p st' := by
  constructor
  · intro t ht
    rw [hposted] at ht
    obtain ⟨created, hlabel⟩ := h.first t ht
    exact ⟨created, hkept.kept t _ hlabel⟩
  · intro t ht
    rw [hposted] at ht
    obtain ⟨created, hlabel⟩ := h.rest t ht
    simp only [hst]
    exact ⟨created, hkept.kept t _ hlabel⟩

theorem Edge.ne_compensated_iff {refund : Prop} {s t : Status} (h : Edge refund s t) :
    t = .compensated ↔ s = .compensated :=
  ⟨fun ht => absurd ht h.ne_compensated.2, fun hs => absurd hs h.ne_compensated.1⟩

theorem Move.unposted (hmove : Move R v v') (hposted : v'.posted = v.posted)
    (hs : v'.saga id = some ⟨p, st'⟩) :
    v.saga id = none ∨
      ∃ st, v.saga id = some ⟨p, st⟩ ∧ (st' = .compensated ↔ st = .compensated) := by
  have hconcat {q : Posting} : v.posted ++ [q] ≠ v.posted := by simp
  cases hmove with
  | quiet _ => exact .inr ⟨st', hs, Iff.rfl⟩
  | @start k q fresh valid =>
    rcases View.saga_move_eq_some hs with ⟨rfl, -, -⟩ | ⟨-, hs⟩
    · exact .inl fresh
    · exact .inr ⟨st', hs, Iff.rfl⟩
  | @advance k q source target saga edge =>
    rcases View.saga_move_eq_some hs with ⟨rfl, rfl, rfl⟩ | ⟨-, hs⟩
    · exact .inr ⟨source, saga, edge.ne_compensated_iff⟩
    · exact .inr ⟨st', hs, Iff.rfl⟩
  | post _ => exact .inr ⟨st', hs, Iff.rfl⟩
  | reverse _ _ _ => exact .inr ⟨st', hs, Iff.rfl⟩
  | reserve _ _ _ _ => exact absurd hposted hconcat
  | settle _ _ _ => exact absurd hposted hconcat
  | compensate _ _ _ _ _ => exact absurd hposted hconcat

theorem Move.posted_prefix (hmove : Move R v v') : v.posted <+: v'.posted := by
  rcases hmove.posted with heq | ⟨id, t, heq, -⟩
  · exact heq ▸ List.prefix_rfl
  · exact heq ▸ List.prefix_append _ _

theorem Later.posted_prefix (h : Later R v v') : v.posted <+: v'.posted := by
  induction h with
  | refl => exact List.prefix_rfl
  | tail _ hmove ih => exact ih.trans hmove.posted_prefix

theorem Later.unposted (h : Later R v v') (hposted : v'.posted = v.posted)
    (hs : v'.saga id = some ⟨p, st'⟩) :
    v.saga id = none ∨
      ∃ st, v.saga id = some ⟨p, st⟩ ∧ (st' = .compensated ↔ st = .compensated) := by
  induction h generalizing st' with
  | refl => exact .inr ⟨st', hs, Iff.rfl⟩
  | @tail u u' hlater hmove ih =>
    have hu : u.posted = v.posted := by
      have hle := hmove.posted_prefix.length_le
      rw [hposted] at hle
      exact ((Later.posted_prefix hlater).eq_of_length_le hle).symm
    rcases hmove.unposted (hposted.trans hu.symm) hs with hnone | ⟨st, hst, hiff⟩
    · -- A saga that was there would still be.
      refine .inl (Option.eq_none_iff_forall_ne_some.2 fun x hx => ?_)
      obtain ⟨st, hst, -⟩ := Later.saga (P := fun _ => True) hlater (fun _ _ => trivial)
        ⟨x.status, hx, trivial⟩
      exact nomatch hnone.symm.trans hst
    · rcases ih hu hst with hnone | ⟨st₀, hst₀, hiff₀⟩
      · exact .inl hnone
      · exact .inr ⟨st₀, hst₀, hiff.trans hiff₀⟩

theorem labelOf_posted (hinv : w.view.Inv) {t : UUID} (ht : t ∈ postedFor w.posted id) :
    ∃ x, labelOf w.db t = some x := by
  obtain ⟨st, hst⟩ := Option.ne_none_iff_exists'.1 (hinv.header_ne_none ht)
  obtain ⟨r, hr, -⟩ := header_eq_some hst
  exact ⟨_, by rw [labelOf, hr, Option.map_some]⟩

theorem Posts.before (hinv : w.view.Inv) {source target : Status} {ref : Option String}
    (h : Posts p source target ref) (hs : w.view.saga id = some ⟨p, source⟩) :
    (postedFor w.posted id = [] ∧ target = .reserved ∧ ref = externalRef p) ∨
      ∃ t, postedFor w.posted id = [t] ∧ source ≠ .compensated ∧
        ref = if target = .compensated then none else externalRef p := by
  have hmoney := hinv.money id p source hs
  obtain ⟨rfl, rfl, rfl⟩ | ⟨rfl, rfl, rfl⟩ | ⟨rfl, rfl, rfl⟩ := h
  · exact .inl ⟨hmoney.2, rfl, rfl⟩
  · obtain ⟨t, ht⟩ := hmoney
    exact .inr ⟨t, ht.posted, nofun, rfl⟩
  · obtain ⟨t, ht⟩ := hmoney
    exact .inr ⟨t, ht.posted, nofun, rfl⟩

/-- Every saga's transactions carry the references they should. -/
def References (w : World) : Prop :=
  ∀ id p st, w.view.saga id = some ⟨p, st⟩ → Labelled w id p st

theorem References.step (h : References s.world) (hkept : s.Kept (discipline R))
    (ha : Allowed R s a) (hstep : s.step a = some s') : References s'.world := by
  have hinv : s.world.view.Inv := hkept.valid
  have hlater := (step_kept hkept ha hstep).2
  intro id p st' hs
  cases step_books hkept hstep with
  | nothing kept posted =>
    obtain hnone | ⟨st, hst, hiff⟩ := hlater.unposted posted hs
    · have hempty : postedFor s'.world.posted id = [] := by
        rw [posted]
        exact (hinv.unknown id hnone).2
      constructor
      · intro t ht
        rw [hempty] at ht
        cases ht
      · intro t ht
        rw [hempty] at ht
        cases ht
    · exact (h id p st hst).kept kept (by rw [posted]) hiff
  | @posts i ch inst t source target ref action kept posted label saga moved posts =>
    rw [moved] at hs
    by_cases hid : id = inst.id
    · subst hid
      rw [update_self] at hs
      obtain ⟨rfl, rfl⟩ := Progress.mk.inj (Option.some.inj hs)
      obtain ⟨hnone, rfl, rfl⟩ | ⟨t₀, hone, hsource, rfl⟩ := posts.before hinv saga
      · have hlist : postedFor s'.world.posted inst.id = [t] := by
          rw [posted, postedFor_concat_self, hnone, List.nil_append]
        constructor
        · intro x hx
          rw [hlist] at hx
          obtain rfl := Option.some.inj hx
          exact ⟨_, label⟩
        · intro x hx
          rw [hlist] at hx
          cases hx
      · have hlist : postedFor s'.world.posted inst.id = [t₀, t] := by
          rw [posted, postedFor_concat_self, hone, List.singleton_append]
        constructor
        · intro x hx
          rw [hlist] at hx
          obtain rfl := Option.some.inj hx
          obtain ⟨created, hlabel⟩ := (h inst.id _ source saga).first t₀ (by rw [hone]; rfl)
          exact ⟨created, kept.kept t₀ _ hlabel⟩
        · intro x hx
          rw [hlist] at hx
          obtain rfl := List.mem_singleton.1 hx
          exact ⟨_, label⟩
    · rw [update_of_ne hid] at hs
      refine (h id p st' hs).kept kept ?_ Iff.rfl
      rw [posted, postedFor_concat_of_ne (Ne.symm hid)]

theorem reach_references (h : Sys.Reach (Allowed R) .init s) : References s.world := by
  induction h with
  | refl => exact fun _ _ _ hs => nomatch hs
  | tail hreach hstep ih =>
    obtain ⟨a, ha, hstep⟩ := hstep
    exact ih.step (reach_kept hreach init_kept).1 ha hstep

/-- The database's clock has moved on since a saga's transactions were created. -/
def Ticks (id : UUID) (s : Sys) : Action → Prop
  | .perform _ ch => ∀ t ∈ postedFor s.world.posted id, ∀ x ∈ labelOf s.world.db t, x.2 < ch.draws.now
  | _ => True

theorem Dated.kept {now : Option Time} (h : Dated w id) (hinv : w.view.Inv)
    (hkept : LabelsKept now w.db w'.db) :
    (postedFor w.posted id).Pairwise fun t t' =>
      ∀ x x', labelOf w'.db t = some x → labelOf w'.db t' = some x' → x.2 < x'.2 := by
  have hback {t : UUID} (ht : t ∈ postedFor w.posted id) {x : Option String × Time}
      (hx : labelOf w'.db t = some x) : labelOf w.db t = some x := by
    obtain ⟨y, hy⟩ := labelOf_posted hinv ht
    rw [hy, ← hkept.kept t y hy, hx]
  refine List.Pairwise.imp_of_mem ?_ h
  intro t t' ht ht' hlt x x' hx hx'
  exact hlt x x' (hback ht hx) (hback ht' hx')

theorem Dated.step (h : Dated s.world id) (hkept : s.Kept (discipline R)) (ha : Ticks id s a)
    (hstep : s.step a = some s') : Dated s'.world id := by
  have hinv : s.world.view.Inv := hkept.valid
  cases step_books hkept hstep with
  | nothing kept posted =>
    unfold Dated
    rw [posted]
    exact h.kept hinv kept
  | @posts i ch inst t source target ref action kept posted label saga moved posts =>
    unfold Dated
    rw [posted]
    by_cases hid : inst.id = id
    · subst hid action
      rw [postedFor_concat_self]
      refine List.pairwise_append.2 ⟨h.kept hinv kept, List.pairwise_singleton _ _, ?_⟩
      intro t₀ ht₀ t' ht' x x' hx hx'
      obtain rfl := List.mem_singleton.1 ht'
      obtain ⟨y, hy⟩ := labelOf_posted hinv ht₀
      have htick := ha t₀ ht₀ y hy
      rw [kept.kept t₀ y hy] at hx
      rw [label] at hx'
      cases hx
      cases hx'
      exact htick
    · rw [postedFor_concat_of_ne hid]
      exact h.kept hinv kept

theorem reach_dated (h : Sys.Reach (fun s a => Allowed R s a ∧ Ticks id s a) .init s) :
    Dated s.world id := by
  induction h with
  | refl => exact List.Pairwise.nil
  | tail hreach hstep ih =>
    obtain ⟨a, ⟨-, hticks⟩, hstep⟩ := hstep
    have hreach := reach_mono hreach fun _ _ h => h.1
    exact ih.step (reach_kept hreach init_kept).1 hticks hstep

/-- No transaction is younger. -/
def Until (last : Time) (db : DB) : Prop := ∀ txID x, labelOf db txID = some x → x.2 ≤ last

theorem Until.ticks {last : Time} (h : Until last s.world.db) (hlast : ∀ now ∈ a.dated, last < now)
    (id : UUID) : Ticks id s a := by
  cases a with
  | perform i ch => exact fun t _ x hx => Nat.lt_of_le_of_lt (h t x hx) (hlast _ rfl)
  | _ => trivial

theorem Books.labels (h : Books s a s') : LabelsKept a.dated s.world.db s'.world.db := by
  cases h with
  | nothing kept _ => exact kept
  | posts _ kept _ _ _ _ _ => exact kept

/-- A run over a strictly increasing clock ticks between the transactions of every saga. -/
theorem reach_of_clock {allowed : Sys → Action → Prop} {actions : List Action} {last : Time}
    (hkept : s.Kept (discipline anything)) (hlast : Until last s.world.db)
    (hclock : (last :: actions.filterMap Action.dated).Pairwise (· < ·))
    (hallowed : ∀ a ∈ actions, ∀ s, allowed s a) (h : s.run actions = some s') (id : UUID) :
    Sys.Reach (fun s a => Ticks id s a ∧ allowed s a) s s' := by
  induction actions generalizing s last with
  | nil =>
    cases h
    exact .refl
  | cons a actions ih =>
    obtain ⟨s₁, hstep, h⟩ := Option.bind_eq_some_iff.1 h
    have hkept₁ := (step_kept hkept (allowed_anything s a) hstep).1
    have hnew := (step_books hkept hstep).labels.new
    have hallowed₁ : ∀ b ∈ actions, ∀ s, allowed s b := fun b hb =>
      hallowed b (List.mem_cons_of_mem _ hb)
    cases hnow : a.dated with
    | none =>
      rw [List.filterMap_cons_none hnow] at hclock
      have hticks := hlast.ticks (by rw [hnow]; exact fun _ h => nomatch h) id
      refine .head ⟨a, ⟨hticks, hallowed a List.mem_cons_self s⟩, hstep⟩
        (ih hkept₁ (fun txID x hx => ?_) hclock hallowed₁ h)
      rcases hnew txID x hx with hold | hadded
      · exact hlast txID x hold
      · cases hnow.symm.trans hadded
    | some now =>
      rw [List.filterMap_cons_some hnow] at hclock
      obtain ⟨hafter, hclock⟩ := List.pairwise_cons.1 hclock
      have hlt : last < now := hafter now List.mem_cons_self
      have hticks : Ticks id s a := by
        refine hlast.ticks ?_ id
        rw [hnow]
        rintro _ ⟨⟩
        exact hlt
      refine .head ⟨a, ⟨hticks, hallowed a List.mem_cons_self s⟩, hstep⟩
        (ih hkept₁ (fun txID x hx => ?_) hclock hallowed₁ h)
      rcases hnew txID x hx with hold | hadded
      · exact Nat.le_of_lt (Nat.lt_of_le_of_lt (hlast txID x hold) hlt)
      · cases hnow.symm.trans hadded
        exact Nat.le_refl _

def SettlementPosted (id : UUID) (v : View) : Prop :=
  ∀ p, v.saga id = some ⟨p, .completed⟩ →
    ∀ t ∈ (postedFor v.posted id).tail, v.header t = some .posted

theorem Move.completed (hmove : Move R v v') (hinv : v.Inv)
    (hs : v'.saga id = some ⟨p, .completed⟩) :
    (v.saga id = some ⟨p, .completed⟩ ∧ postedFor v'.posted id = postedFor v.posted id) ∨
      ∃ t t', postedFor v'.posted id = [t, t'] ∧ v'.header t' = some .posted := by
  cases hmove with
  | quiet _ => exact .inl ⟨hs, rfl⟩
  | @start k q fresh valid =>
    rcases View.saga_move_eq_some hs with ⟨-, -, hst⟩ | ⟨-, hs⟩
    · cases hst
    · exact .inl ⟨hs, rfl⟩
  | @advance k q source target saga edge =>
    rcases View.saga_move_eq_some hs with ⟨-, -, rfl⟩ | ⟨-, hs⟩
    · cases source <;> exact edge.elim
    · exact .inl ⟨hs, rfl⟩
  | post _ => exact .inl ⟨hs, rfl⟩
  | reverse _ _ _ => exact .inl ⟨hs, rfl⟩
  | @reserve k q t saga fresh nonnil booked =>
    rcases View.saga_move_eq_some hs with ⟨-, -, hst⟩ | ⟨hk, hs⟩
    · cases hst
    · exact .inl ⟨hs, postedFor_concat_of_ne (Ne.symm hk) ..⟩
  | @settle k q t saga fresh booked =>
    rcases View.saga_move_eq_some hs with ⟨rfl, -, -⟩ | ⟨hk, hs⟩
    · obtain ⟨t₀, ht₀⟩ := hinv.money _ _ _ saga
      refine .inr ⟨t₀, t.id, ?_, update_self ..⟩
      exact (postedFor_concat_self ..).trans (by rw [ht₀.posted, List.singleton_append])
    · exact .inl ⟨hs, postedFor_concat_of_ne (Ne.symm hk) ..⟩
  | @compensate k q txID t saga reserve fresh posted mirror =>
    rcases View.saga_move_eq_some hs with ⟨-, -, hst⟩ | ⟨hk, hs⟩
    · cases hst
    · exact .inl ⟨hs, postedFor_concat_of_ne (Ne.symm hk) ..⟩

/-- The settlement of one saga is not reversed from outside. -/
def sparingSettlement (id : UUID) : Rules where
  refund := True
  reversible v txID :=
    ∀ p, v.saga id = some ⟨p, .completed⟩ → txID ∉ (postedFor v.posted id).tail

theorem Move.settlementPosted (hinv : v.Inv) (hmove : Move (sparingSettlement id) v v')
    (h : SettlementPosted id v) : SettlementPosted id v' := by
  intro p hs t ht
  obtain ⟨hs₀, hposted⟩ | ⟨t₀, t', hposted, hheader⟩ := hmove.completed hinv hs
  · rw [hposted] at ht
    rcases hmove.header (hinv.header_ne_none (List.mem_of_mem_tail ht)) with
      hsame | hreversible | ⟨k, q, -, hreserve, -⟩
    · exact hsame.trans (h p hs₀ t ht)
    · exact absurd ht (hreversible p hs₀)
    · exact absurd hreserve (hinv.ne_reserve ht)
  · rw [hposted] at ht
    obtain rfl := List.mem_singleton.1 ht
    exact hheader

def ReserveReversed (v : View) : Prop :=
  ∀ id p t, v.saga id = some ⟨p, .compensated⟩ → v.reserves id = [t] → v.header t = some .reversed

theorem Move.header_reversed (hmove : Move R v v') {t : UUID} (ht : v.header t = some .reversed) :
    v'.header t = some .reversed := by
  have hfresh {t' : UUID} (h : v.header t' = none) : t ≠ t' := by
    rintro rfl
    exact nomatch h.symm.trans ht
  have hposted {t' : UUID} (h : v.header t' = some .posted) : t ≠ t' := by
    rintro rfl
    exact nomatch h.symm.trans ht
  cases hmove with
  | post fresh => exact (update_of_ne (hfresh fresh) ..).trans ht
  | reverse fresh posted _ =>
    exact (update_of_ne (hfresh fresh) ..).trans ((update_of_ne (hposted posted) ..).trans ht)
  | reserve _ fresh _ _ => exact (update_of_ne (hfresh fresh) ..).trans ht
  | settle _ fresh _ => exact (update_of_ne (hfresh fresh) ..).trans ht
  | compensate _ _ fresh posted _ =>
    exact (update_of_ne (hfresh fresh) ..).trans ((update_of_ne (hposted posted) ..).trans ht)
  | _ => exact ht

theorem Move.compensated (hmove : Move R v v') (hs : v'.saga id = some ⟨p, .compensated⟩) :
    v.saga id = some ⟨p, .compensated⟩ ∨
      ∃ t, v.reserves id = [t] ∧ v'.header t = some .reversed := by
  cases hmove with
  | @start k q fresh valid =>
    rcases View.saga_move_eq_some hs with ⟨-, -, hst⟩ | ⟨-, hs⟩
    · cases hst
    · exact .inl hs
  | @advance k q source target saga edge =>
    rcases View.saga_move_eq_some hs with ⟨-, -, rfl⟩ | ⟨-, hs⟩
    · exact absurd rfl edge.ne_compensated.2
    · exact .inl hs
  | @reserve k q t saga fresh nonnil booked =>
    rcases View.saga_move_eq_some hs with ⟨-, -, hst⟩ | ⟨-, hs⟩
    · cases hst
    · exact .inl hs
  | @settle k q t saga fresh booked =>
    rcases View.saga_move_eq_some hs with ⟨-, -, hst⟩ | ⟨-, hs⟩
    · cases hst
    · exact .inl hs
  | @compensate k q txID t saga reserve fresh posted mirror =>
    rcases View.saga_move_eq_some hs with ⟨rfl, -, -⟩ | ⟨-, hs⟩
    · have hne : txID ≠ t.id := by
        rintro rfl
        exact nomatch fresh.symm.trans posted
      exact .inr ⟨txID, reserve, (update_of_ne hne ..).trans (update_self ..)⟩
    · exact .inl hs
  | _ => exact .inl hs

theorem Move.reserveReversed (hinv : v.Inv) (hmove : Move R v v') (h : ReserveReversed v) :
    ReserveReversed v' := by
  intro id p t hs ht
  have hsame {t₀ : UUID} (ht₀ : v.reserves id = [t₀]) : t₀ = t := by
    have hkept : v'.reserves id = [t₀] := Later.reserves (.single hmove) hinv ht₀
    simpa using hkept.symm.trans ht
  obtain hs₀ | ⟨t₀, ht₀, hreversed⟩ := hmove.compensated hs
  · obtain ⟨t₀, _, hreserved, -⟩ := hinv.money id p _ hs₀
    obtain rfl := hsame hreserved.reserves
    exact hmove.header_reversed (h id p t₀ hs₀ hreserved.reserves)
  · obtain rfl := hsame ht₀
    exact hreversed

def SparesSettlement (id : UUID) (s : Sys) (a : Action) : Prop :=
  ∀ txID ∈ a.reverses, ∀ p, s.world.view.saga id = some ⟨p, .completed⟩ →
    txID ∉ (postedFor s.world.posted id).tail

theorem SparesSettlement.allowed (h : SparesSettlement id s a) :
    Allowed (sparingSettlement id) s a := by
  cases a with
  | ledger op => exact h
  | perform i ch => exact .inl trivial
  | abandon i e => exact .inl trivial
  | _ => trivial

def Carries (w : World) (txID : UUID) (legs : List Ledger.EntryRequest) : Prop :=
  Booked w.view.parent legs (Ledger.transactionEntries txID w.db)

/-- The transactions of a payout by their references: the reversal of its reserve has none, the
settlement is created after the reserve, and both have the payout's. -/
structure Referenced (w : World) (id : UUID) (p : Payload) (st : Status) : Prop where
  legs : ∀ t ∈ postedFor w.posted id, (∃ created, labelOf w.db t = some (none, created)) ∨
    Carries w t (reserveLegs p) ∨ Carries w t (settleLegs p)
  completed : st = .completed → ∃ t t' created created', postedFor w.posted id = [t, t'] ∧
    labelOf w.db t = some (externalRef p, created) ∧
    labelOf w.db t' = some (externalRef p, created') ∧ created < created' ∧
    Holds w t' .posted (settleLegs p)
  compensated : st = .compensated → ∃ t t' created created', postedFor w.posted id = [t, t'] ∧
    labelOf w.db t = some (externalRef p, created) ∧ labelOf w.db t' = some (none, created') ∧
    Holds w t .reversed (reserveLegs p)

theorem referenced_of_posted (hcompleted : st ≠ .completed) (hcompensated : st ≠ .compensated)
    (hlegs : ∀ t ∈ postedFor w.posted id, Carries w t (reserveLegs p)) : Referenced w id p st where
  legs t ht := .inr (.inl (hlegs t ht))
  completed h := absurd h hcompleted
  compensated h := absurd h hcompensated

section Completed
variable {w : World} {id : UUID} {p : Payload} (hinv : w.view.Inv) (hlabels : References w)
include hinv hlabels

theorem referenced_completed (hdated : Dated w id) (hstands : SettlementPosted id w.view)
    (hs : w.view.saga id = some ⟨p, .completed⟩) : Referenced w id p .completed := by
  obtain ⟨t, t', ht, hbooked⟩ := hinv.money id p _ hs
  have hposted : postedFor w.posted id = [t, t'] := ht.posted
  obtain ⟨created, hlabel⟩ := (hlabels id p _ hs).first t (by rw [hposted]; rfl)
  obtain ⟨created', hlabel'⟩ := (hlabels id p _ hs).rest t' (by rw [hposted]; exact List.mem_cons_self)
  rw [if_neg nofun] at hlabel'
  have hheader := hstands p hs t' (by
    change t' ∈ (postedFor w.posted id).tail
    rw [hposted]
    exact List.mem_cons_self)
  have hlt : created < created' := by
    unfold Dated at hdated
    rw [hposted] at hdated
    exact (List.pairwise_cons.1 hdated).1 t' List.mem_cons_self _ _ hlabel hlabel'
  refine ⟨?_, fun _ => ?_, fun h => nomatch h⟩
  · intro x hx
    rw [hposted] at hx
    rcases List.mem_cons.1 hx with rfl | hx
    · exact .inr (.inl ht.booked)
    · obtain rfl := List.mem_singleton.1 hx
      exact .inr (.inr hbooked)
  · exact ⟨t, t', created, created', hposted, hlabel, hlabel', hlt, header_eq_some hheader, hbooked⟩

theorem referenced_compensated (hreversed : ReserveReversed w.view)
    (hs : w.view.saga id = some ⟨p, .compensated⟩) : Referenced w id p .compensated := by
  obtain ⟨t, t', ht, -⟩ := hinv.money id p _ hs
  have hposted : postedFor w.posted id = [t, t'] := ht.posted
  obtain ⟨created, hlabel⟩ := (hlabels id p _ hs).first t (by rw [hposted]; rfl)
  obtain ⟨created', hlabel'⟩ := (hlabels id p _ hs).rest t' (by rw [hposted]; exact List.mem_cons_self)
  rw [if_pos rfl] at hlabel'
  have hheader := hreversed id p t hs ht.reserves
  refine ⟨?_, (fun h => nomatch h), fun _ => ?_⟩
  · intro x hx
    rw [hposted] at hx
    rcases List.mem_cons.1 hx with rfl | hx
    · exact .inr (.inl ht.booked)
    · obtain rfl := List.mem_singleton.1 hx
      exact .inl ⟨created', hlabel'⟩
  · exact ⟨t, t', created, created', hposted, hlabel, hlabel', header_eq_some hheader, ht.booked⟩

end Completed

/-- In every run in which the database's clock moves on between the transactions of a saga, and
nobody outside reverses its settlement. -/
theorem reach_referenced (h : Sys.Reach (fun s a => Ticks id s a ∧ SparesSettlement id s a) .init s)
    (hs : s.world.view.saga id = some ⟨p, st⟩) : Referenced s.world id p st := by
  have hreach : Sys.Reach (fun s a => Allowed (sparingSettlement id) s a ∧ Ticks id s a) .init s :=
    reach_mono h fun _ _ ⟨hticks, hspares⟩ => ⟨hspares.allowed, hticks⟩
  have hallowed : Sys.Reach (Allowed (sparingSettlement id)) .init s :=
    reach_mono hreach fun _ _ h => h.1
  obtain ⟨hkept, hlater⟩ := reach_kept hallowed init_kept
  have hinv : s.world.view.Inv := hkept.valid
  have hlabels := reach_references hallowed
  have hmoney := hinv.money id p st hs
  cases st with
  | completed =>
    have hstands : SettlementPosted id s.world.view :=
      hlater.keeps init_inv Move.settlementPosted fun _ hs => nomatch hs
    exact referenced_completed hinv hlabels (reach_dated hreach) hstands hs
  | compensated =>
    have hreversed : ReserveReversed s.world.view :=
      hlater.keeps init_inv Move.reserveReversed fun _ _ _ hs => nomatch hs
    exact referenced_compensated hinv hlabels hreversed hs
  | pending | failed =>
    have hnone : postedFor s.world.posted id = [] := hmoney.2
    refine referenced_of_posted nofun nofun fun t ht => ?_
    rw [hnone] at ht
    cases ht
  | _ =>
    obtain ⟨t₀, ht₀⟩ := hmoney
    have hone : postedFor s.world.posted id = [t₀] := ht₀.posted
    refine referenced_of_posted nofun nofun fun t ht => ?_
    rw [hone] at ht
    obtain rfl := List.mem_singleton.1 ht
    exact ht₀.booked

end LedgerCore.Payout
