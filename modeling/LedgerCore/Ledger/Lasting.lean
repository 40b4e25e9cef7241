import LedgerCore.Ledger.Overdraft
import LedgerCore.Ledger.Postable
import LedgerCore.Ledger.Rejections

/-! What lasts in a ledger, whatever else happens to its database. -/
namespace LedgerCore.Ledger
open LedgerCore.Program

/-- A change of the database: a call of the ledger, an operator's update of an account, or
anything in the tables that the ledger's accounts and journal do not depend on. -/
inductive Evolves : DB → DB → Prop where
  | ledger (db : DB) (op : LedgerOp) : Evolves db (op.apply db)
  | allowNegative {db db' : DB} {now : Time} {id : UUID} {flag : Bool}
      (h : setAllowNegative now id flag db = .ok db') : Evolves db db'
  | status (db : DB) (id : UUID) (status : AccountStatus) : Evolves db (setStatus id status db)
  | others (db : DB) (outbox : Table UUID Event)
      (idempotencyKeys : Table (String × String) RecordRow) (sagaInstances : Table UUID SagaRow)
      (sagaSteps : Table UUID StepRow) :
      Evolves db { db with outbox, idempotencyKeys, sagaInstances, sagaSteps }

structure Regular (db : DB) : Prop where
  referenced : Referenced db
  doubleEntries : DoubleEntries db
  bounded : Bounded db
  shards : Shards SameKind db

/-- What lasts: the currency of an account, and that a transaction is not posted any more. -/
structure Lasting (db db' : DB) : Prop where
  currency : ∀ id r, db.accounts.find? id = some r →
    ∃ r', db'.accounts.find? id = some r' ∧ r'.currency = r.currency
  settled : ∀ txID status, statusOf txID db = some status → status ≠ .posted →
    ∃ status', statusOf txID db' = some status' ∧ status' ≠ .posted

variable {db db' db'' : DB}

theorem Lasting.refl (db : DB) : Lasting db db :=
  ⟨fun _ r hr => ⟨r, hr, rfl⟩, fun _ status hs hne => ⟨status, hs, hne⟩⟩

theorem Lasting.trans (h : Lasting db db') (h' : Lasting db' db'') : Lasting db db'' := by
  refine ⟨fun id r hr => ?_, fun txID status hs hne => ?_⟩
  · obtain ⟨r', hr', hc⟩ := h.currency id r hr
    obtain ⟨r'', hr'', hc'⟩ := h'.currency id r' hr'
    exact ⟨r'', hr'', hc'.trans hc⟩
  · obtain ⟨status', hs', hne'⟩ := h.settled txID status hs hne
    exact h'.settled txID status' hs' hne'

theorem regular_empty : Regular .empty where
  referenced := ⟨fun _ h => (nomatch h), fun _ h => (nomatch h)⟩
  doubleEntries _ h := nomatch h
  bounded _ h := nomatch h
  shards := shards_empty _

theorem Regular.modify (h : Regular db) (id : UUID) {f : AccountRow → AccountRow}
    (hparent : ∀ r, (f r).parentAccountID = r.parentAccountID)
    (hkind : ∀ r, SameKind r (f r)) :
    Regular { db with accounts := db.accounts.modify id f } ∧
      Lasting db { db with accounts := db.accounts.modify id f } := by
  -- Every account stays, of its kind.
  have hkept (id' : UUID) (r : AccountRow) (hr : db.accounts.find? id' = some r) :
      ∃ r', (db.accounts.modify id f).find? id' = some r' ∧
        r'.parentAccountID = r.parentAccountID ∧ SameKind r r' := by
    rw [Table.find?_modify, hr]
    split_ifs
    · exact ⟨f r, rfl, hparent r, hkind r⟩
    · exact ⟨r, rfl, rfl, rfl, rfl⟩
  refine ⟨⟨⟨h.referenced.headers, fun e he => ?_⟩, h.doubleEntries, h.bounded, ?_⟩,
    fun id' r hr => ?_, fun _ status hs hne => ⟨status, hs, hne⟩⟩
  · obtain ⟨r, hr, hcurrency⟩ := h.referenced.accounts e he
    obtain ⟨r', hr', -, hsame⟩ := hkept e.accountID r hr
    exact ⟨r', hr', hsame.currency.trans hcurrency⟩
  · intro id' r' p hr' hp
    have hold : ∃ r, db.accounts.find? id' = some r ∧ r'.parentAccountID = r.parentAccountID ∧
        SameKind r r' := by
      cases hr : db.accounts.find? id' with
      | none =>
        dsimp only at hr'
        rw [Table.find?_modify, hr] at hr'
        split_ifs at hr'
        cases hr'
      | some r =>
        obtain ⟨r₁, hr₁, hrest⟩ := hkept id' r hr
        obtain rfl : r' = r₁ := Option.some.inj (hr'.symm.trans hr₁)
        exact ⟨r, rfl, hrest⟩
    obtain ⟨r, hr, hpar, hsame⟩ := hold
    obtain ⟨rp, hrp, hnone, hcopy⟩ := h.shards id' r p hr (hpar.symm.trans hp)
    obtain ⟨rp', hrp', hpar', hsame'⟩ := hkept p rp hrp
    exact ⟨rp', hrp', hpar'.trans hnone,
      hsame.normalBalance.trans (hcopy.normalBalance.trans hsame'.normalBalance.symm),
      hsame.currency.trans (hcopy.currency.trans hsame'.currency.symm)⟩
  · obtain ⟨r', hr', -, hsame⟩ := hkept id' r hr
    exact ⟨r', hr', hsame.currency⟩

theorem Origin.bounded {t : Transaction} (ho : Origin db t) (h : Regular db) :
    sideTotal .debit (t.entries.map JournalEntry.leg) < 2 ^ 63 := by
  cases ho with
  | posting valid routes =>
    obtain ⟨-, currency, total, htotals⟩ := TransactionRequest.validate_totals valid
    rw [postedTransaction, map_leg_postedEntries, map_leg_of_routes routes, ← htotals.debits]
    exact total.amountMinor.toInt_lt
  | reversal load posted =>
    rw [postedTransaction, map_leg_postedEntries]
    exact (mirrored_sized load h.doubleEntries h.bounded).debits

theorem Marks.settled {reverses : Option UUID} {t : Transaction}
    (h : Marks reverses t db db') (hfresh : db.transactions.find? t.id = none) {txID : UUID}
    {status : TransactionStatus} (hs : statusOf txID db = some status) (hne : status ≠ .posted) :
    statusOf txID db' = some status := by
  have hid : txID ≠ t.id := by
    rintro rfl
    simp [statusOf, hfresh] at hs
  have hreverses : txID ∉ reverses := fun hmem =>
    hne (Option.some.inj (hs.symm.trans (h.target txID hmem).1))
  rw [h.others txID hid hreverses, hs]

theorem LedgerOp.run_settled {op : LedgerOp} (h : op.run db = .ok db') {txID : UUID}
    {status : TransactionStatus} (hs : statusOf txID db = some status) (hne : status ≠ .posted) :
    statusOf txID db' = some status := by
  cases ran h with
  | opened ho =>
    rw [statusOf, ho.transactions]
    exact hs
  | posted hooks hrun =>
    exact (postTransaction_marks hooks hrun).settled
      (postTransaction_committed hooks hrun).1.fresh hs hne
  | reversed hooks hrun =>
    exact (doReverse_marks hooks hrun).1.settled (doReverse_committed hooks hrun).1.fresh hs hne

theorem Regular.run {op : LedgerOp} (h : Regular db) (hrun : op.run db = .ok db') : Regular db' := by
  have hshards := (LedgerOp.run_grows hrun).sameKind h.shards
  rcases LedgerOp.run_cases hrun with hopen | ⟨t, hcommit, horigin⟩
  · exact ⟨hopen.referenced h.referenced,
      hopen.eachTransaction (P := fun es => DoubleEntry (es.map JournalEntry.leg)) h.doubleEntries,
      hopen.eachTransaction (P := fun es => sideTotal .debit (es.map JournalEntry.leg) < 2 ^ 63)
        h.bounded, hshards⟩
  · exact ⟨hcommit.referenced h.referenced,
      hcommit.eachTransaction (P := fun es => DoubleEntry (es.map JournalEntry.leg)) h.referenced
        (horigin.doubleEntry h.doubleEntries) h.doubleEntries,
      hcommit.eachTransaction (P := fun es => sideTotal .debit (es.map JournalEntry.leg) < 2 ^ 63)
        h.referenced (horigin.bounded h) h.bounded, hshards⟩

theorem LedgerOp.run_lasting {op : LedgerOp} (hrun : op.run db = .ok db') : Lasting db db' := by
  refine ⟨fun id r hr => ?_, fun txID status hs hne => ⟨status, run_settled hrun hs hne, hne⟩⟩
  obtain ⟨r', hr', hstays⟩ := (LedgerOp.run_grows hrun).kept id r hr
  exact ⟨r', hr', hstays.currency⟩

theorem Evolves.regular (hstep : Evolves db db') (h : Regular db) :
    Regular db' ∧ Lasting db db' := by
  cases hstep with
  | ledger op =>
    unfold LedgerOp.apply
    split
    · next db₁ hrun => exact ⟨h.run hrun, LedgerOp.run_lasting hrun⟩
    · exact ⟨h, .refl db⟩
  | @allowNegative _ now id flag hset =>
    unfold setAllowNegative at hset
    split at hset
    · cases hset
      exact ⟨h, .refl db⟩
    · split_ifs at hset
      · cases hset
        exact ⟨h, .refl db⟩
      · obtain ⟨balance, -, hset⟩ := bind_eq_ok.1 hset
        cases hset
        exact h.modify id (fun _ => rfl) fun _ => ⟨rfl, rfl⟩
  | status id status => exact h.modify id (fun _ => rfl) fun _ => ⟨rfl, rfl⟩
  | others outbox idempotencyKeys sagaInstances sagaSteps =>
    exact ⟨⟨⟨h.referenced.headers, h.referenced.accounts⟩, h.doubleEntries, h.bounded, h.shards⟩,
      (Lasting.refl db).currency, (Lasting.refl db).settled⟩

theorem evolves_regular (hreach : Relation.ReflTransGen Evolves db db') (h : Regular db) :
    Regular db' ∧ Lasting db db' := by
  induction hreach with
  | refl => exact ⟨h, .refl db⟩
  | tail _ hstep ih =>
    obtain ⟨hregular, hlasting⟩ := hstep.regular ih.1
    exact ⟨hregular, ih.2.trans hlasting⟩

theorem evolves_runOps (ops : List LedgerOp) (db : DB) :
    Relation.ReflTransGen Evolves db (runOps ops db) :=
  List.foldlRecOn ops LedgerOp.apply .refl fun db h op _ => h.tail (.ledger db op)

end LedgerCore.Ledger
