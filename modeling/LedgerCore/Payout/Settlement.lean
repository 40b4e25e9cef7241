import LedgerCore.Payout.Refinement

/-! The transactions of a payout, as its status has them. -/
namespace LedgerCore.Payout
open LedgerCore.Program LedgerCore.Saga Function
variable {id t t' : UUID}

variable {R : Rules} {v v' : View}

namespace View.Inv

theorem reserve_posted (h : v.Inv) (ht : v.reserves id = [t]) :
    ∃ rest, postedFor v.posted id = t :: rest := by
  cases hs : v.saga id with
  | none => simp [(h.unknown id hs).1] at ht
  | some s =>
    have hreserved : ∀ {t' rest}, Reserved v id s.payload t' rest →
        ∃ rest, postedFor v.posted id = t :: rest := fun hr => by
      obtain rfl : _ = t := by simpa [hr.reserves] using ht
      exact ⟨_, hr.posted⟩
    have hmoney := h.money id s.payload s.status hs
    cases hst : s.status with
    | pending | failed =>
      rw [hst] at hmoney
      simp [hmoney.1] at ht
    | completed | compensated =>
      rw [hst] at hmoney
      obtain ⟨t', t'', hr, -⟩ := hmoney
      exact hreserved hr
    | _ =>
      rw [hst] at hmoney
      obtain ⟨t', hr⟩ := hmoney
      exact hreserved hr

theorem posted_unique (h : v.Inv) {id' : UUID} (ht : t ∈ postedFor v.posted id)
    (ht' : t ∈ postedFor v.posted id') : id = id' := by
  have heq := List.inj_on_of_nodup_map h.distinct (mem_postedFor.1 ht) (mem_postedFor.1 ht') rfl
  exact congrArg Posting.sagaID heq

theorem posted_nodup (h : v.Inv) (id : UUID) : (postedFor v.posted id).Nodup :=
  h.distinct.sublist (List.filter_sublist.map _)

theorem header_ne_none (h : v.Inv) (ht : t ∈ postedFor v.posted id) : v.header t ≠ none :=
  h.headers _ (mem_postedFor.1 ht)

end View.Inv

theorem View.Inv.ne_reserve (h : v.Inv) {k : UUID} (ht : t ∈ (postedFor v.posted id).tail) :
    v.reserves k ≠ [t] := by
  intro hk
  -- The reserve of a saga comes first, and no other saga has it.
  obtain ⟨rest, hposted⟩ := h.reserve_posted hk
  have hmem : t ∈ postedFor v.posted k := by simp [hposted]
  obtain rfl := h.posted_unique (List.mem_of_mem_tail ht) hmem
  have hnodup := h.posted_nodup id
  rw [hposted] at hnodup ht
  exact (List.nodup_cons.1 hnodup).1 ht

theorem Move.header (hmove : Move R v v') (ht : v.header t ≠ none) :
    v'.header t = v.header t ∨ R.reversible v t ∨
      ∃ id p, v.saga id = some ⟨p, .compensating⟩ ∧ v.reserves id = [t] ∧
        v'.saga id = some ⟨p, .compensated⟩ ∧ v'.header t = some .reversed := by
  have hne : ∀ {t' : UUID}, v.header t' = none → t ≠ t' := by
    rintro t' hfresh rfl
    exact ht hfresh
  cases hmove with
  | post fresh => exact .inl (update_of_ne (hne fresh) ..)
  | @reverse txID t' fresh posted allowed =>
    by_cases htx : t = txID
    · exact .inr (.inl (htx ▸ allowed))
    · exact .inl ((update_of_ne (hne fresh) ..).trans (update_of_ne htx ..))
  | reserve saga fresh _ _ => exact .inl (update_of_ne (hne fresh) ..)
  | settle saga fresh _ => exact .inl (update_of_ne (hne fresh) ..)
  | @compensate id p txID t' saga reserve fresh posted mirror =>
    by_cases htx : t = txID
    · subst htx
      refine .inr (.inr ⟨id, p, saga, reserve, update_self .., ?_⟩)
      exact (update_of_ne (hne fresh) ..).trans (update_self ..)
    · exact .inl ((update_of_ne (hne fresh) ..).trans (update_of_ne htx ..))
  | _ => exact .inl rfl

/-- A reserve is posted, and reversed exactly when its saga is compensated. -/
def ReserveStands (v : View) : Prop :=
  ∀ id p st t, v.saga id = some ⟨p, st⟩ → v.reserves id = [t] →
    v.header t = some (if st = .compensated then .reversed else .posted)

theorem Edge.ne_compensated {refund : Prop} {s t : Status} (h : Edge refund s t) :
    s ≠ .compensated ∧ t ≠ .compensated := by
  cases s <;> cases t <;> simp_all [Edge]

theorem View.Inv.reserve_ne (h : v.Inv) (ht : v.reserves id = [t]) (fresh : v.header t' = none) :
    t ≠ t' := by
  obtain ⟨rest, hposted⟩ := h.reserve_posted ht
  exact h.posted_ne id fresh (by simp [hposted])

theorem View.Inv.reserve_unique (h : v.Inv) {id' : UUID} (ht : v.reserves id = [t])
    (ht' : v.reserves id' = [t]) : id = id' := by
  obtain ⟨rest, hposted⟩ := h.reserve_posted ht
  obtain ⟨rest', hposted'⟩ := h.reserve_posted ht'
  exact h.posted_unique (t := t) (by simp [hposted]) (by simp [hposted'])

theorem Move.reserveStands (hR : ∀ v t, v.Inv → R.reversible v t → ∀ id, v.reserves id ≠ [t])
    (hinv : v.Inv) (hmove : Move R v v') (h : ReserveStands v) : ReserveStands v' := by
  intro id p st t hs ht
  cases hmove with
  | quiet _ => exact h id p st t hs ht
  | @start k q fresh valid =>
    have hk : id ≠ k := by
      rintro rfl
      exact nomatch (hinv.unknown _ fresh).1.symm.trans ht
    exact h id p st t ((View.saga_move_of_ne v hk ..).symm.trans hs) ht
  | @advance k q source target saga edge =>
    rcases View.saga_move_eq_some hs with ⟨rfl, rfl, rfl⟩ | ⟨-, hs⟩
    · have hposted := h id p source t saga ht
      rw [if_neg edge.ne_compensated.1] at hposted
      rw [if_neg edge.ne_compensated.2]
      exact hposted
    · exact h id p st t hs ht
  | post fresh => exact (update_of_ne (hinv.reserve_ne ht fresh) ..).trans (h id p st t hs ht)
  | @reverse txID t' fresh posted allowed =>
    have hne : t ≠ txID := by
      rintro rfl
      exact hR v t hinv allowed id ht
    refine (update_of_ne (hinv.reserve_ne ht fresh) ..).trans ?_
    exact (update_of_ne hne ..).trans (h id p st t hs ht)
  | @reserve k q t' saga fresh nonnil booked =>
    rcases View.saga_move_eq_some hs with ⟨rfl, rfl, rfl⟩ | ⟨hk, hs⟩
    · have ht' : update v.reserves id (v.reserves id ++ [t'.id]) id = [t] := ht
      obtain rfl : t'.id = t := by simpa [(hinv.money _ _ _ saga).1] using ht'
      exact update_self ..
    · have ht : v.reserves id = [t] := (update_of_ne hk ..).symm.trans ht
      exact (update_of_ne (hinv.reserve_ne ht fresh) ..).trans (h id p st t hs ht)
  | @settle k q t' saga fresh booked =>
    refine (update_of_ne (hinv.reserve_ne ht fresh) ..).trans ?_
    rcases View.saga_move_eq_some hs with ⟨rfl, rfl, rfl⟩ | ⟨-, hs⟩
    · exact h id p .gatewaySucceeded t saga ht
    · exact h id p st t hs ht
  | @compensate k q txID t' saga reserve fresh posted mirror =>
    refine (update_of_ne (hinv.reserve_ne ht fresh) ..).trans ?_
    rcases View.saga_move_eq_some hs with ⟨rfl, rfl, rfl⟩ | ⟨hk, hs⟩
    · obtain rfl : txID = t := by simpa using reserve.symm.trans ht
      exact update_self ..
    · have hne : t ≠ txID := by
        rintro rfl
        exact hk (hinv.reserve_unique ht reserve)
      exact (update_of_ne hne ..).trans (h id p st t hs ht)

/-- What a saga committed after its reserve is posted. -/
def RestPosted (v : View) : Prop :=
  ∀ id, ∀ t ∈ (postedFor v.posted id).tail, v.header t = some .posted

theorem mem_tail_postedFor_concat {l : List Posting} {k : UUID}
    (h : t ∈ (postedFor (l ++ [⟨k, t'⟩]) id).tail) : t = t' ∨ t ∈ (postedFor l id).tail := by
  by_cases hk : k = id
  · subst hk
    rw [postedFor_concat_self] at h
    cases hl : postedFor l k with
    | nil => simp [hl] at h
    | cons a l =>
      rw [hl, List.cons_append, List.tail_cons, List.mem_append, List.mem_singleton] at h
      exact h.symm
  · rw [postedFor_concat_of_ne hk] at h
    exact .inr h

theorem Move.posted (hmove : Move R v v') :
    v'.posted = v.posted ∨ ∃ id t, v'.posted = v.posted ++ [⟨id, t⟩] ∧ v'.header t = some .posted := by
  cases hmove with
  | reserve _ _ _ _ => exact .inr ⟨_, _, rfl, update_self ..⟩
  | settle _ _ _ => exact .inr ⟨_, _, rfl, update_self ..⟩
  | compensate _ _ _ _ _ => exact .inr ⟨_, _, rfl, update_self ..⟩
  | _ => exact .inl rfl

theorem Move.restPosted (hR : ∀ v t, R.reversible v t → ∀ id, t ∉ (postedFor v.posted id).tail)
    (hinv : v.Inv) (hmove : Move R v v') (h : RestPosted v) : RestPosted v' := by
  have hold : ∀ id, ∀ t ∈ (postedFor v.posted id).tail, v'.header t = some .posted := by
    intro id t ht
    have hmem := List.mem_of_mem_tail ht
    rcases hmove.header (hinv.header_ne_none hmem) with heq | hrev | ⟨k, q, -, hk, -⟩
    · exact heq.trans (h id t ht)
    · exact absurd ht (hR v t hrev id)
    · exact absurd hk (hinv.ne_reserve ht)
  intro id t ht
  rcases hmove.posted with heq | ⟨k, t', heq, hheader⟩
  · exact hold id t (heq ▸ ht)
  · rw [heq] at ht
    rcases mem_tail_postedFor_concat ht with rfl | ht
    · exact hheader
    · exact hold id t ht

/-- A transaction of the ledger has the status, and its entries are the legs. -/
structure Holds (w : World) (txID : UUID) (status : Ledger.TransactionStatus)
    (legs : List Ledger.EntryRequest) : Prop where
  header : ∃ r, w.db.transactions.find? txID = some r ∧ r.status = status
  entries : Booked (fun a => (w.db.accounts.find? a).bind fun r => r.parentAccountID) legs
    (Ledger.transactionEntries txID w.db)

/-- On every account, what one transaction did the other undoes. -/
def Restored (db : DB) (txID reversalID : UUID) : Prop :=
  ∀ account r, db.accounts.find? account = some r →
    Ledger.signedTotal r.normalBalance (Ledger.onAccount account (Ledger.transactionEntries txID db)) +
      Ledger.signedTotal r.normalBalance
        (Ledger.onAccount account (Ledger.transactionEntries reversalID db)) = 0

/-- The transactions committed for a saga, by its status. -/
def Accounted (w : World) (id : UUID) (p : Payload) : Status → Prop
  | .pending => postedFor w.posted id = []
  | .failed => postedFor w.posted id = []
  | .completed => ∃ t t', postedFor w.posted id = [t, t'] ∧ Holds w t .posted (reserveLegs p) ∧
      Holds w t' .posted (settleLegs p) ∧
      (merchantMinor p).toInt = p.amountMinor.toInt - p.feeMinor.toInt
  | .compensated => ∃ t t', postedFor w.posted id = [t, t'] ∧ Holds w t .reversed (reserveLegs p) ∧
      (∃ r, w.db.transactions.find? t' = some r ∧ r.status = .posted) ∧
      Mirrors (Ledger.transactionEntries t w.db) (Ledger.transactionEntries t' w.db) ∧
      Restored w.db t t'
  | _ => ∃ t, postedFor w.posted id = [t] ∧ Holds w t .posted (reserveLegs p)

theorem signed_opposite {d n : Ledger.Direction} (hd : d.Valid) (hn : n.Valid) (a : ℤ) :
    Ledger.signed d n a + Ledger.signed d.opposite n a = 0 := by
  rcases Ledger.Direction.valid_iff.1 hd with rfl | rfl <;>
    rcases Ledger.Direction.valid_iff.1 hn with rfl | rfl <;>
    simp [Ledger.signed, Ledger.Direction.opposite]

theorem Mirrors.signedTotal {es es' : List Ledger.JournalEntry} (h : Mirrors es es')
    (hvalid : ∀ e ∈ es, e.direction.Valid) {n : Ledger.Direction} (hn : n.Valid) (account : UUID) :
    Ledger.signedTotal n (Ledger.onAccount account es) +
      Ledger.signedTotal n (Ledger.onAccount account es') = 0 := by
  obtain ⟨l, hperm, hmirror⟩ := h
  have htotal : Ledger.signedTotal n (Ledger.onAccount account es) =
      Ledger.signedTotal n (Ledger.onAccount account l) :=
    ((hperm.filter _).map _).sum_eq.symm
  rw [htotal]
  have hvalid : ∀ e ∈ l, e.direction.Valid := fun e he => hvalid e (hperm.mem_iff.1 he)
  clear hperm htotal
  induction hmirror with
  | nil => rfl
  | @cons e e' l l' he _ ih =>
    obtain ⟨hacc, hdir, hamount⟩ := he
    have ih := ih fun e he => hvalid e (List.mem_cons_of_mem _ he)
    by_cases ha : e.accountID = account
    · have hpair := signed_opposite (hvalid e List.mem_cons_self) hn e.amount.amountMinor.toInt
      simp only [Ledger.signedTotal, Ledger.onAccount, List.filter_cons, ha, hacc, decide_true,
        if_true, List.map_cons, List.sum_cons, hdir, hamount] at ih ⊢
      omega
    · simpa [Ledger.onAccount, List.filter_cons, ha, hacc] using ih

section World
variable {w : World} {id : UUID} {p : Payload}

theorem header_eq_some {st : Ledger.TransactionStatus} (h : w.view.header t = some st) :
    ∃ r, w.db.transactions.find? t = some r ∧ r.status = st :=
  Option.map_eq_some_iff.1 h

theorem restored
    (h : Mirrors (Ledger.transactionEntries t w.db) (Ledger.transactionEntries t' w.db)) :
    Restored w.db t t' := by
  intro account r _
  have hvalid : ∀ e ∈ Ledger.transactionEntries t w.db, e.direction.Valid := fun e he =>
    Ledger.journalEntries_valid (List.mem_of_mem_filter he)
  refine h.signedTotal hvalid ?_ account
  rw [r.normal_balance_matches_type_check]
  exact Ledger.Direction.valid_iff.2 r.type.normalBalance_cases

theorem Reserved.holds {st : Status} {rest : List UUID} (h : Reserved w.view id p t rest)
    (hs : w.view.saga id = some ⟨p, st⟩) (hstands : ReserveStands w.view) :
    Holds w t (if st = .compensated then .reversed else .posted) (reserveLegs p) :=
  ⟨header_eq_some (hstands id p st t hs h.reserves), h.booked⟩

/-- The machine's invariants, read off the tables. -/
theorem accounted {st : Status} (hinv : w.view.Inv) (hstands : ReserveStands w.view)
    (hrest : RestPosted w.view) (hs : w.view.saga id = some ⟨p, st⟩) : Accounted w id p st := by
  have hmoney := hinv.money id p st hs
  cases st with
  | pending => exact hmoney.2
  | failed => exact hmoney.2
  | completed =>
    obtain ⟨t, t', ht, hbooked⟩ := hmoney
    have hposted : w.view.header t' = some .posted := hrest id t' (by simp [ht.posted])
    exact ⟨t, t', ht.posted, ht.holds hs hstands, ⟨header_eq_some hposted, hbooked⟩,
      (validate_eq_ok (hinv.valid id p _ hs)).toInt_merchantMinor⟩
  | compensated =>
    obtain ⟨t, t', ht, hmirror⟩ := hmoney
    have hposted : w.view.header t' = some .posted := hrest id t' (by simp [ht.posted])
    exact ⟨t, t', ht.posted, ht.holds hs hstands, header_eq_some hposted, hmirror,
      restored hmirror⟩
  | _ =>
    obtain ⟨t, ht⟩ := hmoney
    exact ⟨t, ht.posted, ht.holds hs hstands⟩

end World

def Action.reverses : Action → Option UUID
  | .ledger op => reversalOf op
  | _ => none

/-- Nobody outside reverses a transaction of a saga. -/
def SparesSagas (s : Sys) (a : Action) : Prop :=
  ∀ txID ∈ a.reverses, txID ∉ s.world.posted.map Posting.transactionID

/-- A task is about to call a saga compensated that has no reserve to reverse, which is the only
bare transition to that status. -/
def SkipsReversal (task : Worker × OrchM Unit) : Prop :=
  ∃ t k, task.2 = .call (.advance t) k ∧ t.target = .compensated

def sparing : Rules where
  refund := True
  reversible v txID := txID ∉ v.posted.map Posting.transactionID

theorem SparesSagas.allowed {s : Sys} {a : Action} (h : SparesSagas s a) : Allowed sparing s a := by
  cases a with
  | ledger op => exact h
  | perform i ch => exact .inl trivial
  | abandon i e => exact .inl trivial
  | _ => trivial

theorem sparing_reserves {v : View} (hinv : v.Inv) (h : sparing.reversible v t) (id : UUID) :
    v.reserves id ≠ [t] := fun ht => by
  obtain ⟨rest, hposted⟩ := hinv.reserve_posted ht
  exact h (List.mem_map_of_mem (mem_postedFor.1 (by simp [hposted] : t ∈ postedFor v.posted id)))

/-- Status and money commit together. In every run in which nobody outside reverses a saga's
transactions, the transactions of each saga are those its status stands for, and no worker comes
to the branch of `compensate` for a saga without a reserve. -/
theorem status_fixes_transactions {s : Sys} (h : Sys.Reach SparesSagas .init s) :
    (∀ id r, s.world.db.sagaInstances.find? id = some r →
        Accounted s.world id r.payload r.status) ∧
      ∀ task ∈ s.tasks, ¬SkipsReversal task := by
  have hreach : Sys.Reach (Allowed sparing) .init s := reach_mono h fun _ _ => SparesSagas.allowed
  obtain ⟨hkept, hlater⟩ := reach_kept hreach init_kept
  have hstands : ReserveStands s.world.view :=
    hlater.keeps init_inv (Move.reserveStands fun _ _ => sparing_reserves) fun _ _ _ _ hs => nomatch hs
  have hrest : RestPosted s.world.view := by
    refine hlater.keeps init_inv (Move.restPosted fun v t hrev id ht => ?_) fun _ _ ht => nomatch ht
    exact hrev (List.mem_map_of_mem (mem_postedFor.1 (List.mem_of_mem_tail ht)))
  refine ⟨fun id r hr => ?_, ?_⟩
  · exact accounted hkept.valid hstands hrest (Option.map_eq_some_iff.2 ⟨r, hr, rfl⟩)
  · rintro ⟨worker, _⟩ htask ⟨t, k, rfl, htarget⟩
    exact (hkept.asks htask : Edge _ _ _).ne_compensated.2 htarget

def sampleChoice (n : ℕ) : Choice where
  draws := Ledger.sampleDraws n
  uuid := if h : BitVec.ofNat 128 (1000 * (n + 1) + 999) ≠ UUID.nil then ⟨_, h⟩ else ⟨1, by decide⟩
  stamp := ⟨n + 1, n + 1, BitVec.ofNat 128 (1000 * (n + 1) + 998)⟩

def sampleConfig : Config where
  sagaType := ""
  workerID := "w"
  claimBatch := 0
  lease := 10
  stepTimeout := 10
  maxStepAttempts := 3
  maxCompensationAttempts := 3
  maxProbes := 0

def samplePayload : Payload where
  customerWalletID := 2
  suspenseID := 3
  merchantPayableID := 4
  feeRevenueID := 5
  amountMinor := 500
  feeMinor := 20
  currency := "INR"
  externalRef := ""

def sampleFirst : {id : UUID // id ≠ UUID.nil} := ⟨7, by decide⟩

def sampleSecond : {id : UUID // id ≠ UUID.nil} := ⟨8, by decide⟩

/-- The accounts of a payout are opened, the wallet is funded, and the payout is started. -/
def sampleStart : List Action :=
  [.ledger (.createAccount (Ledger.sampleDraws 0) 1 ⟨"bank", .asset, "INR", none, false⟩),
   .ledger (.createAccount (Ledger.sampleDraws 1) 2 ⟨"wallet", .liability, "INR", none, false⟩),
   .ledger (.createAccount (Ledger.sampleDraws 2) 3 ⟨"suspense", .liability, "INR", none, false⟩),
   .ledger (.createAccount (Ledger.sampleDraws 3) 4 ⟨"merchant", .liability, "INR", none, false⟩),
   .ledger (.createAccount (Ledger.sampleDraws 4) 5 ⟨"fees", .revenue, "INR", none, false⟩),
   .ledger (.postTransaction (Ledger.sampleDraws 5) 6
    { principalID := "p", type := .payin, externalRef := none, metadata := []
      entries := [⟨1, .debit, ⟨900, "INR"⟩⟩, ⟨2, .credit, ⟨900, "INR"⟩⟩]
      idempotencyKey := none, idempotency := none, record := none } Ledger.recording_none),
   .start sampleConfig 10 10 sampleFirst samplePayload "p" none]

def performs (task n m : ℕ) : List Action :=
  (List.range m).map fun i => .perform task (sampleChoice (n + i))

/-- The saga is claimed, and its worker makes `m` calls. -/
def drive (n m : ℕ) : List Action :=
  .claim false sampleConfig (10 + n) (fun _ => false) :: performs 0 n m

/-- A payout from its start to its end: the reserve, the payment, the settlement. -/
def sampleRun : List Action :=
  sampleStart ++ drive 10 4 ++ .crash 0 :: drive 20 4 ++ .deliver 0 (.accept "g" 40) :: performs 0 30 3 ++
    .crash 0 :: drive 40 4

theorem status_fixes_transactions_completed :
    ∃ s, Sys.init.run sampleRun = some s ∧
      (s.world.db.sagaInstances.find? 7).map (fun r => r.status) = some .completed ∧
      (∀ id r, s.world.db.sagaInstances.find? id = some r →
        Accounted s.world id r.payload r.status) ∧
      ∀ task ∈ s.tasks, ¬SkipsReversal task := by
  have hrun : (Sys.init.run sampleRun).any (fun s =>
      (s.world.db.sagaInstances.find? 7).map (fun r => r.status) = some .completed) = true := by
    decide +kernel
  obtain ⟨s, hs, hstatus⟩ := (Option.any_eq_true ..).1 hrun
  have hspares : sampleRun.all (fun a => a.reverses = none) = true := by decide +kernel
  refine ⟨s, hs, of_decide_eq_true hstatus, status_fixes_transactions (reach_of_run hs ?_)⟩
  intro a ha s txID htx
  rw [of_decide_eq_true (List.all_eq_true.1 hspares a ha)] at htx
  exact nomatch htx

end LedgerCore.Payout
