import LedgerCore.Ledger.Postable
import LedgerCore.Ledger.Versions

/-! Two runs of one posting that draw different shards. Up to the parents of the shards they leave
the same journal, and so the same balances. -/
namespace LedgerCore.Ledger
open LedgerCore.Program
variable {id txID : UUID} {r : AccountRow} {req : TransactionRequest}

def parentOf (db : DB) (id : UUID) : UUID :=
  ((db.accounts.find? id).bind fun r => r.parentAccountID).getD id

/-- The entry with its account replaced by the parent, if the account is a shard. -/
def toParent (db : DB) (e : JournalEntry) : JournalEntry :=
  { e with accountID := parentOf db e.accountID }

/-- The posting's entries are the request's, in order, with the accounts replaced: each account by
one active shard if it has any, and by itself otherwise. -/
def RoutedTo (db : DB) (requests : List EntryRequest) (entries : List JournalEntry) : Prop :=
  ∃ target : UUID → UUID,
    List.Forall₂ (fun e e' => e'.accountID = target e.accountID ∧ e'.direction = e.direction ∧
      e'.amount = e.amount) requests entries ∧
    ∀ e ∈ requests,
      (∃ r, db.accounts.find? (target e.accountID) = some r ∧
        r.parentAccountID = some e.accountID ∧ r.status = .active) ∨
      target e.accountID = e.accountID ∧ ∀ shard r, db.accounts.find? shard = some r →
        r.parentAccountID = some e.accountID → r.status ≠ .active

variable {db db' : DB} {t : Transaction}

theorem mem_physicalIDs_iff_parentOf {a : UUID} (hr : db.accounts.find? id = some r)
    (hnone : r.parentAccountID = none) : a ∈ physicalIDs id db ↔ parentOf db a = id := by
  rw [mem_physicalIDs, parentOf]
  constructor
  · rintro ⟨ra, hra, rfl | hparent⟩
    · obtain rfl : r = ra := Option.some.inj (hr.symm.trans hra)
      simp [hr, hnone]
    · simp [hra, hparent]
  · intro h
    cases hra : db.accounts.find? a with
    | none =>
      rw [hra] at h
      obtain rfl : a = id := h
      cases hra.symm.trans hr
    | some ra =>
      refine ⟨ra, rfl, ?_⟩
      cases hparent : ra.parentAccountID with
      | none => exact .inl (by simpa [hra, hparent] using h)
      | some p => exact .inr (by simpa [hra, hparent] using h)

theorem Shards.parentOf_routedAccount {P : AccountRow → AccountRow → Prop} (hs : Shards P db)
    (d : Draws) (entries : List EntryRequest) (a : UUID) :
    parentOf db (routedAccount d entries db a) = parentOf db a := by
  rcases routedAccount_cases d entries db a with hstay | ⟨r, hr, hparent, -⟩
  · rw [hstay]
  · obtain ⟨rp, hrp, hnone, -⟩ := hs _ r a hr hparent
    simp [parentOf, hr, hparent, hrp, hnone]

theorem Committed.parentOf (h : Committed db db' t) : Ledger.parentOf db' = Ledger.parentOf db := by
  funext a
  obtain ⟨pending, hmoved⟩ := h.accounts
  unfold Ledger.parentOf
  cases hra : db.accounts.find? a with
  | none =>
    have hnone : db'.accounts.find? a = none := by
      rw [Table.find?_eq_none, hmoved.keys, ← Table.find?_eq_none]
      exact hra
    rw [hnone]
  | some r =>
    obtain ⟨r', hr', hm⟩ := hmoved.rows a r hra
    rw [hr', Option.bind_some, Option.bind_some, hm.columns]

theorem sum_signedTotal_onAccount (n : Direction) {l : List UUID} (hl : l.Nodup)
    (es : List JournalEntry) :
    (l.map fun a => signedTotal n (onAccount a es)).sum =
      signedTotal n (es.filter fun e => e.accountID ∈ l) := by
  induction es with
  | nil => simp [onAccount, signedTotal]
  | cons e es ih =>
    have hcons (a : UUID) : signedTotal n (onAccount a (e :: es)) =
        (if a = e.accountID then signed e.direction n e.amount.amountMinor.toInt else 0) +
          signedTotal n (onAccount a es) := by
      rw [signedTotal_onAccount_cons]
      simp only [eq_comm]
    simp only [hcons, List.sum_map_add, ih]
    by_cases he : e.accountID ∈ l
    · rw [List.sum_map_ite_eq, List.count_eq_one_of_mem hl he, List.filter_cons_of_pos (by simpa using he)]
      simp [signedTotal]
    · rw [List.sum_map_ite_eq, List.count_eq_zero_of_not_mem he,
        List.filter_cons_of_neg (by simpa using he)]
      simp

theorem map_toParent_filter (hr : db.accounts.find? id = some r) (hnone : r.parentAccountID = none)
    (p : JournalEntry → Bool) (hp : ∀ e, p (toParent db e) = p e) (es : List JournalEntry) :
    ((es.map (toParent db)).filter fun e => e.accountID = id ∧ p e) =
      (es.filter fun e => e.accountID ∈ physicalIDs id db ∧ p e).map (toParent db) := by
  rw [List.filter_map]
  congr 1
  refine List.filter_congr fun e _ => ?_
  simp only [Function.comp_apply, hp, mem_physicalIDs_iff_parentOf hr hnone]
  rfl

theorem Committed.logicalSum_available (h : Committed db db' t) (hs : Shards SameKind db)
    (hr : db.accounts.find? id = some r) (hnone : r.parentAccountID = none) :
    logicalSum (fun b => b.availableMinor.toInt) id db' =
      logicalSum (fun b => b.availableMinor.toInt) id db +
        signedTotal r.normalBalance (onAccount id (t.entries.map (toParent db))) := by
  obtain ⟨pending, hmoved⟩ := h.accounts
  have hkind : ∀ x ∈ physical id db, x.2.normalBalance = r.normalBalance := by
    intro x hx
    obtain ⟨hrx, hid | hparent⟩ := mem_physical.1 hx
    · obtain rfl : r = x.2 := Option.some.inj (hr.symm.trans (hid ▸ hrx))
      rfl
    · obtain ⟨rp, hrp, -, hkind⟩ := hs x.1 x.2 id hrx hparent
      obtain rfl : r = rp := Option.some.inj (hr.symm.trans hrp)
      exact hkind.normalBalance
  have hentries : signedTotal r.normalBalance (onAccount id (t.entries.map (toParent db))) =
      signedTotal r.normalBalance (t.entries.filter fun e => e.accountID ∈ Ledger.physicalIDs id db) := by
    have hmap := map_toParent_filter hr hnone (fun _ => true) (fun _ => rfl) t.entries
    simp only [and_true] at hmap
    rw [onAccount, hmap, signedTotal, List.map_map]
    rfl
  rw [hmoved.logicalSum (g := fun k rk => signedTotal rk.normalBalance (onAccount k t.entries)) id
    fun k rk rk' _ hm => hm.available, hentries,
    ← sum_signedTotal_onAccount _ (hs.physicalIDs_nodup id), Ledger.physicalIDs, List.map_map]
  congr 2
  refine List.map_congr_left fun x hx => ?_
  rw [hkind x hx, Function.comp_apply]

theorem lookup_filterMap {κ β : Type} [DecidableEq κ] {f : κ → Option β} {ids : List κ} {k : κ}
    {b : β} (hk : k ∈ ids) (hf : f k = some b) :
    (ids.filterMap fun k => (f k).map (Prod.mk k)).lookup k = some b := by
  induction ids with
  | nil => nomatch hk
  | cons a ids ih =>
    by_cases ha : k = a
    · subst ha
      simp [hf]
    · have hk := (List.mem_cons.1 hk).resolve_left ha
      cases hfa : f a with
      | none => simpa [hfa] using ih hk
      | some c => simpa [hfa, List.lookup_cons, beq_eq_false_iff_ne.2 ha] using ih hk

theorem routedAccount_of_active (d : Draws) {entries : List EntryRequest} {a shard : UUID}
    (ha : a ∈ sortedAccountIDs entries) (hr : db.accounts.find? shard = some r)
    (hparent : r.parentAccountID = some a) (hactive : r.status = .active) :
    ∃ r', db.accounts.find? (routedAccount d entries db a) = some r' ∧
      r'.parentAccountID = some a ∧ r'.status = .active := by
  -- The shards of every account as the query orders them.
  let shards (p : UUID) := (db.accounts.rows.filter fun r =>
    r.2.parentAccountID = some p ∧ r.2.status = .active).insertionSort
      fun a b => a.2.shardIndex.getD 0 ≤ b.2.shardIndex.getD 0
  have hmem : (shard, r) ∈ shards a := by
    rw [List.mem_insertionSort, List.mem_filter, decide_eq_true_eq]
    exact ⟨Table.find?_eq_some.1 hr, hparent, hactive⟩
  have hresolve : resolveShards (sortedAccountIDs entries) db =
      (sortedAccountIDs entries).filterMap fun p =>
        (if shards p = [] then none else some ((shards p).map Prod.fst)).map (Prod.mk p) := by
    unfold resolveShards
    refine List.filterMap_congr fun p _ => ?_
    change (if shards p = [] then none else some (p, (shards p).map Prod.fst)) = _
    split_ifs <;> rfl
  have hlookup : (resolveShards (sortedAccountIDs entries) db).lookup a =
      some ((shards a).map Prod.fst) := by
    rw [hresolve]
    exact lookup_filterMap ha (if_neg (List.ne_nil_of_mem hmem))
  have hlength : 0 < ((shards a).map Prod.fst).length := by
    rw [List.length_map]
    exact List.length_pos_of_mem hmem
  obtain ⟨chosen, hchosen⟩ :
      ∃ chosen, chosenShard d (resolveShards (sortedAccountIDs entries) db) a = some chosen := by
    rw [chosenShard, hlookup, Option.bind_some]
    exact ⟨_, List.getElem?_eq_getElem (Nat.mod_lt _ hlength)⟩
  obtain ⟨r', hr'⟩ := chosenShard_eq_some hchosen
  rw [routedAccount, hchosen]
  exact ⟨r', hr'⟩

theorem postTransaction_routedTo {d : Draws} (h : postTransaction d txID req db = .ok (t, db')) :
    RoutedTo db req.entries t.entries := by
  refine ⟨routedAccount d req.entries db, ?_, fun e he => ?_⟩
  · have hrequests : t.entries.map JournalEntry.request = routed d req.entries db := by
      rw [postTransaction_entries h, map_request_postedEntries]
    have hall : List.Forall₂ (fun (e e' : EntryRequest) =>
        e'.accountID = routedAccount d req.entries db e.accountID ∧ e'.direction = e.direction ∧
          e'.amount = e.amount) req.entries (t.entries.map JournalEntry.request) := by
      rw [hrequests]
      exact List.forall₂_map_right_iff.2 (List.forall₂_same.2 fun e _ => ⟨rfl, rfl, rfl⟩)
    exact List.forall₂_map_right_iff.1 hall
  · by_cases hactive : ∃ shard r, db.accounts.find? shard = some r ∧
        r.parentAccountID = some e.accountID ∧ r.status = .active
    · obtain ⟨shard, r, hr, hparent, hs⟩ := hactive
      exact .inl (routedAccount_of_active d (mem_sortedAccountIDs.2 ⟨e, he, rfl⟩) hr hparent hs)
    · have hnone : ∀ shard r, db.accounts.find? shard = some r →
          r.parentAccountID = some e.accountID → r.status ≠ .active :=
        fun shard r hr hp hs => hactive ⟨shard, r, hr, hp, hs⟩
      refine .inr ⟨?_, hnone⟩
      rcases routedAccount_cases d req.entries db e.accountID with hstay | ⟨r, hr, hp, hs⟩
      · exact hstay
      · exact absurd hs (hnone _ r hr hp)

theorem map_toParent_postedEntries {P : AccountRow → AccountRow → Prop} (hs : Shards P db)
    (d d' : Draws) (txID : UUID) (entries : List EntryRequest) :
    (postedEntries d txID (routed d' entries db)).map (toParent db) =
      (postedEntries d txID entries).map (toParent db) := by
  simp only [postedEntries, buildEntries, routed, List.zipIdx_map, List.map_map]
  refine List.map_congr_left fun x _ => ?_
  simp only [Function.comp_apply, toParent, Prod.map, hs.parentOf_routedAccount, id]

theorem getBalanceAsOf_congr {db₁ db₂ : DB} {r₁ r₂ : AccountRow}
    (h₁ : db₁.accounts.find? id = some r₁) (h₂ : db₂.accounts.find? id = some r₂)
    (hcols : r₁.toAccountColumns = r₂.toAccountColumns) (hnone : r₁.parentAccountID = none)
    (hj : (journalEntries db₁).map (toParent db₁) = (journalEntries db₂).map (toParent db₂))
    (instant : Time) : getBalanceAsOf id instant db₁ = getBalanceAsOf id instant db₂ := by
  have hentries {db : DB} {r : AccountRow} (hr : db.accounts.find? id = some r)
      (hnone : r.parentAccountID = none) :
      (entriesAsOf id instant db).map (toParent db) =
        (((journalEntries db).map (toParent db)).filter fun e =>
          e.accountID = id ∧ e.createdAt ≤ instant) := by
    have hmap := map_toParent_filter hr hnone (fun e => e.createdAt ≤ instant) (fun _ => rfl)
      (journalEntries db)
    simp only [decide_eq_true_eq] at hmap
    exact hmap.symm
  have hsame := hentries h₁ hnone
  rw [hj, ← hentries h₂ (by rw [← hcols]; exact hnone)] at hsame
  -- The sum reads of an entry only what stays when its account is replaced.
  let value (e : JournalEntry) : ℤ :=
    if e.direction = r₁.normalBalance then e.amount.amountMinor.toInt else -e.amount.amountMinor.toInt
  have hvalue (db : DB) (es : List JournalEntry) :
      (es.map (toParent db)).map value = es.map value := by
    rw [List.map_map]
    rfl
  have hsum : (entriesAsOf id instant db₁).map value = (entriesAsOf id instant db₂).map value := by
    rw [← hvalue db₁, hsame, hvalue]
  unfold getBalanceAsOf
  rw [h₁, h₂]
  dsimp only
  rw [← hcols, hsum]

theorem completeIdempotency_accounts {idem : Option Idempotent} {header : Transaction} {now : Time}
    {s s' : TxState} {u : Unit}
    (h : (completeIdempotency idem header).run (exec now) s = .ok (u, s')) :
    s'.db.accounts = s.db.accounts := by
  unfold completeIdempotency at h
  split at h
  · cases h
    rfl
  · split at h
    · cases h
    · obtain ⟨⟨status, body⟩, -, h⟩ := Prog.run_ofExcept_bind_ok.1 h
      obtain ⟨db, hdb, he⟩ := map_eq_ok.1 (Prog.run_perform (h := exec now) _ ▸ h)
      cases he
      obtain ⟨_, rfl⟩ := Idempotency.complete_tables hdb
      rfl

theorem postTransaction_moved {d : Draws} (hrecord : req.record = none)
    (h : postTransaction d txID req db = .ok (t, db')) :
    AccountsMoved t.entries 0 db.accounts db'.accounts := by
  obtain ⟨_, -, h⟩ := bind_eq_ok.1 h
  obtain ⟨s, hrun, -, rfl⟩ := inTx_eq_ok h
  obtain ⟨_, s₁, outbox, s₂, rfl, rfl, hwritten, hrun, hcomplete⟩ := postTx_eq_ok hrun
  rw [record_withKey, hrecord] at hrun
  cases hrun
  rw [completeIdempotency_accounts hcomplete]
  exact hwritten.accounts

/-- What one run leaves, in terms that no choice of shards enters. -/
structure PostedAlike (d : Draws) (txID : UUID) (req : TransactionRequest) (db db' : DB) : Prop where
  journal : (journalEntries db').map (toParent db') =
    (journalEntries db ++ postedEntries d txID req.entries).map (toParent db)
  columns : ∀ id r, db.accounts.find? id = some r →
    ∃ r', db'.accounts.find? id = some r' ∧ r'.toAccountColumns = r.toAccountColumns
  available : ∀ id r, db.accounts.find? id = some r → r.parentAccountID = none →
    logicalSum (fun b => b.availableMinor.toInt) id db' =
      logicalSum (fun b => b.availableMinor.toInt) id db + signedTotal r.normalBalance
        (onAccount id ((postedEntries d txID req.entries).map (toParent db)))
  pending : req.record = none → ∀ id, logicalSum (fun b => b.pendingMinor.toInt) id db' =
    logicalSum (fun b => b.pendingMinor.toInt) id db

theorem postedAlike (hs : Shards SameKind db) {d : Draws} {choice : UUID → ℕ}
    (hooks : Recording req.record)
    (h : postTransaction { d with shard := choice } txID req db = .ok (t, db')) :
    PostedAlike d txID req db db' := by
  have hc := (postTransaction_committed hooks h).1
  have hentries : t.entries.map (toParent db) =
      (postedEntries d txID req.entries).map (toParent db) := by
    rw [postTransaction_entries h]
    exact map_toParent_postedEntries hs d { d with shard := choice } txID req.entries
  refine ⟨?_, fun id r hr => ?_, fun id r hr hnone => ?_, fun hrecord id => ?_⟩
  · have htoParent : toParent db' = toParent db := by
      funext e
      rw [toParent, hc.parentOf, toParent]
    rw [htoParent, hc.journal, List.map_append, List.map_append, hentries]
  · obtain ⟨pending, hmoved⟩ := hc.accounts
    obtain ⟨r', hr', hm⟩ := hmoved.rows id r hr
    exact ⟨r', hr', hm.columns⟩
  · rw [hc.logicalSum_available hs hr hnone, hentries]
  · rw [(postTransaction_moved hrecord h).logicalSum (g := fun _ _ => 0) id
      fun k r r' _ hm => hm.pending]
    simp

/-- Two runs of one request that draw different shards, and both commit, leave every account that is
no shard with the same balance, now and as of any instant, and the same journal up to the parents
of shards. In each, an account's entries go to one of its active shards, if it has any, as they
are. -/
theorem shard_choice_invisible (hs : Shards SameKind db) (d : Draws) (choice₁ choice₂ : UUID → ℕ)
    {txID : UUID} {req : TransactionRequest} (hooks : Recording req.record) {t₁ t₂ : Transaction}
    {db₁ db₂ : DB}
    (h₁ : postTransaction { d with shard := choice₁ } txID req db = .ok (t₁, db₁))
    (h₂ : postTransaction { d with shard := choice₂ } txID req db = .ok (t₂, db₂)) :
    (∀ id r, db.accounts.find? id = some r → r.parentAccountID = none →
      (∀ b₁ b₂, getBalance id db₁ = .ok b₁ → getBalance id db₂ = .ok b₂ →
        b₁.available = b₂.available ∧ (req.record = none → b₁.pending = b₂.pending)) ∧
      ∀ instant, getBalanceAsOf id instant db₁ = getBalanceAsOf id instant db₂) ∧
    (journalEntries db₁).map (toParent db₁) = (journalEntries db₂).map (toParent db₂) ∧
    RoutedTo db req.entries t₁.entries ∧ RoutedTo db req.entries t₂.entries := by
  have ha₁ := postedAlike hs hooks h₁
  have ha₂ := postedAlike hs hooks h₂
  have hj := ha₁.journal.trans ha₂.journal.symm
  refine ⟨fun id r hr hnone => ⟨fun b₁ b₂ hb₁ hb₂ => ?_, fun instant => ?_⟩, hj,
    postTransaction_routedTo h₁, postTransaction_routedTo h₂⟩
  all_goals
    obtain ⟨r₁, hr₁, hcols₁⟩ := ha₁.columns id r hr
    obtain ⟨r₂, hr₂, hcols₂⟩ := ha₂.columns id r hr
  · obtain ⟨a₁, ha, -, hcur₁, hpcur₁, havail₁, hpend₁, -⟩ := getBalance_eq_ok hb₁
    obtain rfl : r₁ = a₁ := Option.some.inj (hr₁.symm.trans ha)
    obtain ⟨a₂, ha, -, hcur₂, hpcur₂, havail₂, hpend₂, -⟩ := getBalance_eq_ok hb₂
    obtain rfl : r₂ = a₂ := Option.some.inj (hr₂.symm.trans ha)
    have hcurrency : r₁.currency = r₂.currency := by rw [hcols₁, hcols₂]
    have hmoney {m₁ m₂ : Money} (hm₁ : m₁.currency = r₁.currency) (hm₂ : m₂.currency = r₂.currency)
        (hamount : m₁.amountMinor.toInt = m₂.amountMinor.toInt) : m₁ = m₂ := by
      obtain ⟨n₁, c₁⟩ := m₁
      obtain ⟨n₂, c₂⟩ := m₂
      exact Money.mk.injEq .. ▸ ⟨Int64.toInt_inj.1 hamount, hm₁.trans (hcurrency.trans hm₂.symm)⟩
    refine ⟨hmoney hcur₁ hcur₂ ?_, fun hrecord => hmoney hpcur₁ hpcur₂ ?_⟩
    · rw [havail₁, havail₂, ha₁.available id r hr hnone, ha₂.available id r hr hnone]
    · rw [hpend₁, hpend₂, ha₁.pending hrecord, ha₂.pending hrecord]
  · exact getBalanceAsOf_congr hr₁ hr₂ (hcols₁.trans hcols₂.symm) (by rw [hcols₁]; exact hnone) hj
      instant

/-- The float is credited on the shard with the given position. -/
def samplePost (choice : ℕ) (db : DB) : Except Error (Transaction × DB) :=
  postTransaction { sampleDraws 3 with shard := fun _ => choice } 3 (sampleRequest 2 1 500) db

/-- The accounts of its entries, if the float's balance can be read afterwards. -/
def samplePlaces (choice : ℕ) (db : DB) : Except Error (List UUID) := do
  let (t, db') ← samplePost choice db
  discard (getBalance 1 db')
  pure (t.entries.map fun e => e.accountID)

theorem shard_choice_invisible_sample :
    ∃ t₁ db₁ t₂ db₂ b₁ b₂, samplePost 0 (runOps sampleSplit .empty) = .ok (t₁, db₁) ∧
      samplePost 1 (runOps sampleSplit .empty) = .ok (t₂, db₂) ∧
      t₁.entries.map (fun e => e.accountID) = [2, 10] ∧
      t₂.entries.map (fun e => e.accountID) = [2, 11] ∧
      getBalance 1 db₁ = .ok b₁ ∧ getBalance 1 db₂ = .ok b₂ ∧ b₁.available = b₂.available := by
  have hplaces₁ : samplePlaces 0 (runOps sampleSplit .empty) = .ok [2, 10] := by decide +kernel
  have hplaces₂ : samplePlaces 1 (runOps sampleSplit .empty) = .ok [2, 11] := by decide +kernel
  obtain ⟨⟨t₁, db₁⟩, h₁, hrest⟩ := bind_eq_ok.1 hplaces₁
  obtain ⟨_, hb, he₁⟩ := bind_eq_ok.1 hrest
  obtain ⟨b₁, hb₁, -⟩ := map_eq_ok.1 hb
  obtain ⟨⟨t₂, db₂⟩, h₂, hrest⟩ := bind_eq_ok.1 hplaces₂
  obtain ⟨_, hb, he₂⟩ := bind_eq_ok.1 hrest
  obtain ⟨b₂, hb₂, -⟩ := map_eq_ok.1 hb
  have hfloat : ((runOps sampleSplit .empty).accounts.find? 1).map (fun r => r.parentAccountID) =
      some none := by decide +kernel
  obtain ⟨r, hr, hnone⟩ := Option.map_eq_some_iff.1 hfloat
  have hsame := shard_choice_invisible (runOps_sameKind sampleSplit (shards_empty _)) (sampleDraws 3)
    (fun _ => 0) (fun _ => 1) recording_none h₁ h₂
  exact ⟨t₁, db₁, t₂, db₂, b₁, b₂, h₁, h₂, Except.ok.inj he₁, Except.ok.inj he₂, hb₁, hb₂,
    ((hsame.1 1 r hr hnone).1 b₁ b₂ hb₁ hb₂).1⟩

/-- Where both shards are frozen, the entry that names the float stays on the float itself. -/
theorem entries_stay_on_parent :
    let db := setStatus 10 .frozen (setStatus 11 .frozen (runOps sampleSplit .empty))
    ([1, 10, 11].map fun id => (db.accounts.find? id).map fun r => r.parentAccountID) =
        [some none, some (some 1), some (some 1)] ∧
      ∀ choice : Fin 2, samplePlaces choice db = .ok [2, 1] := by
  decide +kernel

end LedgerCore.Ledger
