import LedgerCore.Http.Idempotence
import LedgerCore.Ledger.Lasting

/-! Rejections that are stored with their key, and what the same request meets later. -/
namespace LedgerCore.Http
open LedgerCore.Program LedgerCore.Ledger

def IdemState.idempotent (p : Process) (s : IdemState) : Idempotent :=
  ⟨s.principalID, s.key, some (renderCreated p.encoder)⟩

def IdemState.posting (p : Process) (s : IdemState) (type : TransactionType)
    (externalRef : Option String) (metadata : Metadata) (entries : List EntryRequest) :
    TransactionRequest :=
  { principalID := s.principalID, type, externalRef, metadata, entries, idempotencyKey := none
    idempotency := some (s.idempotent p), record := none }

/-- What the handler asks of the ledger, once the request holds its key. -/
def execute (p : Process) (r : Request) (s : IdemState) (d : Draws) (txID : UUID) (db : DB) :
    Except Error (Ledger.Transaction × DB) :=
  match r.operation with
  | .error e => .error e
  | .ok (.post type externalRef metadata entries) =>
    postTransaction d txID (s.posting p type externalRef metadata entries) db
  | .ok (.reverse transactionID reason) =>
    doReverse d txID transactionID reason (some (s.idempotent p)) none db

/-- If the request gets as far as `applyEntries`, no account that it posts to would leave the range of
its balance. -/
def Request.Fits (p : Process) (r : Request) (s : IdemState) (d : Draws) (txID : UUID) (db : DB) :
    Prop :=
  match r.operation with
  | .error _ => True
  | .ok (.post type externalRef metadata entries) =>
    (s.posting p type externalRef metadata entries).validate = .ok () →
      FitsOnceStored d (postHeader txID (s.posting p type externalRef metadata entries).withKey)
        (routed d entries db) db
  | .ok (.reverse transactionID reason) => ∀ original,
    loadTransactionForUpdate transactionID db = .ok original →
      FitsOnceStored d (reversalHeader txID transactionID reason (some (s.idempotent p)))
        (mirrored original.entries) db

/-- `json.Marshal` fails on a response only for an amount that does not validate. -/
def Encoder.Encodes (encoder : Encoder) : Prop :=
  ∀ t : TransactionResponse, (∀ e ∈ t.entries, e.amount.validate = .ok ()) →
    ∃ body, encoder.transaction t = .ok body

variable {db db' : DB}

theorem renderCreated_transient {encoder : Encoder} (henc : encoder.Encodes) (principalID key : String) :
    RendersTransient (some ⟨principalID, key, some (renderCreated encoder)⟩) := by
  intro i hi render hrender t ht
  cases hi
  cases hrender
  have hamounts : ∀ e ∈ (newTransactionResponse t).entries, e.amount.validate = .ok () := by
    intro e he
    obtain ⟨e₀, he₀, rfl⟩ := List.mem_map.1 he
    exact if_pos (ht e₀ he₀)
  obtain ⟨body, hbody⟩ := henc _ hamounts
  rw [renderCreated, hbody]
  exact raises_ok _

/-- A posting that is refused for good names an account of another currency, if it fits. -/
theorem post_refused {d : Draws} {txID : UUID} {req : TransactionRequest} {e : Error}
    (h : Regular db) (hlasting : Lasting db db') (h' : Regular db')
    (hrecord : req.record = none) (hrender : RendersTransient req.idempotency)
    (hfits : req.validate = .ok () →
      FitsOnceStored d (postHeader txID req.withKey) (routed d req.entries db) db)
    (hrun : postTransaction d txID req db = .error e) (he : isDeterministic e = true)
    (d' : Draws) (txID' : UUID) : ∃ e', postTransaction d' txID' req db' = .error e' := by
  cases hrun' : postTransaction d' txID' req db' with
  | error e' => exact ⟨e', rfl⟩
  | ok x =>
    have hooks : Recording req.record := by simp [Recording, hrecord]
    obtain ⟨_, hvalid, -⟩ := bind_eq_ok.1 hrun'
    -- The accounts that are there have the currencies that they had before.
    have hcurrency : InCurrency req.entries db := by
      intro e he r hr
      obtain ⟨r', hr', hsame⟩ := hlasting.currency _ r hr
      exact hsame ▸ postTransaction_inCurrency h'.shards hooks hrun' e he r' hr'
    have htransient := raises_postTransaction_transient h.referenced h.shards hvalid hcurrency
      (hfits hvalid) hrecord hrender e hrun
    cases he.symm.trans htransient

/-- A reversal that is refused for good gives no reason, or is of a transaction that was reversed,
if it fits. -/
theorem reverse_refused {d : Draws} {reversalID txID : UUID} {reason : String} {e : Error}
    {idem : Option Idempotent} (h : Regular db) (hlasting : Lasting db db')
    (hrender : RendersTransient idem)
    (hfits : ∀ original, loadTransactionForUpdate txID db = .ok original →
      FitsOnceStored d (reversalHeader reversalID txID reason idem) (mirrored original.entries) db)
    (hrun : doReverse d reversalID txID reason idem none db = .error e)
    (he : isDeterministic e = true) (d' : Draws) (reversalID' : UUID) :
    ∃ e', doReverse d' reversalID' txID reason idem none db' = .error e' := by
  cases hrun' : doReverse d' reversalID' txID reason idem none db' with
  | error e' => exact ⟨e', rfl⟩
  | ok x =>
    have hreason : reason ≠ "" := by
      rintro rfl
      simp [doReverse] at hrun'
    have hposted : ∀ status ∈ statusOf txID db, status = .posted := by
      intro status hstatus
      by_contra hne
      obtain ⟨status', hs', hne'⟩ := hlasting.settled txID status hstatus hne
      have hmarks := (doReverse_marks recording_none hrun').1
      exact hne' (Option.some.inj (hs'.symm.trans (hmarks.target txID rfl).1))
    have htransient := raises_doReverse_transient h.referenced h.doubleEntries h.bounded hreason
      hposted hfits hrender e hrun
    cases he.symm.trans htransient

/-- In every history of the ledger: a request that would move no balance out of its range if it came
to that, and that is refused with an error that is stored with its key, is refused in every later state. -/
theorem stored_rejection_lasts {p : Process} (henc : p.encoder.Encodes) {r : Request} {s : IdemState}
    {d : Draws} {txID : UUID} {e : Error} (hreach : Relation.ReflTransGen Evolves .empty db)
    (hfits : r.Fits p s d txID db) (hrun : execute p r s d txID db = .error e)
    (he : isDeterministic e = true) (hlater : Relation.ReflTransGen Evolves db db')
    (d' : Draws) (txID' : UUID) : ∃ e', execute p r s d' txID' db' = .error e' := by
  obtain ⟨hregular, -⟩ := evolves_regular hreach regular_empty
  obtain ⟨hregular', hlasting⟩ := evolves_regular hlater hregular
  have hrender := renderCreated_transient henc s.principalID s.key
  unfold execute at hrun ⊢
  unfold Request.Fits at hfits
  cases hop : r.operation with
  | error e₀ => exact ⟨e₀, rfl⟩
  | ok op =>
    rw [hop] at hrun hfits
    cases op with
    | post type externalRef metadata entries =>
      refine post_refused hregular hlasting hregular' ?_ ?_ ?_ hrun he d' txID'
      · rfl
      · exact hrender
      · exact hfits
    | reverse transactionID reason =>
      exact reverse_refused hregular hlasting hrender hfits hrun he d' txID'

def sampleHolder : IdemState := ⟨"p", (8 : UUID).string⟩

/-- The accounts are in rupees. -/
def sampleForeign : Request :=
  { sampleRequest with
    operation := .ok (.post .payin none []
      [⟨1, .debit, ⟨500, "USD"⟩⟩, ⟨2, .credit, ⟨500, "USD"⟩⟩]) }

theorem stored_rejection_lasts_sample :
    ∃ e, execute (sampleProcess 1) sampleForeign sampleHolder (sampleDraws 2) 3
        (runOps (sampleOps.take 2) .empty) = .error e ∧ isDeterministic e = true ∧
      ∃ e', execute (sampleProcess 1) sampleForeign sampleHolder (sampleDraws 9) 10
        (runOps (sampleOps.drop 2) (runOps (sampleOps.take 2) .empty)) = .error e' := by
  have hrefused : (match execute (sampleProcess 1) sampleForeign sampleHolder (sampleDraws 2) 3
      (runOps (sampleOps.take 2) .empty) with
    | .error e => isDeterministic e
    | .ok _ => false) = true := by decide +kernel
  have hroom : Ledger.Fits (routed (sampleDraws 2) [⟨1, .debit, ⟨500, "USD"⟩⟩, ⟨2, .credit, ⟨500, "USD"⟩⟩]
      (runOps (sampleOps.take 2) .empty)) (runOps (sampleOps.take 2) .empty) := by decide +kernel
  have hfits : sampleForeign.Fits (sampleProcess 1) sampleHolder (sampleDraws 2) 3
      (runOps (sampleOps.take 2) .empty) := fun _ _ => hroom
  split at hrefused
  · next e hrun =>
    exact ⟨e, hrun, hrefused, stored_rejection_lasts (fun _ _ => ⟨_, rfl⟩)
      (evolves_runOps _ .empty) hfits hrun hrefused (evolves_runOps _ _) _ _⟩
  · cases hrefused

def holdingKey (db : DB) : DB :=
  match Idempotency.reserve 4 ⟨"p", (8 : UUID).string, [1], "POST", "/v1/transactions", 100, 30⟩ db with
  | .ok (_, db') => db'
  | .error _ => db

theorem evolves_holdingKey (db : DB) : Evolves db (holdingKey db) := by
  have hsame : Evolves db db :=
    .others db db.outbox db.idempotencyKeys db.sagaInstances db.sagaSteps
  unfold holdingKey
  split
  · next won db' hreserve =>
    rcases Idempotency.reserve_cases hreserve with ⟨-, rfl⟩ | ⟨-, row, keys, -, -, rfl⟩
    · exact hsame
    · exact .others db db.outbox keys db.sagaInstances db.sagaSteps
  · exact hsame

/-- The wallet holds as much as a balance can. -/
def sampleFull : List LedgerOp :=
  sampleOps.take 2 ++
    [.postTransaction (sampleDraws 2) 3 (Ledger.sampleRequest 1 2 9223372036854775807)
      recording_none]

/-- A posting that overflows a balance is refused for good; once an earlier one is reversed, the
same request goes through. -/
theorem stored_rejection_overturned :
    let db := holdingKey (runOps sampleFull .empty)
    let db' := runOps [.reverseTransaction (sampleDraws 5) 6 3 "duplicate" none none
      recording_none] db
    Relation.ReflTransGen Evolves .empty db ∧ Relation.ReflTransGen Evolves db db' ∧
      (∃ e, execute (sampleProcess 1) sampleRequest sampleHolder (sampleDraws 4) 5 db = .error e ∧
        isDeterministic e = true) ∧
      ∃ t, execute (sampleProcess 1) sampleRequest sampleHolder (sampleDraws 7) 8 db' = .ok t := by
  intro db db'
  refine ⟨(evolves_runOps _ _).tail (evolves_holdingKey _), evolves_runOps _ _, ?_, ?_⟩
  · have hrefused : (match execute (sampleProcess 1) sampleRequest sampleHolder (sampleDraws 4) 5
        db with
      | .error e => isDeterministic e
      | .ok _ => false) = true := by decide +kernel
    split at hrefused
    · next e hrun => exact ⟨e, hrun, hrefused⟩
    · cases hrefused
  · have haccepted : (match execute (sampleProcess 1) sampleRequest sampleHolder (sampleDraws 7) 8
        db' with
      | .error _ => false
      | .ok _ => true) = true := by decide +kernel
    split at haccepted
    · cases haccepted
    · next t hrun => exact ⟨t, hrun⟩

end LedgerCore.Http
