import LedgerCore.Ledger.MoneyJson
import LedgerCore.Projector.Consumer
import LedgerCore.Text.Runes
import LedgerCore.Text.Timestamp

/-! The records of the transaction topic as bytes. `handle` decodes the envelope, and `Apply` the
payload in it: bytes that are no envelope go to the dead-letter topic, and so does an envelope of a
type that `Apply` does not know. -/
namespace LedgerCore.Projector.Wire
open LedgerCore.Program LedgerCore.Json LedgerCore.Ledger LedgerCore.Text

/-- `outbox.Envelope`; the payload is the document of its `json.RawMessage`, which may be missing. -/
structure Envelope where
  eventID : UUID
  eventType : String
  eventVersion : ℤ
  aggregateID : String
  occurredAt : ℤ
  traceID : String
  payload : Option Json

/-- `Time.UnmarshalJSON` reads the text of the string, escapes included. -/
def intoTime (t : ℤ) (text : List Char) : Option ℤ :=
  if text = "null".toList then some t
  else if 2 ≤ text.length ∧ text.head? = some '"' ∧ text.getLast? = some '"' then
    Timestamp.parse (text.drop 1).dropLast
  else none

/-- The fields, given a value and its text. -/
def Envelope.fields : List (Field (Json × List Char) Envelope) :=
  [⟨"event_id", fun e d => (intoText UUID.unmarshalText e.eventID d.1).map
      fun eventID => { e with eventID }⟩,
    ⟨"event_type", fun e d => (intoString e.eventType d.1).map
      fun eventType => { e with eventType }⟩,
    ⟨"event_version", fun e d => (intoInt (-2 ^ 15) (2 ^ 15 - 1) e.eventVersion d.1).map
      fun eventVersion => { e with eventVersion }⟩,
    ⟨"aggregate_id", fun e d => (intoString e.aggregateID d.1).map
      fun aggregateID => { e with aggregateID }⟩,
    ⟨"occurred_at", fun e d => (intoTime e.occurredAt d.2).map
      fun occurredAt => { e with occurredAt }⟩,
    ⟨"trace_id", fun e d => (intoString e.traceID d.1).map fun traceID => { e with traceID }⟩,
    ⟨"payload", fun e d => some { e with payload := some d.1 }⟩]

def envelopeOf (text : List Char) : Option Envelope := do
  let zero : Envelope := ⟨.nil, "", 0, "", 0, "", none⟩
  match ← valid text with
  | .null => some zero
  | .object _ => do
    let members ← fieldsOf text
    intoMembers Envelope.fields false zero members
  | _ => none

/-- `json.Unmarshal(rec.Value, &envelope)` -/
def unmarshalEnvelope (value : Bytes) : Option Envelope := envelopeOf (runes value)

structure TransactionPayload where
  transactionID : UUID
  balances : Slice EventBalance

def balanceFields : List (Field Json EventBalance) :=
  [⟨"account_id", fun b d => (intoText UUID.unmarshalText b.accountID d).map
      fun accountID => { b with accountID }⟩,
    ⟨"available", fun b d => (intoMoney b.available d).map fun available => { b with available }⟩,
    ⟨"version", fun b d => (intoInt (-2 ^ 63) (2 ^ 63 - 1) b.version.toInt d).map
      fun version => { b with version := .ofInt version }⟩]

def TransactionPayload.fields : List (Field Json TransactionPayload) :=
  [⟨"transaction_id", fun p d => (intoText UUID.unmarshalText p.transactionID d).map
      fun transactionID => { p with transactionID }⟩,
    ⟨"balances", fun p d => (intoSlice ⟨.nil, ⟨0, ""⟩, 0⟩ (intoStruct balanceFields false)
      p.balances d).map fun balances => { p with balances }⟩]

/-- `json.Unmarshal(envelope.Payload, &payload)`; a payload that is missing is no document. -/
def unmarshalPayload (payload : Option Json) : Option (List EventBalance) := do
  let p ← intoStruct TransactionPayload.fields false ⟨.nil, [], []⟩ (← payload)
  some p.balances.elements

/-- What `encoding/json` makes of a record; `cause` is what it says of bytes that it cannot decode. -/
def unmarshal (cause : Bytes → String) (value : Bytes) : Except Error Decoded :=
  match unmarshalEnvelope value with
  | none => .error ⟨[], cause value⟩
  | some envelope => .ok
    { eventID := envelope.eventID, eventType := envelope.eventType
      balances := match unmarshalPayload envelope.payload with
        | some balances => .ok balances
        | none => .error ⟨[], cause value⟩ }

def handle (cause : Bytes → String) (a : Attempt) (r : Record) (s : Sinks) :
    Except Error Unit × Sinks := Projector.handle (unmarshal cause) a r s

/-- An envelope of a type that `Apply` knows has a payload that it can decode. -/
def Decodes (value : Bytes) : Prop :=
  ∀ envelope, unmarshalEnvelope value = some envelope → Known envelope.eventType →
    ∃ balances, unmarshalPayload envelope.payload = some balances

/-- The record holds an event with balances, which `Apply` knows. -/
structure Holds (value : Bytes) (envelope : Envelope) (balances : List EventBalance) : Prop where
  found : unmarshalEnvelope value = some envelope
  known : Known envelope.eventType
  payload : unmarshalPayload envelope.payload = some balances

/-- The rows of the balances pass the CHECK and the foreign key of `balance_projections`. -/
def Admitted (accounts : List UUID) (balances : List EventBalance) (db : ProjectionDB) : Prop :=
  ∀ b ∈ balances, 0 ≤ b.version ∧
    (b.accountID ∈ accounts ∨ db.balanceProjections.find? b.accountID ≠ none)

/-- If the event of the record is new, its rows pass the constraints. -/
def Admits (a : Attempt) (value : Bytes) (db : ProjectionDB) : Prop :=
  ∀ envelope balances, Holds value envelope balances →
    db.processedEvents.find? envelope.eventID = none → Admitted a.accounts balances db

/-- Every statement that the record's event is applied with succeeds. -/
def Answers (a : Attempt) (value : Bytes) (db : ProjectionDB) : Prop :=
  ∀ envelope balances, Holds value envelope balances →
    (project envelope.eventID envelope.eventType balances).Answered (exec a.accounts) db

section Statements
variable {accounts : List UUID} {eventID : UUID} {eventType : String} {balances : List EventBalance}
  {db : ProjectionDB}

theorem balanceWrite_ok_iff {b : EventBalance} {old : Option ProjectionRow} :
    (∃ row, balanceWrite accounts eventID b old = .ok row) ↔
      0 ≤ b.version ∧ (b.accountID ∈ accounts ∨ old ≠ none) := by
  simp only [balanceWrite, bind_eq_ok, ProjectionColumns.check, failIf_eq_ok]
  split_ifs with hversion
  · have hforeign : ¬(old = none ∧ b.accountID ∉ accounts) ↔ b.accountID ∈ accounts ∨ old ≠ none := by
      tauto
    simp [hversion, hforeign, pure, Except.pure]
  · simp [hversion]

theorem forM_applyBalance_ok_iff :
    (∃ x, (balances.forM fun b => (.perform (Call.applyBalance eventID b) : Prog Reply Error Unit)).run
      (exec accounts) db = .ok x) ↔ Admitted accounts balances db := by
  induction balances generalizing db with
  | nil => exact ⟨fun _ _ hb => (nomatch hb), fun _ => ⟨((), db), rfl⟩⟩
  | cons b balances ih =>
    have hrow := @balanceWrite_ok_iff accounts eventID b (db.balanceProjections.find? b.accountID)
    -- A row that was written is on an account that was admitted.
    have hafter (row : Option ProjectionRow) (hb : b.accountID ∈ accounts ∨
        db.balanceProjections.find? b.accountID ≠ none) : Admitted accounts balances
          { db with balanceProjections := db.balanceProjections.put b.accountID row } ↔
        Admitted accounts balances db := by
      refine forall₂_congr fun x _ => and_congr_right fun _ => ?_
      rw [Table.find?_put]
      split_ifs with heq
      · rw [heq]
        cases row with
        | none => rfl
        | some row => simp [hb]
      · rfl
    constructor
    · rintro ⟨⟨_, db'⟩, hrun⟩
      obtain ⟨_, db₁, hexec, hrun⟩ := Prog.run_perform_bind_ok.1 hrun
      obtain ⟨row, hwrite, rfl⟩ := exec_applyBalance.1 hexec
      have hb := hrow.1 ⟨row, hwrite⟩
      exact List.forall_mem_cons.2 ⟨hb, (hafter row hb.2).1 (ih.1 ⟨_, hrun⟩)⟩
    · intro h
      obtain ⟨hb, hrest⟩ := List.forall_mem_cons.1 h
      obtain ⟨row, hwrite⟩ := hrow.2 hb
      obtain ⟨x, hrun⟩ := ih.2 ((hafter row hb.2).2 hrest)
      exact ⟨x, Prog.run_perform_bind_ok.2 ⟨(), _, exec_applyBalance.2 ⟨row, hwrite, rfl⟩, hrun⟩⟩

/-- The transaction commits exactly if the event was handled before or its rows are admitted. -/
theorem project_ok_iff : (∃ x, (project eventID eventType balances).run (exec accounts) db = .ok x) ↔
    (db.processedEvents.find? eventID = none → Admitted accounts balances db) := by
  have hrun : (project eventID eventType balances).run (exec accounts) db =
      (if (db.processedEvents.find? eventID).isNone then do
        balances.forM fun b => .perform (Call.applyBalance eventID b)
        pure true
      else pure false : Prog Reply Error Bool).run (exec accounts)
        (recordEvent eventID eventType db).2 := by
    rw [project, Prog.run_bind, Prog.run_perform]
    rfl
  rw [hrun]
  cases hold : db.processedEvents.find? eventID with
  | some type => simp
  | none =>
    simp only [Option.isNone_none, if_true, forall_true_left]
    refine .trans ⟨?_, ?_⟩
      (@forM_applyBalance_ok_iff accounts eventID balances (recordEvent eventID eventType db).2)
    · rintro ⟨x, h⟩
      obtain ⟨u, db', h, -⟩ := Prog.run_bind_ok.1 h
      exact ⟨_, h⟩
    · rintro ⟨x, h⟩
      exact ⟨_, Prog.run_bind_ok.2 ⟨x.1, x.2, h, rfl⟩⟩

theorem project_onlyFails {P : Error → Prop} : (project eventID eventType balances).OnlyFails P := by
  intro recorded
  change Prog.OnlyFails _ (if recorded = true then _ else _)
  split_ifs
  · exact Prog.OnlyFails.bind (Prog.onlyFails_forM fun b _ => fun _ => trivial) fun _ => trivial
  · trivial

theorem project_error {e : Error}
    (h : (project eventID eventType balances).run (exec accounts) db = .error e) :
    e.sentinels = [] := by
  have hcall (c : Call) (db : ProjectionDB) :
      Raises (fun e : Error => e.sentinels = []) (exec accounts c db) := by
    cases c with
    | recordEvent eventID eventType => exact raises_ok _
    | applyBalance eventID b =>
      refine Raises.map (raises_mapError ?_)
      exact fun _ _ => rfl
  exact Prog.raises_of_onlyCalls (Prog.onlyCalls_true _) project_onlyFails (fun c db _ => hcall c db) e h

theorem admitted_of_answered (h : (project eventID eventType balances).Answered (exec accounts) db) :
    db.processedEvents.find? eventID = none → Admitted accounts balances db := by
  refine (@project_ok_iff accounts eventID eventType balances db).1 ?_
  cases hrun : (project eventID eventType balances).run (exec accounts) db with
  | error e =>
    have hfails : (project eventID eventType balances).OnlyFails fun _ => False := project_onlyFails
    exact (Prog.raises_of_answered hfails h e hrun).elim
  | ok x => exact ⟨x, rfl⟩

end Statements

section Spec
variable {cause : Bytes → String} {a : Attempt} {r : Record} {s : Sinks} {envelope : Envelope}
  {balances : List EventBalance}

theorem deadLetter_ok (hbroker : a.broker = .none) (e : Error) : (deadLetter a r e s).1 = .ok () := by
  rw [deadLetter, hbroker]
  rfl

theorem handle_ok_of_not_holds (hbroker : a.broker = .none) (hdecodes : Decodes r.value)
    (hnone : ∀ envelope balances, ¬Holds r.value envelope balances) :
    (handle cause a r s).1 = .ok () := by
  unfold handle Projector.handle unmarshal
  cases hr : unmarshalEnvelope r.value with
  | none => exact deadLetter_ok hbroker _
  | some envelope =>
    have hunknown : ¬Known envelope.eventType := by
      intro hknown
      obtain ⟨balances, hpayload⟩ := hdecodes envelope hr hknown
      exact hnone envelope balances ⟨hr, hknown, hpayload⟩
    dsimp only
    rw [Attempt.apply, check_unknown hunknown]
    dsimp only
    rw [Error.sentinels_errorf, if_pos List.mem_cons_self]
    exact deadLetter_ok hbroker _

theorem handle_ok_iff_of_holds (hdatabase : a.database = .none) (h : Holds r.value envelope balances) :
    (handle cause a r s).1 = .ok () ↔
      (s.projections.processedEvents.find? envelope.eventID = none →
        Admitted a.accounts balances s.projections) := by
  have hcheck : (Decoded.mk envelope.eventID envelope.eventType (.ok balances)).check = .ok balances :=
    bind_eq_ok.2 ⟨(), failIf_eq_ok.2 (not_not.2 h.known), rfl⟩
  rw [← project_ok_iff]
  have hunmarshal : unmarshal cause r.value =
      .ok ⟨envelope.eventID, envelope.eventType, .ok balances⟩ := by
    rw [unmarshal, h.found]
    dsimp only
    rw [h.payload]
  simp only [handle, Projector.handle, hunmarshal, Attempt.apply, hcheck, hdatabase, Fault.meet,
    transact]
  cases hrun : (project envelope.eventID envelope.eventType balances).run (exec a.accounts)
    s.projections with
  | ok x => simp
  | error e =>
    have hsentinels : e.sentinels = [] := project_error hrun
    simp [hsentinels]

/-- A payload that cannot be decoded is an error, though nothing failed. -/
theorem handle_undecoded (hr : unmarshalEnvelope r.value = some envelope)
    (hknown : Known envelope.eventType) (hpayload : unmarshalPayload envelope.payload = none) :
    (handle cause a r s).1 ≠ .ok () := by
  have hcheck : (Decoded.mk envelope.eventID envelope.eventType (.error ⟨[], cause r.value⟩)).check =
      .error (Error.wrap ("decode " ++ envelope.eventType ++ " payload for event " ++
        envelope.eventID.string) ⟨[], cause r.value⟩) := by
    rw [Decoded.check, failIf, if_neg (not_not_intro hknown)]
    rfl
  have hunmarshal : unmarshal cause r.value =
      .ok ⟨envelope.eventID, envelope.eventType, .error ⟨[], cause r.value⟩⟩ := by
    rw [unmarshal, hr]
    dsimp only
    rw [hpayload]
  simp only [handle, Projector.handle, hunmarshal, Attempt.apply, hcheck]
  rw [Error.sentinels_wrap, if_neg List.not_mem_nil]
  intro hok
  cases hok

end Spec

/-- If no call to the database or to Kafka is lost, `handle` returns nil for a record, and is done
with it, exactly if no payload of a known event type is undecodable and the rows of a new event pass
the constraints of the read model. Where every statement succeeds the first of the two decides. -/
theorem handle_settles_iff_decodes (cause : Bytes → String) (a : Attempt) (r : Record) (s : Sinks)
    (hdatabase : a.database = .none) (hbroker : a.broker = .none) :
    (((handle cause a r s).1 = .ok () ∧ Done (unmarshal cause) r (handle cause a r s).2) ↔
      Decodes r.value ∧ Admits a r.value s.projections) ∧
    (Answers a r.value s.projections →
      (((handle cause a r s).1 = .ok () ∧ Done (unmarshal cause) r (handle cause a r s).2) ↔
        Decodes r.value)) := by
  have hdone : (handle cause a r s).1 = .ok () → Done (unmarshal cause) r (handle cause a r s).2 :=
    (handle_eq (Prod.eta _).symm).2
  have hiff : (handle cause a r s).1 = .ok () ↔ Decodes r.value ∧ Admits a r.value s.projections := by
    constructor
    · refine fun hok => ⟨fun envelope hr hknown => ?_, fun envelope balances h => ?_⟩
      · cases hpayload : unmarshalPayload envelope.payload with
        | some balances => exact ⟨balances, rfl⟩
        | none => exact absurd hok (handle_undecoded hr hknown hpayload)
      · exact (handle_ok_iff_of_holds hdatabase h).1 hok
    · rintro ⟨hdecodes, hadmits⟩
      by_cases hholds : ∃ envelope balances, Holds r.value envelope balances
      · obtain ⟨envelope, balances, h⟩ := hholds
        exact (handle_ok_iff_of_holds hdatabase h).2 (hadmits envelope balances h)
      · exact handle_ok_of_not_holds hbroker hdecodes fun envelope balances h =>
          hholds ⟨envelope, balances, h⟩
  have hsettles : ((handle cause a r s).1 = .ok () ∧
      Done (unmarshal cause) r (handle cause a r s).2) ↔ (handle cause a r s).1 = .ok () :=
    and_iff_left_of_imp hdone
  rw [hsettles, hiff]
  refine ⟨.rfl, fun hanswers => and_iff_left fun envelope balances h => ?_⟩
  exact admitted_of_answered (hanswers envelope balances h)

def recordOf (text : String) : Record where
  key := []
  value := text.toList.flatMap String.utf8EncodeChar
  partition := 0
  offset := 0

/-- Nothing fails, and the account is open. -/
def calm : Attempt := ⟨[UUID.nil], .none, .none, ""⟩

def posted : String :=
  "\x7b\"event_type\":\"TransactionPosted\",\"payload\":\x7b\"balances\":[" ++
  "\x7b\"available\":\x7b\"amount\":\"1250\",\"currency\":\"INR\"\x7d,\"version\":3\x7d]\x7d\x7d"

/-- The balances are no array. -/
def poison : String :=
  "\x7b\"event_type\":\"TransactionPosted\",\"payload\":\x7b\"balances\":7\x7d\x7d"

theorem unmarshalEnvelope_recordOf (text : String) :
    unmarshalEnvelope (recordOf text).value = envelopeOf text.toList := by
  rw [unmarshalEnvelope, recordOf, runes_encoded]

theorem handle_settles_posted :
    (handle (fun _ => "") calm (recordOf posted) ⟨.empty, []⟩).1 = .ok () ∧
      Done (unmarshal fun _ => "") (recordOf posted)
        (handle (fun _ => "") calm (recordOf posted) ⟨.empty, []⟩).2 := by
  have hall : ((envelopeOf posted.toList).all fun e => (unmarshalPayload e.payload).any fun balances =>
      balances.all fun b => 0 ≤ b.version ∧ b.accountID ∈ calm.accounts) = true := by decide +kernel
  rw [← unmarshalEnvelope_recordOf] at hall
  have hsome {e : Envelope} (he : unmarshalEnvelope (recordOf posted).value = some e) :
      ∃ balances, unmarshalPayload e.payload = some balances ∧
        ∀ b ∈ balances, 0 ≤ b.version ∧ b.accountID ∈ calm.accounts := by
    rw [he] at hall
    obtain ⟨balances, hpayload, hrows⟩ := (Option.any_eq_true _ _).1 hall
    exact ⟨balances, hpayload, fun b hb => of_decide_eq_true (List.all_eq_true.1 hrows b hb)⟩
  refine (handle_settles_iff_decodes _ calm _ ⟨.empty, []⟩ rfl rfl).1.2 ⟨fun e he _ => ?_, ?_⟩
  · obtain ⟨balances, hpayload, -⟩ := hsome he
    exact ⟨balances, hpayload⟩
  · intro e balances h _ b hb
    obtain ⟨balances', hpayload, hrows⟩ := hsome h.found
    obtain rfl := Option.some.inj (h.payload.symm.trans hpayload)
    exact ⟨(hrows b hb).1, .inl (hrows b hb).2⟩

theorem undecodable_payload_not_settled :
    Answers calm (recordOf poison).value .empty ∧
      (handle (fun _ => "") calm (recordOf poison) ⟨.empty, []⟩).1 ≠ .ok () := by
  have hpayload : ((envelopeOf poison.toList).any fun e =>
      Known e.eventType ∧ (unmarshalPayload e.payload).isNone) = true := by decide +kernel
  rw [← unmarshalEnvelope_recordOf] at hpayload
  obtain ⟨e, he, h⟩ := (Option.any_eq_true _ _).1 hpayload
  obtain ⟨hknown, hnone⟩ := of_decide_eq_true h
  have hnone := Option.isNone_iff_eq_none.1 hnone
  refine ⟨fun e' balances h => ?_, handle_undecoded he hknown hnone⟩
  obtain rfl := Option.some.inj (he.symm.trans h.found)
  cases hnone.symm.trans h.payload

end LedgerCore.Projector.Wire
