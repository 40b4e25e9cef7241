import Mathlib.Logic.Function.Basic
import LedgerCore.Projector.Convergence

/-! The projector's consumer: batches of records from any number of partitions, and the offsets that
it commits. The client moves its cursor past every record that a poll returned; a restarted
consumer begins at the committed offsets. -/
namespace LedgerCore.Projector
open LedgerCore.Program
variable {accounts : List UUID} {db db' : ProjectionDB}

structure Message where
  key : Bytes
  value : Bytes
  deriving DecidableEq, Repr

/-- A message of `kafka.TopicTransaction`, and where it stands. -/
structure Record extends Message where
  partition : ℕ
  offset : ℕ
  deriving DecidableEq, Repr

/-- A message of `kafka.TopicDLQ`, with its headers. -/
structure DeadLetter extends Message where
  sourceTopic : String
  sourcePartition : String
  sourceOffset : String
  error : String
  timestamp : String
  deriving DecidableEq, Repr

def topicTransaction : String := "ledger.events.transaction"

def dlqRecord (r : Record) (cause : Error) (timestamp : String) : DeadLetter where
  key := r.key
  value := r.value
  sourceTopic := topicTransaction
  sourcePartition := toString r.partition
  sourceOffset := toString r.offset
  error := cause.text
  timestamp := timestamp

/-- What becomes of a call to the database or to Kafka. -/
inductive Fault where
  | none
  /-- The call fails and has done nothing. -/
  | lost (e : Error)
  /-- The call is done, and its reply is lost. -/
  | unanswered (e : Error)

def Fault.meet {σ α : Type} (f : Fault) (call : σ → Except Error α × σ) (s : σ) :
    Except Error α × σ :=
  match f with
  | .none => call s
  | .lost e => (.error e, s)
  | .unanswered e => (.error e, (call s).2)

/-- What the consumer writes to: the projector's tables and the dead-letter topic. -/
structure Sinks where
  projections : ProjectionDB
  deadLetters : List DeadLetter

/-- What one call of `handle` meets. -/
structure Attempt where
  accounts : List UUID
  database : Fault
  broker : Fault
  timestamp : String

def transact (accounts : List UUID) (e : Decoded) (balances : List EventBalance)
    (db : ProjectionDB) : Except Error Bool × ProjectionDB :=
  match (project e.eventID e.eventType balances).run (exec accounts) db with
  | .ok (applied, db') => (.ok applied, db')
  | .error err => (.error err, db)

def Attempt.apply (a : Attempt) (e : Decoded) (db : ProjectionDB) :
    Except Error Bool × ProjectionDB :=
  match e.check with
  | .error err => (.error err, db)
  | .ok balances => a.database.meet (transact a.accounts e balances) db

/-- Undisturbed, it does what a consumer does that runs alone. -/
theorem Attempt.apply_eq_transact {a : Attempt} (h : a.database = .none) (envelope : Envelope)
    (db : ProjectionDB) : a.apply envelope.decoded db =
      match engine.transact ⟨envelope, a.accounts⟩ db with
      | .ok (applied, db') => (.ok applied, db')
      | .error err => (.error err, db) := by
  rw [transact_eq, Decoded.apply, Attempt.apply, h]
  cases envelope.decoded.check <;> rfl

def deadLetter (a : Attempt) (r : Record) (cause : Error) (s : Sinks) : Except Error Unit × Sinks :=
  let (produced, deadLetters) := a.broker.meet
    (fun letters => (.ok (), letters ++ [dlqRecord r cause a.timestamp])) s.deadLetters
  (produced.mapError (Error.wrap "produce to dead-letter topic"), { s with deadLetters })

section Consumer
variable (unmarshal : Bytes → Except Error Decoded)

def handle (a : Attempt) (r : Record) (s : Sinks) : Except Error Unit × Sinks :=
  match unmarshal r.value with
  | .error e => deadLetter a r (e.wrap "decode envelope") s
  | .ok envelope =>
    match a.apply envelope s.projections with
    | (.ok _, projections) => (.ok (), { s with projections })
    | (.error e, projections) =>
      if .unknownEventType ∈ e.sentinels then deadLetter a r e { s with projections }
      else (.error (e.wrap ("apply event " ++ envelope.eventID.string)), { s with projections })

/-- The records that `processBatch` handles before the first failure: those that it commits. -/
def toCommit (attempt : Record → Attempt) : List Record → Sinks → List Record × Sinks
  | [], s => ([], s)
  | r :: records, s =>
    match handle unmarshal (attempt r) r s with
    | (.error _, s') => ([], s')
    | (.ok _, s') =>
      let (handled, s'') := toCommit attempt records s'
      (r :: handled, s'')

/-- `CommitRecords`; the records of a partition come in the order of their offsets. -/
def commitRecords (records : List Record) (committed : ℕ → ℕ) : ℕ → ℕ :=
  records.foldl (fun offsets r => Function.update offsets r.partition (r.offset + 1)) committed

variable (log : ℕ → List Message)

/-- `PollFetches`, given the partition of each record that it returns: the records, and the cursor
past all of them. -/
def pollFetches : List ℕ → (ℕ → ℕ) → List Record × (ℕ → ℕ)
  | [], cursor => ([], cursor)
  | p :: partitions, cursor =>
    match (log p)[cursor p]? with
    | none => pollFetches partitions cursor
    | some m =>
      let (records, cursor') :=
        pollFetches partitions (Function.update cursor p (cursor p + 1))
      (⟨m, p, cursor p⟩ :: records, cursor')

/-- The offsets per partition, in the consumer's memory and at the broker. -/
structure Consumer where
  cursor : ℕ → ℕ
  committed : ℕ → ℕ
  sinks : Sinks

inductive Step where
  /-- A turn of `Run`'s loop; `commits` is whether the offset commit reaches the broker. -/
  | poll (partitions : List ℕ) (attempt : Record → Attempt) (commits : Bool)
  | restart

namespace Consumer

def init (sinks : Sinks) : Consumer := ⟨fun _ => 0, fun _ => 0, sinks⟩

def step (s : Consumer) : Step → Consumer
  | .poll partitions attempt commits =>
    let (records, cursor) := pollFetches log partitions s.cursor
    let (handled, sinks) := toCommit unmarshal attempt records s.sinks
    { cursor
      committed := if commits then commitRecords handled s.committed else s.committed
      sinks }
  | .restart => { s with cursor := s.committed }

def run (s : Consumer) (steps : List Step) : Consumer := steps.foldl (step unmarshal log) s

/-- The step is a batch that a transient failure stopped. -/
def Stops (s : Consumer) : Step → Prop
  | .poll partitions attempt _ =>
    let records := (pollFetches log partitions s.cursor).1
    (toCommit unmarshal attempt records s.sinks).1.length < records.length
  | .restart => False

/-- After a batch that was stopped, the consumer does not poll again before a restart. -/
def RestartsWhenStopped (s : Consumer) : List Step → Prop
  | [] => True
  | a :: steps => (s.Stops unmarshal log a → ∀ next ∈ steps.head?, next = .restart) ∧
    (s.step unmarshal log a).RestartsWhenStopped steps

end Consumer

/-- The record is done: its event was applied, now or before, or it is in the dead-letter topic. -/
def Done (r : Record) (s : Sinks) : Prop :=
  (∃ envelope, unmarshal r.value = .ok envelope ∧
    s.projections.processedEvents.find? envelope.eventID ≠ none) ∨
  ∃ cause timestamp, dlqRecord r cause timestamp ∈ s.deadLetters

end Consumer

/-- No event becomes unprocessed and no dead letter is taken back. -/
structure Sinks.Grow (s s' : Sinks) : Prop where
  processedEvents : ∀ id, s.projections.processedEvents.find? id ≠ none →
    s'.projections.processedEvents.find? id ≠ none
  deadLetters : ∀ l ∈ s.deadLetters, l ∈ s'.deadLetters

section Handling
variable {unmarshal : Bytes → Except Error Decoded} {log : ℕ → List Message} {s s' s'' : Sinks}
  {r : Record}

theorem Sinks.Grow.refl (s : Sinks) : s.Grow s := ⟨fun _ => id, fun _ => id⟩

theorem Sinks.Grow.trans (h : s.Grow s') (h' : s'.Grow s'') : s.Grow s'' :=
  ⟨fun id hid => h'.processedEvents id (h.processedEvents id hid),
    fun l hl => h'.deadLetters l (h.deadLetters l hl)⟩

theorem Done.grow (h : Done unmarshal r s) (hg : s.Grow s') : Done unmarshal r s' := by
  rcases h with ⟨envelope, hr, hid⟩ | ⟨cause, timestamp, hl⟩
  · exact .inl ⟨envelope, hr, hg.processedEvents _ hid⟩
  · exact .inr ⟨cause, timestamp, hg.deadLetters _ hl⟩

theorem recordEvent_find? (eventID : UUID) (eventType : String) (db : ProjectionDB) (id : UUID) :
    (recordEvent eventID eventType db).2.processedEvents.find? id ≠ none ↔
      id = eventID ∨ db.processedEvents.find? id ≠ none := by
  rw [recordEvent, Table.find?_put]
  by_cases hid : id = eventID
  · subst hid
    cases db.processedEvents.find? id <;> simp
  · simp [hid]

theorem exec_processedEvents {c : Call} {reply : Reply c}
    (h : exec accounts c db = .ok (reply, db')) (id : UUID)
    (hid : db.processedEvents.find? id ≠ none) : db'.processedEvents.find? id ≠ none := by
  cases c with
  | recordEvent eventID eventType =>
    cases h
    exact (recordEvent_find? eventID eventType db id).2 (.inr hid)
  | applyBalance eventID b =>
    obtain ⟨row, -, rfl⟩ := exec_applyBalance.1 h
    exact hid

theorem run_processedEvents {α : Type} {p : Prog Reply Error α} {a : α}
    (h : p.run (exec accounts) db = .ok (a, db')) (id : UUID)
    (hid : db.processedEvents.find? id ≠ none) : db'.processedEvents.find? id ≠ none :=
  Prog.run_of_onlyCalls (h := exec accounts)
    (T := fun db db' => ∀ id, db.processedEvents.find? id ≠ none → db'.processedEvents.find? id ≠ none)
    (fun _ _ hid => hid) (fun h h' id hid => h' id (h id hid)) (fun _ => exec_processedEvents)
    (Prog.onlyCalls_true p) h id hid

theorem project_processed {eventID : UUID} {eventType : String} {balances : List EventBalance}
    {applied : Bool}
    (h : (project eventID eventType balances).run (exec accounts) db = .ok (applied, db')) :
    db'.processedEvents.find? eventID ≠ none := by
  obtain ⟨recorded, db₁, hrecord, h⟩ := Prog.run_perform_bind_ok.1 h
  cases hrecord
  exact run_processedEvents h _ ((recordEvent_find? ..).2 (.inl rfl))

theorem transact_eq_mk {e : Decoded} {balances : List EventBalance} {o : Except Error Bool}
    (h : transact accounts e balances db = (o, db')) :
    (∀ id, db.processedEvents.find? id ≠ none → db'.processedEvents.find? id ≠ none) ∧
      ∀ applied, o = .ok applied → db'.processedEvents.find? e.eventID ≠ none := by
  unfold transact at h
  cases hrun : (project e.eventID e.eventType balances).run (exec accounts) db with
  | error err =>
    rw [hrun] at h
    cases h
    exact ⟨fun _ => id, nofun⟩
  | ok x =>
    rw [hrun] at h
    cases h
    exact ⟨run_processedEvents hrun, fun _ _ => project_processed hrun⟩

theorem Fault.meet_eq {σ α : Type} {f : Fault} {call : σ → Except Error α × σ} {s s' : σ}
    {o : Except Error α} (h : f.meet call s = (o, s')) :
    (s' = s ∨ ∃ o', call s = (o', s')) ∧ ∀ a, o = .ok a → call s = (.ok a, s') := by
  cases f with
  | none => exact ⟨.inr ⟨o, h⟩, fun a ho => h.trans (by rw [ho])⟩
  | lost e =>
    cases h
    exact ⟨.inl rfl, nofun⟩
  | unanswered e =>
    cases h
    exact ⟨.inr ⟨_, rfl⟩, nofun⟩

theorem Attempt.apply_eq_mk {a : Attempt} {e : Decoded} {o : Except Error Bool}
    (h : a.apply e db = (o, db')) :
    (∀ id, db.processedEvents.find? id ≠ none → db'.processedEvents.find? id ≠ none) ∧
      ∀ applied, o = .ok applied → db'.processedEvents.find? e.eventID ≠ none := by
  unfold Attempt.apply at h
  split at h
  · cases h
    refine ⟨fun _ => id, fun _ ho => ?_⟩
    cases ho
  · obtain ⟨hdb, hok⟩ := Fault.meet_eq h
    refine ⟨?_, fun applied ho => (transact_eq_mk (hok applied ho)).2 applied rfl⟩
    rcases hdb with rfl | ⟨o', hcall⟩
    · exact fun _ => id
    · exact (transact_eq_mk hcall).1

theorem deadLetter_eq {a : Attempt} {cause : Error} {o : Except Error Unit}
    (h : deadLetter a r cause s = (o, s')) :
    s.Grow s' ∧ (o = .ok () → Done unmarshal r s') := by
  unfold deadLetter at h
  rcases hmeet : a.broker.meet (fun letters =>
    (Except.ok (), letters ++ [dlqRecord r cause a.timestamp])) s.deadLetters with ⟨o', letters⟩
  rw [hmeet] at h
  cases h
  obtain ⟨hletters, hok⟩ := Fault.meet_eq hmeet
  refine ⟨⟨fun _ => id, fun l hl => ?_⟩, fun ho => ?_⟩
  · rcases hletters with rfl | ⟨o'', hcall⟩
    · exact hl
    · cases hcall
      exact List.mem_append_left _ hl
  · cases hok () (mapError_eq_ok.1 ho)
    exact .inr ⟨cause, a.timestamp, List.mem_append_right _ List.mem_cons_self⟩

theorem handle_eq {a : Attempt} {o : Except Error Unit} (h : handle unmarshal a r s = (o, s')) :
    s.Grow s' ∧ (o = .ok () → Done unmarshal r s') := by
  unfold handle at h
  cases hr : unmarshal r.value with
  | error e =>
    rw [hr] at h
    exact deadLetter_eq h
  | ok envelope =>
    rcases happly : a.apply envelope s.projections with ⟨o', projections⟩
    obtain ⟨hdb, hok⟩ := Attempt.apply_eq_mk happly
    have hgrow : s.Grow { s with projections } := ⟨hdb, fun _ => id⟩
    simp only [hr, happly] at h
    cases o' with
    | error e =>
      dsimp only at h
      split_ifs at h
      · have hspec : _ ∧ (o = .ok () → Done unmarshal r s') := deadLetter_eq h
        exact ⟨hgrow.trans hspec.1, hspec.2⟩
      · cases h
        exact ⟨hgrow, nofun⟩
    | ok applied =>
      cases h
      exact ⟨hgrow, fun _ =>
        .inl ⟨envelope, hr, hok applied rfl⟩⟩

/-- Every record before the offsets is done. -/
def DoneBelow (unmarshal : Bytes → Except Error Decoded) (log : ℕ → List Message)
    (offsets : ℕ → ℕ) (s : Sinks) : Prop :=
  ∀ p n m, n < offsets p → (log p)[n]? = some m → Done unmarshal ⟨m, p, n⟩ s

variable {offsets cursor : ℕ → ℕ}

theorem DoneBelow.grow (h : DoneBelow unmarshal log offsets s) (hg : s.Grow s') :
    DoneBelow unmarshal log offsets s' := fun p n m hn hm => (h p n m hn hm).grow hg

theorem DoneBelow.advance {p : ℕ} {m : Message} (h : DoneBelow unmarshal log offsets s)
    (hcursor : DoneBelow unmarshal log cursor s) (hm : (log p)[cursor p]? = some m)
    (hdone : Done unmarshal ⟨m, p, cursor p⟩ s) :
    DoneBelow unmarshal log (Function.update offsets p (cursor p + 1)) s := by
  intro q n m' hn hm'
  by_cases hq : q = p
  · subst hq
    rw [Function.update_self] at hn
    rcases Nat.lt_succ_iff_lt_or_eq.1 hn with hn | rfl
    · exact hcursor q n m' hn hm'
    · cases hm.symm.trans hm'
      exact hdone
  · rw [Function.update_of_ne hq] at hn
    exact h q n m' hn hm'

theorem toCommit_grow (attempt : Record → Attempt) (records : List Record) (s : Sinks) :
    s.Grow (toCommit unmarshal attempt records s).2 := by
  induction records generalizing s with
  | nil => exact .refl s
  | cons r records ih =>
    rw [toCommit]
    rcases hrun : handle unmarshal (attempt r) r s with ⟨e | u, s'⟩
    · exact (handle_eq hrun).1
    · exact (handle_eq hrun).1.trans (ih s')

/-- From a cursor with nothing undone before it, a batch commits only what is done. If it was not
stopped, there is nothing undone before the cursor that the poll left either. -/
theorem poll_doneBelow (attempt : Record → Attempt) (partitions : List ℕ)
    (hcursor : DoneBelow unmarshal log cursor s) (h : DoneBelow unmarshal log offsets s) :
    let batch := pollFetches log partitions cursor
    let handled := toCommit unmarshal attempt batch.1 s
    DoneBelow unmarshal log (commitRecords handled.1 offsets) handled.2 ∧
      (¬handled.1.length < batch.1.length → DoneBelow unmarshal log batch.2 handled.2) := by
  induction partitions generalizing cursor offsets s with
  | nil => exact ⟨h, fun _ => hcursor⟩
  | cons p partitions ih =>
    unfold pollFetches
    split
    · exact ih hcursor h
    · next m hm =>
      dsimp only
      rw [toCommit]
      rcases hrun : handle unmarshal (attempt ⟨m, p, cursor p⟩) ⟨m, p, cursor p⟩ s with ⟨e | u, s'⟩
      all_goals obtain ⟨hgrow, hdone⟩ := handle_eq hrun
      · exact ⟨h.grow hgrow, fun hstop => absurd (Nat.succ_pos _) hstop⟩
      · have hcursor' := (hcursor.grow hgrow).advance (hcursor.grow hgrow) hm (hdone rfl)
        have hrest := ih hcursor' ((h.grow hgrow).advance (hcursor.grow hgrow) hm (hdone rfl))
        refine ⟨hrest.1, fun hall => hrest.2 fun hlt => hall ?_⟩
        exact Nat.succ_lt_succ hlt

end Handling

section Runs
variable {unmarshal : Bytes → Except Error Decoded} {log : ℕ → List Message}

/-- Every committed record is done, and every record before the cursor, unless a restart is due. -/
theorem Consumer.run_doneBelow {s : Consumer} {steps : List Step}
    (hcursor : DoneBelow unmarshal log s.cursor s.sinks ∨ ∀ next ∈ steps.head?, next = .restart)
    (hcommitted : DoneBelow unmarshal log s.committed s.sinks)
    (h : s.RestartsWhenStopped unmarshal log steps) :
    DoneBelow unmarshal log (s.run unmarshal log steps).committed (s.run unmarshal log steps).sinks := by
  induction steps generalizing s with
  | nil => exact hcommitted
  | cons a steps ih =>
    obtain ⟨hstop, h⟩ := h
    cases a with
    | restart => exact ih (.inl hcommitted) hcommitted h
    | poll partitions attempt commits =>
      have hcursor := hcursor.resolve_right fun hnext => nomatch hnext _ rfl
      have hpoll := poll_doneBelow attempt partitions hcursor hcommitted
      refine ih ?_ ?_ h
      · by_cases hlt : s.Stops unmarshal log (.poll partitions attempt commits)
        · exact .inr (hstop hlt)
        · exact .inl (hpoll.2 hlt)
      · cases commits with
        | true => exact hpoll.1
        | false => exact hcommitted.grow (toCommit_grow attempt _ s.sinks)

end Runs

/-- Where a stopped batch is the last before a restart, every record before a committed offset is
done. -/
theorem committed_done (unmarshal : Bytes → Except Error Decoded) (log : ℕ → List Message)
    (sinks : Sinks) (steps : List Step)
    (h : (Consumer.init sinks).RestartsWhenStopped unmarshal log steps) :
    let s := (Consumer.init sinks).run unmarshal log steps
    ∀ p n m, n < s.committed p → (log p)[n]? = some m → Done unmarshal ⟨m, p, n⟩ s.sinks :=
  Consumer.run_doneBelow (.inl fun _ _ _ hn => absurd hn (Nat.not_lt_zero _))
    (fun _ _ _ hn => absurd hn (Nat.not_lt_zero _)) h

/-- A posting and its reversal, in one partition. -/
def sampleLog : ℕ → List Message
  | 0 => [⟨[], [0]⟩, ⟨[], [1]⟩]
  | _ => []

def sampleUnmarshal (value : Bytes) : Except Error Decoded :=
  .ok (sampleDelivery (if value = [0] then 3500 else 4500)).envelope.decoded

def sampleAttempt (database : Fault) : Attempt :=
  ⟨(sampleDelivery 3500).accounts, database, .none, "2026-01-02T03:04:05Z"⟩

/-- A poll of the first partition for as many records, with the database away or not. -/
def samplePoll (n : ℕ) (database : Fault) : Step :=
  .poll (List.replicate n 0) (fun _ => sampleAttempt database) true

def sampleOutage : Step := samplePoll 1 (.lost ⟨[], "connection refused"⟩)

def sampleRun (steps : List Step) : Consumer :=
  (Consumer.init ⟨.empty, []⟩).run sampleUnmarshal sampleLog steps

theorem committed_done_restarted :
    (sampleRun [sampleOutage, .restart, samplePoll 2 .none]).committed 0 = 2 ∧
      Done sampleUnmarshal ⟨⟨[], [0]⟩, 0, 0⟩
        (sampleRun [sampleOutage, .restart, samplePoll 2 .none]).sinks := by
  have hcommitted : (sampleRun [sampleOutage, .restart, samplePoll 2 .none]).committed 0 = 2 := by
    decide +kernel
  have hdone := committed_done sampleUnmarshal sampleLog ⟨.empty, []⟩
    [sampleOutage, .restart, samplePoll 2 .none]
    ⟨fun _ next h => (Option.some.inj h).symm, False.elim, fun _ _ h => (nomatch h), trivial⟩
  exact ⟨hcommitted, hdone 0 0 ⟨[], [0]⟩ (Nat.lt_of_lt_of_eq (by decide) hcommitted.symm) rfl⟩

/-- The next poll returns the record after the one that failed, and its offset is committed. -/
theorem committed_past_failure :
    (sampleRun [sampleOutage, samplePoll 1 .none]).committed 0 = 2 ∧
      (sampleLog 0)[0]? = some ⟨[], [0]⟩ ∧
      ¬Done sampleUnmarshal ⟨⟨[], [0]⟩, 0, 0⟩
        (sampleRun [sampleOutage, samplePoll 1 .none]).sinks := by
  have hcommitted : (sampleRun [sampleOutage, samplePoll 1 .none]).committed 0 = 2 := by
    decide +kernel
  have hletters : (sampleRun [sampleOutage, samplePoll 1 .none]).sinks.deadLetters = [] := by
    decide +kernel
  have hevents : (sampleRun [sampleOutage, samplePoll 1 .none]).sinks.projections.processedEvents.find?
      (sampleDelivery 3500).envelope.eventID = none := by
    decide +kernel
  refine ⟨hcommitted, rfl, ?_⟩
  rintro (⟨envelope, hvalue, hid⟩ | ⟨cause, timestamp, hl⟩)
  · obtain rfl := Except.ok.inj hvalue
    exact hid hevents
  · rw [hletters] at hl
    nomatch hl

end LedgerCore.Projector
