import LedgerCore.Database.Schema

/-! Appending an event to the outbox, inside of the transaction that made it true. -/
namespace LedgerCore.Outbox

def aggregateTransaction : String := "transaction"

def aggregateAccount : String := "account"

def aggregateSaga : String := "saga"

/-- `Append`, with the event id it generates. -/
def append (eventID : UUID) (e : Event) (db : DB) : Except Error DB :=
  if e.aggregateType = "" ∨ e.aggregateID = "" ∨ e.eventType = "" then
    .error ⟨[], "append outbox event: aggregate type, aggregate id and event type are required"⟩
  else if e.eventVersion < 1 then
    .error ⟨[], "append outbox event " ++ e.eventType ++
      s!": event version must be at least 1, got {e.eventVersion}"⟩
  else if e.occurredAt = 0 then
    .error (.errorf ("append outbox event " ++ e.eventType ++ ": occurred_at is required")
      .missingOccurredAt)
  else
    match db.outbox.insert? eventID e with
    | none => .error ((PgError.unique "outbox_event_id_key").toError.wrap
        ("append outbox event " ++ e.eventType ++ " for " ++ e.aggregateID))
    | some outbox => .ok { db with outbox }

theorem append_eq_ok {eventID : UUID} {e : Event} {db db' : DB} (h : append eventID e db = .ok db') :
    ∃ outbox, db.outbox.insert? eventID e = some outbox ∧ db' = { db with outbox } := by
  unfold append at h
  split_ifs at h
  split at h
  · cases h
  · next outbox ho => exact ⟨outbox, ho, (Except.ok.inj h).symm⟩

end LedgerCore.Outbox
