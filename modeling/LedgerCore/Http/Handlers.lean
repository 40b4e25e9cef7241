import LedgerCore.Idempotency.Manager

/-! The two write routes: the idempotency middleware and the handlers behind it. -/
namespace LedgerCore.Http
open LedgerCore.Program LedgerCore.Idempotency

/-- An API process, as far as its requests can tell. -/
structure Process where
  encoder : Encoder
  manager : Manager

/-- The reservation that a request holds. -/
structure IdemState where
  principalID : String
  key : String
  deriving DecidableEq, Repr

def internalErrorBody : Bytes :=
  ("\x7b\"type\":\"" ++ problemBase ++
    "internal\",\"title\":\"Internal error\",\"status\":500\x7d").toUTF8.toList

def writeProblem (p : Process) (r : Request) (e : Error) : HttpM (ℕ × Bytes) := do
  let problem := problemOf r.path r.requestID e
  let body := p.encoder.problem problem
  .perform (Call.respond ⟨problem.status, body, false⟩)
  pure (problem.status, body)

def writeReplay (record : Record) : HttpM Unit :=
  .perform (Call.respond ⟨record.responseStatus, record.responseBody, true⟩)

/-- The rendering is the one that was stored with the transaction. -/
def writeStored (p : Process) (t : Ledger.Transaction) : HttpM Unit :=
  match renderCreated p.encoder t with
  | .error _ => .perform (Call.respond ⟨500, internalErrorBody, false⟩)
  | .ok (status, body) => .perform (Call.respond ⟨status, body, false⟩)

/-- Stores the rejection, or hands the key back; an error of either is only logged. -/
def reject (s : IdemState) (e : Error) (status : ℕ) (body : Bytes) : HttpM Unit :=
  if isDeterministic e then do
    let _ ← .perform (Call.fail s.principalID s.key status body)
    pure ()
  else do
    let _ ← .perform (Call.release s.principalID s.key)
    pure ()

def refuse (p : Process) (r : Request) (s : IdemState) (e : Error) : HttpM Unit := do
  let (status, problem) ← writeProblem p r e
  reject s e status problem

def handlePostTransaction (p : Process) (r : Request) (s : IdemState)
    (type : Ledger.TransactionType) (externalRef : Option String) (metadata : Ledger.Metadata)
    (entries : List Ledger.EntryRequest) : HttpM Unit := do
  let posted ← .perform (Call.postTransaction
    { principalID := s.principalID, type, externalRef, metadata, entries, idempotencyKey := none
      idempotency := some ⟨s.principalID, s.key, some (renderCreated p.encoder)⟩, record := none })
  match posted with
  | .error e => refuse p r s e
  | .ok t => writeStored p t

def handleReverseTransaction (p : Process) (r : Request) (s : IdemState) (transactionID : UUID)
    (reason : String) : HttpM Unit := do
  let reversal ← .perform (Call.reverseTransactionIdempotent transactionID reason
    ⟨s.principalID, s.key, some (renderCreated p.encoder)⟩)
  match reversal with
  | .error e => refuse p r s e
  | .ok t => writeStored p t

def handle (p : Process) (r : Request) (s : IdemState) : HttpM Unit :=
  match r.operation with
  | .error e => refuse p r s e
  | .ok (.post type externalRef metadata entries) =>
    handlePostTransaction p r s type externalRef metadata entries
  | .ok (.reverse transactionID reason) => handleReverseTransaction p r s transactionID reason

def requireIdempotency (p : Process) (r : Request) (next : IdemState → HttpM Unit) : HttpM Unit :=
  match r.key with
  | .error e => do
    let _ ← writeProblem p r e
    pure ()
  | .ok key =>
    match r.fingerprint with
    | .error e => do
      let _ ← writeProblem p r e
      pure ()
    | .ok fingerprint => do
      let acquired ← acquire p.manager
        { principalID := r.principalID, key := key.string, fingerprint, method := r.method,
          route := r.route, ttl := 0, lease := 0 }
      match acquired with
      | .error e => do
        let _ ← writeProblem p r e
        pure ()
      | .ok (.replay record) => writeReplay record
      | .ok .proceed => next ⟨r.principalID, key.string⟩

def serve (p : Process) (r : Request) : HttpM Unit := requireIdempotency p r (handle p r)

end LedgerCore.Http
