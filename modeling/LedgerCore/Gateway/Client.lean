import LedgerCore.Base
import LedgerCore.Table.Basic

/-! The payment gateway: what its client makes of an answer, and a gateway that records every
payment it accepts and answers a known key from its records. -/
namespace LedgerCore.Gateway

inductive Status where
  | succeeded
  | failed
  deriving DecidableEq, Repr

def Status.text : Status → String
  | succeeded => "SUCCEEDED"
  | failed => "FAILED"

structure Payment where
  key : String
  reference : String
  status : Status
  reason : String
  amountMinor : Int64
  currency : String
  createdAt : Time
  deriving DecidableEq, Repr

structure PaymentRequest where
  idempotencyKey : String
  amountMinor : Int64
  currency : String
  reference : String
  deriving DecidableEq, Repr

/-- Whether an error from `Pay` or `Probe` settles the question; `none` is no error. -/
def conclusive : Option Error → Bool
  | none => true
  | some e => e.is .paymentDeclined || e.is .paymentNotFound || e.is .invalidRequest

/-- The body of an answer. `createdAt` is `none` when it does not parse. -/
structure PaymentResponse where
  key : String
  reference : String
  status : String
  reason : String
  amountMinor : Int64
  currency : String
  createdAt : Option Time
  deriving DecidableEq, Repr

/-- What a request comes back with: no answer at all, or a status with a body. `body` is `none`
when it does not decode, and `text` is the decoder's error, or the body of a refusal. -/
inductive Response where
  | transport (error : String)
  | http (status : ℕ) (body : Option PaymentResponse) (text : String)
  deriving DecidableEq, Repr

def unavailable (context detail : String) : Error :=
  ⟨[.gatewayUnavailable], context ++ ": " ++ Sentinel.gatewayUnavailable.text ++ detail⟩

def decodePayment (body : Option PaymentResponse) (text key : String) : Except Error Payment :=
  match body with
  | none => .error (unavailable ("decode gateway response for " ++ key) (": " ++ text))
  | some wire =>
    let payment (status : Status) : Payment :=
      { key := if wire.key = "" then key else wire.key, reference := wire.reference, status,
        reason := wire.reason, amountMinor := wire.amountMinor, currency := wire.currency,
        createdAt := wire.createdAt.getD 0 }
    if wire.status = Status.succeeded.text then .ok (payment .succeeded)
    else if wire.status = Status.failed.text then
      .error ⟨[.paymentDeclined], "gateway key " ++ key ++ ": " ++ Sentinel.paymentDeclined.text ++
        ": " ++ wire.reason⟩
    else .error (unavailable ("gateway key " ++ key ++ " returned status " ++ quote wire.status) "")

/-- `HTTPClient.do`: the answer's three-valued reading. A declined payment is returned next to
its error by the source, and nothing reads it there. -/
def doRequest (key : String) : Response → Except Error Payment
  | .transport error => .error (unavailable ("call gateway for " ++ key) (": " ++ error))
  | .http 200 body text => decodePayment body text key
  | .http 201 body text => decodePayment body text key
  | .http 404 _ _ => .error (.errorf ("gateway key " ++ key) .paymentNotFound)
  | .http 400 _ text => .error (invalid text)
  | .http 422 _ text => .error (invalid text)
  | .http status _ text =>
    .error (unavailable (s!"gateway key {key} returned {status}") (": " ++ text))
where
  invalid (text : String) : Error :=
    ⟨[.invalidRequest], "gateway key " ++ key ++ ": " ++ Sentinel.invalidRequest.text ++ ": " ++ text⟩

/-- What becomes of a request: it cannot be built, or it comes back. -/
inductive Exchange where
  | unbuilt (error : String)
  | back (response : Response)
  deriving DecidableEq, Repr

namespace HTTPClient

/-- `HTTPClient.Pay`. The body's encoding cannot fail: it holds a number and two strings. -/
def pay (req : PaymentRequest) : Exchange → Except Error Payment
  | .unbuilt error => .error ⟨[], "build payment request " ++ req.idempotencyKey ++ ": " ++ error⟩
  | .back response => doRequest req.idempotencyKey response

def probe (key : String) : Exchange → Except Error Payment
  | .unbuilt error => .error ⟨[], "build probe request " ++ key ++ ": " ++ error⟩
  | .back response => doRequest key response

end HTTPClient

/-- The payments on record, by idempotency key. -/
abbrev Records := Table String Payment

/-- What the gateway makes of a request under a key it has no record of. -/
inductive Decision where
  | accept (reference : String) (createdAt : Time)
  | decline (reference reason : String) (createdAt : Time)
  | reject (text : String)
  | error (text : String)
  deriving DecidableEq, Repr

def Payment.response (p : Payment) : Response :=
  .http 200 (some ⟨p.key, p.reference, p.status.text, p.reason, p.amountMinor, p.currency,
    some p.createdAt⟩) ""

/-- `POST /v1/payments`: a known key is answered from its record. -/
def pay (d : Decision) (req : PaymentRequest) (records : Records) : Response × Records :=
  match records.find? req.idempotencyKey with
  | some p => (p.response, records)
  | none =>
    let record (reference reason : String) (status : Status) (createdAt : Time) :=
      let p : Payment := ⟨req.idempotencyKey, reference, status, reason, req.amountMinor,
        req.currency, createdAt⟩
      (p.response, (records.insert? req.idempotencyKey p).getD records)
    match d with
    | .accept reference createdAt => record reference "" .succeeded createdAt
    | .decline reference reason createdAt => record reference reason .failed createdAt
    | .reject text => (.http 422 none text, records)
    | .error text => (.http 500 none text, records)

/-- `GET /v1/payments/{key}`. -/
def probe (key : String) (records : Records) : Response :=
  match records.find? key with
  | some p => p.response
  | none => .http 404 none "no payment exists under this key"

theorem Payment.status_ne_succeeded {p : Payment} {key : String} {e : Error}
    (h : doRequest key p.response = .error e) : p.status ≠ .succeeded := by
  intro hstatus
  simp [doRequest, Payment.response, decodePayment, hstatus] at h

theorem find?_pay_of_ne {d : Decision} {req : PaymentRequest} {records : Records} {key : String}
    (h : key ≠ req.idempotencyKey) : (pay d req records).2.find? key = records.find? key := by
  have hinsert : ∀ p, ((records.insert? req.idempotencyKey p).getD records).find? key =
      records.find? key := fun p => by
    cases hi : records.insert? req.idempotencyKey p with
    | none => rfl
    | some records' => rw [Option.getD_some, Table.find?_insert hi, if_neg h]
  unfold pay
  cases records.find? req.idempotencyKey with
  | some p => rfl
  | none => cases d <;> first | exact hinsert _ | rfl

theorem pay_error {d : Decision} {req : PaymentRequest} {records : Records} {key : String}
    {e : Error} (h : doRequest key (pay d req records).1 = .error e) {p : Payment}
    (hp : (pay d req records).2.find? req.idempotencyKey = some p) : p.status ≠ .succeeded := by
  unfold pay at h hp
  cases hr : records.find? req.idempotencyKey with
  | some p' =>
    simp only [hr] at h hp
    obtain rfl := Option.some.inj hp
    exact Payment.status_ne_succeeded h
  | none =>
    simp only [hr] at h hp
    have hinsert : ∀ q, ((records.insert? req.idempotencyKey q).getD records).find?
        req.idempotencyKey = some p → p = q := fun q hq => by
      cases hi : records.insert? req.idempotencyKey q with
      | none => simp [hi, hr] at hq
      | some records' =>
        rw [hi, Option.getD_some, Table.find?_insert hi, if_pos rfl] at hq
        exact (Option.some.inj hq).symm
    cases d with
    | accept reference createdAt =>
      rw [hinsert _ hp]
      exact Payment.status_ne_succeeded h
    | decline reference reason createdAt =>
      rw [hinsert _ hp]
      exact Payment.status_ne_succeeded h
    | reject text => simp [hr] at hp
    | error text => simp [hr] at hp

theorem probe_error {key : String} {records : Records} {e : Error}
    (h : doRequest key (probe key records) = .error e) {p : Payment}
    (hp : records.find? key = some p) : p.status ≠ .succeeded := by
  simp only [probe, hp] at h
  exact Payment.status_ne_succeeded h

/-- What an answer says about the payment. -/
inductive Verdict where
  | made
  | refused
  | unknown
  deriving DecidableEq, Repr

/-- The verdict of an answer: a body that names an outcome, or one of the three refusals, and
nothing otherwise. -/
def Response.verdict : Response → Verdict
  | .transport _ => .unknown
  | .http status body _ =>
    if status ∈ [404, 400, 422] then .refused
    else if status ∈ [200, 201] then
      match body with
      | some wire =>
        if wire.status = Status.succeeded.text then .made
        else if wire.status = Status.failed.text then .refused
        else .unknown
      | none => .unknown
    else .unknown

def Exchange.verdict : Exchange → Verdict
  | .unbuilt _ => .unknown
  | .back response => response.verdict

/-- A result of the client, read as a verdict. -/
inductive Reads : Except Error Payment → Verdict → Prop
  | made {p : Payment} (h : p.status = .succeeded) : Reads (.ok p) .made
  | refused {e : Error} (h : conclusive (some e) = true) : Reads (.error e) .refused
  | unknown {e : Error} (h : conclusive (some e) = false) : Reads (.error e) .unknown

theorem decodePayment_reads (body : Option PaymentResponse) (text key : String) :
    Reads (decodePayment body text key) (Response.http 200 body text).verdict := by
  cases body with
  | none => exact .unknown rfl
  | some wire =>
    by_cases hs : wire.status = Status.succeeded.text
    · simp only [decodePayment, Response.verdict, hs, if_true]
      exact .made rfl
    · by_cases hf : wire.status = Status.failed.text
      · simp only [decodePayment, Response.verdict, hf]
        exact .refused rfl
      · simp only [decodePayment, Response.verdict, hs, hf]
        exact .unknown rfl

theorem doRequest_reads (key : String) (r : Response) : Reads (doRequest key r) r.verdict := by
  unfold doRequest
  split
  · exact .unknown rfl
  · exact decodePayment_reads _ _ _
  · exact decodePayment_reads _ _ _
  · exact .refused rfl
  · exact .refused rfl
  · exact .refused rfl
  · next status body text h200 h201 h404 h400 h422 =>
    have hunknown : (Response.http status body text).verdict = .unknown := by
      have hrefused : status ∉ [404, 400, 422] := by simpa using ⟨h404, h400, h422⟩
      have hread : status ∉ [200, 201] := by simpa using ⟨h200, h201⟩
      simp only [Response.verdict, if_neg hrefused, if_neg hread]
    rw [hunknown]
    exact .unknown rfl

theorem HTTPClient.pay_reads (req : PaymentRequest) (x : Exchange) :
    Reads (HTTPClient.pay req x) x.verdict := by
  cases x with
  | unbuilt error => exact .unknown rfl
  | back response => exact doRequest_reads _ response

theorem HTTPClient.probe_reads (key : String) (x : Exchange) :
    Reads (HTTPClient.probe key x) x.verdict := by
  cases x with
  | unbuilt error => exact .unknown rfl
  | back response => exact doRequest_reads _ response

end LedgerCore.Gateway
