import LedgerCore.Database.Retry
import LedgerCore.Ledger.Balances

/-! Postings whose database transaction is run again when PostgreSQL aborted it. -/
namespace LedgerCore.Ledger
open LedgerCore.Program LedgerCore.Database

/-- What goes wrong with one attempt of a transaction. -/
inductive Fault where
  | none
  /-- It fails before the closure has run to its end. -/
  | aborted (err : Failure)
  /-- `COMMIT` fails, and nothing is committed. -/
  | refused (err : Failure)
  /-- `COMMIT` is done, and its reply is lost. -/
  | unanswered (err : Failure)

/-- What one attempt meets: the draws of the closure, and what others commit before it begins. -/
structure Meeting where
  draws : Draws
  fault : Fault
  others : DB → DB

/-- An attempt that was made: the header its closure built, the error it returned, and whether it
was committed. -/
structure Attempt where
  built : Option Transaction
  err : Option Failure
  committed : Bool
  deriving DecidableEq, Repr

/-- The database, the variable that the closure assigns, and the attempts made so far, which no
attempt reads. -/
structure Scene where
  db : DB
  posted : Option Transaction
  attempts : List Attempt

def Scene.log (s : Scene) (db : DB) (posted : Option Transaction) (a : Attempt) :
    Option Failure × Scene :=
  (a.err, ⟨db, posted, s.attempts ++ [a]⟩)

/-- The reply to `COMMIT`, once the closure has assigned its header. -/
def commitTx (m : Meeting) (s : Scene) (header : Transaction) (tx : TxState) :
    Option Failure × Scene :=
  match commit tx with
  | .error e => s.log (m.others s.db) header ⟨header, some ⟨e, none⟩, false⟩
  | .ok db =>
    match m.fault with
    | .refused err => s.log (m.others s.db) header ⟨header, err, false⟩
    | .unanswered err => s.log db header ⟨header, err, true⟩
    | .none | .aborted _ => s.log db header ⟨header, none, true⟩

/-- `runTx`, on the closure of `postTransaction`: begin, run, commit. -/
def runTx (m : Meeting) (txID : UUID) (req : TransactionRequest) (s : Scene) :
    Option Failure × Scene :=
  match m.fault with
  | .aborted err => s.log (m.others s.db) s.posted ⟨none, err, false⟩
  | .none | .refused _ | .unanswered _ =>
    match (postTx m.draws txID req).run (exec m.draws.now) ⟨m.others s.db, []⟩ with
    | .error e => s.log (m.others s.db) s.posted ⟨none, some ⟨e, none⟩, false⟩
    | .ok (header, tx) => commitTx m s header tx

/-- What a caller of `PostTransaction` gets: a pointer, which is nil if it is `none`. -/
inductive Posted where
  | returned (result : Except Failure (Option Transaction))
  | panicked (message : String)

/-- `postTransaction`, over the `InTx` of a repository with a retrier. -/
def postTransactionRetried (r : Retrier) (w : Weather) (meets : ℕ → Meeting) (txID : UUID)
    (req : TransactionRequest) (db : DB) : Posted × Scene :=
  match req.validate with
  | .error e => (.returned (.error ⟨e, none⟩), ⟨db, none, []⟩)
  | .ok _ =>
    match r.doFn w "ledger_tx" (fun attempt => runTx (meets attempt) txID req.withKey)
      ⟨db, none, []⟩ with
    | (.returned none, s) => (.returned (.ok s.posted), s)
    | (.returned (some err), s) => (.returned (.error err), s)
    | (.panicked message, s) => (.panicked message, s)

/-- The attempt `a` took the scene `s` to `s'`. -/
structure Ran (m : Meeting) (txID : UUID) (req : TransactionRequest) (s : Scene) (a : Attempt)
    (s' : Scene) : Prop where
  attempts : s'.attempts = s.attempts ++ [a]
  success : a.err = none → a.committed = true ∧ ∃ header, a.built = some header ∧
    s'.posted = some header ∧
    inTx m.draws.now (postTx m.draws txID req) (m.others s.db) = .ok (header, s'.db)
  committed : a.committed = true → a.err = none ∨ ∃ err, m.fault = .unanswered err ∧ a.err = some err
  rolledBack : a.committed = false → s'.db = m.others s.db

theorem log_failed (m : Meeting) (txID : UUID) (req : TransactionRequest) (s : Scene)
    (built posted : Option Transaction) (err : Failure) :
    ∃ a, (s.log (m.others s.db) posted ⟨built, some err, false⟩).1 = a.err ∧
      Ran m txID req s a (s.log (m.others s.db) posted ⟨built, some err, false⟩).2 := by
  refine ⟨⟨built, some err, false⟩, rfl, ?_⟩
  constructor
  · rfl
  · exact fun h => nomatch h
  · exact fun h => nomatch h
  · exact fun _ => rfl

theorem commitTx_ran {m : Meeting} {txID : UUID} {req : TransactionRequest} {s : Scene}
    {header : Transaction} {tx : TxState}
    (hrun : (postTx m.draws txID req).run (exec m.draws.now) ⟨m.others s.db, []⟩ = .ok (header, tx)) :
    ∃ a, (commitTx m s header tx).1 = a.err ∧ Ran m txID req s a (commitTx m s header tx).2 := by
  have hinTx {db : DB} (h : commit tx = .ok db) :
      inTx m.draws.now (postTx m.draws txID req) (m.others s.db) = .ok (header, db) := by
    rw [inTx, hrun]
    change (commit tx >>= _) = _
    rw [h]
    rfl
  unfold commitTx
  split
  · exact log_failed ..
  · next db hcommit =>
    split
    · exact log_failed ..
    · next err hfault =>
      exact ⟨_, rfl, rfl, (fun h => nomatch h), fun _ => .inr ⟨err, hfault, rfl⟩, (fun h => nomatch h)⟩
    all_goals
      exact ⟨_, rfl, rfl, fun _ => ⟨rfl, header, rfl, rfl, hinTx hcommit⟩, fun _ => .inl rfl,
        (fun h => nomatch h)⟩

theorem runTx_ran (m : Meeting) (txID : UUID) (req : TransactionRequest) (s : Scene) :
    ∃ a, (runTx m txID req s).1 = a.err ∧ Ran m txID req s a (runTx m txID req s).2 := by
  unfold runTx
  split
  · exact log_failed ..
  all_goals
    split
    · exact log_failed ..
    · next hrun => exact commitTx_ran hrun

/-- PostgreSQL aborted the attempt with a code that is tried again, and nothing was committed. -/
def Aborted (a : Attempt) : Prop :=
  a.committed = false ∧ ∃ err code, a.err = some err ∧ retryableSQLState err = some code

/-- The attempts of a call: the last one decides how it ends, and those before it were aborted. -/
structure Ends (r : Retrier) (meets : ℕ → Meeting) (txID : UUID) (req : TransactionRequest)
    (ended : Ended) (s : Scene) (before : List Attempt) (last : Attempt) : Prop where
  attempts : s.attempts = before ++ [last]
  aborted : ∀ a ∈ before, Aborted a
  bounded : s.attempts.length ≤ r.maxAttempts
  nil : ended = .returned none ↔ last.err = none
  success : last.err = none → last.committed = true ∧ ∃ header db, last.built = some header ∧
    s.posted = some header ∧
    inTx (meets s.attempts.length).draws.now (postTx (meets s.attempts.length).draws txID req) db =
      .ok (header, s.db)

section Attempts
variable {r : Retrier} {meets : ℕ → Meeting} {txID : UUID} {req : TransactionRequest}

/-- If the codes that are tried again mean that nothing was committed, every attempt but the last
was aborted. -/
theorem doFn_ends (r : Retrier) (w : Weather) (txID : UUID) (req : TransactionRequest)
    (hrolled : ∀ k err, (meets k).fault = .unanswered err → retryableSQLState err = none) (db : DB) :
    ∃ before last, Ends r meets txID req
      (r.doFn w "ledger_tx" (fun attempt => runTx (meets attempt) txID req) ⟨db, none, []⟩).1
      (r.doFn w "ledger_tx" (fun attempt => runTx (meets attempt) txID req) ⟨db, none, []⟩).2
      before last := by
  refine Retrier.doFn_rule
    (P := fun attempt s => s.attempts.length + 1 = attempt ∧ ∀ a ∈ s.attempts, Aborted a)
    (Q := fun ended s => ∃ before last, Ends r meets txID req ended s before last)
    ⟨rfl, fun a ha => nomatch ha⟩ ?_ ?_
  · intro attempt s err code _ ⟨hcount, haborted⟩ herr hcode
    obtain ⟨a, ha, hran⟩ := runTx_ran (meets attempt) txID req s
    rw [ha] at herr
    have hlast : Aborted a := by
      refine ⟨?_, err, code, herr, hcode⟩
      by_contra hcommitted
      rcases hran.committed (Bool.eq_true_of_not_eq_false hcommitted) with hnone | ⟨e, hfault, he⟩
      · rw [hnone] at herr
        cases herr
      · rw [herr] at he
        cases he
        rw [hrolled attempt err hfault] at hcode
        cases hcode
    refine ⟨?_, ?_⟩
    · rw [hran.attempts, List.length_append, List.length_singleton, hcount]
    · intro b hb
      rw [hran.attempts, List.mem_append, List.mem_singleton] at hb
      rcases hb with hb | rfl
      · exact haborted b hb
      · exact hlast
  · intro attempt s ended hattempt ⟨hcount, haborted⟩ hended
    obtain ⟨a, ha, hran⟩ := runTx_ran (meets attempt) txID req s
    have hlength : (runTx (meets attempt) txID req s).2.attempts.length = attempt := by
      rw [hran.attempts, List.length_append, List.length_singleton, hcount]
    refine ⟨s.attempts, a, hran.attempts, haborted, ?_, ?_, ?_⟩
    · rw [hlength]
      exact hattempt
    · rw [hended, ha]
    · intro hnone
      obtain ⟨hcommitted, header, hbuilt, hposted, hinTx⟩ := hran.success hnone
      rw [hlength]
      exact ⟨hcommitted, header, _, hbuilt, hposted, hinTx⟩

theorem Ends.committed_le {ended : Ended} {s : Scene} {before : List Attempt} {last : Attempt}
    (h : Ends r meets txID req ended s before last) :
    s.attempts.countP (fun a => a.committed) ≤ 1 := by
  have hbefore : before.countP (fun a => a.committed) = 0 := by
    rw [List.countP_eq_zero]
    intro a ha hcommitted
    rw [(h.aborted a ha).1] at hcommitted
    cases hcommitted
  rw [h.attempts, List.countP_append, hbefore, Nat.zero_add]
  exact List.countP_le_length

end Attempts

/-- If an error with one of the two codes means that its attempt was rolled back, then a posting
commits at most one attempt and makes at most `maxAttempts`; every attempt but the last failed with
one of the two codes and was rolled back; and the posting returns no error if and only if its last
attempt succeeded, and then it returns the header that this attempt built and committed. -/
theorem postTransactionRetried_commits_once (r : Retrier) (w : Weather) (meets : ℕ → Meeting)
    (txID : UUID) (req : TransactionRequest) (db : DB)
    (hrolled : ∀ k err, (meets k).fault = .unanswered err → retryableSQLState err = none)
    {result : Posted} {s : Scene} (h : postTransactionRetried r w meets txID req db = (result, s)) :
    s.attempts.countP (fun a => a.committed) ≤ 1 ∧
      (∀ a ∈ s.attempts.dropLast, Aborted a) ∧
      s.attempts.length ≤ r.maxAttempts ∧
      ((∃ t, result = .returned (.ok t)) ↔ ∃ a, s.attempts.getLast? = some a ∧ a.err = none) ∧
      ∀ t, result = .returned (.ok t) → ∃ a header db₀, s.attempts.getLast? = some a ∧
        a.built = some header ∧ t = some header ∧
        inTx (meets s.attempts.length).draws.now
          (postTx (meets s.attempts.length).draws txID req.withKey) db₀ = .ok (header, s.db) := by
  unfold postTransactionRetried at h
  cases hvalid : req.validate with
  | error e =>
    rw [hvalid] at h
    cases h
    exact ⟨Nat.zero_le _, (fun a ha => nomatch ha), Nat.zero_le _, by simp, (fun t ht => nomatch ht)⟩
  | ok _ =>
    rw [hvalid] at h
    obtain ⟨before, last, hends⟩ :=
      doFn_ends r w txID req.withKey hrolled db
    generalize r.doFn w "ledger_tx" (fun attempt => runTx (meets attempt) txID req.withKey)
      ⟨db, none, []⟩ = outcome at h hends
    obtain ⟨ended, scene⟩ := outcome
    have hreturned : scene = s ∧ ((∃ t, result = .returned (.ok t)) ↔ ended = .returned none) ∧
        ∀ t, result = .returned (.ok t) → t = s.posted := by
      cases ended with
      | panicked message =>
        cases h
        simp
      | returned err =>
        cases err with
        | some err =>
          cases h
          simp
        | none =>
          cases h
          simp [eq_comm]
    obtain ⟨rfl, hnil, hposted⟩ := hreturned
    have hlast : scene.attempts.getLast? = some last := by
      rw [hends.attempts, List.getLast?_concat]
    have hdrop : scene.attempts.dropLast = before := by
      rw [hends.attempts, List.dropLast_concat]
    refine ⟨hends.committed_le, ?_, hends.bounded, ?_, ?_⟩
    · rw [hdrop]
      exact hends.aborted
    · rw [hnil, hends.nil, hlast]
      simp
    · intro t ht
      have hnone := hends.nil.1 (hnil.1 ⟨t, ht⟩)
      obtain ⟨-, header, db₀, hbuilt, hheader, hinTx⟩ := hends.success hnone
      exact ⟨last, header, db₀, hlast, hbuilt, (hposted t ht).trans hheader, hinTx⟩

/-- The first attempt is chosen to resolve a deadlock, and the second fails to serialize when it
commits. -/
def sampleMeets (attempt : ℕ) : Meeting where
  draws := sampleDraws (attempt + 2)
  fault := match attempt with
    | 1 => .aborted ⟨⟨[], "ERROR: deadlock detected (SQLSTATE 40P01)"⟩, deadlockDetected⟩
    | 2 => .refused ⟨⟨[], "ERROR: could not serialize access (SQLSTATE 40001)"⟩, serializationFailure⟩
    | _ => .none
  others db := db

def sampleRetried : Posted × Scene :=
  postTransactionRetried (newRetrier 0 0 0) ⟨fun _ => none, fun _ => none, fun n => n⟩ sampleMeets 3
    { principalID := "p", type := .payin, externalRef := none, metadata := []
      entries := [⟨1, .debit, ⟨500, "INR"⟩⟩, ⟨2, .credit, ⟨500, "INR"⟩⟩]
      idempotencyKey := none, idempotency := none, record := none }
    (runOps (sampleOps.take 2) .empty)

theorem postTransactionRetried_commits_third :
    sampleRetried.2.attempts.map (fun a => a.committed) = [false, false, true] ∧
      sampleRetried.2.attempts.countP (fun a => a.committed) ≤ 1 := by
  have hrolled (k : ℕ) (err : Failure) (h : (sampleMeets k).fault = .unanswered err) :
      retryableSQLState err = none := by
    unfold sampleMeets at h
    dsimp only at h
    split at h <;> cases h
  exact ⟨by decide +kernel,
    (postTransactionRetried_commits_once _ _ sampleMeets _ _ _ hrolled (Eq.refl sampleRetried)).1⟩

end LedgerCore.Ledger
