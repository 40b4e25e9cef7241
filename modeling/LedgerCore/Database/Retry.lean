import Mathlib.Algebra.Order.Group.Unbundled.Int
import Mathlib.Tactic.Linarith
import LedgerCore.Base

/-! Transactions that PostgreSQL aborted are run again, after a random delay whose window doubles
from one attempt to the next. Durations are in nanoseconds. -/
namespace LedgerCore.Database

def defaultMaxAttempts : ℕ := 5

def defaultBaseBackoff : Int64 := 5 * 1000000

def defaultMaxBackoff : Int64 := 250 * 1000000

/-- What `NewRetrier` builds: it replaces what is not positive by the default. -/
structure Retrier where
  maxAttempts : ℕ
  baseBackoff : Int64
  maxBackoff : Int64
  maxAttempts_pos : 0 < maxAttempts
  baseBackoff_pos : 0 < baseBackoff
  maxBackoff_pos : 0 < maxBackoff

theorem pos_of_default {d : Int64} (hd : 0 < d) (x : Int64) : 0 < if x ≤ 0 then d else x := by
  split_ifs with hx
  · exact hd
  · exact Int64.not_le.1 hx

def newRetrier (maxAttempts : ℤ) (base max : Int64) : Retrier where
  maxAttempts := if maxAttempts ≤ 0 then defaultMaxAttempts else maxAttempts.toNat
  baseBackoff := if base ≤ 0 then defaultBaseBackoff else base
  maxBackoff := if max ≤ 0 then defaultMaxBackoff else max
  maxAttempts_pos := by
    split_ifs with h
    · decide
    · omega
  baseBackoff_pos := pos_of_default (by decide) base
  maxBackoff_pos := pos_of_default (by decide) max

theorem Retrier.toInt_baseBackoff_pos (r : Retrier) : 0 < r.baseBackoff.toInt :=
  Int64.lt_iff_toInt_lt.1 r.baseBackoff_pos

theorem Retrier.toInt_maxBackoff_pos (r : Retrier) : 0 < r.maxBackoff.toInt :=
  Int64.lt_iff_toInt_lt.1 r.maxBackoff_pos

/-- `rand.Int64N`, which panics unless its bound is positive. -/
def int64N (draw : ℕ) (n : Int64) : Except String Int64 :=
  if n ≤ 0 then .error "invalid argument to Int64N" else .ok (.ofInt (draw % n.toInt))

/-- The window of the delay after an attempt, the first of which is attempt 1. The shift drops the
bits that do not fit. -/
def Retrier.window (r : Retrier) (attempt : ℕ) : Int64 :=
  let window := Int64.ofBitVec (r.baseBackoff.toBitVec <<< (attempt - 1))
  if r.maxBackoff < window ∨ window ≤ 0 then r.maxBackoff else window

def Retrier.backoff (r : Retrier) (attempt draw : ℕ) : Except String Int64 :=
  int64N draw (r.window attempt + 1)

theorem int64N_eq_ok {n : Int64} (h : 0 < n.toInt) (draw : ℕ) :
    ∃ d, int64N draw n = .ok d ∧ 0 ≤ d.toInt ∧ d.toInt < n.toInt := by
  have hn := n.toInt_lt
  have hlow := Int.emod_nonneg (draw : ℤ) h.ne'
  have hhigh := Int.emod_lt_of_pos (draw : ℤ) h
  have hneg : ¬n ≤ 0 := by
    rw [Int64.le_iff_toInt_le, Int64.toInt_zero]
    omega
  refine ⟨.ofInt (draw % n.toInt), if_neg hneg, ?_⟩
  rw [Int64.toInt_ofInt_of_le (by omega) (by omega)]
  exact ⟨hlow, hhigh⟩

theorem toInt_shiftLeft (x : Int64) (n : ℕ) :
    (Int64.ofBitVec (x.toBitVec <<< n)).toInt = (x.toInt * 2 ^ n).bmod (2 ^ 64) := by
  have hx : x.toInt = (x.toBitVec.toNat : ℤ).bmod (2 ^ 64) := BitVec.toInt_eq_toNat_bmod _
  rw [Int64.toInt_ofBitVec, BitVec.toInt_shiftLeft, Nat.shiftLeft_eq, hx, Int.bmod_mul_bmod]
  push_cast
  rfl

theorem Retrier.toInt_window (r : Retrier) (attempt : ℕ) {low : ℤ}
    (hlow : r.baseBackoff.toInt * 2 ^ (attempt - 1) % 2 ^ 64 = low) :
    (r.window attempt).toInt =
      if 0 < low ∧ low ≤ r.maxBackoff.toInt then low else r.maxBackoff.toInt := by
  have hmax := r.maxBackoff.toInt_lt
  have hshift := toInt_shiftLeft r.baseBackoff (attempt - 1)
  rw [Int.bmod_def] at hshift
  unfold window
  simp only [Int64.lt_iff_toInt_lt, Int64.le_iff_toInt_le, Int64.toInt_zero]
  split_ifs at hshift ⊢ <;> omega

theorem Retrier.toInt_window_pos (r : Retrier) (attempt : ℕ) : 0 < (r.window attempt).toInt := by
  have hmax := r.toInt_maxBackoff_pos
  rw [r.toInt_window attempt rfl]
  split_ifs with h
  · exact h.1
  · exact hmax

theorem Retrier.backoff_drawn (r : Retrier) (attempt : ℕ) :
    (∀ draw, ∃ d, r.backoff attempt draw = .ok d ∧ 0 ≤ d.toInt ∧
      d.toInt ≤ (r.window attempt).toInt) ↔ (r.window attempt).toInt < 2 ^ 63 - 1 := by
  have hsum := Int64.toInt_add (r.window attempt) 1
  have hone : (1 : Int64).toInt = 1 := by decide
  rw [hone] at hsum
  constructor
  · intro h
    obtain ⟨d, hd, -, -⟩ := h 0
    by_contra hbound
    have hlast : (r.window attempt).toInt = 2 ^ 63 - 1 := by
      have := (r.window attempt).toInt_lt
      omega
    have hneg : r.window attempt + 1 ≤ 0 := by
      rw [Int64.le_iff_toInt_le, hsum, hlast]
      decide
    rw [backoff, int64N, if_pos hneg] at hd
    cases hd
  · intro hbound draw
    have hpos : 0 < (r.window attempt).toInt := r.toInt_window_pos attempt
    rw [Int.bmod_eq_of_le (by omega) (by omega)] at hsum
    obtain ⟨d, hd, hlow, hhigh⟩ := int64N_eq_ok (by omega : 0 < (r.window attempt + 1).toInt) draw
    exact ⟨d, hd, hlow, by omega⟩

/-- The window is the exact one, and the delay is drawn from it without a panic, if and only if the
shift does not leave a positive rest below the cap and the window is not the largest `int64`. -/
theorem Retrier.backoff_exact_iff (r : Retrier) (attempt : ℕ) :
    ((r.window attempt).toInt = min (r.baseBackoff.toInt * 2 ^ (attempt - 1)) r.maxBackoff.toInt ∧
      ∀ draw, ∃ d, r.backoff attempt draw = .ok d ∧ 0 ≤ d.toInt ∧
        d.toInt ≤ (r.window attempt).toInt) ↔
    (r.baseBackoff.toInt * 2 ^ (attempt - 1) ≤ r.maxBackoff.toInt ∨
      r.baseBackoff.toInt * 2 ^ (attempt - 1) % 2 ^ 64 = 0 ∨
      r.maxBackoff.toInt ≤ r.baseBackoff.toInt * 2 ^ (attempt - 1) % 2 ^ 64) ∧
    (r.baseBackoff.toInt * 2 ^ (attempt - 1) < 2 ^ 63 - 1 ∨ r.maxBackoff.toInt < 2 ^ 63 - 1) := by
  rw [backoff_drawn, r.toInt_window attempt rfl]
  have hbase := r.toInt_baseBackoff_pos
  have hmax := r.toInt_maxBackoff_pos
  have hmax' := r.maxBackoff.toInt_lt
  have hproduct : 0 < r.baseBackoff.toInt * 2 ^ (attempt - 1) := by positivity
  generalize r.baseBackoff.toInt * 2 ^ (attempt - 1) = product at *
  split_ifs <;> omega

/-- A base of 8.4 ms and a cap of an hour: the shift for attempt 42 leaves 37 minutes of a product
of 585 years. With the largest durations the first draw panics. -/
theorem Retrier.window_wraps :
    ((newRetrier 50 8388609 3600000000000).window 42).toInt = 2199023255552 ∧
      min ((8388609 : ℤ) * 2 ^ (42 - 1)) 3600000000000 = 3600000000000 ∧
      (newRetrier 50 Int64.maxValue Int64.maxValue).backoff 1 0 =
        .error "invalid argument to Int64N" := by
  decide

/-- An error that an attempt returns, and the code of the `PgError` that `errors.As` finds in it. -/
structure Failure where
  error : Error
  sqlState : Option String
  deriving DecidableEq, Repr

namespace Failure

def wrap (context : String) (err : Failure) : Failure := { err with error := err.error.wrap context }

def wrapBoth (context : String) (cause : Error) (err : Failure) : Failure where
  error := ⟨cause.sentinels ++ err.error.sentinels, context ++ ": " ++ cause.text ++ ": " ++ err.error.text⟩
  sqlState := err.sqlState

end Failure

def serializationFailure : String := "40001"

def deadlockDetected : String := "40P01"

/-- The code of an error after which PostgreSQL guarantees that nothing was committed. -/
def retryableSQLState (err : Failure) : Option String :=
  err.sqlState.filter fun code => code = serializationFailure || code = deadlockDetected

/-- What the context and the random source do, by the number of the attempt: `ctx.Err()` after it,
the context ending before the timer, and the draw. -/
structure Weather where
  expired : ℕ → Option Error
  interrupted : ℕ → Option Error
  draw : ℕ → ℕ

inductive Ended where
  | returned (err : Option Failure)
  | panicked (message : String)
  deriving DecidableEq, Repr

section Do
variable {σ : Type}

/-- The loop of `Do` from an attempt on, with `left` more attempts after it. -/
def Retrier.doFrom (r : Retrier) (w : Weather) (operation : String) (fn : ℕ → σ → Option Failure × σ)
    (attempt left : ℕ) (s : σ) : Ended × σ :=
  match fn attempt s with
  | (none, s) => (.returned none, s)
  | (some err, s) =>
    match retryableSQLState err with
    | none => (.returned (some err), s)
    | some sqlState =>
      match w.expired attempt with
      | some cause =>
        (.returned (some (err.wrapBoth (operation ++ " aborted with " ++ sqlState ++
          " and the deadline expired before retrying") cause)), s)
      | none =>
        match left with
        | 0 =>
          (.returned (some (err.wrap (operation ++ " still aborting after " ++
            toString r.maxAttempts ++ " attempts"))), s)
        | left + 1 =>
          match r.backoff attempt (w.draw attempt) with
          | .error message => (.panicked message, s)
          | .ok _ =>
            match w.interrupted attempt with
            | some cause =>
              (.returned (some (err.wrapBoth (operation ++ " aborted with " ++ sqlState ++
                " and the deadline expired while backing off") cause)), s)
            | none => r.doFrom w operation fn (attempt + 1) left s

/-- `Do`; `fn` is told the number of its attempt. -/
def Retrier.doFn (r : Retrier) (w : Weather) (operation : String) (fn : ℕ → σ → Option Failure × σ)
    (s : σ) : Ended × σ :=
  r.doFrom w operation fn 1 (r.maxAttempts - 1) s

variable {r : Retrier} {w : Weather} {operation : String} {fn : ℕ → σ → Option Failure × σ}

/-- An attempt ends the loop, with nil if and only if it succeeds, or its error is retryable and the
next attempt goes on from what it left. -/
theorem Retrier.doFrom_cases (attempt left : ℕ) (s : σ) :
    ((r.doFrom w operation fn attempt left s).2 = (fn attempt s).2 ∧
      ((r.doFrom w operation fn attempt left s).1 = .returned none ↔ (fn attempt s).1 = none)) ∨
    ∃ err code more, (fn attempt s).1 = some err ∧ retryableSQLState err = some code ∧
      left = more + 1 ∧
      r.doFrom w operation fn attempt left s =
        r.doFrom w operation fn (attempt + 1) more (fn attempt s).2 := by
  unfold doFrom
  cases hfn : fn attempt s with
  | mk err s' =>
    cases err with
    | none => exact .inl ⟨rfl, by simp⟩
    | some err =>
      dsimp only
      cases hcode : retryableSQLState err with
      | none => exact .inl ⟨rfl, by simp⟩
      | some code =>
        dsimp only
        cases w.expired attempt with
        | some cause => exact .inl ⟨rfl, by simp⟩
        | none =>
          cases left with
          | zero => exact .inl ⟨rfl, by simp⟩
          | succ left =>
            dsimp only
            cases r.backoff attempt (w.draw attempt) with
            | error message => exact .inl ⟨rfl, by simp⟩
            | ok _ =>
              dsimp only
              cases w.interrupted attempt with
              | some cause => exact .inl ⟨rfl, by simp⟩
              | none => exact .inr ⟨err, code, left, rfl, hcode, rfl, doFrom.eq_def ..⟩

/-- What holds before every attempt, and after the last one. -/
theorem Retrier.doFn_rule {P : ℕ → σ → Prop} {Q : Ended → σ → Prop} {s : σ} (hs : P 1 s)
    (hagain : ∀ attempt s err code, attempt < r.maxAttempts → P attempt s →
      (fn attempt s).1 = some err → retryableSQLState err = some code →
        P (attempt + 1) (fn attempt s).2)
    (hlast : ∀ attempt s ended, attempt ≤ r.maxAttempts → P attempt s →
      (ended = .returned none ↔ (fn attempt s).1 = none) → Q ended (fn attempt s).2) :
    Q (r.doFn w operation fn s).1 (r.doFn w operation fn s).2 := by
  have hloop (left attempt : ℕ) (s : σ) (hcount : attempt + left = r.maxAttempts)
      (hs : P attempt s) :
      Q (r.doFrom w operation fn attempt left s).1 (r.doFrom w operation fn attempt left s).2 := by
    induction left generalizing attempt s with
    | zero =>
      rcases doFrom_cases attempt 0 s with ⟨hstate, hended⟩ | ⟨_, _, more, _, _, hmore, _⟩
      · rw [hstate]
        exact hlast attempt s _ (by omega) hs hended
      · cases hmore
    | succ left ih =>
      rcases doFrom_cases attempt (left + 1) s with
        ⟨hstate, hended⟩ | ⟨err, code, more, herr, hcode, hmore, hrest⟩
      · rw [hstate]
        exact hlast attempt s _ (by omega) hs hended
      · obtain rfl := Nat.succ.inj hmore
        rw [hrest]
        exact ih (attempt + 1) _ (by omega) (hagain attempt s err code (by omega) hs herr hcode)
  have hpos := r.maxAttempts_pos
  exact hloop _ 1 s (by omega) hs

end Do

end LedgerCore.Database
