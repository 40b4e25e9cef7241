import Mathlib.Algebra.Group.Nat.Defs
import Mathlib.Data.Int.Notation
import Mathlib.Data.Nat.Notation

/-! Identifiers, instants and errors shared by every part of the service. -/
namespace LedgerCore

abbrev UUID := BitVec 128

instance : LawfulBEq UUID := inferInstance

namespace UUID

def nil : UUID := 0#128

private def hexDigit (n : ℕ) : Char := "0123456789abcdef".toList.getD n '0'

private def hex (u : UUID) : List Char :=
  (List.range 32).map fun i => hexDigit (u.toNat / 16 ^ (31 - i) % 16)

/-- The canonical form: lower-case hex in groups of 8, 4, 4, 4 and 12. -/
def string (u : UUID) : String :=
  let h := u.hex
  String.ofList (h.take 8 ++ '-' :: (h.drop 8).take 4 ++ '-' :: (h.drop 12).take 4 ++
    '-' :: (h.drop 16).take 4 ++ '-' :: h.drop 20)

private theorem length_hex (u : UUID) : u.hex.length = 32 := by
  rw [hex, List.length_map, List.length_range]

theorem length_string (u : UUID) : u.string.length = 36 := by
  simp only [string, String.length_ofList, List.length_append, List.length_cons, List.length_take,
    List.length_drop, length_hex]
  rfl

private theorem hexDigit_inj {m n : ℕ} (hm : m < 16) (hn : n < 16) (h : hexDigit m = hexDigit n) :
    m = n := by
  have hall : ∀ m n : Fin 16, hexDigit m = hexDigit n → m = n := by decide +kernel
  exact congrArg Fin.val (hall ⟨m, hm⟩ ⟨n, hn⟩ h)

private theorem mod_eq_of_digits {a b : ℕ} (n : ℕ)
    (h : ∀ i < n, a / 16 ^ i % 16 = b / 16 ^ i % 16) : a % 16 ^ n = b % 16 ^ n := by
  induction n with
  | zero => rw [Nat.pow_zero, Nat.mod_one, Nat.mod_one]
  | succ n ih =>
    rw [Nat.mod_pow_succ, Nat.mod_pow_succ, ih fun i hi => h i (by omega), h n (by omega)]

private theorem hex_injective {u v : UUID} (h : u.hex = v.hex) : u = v := by
  have hdigits : ∀ i < 32, u.toNat / 16 ^ i % 16 = v.toNat / 16 ^ i % 16 := by
    intro i hi
    have hd := List.map_inj_left.1 h (31 - i) (List.mem_range.2 (by omega))
    have he : 31 - (31 - i) = i := by omega
    rw [he] at hd
    exact hexDigit_inj (Nat.mod_lt _ (by decide)) (Nat.mod_lt _ (by decide)) hd
  have hmod := mod_eq_of_digits 32 hdigits
  have hbound : (16 : ℕ) ^ 32 = 2 ^ 128 := by decide
  rw [hbound, Nat.mod_eq_of_lt u.isLt, Nat.mod_eq_of_lt v.isLt] at hmod
  exact BitVec.eq_of_toNat_eq hmod

private theorem groups (l : List Char) : l.take 8 ++ ((l.drop 8).take 4 ++ ((l.drop 12).take 4 ++
    ((l.drop 16).take 4 ++ l.drop 20))) = l := by
  have h (n : ℕ) : (l.drop n).take 4 ++ l.drop (n + 4) = l.drop n := by
    rw [← List.drop_drop, List.take_append_drop]
  rw [h 16, h 12, h 8, List.take_append_drop]

theorem string_injective {u v : UUID} (h : u.string = v.string) : u = v := by
  -- The dashes stand at the same places, so the groups are equal one by one.
  have hlength (n : ℕ) : ('-' :: (u.hex.drop n).take 4).length = ('-' :: (v.hex.drop n).take 4).length := by
    simp only [List.length_cons, List.length_take, List.length_drop, length_hex]
  obtain ⟨hlist, h20⟩ := List.append_inj' (String.ofList_injective h)
    (by simp only [List.length_cons, List.length_drop, length_hex])
  obtain ⟨hlist, h16⟩ := List.append_inj' hlist (hlength 16)
  obtain ⟨hlist, h12⟩ := List.append_inj' hlist (hlength 12)
  obtain ⟨h0, h8⟩ := List.append_inj' hlist (hlength 8)
  apply hex_injective
  rw [← groups u.hex, ← groups v.hex, h0, List.tail_eq_of_cons_eq h8, List.tail_eq_of_cons_eq h12,
    List.tail_eq_of_cons_eq h16, List.tail_eq_of_cons_eq h20]

private def hexValue (c : Char) : Option ℕ :=
  if '0' ≤ c ∧ c ≤ '9' then some (c.toNat - 48)
  else if 'a' ≤ c ∧ c ≤ 'f' then some (c.toNat - 87)
  else if 'A' ≤ c ∧ c ≤ 'F' then some (c.toNat - 55)
  else none

private def ofHex (digits : List Char) : Option UUID := do
  let values ← digits.mapM hexValue
  return BitVec.ofNat 128 (values.foldl (fun n d => n * 16 + d) 0)

/-- Reads the form with dashes from the start of a text. -/
private def ofGroups (s : List Char) : Option UUID :=
  if s[8]? = some '-' ∧ s[13]? = some '-' ∧ s[18]? = some '-' ∧ s[23]? = some '-' then
    ofHex (s.take 8 ++ ((s.drop 9).take 4 ++ ((s.drop 14).take 4 ++ ((s.drop 19).take 4 ++
      (s.drop 24).take 12))))
  else none

/-- `uuid.Parse`, on the bytes of a string: the canonical form, in upper or lower case, also as a
URN, between two characters that stand for braces, or without dashes. -/
def parse (s : List Char) : Option UUID :=
  match s.length with
  | 36 => ofGroups s
  | 45 => if (s.take 9).map Char.toLower = "urn:uuid:".toList then ofGroups (s.drop 9) else none
  | 38 => ofGroups (s.drop 1)
  | 32 => ofHex s
  | _ => none

def unmarshalText (s : String) : Option UUID :=
  parse (s.toByteArray.data.toList.map fun b => .ofNat b.toNat)

private theorem hexValue_hexDigit {n : ℕ} (h : n < 16) : hexValue (hexDigit n) = some n := by
  have hall : ∀ n < 16, hexValue (hexDigit n) = some n := by decide +kernel
  exact hall n h

private theorem mapM_hexDigit (digits : List ℕ) (h : ∀ n ∈ digits, n < 16) :
    (digits.map hexDigit).mapM hexValue = some digits := by
  induction digits with
  | nil => rfl
  | cons n digits ih =>
    obtain ⟨hn, hdigits⟩ := List.forall_mem_cons.1 h
    rw [List.map_cons, List.mapM_cons, hexValue_hexDigit hn, ih hdigits]
    rfl

private theorem foldl_digits (x n : ℕ) :
    ((List.range n).map fun i => x / 16 ^ (n - 1 - i) % 16).foldl (fun n d => n * 16 + d) 0 =
      x % 16 ^ n := by
  induction n generalizing x with
  | zero => exact (Nat.mod_one x).symm
  | succ n ih =>
    have hhigh : ((List.range n).map fun i => x / 16 ^ (n + 1 - 1 - i) % 16) =
        (List.range n).map fun i => x / 16 / 16 ^ (n - 1 - i) % 16 := by
      refine List.map_congr_left fun i hi => ?_
      have hi := List.mem_range.1 hi
      have hexp : n + 1 - 1 - i = n - 1 - i + 1 := by omega
      rw [hexp, Nat.pow_succ', Nat.div_div_eq_div_mul]
    rw [List.range_succ, List.map_append, List.foldl_append, hhigh, ih, Nat.pow_succ', Nat.mod_mul,
      List.map_singleton, Nat.add_sub_cancel, Nat.sub_self, Nat.pow_zero, Nat.div_one,
      Nat.mul_comm 16, Nat.add_comm]
    rfl

private theorem ofHex_hex (u : UUID) : ofHex u.hex = some u := by
  have hhex : u.hex = ((List.range 32).map fun i => u.toNat / 16 ^ (32 - 1 - i) % 16).map hexDigit := by
    rw [List.map_map]
    rfl
  have hdigits : ∀ n ∈ (List.range 32).map fun i => u.toNat / 16 ^ (32 - 1 - i) % 16, n < 16 := by
    intro n hn
    obtain ⟨i, -, rfl⟩ := List.mem_map.1 hn
    exact Nat.mod_lt _ (by decide)
  rw [ofHex, hhex, mapM_hexDigit _ hdigits]
  simp only [Option.bind_eq_bind, Option.bind_some, foldl_digits]
  have hbound : (16 : ℕ) ^ 32 = 2 ^ 128 := by decide
  rw [hbound, Nat.mod_eq_of_lt u.isLt, BitVec.ofNat_toNat, BitVec.setWidth_eq]
  rfl

private theorem ofGroups_append {a b c d e : List Char} (ha : a.length = 8) (hb : b.length = 4)
    (hc : c.length = 4) (hd : d.length = 4) (he : e.length = 12) :
    ofGroups (a ++ '-' :: b ++ '-' :: c ++ '-' :: d ++ '-' :: e) =
      ofHex (a ++ (b ++ (c ++ (d ++ e)))) := by
  have htake : e.take 12 = e := List.take_of_length_le (Nat.le_of_eq he)
  have hdrop {l : List Char} {m n : ℕ} (hl : l.length = m) (h : m ≤ n) : l.drop n = [] :=
    List.drop_eq_nil_of_le (hl ▸ h)
  rw [ofGroups, if_pos (by simp [List.getElem?_append, ha, hb, hc, hd])]
  simp [List.drop_append, ha, hb, hc, hd, htake, hdrop ha, hdrop hb, hdrop hc, hdrop hd]

theorem parse_string (u : UUID) : parse u.string.toList = some u := by
  have hlength : u.string.toList.length = 36 := by
    rw [String.length_toList, length_string]
  have hgroup (n : ℕ) (h : n ≤ 16) : ((u.hex.drop n).take 4).length = 4 := by
    rw [List.length_take, List.length_drop, length_hex]
    omega
  rw [parse, hlength]
  change ofGroups u.string.toList = some u
  rw [string, String.toList_ofList, ofGroups_append, groups, ofHex_hex]
  · rw [List.length_take, length_hex]
    rfl
  · exact hgroup 8 (by decide)
  · exact hgroup 12 (by decide)
  · exact hgroup 16 (by decide)
  · rw [List.length_drop, length_hex]

theorem mem_string {u : UUID} {c : Char} (h : c ∈ u.string.toList) :
    c ∈ "0123456789abcdef-".toList := by
  have hdash : '-' ∈ "0123456789abcdef-".toList := by decide +kernel
  have hhex : ∀ c ∈ u.hex, c ∈ "0123456789abcdef-".toList := by
    intro c hc
    obtain ⟨i, -, rfl⟩ := List.mem_map.1 hc
    have hall : ∀ n < 16, hexDigit n ∈ "0123456789abcdef-".toList := by decide +kernel
    exact hall _ (Nat.mod_lt _ (by decide))
  simp only [string, String.toList_ofList, List.mem_append, List.mem_cons] at h
  rcases h with (((h | rfl | h) | rfl | h) | rfl | h) | rfl | h
  · exact hhex c (List.mem_of_mem_take h)
  · exact hdash
  · exact hhex c (List.mem_of_mem_drop (List.mem_of_mem_take h))
  · exact hdash
  · exact hhex c (List.mem_of_mem_drop (List.mem_of_mem_take h))
  · exact hdash
  · exact hhex c (List.mem_of_mem_drop (List.mem_of_mem_take h))
  · exact hdash
  · exact hhex c (List.mem_of_mem_drop h)

/-- The sixteen bytes that the database stores and compares. -/
def bytes (u : UUID) : List UInt8 :=
  (List.range 16).map fun i => UInt8.ofNat (u.toNat / 256 ^ (15 - i) % 256)

private theorem digits_lt_iff {α : Type} [LT α] {f : ℕ → α} {b : ℕ} (hb : 0 < b)
    (hlt : ∀ m < b, ∀ n < b, f m < f n ↔ m < n) (heq : ∀ m < b, ∀ n < b, f m = f n ↔ m = n)
    (n x y : ℕ) :
    (List.range n).map (fun i => f (x / b ^ (n - 1 - i) % b)) <
      (List.range n).map (fun i => f (y / b ^ (n - 1 - i) % b)) ↔ x % b ^ n < y % b ^ n := by
  induction n with
  | zero => simp [Nat.mod_one]
  | succ n ih =>
    have hcons (x : ℕ) : (List.range (n + 1)).map (fun i => f (x / b ^ (n + 1 - 1 - i) % b)) =
        f (x / b ^ n % b) :: (List.range n).map fun i => f (x / b ^ (n - 1 - i) % b) := by
      rw [List.range_succ_eq_map, List.map_cons, List.map_map]
      refine congrArg _ (List.map_congr_left fun i _ => ?_)
      have hi : n + 1 - 1 - (i + 1) = n - 1 - i := by omega
      simp only [Function.comp_apply, Nat.succ_eq_add_one, hi]
    have hx := Nat.mod_lt x (Nat.pow_pos (n := n) hb)
    have hy := Nat.mod_lt y (Nat.pow_pos (n := n) hb)
    rw [hcons, hcons, List.cons_lt_cons_iff, ih, hlt _ (Nat.mod_lt _ hb) _ (Nat.mod_lt _ hb),
      heq _ (Nat.mod_lt _ hb) _ (Nat.mod_lt _ hb), Nat.mod_pow_succ, Nat.mod_pow_succ]
    generalize x / b ^ n % b = p, y / b ^ n % b = q, x % b ^ n = x', y % b ^ n = y' at *
    -- The highest digit decides, unless the two have the same.
    rcases Nat.lt_trichotomy p q with h | rfl | h
    · have hstep := Nat.mul_le_mul_left (b ^ n) (Nat.succ_le_of_lt h)
      rw [Nat.mul_succ] at hstep
      omega
    · omega
    · have hstep := Nat.mul_le_mul_left (b ^ n) (Nat.succ_le_of_lt h)
      rw [Nat.mul_succ] at hstep
      omega

theorem bytes_le_bytes {u v : UUID} : u.bytes ≤ v.bytes ↔ u ≤ v := by
  have hlt (m : ℕ) (hm : m < 256) (n : ℕ) (hn : n < 256) :
      UInt8.ofNat m < UInt8.ofNat n ↔ m < n := by
    rw [UInt8.lt_iff_toNat_lt, UInt8.toNat_ofNat_of_lt' hm, UInt8.toNat_ofNat_of_lt' hn]
  have heq (m : ℕ) (hm : m < 256) (n : ℕ) (hn : n < 256) :
      UInt8.ofNat m = UInt8.ofNat n ↔ m = n := by
    rw [← UInt8.toNat_inj, UInt8.toNat_ofNat_of_lt' hm, UInt8.toNat_ofNat_of_lt' hn]
  have h := digits_lt_iff (by decide) hlt heq 16 v.toNat u.toNat
  have hbound : (256 : ℕ) ^ 16 = 2 ^ 128 := by decide
  rw [hbound, Nat.mod_eq_of_lt u.isLt, Nat.mod_eq_of_lt v.isLt] at h
  rw [BitVec.le_def, ← Nat.not_lt, ← h]
  exact Iff.rfl

private theorem hex_lt_hex {u v : UUID} : u.hex < v.hex ↔ u.toNat < v.toNat := by
  have hlt : ∀ m n : Fin 16, hexDigit m < hexDigit n ↔ m.val < n.val := by decide +kernel
  have h := digits_lt_iff (f := hexDigit) (b := 16) (by decide)
    (fun m hm n hn => hlt ⟨m, hm⟩ ⟨n, hn⟩)
    (fun m hm n hn => ⟨hexDigit_inj hm hn, congrArg hexDigit⟩) 32 u.toNat v.toNat
  have hbound : (16 : ℕ) ^ 32 = 2 ^ 128 := by decide
  rwa [hbound, Nat.mod_eq_of_lt u.isLt, Nat.mod_eq_of_lt v.isLt] at h

private theorem append_lt_append {l m r s : List Char} (h : l.length = m.length) :
    l ++ r < m ++ s ↔ l < m ∨ l = m ∧ r < s := by
  induction l generalizing m with
  | nil =>
    obtain rfl := List.length_eq_zero_iff.1 h.symm
    simp
  | cons a l ih =>
    cases m with
    | nil => cases h
    | cons b m =>
      simp only [List.cons_append, List.cons_lt_cons_iff, ih (Nat.succ.inj h), List.cons.injEq]
      grind

/-- The order of the strings is the order of the bytes. -/
theorem string_le_string {u v : UUID} : u.string ≤ v.string ↔ u ≤ v := by
  -- The dashes stand at the same places, so they decide nothing.
  have hlt : v.string < u.string ↔ v.hex < u.hex := by
    have h8 : (v.hex.take 8).length = (u.hex.take 8).length := by
      rw [List.length_take, List.length_take, length_hex, length_hex]
    have h4 (n : ℕ) : ((v.hex.drop n).take 4).length = ((u.hex.drop n).take 4).length := by
      simp only [List.length_take, List.length_drop, length_hex]
    change v.string.toList < u.string.toList ↔ _
    refine .trans ?_ (iff_of_eq (congr (congrArg (· < ·) (groups v.hex)) (groups u.hex)))
    simp only [string, String.toList_ofList, List.append_assoc, List.cons_append,
      append_lt_append h8, append_lt_append (h4 _), List.cons_lt_cons_iff, Char.lt_irrefl, false_or,
      true_and]
  rw [BitVec.le_def, ← Nat.not_lt, ← hex_lt_hex, ← hlt]
  exact Iff.rfl

end UUID

/-- Microseconds since Go's zero time, so that `IsZero` is `= 0`. -/
abbrev Time := ℕ

abbrev Bytes := List UInt8

/-- The error values that callers compare with `errors.Is`. -/
inductive Sentinel where
  | insufficientFunds
  | unbalancedTransaction
  | currencyMismatch
  | accountNotFound
  | accountNotPostable
  | transactionNotFound
  | transactionNotPosted
  | alreadyReversed
  | reversalReasonRequired
  | moneyOverflow
  | invalidCurrency
  | scaleMismatch
  | mixedCurrency
  | tooFewEntries
  | invalidEntry
  | invalidTransactionType
  | invalidAccountType
  | missingRenderer
  | duplicateIdempotencyKey
  | balanceVersionConflict
  | missingOccurredAt
  | sagaNotFound
  | staleTransition
  | paymentDeclined
  | paymentNotFound
  | gatewayUnavailable
  | invalidRequest
  | idempotencyConflict
  | requestInProgress
  | keyExpired
  | leaseLost
  | corruptRecord
  | missingKey
  | invalidKey
  | malformedBody
  | missingAPIKey
  | invalidAPIKey
  | sagaLeaseLost
  | emptyStatement
  | malformedRecord
  | runNotFound
  | deadlineExceeded
  | canceled
  | unknownEventType
  deriving DecidableEq, Repr

def Sentinel.text : Sentinel → String
  | insufficientFunds => "ledger: insufficient funds"
  | unbalancedTransaction => "ledger: transaction does not balance"
  | currencyMismatch => "ledger: entry currency does not match account currency"
  | accountNotFound => "ledger: account not found"
  | accountNotPostable => "ledger: account is not open for posting"
  | transactionNotFound => "ledger: transaction not found"
  | transactionNotPosted => "ledger: transaction has not posted"
  | alreadyReversed => "ledger: transaction has already been reversed"
  | reversalReasonRequired => "ledger: a reversal must carry a reason"
  | moneyOverflow => "ledger: monetary amount overflows int64"
  | invalidCurrency => "ledger: currency must be a three-letter ISO-4217 code"
  | scaleMismatch => "ledger: scale does not match the currency's ISO-4217 exponent"
  | mixedCurrency => "ledger: all entries in a transaction must share one currency"
  | tooFewEntries => "ledger: a transaction needs at least two entries"
  | invalidEntry => "ledger: journal entry is malformed"
  | invalidTransactionType => "ledger: unknown transaction type"
  | invalidAccountType => "ledger: unknown account type"
  | missingRenderer => "ledger: an idempotent request needs a response renderer"
  | duplicateIdempotencyKey => "ledger: idempotency key already names a transaction"
  | balanceVersionConflict => "ledger: balance changed while locked"
  | missingOccurredAt => "outbox: event occurred_at is required"
  | sagaNotFound => "saga: instance not found"
  | staleTransition => "saga: transition did not match the expected status"
  | paymentDeclined => "gateway: payment was declined"
  | paymentNotFound => "gateway: no payment exists under this key"
  | gatewayUnavailable => "gateway: outcome is unknown"
  | invalidRequest => "gateway: request was rejected as invalid"
  | idempotencyConflict => "idempotency: key reused with a different request body"
  | requestInProgress => "idempotency: a request with this key is already in progress"
  | keyExpired => "idempotency: key has expired"
  | leaseLost => "idempotency: lease was reclaimed by another request"
  | corruptRecord => "idempotency: stored record is not interpretable"
  | missingKey => "idempotency: the Idempotency-Key header is required"
  | invalidKey => "idempotency: the Idempotency-Key header must be a UUID"
  | malformedBody => "idempotency: request body is not canonicalizable JSON"
  | missingAPIKey => "auth: the Authorization header is required"
  | invalidAPIKey => "auth: the presented API key did not authenticate"
  | sagaLeaseLost => "saga: lease was claimed by another orchestrator"
  | emptyStatement => "reconciliation: PSP statement has no rows"
  | malformedRecord => "reconciliation: malformed PSP statement row"
  | runNotFound => "reconciliation: run not found"
  | deadlineExceeded => "context deadline exceeded"
  | canceled => "context canceled"
  | unknownEventType => "projector: unknown event type"

/-- An error value: the sentinels it wraps, and its text. -/
structure Error where
  sentinels : List Sentinel
  text : String
  deriving DecidableEq, Repr

namespace Error

/-- `errors.Is`. -/
def is (e : Error) (s : Sentinel) : Bool := e.sentinels.contains s

def ofSentinel (s : Sentinel) : Error := ⟨[s], s.text⟩

/-- `fmt.Errorf("…: %w", s)`. -/
def errorf (context : String) (s : Sentinel) : Error := ⟨[s], context ++ ": " ++ s.text⟩

/-- `fmt.Errorf("…: %w", err)`. -/
def wrap (context : String) (e : Error) : Error := ⟨e.sentinels, context ++ ": " ++ e.text⟩

@[simp] theorem sentinels_errorf (c : String) (s : Sentinel) : (errorf c s).sentinels = [s] := rfl

@[simp] theorem sentinels_wrap (c : String) (e : Error) : (wrap c e).sentinels = e.sentinels := rfl

end Error

/-- The verb `%q`, for texts that need no escapes. -/
def quote (s : String) : String := "\"" ++ s ++ "\""

end LedgerCore
