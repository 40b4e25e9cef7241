import Mathlib.Data.Nat.Notation
import Mathlib.Tactic.Common

/-! Base64 with the alphabet for URLs and without padding. -/
namespace LedgerCore.Base64

def alphabet : List Char :=
  "ABCDEFGHIJKLMNOPQRSTUVWXYZabcdefghijklmnopqrstuvwxyz0123456789-_".toList

def digit (n : ℕ) : Char := alphabet.getD (n % 64) 'A'

def value (c : Char) : Option ℕ := alphabet.idxOf? c

/-- Three bytes are four digits; one or two bytes at the end are two or three. -/
def encode : List UInt8 → List Char
  | a :: b :: c :: rest =>
    let v := a.toNat * 65536 + b.toNat * 256 + c.toNat
    digit (v / 262144) :: digit (v / 4096) :: digit (v / 64) :: digit v :: encode rest
  | [a, b] =>
    let v := a.toNat * 65536 + b.toNat * 256
    [digit (v / 262144), digit (v / 4096), digit (v / 64)]
  | [a] => [digit (a.toNat / 4), digit (a.toNat * 16)]
  | [] => []

/-- Reads the digits back, and drops the bits that no byte is made of. -/
def decodeDigits : List ℕ → Option (List UInt8)
  | p :: q :: r :: s :: rest => do
    let v := p * 262144 + q * 4096 + r * 64 + s
    let bytes ← decodeDigits rest
    return .ofNat (v / 65536) :: .ofNat (v / 256) :: .ofNat v :: bytes
  | [p, q, r] =>
    let v := p * 262144 + q * 4096 + r * 64
    some [.ofNat (v / 65536), .ofNat (v / 256)]
  | [p, q] => some [.ofNat ((p * 64 + q) / 16)]
  | [_] => none
  | [] => some []

def isLineBreak (c : Char) : Bool := c = '\n' || c = '\r'

/-- Line breaks are ignored wherever they stand. -/
def decode (text : List Char) : Option (List UInt8) := do
  let digits ← (text.filter fun c => !isLineBreak c).mapM value
  decodeDigits digits

theorem value_digit (n : ℕ) : value (digit n) = some (n % 64) := by
  have hall : ∀ i < 64, value (alphabet.getD i 'A') = some i := by decide +kernel
  exact hall (n % 64) (Nat.mod_lt n (by decide))

theorem isLineBreak_digit (n : ℕ) : isLineBreak (digit n) = false := by
  have hall : ∀ i < 64, isLineBreak (alphabet.getD i 'A') = false := by decide +kernel
  exact hall (n % 64) (Nat.mod_lt n (by decide))

/-- The digits that `encode` writes, before they are characters. -/
def toDigits : List UInt8 → List ℕ
  | a :: b :: c :: rest =>
    let v := a.toNat * 65536 + b.toNat * 256 + c.toNat
    v / 262144 :: v / 4096 :: v / 64 :: v :: toDigits rest
  | [a, b] =>
    let v := a.toNat * 65536 + b.toNat * 256
    [v / 262144, v / 4096, v / 64]
  | [a] => [a.toNat / 4, a.toNat * 16]
  | [] => []

theorem encode_eq_map (bytes : List UInt8) : encode bytes = (toDigits bytes).map digit := by
  fun_induction encode bytes with
  | case1 a b c rest v ih => rw [toDigits, ih]; rfl
  | case2 => rfl
  | case3 => rfl
  | case4 => rfl

theorem decode_map_digit (digits : List ℕ) :
    decode (digits.map digit) = decodeDigits (digits.map (· % 64)) := by
  have hvalues : (digits.map digit).mapM value = some (digits.map (· % 64)) := by
    induction digits with
    | nil => rfl
    | cons n digits ih =>
      rw [List.map_cons, List.mapM_cons, value_digit, ih]
      rfl
  have hplain : (digits.map digit).filter (fun c => !isLineBreak c) = digits.map digit := by
    refine List.filter_eq_self.2 fun c hc => ?_
    obtain ⟨n, -, rfl⟩ := List.mem_map.1 hc
    rw [isLineBreak_digit]
    rfl
  rw [decode, hplain, hvalues]
  rfl

theorem ofNat_eq {b : UInt8} {n : ℕ} (h : n % 256 = b.toNat) : UInt8.ofNat n = b := by
  rw [← UInt8.toNat_inj, UInt8.toNat_ofNat', h]

theorem decodeDigits_toDigits (bytes : List UInt8) :
    decodeDigits ((toDigits bytes).map (· % 64)) = some bytes := by
  fun_induction toDigits bytes with
  | case1 a b c rest v ih =>
    have ha := a.toNat_lt
    have hb := b.toNat_lt
    have hc := c.toNat_lt
    simp only [List.map_cons, decodeDigits, ih]
    rw [ofNat_eq (b := a), ofNat_eq (b := b), ofNat_eq (b := c)]
    · rfl
    all_goals omega
  | case2 a b v =>
    have ha := a.toNat_lt
    have hb := b.toNat_lt
    simp only [List.map_cons, List.map_nil, decodeDigits]
    rw [ofNat_eq (b := a), ofNat_eq (b := b)]
    all_goals omega
  | case3 a =>
    have ha := a.toNat_lt
    simp only [List.map_cons, List.map_nil, decodeDigits]
    rw [ofNat_eq (b := a)]
    omega
  | case4 => rfl

theorem decode_encode (bytes : List UInt8) : decode (encode bytes) = some bytes := by
  rw [encode_eq_map, decode_map_digit, decodeDigits_toDigits]

theorem encode_ne_nil {bytes : List UInt8} (h : bytes ≠ []) : encode bytes ≠ [] := by
  intro hnil
  have hdecode := decode_encode bytes
  rw [hnil] at hdecode
  exact h (Option.some.inj hdecode).symm

example : String.ofList (encode [102, 111, 111, 98]) = "Zm9vYg" := by decide +kernel

end LedgerCore.Base64
