import Mathlib.Data.List.Basic
import Mathlib.Data.Nat.Notation
import Mathlib.Tactic.Common

/-! The text that Go reads in bytes: a byte that starts no character of UTF-8 counts as U+FFFD. -/
namespace LedgerCore.Text

def decodeRune (b : UInt8) (bytes : List UInt8) : Char × List UInt8 :=
  match (b :: bytes).toByteArray.utf8DecodeChar? 0 with
  | some c => (c, (b :: bytes).drop c.utf8Size)
  | none => ('\uFFFD', bytes)

/-- No text has more characters than bytes. -/
def decodeRunes : ℕ → List UInt8 → List Char
  | fuel + 1, b :: bytes => (decodeRune b bytes).1 :: decodeRunes fuel (decodeRune b bytes).2
  | _, _ => []

def runes (bytes : List UInt8) : List Char := decodeRunes bytes.length bytes

example : runes [0x61, 0xC3, 0xA9, 0xFF, 0xE2, 0x82, 0x22] =
    ['a', 'é', '\uFFFD', '\uFFFD', '\uFFFD', '"'] := by decide

theorem decodeRune_encoded (c : Char) (rest : List UInt8) {b : UInt8} {bytes : List UInt8}
    (h : String.utf8EncodeChar c ++ rest = b :: bytes) : decodeRune b bytes = (c, rest) := by
  have hdecode : (b :: bytes).toByteArray.utf8DecodeChar? 0 = some c := by
    rw [← h, List.toByteArray_append]
    exact ByteArray.utf8DecodeChar?_utf8EncodeChar_append
  have hdrop : (b :: bytes).drop c.utf8Size = rest := by
    rw [← h, ← String.length_utf8EncodeChar c, List.drop_left]
  rw [decodeRune, hdecode]
  dsimp only
  rw [hdrop]

theorem decodeRunes_encoded (text : List Char) :
    ∀ fuel, (text.flatMap String.utf8EncodeChar).length ≤ fuel →
      decodeRunes fuel (text.flatMap String.utf8EncodeChar) = text := by
  induction text with
  | nil =>
    intro fuel _
    cases fuel <;> rfl
  | cons c text ih =>
    intro fuel hfuel
    rw [List.flatMap_cons] at hfuel ⊢
    have hpos : 0 < (String.utf8EncodeChar c).length := by
      rw [String.length_utf8EncodeChar]
      exact c.utf8Size_pos
    rw [List.length_append] at hfuel
    obtain ⟨fuel, rfl⟩ := Nat.exists_eq_succ_of_ne_zero (show fuel ≠ 0 by omega)
    obtain ⟨b, bytes, hbytes⟩ := List.exists_cons_of_ne_nil (List.ne_nil_of_length_pos hpos)
    have hrune := decodeRune_encoded c (text.flatMap String.utf8EncodeChar)
      (by rw [hbytes, List.cons_append])
    rw [hbytes, List.cons_append, decodeRunes, hrune, ih fuel (by omega)]

theorem runes_encoded (text : List Char) : runes (text.flatMap String.utf8EncodeChar) = text :=
  decodeRunes_encoded text _ (Nat.le_refl _)

end LedgerCore.Text
