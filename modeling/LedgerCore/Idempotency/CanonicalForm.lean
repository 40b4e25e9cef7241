import LedgerCore.Idempotency.RoundTrip
import LedgerCore.Json.Meaning
import LedgerCore.Text.Runes

/-! `Canonicalize` on bytes is a canonical form: it refuses what is not one document without
duplicate keys, it writes two documents alike if and only if they denote the same, and it leaves
what it wrote as it is. -/
namespace LedgerCore.Idempotency
open LedgerCore.Program LedgerCore.Json LedgerCore.Text
variable {raw out : Bytes}

/-- `Canonicalize` -/
def canonicalizeBytes (raw : Bytes) : Except Error Bytes := (canonicalize (runes raw)).map utf8

def Blank (raw : Bytes) : Prop := (runes raw).all isSpace = true

instance (raw : Bytes) : Decidable (Blank raw) := inferInstanceAs (Decidable (_ = _))

def meaning (raw : Bytes) : Option Meaning := (document (runes raw)).map denote

theorem runes_utf8 (text : List Char) : runes (utf8 text) = text := by
  have hencode : utf8 text = text.flatMap String.utf8EncodeChar := by
    simp [utf8, List.utf8Encode]
  rw [hencode, runes_encoded]

theorem utf8_injective {text text' : List Char} (h : utf8 text = utf8 text') : text = text' := by
  rw [← runes_utf8 text, h, runes_utf8]

/-- Every refusal wraps `ErrMalformedBody`. -/
def Refused (raw : Bytes) : Prop :=
  ∃ message, canonicalizeBytes raw = .error (.errorf message .malformedBody)

theorem parseValue_error {raw : List Char} {e : Error} (h : parseValue raw = .error e) :
    ∃ message, e = .errorf message .malformedBody := by
  unfold parseValue at h
  split at h
  · exact ⟨_, (Except.error.inj h).symm⟩
  · split at h
    · exact ⟨_, (Except.error.inj h).symm⟩
    · cases h

theorem refused_unless (hraw : ¬Blank raw)
    (h : ∀ d rest, scanValue ((runes raw).length + 1) (runes raw) = some (d, rest) →
      d.duplicate = none → skipSpace rest ≠ []) : Refused raw := by
  have hcanonicalize : canonicalize (runes raw) = parseValue (runes raw) >>= fun p =>
      if skipSpace p.2 = [] then writeValue p.1
      else .error (.errorf "canonicalize: trailing content after the top-level JSON value"
        .malformedBody) := if_neg hraw
  rw [Refused, canonicalizeBytes, hcanonicalize]
  cases hparse : parseValue (runes raw) with
  | error e =>
    obtain ⟨message, rfl⟩ := parseValue_error hparse
    exact ⟨message, rfl⟩
  | ok p =>
    obtain ⟨d, rest⟩ := p
    obtain ⟨hscan, hduplicate⟩ := parseValue_eq_ok.1 hparse
    refine ⟨"canonicalize: trailing content after the top-level JSON value", ?_⟩
    change Except.map utf8 (if skipSpace rest = [] then writeValue d else _) = _
    rw [if_neg (h d rest hscan hduplicate)]
    rfl

theorem refused_of_no_document (hraw : ¬Blank raw) (h : document (runes raw) = none) :
    Refused raw := by
  refine refused_unless hraw fun d rest hscan _ hrest => ?_
  cases (document_eq_some.2 ⟨rest, hscan, hrest⟩).symm.trans h

theorem refused_of_duplicate (hraw : ¬Blank raw) {d : Json} (h : document (runes raw) = some d)
    (hkey : d.duplicate ≠ none) : Refused raw := by
  obtain ⟨rest, hscan, -⟩ := document_eq_some.1 h
  refine refused_unless hraw fun d' rest' hscan' hduplicate _ => hkey ?_
  rw [hscan] at hscan'
  cases hscan'
  exact hduplicate

theorem canonicalizeBytes_eq_ok (hraw : ¬Blank raw) (h : canonicalizeBytes raw = .ok out) :
    ∃ d v, document (runes raw) = some d ∧ Means d v ∧ out = utf8 (render v) := by
  obtain ⟨text, htext, rfl⟩ := map_eq_ok.1 h
  obtain ⟨d, v, hdocument, hduplicate, hvalue, rfl⟩ :=
    (canonicalize_eq_ok (Bool.eq_false_iff.2 hraw)).1 htext
  exact ⟨d, v, hdocument, ⟨hduplicate, hvalue⟩, rfl⟩

theorem canonicalizeBytes_render {v : Value} (hv : v.Normal) :
    canonicalizeBytes (utf8 (render v)) = .ok (utf8 (render v)) := by
  rw [canonicalizeBytes, runes_utf8, canonicalize_render hv]
  rfl

theorem canonicalizeBytes_blank (hraw : Blank raw) : canonicalizeBytes raw = .ok [] := by
  have hcanonicalize : canonicalize (runes raw) = .ok [] := if_pos hraw
  rw [canonicalizeBytes, hcanonicalize]
  rfl

theorem eq_iff_meaning_eq {raw' out' : Bytes} (hraw : ¬Blank raw) (hraw' : ¬Blank raw')
    (h : canonicalizeBytes raw = .ok out) (h' : canonicalizeBytes raw' = .ok out') :
    out = out' ↔ meaning raw = meaning raw' := by
  obtain ⟨d, v, hdocument, hmeans, rfl⟩ := canonicalizeBytes_eq_ok hraw h
  obtain ⟨d', v', hdocument', hmeans', rfl⟩ := canonicalizeBytes_eq_ok hraw' h'
  rw [meaning, meaning, hdocument, hdocument', Option.map_some, Option.map_some,
    Option.some.injEq, denote_eq_iff hmeans hmeans']
  constructor
  · exact fun heq => render_injective (value_normal hmeans.value) (value_normal hmeans'.value)
      (utf8_injective heq)
  · exact fun heq => by rw [heq]

theorem canonicalizeBytes_idempotent (h : canonicalizeBytes raw = .ok out) :
    canonicalizeBytes out = .ok out := by
  by_cases hraw : Blank raw
  · obtain rfl := Except.ok.inj ((canonicalizeBytes_blank hraw).symm.trans h)
    rfl
  · obtain ⟨d, v, -, hmeans, rfl⟩ := canonicalizeBytes_eq_ok hraw h
    exact canonicalizeBytes_render (value_normal hmeans.value)

/-- `Canonicalize` refuses duplicate keys, malformed documents and trailing content, tells apart
what denotes different values and nothing else, and is the identity on what it returns. -/
theorem canonicalize_canonical_form :
    (∀ raw, ¬Blank raw → (document (runes raw) = none ∨
      ∃ d, document (runes raw) = some d ∧ d.duplicate ≠ none) → Refused raw) ∧
    (∀ raw raw' out out', ¬Blank raw → ¬Blank raw' → canonicalizeBytes raw = .ok out →
      canonicalizeBytes raw' = .ok out' → (out = out' ↔ meaning raw = meaning raw')) ∧
    ∀ raw out, canonicalizeBytes raw = .ok out → canonicalizeBytes out = .ok out := by
  refine ⟨fun raw hraw h => ?_, fun raw raw' out out' => eq_iff_meaning_eq,
    fun raw out => canonicalizeBytes_idempotent⟩
  rcases h with h | ⟨d, h, hkey⟩
  · exact refused_of_no_document hraw h
  · exact refused_of_duplicate hraw h hkey

theorem canonicalize_canonical_form_reordered :
    meaning (utf8 "\x7b\"b\":[true],\"a\":\"\\u0041\"\x7d".toList) =
        meaning (utf8 " \x7b \"a\" : \"A\", \"b\": [true]\x7d\n".toList) ∧
      Refused (utf8 "\x7b\"a\":1,\"a\":1\x7d".toList) := by
  obtain ⟨hrefused, hequal, -⟩ := canonicalize_canonical_form
  have hbytes {text out : List Char} (h : canonicalize text = .ok out) :
      canonicalizeBytes (utf8 text) = .ok (utf8 out) := by
    rw [canonicalizeBytes, runes_utf8, h]
    rfl
  have hblank {text : List Char} (h : text.all isSpace = false) : ¬Blank (utf8 text) := by
    rw [Blank, runes_utf8, h]
    decide
  have hout : canonicalize "\x7b\"b\":[true],\"a\":\"\\u0041\"\x7d".toList =
      .ok "\x7b\"a\":\"A\",\"b\":[true]\x7d".toList := by decide +kernel
  have hout' : canonicalize " \x7b \"a\" : \"A\", \"b\": [true]\x7d\n".toList =
      .ok "\x7b\"a\":\"A\",\"b\":[true]\x7d".toList := by decide +kernel
  have hdocument : ((document "\x7b\"a\":1,\"a\":1\x7d".toList).any fun d =>
      d.duplicate ≠ none) = true := by decide +kernel
  have hsame := hequal _ _ _ _ (hblank (by decide)) (hblank (by decide)) (hbytes hout) (hbytes hout')
  obtain ⟨d, hd, hkey⟩ := (Option.any_eq_true _ _).1 hdocument
  refine ⟨hsame.1 rfl, hrefused _ (hblank (by decide)) (.inr ⟨d, ?_, of_decide_eq_true hkey⟩)⟩
  rw [runes_utf8, hd]

end LedgerCore.Idempotency
