import LedgerCore.Idempotency.Canonical
import Mathlib.Data.List.DropRight
import Mathlib.Data.List.Basic

/-! The address a request is taken to come from: the socket's peer, or the entry of
`X-Forwarded-For` that stands as many places from the right as there are trusted proxies. -/
namespace LedgerCore.Http
open LedgerCore.Idempotency (isSpace)

/-- What `resolveClientIP` reads of a request. `forwardedFor` has one value for each
`X-Forwarded-For` line, in the order of the lines. -/
structure Incoming where
  remoteAddr : String
  forwardedFor : List String
deriving Repr, DecidableEq

/-- `net.SplitHostPort`. The port starts after the last colon; an address in brackets ends at the
first closing one, which stands right before that colon. -/
def splitHostPort (hostport : List Char) : Option (List Char × List Char) :=
  let port := (hostport.reverse.takeWhile (· ≠ ':')).reverse
  let address := hostport.take (hostport.length - port.length - 1)
  if ':' ∉ hostport then none
  else if hostport.head? = some '[' then
    let inner := hostport.drop 1
    let host := inner.takeWhile (· ≠ ']')
    if address = '[' :: host ++ [']'] ∧ '[' ∉ inner ∧ ']' ∉ port then some (host, port) else none
  else if ':' ∈ address ∨ '[' ∈ hostport ∨ ']' ∈ hostport then none
  else some (address, port)

def hostOf (remoteAddr : String) : String :=
  match splitHostPort remoteAddr.toList with
  | none => remoteAddr
  | some (host, _) => .ofList host

def isOctet (field : List Char) : Bool :=
  field ≠ [] && field.all Char.isDigit && (field.head? ≠ some '0' || field.length = 1) &&
    Nat.ofDigitChars 10 field 0 ≤ 255

def parseIPv4 (s : List Char) : Bool :=
  let fields := s.splitOn '.'
  fields.length = 4 && fields.all isOctet

def isHexDigit (c : Char) : Bool :=
  c.isDigit || 'a' ≤ c && c ≤ 'f' || 'A' ≤ c && c ≤ 'F'

/-- An address is whole when its groups are eight, or fewer around a `::`. -/
def isWhole (left : ℕ) (ellipsis : Bool) : Bool := (0 < left) == ellipsis

/-- The loop of `netip.parseIPv6`; `left` groups of sixteen bits are still free. -/
def parseGroups : ℕ → Bool → List Char → Bool
  | 0, ellipsis, s => s = [] && isWhole 0 ellipsis
  | left + 1, ellipsis, s =>
    let digits := s.takeWhile isHexDigit
    if digits = [] ∨ 4 < digits.length then false
    else
      match s.dropWhile isHexDigit with
      | [] => isWhole left ellipsis
      -- The last two groups may be written as an IPv4 address.
      | '.' :: _ =>
        (ellipsis || left = 1) && 1 ≤ left && parseIPv4 s && isWhole (left - 1) ellipsis
      | ':' :: [] => false
      | ':' :: ':' :: [] => !ellipsis && isWhole left true
      | ':' :: ':' :: more => !ellipsis && parseGroups left true more
      | ':' :: more => parseGroups left ellipsis more
      | _ => false

def parseIPv6 (s : List Char) : Bool :=
  match s with
  | ':' :: ':' :: [] => true
  | ':' :: ':' :: more => parseGroups 8 true more
  | s => parseGroups 8 false s

/-- Whether `net.ParseIP` gives an address. No address with a zone is one. -/
def parseIP (s : String) : Bool :=
  if '%' ∈ s.toList then false
  else
    match s.toList.find? fun c => c = '.' || c = ':' with
    | some '.' => parseIPv4 s.toList
    | some _ => parseIPv6 s.toList
    | none => false

def trimSpace (s : String) : String :=
  .ofList ((s.toList.dropWhile isSpace).rdropWhile isSpace)

/-- `strings.Split` at commas. -/
def split (raw : String) : List String := (raw.toList.splitOn ',').map .ofList

def entries (raw : String) : List String := (split raw).map trimSpace

def resolveClientIP (r : Incoming) (hops : ℤ) : String :=
  let socketIP := hostOf r.remoteAddr
  if hops ≤ 0 then socketIP
  else
    -- `Header.Get`: the value of the first line only.
    let raw := r.forwardedFor.headD ""
    if raw = "" then socketIP
    else if (entries raw).length < hops then socketIP
    else
      let client := (entries raw).getD ((entries raw).length - hops.toNat) ""
      if parseIP client = false then socketIP else client

example : resolveClientIP ⟨"10.0.0.1:443", ["198.51.100.9, 203.0.113.55, 172.16.0.9"]⟩ 2 =
    "203.0.113.55" := by decide +kernel

example : resolveClientIP ⟨"[2001:db8::1]:443", ["203.0.113.55, not-an-ip"]⟩ 1 =
    "2001:db8::1" := by decide +kernel

def Incoming.chain (r : Incoming) : List String := r.forwardedFor.flatMap entries

/-- The entries that `hops` trusted proxies appended. -/
def Incoming.vouched (r : Incoming) (hops : ℕ) : List String :=
  r.chain.drop (r.chain.length - hops)

/-- No request with at most `lines` header lines that comes over the same peer, and whose chain
ends in the same `hops` entries, is resolved otherwise. -/
def Shielded (lines hops : ℕ) (r : Incoming) : Prop :=
  ∀ r' : Incoming, r'.forwardedFor.length ≤ lines → hostOf r'.remoteAddr = hostOf r.remoteAddr →
    hops ≤ r'.chain.length → r'.vouched hops = r.vouched hops →
      resolveClientIP r' hops = resolveClientIP r hops

@[simp] theorem chain_line (remoteAddr raw : String) :
    Incoming.chain ⟨remoteAddr, [raw]⟩ = entries raw := by
  simp [Incoming.chain]

theorem entries_empty : entries "" = [""] := by decide +kernel

/-- With one line, what is resolved is decided by the peer and the first vouched entry. -/
theorem resolveClientIP_line {remoteAddr raw : String} {hops : ℕ} (hhops : 1 ≤ hops)
    (hlen : hops ≤ (entries raw).length) :
    resolveClientIP ⟨remoteAddr, [raw]⟩ hops =
      let client := (Incoming.vouched ⟨remoteAddr, [raw]⟩ hops).headD ""
      if parseIP client = false then hostOf remoteAddr else client := by
  have hhead : (Incoming.vouched ⟨remoteAddr, [raw]⟩ hops).headD "" =
      (entries raw).getD ((entries raw).length - hops) "" := by
    rw [Incoming.vouched, chain_line, List.headD_eq_head?_getD, List.head?_drop,
      List.getD_eq_getElem?_getD]
  have hpos : hops ≠ 0 := by omega
  have hlong : ¬((entries raw).length : ℤ) < hops := by omega
  rw [hhead]
  unfold resolveClientIP
  by_cases hraw : raw = ""
  · -- An empty line has one entry, which is no address.
    subst hraw
    have hone : hops = 1 := by
      rw [entries_empty, List.length_singleton] at hlen
      omega
    have hempty : parseIP "" = false := by decide +kernel
    subst hone
    simp [entries_empty, hempty]
  · simp [hpos, hraw, hlong]

theorem eq_line {r : Incoming} {hops : ℕ} (hhops : 1 ≤ hops) (hlen : hops ≤ r.chain.length)
    (hone : r.forwardedFor.length ≤ 1) : ∃ raw, r = ⟨r.remoteAddr, [raw]⟩ := by
  obtain ⟨remoteAddr, forwardedFor⟩ := r
  match forwardedFor, hone with
  | [], _ =>
    simp [Incoming.chain] at hlen
    omega
  | [raw], _ => exact ⟨raw, rfl⟩

theorem shielded_of_line {r : Incoming} {hops : ℕ} (hhops : 1 ≤ hops)
    (hlen : hops ≤ r.chain.length) (hone : r.forwardedFor.length ≤ 1) : Shielded 1 hops r := by
  intro r' hone' hpeer hlen' hvouched
  obtain ⟨raw, hr⟩ := eq_line hhops hlen hone
  obtain ⟨raw', hr'⟩ := eq_line hhops hlen' hone'
  rw [hr, chain_line] at hlen
  rw [hr', chain_line] at hlen'
  rw [hr, hr', resolveClientIP_line hhops hlen, resolveClientIP_line hhops hlen', ← hr, ← hr',
    hvouched, hpeer]

def join (fields : List String) : String := .ofList ([','].intercalate (fields.map String.toList))

theorem not_mem_splitOn {α : Type} [BEq α] [LawfulBEq α] {sep : α} {text field : List α}
    (h : field ∈ text.splitOn sep) : sep ∉ field := by
  induction text generalizing field with
  | nil =>
    rw [List.splitOn_nil, List.mem_singleton] at h
    simp [h]
  | cons c text ih =>
    rw [List.splitOn_cons_eq_if_modifyHead] at h
    obtain ⟨first, others, hsplit⟩ := List.exists_cons_of_ne_nil (List.splitOn_ne_nil sep text)
    rw [hsplit] at h ih
    split at h
    · next =>
      obtain rfl | h := List.mem_cons.1 h
      · exact List.not_mem_nil
      · exact ih h
    · next hc =>
      rw [List.modifyHead_cons] at h
      obtain rfl | h := List.mem_cons.1 h
      · have hfirst := ih List.mem_cons_self
        have hne : sep ≠ c := fun heq => hc (by simp [heq])
        simp [hne, hfirst]
      · exact ih (List.mem_cons_of_mem _ h)

theorem split_join {fields : List String} (hne : fields ≠ [])
    (hplain : ∀ field ∈ fields, ',' ∉ field.toList) : split (join fields) = fields := by
  have hsplit : ([','].intercalate (fields.map String.toList)).splitOn ',' =
      fields.map String.toList := by
    apply List.splitOn_intercalate
    · simpa using hplain
    · simpa using hne
  have hid : (String.ofList ∘ String.toList) = id := funext fun _ => String.ofList_toList
  rw [split, join, String.toList_ofList, hsplit, List.map_map, hid, List.map_id]

theorem comma_not_mem {raw field : String} (h : field ∈ split raw) : ',' ∉ field.toList := by
  obtain ⟨cs, hcs, rfl⟩ := List.mem_map.1 h
  rw [String.toList_ofList]
  exact not_mem_splitOn hcs

theorem exists_line {r : Incoming} {hops : ℕ} (hhops : 1 ≤ hops) (hlen : hops ≤ r.chain.length) :
    ∃ line, entries line = r.vouched hops := by
  have hchain : r.chain = (r.forwardedFor.flatMap split).map trimSpace := by
    simp only [Incoming.chain, List.map_flatMap]
    rfl
  set fields := (r.forwardedFor.flatMap split).drop (r.chain.length - hops) with hfields
  refine ⟨join fields, ?_⟩
  have hcount : (r.forwardedFor.flatMap split).length = r.chain.length := by
    rw [hchain, List.length_map]
  have hne : fields ≠ [] := by
    apply List.ne_nil_of_length_pos
    rw [hfields, List.length_drop, hcount]
    omega
  have hplain : ∀ field ∈ fields, ',' ∉ field.toList := by
    intro field hfield
    obtain ⟨raw, -, hraw⟩ := List.mem_flatMap.1 (List.mem_of_mem_drop hfield)
    exact comma_not_mem hraw
  rw [entries, split_join hne hplain, Incoming.vouched, hfields, List.map_drop, ← hchain]

theorem resolveClientIP_spoofed {remoteAddr spoofed line : String} {hops : ℕ} (hhops : 1 ≤ hops)
    (haddr : parseIP spoofed = true) (hplain : ',' ∉ spoofed.toList)
    (htrim : trimSpace spoofed = spoofed) :
    resolveClientIP ⟨remoteAddr, [join (.replicate hops spoofed), line]⟩ hops = spoofed := by
  have hentries : entries (join (.replicate hops spoofed)) = .replicate hops spoofed := by
    rw [entries, split_join, List.map_replicate, htrim]
    · simp only [ne_eq, List.replicate_eq_nil_iff]
      omega
    · intro field hfield
      rw [List.eq_of_mem_replicate hfield]
      exact hplain
  have hraw : join (.replicate hops spoofed) ≠ "" := by
    intro hraw
    rw [hraw, entries_empty] at hentries
    have hmem : spoofed ∈ [""] := by
      rw [hentries]
      exact List.mem_replicate.2 ⟨by omega, rfl⟩
    rw [List.mem_singleton.1 hmem] at haddr
    revert haddr
    decide +kernel
  have hpos : hops ≠ 0 := by omega
  have hhead : (List.replicate hops spoofed).getD 0 "" = spoofed := by
    cases hops with
    | zero => contradiction
    | succ n => simp [List.replicate_succ]
  simp [-List.getD_eq_getElem?_getD, resolveClientIP, hraw, hentries, haddr, hpos, hhead]

theorem not_shielded_two {r : Incoming} {lines hops : ℕ} (hlines : 2 ≤ lines) (hhops : 1 ≤ hops)
    (hlen : hops ≤ r.chain.length) : ¬Shielded lines hops r := by
  intro hshielded
  obtain ⟨line, hline⟩ := exists_line hhops hlen
  -- Both of two addresses would have to be the one that is resolved.
  have hbelieved {spoofed : String} (haddr : parseIP spoofed = true)
      (hplain : ',' ∉ spoofed.toList) (htrim : trimSpace spoofed = spoofed) :
      spoofed = resolveClientIP r hops := by
    have hlength : (r.vouched hops).length = hops := by
      rw [Incoming.vouched, List.length_drop]
      omega
    have hchain : Incoming.chain ⟨r.remoteAddr, [join (.replicate hops spoofed), line]⟩ =
        entries (join (.replicate hops spoofed)) ++ r.vouched hops := by
      simp [Incoming.chain, hline]
    rw [← resolveClientIP_spoofed hhops haddr hplain htrim]
    apply hshielded
    · exact hlines
    · rfl
    · rw [hchain, List.length_append]
      omega
    · rw [Incoming.vouched, hchain, List.length_append, hlength, Nat.add_sub_cancel,
        List.drop_left]
  have hfirst := @hbelieved "192.0.2.1" (by decide +kernel) (by decide +kernel)
    (by decide +kernel)
  have hsecond := @hbelieved "192.0.2.2" (by decide +kernel) (by decide +kernel)
    (by decide +kernel)
  exact absurd (hfirst.trans hsecond.symm) (by decide)

/-- What is resolved depends on the peer and the vouched entries alone exactly where a request
carries at most one `X-Forwarded-For` line. -/
theorem shielded_iff_one_line {lines hops : ℕ} (hhops : 1 ≤ hops) (r : Incoming)
    (hlines : r.forwardedFor.length ≤ lines) (hlen : hops ≤ r.chain.length) :
    Shielded lines hops r ↔ lines ≤ 1 := by
  constructor
  · intro hshielded
    by_contra hmany
    exact not_shielded_two (by omega) hhops hlen hshielded
  · intro hone r' hone'
    exact shielded_of_line hhops hlen (by omega) r' (by omega)

theorem shielded_behind_one_proxy :
    Shielded 1 1 ⟨"10.0.0.1:443", ["198.51.100.9, 203.0.113.55"]⟩ :=
  (shielded_iff_one_line (by decide) _ (by decide) (by decide +kernel)).2 (by decide)

/-- The proxy appends the address it saw to the last line, but the client's own line comes
first. -/
theorem resolveClientIP_first_line :
    let honest : Incoming := ⟨"10.0.0.1:443", ["198.51.100.9, 203.0.113.55"]⟩
    let forged : Incoming := ⟨"10.0.0.1:443", ["6.6.6.6", "198.51.100.9, 203.0.113.55"]⟩
    forged.remoteAddr = honest.remoteAddr ∧ 1 ≤ honest.chain.length ∧ 1 ≤ forged.chain.length ∧
      forged.vouched 1 = honest.vouched 1 ∧
      resolveClientIP honest 1 = "203.0.113.55" ∧ resolveClientIP forged 1 = "6.6.6.6" := by
  decide +kernel

end LedgerCore.Http
