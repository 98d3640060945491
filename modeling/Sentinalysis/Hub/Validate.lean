/-
# Sentinalysis.Hub.Validate — the input checks of the ingestion paths.

Every check returns the reason of a rejection.  The checks of short tokens and texts are members of
three families: a character class with a length (`eventType`, `appName`, `container`,
`serviceName`), a lowercase token (`unitType`, `threatCategories`) and a bounded text without
control characters (`userId`, `requestPath`, `shortText`).
-/
import Sentinalysis.Lib.Chrono
import Sentinalysis.Lib.IpAddr
import Sentinalysis.Lib.Regex
import Sentinalysis.Lib.Utf8

namespace Sentinalysis.Hub.Validate

open Lib

def maxPayloadBytes : ℕ := 4 * 1024
def maxEventTypeLen : ℕ := 64
def maxUserIdLen : ℕ := 128
def maxMessageBytes : ℕ := 16 * 1024
def maxLinesPerRequest : ℕ := 1000
def maxEventsPerRequest : ℕ := 500
def maxPathLen : ℕ := 2048
def maxThreatCategories : ℕ := 16
def minLimit : ℤ := 1
def maxLimit : ℤ := 200
def maxOffset : ℤ := 100000
def maxFutureSkewSecs : ℤ := 5 * 60
def maxPastAgeDays : ℤ := 30

/-- `LEVELS`. -/
def levels : List String := ["debug", "info", "warn", "error", "critical", "security"]

/-- `THREAT_LEVELS`. -/
def threatLevels : List String := ["none", "low", "medium", "high", "critical"]

/-! ## The families -/

/-- Passes, or fails with a reason. -/
def ensure (cond : Prop) [Decidable cond] (reason : String) : Except String Unit :=
  if cond then .ok () else .error reason

@[simp] theorem ensure_eq_ok {cond : Prop} [Decidable cond] {reason : String} :
    ensure cond reason = .ok () ↔ cond := by
  unfold ensure
  split <;> simp [*]

/-- A check in front of a computation. -/
@[simp] theorem ensure_bind_eq_ok {α : Type} {cond : Prop} [Decidable cond] {reason : String}
    {rest : Unit → Except String α} {a : α} :
    (ensure cond reason >>= rest) = .ok a ↔ cond ∧ rest () = .ok a := by
  unfold ensure
  split <;> simp [bind, Except.bind, *]

/-- `event_type_re`: `^[a-z0-9_.:-]{1,64}$`. -/
def eventTypeRe : Regex Empty :=
  let c := Regex.cls fun c =>
    c.isLower || c.isDigit || c == '_' || c == '.' || c == ':' || c == '-'
  Regex.concat [.bos, Regex.upTo 63 c, .eos]

/-- `app_name_re`: `^[a-z0-9._-]{1,64}$`. -/
def appNameRe : Regex Empty :=
  let c := Regex.cls fun c => c.isLower || c.isDigit || c == '.' || c == '_' || c == '-'
  Regex.concat [.bos, Regex.upTo 63 c, .eos]

/-- `container_re`: `^[A-Za-z0-9._-]{1,64}$`. -/
def containerRe : Regex Empty :=
  let c := Regex.cls fun c => c.isAlphanum || c == '.' || c == '_' || c == '-'
  Regex.concat [.bos, Regex.upTo 63 c, .eos]

/-- Lowercase letters, digits and hyphens, at least one and not too many. -/
def isToken (value : String) : Bool :=
  value ≠ "" && decide (Text.len value ≤ maxEventTypeLen)
    && value.toList.all fun c => c.isLower || c.isDigit || c == '-'

/-- `char::is_control`. -/
def isControl (c : Char) : Bool := c.toNat < 0x20 || (0x7F ≤ c.toNat && c.toNat < 0xA0)

/-- A text of bounded length without control characters. -/
def boundedText (value : String) (maxLen : ℕ) (name : String) : Except String Unit := do
  ensure (Text.len value ≤ maxLen) (name ++ " exceeds " ++ toString maxLen ++ " chars")
  ensure (¬ value.toList.any isControl) (name ++ " contains control characters")

/-- The condition of `boundedText`. -/
def IsBoundedText (value : String) (maxLen : ℕ) : Prop :=
  Text.len value ≤ maxLen ∧ ¬ value.toList.any isControl

instance (value : String) (maxLen : ℕ) : Decidable (IsBoundedText value maxLen) :=
  inferInstanceAs (Decidable (_ ∧ _))

theorem boundedText_eq_ok {value : String} {maxLen : ℕ} {name : String} :
    boundedText value maxLen name = .ok () ↔ IsBoundedText value maxLen := by
  rw [boundedText, ensure_bind_eq_ok, ensure_eq_ok]
  rfl

/-! ## The checks -/

/-- `event_type`: an allowlist without entries allows everything. -/
def eventType (value : String) (allowlist : Option (List String)) : Except String Unit := do
  ensure (eventTypeRe.isMatch value)
    ("event_type '" ++ value ++ "' must match [a-z0-9_.:-] and be 1..=" ++ toString maxEventTypeLen
      ++ " chars")
  ensure (¬ allowlist.any fun list => list ≠ [] && value ∉ list)
    ("event_type '" ++ value ++ "' is not in the configured allowlist")

def appName (value : String) : Except String Unit :=
  ensure (appNameRe.isMatch value)
    ("app_name '" ++ value ++ "' must match [a-z0-9._-] and be 1..=64 chars")

def userId (value : String) : Except String Unit := boundedText value maxUserIdLen "user_id"

def container (value : String) : Except String Unit :=
  ensure (containerRe.isMatch value)
    ("container '" ++ value ++ "' must match [A-Za-z0-9._-] and be 1..=64 chars")

def stream (value : String) : Except String Unit :=
  ensure (value = "stdout" ∨ value = "stderr")
    ("stream must be 'stdout' or 'stderr', got '" ++ value ++ "'")

def serviceName (value : String) : Except String Unit :=
  ensure (containerRe.isMatch value)
    ("service_name '" ++ value ++ "' must match [A-Za-z0-9._-] and be 1..=64 chars")

def unitType (value : String) : Except String Unit :=
  ensure (isToken value)
    ("unit_type '" ++ value ++ "' must be lowercase [a-z0-9-], 1..=" ++ toString maxEventTypeLen
      ++ " chars")

def level (value : String) : Except String Unit :=
  ensure (value ∈ levels) ("level '" ++ value ++ "' not in "
    ++ "[\"debug\", \"info\", \"warn\", \"error\", \"critical\", \"security\"]")

def threatLevel (value : String) : Except String Unit :=
  ensure (value ∈ threatLevels) ("threat_level '" ++ value ++ "' not in "
    ++ "[\"none\", \"low\", \"medium\", \"high\", \"critical\"]")

/-- The first category that is not a token is named. -/
def threatCategoryTokens : List String → Except String Unit
  | [] => .ok ()
  | value :: values => do
    ensure (isToken value) ("threat category '" ++ value ++ "' must be lowercase [a-z0-9-]")
    threatCategoryTokens values

def threatCategories (values : List String) : Except String Unit := do
  ensure (values.length ≤ maxThreatCategories) "too many threat categories"
  threatCategoryTokens values

def clientIp (value : String) : Except String Unit :=
  ensure (IpAddr.parse value).isSome ("client_ip '" ++ value ++ "' is not an IP address")

def requestPath (value : String) : Except String Unit :=
  boundedText value maxPathLen "request_path"

def shortText (value name : String) : Except String Unit := boundedText value maxUserIdLen name

/-- `timestamp`: no more than five minutes ahead and thirty days behind. -/
def timestamp (ts now : DateTime) : Except String Unit := do
  let skew := ts.secondsSince now
  ensure (skew ≤ maxFutureSkewSecs)
    ("timestamp is " ++ toString skew ++ "s in the future (max " ++ toString maxFutureSkewSecs
      ++ "s)")
  let age := -ts.secondsSince now
  let maxAgeSecs := maxPastAgeDays * 24 * 3600
  ensure (age ≤ maxAgeSecs)
    ("timestamp is " ++ toString age ++ "s old (max " ++ toString maxAgeSecs ++ "s = "
      ++ toString maxPastAgeDays ++ " days)")

/-- `limit`: the size of a page. -/
def limit (value : ℤ) : Except String ℤ := do
  ensure (minLimit ≤ value ∧ value ≤ maxLimit)
    ("limit must be between " ++ toString minLimit ++ " and " ++ toString maxLimit)
  return value

def offset (value : ℤ) : Except String ℤ := do
  ensure (0 ≤ value ∧ value ≤ maxOffset) ("offset must be between 0 and " ++ toString maxOffset)
  return value

theorem threatCategories_eq_ok {values : List String} :
    threatCategories values = .ok () ↔
      values.length ≤ maxThreatCategories ∧ ∀ value ∈ values, isToken value = true := by
  have htokens : ∀ values, threatCategoryTokens values = .ok () ↔
      ∀ value ∈ values, isToken value = true := by
    intro values
    induction values with
    | nil => simp [threatCategoryTokens]
    | cons value values ih => rw [threatCategoryTokens, ensure_bind_eq_ok, ih, List.forall_mem_cons]
  rw [threatCategories, ensure_bind_eq_ok, htokens]

/-- Within the acceptance window. -/
def InWindow (ts now : DateTime) : Prop :=
  ts.secondsSince now ≤ maxFutureSkewSecs ∧
    -ts.secondsSince now ≤ maxPastAgeDays * 24 * 3600

instance (ts now : DateTime) : Decidable (InWindow ts now) := inferInstanceAs (Decidable (_ ∧ _))

theorem timestamp_eq_ok {ts now : DateTime} :
    timestamp ts now = .ok () ↔ InWindow ts now := by
  rw [timestamp, ensure_bind_eq_ok, ensure_eq_ok]
  rfl

/-! ## Messages -/

/-- `str::is_char_boundary`. -/
def isCharBoundary (b : List UInt8) (i : ℕ) : Bool :=
  i == 0 || match b[i]? with
    | some x => x < 0x80 || 0xC0 ≤ x
    | none => i == b.length

/-- The walk back to a character boundary. -/
def walkBack (b : List UInt8) : ℕ → ℕ
  | 0 => 0
  | i + 1 => if isCharBoundary b (i + 1) then i + 1 else walkBack b i

/-- `sanitize_message`; the cut text always decodes. -/
def sanitizeMessage (raw : String) : String :=
  let trimmed := Text.stripNewline raw
  if Text.len trimmed ≤ maxMessageBytes then trimmed
  else
    let stop := walkBack (Text.bytes trimmed) maxMessageBytes
    (Text.fromUtf8 ((Text.bytes trimmed).take stop)).getD "" ++ "…"

theorem isCharBoundary_iff {s : String} {i : ℕ} :
    isCharBoundary (Text.bytes s) i = true ↔ Text.IsBoundary s i := by
  unfold isCharBoundary
  rw [Bool.or_eq_true, beq_iff_eq]
  rcases Nat.eq_zero_or_pos i with rfl | hi
  · exact iff_of_true (Or.inl rfl) (Text.isBoundary_zero s)
  · rw [or_iff_right (by omega)]
    cases hbyte : (Text.bytes s)[i]? with
    | none =>
      -- past the last byte there is only the end
      have hlen := List.getElem?_eq_none_iff.mp hbyte
      rw [beq_iff_eq]
      constructor
      · rintro rfl
        exact Text.isBoundary_len s
      · rintro ⟨t, u, rfl, rfl⟩
        rw [Text.bytes_append, List.length_append] at hlen ⊢
        unfold Text.len
        unfold Text.len at hlen
        omega
    | some x =>
      rw [Text.isBoundary_iff hbyte]
      simp only [Bool.or_eq_true, decide_eq_true_eq, UInt8.lt_iff_toNat_lt, UInt8.le_iff_toNat_le,
        Text.IsContinuation]
      show x.toNat < 0x80 ∨ 0xC0 ≤ x.toNat ↔ _
      omega

/-- The walk stops at the last boundary. -/
theorem walkBack_spec (b : List UInt8) (n : ℕ) :
    walkBack b n ≤ n ∧ isCharBoundary b (walkBack b n) = true ∧
      ∀ i, walkBack b n < i → i ≤ n → ¬ isCharBoundary b i = true := by
  induction n with
  | zero => exact ⟨le_refl _, rfl, fun i hlt hle => absurd hlt (by rw [walkBack]; omega)⟩
  | succ n ih =>
    rw [walkBack]
    split
    · next hboundary =>
      exact ⟨le_refl _, hboundary, fun i hlt hle => absurd hlt (by omega)⟩
    · next hboundary =>
      obtain ⟨hle, hstop, hlast⟩ := ih
      refine ⟨by omega, hstop, ?_⟩
      intro i hlt hi
      rcases Nat.lt_or_ge n i with hn | hn
      · rwa [show i = n + 1 by omega]
      · exact hlast i hlt hn

/-- **What a message is stored as**: all of it, or the whole characters of its first 16 KiB and an
ellipsis. -/
theorem sanitizeMessage_cases (raw : String) :
    (Text.len (Text.stripNewline raw) ≤ maxMessageBytes ∧
      sanitizeMessage raw = Text.stripNewline raw) ∨
    ∃ kept rest, Text.stripNewline raw = kept ++ rest ∧ Text.len kept ≤ maxMessageBytes ∧
      maxMessageBytes < Text.len (kept ++ rest) ∧
      (∀ i, Text.len kept < i → i ≤ maxMessageBytes → ¬ Text.IsBoundary (kept ++ rest) i) ∧
      sanitizeMessage raw = kept ++ "…" := by
  by_cases hshort : Text.len (Text.stripNewline raw) ≤ maxMessageBytes
  · exact Or.inl ⟨hshort, by rw [sanitizeMessage, if_pos hshort]⟩
  · right
    obtain ⟨hle, hstop, hlast⟩ := walkBack_spec (Text.bytes (Text.stripNewline raw)) maxMessageBytes
    obtain ⟨kept, rest, hsplit, hlen⟩ := isCharBoundary_iff.mp hstop
    refine ⟨kept, rest, hsplit, by omega, by rw [← hsplit]; omega, ?_, ?_⟩
    · intro i hlt hi
      rw [← hsplit]
      exact fun hboundary => hlast i (by omega) hi (isCharBoundary_iff.mpr hboundary)
    · have htake : (Text.bytes (Text.stripNewline raw)).take (Text.len kept) = Text.bytes kept := by
        rw [hsplit, Text.bytes_append]
        exact List.take_left
      rw [sanitizeMessage, if_neg hshort]
      show (Text.fromUtf8 ((Text.bytes _).take (walkBack _ _))).getD "" ++ "…" = _
      rw [← hlen, htake, Text.fromUtf8_bytes, Option.getD_some]

/-- A stored message has U+0000 in it exactly when the first 16 KiB of the message have. -/
theorem nul_mem_sanitizeMessage (raw : String) :
    '\x00' ∈ (sanitizeMessage raw).toList ↔ 0 ∈ (Text.bytes raw).take maxMessageBytes := by
  -- a newline that is taken off is no zero
  have hstrip : 0 ∈ (Text.bytes raw).take maxMessageBytes ↔
      0 ∈ (Text.bytes (Text.stripNewline raw)).take maxMessageBytes := by
    rcases Text.stripNewline_cases raw with hsame | hnewline
    · rw [hsame]
    · have hbytes : Text.bytes raw = Text.bytes (Text.stripNewline raw) ++ [10] := by
        conv_lhs => rw [hnewline, Text.bytes_append]
        rfl
      rw [hbytes, List.take_append, List.mem_append, or_iff_left]
      exact fun hzero => absurd (List.mem_of_mem_take hzero) (by decide)
  rw [hstrip, Text.nul_mem_toList]
  rcases sanitizeMessage_cases raw with ⟨hshort, hsame⟩ | ⟨kept, rest, hsplit, hle, -, hcut, heq⟩
  · rw [hsame, List.take_of_length_le hshort]
  · rw [heq, hsplit, Text.zero_mem_take_iff hle hcut, Text.bytes_append, List.mem_append,
      or_iff_left]
    decide

end Sentinalysis.Hub.Validate
