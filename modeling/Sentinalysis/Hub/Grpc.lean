/-
# Sentinalysis.Hub.Grpc — the hub's checks of what an agent sends.

A line or an entry that passes becomes a record ready for the database; one that does not is
rejected with a reason.  The hub does not parse or classify again.
-/
import Sentinalysis.Db.Models
import Sentinalysis.Hub.Proto
import Sentinalysis.Hub.Validate

namespace Sentinalysis.Hub

open Lib Db

/-- `ts_from_ms`: an instant the date library cannot represent becomes the clock's. -/
def tsFromMs (clock : DateTime) (ms : ℤ) : DateTime :=
  (DateTime.fromTimestampMillis ms).getD clock

/-- The two readings of the clock that a check makes: where the timestamp cannot be represented,
and for the window. -/
structure Clock where
  fallback : DateTime
  now : DateTime
  deriving DecidableEq, Repr

/-- `validate_log_line`: the service is resolved later, by container name. -/
def validateLogLine (clock : Clock) (line : LogLine) (hostname : String) :
    Except String InsertLogEntry := do
  Validate.container line.container
  Validate.stream line.stream
  let timestamp := tsFromMs clock.fallback line.timestampMs
  Validate.timestamp timestamp clock.now
  let message := Validate.sanitizeMessage line.message
  return {
    serviceId := none
    timestamp := timestamp
    level := if line.stream = "stderr" then "error" else "info"
    message := message
    rawLine := some message
    clientIp := none
    requestPath := none
    statusCode := none
    responseTimeMs := none
    isNoise := false
    noiseReason := none
    threatLevel := "none"
    threatCategories := []
    sourceHost := some hostname }

/-- `ParsedIngest`: a record and the service the agent named for it. -/
structure ParsedIngest where
  entry : InsertLogEntry
  serviceName : String
  serviceUnitType : String
  virtualHost : Option String
  deriving DecidableEq, Repr

/-- A check of a field that may be absent. -/
def checkOption {α : Type} (check : α → Except String Unit) : Option α → Except String Unit
  | some a => check a
  | none => .ok ()

/-- The record an entry that passes becomes. -/
def storedRecord (clock : Clock) (parsed : ParsedLogEntry) (hostname : String) : ParsedIngest where
  entry :=
    { serviceId := none
      timestamp := tsFromMs clock.fallback parsed.timestampMs
      level := parsed.level
      message := Validate.sanitizeMessage parsed.message
      rawLine := parsed.rawLine.map Validate.sanitizeMessage
      clientIp := parsed.clientIp
      requestPath := parsed.requestPath
      -- zero stands for an absent status
      statusCode := if parsed.statusCode.getD 0 = 0 then none else some (parsed.statusCode.getD 0)
      responseTimeMs := parsed.responseTimeMs
      isNoise := parsed.isNoise
      noiseReason := parsed.noiseReason
      threatLevel := parsed.threatLevel
      threatCategories := parsed.threatCategories
      sourceHost := some hostname }
  serviceName := parsed.serviceName
  serviceUnitType := parsed.serviceUnitType
  virtualHost := parsed.virtualHost

/-- `validate_parsed_entry`. -/
def validateParsedEntry (clock : Clock) (parsed : ParsedLogEntry) (hostname : String) :
    Except String ParsedIngest := do
  let timestamp := tsFromMs clock.fallback parsed.timestampMs
  Validate.timestamp timestamp clock.now
  Validate.level parsed.level
  Validate.threatLevel parsed.threatLevel
  Validate.threatCategories parsed.threatCategories
  checkOption Validate.clientIp parsed.clientIp
  checkOption Validate.requestPath parsed.requestPath
  checkOption (Validate.shortText · "noise_reason") parsed.noiseReason
  let statusCode := parsed.statusCode.getD 0
  Validate.ensure (0 ≤ statusCode ∧ statusCode ≤ 599)
    ("status_code " ++ toString statusCode ++ " out of range")
  Validate.ensure (¬ parsed.responseTimeMs.any (· < 0)) "response_time_ms must be non-negative"
  Validate.ensure (¬ (parsed.serviceName = "" ∨ parsed.serviceUnitType = ""))
    "parsed entries must carry a service identity"
  Validate.serviceName parsed.serviceName
  Validate.unitType parsed.serviceUnitType
  checkOption Validate.serviceName parsed.virtualHost
  return storedRecord clock parsed hostname

/-- `send_logs` refuses a request with more lines than this. -/
def LogsRequest.oversized (request : LogsRequest) : Bool :=
  Validate.maxLinesPerRequest < request.lines.length + request.parsedLines.length

/-! ## When an entry passes -/

/-- What `validate_parsed_entry` asks of an entry. -/
structure WellFormed (clock : Clock) (parsed : ParsedLogEntry) : Prop where
  timestamp : Validate.InWindow (tsFromMs clock.fallback parsed.timestampMs) clock.now
  level : parsed.level ∈ Validate.levels
  threatLevel : parsed.threatLevel ∈ Validate.threatLevels
  categoryCount : parsed.threatCategories.length ≤ Validate.maxThreatCategories
  categories : ∀ value ∈ parsed.threatCategories, Validate.isToken value = true
  clientIp : ∀ ip ∈ parsed.clientIp, (IpAddr.parse ip).isSome = true
  requestPath : ∀ path ∈ parsed.requestPath, Validate.IsBoundedText path Validate.maxPathLen
  noiseReason : ∀ reason ∈ parsed.noiseReason,
    Validate.IsBoundedText reason Validate.maxUserIdLen
  statusCode : 0 ≤ parsed.statusCode.getD 0 ∧ parsed.statusCode.getD 0 ≤ 599
  responseTime : ∀ ms ∈ parsed.responseTimeMs, 0 ≤ ms
  serviceName : Validate.containerRe.isMatch parsed.serviceName = true
  unitType : Validate.isToken parsed.serviceUnitType = true
  virtualHost : ∀ vhost ∈ parsed.virtualHost, Validate.containerRe.isMatch vhost = true

theorem checkOption_eq_ok {α : Type} {check : α → Except String Unit} {value : Option α} :
    checkOption check value = .ok () ↔ ∀ a ∈ value, check a = .ok () := by
  cases value <;> simp [checkOption]

theorem isSome_toOption_iff {ε α : Type} {result : Except ε α} :
    result.toOption.isSome = true ↔ ∃ a, result = .ok a := by
  cases result <;> simp [Except.toOption]

/-- A check, then the rest. -/
theorem bind_eq_ok {α : Type} {check : Except String Unit} {rest : Unit → Except String α} {a : α} :
    (check >>= rest) = .ok a ↔ check = .ok () ∧ rest () = .ok a := by
  cases check <;> simp [bind, Except.bind]

/-- **An entry passes exactly when it is well formed**, and then becomes its stored record. -/
theorem validateParsedEntry_eq_ok {clock : Clock} {parsed : ParsedLogEntry} {hostname : String}
    {ingest : ParsedIngest} :
    validateParsedEntry clock parsed hostname = .ok ingest ↔
      WellFormed clock parsed ∧ storedRecord clock parsed hostname = ingest := by
  have hname : Validate.containerRe.isMatch parsed.serviceName = true →
      Validate.isToken parsed.serviceUnitType = true →
      ¬ (parsed.serviceName = "" ∨ parsed.serviceUnitType = "") := by
    rintro hmatch htoken (hempty | hempty)
    · rw [hempty] at hmatch
      exact absurd hmatch (by decide)
    · rw [hempty] at htoken
      exact absurd htoken (by decide)
  simp only [validateParsedEntry, bind_eq_ok, checkOption_eq_ok, Validate.timestamp_eq_ok,
    Validate.level, Validate.threatLevel, Validate.threatCategories_eq_ok, Validate.clientIp,
    Validate.requestPath, Validate.shortText, Validate.boundedText_eq_ok, Validate.serviceName,
    Validate.unitType, Validate.ensure_eq_ok, pure, Except.pure, Except.ok.injEq]
  constructor
  · rintro ⟨hts, hlevel, hthreat, ⟨hcount, hcats⟩, hip, hpath, hreason, hstatus, hms, -, hservice,
      hunit, hvhost, rfl⟩
    have hms : ∀ ms ∈ parsed.responseTimeMs, 0 ≤ ms := by
      intro ms hmem
      by_contra hneg
      exact hms (by rw [hmem]; simpa using hneg)
    exact ⟨⟨hts, hlevel, hthreat, hcount, hcats, hip, hpath, hreason, hstatus, hms, hservice, hunit,
      hvhost⟩, rfl⟩
  · rintro ⟨h, rfl⟩
    have hms : ¬ parsed.responseTimeMs.any (· < 0) = true := by
      cases hms : parsed.responseTimeMs with
      | none => simp
      | some ms => simpa using h.responseTime ms hms
    exact ⟨h.timestamp, h.level, h.threatLevel, ⟨h.categoryCount, h.categories⟩, h.clientIp,
      h.requestPath, h.noiseReason, h.statusCode, hms, hname h.serviceName h.unitType,
      h.serviceName, h.unitType, h.virtualHost, rfl⟩

instance (clock : Clock) (parsed : ParsedLogEntry) : Decidable (WellFormed clock parsed) :=
  decidable_of_iff ((validateParsedEntry clock parsed "").toOption.isSome = true) (by
    simp only [isSome_toOption_iff, validateParsedEntry_eq_ok, exists_and_left, exists_eq',
      and_true])

/-! ## When a line passes -/

/-- What `validate_log_line` asks of a line. -/
structure LineWellFormed (clock : Clock) (line : LogLine) : Prop where
  container : Validate.containerRe.isMatch line.container = true
  stream : line.stream = "stdout" ∨ line.stream = "stderr"
  timestamp : Validate.InWindow (tsFromMs clock.fallback line.timestampMs) clock.now

/-- The record a line that passes becomes. -/
def lineRecord (clock : Clock) (line : LogLine) (hostname : String) : InsertLogEntry where
  serviceId := none
  timestamp := tsFromMs clock.fallback line.timestampMs
  level := if line.stream = "stderr" then "error" else "info"
  message := Validate.sanitizeMessage line.message
  rawLine := some (Validate.sanitizeMessage line.message)
  clientIp := none
  requestPath := none
  statusCode := none
  responseTimeMs := none
  isNoise := false
  noiseReason := none
  threatLevel := "none"
  threatCategories := []
  sourceHost := some hostname

/-- **A line passes exactly when it is well formed**, and then becomes its record. -/
theorem validateLogLine_eq_ok {clock : Clock} {line : LogLine} {hostname : String}
    {entry : InsertLogEntry} :
    validateLogLine clock line hostname = .ok entry ↔
      LineWellFormed clock line ∧ lineRecord clock line hostname = entry := by
  simp only [validateLogLine, bind_eq_ok, Validate.container, Validate.stream,
    Validate.timestamp_eq_ok, Validate.ensure_eq_ok]
  constructor
  · rintro ⟨hcontainer, hstream, htimestamp, hrecord⟩
    exact ⟨⟨hcontainer, hstream, htimestamp⟩, Except.ok.inj hrecord⟩
  · rintro ⟨⟨hcontainer, hstream, htimestamp⟩, rfl⟩
    exact ⟨hcontainer, hstream, htimestamp, rfl⟩

theorem validateLogLine_isOk_iff {clock : Clock} {line : LogLine} {hostname : String} :
    (∃ entry, validateLogLine clock line hostname = .ok entry) ↔ LineWellFormed clock line := by
  simp only [validateLogLine_eq_ok, exists_and_left, exists_eq', and_true]

instance (clock : Clock) (line : LogLine) : Decidable (LineWellFormed clock line) :=
  decidable_of_iff ((validateLogLine clock line "").toOption.isSome = true)
    (isSome_toOption_iff.trans validateLogLine_isOk_iff)

end Sentinalysis.Hub
