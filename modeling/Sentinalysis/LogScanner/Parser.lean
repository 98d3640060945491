/-
# Sentinalysis.LogScanner.Parser — the log-line parsers and the parsed entry they produce.

Two formats: the nginx combined access log and the syslog-style auth log.  A parser returns nothing
for a line that carries no data, and an error for a line that is not of its format.
-/
import Sentinalysis.Lib.Regex
import Sentinalysis.Lib.Chrono
import Sentinalysis.Lib.IpAddr
import Sentinalysis.Error

namespace Sentinalysis.LogScanner

open Lib Regex

/-- What the log pipeline takes from outside the repository: character tables, the date library and
the text form of a path. -/
structure Externals where
  unicode : Unicode
  chrono : Chrono
  displayPath : Path → String

/-! ## The parsed entry -/

inductive LogLevel
  | Debug
  | Info
  | Warn
  | Error
  | Critical
  | Security
  deriving DecidableEq, Repr

/-- `LogLevel::as_str`: the name stored in `log_entries.level`. -/
def LogLevel.asStr : LogLevel → String
  | Debug => "debug"
  | Info => "info"
  | Warn => "warn"
  | Error => "error"
  | Critical => "critical"
  | Security => "security"

/-- `LogLevel::from_db`: unknown values map to `Info`. -/
def LogLevel.fromDb (value : String) : LogLevel :=
  if value = "debug" then Debug
  else if value = "warn" then Warn
  else if value = "error" then Error
  else if value = "critical" then Critical
  else if value = "security" then Security
  else Info

/-- A stored level reads back as itself. -/
theorem LogLevel.fromDb_asStr (level : LogLevel) : fromDb level.asStr = level := by
  cases level <;> decide

structure LogMetadata where
  clientIp : Option IpAddr := none
  requestMethod : Option String := none
  requestPath : Option String := none
  statusCode : Option UInt16 := none
  bytesSent : Option UInt64 := none
  responseTimeMs : Option UInt64 := none
  userAgent : Option String := none
  referer : Option String := none
  virtualHost : Option String := none
  upstreamService : Option String := none
  deriving DecidableEq, Repr

structure ParsedLogEntry where
  timestamp : DateTime
  sourceName : String
  level : LogLevel
  message : String
  raw : String
  metadata : LogMetadata
  deriving DecidableEq, Repr

inductive ParseError
  | InvalidFormat (msg : String)
  | MissingField (field : String)
  | InvalidValue (field value : String)
  deriving DecidableEq, Repr

/-- `Display for ParseError`. -/
def ParseError.display : ParseError → String
  | InvalidFormat msg => "invalid format: " ++ msg
  | MissingField field => "missing field: " ++ field
  | InvalidValue field value => "invalid value for " ++ field ++ ": " ++ value

/-- `LogParser`: a line format and its name. -/
structure LogParser where
  name : String
  parse : DateTime → String → Except ParseError (Option ParsedLogEntry)

/-- `str::trim`. -/
def trim (s : String) : List Char := Text.trimList isWhitespace s.toList

/-! ## The nginx access log -/

/-- The groups of the nginx expression. -/
inductive NginxGroup
  | remoteAddr
  | timeLocal
  | request
  | status
  | bodyBytesSent
  | httpReferer
  | httpUserAgent
  | host
  | requestTime
  deriving DecidableEq, Repr

/-- `NGINX_COMBINED_RE`. -/
def nginxCombinedRe (u : Unicode) : Regex NginxGroup := concat [
  bos, cap .remoteAddr (many1 nonSpace), lit " ", many1 nonSpace, lit " ", many1 nonSpace,
  lit " [", cap .timeLocal (many1 (except ']')), lit "] \"",
  cap .request (many (except '"')), lit "\" ", cap .status (times 3 (digit u)), lit " ",
  cap .bodyBytesSent (many1 (digit u)), lit " \"", cap .httpReferer (many (except '"')),
  lit "\" \"", cap .httpUserAgent (many (except '"')), lit "\"",
  opt (concat [lit " \"", cap .host (many (except '"')), lit "\" ",
    cap .requestTime (many1 (cls fun c => u.decimalNumber c || c == '.'))]),
  eos]

def classifyStatus (status : UInt16) : LogLevel :=
  if 100 ≤ status ∧ status ≤ 399 then .Info
  else if 500 ≤ status ∧ status ≤ 599 then .Error
  else .Warn

/-- Seconds to milliseconds, rounded half away from zero; values from 2^64 on saturate. -/
def requestTimeMillis (rt : ℚ) : UInt64 :=
  let ms := (rt * 1000 + 1 / 2).floor
  if 0 ≤ ms ∧ ms < 2 ^ 64 then UInt64.ofNat ms.toNat else UInt64.ofNat (2 ^ 64 - 1)

/-- The value of a field, or the error that names it. -/
def fieldOr {α : Type} (value : Option α) (field text : String) : Except ParseError α :=
  match value with
  | some a => .ok a
  | none => .error (.InvalidValue field text)

variable (crates : Externals)

def parseNginxTimestamp (s : String) : Except ParseError DateTime :=
  fieldOr (crates.chrono.parseFromStr s "%d/%b/%Y:%H:%M:%S %z") "time_local" s

/-- `NginxAccessParser::parse`, on the trimmed line. -/
def nginxParseTrimmed (text : List Char) : Except ParseError (Option ParsedLogEntry) := do
  if text = [] then return none
  let line := String.ofList text
  let caps ← match (nginxCombinedRe crates.unicode).captures text with
    | some caps => .ok caps
    | none => .error (.InvalidFormat (line ++ " - line does not match nginx combined format"))
  let remoteAddr ← fieldOr (IpAddr.parse (caps.nameUnwrap .remoteAddr)) "remote_addr"
    (caps.nameUnwrap .remoteAddr)
  let timestamp ← parseNginxTimestamp crates (caps.nameUnwrap .timeLocal)
  let (method, path) := match Text.splitn ' ' 3 (caps.nameUnwrap .request).toList with
    | method :: path :: _ => (some method, some path)
    | _ => (none, none)
  let status ← fieldOr (Text.parseUnsigned (2 ^ 16) (caps.nameUnwrap .status)) "status"
    (caps.nameUnwrap .status)
  let bytesSent ← fieldOr (Text.parseUnsigned (2 ^ 64) (caps.nameUnwrap .bodyBytesSent))
    "body_bytes_sent" (caps.nameUnwrap .bodyBytesSent)
  let status := UInt16.ofNat status
  let metadata : LogMetadata := {
    clientIp := some remoteAddr
    requestMethod := method
    requestPath := path
    statusCode := some status
    bytesSent := some (UInt64.ofNat bytesSent)
    responseTimeMs := ((caps.name .requestTime).bind Text.parseDecimal).map requestTimeMillis
    userAgent := some (caps.nameUnwrap .httpUserAgent)
    referer := some (caps.nameUnwrap .httpReferer)
    virtualHost := (caps.name .host).filter (· ≠ "-") }
  return some {
    timestamp := timestamp
    sourceName := "nginx-access"
    level := classifyStatus status
    message := method.getD "" ++ " " ++ path.getD "" ++ " " ++ toString status.toNat
    raw := line
    metadata := metadata }

/-- What an entry has from the groups of its line. -/
structure FromGroups (caps : Captures NginxGroup) (text : List Char) (entry : ParsedLogEntry) :
    Prop where
  timestamp : parseNginxTimestamp crates (caps.nameUnwrap .timeLocal) = .ok entry.timestamp
  raw : entry.raw = String.ofList text
  responseTimeMs : entry.metadata.responseTimeMs
    = ((caps.name .requestTime).bind Text.parseDecimal).map requestTimeMillis
  userAgent : entry.metadata.userAgent = some (caps.nameUnwrap .httpUserAgent)
  request : ∃ method path, entry.metadata.requestPath = path ∧
    (∀ part, method = some part ∨ path = some part →
      part ∈ Text.splitn ' ' 3 (caps.nameUnwrap .request).toList) ∧
    ∃ status : UInt16, entry.message
      = method.getD "" ++ " " ++ path.getD "" ++ " " ++ toString status.toNat

variable {crates} in
/-- An entry comes from the groups of its line. -/
theorem nginxParseTrimmed_fromGroups {text : List Char} {entry : ParsedLogEntry}
    (h : nginxParseTrimmed crates text = .ok (some entry)) :
    ∃ caps, (nginxCombinedRe crates.unicode).captures text = some caps ∧
      FromGroups crates caps text entry := by
  unfold nginxParseTrimmed at h
  split at h
  · cases h
  · dsimp only at h
    split at h
    · next caps hcaptures =>
      obtain ⟨_, heq, h⟩ := bind_eq_ok_iff.mp h
      obtain rfl := Except.ok.inj heq
      obtain ⟨addr, -, h⟩ := bind_eq_ok_iff.mp h
      obtain ⟨timestamp, htime, h⟩ := bind_eq_ok_iff.mp h
      obtain ⟨status, -, h⟩ := bind_eq_ok_iff.mp h
      obtain ⟨bytesSent, -, h⟩ := bind_eq_ok_iff.mp h
      obtain rfl := Option.some.inj (Except.ok.inj h)
      refine ⟨caps, hcaptures, htime, rfl, rfl, rfl, ?_⟩
      -- the request line is split at its spaces
      generalize Text.splitn ' ' 3 (caps.nameUnwrap .request).toList = parts
      rcases parts with _ | ⟨method, _ | ⟨path, rest⟩⟩
      · exact ⟨none, none, rfl, by simp, _, rfl⟩
      · exact ⟨none, none, rfl, by simp, _, rfl⟩
      · refine ⟨some method, some path, rfl, ?_, _, rfl⟩
        rintro part (hpart | hpart)
        · obtain rfl := Option.some.inj hpart
          exact List.mem_cons_self ..
        · obtain rfl := Option.some.inj hpart
          exact List.mem_cons_of_mem _ (List.mem_cons_self ..)
    · cases h

/-- `NginxAccessParser::parse`. -/
def nginxParse (line : String) : Except ParseError (Option ParsedLogEntry) :=
  nginxParseTrimmed crates (trim line)

theorem nginxParse_ofList (l : List Char) :
    nginxParse crates (String.ofList l) = nginxParseTrimmed crates (Text.trimList isWhitespace l) := by
  rw [nginxParse, trim, String.toList_ofList]

/-- `NginxAccessParser`. -/
def nginxAccessParser : LogParser where
  name := "nginx_combined"
  parse _ line := nginxParse crates line

/-! ## The auth log -/

/-- The groups of the syslog expressions. -/
inductive SyslogGroup
  | timestamp
  | month
  | day
  | time
  | host
  | service
  | pid
  | message
  deriving DecidableEq, Repr

/-- The groups of the login expressions. -/
inductive SshGroup
  | user
  | ip
  deriving DecidableEq, Repr

/-- What follows the timestamp in both syslog formats. -/
def syslogTailRe (u : Unicode) : List (Regex SyslogGroup) := [
  many1 space, cap .host (many1 nonSpace), many1 space, cap .service (many1Lazy nonSpace),
  opt (concat [lit "[", cap .pid (many1 (digit u)), lit "]"]), lit ":", many1 space,
  cap .message (many any), eos]

/-- `ISO_SYSLOG_RE`. -/
def isoSyslogRe (u : Unicode) : Regex SyslogGroup :=
  let d : Regex SyslogGroup := digit u
  let two := times 2 d
  concat ([bos, cap .timestamp (concat [times 4 d, lit "-", two, lit "-", two, lit "T", two,
    lit ":", two, lit ":", two, many (cls fun c => c == '.' || u.decimalNumber c),
    cls (fun c => c == '+' || c == '-'), two, lit ":", two])] ++ syslogTailRe u)

/-- `SYSLOG_TIMESTAMP_RE`. -/
def syslogTimestampRe (u : Unicode) : Regex SyslogGroup :=
  let d : Regex SyslogGroup := digit u
  let two := times 2 d
  concat ([bos, cap .month (times 3 (wordChar u)), many1 space, cap .day (seq d (opt d)),
    many1 space, cap .time (concat [two, lit ":", two, lit ":", two])] ++ syslogTailRe u)

/-- `SSH_FAILED_RE`. -/
def sshFailedRe (u : Unicode) : Regex SshGroup := concat [
  lit "Failed password for ", opt (lit "invalid user "), cap .user (many1 nonSpace), lit " from ",
  cap .ip (many1 nonSpace), lit " port ", many1 (digit u)]

/-- `SSH_ACCEPTED_RE`. -/
def sshAcceptedRe (u : Unicode) : Regex SshGroup := concat [
  lit "Accepted ", alt (lit "password") (lit "publickey"), lit " for ",
  cap .user (many1 nonSpace), lit " from ", cap .ip (many1 nonSpace), lit " port ",
  many1 (digit u)]

def parseSyslogTimestamp (now : DateTime) (month day time : String) :
    Except ParseError DateTime :=
  let s := month ++ " " ++ day ++ " " ++ toString (crates.chrono.year now) ++ " " ++ time
  fieldOr (crates.chrono.naiveParseFromStr s "%b %d %Y %H:%M:%S") "timestamp" s

def classifyAuthMessage (message : String) : LogLevel × Option IpAddr :=
  match (sshFailedRe crates.unicode).captures message.toList with
  | some caps => (.Security, (caps.name .ip).bind IpAddr.parse)
  | none => match (sshAcceptedRe crates.unicode).captures message.toList with
    | some caps => (.Info, (caps.name .ip).bind IpAddr.parse)
    | none =>
      if Text.contains message "error" || Text.contains message "failed" then (.Error, none)
      else if Text.contains message "warning" || Text.contains message "invalid" then (.Warn, none)
      else (.Info, none)

/-- `AuthLogParser::parse`, on the trimmed line; the year of a line without one is the clock's. -/
def authParseTrimmed (now : DateTime) (text : List Char) :
    Except ParseError (Option ParsedLogEntry) := do
  if text = [] then return none
  let line := String.ofList text
  let (timestamp, service, message) ←
    match (isoSyslogRe crates.unicode).captures text with
    | some caps => do
      let tsStr := caps.nameUnwrap .timestamp
      let timestamp ← fieldOr (crates.chrono.parseFromRfc3339 tsStr) "timestamp" tsStr
      pure (timestamp, caps.nameUnwrap .service, caps.nameUnwrap .message)
    | none => match (syslogTimestampRe crates.unicode).captures text with
      | some caps => do
        let timestamp ← parseSyslogTimestamp crates now (caps.nameUnwrap .month)
          (caps.nameUnwrap .day) (caps.nameUnwrap .time)
        pure (timestamp, caps.nameUnwrap .service, caps.nameUnwrap .message)
      | none => .error (.InvalidFormat "line does not match syslog format")
  let (level, clientIp) := classifyAuthMessage crates message
  return some {
    timestamp := timestamp
    sourceName := "auth-log"
    level := level
    message := "[" ++ service ++ "] " ++ message
    raw := line
    metadata := { clientIp := clientIp } }

/-- `AuthLogParser::parse`. -/
def authParse (now : DateTime) (line : String) : Except ParseError (Option ParsedLogEntry) :=
  authParseTrimmed crates now (trim line)

/-- `AuthLogParser`. -/
def authLogParser : LogParser where
  name := "syslog"
  parse now line := authParse crates now line

end Sentinalysis.LogScanner
