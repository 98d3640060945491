/-
# Sentinalysis.Hub.Proto — the messages of `sentinel.v1`.

Signed and unsigned integer fields are integers and naturals; a message carries no identity of its
sender.
-/
import Mathlib.Data.Int.Notation
import Mathlib.Data.Nat.Notation
import Sentinalysis.Lib.Float64

namespace Sentinalysis.Hub

/-- `MetricPoint`: one report of an agent's machine. -/
structure MetricPoint where
  timestampMs : ℤ
  cpuPercent : Lib.Float64
  memUsedBytes : ℕ
  memTotalBytes : ℕ
  diskUsedBytes : ℕ
  diskTotalBytes : ℕ
  load1m : Lib.Float64
  load5m : Lib.Float64
  netRxBytesTotal : ℕ
  netTxBytesTotal : ℕ
  deriving DecidableEq, Repr

/-- `MetricsRequest`. -/
structure MetricsRequest where
  point : Option MetricPoint
  deriving DecidableEq, Repr

/-- `LogLine`: one raw Docker line. -/
structure LogLine where
  timestampMs : ℤ
  container : String
  stream : String
  message : String
  deriving DecidableEq, Repr

/-- `ParsedLogEntry`: one entry of the agent's log pipeline, with its service by name. -/
structure ParsedLogEntry where
  timestampMs : ℤ
  level : String
  message : String
  rawLine : Option String
  clientIp : Option String
  requestPath : Option String
  statusCode : Option ℤ
  responseTimeMs : Option ℤ
  isNoise : Bool
  noiseReason : Option String
  threatLevel : String
  threatCategories : List String
  serviceName : String
  serviceUnitType : String
  virtualHost : Option String
  deriving DecidableEq, Repr

/-- `LogsRequest`. -/
structure LogsRequest where
  lines : List LogLine
  parsedLines : List ParsedLogEntry
  deriving DecidableEq, Repr

/-- `Ack`. -/
structure Ack where
  accepted : Bool
  count : ℕ
  deriving DecidableEq, Repr

end Sentinalysis.Hub
