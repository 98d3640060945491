/-
# Sentinalysis.Db.Models — the records that are written to and read from the database.
-/
import Sentinalysis.Lib.Chrono

namespace Sentinalysis.Db

open Lib

/-- A `Uuid`, known by what tells two of them apart. -/
abbrev Uuid := ℕ

/-- `InsertLogEntry`: one row of `log_entries` before it has an id. -/
structure InsertLogEntry where
  serviceId : Option Uuid
  timestamp : DateTime
  level : String
  message : String
  rawLine : Option String
  clientIp : Option String
  requestPath : Option String
  statusCode : Option ℤ
  responseTimeMs : Option ℤ
  isNoise : Bool
  noiseReason : Option String
  threatLevel : String
  threatCategories : List String
  sourceHost : Option String
  deriving DecidableEq, Repr

/-- `InsertService`: what a service is created from. -/
structure InsertService where
  name : String
  unitType : String
  logPaths : Option (List String)
  virtualHost : Option String
  deriving DecidableEq, Repr

/-- `Service`: a row of `services`. -/
structure Service where
  id : Uuid
  name : String
  unitType : String
  logPaths : Option (List String)
  virtualHost : Option String
  deriving DecidableEq, Repr

/-- `LogEntry`: a row of `log_entries`. -/
structure LogEntry extends InsertLogEntry where
  id : Uuid
  deriving DecidableEq, Repr

end Sentinalysis.Db
