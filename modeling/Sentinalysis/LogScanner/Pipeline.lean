/-
# Sentinalysis.LogScanner.Pipeline — one tailed line to one entry: parse, filter, classify, name the
service, build the record.

The pipeline has no database of its own.  It asks a `ServiceResolver` for the id of the service a
line belongs to; the resolver has a state, and an environment decides what it cannot (fresh ids,
database failures).
-/
import Sentinalysis.Db.Models
import Sentinalysis.LogScanner.Classifier
import Sentinalysis.LogScanner.Filter
import Sentinalysis.LogScanner.Tailer

namespace Sentinalysis.LogScanner

open Lib Db

/-- `UNIT_TYPE_NGINX_VHOST`. -/
def unitTypeNginxVhost : String := "nginx-vhost"

/-- `UNIT_TYPE_SYSTEM_LOG`. -/
def unitTypeSystemLog : String := "system-log"

/-- `ServiceMeta`: what names a service. -/
structure ServiceMeta where
  name : String
  unitType : String
  virtualHost : Option String
  deriving DecidableEq, Repr

/-- `ServiceResolver`: the id of a service, created on first use, or none if it could not be
resolved. -/
structure ServiceResolver (η ρ : Type) where
  resolve : η → ρ → ServiceMeta → Option Uuid × ρ

/-! ## Parsers by file name -/

/-- `ParserMatch`: the file names a parser handles, where `*` is every name. -/
structure ParserMatch where
  names : List String
  parser : LogParser

def ParserMatch.handles (entry : ParserMatch) (fileName : String) : Bool :=
  entry.names.any fun name => name == "*" || name == fileName

/-- `ParserRegistry`: parsers in the order they are tried; there is always one. -/
structure ParserRegistry where
  entries : List ParserMatch
  nonempty : entries ≠ []

namespace ParserRegistry

/-- `ParserRegistry::default_registry`. -/
def defaultRegistry (crates : Externals) : ParserRegistry where
  entries := [
    { names := ["auth.log"], parser := authLogParser crates },
    { names := ["*"], parser := nginxAccessParser crates }]
  nonempty := List.cons_ne_nil _ _

/-- `ParserRegistry::for_path`: the first parser that handles the file name, else the last one. -/
def forPath (registry : ParserRegistry) (filePath : Path) : LogParser :=
  let fileName := filePath.fileName.getD ""
  match registry.entries.find? (ParserMatch.handles · fileName) with
  | some entry => entry.parser
  | none => (registry.entries.getLast registry.nonempty).parser

end ParserRegistry

/-! ## The pipeline -/

/-- `Pipeline`; the classifier has no configuration. -/
structure Pipeline (η ρ : Type) where
  parsers : ParserRegistry
  filter : NoiseFilter
  services : ServiceResolver η ρ

/-- A cast from an unsigned number to a signed one of `2 ^ bits` values. -/
def asSigned (bits n : ℕ) : ℤ := (n : ℤ).bmod (2 ^ bits)

/-- `Pipeline::classify_level`. -/
def classifyLevel (baseLevel : LogLevel) (threat : ThreatResult) : LogLevel :=
  if ThreatLevel.High ≤ threat.threatLevel then .Security else baseLevel

/-- The service a line is filed under: the virtual host of its file, else of its own, else the
name of the file. -/
def serviceOf (filePath : Path) (entry : ParsedLogEntry) : ServiceMeta :=
  match (vhostFromFilePath filePath).or entry.metadata.virtualHost with
  | some vhost => { name := vhost, unitType := unitTypeNginxVhost, virtualHost := some vhost }
  | none =>
    { name := filePath.fileName.getD "unknown-log", unitType := unitTypeSystemLog,
      virtualHost := none }

/-- The record built from a parsed line. -/
def insertEntry (crates : Externals) (filter : NoiseFilter) (entry : ParsedLogEntry)
    (serviceId : Option Uuid) : InsertLogEntry :=
  let filterResult := filter.evaluate entry
  let threat := Classifier.classify crates.unicode entry
  let isNoise := filterResult.noiseReason.isSome
  let level := if filterResult.isSecurityFlag then .Security else classifyLevel entry.level threat
  { serviceId := serviceId
    timestamp := entry.timestamp
    level := level.asStr
    message := entry.message
    rawLine := if isNoise then none else some entry.raw
    clientIp := entry.metadata.clientIp.map IpAddr.display
    requestPath := entry.metadata.requestPath
    statusCode := entry.metadata.statusCode.map fun s => asSigned 16 s.toNat
    responseTimeMs := entry.metadata.responseTimeMs.map fun ms => asSigned 64 ms.toNat
    isNoise := isNoise
    noiseReason := filterResult.noiseReason
    threatLevel := threat.threatLevel.asStr
    threatCategories := threat.categories.map ThreatCategory.asStr
    sourceHost := none }

namespace Pipeline

variable {η ρ : Type} (crates : Externals) (p : Pipeline η ρ)

/-- The parser's answer to a line. -/
def parseLine (now : DateTime) (line : TailLine) : Except ParseError (Option ParsedLogEntry) :=
  (p.parsers.forPath line.filePath).parse now line.line

/-- `Pipeline::process_line`. -/
def processLine (now : DateTime) (env : η) (st : ρ) (line : TailLine) :
    Except SentinelError (Option InsertLogEntry) × ρ :=
  match p.parseLine now line with
  | .error e =>
    (.error (.ParseError ((p.parsers.forPath line.filePath).name ++ " ["
      ++ crates.displayPath line.filePath ++ "]: " ++ e.display)), st)
  | .ok none => (.ok none, st)
  | .ok (some entry) =>
    let (serviceId, st) := p.services.resolve env st (serviceOf line.filePath entry)
    (.ok (some (insertEntry crates p.filter entry serviceId)), st)

/-- `build_pipeline`: the default parsers and the configured filter, over a resolver. -/
def build (noise : NoiseFilterConfig) (services : ServiceResolver η ρ) : Pipeline η ρ where
  parsers := ParserRegistry.defaultRegistry crates
  filter := NoiseFilter.fromConfig noise
  services := services

variable {crates p}

/-- When a line yields an entry. -/
theorem processLine_eq_some_iff {now : DateTime} {env : η} {st st' : ρ} {line : TailLine}
    {e : InsertLogEntry} :
    p.processLine crates now env st line = (.ok (some e), st') ↔
      ∃ entry, p.parseLine now line = .ok (some entry) ∧
        (p.services.resolve env st (serviceOf line.filePath entry)).2 = st' ∧
        insertEntry crates p.filter entry
          (p.services.resolve env st (serviceOf line.filePath entry)).1 = e := by
  unfold processLine
  split
  · simp [*]
  · simp [*]
  · rename_i entry hparse
    simp only [hparse, Prod.mk.injEq, Except.ok.injEq, Option.some.injEq, exists_eq_left',
      and_comm]

/-- A parsed line always yields an entry. -/
theorem processLine_of_parseLine (crates : Externals) (env : η) (st : ρ) {now : DateTime}
    {line : TailLine} {entry : ParsedLogEntry} (h : p.parseLine now line = .ok (some entry)) :
    p.processLine crates now env st line
      = (.ok (some (insertEntry crates p.filter entry
          (p.services.resolve env st (serviceOf line.filePath entry)).1)),
        (p.services.resolve env st (serviceOf line.filePath entry)).2) :=
  processLine_eq_some_iff.mpr ⟨entry, h, rfl, rfl⟩

end Pipeline

/-! ## One line -/

/-- 1 January 2025, 00:00:00 UTC. -/
def newYear : DateTime := ⟨1735689600000000000, by decide, by decide⟩

/-- The libraries, as far as the line below and its file need them. -/
def newYearCrates : Externals where
  unicode := .ascii
  chrono := {
    parseFromStr := fun s _ => if s = "01/Jan/2025:00:00:00 +0000" then some newYear else none
    parseFromRfc3339 := fun _ => none
    naiveParseFromStr := fun _ _ => none
    year := fun _ => 2025 }
  displayPath _ := "/var/log/nginx/shop.example-access.log"

def shopLog : Path := Path.join [.text "var", .text "log", .text "nginx"] "shop.example-access.log"

/-- A request for the root of a virtual host. -/
def shopLine : TailLine where
  filePath := shopLog
  line := "192.0.2.7 - - [01/Jan/2025:00:00:00 +0000] \"GET / HTTP/1.1\" 200 12 \"-\" \"-\""
  byteOffset := 0

def shopEntry : ParsedLogEntry where
  timestamp := newYear
  sourceName := "nginx-access"
  level := .Info
  message := "GET / 200"
  raw := shopLine.line
  metadata := {
    clientIp := some (.V4 (.new 192 0 2 7))
    requestMethod := some "GET"
    requestPath := some "/"
    statusCode := some 200
    bytesSent := some 12
    userAgent := some "-"
    referer := some "-" }

theorem parse_shopLine : nginxParse newYearCrates shopLine.line = .ok (some shopEntry) := by
  unfold shopLine
  rw [nginxParse_ofList]
  decide +kernel

/-- A resolver that answers as its environment says. -/
def givenIds : ServiceResolver (Option Uuid) Unit where
  resolve id st _ := (id, st)

/-- A line of a file that goes to the nginx parser. -/
theorem parseLine_of_nginx {η ρ : Type} {crates : Externals} (noise : NoiseFilterConfig)
    (services : ServiceResolver η ρ) (now : DateTime) {line : TailLine}
    {result : Except ParseError (Option ParsedLogEntry)}
    (hparser : (ParserRegistry.defaultRegistry crates).forPath line.filePath
      = nginxAccessParser crates)
    (hparse : nginxParse crates line.line = result) :
    (Pipeline.build crates noise services).parseLine now line = result := by
  unfold Pipeline.parseLine
  rw [show (Pipeline.build crates noise services).parsers = ParserRegistry.defaultRegistry crates
    from rfl, hparser]
  exact hparse

end Sentinalysis.LogScanner
