/-
# Sentinalysis.Agent.Logs — the log pipeline of the daemon, run by the agent with the hub as sink.

The agent has no database.  Its resolver gives each name an id of its own and keeps the identity
behind each id, so that the sink can put the identity on the wire.
-/
import Sentinalysis.Hub.Proto
import Sentinalysis.Hub.Validate
import Sentinalysis.LogScanner.Pipeline

namespace Sentinalysis.Agent

open Lib Db LogScanner

/-- `AgentServiceResolver`: the id of a name, and the identity last recorded for an id. -/
structure AgentServiceResolver where
  byName : String → Option Uuid
  byId : Uuid → Option ServiceMeta

namespace AgentServiceResolver

def new : AgentServiceResolver where
  byName _ := none
  byId _ := none

/-- `meta_of`. -/
def metaOf (resolver : AgentServiceResolver) (id : Uuid) : Option ServiceMeta := resolver.byId id

/-- `resolve`: the environment is the id to use for a name seen for the first time. -/
def resolve (fresh : Uuid) (resolver : AgentServiceResolver) (service : ServiceMeta) :
    Option Uuid × AgentServiceResolver :=
  let id := (resolver.byName service.name).getD fresh
  (some id,
    { byName := Function.update resolver.byName service.name (some id)
      byId := Function.update resolver.byId id (some service) })

/-- The identity of the service resolved last can be looked up by its id. -/
theorem metaOf_resolve (fresh : Uuid) (resolver : AgentServiceResolver) (service : ServiceMeta) :
    (resolve fresh resolver service).1.bind (resolve fresh resolver service).2.metaOf
      = some service := by
  simp [resolve, metaOf]

end AgentServiceResolver

/-- `entry_to_proto`. -/
def entryToProto (entry : InsertLogEntry) (resolver : AgentServiceResolver) :
    Hub.ParsedLogEntry :=
  let service := entry.serviceId.bind resolver.metaOf
  { timestampMs := entry.timestamp.timestampMillis
    level := entry.level
    message := entry.message
    rawLine := entry.rawLine
    clientIp := entry.clientIp
    requestPath := entry.requestPath
    statusCode := entry.statusCode
    responseTimeMs := entry.responseTimeMs
    isNoise := entry.isNoise
    noiseReason := entry.noiseReason
    threatLevel := entry.threatLevel
    threatCategories := entry.threatCategories
    serviceName := (service.map ServiceMeta.name).getD ""
    serviceUnitType := (service.map ServiceMeta.unitType).getD ""
    virtualHost := service.bind ServiceMeta.virtualHost }

/-- The request that `GrpcSink::insert_batch` sends for a slice. -/
def logsRequest (entries : List InsertLogEntry) (resolver : AgentServiceResolver) :
    Hub.LogsRequest where
  lines := []
  parsedLines := entries.map (entryToProto · resolver)

/-- `build_agent_pipeline`. -/
def buildAgentPipeline (crates : Externals) (noise : NoiseFilterConfig) :
    Pipeline Uuid AgentServiceResolver :=
  Pipeline.build crates noise { resolve := AgentServiceResolver.resolve }

/-- The batch size of `spawn_log_forwarding`: the configured one, clamped to what the hub takes. -/
def forwardBatchSize (logBatchSize : ℕ) : ℕ :=
  max 1 (min logBatchSize Hub.Validate.maxLinesPerRequest)

end Sentinalysis.Agent
