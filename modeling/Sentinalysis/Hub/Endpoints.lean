/-
# Sentinalysis.Hub.Endpoints — which callers an endpoint refuses.

Every handler checks the permissions of its caller by itself, and some what the caller is bound to.
A caller whose key `hub-key` made is refused by all endpoints but those of the role of the key,
whatever else is in the request.
-/
import Sentinalysis.Hub.KeysCli
import Sentinalysis.Hub.Servers
import Sentinalysis.Hub.Summary

namespace Sentinalysis.Hub

open Lib Db

/-! ## Refusals -/

/-- The answer is that the caller may not. -/
def IsDenied (answer : Except Status Ack) : Prop :=
  ∃ message, answer = .error ⟨.permissionDenied, message⟩

/-- The response is that the caller may not. -/
def IsForbidden {α : Type} (answer : Except HttpResponse α) : Prop :=
  ∃ response, answer = .error response ∧ response.status = .Forbidden

/-- What a caller needs to send as an agent. -/
def Principal.MaySend (principal : Principal) (permission : Permission) : Prop :=
  permission ∈ principal.permissions ∧ principal.agentId.isSome = true ∧
    principal.hostname.isSome = true

section Handlers

variable {principal : Principal}

theorem isDenied_sendMetrics (env : MetricsEnv) (agents : Agents) (req : MetricsRequest) :
    IsDenied (sendMetrics env (.ok principal) agents req).1 ↔
      ¬ principal.MaySend .IngestMetrics := by
  obtain ⟨keyId, permissions, agentId, hostname, appName⟩ := principal
  unfold sendMetrics IsDenied Principal.MaySend
  dsimp only
  by_cases hpermission : .IngestMetrics ∈ permissions
  · rw [if_neg (not_not.mpr hpermission)]
    rcases agentId with _ | agentId
    · simp
    rcases hostname with _ | hostname
    · simp
    rcases req.point with _ | point
    · simp [hpermission]
    dsimp only
    cases validatePoint env.clock point hostname with
    | error reason => simp [hpermission]
    | ok metric =>
      dsimp only
      cases hupsert : AgentRepository.upsertSeen env.upsert agents env.now agentId hostname with
      | mk upserted agents =>
        cases upserted with
        | error e => simp [hpermission]
        | ok _ =>
          dsimp only
          cases hinsert : SystemMetricRepository.insert env.insert metric with
          | mk inserted stored => cases inserted <;> simp [hpermission]
  · simp [hpermission]

theorem isDenied_sendLogs (env : ℕ → LineEnv) (insertBatch : Except SentinelError Unit)
    (services : Services) (req : LogsRequest) :
    IsDenied (sendLogs env insertBatch (.ok principal) services req).1 ↔
      ¬ principal.MaySend .IngestLogs := by
  obtain ⟨keyId, permissions, agentId, hostname, appName⟩ := principal
  unfold sendLogs IsDenied Principal.MaySend
  dsimp only
  by_cases hpermission : .IngestLogs ∈ permissions
  · rw [if_neg (not_not.mpr hpermission)]
    rcases agentId with _ | agentId
    · simp
    rcases hostname with _ | hostname
    · simp
    dsimp only
    split
    · simp [hpermission]
    · split
      · simp [hpermission]
      · cases insertBatch <;> simp [hpermission]
  · simp [hpermission]

/-- A batch is not refused for its caller once the handler is behind its limiter. -/
theorem ingestEvents_not_forbidden (env : BatchEnv) (appName : String) (allowlist : List String)
    (events : List IngestEvent) :
    (ingestEvents env appName allowlist events).1.status ≠ .Forbidden := by
  unfold ingestEvents
  split
  · exact StatusCode.noConfusion
  · dsimp only
    split
    · exact StatusCode.noConfusion
    · rcases AppEventRepository.insertBatch env.failure
        (Sorted.batch env.clock appName allowlist events).accepted with ⟨_ | _, stored⟩
      · exact StatusCode.noConfusion
      · exact StatusCode.noConfusion

theorem forbidden_postEvents (env : BatchEnv) (limiter : Limiter String) (now : Instant)
    (allowlist : List String) (events : List IngestEvent) :
    (postEvents env limiter now allowlist principal events).1.status = .Forbidden ↔
      ¬ principal.MayPost := by
  rcases postEvents_cases env limiter now allowlist principal events with
    ⟨hnot, reason, hpost⟩ | ⟨hmay, -, hpost⟩ | ⟨appName, hmay, -, -, hpost⟩
  · rw [hpost]
    exact iff_of_true rfl hnot
  · rw [hpost]
    exact iff_of_false StatusCode.noConfusion (not_not.mpr hmay)
  · rw [hpost]
    exact iff_of_false (ingestEvents_not_forbidden env appName allowlist events) (not_not.mpr hmay)

/-- A handler of the dashboard checks the permission, and does not refuse its caller later on. -/
theorem isForbidden_bind {α : Type} {rest : Unit → Except HttpResponse α}
    (hrest : ¬ IsForbidden (rest ())) :
    IsForbidden (requireDashboard principal >>= rest) ↔
      .ReadDashboard ∉ principal.permissions := by
  unfold requireDashboard
  split
  · next hmay => exact iff_of_false hrest (not_not.mpr hmay)
  · next hnot => exact iff_of_true ⟨_, rfl, rfl⟩ hnot

theorem not_isForbidden_ok {α : Type} (a : α) : ¬ IsForbidden (.ok a : Except HttpResponse α) := by
  rintro ⟨response, hresponse, -⟩
  cases hresponse

theorem not_isForbidden_error {α : Type} {response : HttpResponse}
    (h : response.status ≠ .Forbidden) : ¬ IsForbidden (.error response : Except HttpResponse α) := by
  rintro ⟨other, hother, hstatus⟩
  exact h (Except.error.inj hother ▸ hstatus)

/-- A check that answers 400 does not refuse the caller. -/
theorem not_isForbidden_badRequest {α β : Type} {check : Except String α}
    {rest : α → Except HttpResponse β} (hrest : ∀ a, ¬ IsForbidden (rest a)) :
    ¬ IsForbidden (badRequest check >>= rest) := by
  cases check with
  | error reason => exact not_isForbidden_error StatusCode.noConfusion
  | ok a => exact hrest a

theorem isForbidden_getMetrics (toRfc3339 : DateTime → String) (avg : Averages)
    (store : MetricStore) (failure : Option SentinelError) (query : MetricsQuery) :
    IsForbidden (getMetrics toRfc3339 avg store principal failure query) ↔
      .ReadDashboard ∉ principal.permissions := by
  refine isForbidden_bind ?_
  unfold parseRange
  cases MetricRange.parse (query.range.getD "24h") with
  | none => exact not_isForbidden_error StatusCode.noConfusion
  | some range =>
    cases failure with
    | none => exact not_isForbidden_ok _
    | some e => exact not_isForbidden_error StatusCode.noConfusion

theorem isForbidden_getAppEvents (toRfc3339 : DateTime → String) (store : EventStore)
    (failure : Option SentinelError) (query : EventsQuery) :
    IsForbidden (getAppEvents toRfc3339 store principal failure query) ↔
      .ReadDashboard ∉ principal.permissions := by
  refine isForbidden_bind ?_
  cases MetricRange.parse (query.range.getD "24h") with
  | none => exact not_isForbidden_error StatusCode.noConfusion
  | some range =>
    refine not_isForbidden_badRequest fun limit => not_isForbidden_badRequest fun offset =>
      not_isForbidden_badRequest fun _ => not_isForbidden_badRequest fun _ => ?_
    cases failure with
    | none => exact not_isForbidden_ok _
    | some e => exact not_isForbidden_error StatusCode.noConfusion

theorem isForbidden_getServers (toRfc3339 : DateTime → String) (collation : Collation)
    (agents : Agents) (now : DateTime) (failure : Option SentinelError) :
    IsForbidden (getServers toRfc3339 collation agents now principal failure) ↔
      .ReadDashboard ∉ principal.permissions := by
  refine isForbidden_bind ?_
  cases failure with
  | none => exact not_isForbidden_ok _
  | some e => exact not_isForbidden_error StatusCode.noConfusion

theorem isForbidden_getSummary (env : SummaryEnv) (events : EventStore) (metrics : MetricStore) :
    IsForbidden (getSummary env events metrics principal) ↔
      .ReadDashboard ∉ principal.permissions := by
  refine isForbidden_bind ?_
  dsimp only
  split
  · exact not_isForbidden_ok _
  · exact not_isForbidden_error StatusCode.noConfusion

end Handlers

/-! ## The matrix -/

/-- What a caller can ask the hub for with a key. -/
inductive Endpoint
  | sendMetrics
  | sendLogs
  | postEvents
  | getMetrics
  | getAppEvents
  | getServers
  | getSummary
  deriving DecidableEq, Repr

/-- A request to an endpoint, with all that its handling meets. -/
inductive Endpoint.Request : Endpoint → Type
  | metrics (env : MetricsEnv) (agents : Agents) (req : MetricsRequest) : Request .sendMetrics
  | logs (env : ℕ → LineEnv) (insertBatch : Except SentinelError Unit) (services : Services)
      (req : LogsRequest) : Request .sendLogs
  | events (env : BatchEnv) (limiter : Limiter String) (now : Instant) (allowlist : List String)
      (batch : List IngestEvent) : Request .postEvents
  | chart (toRfc3339 : DateTime → String) (avg : Averages) (store : MetricStore)
      (failure : Option SentinelError) (query : MetricsQuery) : Request .getMetrics
  | page (toRfc3339 : DateTime → String) (store : EventStore) (failure : Option SentinelError)
      (query : EventsQuery) : Request .getAppEvents
  | servers (toRfc3339 : DateTime → String) (collation : Collation) (agents : Agents)
      (now : DateTime) (failure : Option SentinelError) : Request .getServers
  | summary (env : SummaryEnv) (appEvents : EventStore) (metrics : MetricStore) :
    Request .getSummary

/-- The answer to a request is that its caller may not. -/
def Refused {endpoint : Endpoint} (principal : Principal) : endpoint.Request → Prop
  | .metrics env agents req => IsDenied (sendMetrics env (.ok principal) agents req).1
  | .logs env insertBatch services req =>
    IsDenied (sendLogs env insertBatch (.ok principal) services req).1
  | .events env limiter now allowlist batch =>
    (postEvents env limiter now allowlist principal batch).1.status = .Forbidden
  | .chart toRfc3339 avg store failure query =>
    IsForbidden (getMetrics toRfc3339 avg store principal failure query)
  | .page toRfc3339 store failure query =>
    IsForbidden (getAppEvents toRfc3339 store principal failure query)
  | .servers toRfc3339 collation agents now failure =>
    IsForbidden (getServers toRfc3339 collation agents now principal failure)
  | .summary env appEvents metrics =>
    IsForbidden (getSummary env appEvents metrics principal)

/-- What an endpoint asks of its caller. -/
def Endpoint.Admits (principal : Principal) : Endpoint → Prop
  | .sendMetrics => principal.MaySend .IngestMetrics
  | .sendLogs => principal.MaySend .IngestLogs
  | .postEvents => principal.MayPost
  | .getMetrics | .getAppEvents | .getServers | .getSummary =>
    .ReadDashboard ∈ principal.permissions

/-- **Who is refused does not depend on the request.** -/
theorem Endpoint.refused_iff {endpoint : Endpoint} (principal : Principal)
    (request : endpoint.Request) : Refused principal request ↔ ¬ endpoint.Admits principal := by
  cases request with
  | metrics env agents req => exact isDenied_sendMetrics env agents req
  | logs env insertBatch services req => exact isDenied_sendLogs env insertBatch services req
  | events env limiter now allowlist batch =>
    exact forbidden_postEvents env limiter now allowlist batch
  | chart toRfc3339 avg store failure query =>
    exact isForbidden_getMetrics toRfc3339 avg store failure query
  | page toRfc3339 store failure query =>
    exact isForbidden_getAppEvents toRfc3339 store failure query
  | servers toRfc3339 collation agents now failure =>
    exact isForbidden_getServers toRfc3339 collation agents now failure
  | summary env appEvents metrics => exact isForbidden_getSummary env appEvents metrics

/-- `KeyRole`. -/
inductive KeyRole
  | Agent
  | App
  | Dashboard
  deriving DecidableEq, Repr

/-- `ApiKeyRow::role`: by what the key is bound to. -/
def keyRole (row : ApiKeyRow) : KeyRole :=
  if row.agentId.isSome then .Agent else if row.appName.isSome then .App else .Dashboard

/-- What a role is for: an agent sends metrics and logs, an app events, and a dashboard reads. -/
def KeyRole.endpoints : KeyRole → List Endpoint
  | .Agent => [.sendMetrics, .sendLogs]
  | .App => [.postEvents]
  | .Dashboard => [.getMetrics, .getAppEvents, .getServers, .getSummary]

/-- The caller that a key of a role stands for. -/
def Role.principal (role : Role) (keyId : String) : Principal :=
  principalFromRow (role.row 0 "" keyId)

/-- A key that the command makes is admitted by the endpoints of its role and by no other. -/
theorem admits_iff_of_fromAction {action : HubKeyAction} {role : Role}
    (h : Role.fromAction action = .ok (some role)) (keyId : String) (endpoint : Endpoint) :
    endpoint.Admits (role.principal keyId) ↔
      endpoint ∈ (keyRole (role.row 0 "" keyId)).endpoints := by
  rcases Role.fromAction_cases h with ⟨agentId, hostname, rfl⟩ | ⟨appName, rfl⟩ | ⟨name, rfl⟩ <;>
    cases endpoint <;>
    simp [Endpoint.Admits, Principal.MaySend, Principal.MayPost, Role.principal, principalFromRow,
      Role.row, keyRole, KeyRole.endpoints]

end Sentinalysis.Hub
