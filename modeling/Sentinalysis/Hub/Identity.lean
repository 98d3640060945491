/-
# Sentinalysis.Hub.Identity — who is named in what the hub stores.

Three handlers store rows, and every row says who it is from: the host of an entry and of a point,
the agent, the app of an event.  A message has no field for any of it.  Whatever a message says,
what is stored names the caller of the key, and a caller that is not named so stores nothing.
-/
import Sentinalysis.Hub.Metrics
import Sentinalysis.Hub.PostEvents

namespace Sentinalysis.Hub

open Lib Db

/-! ## The handlers, side by side -/

/-- The tables that the handlers write. -/
structure Storage where
  services : Services
  agents : Agents
  logEntries : List InsertLogEntry
  systemMetrics : List InsertSystemMetric
  appEvents : List InsertAppEvent

/-- The body of a request. -/
inductive Body
  | metrics (req : MetricsRequest)
  | logs (req : LogsRequest)
  | events (events : List IngestEvent)

/-- Everything else that a request meets. -/
structure World where
  metricsEnv : MetricsEnv
  lineEnv : ℕ → LineEnv
  insertBatch : Except SentinelError Unit
  batchEnv : BatchEnv
  limiter : Limiter String
  now : Instant
  allowlist : List String

/-- What a request of an authenticated caller leaves behind. -/
def handle (world : World) (principal : Principal) (storage : Storage) : Body → Storage
  | .metrics req =>
    let handled := sendMetrics world.metricsEnv (.ok principal) storage.agents req
    { storage with
      agents := handled.2.1
      systemMetrics := storage.systemMetrics ++ handled.2.2 }
  | .logs req =>
    let handled := sendLogs world.lineEnv world.insertBatch (.ok principal) storage.services req
    { storage with
      services := handled.2.1
      logEntries := storage.logEntries ++ handled.2.2 }
  | .events events =>
    let handled :=
      postEvents world.batchEnv world.limiter world.now world.allowlist principal events
    { storage with appEvents := storage.appEvents ++ handled.2.2 }

/-- The permission and the binding that a handler asks for. -/
def Principal.May (principal : Principal) : Body → Prop
  | .metrics _ => .IngestMetrics ∈ principal.permissions ∧
    principal.agentId.isSome = true ∧ principal.hostname.isSome = true
  | .logs _ => .IngestLogs ∈ principal.permissions ∧
    principal.agentId.isSome = true ∧ principal.hostname.isSome = true
  | .events _ => principal.MayPost

/-- All that was written names the caller, and nobody else's rows were touched. -/
structure WrittenAs (principal : Principal) (before after : Storage) : Prop where
  logEntries : ∃ rows, after.logEntries = before.logEntries ++ rows ∧
    ∀ row ∈ rows, row.sourceHost = principal.hostname
  systemMetrics : ∃ rows, after.systemMetrics = before.systemMetrics ++ rows ∧
    ∀ row ∈ rows, row.host = principal.hostname
  appEvents : ∃ rows, after.appEvents = before.appEvents ++ rows ∧
    ∀ row ∈ rows, some row.appName = principal.appName
  agents : ∀ row ∈ after.agents.rows, row ∈ before.agents.rows ∨
    (some row.agentId = principal.agentId ∧ some row.hostname = principal.hostname)
  otherAgents : ∀ row, some row.agentId ≠ principal.agentId →
    (row ∈ after.agents.rows ↔ row ∈ before.agents.rows)

theorem WrittenAs.refl (principal : Principal) (storage : Storage) :
    WrittenAs principal storage storage where
  logEntries := ⟨[], (List.append_nil _).symm, fun _ h => by cases h⟩
  systemMetrics := ⟨[], (List.append_nil _).symm, fun _ h => by cases h⟩
  appEvents := ⟨[], (List.append_nil _).symm, fun _ h => by cases h⟩
  agents := fun _ h => Or.inl h
  otherAgents := fun _ _ => Iff.rfl

/-! ## Entries -/

section Entries

variable {hostname : String} {env : ℕ → LineEnv} {services : Services} {req : LogsRequest}

/-- All entries of a request are from one host. -/
def Ingestion.IsFrom (hostname : String) (s : Ingestion) : Prop :=
  ∀ entry ∈ s.entries, entry.sourceHost = some hostname

/-- A line is filed under the host that it was checked for. -/
theorem Ingestion.IsFrom.line {line : LineEnv} {s : Ingestion} {l : LogLine}
    (h : s.IsFrom hostname) : (s.line hostname line l).IsFrom hostname := by
  unfold Ingestion.line
  cases hcheck : validateLogLine line.clock l hostname with
  | error reason => exact h
  | ok entry =>
    obtain ⟨-, rfl⟩ := validateLogLine_eq_ok.mp hcheck
    intro row hrow
    rcases List.mem_append.mp hrow with hold | hnew
    · exact h row hold
    · rw [List.mem_singleton.mp hnew]
      rfl

theorem Ingestion.IsFrom.parsed {line : LineEnv} {s : Ingestion} {p : ParsedLogEntry}
    (h : s.IsFrom hostname) : (s.parsed hostname line p).IsFrom hostname := by
  unfold Ingestion.parsed
  cases hcheck : validateParsedEntry line.clock p hostname with
  | error reason => exact h
  | ok ingest =>
    obtain ⟨-, rfl⟩ := validateParsedEntry_eq_ok.mp hcheck
    intro row hrow
    rcases List.mem_append.mp hrow with hold | hnew
    · exact h row hold
    · rw [List.mem_singleton.mp hnew]
      rfl

/-- Whatever the lines of a request say, they are filed under one host. -/
theorem Ingestion.isFrom_request : (request hostname env services req).IsFrom hostname := by
  have hlines : (req.lines.foldl (fun (s : Ingestion) l => s.line hostname (env s.handled) l)
      { services := services }).IsFrom hostname := by
    apply List.foldlRecOn (motive := IsFrom hostname)
    · intro entry hentry
      cases hentry
    · intro s h l _
      exact h.line
  unfold request
  apply List.foldlRecOn (motive := IsFrom hostname)
  · exact hlines
  · intro s h p _
    exact h.parsed

/-- A caller without the permission or the binding stores no entry and makes no service. -/
theorem sendLogs_of_not_may {insertBatch : Except SentinelError Unit} {principal : Principal}
    (h : ¬ principal.May (.logs req)) :
    (sendLogs env insertBatch (.ok principal) services req).2 = (services, []) := by
  unfold sendLogs
  dsimp only
  split
  · rfl
  · next hpermission =>
    split
    · next agentId hostname hagent hhost =>
      refine absurd ⟨not_not.mp hpermission, ?_, ?_⟩ h
      · rw [hagent]; rfl
      · rw [hhost]; rfl
    · rfl

theorem sourceHost_of_sendLogs {insertBatch : Except SentinelError Unit} {principal : Principal}
    {row : InsertLogEntry}
    (h : row ∈ (sendLogs env insertBatch (.ok principal) services req).2.2) :
    row.sourceHost = principal.hostname := by
  unfold sendLogs at h
  dsimp only at h
  split at h
  · cases h
  · split at h
    · next agentId hostname hagent hhost =>
      rw [hhost]
      split at h
      · cases h
      · split at h
        · cases h
        · cases insertBatch with
          | error e => cases h
          | ok _ => exact Ingestion.isFrom_request row h
    · cases h

end Entries

/-! ## Points and agents -/

section Metrics

variable {env : MetricsEnv} {principal : Principal} {agents : Agents} {req : MetricsRequest}

/-- A request for metrics is refused before anything is written, or writes the row of the caller's
agent, or that and a point of the caller's host. -/
theorem sendMetrics_cases (env : MetricsEnv) (principal : Principal) (agents : Agents)
    (req : MetricsRequest) :
    (∃ status, sendMetrics env (.ok principal) agents req = (.error status, agents, [])) ∨
    ∃ agentId hostname answer stored, principal.May (.metrics req) ∧
      principal.agentId = some agentId ∧ principal.hostname = some hostname ∧
      sendMetrics env (.ok principal) agents req
        = (answer, AgentRepository.upsert agents env.now agentId hostname, stored) ∧
      ∀ row ∈ stored, row.host = some hostname := by
  unfold sendMetrics
  dsimp only
  split
  · exact Or.inl ⟨_, rfl⟩
  · next hpermission =>
    split
    · next agentId hostname hagent hhost =>
      cases hpoint : req.point with
      | none => exact Or.inl ⟨_, rfl⟩
      | some point =>
        dsimp only
        cases hvalid : validatePoint env.clock point hostname with
        | error reason => exact Or.inl ⟨_, rfl⟩
        | ok metric =>
          obtain ⟨-, rfl⟩ := validatePoint_eq_ok.mp hvalid
          cases hupsert : env.upsert with
          | some e => exact Or.inl ⟨_, rfl⟩
          | none =>
            have hmay : principal.May (.metrics req) :=
              ⟨not_not.mp hpermission, by rw [hagent]; rfl, by rw [hhost]; rfl⟩
            refine Or.inr ⟨agentId, hostname, ?_⟩
            cases hinsert : env.insert with
            | some e => exact ⟨_, [], hmay, hagent, hhost, rfl, fun _ h => by cases h⟩
            | none =>
              refine ⟨_, [pointRecord env.clock point hostname], hmay, hagent, hhost, rfl, ?_⟩
              intro row hrow
              rw [List.mem_singleton.mp hrow]
              rfl
    · exact Or.inl ⟨_, rfl⟩

end Metrics

/-! ## All of them -/

section Handlers

variable {world : World} {principal : Principal} {storage : Storage} {body : Body}

theorem writtenAs_metrics (req : MetricsRequest) :
    WrittenAs principal storage (handle world principal storage (.metrics req)) := by
  have hsame := WrittenAs.refl principal storage
  rcases sendMetrics_cases world.metricsEnv principal storage.agents req with
    ⟨status, hrefused⟩ | ⟨agentId, hostname, answer, stored, -, hagent, hhost, hwritten, hstored⟩
  · have hhandle : handle world principal storage (.metrics req) = storage := by
      simp [handle, hrefused]
    rw [hhandle]
    exact hsame
  · have hhandle : handle world principal storage (.metrics req) = { storage with
        agents := AgentRepository.upsert storage.agents world.metricsEnv.now agentId hostname
        systemMetrics := storage.systemMetrics ++ stored } := by
      simp [handle, hwritten]
    rw [hhandle]
    refine { hsame with systemMetrics := ?_, agents := ?_, otherAgents := ?_ }
    · exact ⟨stored, rfl, fun row hrow => (hstored row hrow).trans hhost.symm⟩
    · intro row hrow
      by_cases hmine : row.agentId = agentId
      · have hname := AgentRepository.hostname_of_mem_upsert hrow hmine
        exact Or.inr ⟨hmine ▸ hagent.symm, hname ▸ hhost.symm⟩
      · exact Or.inl ((AgentRepository.mem_upsert_iff hmine).mp hrow)
    · intro row hother
      apply AgentRepository.mem_upsert_iff
      rintro rfl
      exact hother hagent.symm

theorem writtenAs_logs (req : LogsRequest) :
    WrittenAs principal storage (handle world principal storage (.logs req)) :=
  { WrittenAs.refl principal storage with
    logEntries := ⟨_, rfl, fun _ hrow => sourceHost_of_sendLogs hrow⟩ }

theorem writtenAs_events (events : List IngestEvent) :
    WrittenAs principal storage (handle world principal storage (.events events)) := by
  refine { WrittenAs.refl principal storage with appEvents := ⟨_, rfl, ?_⟩ }
  intro row hrow
  rcases postEvents_cases world.batchEnv world.limiter world.now world.allowlist principal events
    with ⟨-, reason, hposted⟩ | ⟨-, -, hposted⟩ | ⟨appName, -, happ, -, hposted⟩
  · rw [hposted] at hrow
    cases hrow
  · rw [hposted] at hrow
    cases hrow
  · rw [hposted] at hrow
    rw [happ, appName_of_ingestEvents hrow]

/-- Without the permission or the binding everything stays as it is. -/
theorem handle_of_not_may (h : ¬ principal.May body) :
    handle world principal storage body = storage := by
  cases body with
  | metrics req =>
    rcases sendMetrics_cases world.metricsEnv principal storage.agents req with
      ⟨status, hrefused⟩ | ⟨_, _, _, _, hmay, -⟩
    · simp [handle, hrefused]
    · exact absurd hmay h
  | logs req => simp [handle, sendLogs_of_not_may h]
  | events events =>
    rcases postEvents_cases world.batchEnv world.limiter world.now world.allowlist principal events
      with ⟨-, reason, hposted⟩ | ⟨hmay, -, -⟩ | ⟨_, hmay, -⟩
    · simp [handle, hposted]
    · exact absurd hmay h
    · exact absurd hmay h

/-- **Whatever the body of a request says, what is stored names its caller**, and a caller without
the permission or the binding stores nothing. -/
theorem written_as_caller (principal : Principal) (world : World) (storage : Storage)
    (body : Body) :
    WrittenAs principal storage (handle world principal storage body) ∧
      (¬ principal.May body → handle world principal storage body = storage) := by
  refine ⟨?_, handle_of_not_may⟩
  cases body with
  | metrics req => exact writtenAs_metrics req
  | logs req => exact writtenAs_logs req
  | events events => exact writtenAs_events events

end Handlers

end Sentinalysis.Hub
