/-
# Sentinalysis.Hub.Servers — `GET /api/v1/servers`: the agents, and which of them are online.

An agent is on the list because a report of its own was heard, and online because the last one was
heard within the window.  What the report says, and whether its point could be stored, makes no
difference.
-/
import Sentinalysis.Hub.Charts

namespace Sentinalysis.Hub

open Lib Db

/-! ## The handler -/

/-- `AgentDto`: the times are written to the second. -/
structure AgentDto where
  agentId : String
  hostname : String
  firstSeenAt : String
  lastSeenAt : String
  online : Bool
  deriving DecidableEq

/-- The record of an agent; `toRfc3339` is the date library's text of an instant, to the second. -/
def agentDto (toRfc3339 : DateTime → String) (agent : AgentStatus) : AgentDto where
  agentId := agent.agentId
  hostname := agent.hostname
  firstSeenAt := toRfc3339 agent.firstSeenAt
  lastSeenAt := toRfc3339 agent.lastSeenAt
  online := agent.online

/-- `get_servers`: the agents of a response with status 200. -/
def getServers (toRfc3339 : DateTime → String) (collation : Collation) (agents : Agents)
    (now : DateTime) (principal : Principal) (failure : Option SentinelError) :
    Except HttpResponse (List AgentDto) := do
  requireDashboard principal
  match AgentRepository.listWithStatus failure collation agents now onlineWindowSecs with
  | .ok rows => return rows.map (agentDto toRfc3339)
  | .error _ => .error internalError

/-! ## The list -/

/-- The list is a roster of who was heard from. -/
structure Roster (past : List Hearing) (now : DateTime) (statuses : List AgentStatus) : Prop where
  once : (statuses.map (·.agentId)).Nodup
  listed : ∀ hearing ∈ past, ∃ status ∈ statuses, status.agentId = hearing.agentId
  /-- when an agent was heard from first and last, under its last name, and whether it is online -/
  heard : ∀ status ∈ statuses, ∃ first last,
    (past.filter (·.agentId = status.agentId)).head? = some first ∧
    (past.filter (·.agentId = status.agentId)).getLast? = some last ∧
    status.hostname = last.hostname ∧ status.firstSeenAt = first.now ∧
    status.lastSeenAt = last.now ∧
    (status.online = true ↔ now.nanos - 90 * 1000000000 < last.now.nanos)

theorem exists_of_agentSummary {agentId : String} {past : List Hearing} {row : AgentRow}
    (h : agentSummary agentId past = some row) : ∃ first last,
      (past.filter (·.agentId = agentId)).head? = some first ∧
      (past.filter (·.agentId = agentId)).getLast? = some last ∧
      row = ⟨agentId, last.hostname, first.now, last.now⟩ := by
  unfold agentSummary at h
  split at h
  · cases h
  · next first rest hheard =>
    rw [hheard]
    exact ⟨first, _, rfl, List.getLast?_eq_some_getLast (List.cons_ne_nil first rest),
      (Option.some.inj h).symm⟩

theorem isSome_agentSummary {past : List Hearing} {hearing : Hearing} (h : hearing ∈ past) :
    ∃ row, agentSummary hearing.agentId past = some row := by
  have hmem : hearing ∈ past.filter (·.agentId = hearing.agentId) :=
    List.mem_filter.mpr ⟨h, decide_eq_true rfl⟩
  unfold agentSummary
  split
  · next hnone =>
    rw [hnone] at hmem
    cases hmem
  · exact ⟨_, rfl⟩

/-- The rows of a table that tells who was heard from, in any order, are a roster. -/
theorem roster_of_tells {agents : Agents} {past : List Hearing} (htells : Tells agents past)
    {rows : List AgentRow} (hperm : rows.Perm agents.rows) (now : DateTime) :
    Roster past now (rows.map (agentStatus now onlineWindowSecs)) where
  once := by
    rw [List.map_map]
    exact (hperm.map AgentRow.agentId).nodup_iff.mpr agents.ids
  listed hearing hmem := by
    obtain ⟨row, hrow⟩ := isSome_agentSummary hmem
    obtain ⟨hrows, hid⟩ := AgentRepository.find_eq_some_iff.mp ((htells _).trans hrow)
    exact ⟨_, List.mem_map_of_mem (hperm.mem_iff.mpr hrows), hid⟩
  heard status hstatus := by
    obtain ⟨row, hrow, rfl⟩ := List.mem_map.mp hstatus
    have hfind := AgentRepository.find_eq_some_iff.mpr ⟨hperm.mem_iff.mp hrow, rfl⟩
    obtain ⟨first, last, hfirst, hlast, heq⟩ :=
      exists_of_agentSummary ((htells row.agentId).symm.trans hfind)
    have hlastSeen : row.lastSeenAt = last.now := congrArg AgentRow.lastSeenAt heq
    refine ⟨first, last, hfirst, hlast, congrArg AgentRow.hostname heq,
      congrArg AgentRow.firstSeenAt heq, hlastSeen, ?_⟩
    rw [← hlastSeen]
    exact decide_eq_true_iff

/-- **The list of servers is the roster of who was heard from**, after every run of the hub and
whatever the database is asked for in between. -/
theorem getServers_roster (toRfc3339 : DateTime → String) (collation : Collation)
    {l : List Statement} {s : Tables} (hrun : tables.Run {} l s) (now : DateTime)
    (principal : Principal) (hpermission : .ReadDashboard ∈ principal.permissions) :
    ∃ statuses,
      getServers toRfc3339 collation s.agents now principal none
        = .ok (statuses.map (agentDto toRfc3339)) ∧
      Roster (hearings l) now statuses := by
  have hperm := (List.perm_insertionSort
    (fun a b : AgentRow => collation.le a.hostname b.hostname = true)
    (collation.found.order s.agents.rows)).trans (collation.found.perm s.agents.rows)
  refine ⟨_, ?_, roster_of_tells (tells_of_run hrun) hperm now⟩
  unfold getServers requireDashboard
  rw [if_pos hpermission]
  rfl

/-- Both hosts are on the list, one of them since the report that was pruned. -/
theorem getServers_roster_twoHosts : ∃ s statuses, tables.Run {} twoHosts s ∧
    getServers (fun _ => "1970-01-01T00:00:00Z") ⟨fun a b => a ≤ b, .sequential _⟩ s.agents .epoch
        dashboard none
      = .ok (statuses.map (agentDto fun _ => "1970-01-01T00:00:00Z")) ∧
    Roster (hearings twoHosts) .epoch statuses ∧
    (agentSummary "agent-1" (hearings twoHosts)).map (·.firstSeenAt) = some fortyDaysBefore := by
  obtain ⟨s, hrun⟩ := Machine.exists_run (M := tables) (s := {}) (l := twoHosts)
    (by decide +kernel)
  obtain ⟨statuses, hstatuses, hroster⟩ := getServers_roster (fun _ => "1970-01-01T00:00:00Z")
    ⟨fun a b => a ≤ b, .sequential _⟩ hrun .epoch dashboard (by decide)
  exact ⟨s, statuses, hrun, hstatuses, hroster, by decide +kernel⟩

end Sentinalysis.Hub
