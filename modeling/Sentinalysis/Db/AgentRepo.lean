/-
# Sentinalysis.Db.AgentRepo — the agents that the hub has seen.

One statement makes a row or refreshes it, whatever runs at the same time: `INSERT … ON CONFLICT
(agent_id) DO UPDATE`.
-/
import Mathlib.Data.List.Sort
import Sentinalysis.Db.Prune
import Sentinalysis.Error

namespace Sentinalysis.Db

open Lib

/-- `AgentRow`. -/
structure AgentRow where
  agentId : String
  hostname : String
  firstSeenAt : DateTime
  lastSeenAt : DateTime
  deriving DecidableEq, Repr

/-- The `agents` table. -/
abbrev Agents := Keyed AgentRow.agentId

namespace AgentRepository

/-- `DO UPDATE SET hostname = EXCLUDED.hostname, last_seen_at = NOW()`. -/
def refresh (now : DateTime) (agentId hostname : String) (row : AgentRow) : AgentRow :=
  if row.agentId = agentId then { row with hostname := hostname, lastSeenAt := now } else row

theorem agentId_refresh (now : DateTime) (agentId hostname : String) (row : AgentRow) :
    (refresh now agentId hostname row).agentId = row.agentId := by
  unfold refresh
  split <;> rfl

theorem nodup_append_fresh {agents : Agents} (row : AgentRow)
    (h : row.agentId ∉ agents.rows.map AgentRow.agentId) :
    ((agents.rows ++ [row]).map AgentRow.agentId).Nodup := by
  rw [List.map_append, List.nodup_append]
  refine ⟨agents.ids, List.nodup_singleton _, ?_⟩
  rintro x hx y hy rfl
  rw [List.map_singleton, List.mem_singleton] at hy
  exact h (hy ▸ hx)

theorem nodup_map_refresh (agents : Agents) (now : DateTime) (agentId hostname : String) :
    ((agents.rows.map (refresh now agentId hostname)).map AgentRow.agentId).Nodup := by
  rw [List.map_map, show AgentRow.agentId ∘ refresh now agentId hostname = AgentRow.agentId from
    funext (agentId_refresh now agentId hostname)]
  exact agents.ids

/-- `upsert_seen`, when the statement does not fail. -/
def upsert (agents : Agents) (now : DateTime) (agentId hostname : String) : Agents :=
  if h : agentId ∈ agents.rows.map AgentRow.agentId then
    { rows := agents.rows.map (refresh now agentId hostname)
      ids := nodup_map_refresh agents now agentId hostname }
  else
    { rows := agents.rows ++ [⟨agentId, hostname, now, now⟩]
      ids := nodup_append_fresh ⟨agentId, hostname, now, now⟩ h }

/-- `upsert_seen`. -/
def upsertSeen (failure : Option SentinelError) (agents : Agents) (now : DateTime)
    (agentId hostname : String) : Except SentinelError Unit × Agents :=
  match failure with
  | some e => (.error e, agents)
  | none => (.ok (), upsert agents now agentId hostname)

/-- The statement leaves the rows of the other agents as they are, and the row of the agent has the
name it was called with. -/
theorem mem_upsert_iff {agents : Agents} {now : DateTime} {agentId hostname : String}
    {row : AgentRow} (hrow : row.agentId ≠ agentId) :
    row ∈ (upsert agents now agentId hostname).rows ↔ row ∈ agents.rows := by
  unfold upsert
  split
  · show row ∈ agents.rows.map _ ↔ _
    rw [List.mem_map]
    constructor
    · rintro ⟨old, hold, rfl⟩
      rw [agentId_refresh] at hrow
      rw [refresh, if_neg hrow]
      exact hold
    · intro hold
      exact ⟨row, hold, if_neg hrow⟩
  · show row ∈ agents.rows ++ [_] ↔ _
    rw [List.mem_append, List.mem_singleton, or_iff_left]
    rintro rfl
    exact hrow rfl

theorem hostname_of_mem_upsert {agents : Agents} {now : DateTime} {agentId hostname : String}
    {row : AgentRow} (h : row ∈ (upsert agents now agentId hostname).rows)
    (hrow : row.agentId = agentId) : row.hostname = hostname := by
  unfold upsert at h
  split at h
  · obtain ⟨old, -, rfl⟩ := List.mem_map.mp h
    rw [agentId_refresh] at hrow
    rw [refresh, if_pos hrow]
  · next hnew =>
    rcases List.mem_append.mp h with hold | hone
    · exact absurd (List.mem_map.mpr ⟨row, hold, hrow⟩) hnew
    · rw [List.mem_singleton.mp hone]

/-- The row of an agent, if there is one. -/
def find (agents : Agents) (agentId : String) : Option AgentRow :=
  agents.rows.find? (·.agentId = agentId)

theorem find_eq_some_iff {agents : Agents} {agentId : String} {row : AgentRow} :
    find agents agentId = some row ↔ row ∈ agents.rows ∧ row.agentId = agentId := by
  constructor
  · intro h
    exact ⟨List.mem_of_find?_eq_some h, by simpa using List.find?_some h⟩
  · rintro ⟨hrow, rfl⟩
    cases hfind : find agents row.agentId with
    | none =>
      have hnone := List.find?_eq_none.mp hfind row hrow
      simp at hnone
    | some other =>
      have hother := List.mem_of_find?_eq_some hfind
      have hid : other.agentId = row.agentId := by simpa using List.find?_some hfind
      rw [List.inj_on_of_nodup_map agents.ids hother hrow hid]

/-- **What the statement makes of each row**: that of the agent keeps when it was seen first, and the
others stay. -/
theorem find_upsert (agents : Agents) (now : DateTime) (agentId hostname other : String) :
    find (upsert agents now agentId hostname) other =
      if other = agentId then
        some ⟨agentId, hostname, ((find agents agentId).map (·.firstSeenAt)).getD now, now⟩
      else find agents other := by
  unfold upsert
  split
  · next hknown =>
    obtain ⟨old, hold, hid⟩ := List.mem_map.mp hknown
    have hfind := find_eq_some_iff.mpr ⟨hold, hid⟩
    have hsame : (fun row : AgentRow => decide (row.agentId = other)) ∘ refresh now agentId hostname
        = fun row => decide (row.agentId = other) :=
      funext fun row => congrArg (fun name => decide (name = other)) (agentId_refresh _ _ _ row)
    show (agents.rows.map _).find? _ = _
    rw [List.find?_map, hsame]
    show (find agents other).map _ = _
    split
    · next heq =>
      rw [heq, hfind, Option.map_some, refresh, if_pos hid, ← hid]
      rfl
    · next hne =>
      cases hother : find agents other with
      | none => rfl
      | some row =>
        obtain ⟨-, rfl⟩ := find_eq_some_iff.mp hother
        rw [Option.map_some, refresh, if_neg hne]
  · next hnew =>
    show (agents.rows ++ [_]).find? _ = _
    rw [List.find?_append]
    show (find agents other).or _ = _
    split
    · next heq =>
      have hnone : find agents agentId = none := by
        refine List.find?_eq_none.mpr fun row hrow => ?_
        rw [decide_eq_true_iff]
        exact fun hid => hnew (hid ▸ List.mem_map_of_mem hrow)
      rw [heq, hnone, Option.none_or, List.find?_singleton]
      simp
    · next hne =>
      rw [List.find?_singleton, if_neg (by simpa using Ne.symm hne), Option.or_none]

end AgentRepository

/-! ## Listing agents -/

/-- `AgentStatus`. -/
structure AgentStatus extends AgentRow where
  online : Bool
  deriving DecidableEq, Repr

/-- `ONLINE_WINDOW_SECS`. -/
def onlineWindowSecs : ℤ := 90

/-- `last_seen_at > NOW() - make_interval(secs => $1)`. -/
def agentStatus (now : DateTime) (onlineWindowSecs : ℤ) (row : AgentRow) : AgentStatus where
  toAgentRow := row
  online := now.nanos - onlineWindowSecs * 1000000000 < row.lastSeenAt.nanos

/-- The order of texts in the database, and the order in which it finds the rows. -/
structure Collation where
  le : String → String → Bool
  found : Scan AgentRow

/-- `list_with_status`: agents on one host come in the order in which they are found. -/
def AgentRepository.listWithStatus (failure : Option SentinelError) (collation : Collation)
    (agents : Agents) (now : DateTime) (onlineWindowSecs : ℤ) :
    Except SentinelError (List AgentStatus) :=
  match failure with
  | some e => .error e
  | none => .ok (((collation.found.order agents.rows).insertionSort fun a b =>
      collation.le a.hostname b.hostname).map (agentStatus now onlineWindowSecs))

end Sentinalysis.Db
