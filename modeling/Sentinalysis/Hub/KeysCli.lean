/-
# Sentinalysis.Hub.KeysCli — `hub-key`: the keys that can be made.

A key is for one agent, for one app or for a dashboard, under the names that the command line gives.
-/
import Sentinalysis.Db.Constraints
import Sentinalysis.Hub.Auth

namespace Sentinalysis.Hub

open Lib Db

/-- `HubKeyAction`. -/
inductive HubKeyAction
  | Create (agent hostname app dashboard : Option String)
  | List
  | Revoke (keyId : String)
  deriving DecidableEq, Repr

/-- `Role`. -/
structure Role where
  name : String
  agentId : Option String
  hostname : Option String
  appName : Option String
  permissions : List String
  deriving DecidableEq, Repr

namespace Role

/-- `Role::from_action`: exactly one of the three is given. -/
def fromAction : HubKeyAction → Except SentinelError (Option Role)
  | .Create agent hostname app dashboard =>
    let chosen := ([agent.isSome, app.isSome, dashboard.isSome].filter id).length
    if chosen ≠ 1 then
      .error (.ConfigError
        "hub-key create requires exactly one of --agent, --app, or --dashboard")
    else match agent, app with
    | some agentId, _ => .ok (some {
        name := agentId
        agentId := some agentId
        hostname := some (hostname.getD agentId)
        appName := none
        permissions := [Permission.IngestMetrics.asStr, Permission.IngestLogs.asStr] })
    | none, some appName => .ok (some {
        name := appName
        agentId := none
        hostname := none
        appName := some appName
        permissions := [Permission.IngestEvents.asStr] })
    | none, none => .ok (dashboard.map fun dashboardName => {
        name := dashboardName
        agentId := none
        hostname := none
        appName := none
        permissions := [Permission.ReadDashboard.asStr] })
  | _ => .ok none

/-- The row that `ApiKeyRepository::create` inserts. -/
def row (role : Role) (id : Uuid) (hash keyId : String) : ApiKeyRow where
  id := id
  name := role.name
  hash := hash
  permissions := role.permissions
  keyId := keyId
  agentId := role.agentId
  hostname := role.hostname
  appName := role.appName
  revokedAt := none

/-- The three kinds of roles. -/
theorem fromAction_cases {action : HubKeyAction} {role : Role}
    (h : fromAction action = .ok (some role)) :
    (∃ agentId hostname, role = ⟨agentId, some agentId, some hostname, none,
        [Permission.IngestMetrics.asStr, Permission.IngestLogs.asStr]⟩) ∨
      (∃ appName, role = ⟨appName, none, none, some appName,
        [Permission.IngestEvents.asStr]⟩) ∨
      ∃ name, role = ⟨name, none, none, none, [Permission.ReadDashboard.asStr]⟩ := by
  cases action with
  | Create agent hostname app dashboard =>
    simp only [fromAction] at h
    split at h
    · cases h
    · split at h
      · obtain rfl := Option.some.inj (Except.ok.inj h)
        exact Or.inl ⟨_, _, rfl⟩
      · obtain rfl := Option.some.inj (Except.ok.inj h)
        exact Or.inr (Or.inl ⟨_, rfl⟩)
      · obtain ⟨name, -, rfl⟩ := Option.map_eq_some_iff.mp (Except.ok.inj h)
        exact Or.inr (Or.inr ⟨name, rfl⟩)
  | List => cases h
  | Revoke keyId => cases h

end Role

/-- A key that the command can make: the row of a role, as far as the table takes it. -/
structure CanCreate (row : ApiKeyRow) : Prop where
  made : ∃ action role id hash keyId,
    Role.fromAction action = .ok (some role) ∧ role.row id hash keyId = row
  stored : KeyStorable row

/-- **Whatever can be stored can be a name**: the command looks at none of them. -/
theorem canCreate_of_fromAction {action : HubKeyAction} {role : Role}
    (h : Role.fromAction action = .ok (some role)) (hname : StorableText role.name)
    (hhost : ∀ text ∈ role.hostname, StorableText text) (id : Uuid) {hash keyId : String}
    (hhash : StorableText hash) (hkeyId : StorableText keyId) :
    CanCreate (role.row id hash keyId) := by
  refine ⟨⟨action, role, id, hash, keyId, h, rfl⟩, ?_⟩
  have hpermission : ∀ permission : Permission, StorableText permission.asStr := by
    intro permission
    cases permission <;> decide
  -- no role has both an agent and an app
  rcases Role.fromAction_cases h with ⟨agentId, hostname, rfl⟩ | ⟨appName, rfl⟩ | ⟨name, rfl⟩
  · refine ⟨hname, hhash, ?_, hkeyId, ?_, hhost, fun _ hmem => (by cases hmem), ?_⟩
    · simp [Role.row, hpermission]
    · rintro text ⟨⟩
      exact hname
    · simp [Role.row]
  · refine ⟨hname, hhash, ?_, hkeyId, fun _ hmem => (by cases hmem), hhost, ?_, ?_⟩
    · simp [Role.row, hpermission]
    · rintro text ⟨⟩
      exact hname
    · simp [Role.row]
  · refine ⟨hname, hhash, ?_, hkeyId, fun _ hmem => (by cases hmem), hhost,
      fun _ hmem => (by cases hmem), ?_⟩
    · simp [Role.row, hpermission]
    · simp [Role.row]

end Sentinalysis.Hub
