/-
# Sentinalysis.Db.ApiKeyRepo — the `api_keys` table.

A row is the one source of identity and permissions: an agent key carries an agent and a host name,
an app key the name of an app, a dashboard key neither.  The secret is not in it, only its hash.
-/
import Sentinalysis.Db.Models
import Sentinalysis.Error
import Sentinalysis.Lib.Table

namespace Sentinalysis.Db

open Lib

/-- `ApiKeyRow`. -/
structure ApiKeyRow where
  id : Uuid
  name : String
  hash : String
  permissions : List String
  keyId : String
  agentId : Option String
  hostname : Option String
  appName : Option String
  revokedAt : Option DateTime
  deriving DecidableEq, Repr

/-- `ApiKeyRow::is_active`. -/
def ApiKeyRow.isActive (row : ApiKeyRow) : Bool := row.revokedAt.isNone

/-- The `api_keys` table: `id` is the primary key and `key_id` is unique. -/
abbrev ApiKeys := Table ApiKeyRow.id ApiKeyRow.keyId

namespace ApiKeyRepository

/-- `find_active_by_key_id`. -/
def findActiveByKeyId (keys : ApiKeys) (keyId : String) : Option ApiKeyRow :=
  (keys.find keyId).filter ApiKeyRow.isActive

theorem findActiveByKeyId_eq_some_iff {keys : ApiKeys} {keyId : String} {row : ApiKeyRow} :
    findActiveByKeyId keys keyId = some row ↔
      row ∈ keys.rows ∧ row.keyId = keyId ∧ row.isActive = true := by
  rw [findActiveByKeyId, Option.filter_eq_some_iff, keys.find_eq_some_iff, and_assoc]

/-- What `revoke` sets: the active row with the `key_id` is stamped. -/
def stampRevoked (keyId : String) (now : DateTime) (row : ApiKeyRow) : ApiKeyRow :=
  if row.keyId = keyId ∧ row.isActive = true then { row with revokedAt := some now } else row

theorem stampRevoked_fixed {α : Type} (field : ApiKeyRow → α)
    (h : ∀ (row : ApiKeyRow) revokedAt, field { row with revokedAt := revokedAt } = field row)
    (keyId : String) (now : DateTime) (row : ApiKeyRow) :
    field (stampRevoked keyId now row) = field row := by
  unfold stampRevoked
  split
  · exact h row _
  · rfl

/-- `revoke`: whether a row was stamped, and the table. -/
def revoke (keys : ApiKeys) (keyId : String) (now : DateTime) : Bool × ApiKeys :=
  (keys.rows.any fun row => row.keyId = keyId ∧ row.isActive = true,
    keys.update (stampRevoked keyId now) (stampRevoked_fixed _ (fun _ _ => rfl) keyId now)
      (stampRevoked_fixed _ (fun _ _ => rfl) keyId now))

/-- A key that is revoked is not found any more. -/
theorem findActiveByKeyId_revoke_self (keys : ApiKeys) (keyId : String) (now : DateTime) :
    findActiveByKeyId (revoke keys keyId now).2 keyId = none := by
  rw [Option.eq_none_iff_forall_ne_some]
  intro row hfind
  obtain ⟨hrow, hid, hactive⟩ := findActiveByKeyId_eq_some_iff.mp hfind
  obtain ⟨old, -, rfl⟩ := List.mem_map.mp hrow
  unfold stampRevoked at hid hactive
  split at hactive
  · cases hactive
  · next h =>
    rw [if_neg h] at hid
    exact h ⟨hid, hactive⟩

/-- Revoking a key brings no other key back. -/
theorem findActiveByKeyId_revoke_of_none {keys : ApiKeys} {k : String}
    (h : findActiveByKeyId keys k = none) (keyId : String) (now : DateTime) :
    findActiveByKeyId (revoke keys keyId now).2 k = none := by
  rw [Option.eq_none_iff_forall_ne_some] at h ⊢
  intro row hfind
  obtain ⟨hrow, hid, hactive⟩ := findActiveByKeyId_eq_some_iff.mp hfind
  obtain ⟨old, hold, rfl⟩ := List.mem_map.mp hrow
  unfold stampRevoked at hid hactive
  split at hactive
  · cases hactive
  · next hne =>
    rw [if_neg hne] at hid
    exact h old (findActiveByKeyId_eq_some_iff.mpr ⟨hold, hid, hactive⟩)

/-- `create`: the binding is checked, and the statement fails when the name or the `key_id` is taken,
by a key that was revoked as well. -/
def create (keys : ApiKeys) (row : ApiKeyRow) : Option ApiKeys :=
  if row.agentId.isSome ∧ row.appName.isSome then none
  else if row.name ∈ keys.rows.map ApiKeyRow.name then none
  else keys.insert row

theorem create_eq_some {keys keys' : ApiKeys} {row : ApiKeyRow} (h : create keys row = some keys') :
    row.name ∉ keys.rows.map ApiKeyRow.name ∧ keys'.rows = keys.rows ++ [row] := by
  unfold create at h
  split at h
  · cases h
  · split at h
    · cases h
    · next hname => exact ⟨hname, Table.rows_of_insert h⟩

theorem mem_rows_revoke {keys : ApiKeys} {keyId : String} {now : DateTime} {row : ApiKeyRow} :
    row ∈ (revoke keys keyId now).2.rows ↔ ∃ old ∈ keys.rows, stampRevoked keyId now old = row :=
  List.mem_map

end ApiKeyRepository

end Sentinalysis.Db
