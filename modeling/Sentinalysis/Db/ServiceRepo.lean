/-
# Sentinalysis.Db.ServiceRepo — the `services` table and the lookups by which rows are found or made.

Rows are only ever added: nothing updates or deletes a service.  A statement may fail; a row that is
made gets an id from the database.  A call that is overtaken between its two statements finds the
name taken, and fails like any other statement.
-/
import Sentinalysis.Db.Models
import Sentinalysis.Error
import Sentinalysis.Lib.Table

namespace Sentinalysis.Db

open Lib

/-- The `services` table: `id` is the primary key and `name` is unique. -/
abbrev Services := Table Service.id Service.name

/-- A row is the service that was asked for: its name, its kind and its virtual host. -/
def Service.IsFor (row : Service) (service : InsertService) : Prop :=
  row.name = service.name ∧ row.unitType = service.unitType ∧
    row.virtualHost = service.virtualHost

instance (row : Service) (service : InsertService) : Decidable (row.IsFor service) :=
  inferInstanceAs (Decidable (_ ∧ _ ∧ _))

/-- What the database does with the statements of one call: whether the lookup fails, and the id of
a row that is made, or why it is not. -/
structure Statements where
  lookup : Except SentinelError Unit := .ok ()
  insert : Except SentinelError Uuid
  deriving DecidableEq, Repr

namespace ServiceRepository

/-- The database's answer to a row whose key or name is taken. -/
def uniqueViolation : SentinelError :=
  .DatabaseError "duplicate key value violates unique constraint"

/-- The row that is made from `service`. -/
def newService (service : InsertService) (id : Uuid) : Service where
  id := id
  name := service.name
  unitType := service.unitType
  logPaths := service.logPaths
  virtualHost := service.virtualHost

theorem newService_isFor (service : InsertService) (id : Uuid) :
    (newService service id).IsFor service := ⟨rfl, rfl, rfl⟩

/-- `create`. -/
def create (services : Services) (service : InsertService) (insert : Except SentinelError Uuid) :
    Except SentinelError Uuid × Services :=
  match insert with
  | .error e => (.error e, services)
  | .ok id => match services.insert (newService service id) with
    | some services => (.ok id, services)
    | none => (.error uniqueViolation, services)

/-- A row is made, or nothing changes. -/
theorem create_cases (services : Services) (service : InsertService)
    (insert : Except SentinelError Uuid) :
    (∃ e, create services service insert = (.error e, services)) ∨
    ∃ id services', services'.rows = services.rows ++ [newService service id] ∧
      create services service insert = (.ok id, services') := by
  cases insert with
  | error e => exact Or.inl ⟨e, rfl⟩
  | ok id =>
    cases hinsert : services.insert (newService service id) with
    | none => exact Or.inl ⟨uniqueViolation, by simp only [create, hinsert]⟩
    | some services' =>
      exact Or.inr ⟨id, services', Table.rows_of_insert hinsert, by simp only [create, hinsert]⟩

/-- A row whose name is taken is not made. -/
theorem create_of_taken {services : Services} {service : InsertService} {row : Service}
    (hrow : row ∈ services.rows) (hname : row.name = service.name) (id : Uuid) :
    create services service (.ok id) = (.error uniqueViolation, services) := by
  have hnone : services.insert (newService service id) = none := by
    rw [Table.insert_eq_none_iff]
    exact Or.inr (List.mem_map.mpr ⟨row, hrow, hname⟩)
  simp only [create, hnone]

/-- A row with a key and a name of its own is made. -/
theorem create_of_fresh {services : Services} {service : InsertService} {id : Uuid}
    (hid : id ∉ services.rows.map Service.id)
    (hname : ∀ row ∈ services.rows, row.name ≠ service.name) :
    ∃ services', services'.rows = services.rows ++ [newService service id] ∧
      create services service (.ok id) = (.ok id, services') := by
  cases hinsert : services.insert (newService service id) with
  | none =>
    rcases Table.insert_eq_none_iff.mp hinsert with htaken | htaken
    · exact absurd htaken hid
    · obtain ⟨row, hrow, heq⟩ := List.mem_map.mp htaken
      exact absurd heq (hname row hrow)
  | some services' =>
    exact ⟨services', Table.rows_of_insert hinsert, by simp only [create, hinsert]⟩

/-- `find_by_name`. -/
def findByName (services : Services) (name : String) : Option Service := services.find name

/-- `get_or_create`: a row is found by its name alone. -/
def getOrCreate (services : Services) (service : InsertService) (statements : Statements) :
    Except SentinelError Uuid × Services :=
  match statements.lookup with
  | .error e => (.error e, services)
  | .ok () => match findByName services service.name with
    | some existing => (.ok existing.id, services)
    | none => create services service statements.insert

/-- What a call can come to: no answer and no change, the id of the row of that name, or a new row. -/
theorem getOrCreate_cases (services : Services) (service : InsertService)
    (statements : Statements) :
    (∃ e, getOrCreate services service statements = (.error e, services)) ∨
    (∃ row ∈ services.rows, row.name = service.name ∧ statements.lookup = .ok () ∧
      getOrCreate services service statements = (.ok row.id, services)) ∨
    ∃ id services', (∀ row ∈ services.rows, row.name ≠ service.name) ∧
      services'.rows = services.rows ++ [newService service id] ∧
      getOrCreate services service statements = (.ok id, services') := by
  unfold getOrCreate
  cases hlookup : statements.lookup with
  | error e => exact Or.inl ⟨e, rfl⟩
  | ok _ =>
    cases hfind : findByName services service.name with
    | some existing =>
      obtain ⟨hmem, hname⟩ := services.find_eq_some_iff.mp hfind
      exact Or.inr (Or.inl ⟨existing, hmem, hname, rfl, rfl⟩)
    | none =>
      have hnone := services.find_eq_none_iff.mp hfind
      rcases create_cases services service statements.insert with
        ⟨e, herror⟩ | ⟨id, services', hrows, hmade⟩
      · exact Or.inl ⟨e, herror⟩
      · exact Or.inr (Or.inr ⟨id, services', hnone, hrows, hmade⟩)

/-- With the lookup answered, the row of that name is the answer. -/
theorem getOrCreate_of_row {services : Services} {service : InsertService}
    {statements : Statements} {row : Service} (hlookup : statements.lookup = .ok ())
    (hrow : row ∈ services.rows) (hname : row.name = service.name) :
    getOrCreate services service statements = (.ok row.id, services) := by
  have hfind : findByName services service.name = some row :=
    services.find_eq_some_iff.mpr ⟨hrow, hname⟩
  simp only [getOrCreate, hlookup, hfind]

end ServiceRepository

end Sentinalysis.Db
