/-
# Sentinalysis.LogScanner.DbServiceResolver — services resolved through the database.

Ids are kept by the name of their service, so that a burst of lines for one service asks the
database once.  The `services` table is shared with the hub; it is part of the resolver's state
here.
-/
import Mathlib.Logic.Function.Basic
import Sentinalysis.Db.ServiceRepo
import Sentinalysis.LogScanner.Pipeline

namespace Sentinalysis.LogScanner

open Lib Db

/-- `DbServiceResolver`: the table, and the ids that were resolved. -/
structure DbServiceResolver where
  services : Services := {}
  cache : String → Option Uuid := fun _ => none

/-- What a service is looked up with and created from. -/
def ServiceMeta.insertService (service : ServiceMeta) : InsertService where
  name := service.name
  unitType := service.unitType
  logPaths := none
  virtualHost := service.virtualHost

namespace DbServiceResolver

/-- `DbServiceResolver::resolve`: the cache is asked by name. -/
def resolve (statements : Statements) (resolver : DbServiceResolver) (service : ServiceMeta) :
    Option Uuid × DbServiceResolver :=
  match resolver.cache service.name with
  | some id => (some id, resolver)
  | none =>
    match ServiceRepository.getOrCreate resolver.services service.insertService statements with
    | (.ok id, services) =>
      (some id, { services := services
                  cache := Function.update resolver.cache service.name (some id) })
    | (.error _, services) => (none, { resolver with services := services })

/-- `DbServiceResolver` as a resolver of the pipeline. -/
def serviceResolver : ServiceResolver Statements DbServiceResolver where
  resolve := resolve

/-- `build_pipeline`. -/
def buildPipeline (crates : Externals) (noise : NoiseFilterConfig) :
    Pipeline Statements DbServiceResolver :=
  Pipeline.build crates noise serviceResolver

/-- The service of an entry is the resolver's answer to where the line is filed. -/
theorem serviceId_of_processLine {crates : Externals} {noise : NoiseFilterConfig} {now : DateTime}
    {statements : Statements} {resolver resolver' : DbServiceResolver} {line : TailLine}
    {e : InsertLogEntry}
    (h : (buildPipeline crates noise).processLine crates now statements resolver line
      = (.ok (some e), resolver')) :
    ∃ entry, resolve statements resolver (serviceOf line.filePath entry)
      = (e.serviceId, resolver') := by
  obtain ⟨entry, -, hresolver, hentry⟩ := Pipeline.processLine_eq_some_iff.mp h
  refine ⟨entry, Prod.ext ?_ hresolver⟩
  rw [← hentry]
  rfl

/-- An id that is kept is the answer; nothing is asked. -/
theorem resolve_of_kept {resolver : DbServiceResolver} (statements : Statements)
    {service : ServiceMeta} {id : Uuid} (h : resolver.cache service.name = some id) :
    resolve statements resolver service = (some id, resolver) := by
  simp only [resolve, h]

/-- A service of a new name gets the id that the database draws, and it is kept. -/
theorem resolve_of_fresh (resolver : DbServiceResolver) (service : ServiceMeta)
    {statements : Statements} {id : Uuid} (hcache : resolver.cache service.name = none)
    (hlookup : statements.lookup = .ok ()) (hinsert : statements.insert = .ok id)
    (hid : id ∉ resolver.services.rows.map Service.id)
    (hname : ∀ row ∈ resolver.services.rows, row.name ≠ service.name) :
    ∃ resolver', resolve statements resolver service = (some id, resolver') ∧
      resolver'.cache service.name = some id := by
  have hfresh : ∀ row ∈ resolver.services.rows, row.name ≠ service.insertService.name := hname
  obtain ⟨services, -, hcreate⟩ := ServiceRepository.create_of_fresh hid hfresh
  have hcall : ServiceRepository.getOrCreate resolver.services service.insertService statements
      = (.ok id, services) := by
    have hfind : ServiceRepository.findByName resolver.services service.insertService.name = none :=
      resolver.services.find_eq_none_iff.mpr hfresh
    simp only [ServiceRepository.getOrCreate, hlookup, hfind, hinsert, hcreate]
  refine ⟨{ services := services
            cache := Function.update resolver.cache service.name (some id) }, ?_,
    Function.update_self _ _ _⟩
  simp only [resolve, hcache, hcall]

/-! ## The names of what is kept -/

/-- Every id that is kept is the id of the row of that name. -/
def NamesKept (resolver : DbServiceResolver) : Prop :=
  ∀ name id, resolver.cache name = some id →
    ∃ row ∈ resolver.services.rows, row.id = id ∧ row.name = name

/-- What asking comes to: an id that was kept, nothing, or the id of the row of that name, which is
kept from then on. -/
theorem resolve_cases (statements : Statements) (resolver : DbServiceResolver)
    (service : ServiceMeta) :
    (∃ id, resolver.cache service.name = some id ∧
      resolve statements resolver service = (some id, resolver)) ∨
    resolve statements resolver service = (none, resolver) ∨
    ∃ services row, resolver.services.rows ⊆ services.rows ∧ row ∈ services.rows ∧
      row.name = service.name ∧ resolve statements resolver service = (some row.id,
        { services := services
          cache := Function.update resolver.cache service.name (some row.id) }) := by
  cases hcached : resolver.cache service.name with
  | some id => exact Or.inl ⟨id, rfl, resolve_of_kept statements hcached⟩
  | none =>
    refine Or.inr ?_
    simp only [resolve, hcached]
    rcases ServiceRepository.getOrCreate_cases resolver.services service.insertService statements with
      ⟨e, hcall⟩ | ⟨row, hrow, hname, -, hcall⟩ | ⟨id, services, -, hrows, hcall⟩
    · rw [hcall]
      exact Or.inl rfl
    · rw [hcall]
      exact Or.inr ⟨_, row, List.Subset.refl _, hrow, hname, rfl⟩
    · rw [hcall]
      refine Or.inr ⟨services, ServiceRepository.newService service.insertService id, ?_, ?_, rfl, rfl⟩
      · exact hrows ▸ List.subset_append_left _ _
      · exact hrows ▸ List.mem_append_right _ (List.mem_singleton_self _)

/-- **A service is resolved to the row of its name.**  Rows are only added, and only the answer is
kept anew. -/
theorem NamesKept.answer {resolver resolver' : DbServiceResolver} {statements : Statements}
    {service : ServiceMeta} {answer : Option Uuid} (h : resolver.NamesKept)
    (hresolve : resolve statements resolver service = (answer, resolver')) :
    resolver.services.rows ⊆ resolver'.services.rows ∧
      (∀ id ∈ answer, ∃ row ∈ resolver'.services.rows, row.id = id ∧ row.name = service.name) ∧
      ∀ name id, resolver'.cache name = some id →
        resolver.cache name = some id ∨ (name = service.name ∧ id ∈ answer) := by
  rcases resolve_cases statements resolver service with
    ⟨id, hcached, hcall⟩ | hcall | ⟨services, row, hrows, hrow, hname, hcall⟩
  · obtain ⟨rfl, rfl⟩ := Prod.mk.inj (hcall.symm.trans hresolve)
    refine ⟨List.Subset.refl _, fun id' hid => ?_, fun _ _ hkept => Or.inl hkept⟩
    obtain rfl := Option.some.inj hid
    exact h service.name id hcached
  · obtain ⟨rfl, rfl⟩ := Prod.mk.inj (hcall.symm.trans hresolve)
    exact ⟨List.Subset.refl _, fun _ hid => (by cases hid), fun _ _ hkept => Or.inl hkept⟩
  · obtain ⟨rfl, rfl⟩ := Prod.mk.inj (hcall.symm.trans hresolve)
    refine ⟨hrows, fun id' hid => ⟨row, hrow, Option.some.inj hid, hname⟩, fun name id' hkept => ?_⟩
    dsimp only at hkept
    by_cases hsame : name = service.name
    · rw [hsame, Function.update_self] at hkept
      exact Or.inr ⟨hsame, hkept⟩
    · rw [Function.update_of_ne hsame] at hkept
      exact Or.inl hkept

theorem NamesKept.resolve {resolver resolver' : DbServiceResolver} {statements : Statements}
    {service : ServiceMeta} {answer : Option Uuid} (h : resolver.NamesKept)
    (hresolve : DbServiceResolver.resolve statements resolver service = (answer, resolver')) :
    resolver'.NamesKept := by
  obtain ⟨hrows, hanswer, hkept⟩ := h.answer hresolve
  intro name id hcache
  rcases hkept name id hcache with hbefore | ⟨rfl, hid⟩
  · obtain ⟨row, hrow, hrowId, hname⟩ := h name id hbefore
    exact ⟨row, hrows hrow, hrowId, hname⟩
  · exact hanswer id hid

end DbServiceResolver

end Sentinalysis.LogScanner
