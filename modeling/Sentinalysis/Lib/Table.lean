/-
# Sentinalysis.Lib.Table — a table with a primary key and one more unique column.

Rows are in the order of their insertion.  A row whose key or unique column is taken cannot be
inserted, so a lookup by either column has at most one answer, and an answer stays the answer as
rows are added.
-/
import Mathlib.Data.List.Nodup

namespace Sentinalysis.Lib

universe u v w

/-- Rows with a primary key `id` and a unique column `name`. -/
structure Table {α : Type u} {ι : Type v} {ν : Type w} (id : α → ι) (name : α → ν) where
  rows : List α := []
  ids : (rows.map id).Nodup := by exact List.nodup_nil
  names : (rows.map name).Nodup := by exact List.nodup_nil

namespace Table

variable {α : Type u} {ι : Type v} {ν : Type w} {id : α → ι} {name : α → ν}

/-- The table of one row. -/
def singleton (a : α) : Table id name where
  rows := [a]
  ids := List.nodup_singleton _
  names := List.nodup_singleton _

/-- Two rows with one value in a column without repetitions are one row. -/
theorem eq_of_nodup_map {β : Type*} {f : α → β} {rows : List α} (h : (rows.map f).Nodup) {a b : α}
    (ha : a ∈ rows) (hb : b ∈ rows) (heq : f a = f b) : a = b :=
  List.inj_on_of_nodup_map h ha hb heq

theorem eq_of_id_eq (table : Table id name) {a b : α} (ha : a ∈ table.rows) (hb : b ∈ table.rows)
    (heq : id a = id b) : a = b := eq_of_nodup_map table.ids ha hb heq

theorem eq_of_name_eq (table : Table id name) {a b : α} (ha : a ∈ table.rows)
    (hb : b ∈ table.rows) (heq : name a = name b) : a = b := eq_of_nodup_map table.names ha hb heq

section Find

variable [DecidableEq ν]

/-- The row with a given value in the unique column. -/
def find (table : Table id name) (n : ν) : Option α := table.rows.find? (name · = n)

theorem find_eq_some_iff (table : Table id name) {n : ν} {a : α} :
    table.find n = some a ↔ a ∈ table.rows ∧ name a = n := by
  constructor
  · intro h
    unfold find at h
    exact ⟨List.mem_of_find?_eq_some h, by simpa using List.find?_some h⟩
  · rintro ⟨ha, rfl⟩
    cases hfind : table.find (name a) with
    | none =>
      have hnone := List.find?_eq_none.mp hfind a ha
      simp at hnone
    | some b =>
      unfold find at hfind
      have hb := List.mem_of_find?_eq_some hfind
      have hname : name b = name a := by simpa using List.find?_some hfind
      rw [table.eq_of_name_eq hb ha hname]

theorem find_eq_none_iff (table : Table id name) {n : ν} :
    table.find n = none ↔ ∀ a ∈ table.rows, name a ≠ n := by
  simp [find, List.find?_eq_none]

end Find

section FindId

variable [DecidableEq ι]

/-- The row with a given key. -/
def findId (table : Table id name) (i : ι) : Option α := table.rows.find? (id · = i)

theorem findId_of_mem (table : Table id name) {a : α} (ha : a ∈ table.rows) :
    table.findId (id a) = some a := by
  cases hfind : table.findId (id a) with
  | none =>
    have hnone := List.find?_eq_none.mp hfind a ha
    simp at hnone
  | some b =>
    unfold findId at hfind
    have hb := List.mem_of_find?_eq_some hfind
    have hid : id b = id a := by simpa using List.find?_some hfind
    rw [table.eq_of_id_eq hb ha hid]

/-- A row that is found is still found when rows are added. -/
theorem findId_of_rows_eq {table table' : Table id name} {a : α} {rows : List α} {i : ι}
    (hrows : table'.rows = table.rows ++ rows) (h : table.findId i = some a) :
    table'.findId i = some a := by
  unfold findId at *
  rw [hrows, List.find?_append, h]
  rfl

end FindId

section Insert

variable [DecidableEq ι] [DecidableEq ν]

/-- One more row, unless its key or its unique column is taken. -/
def insert (table : Table id name) (a : α) : Option (Table id name) :=
  if h : id a ∉ table.rows.map id ∧ name a ∉ table.rows.map name then
    some
      { rows := table.rows ++ [a]
        ids := by
          rw [List.map_append]
          exact List.nodup_append.mpr ⟨table.ids, List.nodup_singleton _, by
            rintro x hx y hy rfl
            rw [List.map_singleton, List.mem_singleton] at hy
            exact h.1 (hy ▸ hx)⟩
        names := by
          rw [List.map_append]
          exact List.nodup_append.mpr ⟨table.names, List.nodup_singleton _, by
            rintro x hx y hy rfl
            rw [List.map_singleton, List.mem_singleton] at hy
            exact h.2 (hy ▸ hx)⟩ }
  else none

theorem rows_of_insert {table table' : Table id name} {a : α} (h : table.insert a = some table') :
    table'.rows = table.rows ++ [a] := by
  unfold insert at h
  split at h
  · cases h
    rfl
  · cases h

/-- A row is refused exactly when its key or its unique column is taken. -/
theorem insert_eq_none_iff {table : Table id name} {a : α} :
    table.insert a = none ↔ id a ∈ table.rows.map id ∨ name a ∈ table.rows.map name := by
  unfold insert
  split
  · next h =>
    constructor
    · intro hnone
      cases hnone
    · rintro (hid | hname)
      · exact absurd hid h.1
      · exact absurd hname h.2
  · next h =>
    refine ⟨fun _ => ?_, fun _ => rfl⟩
    by_contra hnot
    exact h (not_or.mp hnot)

end Insert

section Update

variable {f : α → α}

/-- The rows after an update that changes neither the key nor the unique column. -/
def update (table : Table id name) (f : α → α) (hid : ∀ a, id (f a) = id a)
    (hname : ∀ a, name (f a) = name a) : Table id name where
  rows := table.rows.map f
  ids := by
    rw [List.map_map, show id ∘ f = id from funext hid]
    exact table.ids
  names := by
    rw [List.map_map, show name ∘ f = name from funext hname]
    exact table.names

end Update

end Table

end Sentinalysis.Lib
