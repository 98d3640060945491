/-
# Sentinalysis.Lib.Batch — deleting rows in batches.

`DELETE … WHERE id IN (SELECT id … WHERE p LIMIT n)` removes at most `n` of the rows that satisfy
`p`.  Which of them, the statement does not say: the order in which the rows are found is any
permutation of them.  How many rows are left that satisfy `p` does not depend on it.
-/
import Mathlib.Data.List.Nodup
import Mathlib.Data.List.Perm.Basic

namespace Sentinalysis.Lib

universe u v

/-- The order in which rows are found: none is lost and none is added. -/
structure Scan (α : Type u) where
  order : List α → List α
  perm : ∀ rows, (order rows).Perm rows

/-- Rows are found as they are stored. -/
def Scan.sequential (α : Type u) : Scan α where
  order rows := rows
  perm := List.Perm.refl

/-- Rows under a primary key. -/
structure Keyed {α : Type u} {ι : Type v} (id : α → ι) where
  rows : List α := []
  ids : (rows.map id).Nodup := by exact List.nodup_nil

namespace Keyed

variable {α : Type u} {ι : Type v} {id : α → ι}

variable (table : Keyed id) (scan : Scan α) (p : α → Bool) (limit : ℕ)

/-- The rows that a batch takes. -/
def batch : List α := (scan.order (table.rows.filter p)).take limit

theorem mem_batch {a : α} (h : a ∈ table.batch scan p limit) : a ∈ table.rows ∧ p a = true :=
  List.mem_filter.mp ((scan.perm _).mem_iff.mp (List.mem_of_mem_take h))

theorem nodup_batch : (table.batch scan p limit).Nodup := by
  have hrows : (table.rows.filter p).Nodup := List.Nodup.filter p (List.Nodup.of_map id table.ids)
  exact (List.take_sublist _ _).nodup ((scan.perm _).nodup_iff.mpr hrows)

theorem length_batch : (table.batch scan p limit).length = min limit (table.rows.countP p) := by
  rw [batch, List.length_take, (scan.perm _).length_eq, List.countP_eq_length_filter]

/-- A row is taken when its key is: no other row has the key. -/
theorem mem_batch_iff {a : α} (ha : a ∈ table.rows) :
    a ∈ table.batch scan p limit ↔ id a ∈ (table.batch scan p limit).map id := by
  constructor
  · intro h
    exact List.mem_map_of_mem h
  · intro h
    obtain ⟨b, hb, hid⟩ := List.mem_map.mp h
    obtain ⟨hrow, -⟩ := table.mem_batch scan p limit hb
    rwa [← List.inj_on_of_nodup_map table.ids hrow ha hid]

section Delete

variable [DecidableEq ι]

/-- The table without the rows of a batch. -/
def deleteBatch : Keyed id where
  rows := table.rows.filter fun a => id a ∉ (table.batch scan p limit).map id
  ids := (List.filter_sublist.map id).nodup table.ids

theorem mem_deleteBatch {a : α} :
    a ∈ (table.deleteBatch scan p limit).rows ↔ a ∈ table.rows ∧ a ∉ table.batch scan p limit := by
  show a ∈ table.rows.filter _ ↔ _
  rw [List.mem_filter, decide_eq_true_iff]
  refine and_congr_right fun ha => ?_
  rw [table.mem_batch_iff scan p limit ha]

/-- **Only rows that satisfy the condition are deleted.** -/
theorem of_not_mem_deleteBatch {a : α} (ha : a ∈ table.rows)
    (h : a ∉ (table.deleteBatch scan p limit).rows) : p a = true := by
  rw [mem_deleteBatch, not_and_not_right] at h
  exact (table.mem_batch scan p limit (h ha)).2

/-- **A batch deletes as many rows as it can**, whatever the order in which they are found. -/
theorem countP_deleteBatch :
    (table.deleteBatch scan p limit).rows.countP p = table.rows.countP p - limit := by
  -- The rows that satisfy the condition are those of the batch and those that are left.
  have htaken : (table.rows.filter fun a =>
      p a && decide (id a ∈ (table.batch scan p limit).map id)).Perm
      (table.batch scan p limit) := by
    refine (List.perm_ext_iff_of_nodup (List.Nodup.filter _ (List.Nodup.of_map id table.ids))
      (table.nodup_batch scan p limit)).mpr fun a => ?_
    rw [List.mem_filter, Bool.and_eq_true_iff, decide_eq_true_iff]
    constructor
    · rintro ⟨ha, -, hid⟩
      exact (table.mem_batch_iff scan p limit ha).mpr hid
    · intro ha
      obtain ⟨hrow, hp⟩ := table.mem_batch scan p limit ha
      exact ⟨hrow, hp, List.mem_map_of_mem ha⟩
  have hsplit := List.countP_eq_countP_filter_add table.rows p
    (fun a => decide (id a ∈ (table.batch scan p limit).map id))
  have hleft : (table.deleteBatch scan p limit).rows.countP p = (table.rows.filter
      fun a => !decide (id a ∈ (table.batch scan p limit).map id)).countP p := by
    show (table.rows.filter _).countP p = _
    congr 2
    funext a
    exact decide_not
  have hlength := htaken.length_eq
  rw [length_batch, ← List.countP_eq_length_filter] at hlength
  rw [List.countP_filter] at hsplit
  rw [hleft]
  omega

/-- A batch leaves no row that satisfies the condition exactly when they all fit in it. -/
theorem deleteBatch_complete_iff :
    (∀ a ∈ (table.deleteBatch scan p limit).rows, p a = false) ↔ table.rows.countP p ≤ limit := by
  rw [← Nat.sub_eq_zero_iff_le, ← table.countP_deleteBatch scan p limit, List.countP_eq_zero]
  simp only [Bool.not_eq_true]

/-- A batch takes none of the rows that do not satisfy its condition. -/
theorem filter_deleteBatch {q : α → Bool} (h : ∀ a ∈ table.rows, q a = true → p a = false) :
    (table.deleteBatch scan p limit).rows.filter q = table.rows.filter q := by
  show (table.rows.filter _).filter q = _
  rw [List.filter_filter]
  refine List.filter_congr fun a ha => ?_
  cases hq : q a with
  | false => rfl
  | true =>
    rw [Bool.true_and, decide_eq_true_iff, ← table.mem_batch_iff scan p limit ha]
    intro htaken
    have hp := (table.mem_batch scan p limit htaken).2
    rw [h a ha hq] at hp
    exact Bool.false_ne_true hp

end Delete

/-! ## Adding rows -/

/-- One statement with more rows; it is refused when a key is taken. -/
def insertAll [DecidableEq ι] (rows : List α) : Option (Keyed id) :=
  if h : ((table.rows ++ rows).map id).Nodup then some ⟨table.rows ++ rows, h⟩ else none

theorem rows_of_insertAll [DecidableEq ι] {table table' : Keyed id} {rows : List α}
    (h : table.insertAll rows = some table') : table'.rows = table.rows ++ rows := by
  unfold insertAll at h
  split at h
  · cases h
    rfl
  · cases h

end Keyed

end Sentinalysis.Lib
