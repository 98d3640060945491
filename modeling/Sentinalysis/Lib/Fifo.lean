/-
# Sentinalysis.Lib.Fifo — a queue whose entries meet a fate when they leave it.

Entries enter at the back.  They leave at the front, some at a time, and all that leave together
meet one fate.  The queue remembers everything that ever entered it, so that what became of the
entries can be accounted for: their number is the sum over the fates and those still waiting, and
the entries of one fate keep the order in which they came.
-/
import Mathlib.Algebra.BigOperators.Group.Finset.Basic
import Mathlib.Algebra.BigOperators.Group.Finset.Piecewise
import Mathlib.Data.List.Basic

namespace Sentinalysis.Lib

universe u v

/-- A queue of `α` and the fates, in `φ`, of those that have left it. -/
structure Fifo (α : Type u) (φ : Type v) where
  settled : List (α × φ) := []
  waiting : List α := []

namespace Fifo

variable {α : Type u} {φ : Type v} (q : Fifo α φ)

/-- Everything that entered, in order. -/
def history : List α := q.settled.map Prod.fst ++ q.waiting

/-- One more enters. -/
def push (a : α) : Fifo α φ := { q with waiting := q.waiting ++ [a] }

/-- The first `n` leave. -/
def settle (n : ℕ) (fate : φ) : Fifo α φ where
  settled := q.settled ++ (q.waiting.take n).map (·, fate)
  waiting := q.waiting.drop n

@[simp] theorem history_push (a : α) : (q.push a).history = q.history ++ [a] := by
  simp [history, push]

theorem map_fst_pair (l : List α) (fate : φ) : (l.map (·, fate)).map Prod.fst = l := by
  rw [List.map_map]
  exact List.map_id l

/-- Leaving does not change what entered. -/
@[simp] theorem history_settle (n : ℕ) (fate : φ) : (q.settle n fate).history = q.history := by
  rw [history, settle, List.map_append, map_fst_pair, List.append_assoc, List.take_append_drop,
    history]

section Fates

variable [DecidableEq φ]

/-- Those that met a fate, in order. -/
def withFate (fate : φ) : List α := (q.settled.filter fun entry => entry.2 = fate).map Prod.fst

@[simp] theorem withFate_push (a : α) (fate : φ) : (q.push a).withFate fate = q.withFate fate := rfl

@[simp] theorem withFate_settle_self (n : ℕ) (fate : φ) :
    (q.settle n fate).withFate fate = q.withFate fate ++ q.waiting.take n := by
  have hall : ((q.waiting.take n).map (·, fate)).filter (fun entry => entry.2 = fate)
      = (q.waiting.take n).map (·, fate) := by
    rw [List.filter_eq_self]
    intro entry hentry
    obtain ⟨a, -, rfl⟩ := List.mem_map.mp hentry
    exact decide_eq_true rfl
  rw [withFate, settle, List.filter_append, hall, List.map_append, map_fst_pair, withFate]

theorem withFate_settle_of_ne (n : ℕ) {fate other : φ} (h : fate ≠ other) :
    (q.settle n fate).withFate other = q.withFate other := by
  have hnone : ((q.waiting.take n).map (·, fate)).filter (fun entry => entry.2 = other) = [] := by
    rw [List.filter_eq_nil_iff]
    intro entry hentry
    obtain ⟨a, -, rfl⟩ := List.mem_map.mp hentry
    exact fun heq => h (of_decide_eq_true heq)
  rw [withFate, settle, List.filter_append, hnone, List.append_nil, withFate]

theorem withFate_eq_nil_iff {fate : φ} :
    q.withFate fate = [] ↔ ∀ entry ∈ q.settled, entry.2 ≠ fate := by
  rw [withFate, List.map_eq_nil_iff, List.filter_eq_nil_iff]
  simp only [decide_eq_true_eq, ne_eq]

/-- The entries of one fate keep their order. -/
theorem withFate_sublist_history (fate : φ) : (q.withFate fate).Sublist q.history := by
  have hsettled : (q.withFate fate).Sublist (q.settled.map Prod.fst) :=
    List.Sublist.map Prod.fst List.filter_sublist
  exact hsettled.trans (List.sublist_append_left _ _)

/-- Every entry has met one fate or is waiting. -/
theorem length_history [Fintype φ] :
    q.history.length = (∑ fate, (q.withFate fate).length) + q.waiting.length := by
  have hsettled : ∀ settled : List (α × φ),
      settled.length = ∑ fate, (settled.filter fun entry => entry.2 = fate).length := by
    intro settled
    induction settled with
    | nil => simp
    | cons entry settled ih =>
      have hcons : ∀ fate, ((entry :: settled).filter fun entry => entry.2 = fate).length
          = (settled.filter fun entry => entry.2 = fate).length
            + if entry.2 = fate then 1 else 0 := by
        intro fate
        by_cases h : entry.2 = fate <;> simp [h]
      simp only [hcons, Finset.sum_add_distrib, ← ih, Finset.sum_ite_eq, Finset.mem_univ, if_true,
        List.length_cons]
  simp only [history, List.length_append, List.length_map, hsettled q.settled, withFate]

/-- When only two fates have been met, their entries and those waiting are all there are. -/
theorem perm_history {fate other : φ} (hne : fate ≠ other)
    (hall : ∀ entry ∈ q.settled, entry.2 = fate ∨ entry.2 = other) :
    (q.withFate fate ++ q.withFate other ++ q.waiting).Perm q.history := by
  have hother : q.settled.filter (fun entry => !decide (entry.2 = fate))
      = q.settled.filter fun entry => entry.2 = other := by
    apply List.filter_congr
    intro entry hentry
    rcases hall entry hentry with h | h
    · simp [h, hne]
    · simp [h, hne.symm]
  have hperm := (List.filter_append_perm (fun entry => decide (entry.2 = fate)) q.settled).map
    Prod.fst
  rw [hother, List.map_append] at hperm
  exact hperm.append_right _

end Fates

end Fifo

end Sentinalysis.Lib
