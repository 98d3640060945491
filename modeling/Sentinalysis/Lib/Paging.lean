/-
# Sentinalysis.Lib.Paging — a list that is read page by page.

A reader that knows how long a list is asks for the pages that begin within it.  Put one behind the
other they are the list; what lies behind the last page that is answered is missing.
-/
import Mathlib.Data.List.Basic

namespace Sentinalysis.Lib.Paging

universe u

variable {α : Type u} (size : ℕ)

/-- The page with a given number, from zero on. -/
def page (l : List α) (k : ℕ) : List α := (l.drop (k * size)).take size

/-- How many pages begin within so many entries. -/
def pageCount (n : ℕ) : ℕ := (n + size - 1) / size

variable {size}

theorem lt_pageCount_iff (h : 0 < size) {k n : ℕ} : k < pageCount size n ↔ k * size < n := by
  rw [pageCount, ← Nat.succ_le_iff, Nat.le_div_iff_mul_le h, Nat.succ_mul]
  omega

/-- No entry lies behind the last page. -/
theorem le_pageCount_mul (h : 0 < size) (n : ℕ) : n ≤ pageCount size n * size :=
  Nat.not_lt.mp fun hlt => Nat.lt_irrefl _ ((lt_pageCount_iff h).mpr hlt)

/-- **The pages that are answered are a beginning**, when those from a number on are not. -/
theorem flatMap_page_upto (l : List α) (count last : ℕ) :
    ((List.range count).flatMap fun k => if k < last then page size l k else [])
      = l.take (min count last * size) := by
  induction count with
  | zero => simp
  | succ count ih =>
    rw [List.range_succ, List.flatMap_append, ih, List.flatMap_singleton]
    split
    · next hlt =>
      rw [Nat.min_eq_left (Nat.le_of_lt hlt), Nat.min_eq_left hlt, Nat.succ_mul, List.take_add]
      rfl
    · next hge =>
      rw [Nat.min_eq_right (Nat.not_lt.mp hge), Nat.min_eq_right (by omega), List.append_nil]

end Sentinalysis.Lib.Paging
