/-
# Sentinalysis.Db.Prune — the statement that prunes a table.

The hub prunes three tables with one statement: `DELETE FROM t WHERE id IN (SELECT id FROM t WHERE
timestamp < NOW() - make_interval(days => $1) LIMIT 10000)`.  The window is an unsigned number of
days, the parameter a signed one; the date arithmetic of the database is taken to be exact.
-/
import Mathlib.Algebra.Order.Group.Unbundled.Int
import Sentinalysis.Db.Models
import Sentinalysis.Lib.Batch

namespace Sentinalysis.Db

open Lib

/-- `u32::cast_signed`: the same bits. -/
def castSigned (n : UInt32) : ℤ := n.toBitVec.toInt

/-- `make_interval(days => $1)`, in nanoseconds. -/
def makeInterval (days : ℤ) : ℤ := days * (24 * 3600 * 1000000000)

/-- `timestamp < NOW() - make_interval(days => $1)`. -/
def expired (timestamp now : DateTime) (days : ℤ) : Bool :=
  timestamp.nanos < now.nanos - makeInterval days

/-- The timestamp is more than some days before `now`. -/
def OlderThan (timestamp now : DateTime) (days : ℕ) : Prop :=
  timestamp.nanos < now.nanos - makeInterval days

instance (timestamp now : DateTime) (days : ℕ) : Decidable (OlderThan timestamp now days) :=
  inferInstanceAs (Decidable (_ < _))

/-- `LIMIT 10000`. -/
def pruneLimit : ℕ := 10000

section

variable {α : Type} {id : α → Uuid}

/-- The statement on a table, and how many rows it deletes. -/
def prune (timestamp : α → DateTime) (table : Keyed id) (scan : Scan α) (now : DateTime)
    (keepDays : UInt32) : ℕ × Keyed id :=
  let old row := expired (timestamp row) now (castSigned keepDays)
  ((table.batch scan old pruneLimit).length, table.deleteBatch scan old pruneLimit)

/-- How many rows of a table are past the window. -/
def countOlder (timestamp : α → DateTime) (table : Keyed id) (now : DateTime) (days : ℕ) : ℕ :=
  table.rows.countP fun row => OlderThan (timestamp row) now days

end

/-! ## The window as a signed number -/

theorem castSigned_of_lt {n : UInt32} (h : n.toNat < 2147483648) : castSigned n = n.toNat := by
  show n.toBitVec.toInt = n.toBitVec.toNat
  rw [BitVec.toInt_eq_toNat_cond, if_pos]
  show 2 * n.toNat < 4294967296
  omega

theorem castSigned_of_le {n : UInt32} (h : 2147483648 ≤ n.toNat) :
    castSigned n = n.toNat - 4294967296 := by
  show n.toBitVec.toInt = n.toBitVec.toNat - 4294967296
  rw [BitVec.toInt_eq_toNat_cond, if_neg]
  · rfl
  · show ¬ 2 * n.toNat < 4294967296
    omega

/-- A window that fits in the signed number is the one that was meant. -/
theorem expired_eq_olderThan {keepDays : UInt32} (h : keepDays.toNat < 2147483648)
    (timestamp now : DateTime) : expired timestamp now (castSigned keepDays) =
      decide (OlderThan timestamp now keepDays.toNat) := by
  rw [castSigned_of_lt h]
  rfl

/-- A window that does not fit ends in the future. -/
theorem expired_of_not_fits {keepDays : UInt32} (h : 2147483648 ≤ keepDays.toNat)
    (now : DateTime) : expired now now (castSigned keepDays) = true := by
  have hsize : keepDays.toNat < 4294967296 := keepDays.toNat_lt
  rw [expired, makeInterval, castSigned_of_le h, decide_eq_true_iff]
  omega

end Sentinalysis.Db
