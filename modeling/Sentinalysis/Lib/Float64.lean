/-
# Sentinalysis.Lib.Float64 — doubles, by the fields of their bits.

They are told apart, stored, compared with zero and cast to integers; where the source computes with
them, it is with Lean's own doubles, which are the same.
-/
import Mathlib.Algebra.GroupWithZero.Nat
import Mathlib.Algebra.Order.Group.Unbundled.Int

namespace Sentinalysis.Lib

/-- A double: its sign, eleven bits of exponent and fifty-two of fraction. -/
structure Float64 where
  sign : Bool
  exponent : BitVec 11
  fraction : BitVec 52
  deriving DecidableEq, Repr

namespace Float64

/-- `0.0`. -/
def zero : Float64 := ⟨false, 0, 0⟩

/-- `is_finite`: neither an infinity nor a NaN. -/
def isFinite (x : Float64) : Bool := x.exponent ≠ BitVec.allOnes 11

def isNan (x : Float64) : Bool := x.exponent = BitVec.allOnes 11 ∧ x.fraction ≠ 0

/-- Zero has two signs. -/
def isZero (x : Float64) : Bool := x.exponent = 0 ∧ x.fraction = 0

/-- `x >= 0.0`; a NaN compares with nothing. -/
def nonneg (x : Float64) : Bool := ¬ x.isNan ∧ (x.sign = false ∨ x.isZero)

/-- Among the finite doubles only the sign matters. -/
theorem nonneg_iff_of_isFinite {x : Float64} (h : x.isFinite = true) :
    x.nonneg = true ↔ x.sign = false ∨ x.isZero = true := by
  have hnan : x.isNan = false := by
    rw [isFinite, decide_eq_true_eq] at h
    rw [isNan, decide_eq_false_iff_not]
    exact fun hboth => h hboth.1
  simp [nonneg, hnan]

/-- A finite double is its significand times a power of two. -/
def significand (x : Float64) : ℕ :=
  if x.exponent = 0 then x.fraction.toNat else 2 ^ 52 + x.fraction.toNat

/-- The power; that of an infinity is out of the range of everything. -/
def scale (x : Float64) : ℤ := (max x.exponent.toNat 1 : ℕ) - 1075

/-- `as i64`: towards zero, the nearest end for what is out of range, and zero for a NaN. -/
def toI64 (x : Float64) : ℤ :=
  if x.isNan then 0
  else
    let magnitude : ℤ := x.significand * 2 ^ x.scale.toNat / 2 ^ (-x.scale).toNat
    max (-2 ^ 63) (min (if x.sign then -magnitude else magnitude) (2 ^ 63 - 1))

/-- The same double among Lean's. -/
def toFloat (x : Float64) : Float :=
  .ofBits (.ofBitVec (BitVec.ofBool x.sign ++ x.exponent ++ x.fraction))

/-- The fields of one of Lean's doubles. -/
def ofFloat (x : Float) : Float64 where
  sign := x.toBits.toBitVec.getLsbD 63
  exponent := x.toBits.toBitVec.extractLsb' 52 11
  fraction := x.toBits.toBitVec.extractLsb' 0 52

end Float64

/-- 1.5 is one, and twice the largest number of a signed integer is that number. -/
example : (Float64.mk false 1023 (2 ^ 51)).toI64 = 1 ∧
    (Float64.mk false 1087 0).toI64 = 2 ^ 63 - 1 ∧ (Float64.mk true 1023 0).toI64 = -1 := by decide

end Sentinalysis.Lib
