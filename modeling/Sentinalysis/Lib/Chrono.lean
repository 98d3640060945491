/-
# Sentinalysis.Lib.Chrono — instants, and the text formats they are read from.

An instant is its distance from the Unix epoch in nanoseconds; a leap second is the first second
of the next minute.  The date library has instants from the start of the year -262143 to the end of
the year 262142 only, and a value out of that range cannot be built.  Reading an instant from text,
and the calendar, belong to the date library; they are the fields of `Chrono`.
-/
import Mathlib.Algebra.Order.Group.Unbundled.Int
import Mathlib.Tactic.LinearCombination

namespace Sentinalysis.Lib

/-- `DateTime<Utc>`. -/
structure DateTime where
  nanos : ℤ
  min_le : -8334601228800000 * 1000000 ≤ nanos
  le_max : nanos ≤ 8210266876799999 * 1000000 + 999999
  deriving DecidableEq, Repr

namespace DateTime

/-- 1 January 1970, 00:00:00 UTC. -/
def epoch : DateTime := ⟨0, by decide, by decide⟩

/-- `timestamp_millis`: whole milliseconds, rounded down. -/
def timestampMillis (t : DateTime) : ℤ := t.nanos / 1000000

/-- `Utc.timestamp_millis_opt(ms).single()`. -/
def fromTimestampMillis (ms : ℤ) : Option DateTime :=
  if h : -8334601228800000 ≤ ms ∧ ms ≤ 8210266876799999 then
    some ⟨ms * 1000000, by omega, by omega⟩
  else none

/-- `(a - b).num_seconds()`: whole seconds, towards zero. -/
def secondsSince (a b : DateTime) : ℤ := (a.nanos - b.nanos).tdiv 1000000000

/-- The instant without what is below a millisecond. -/
def truncMillis (t : DateTime) : DateTime where
  nanos := t.timestampMillis * 1000000
  min_le := by have := t.min_le; unfold timestampMillis; omega
  le_max := by have := t.le_max; unfold timestampMillis; omega

/-- An instant comes back from its milliseconds without what is below one. -/
theorem fromTimestampMillis_timestampMillis (t : DateTime) :
    fromTimestampMillis t.timestampMillis = some t.truncMillis := by
  have hmin := t.min_le
  have hmax := t.le_max
  have hrange : -8334601228800000 ≤ t.timestampMillis ∧ t.timestampMillis ≤ 8210266876799999 := by
    unfold timestampMillis
    omega
  rw [fromTimestampMillis, dif_pos hrange]
  rfl

@[simp] theorem timestampMillis_truncMillis (t : DateTime) :
    t.truncMillis.timestampMillis = t.timestampMillis :=
  Int.mul_ediv_cancel _ (by decide)

theorem nanos_injective : Function.Injective nanos := fun a b h => by
  cases a
  cases b
  simpa using h

/-- Instants are in order of time. -/
instance : LinearOrder DateTime where
  le a b := a.nanos ≤ b.nanos
  lt a b := a.nanos < b.nanos
  le_refl a := le_refl a.nanos
  le_trans _ _ _ := le_trans (α := ℤ)
  lt_iff_le_not_ge _ _ := lt_iff_le_not_ge (α := ℤ)
  le_antisymm _ _ hab hba := nanos_injective (le_antisymm hab hba)
  le_total a b := le_total a.nanos b.nanos
  toDecidableLE a b := inferInstanceAs (Decidable (a.nanos ≤ b.nanos))
  toDecidableLT a b := inferInstanceAs (Decidable (a.nanos < b.nanos))
  toDecidableEq := inferInstance

theorem lt_iff {a b : DateTime} : a < b ↔ a.nanos < b.nanos := Iff.rfl

/-! ## Parts of a day -/

/-- The last multiple of a number of seconds; the first instant there is begins a day. -/
def floorTo (t : DateTime) (secs : ℕ) (hpos : 0 < secs) (hday : secs ∣ 86400) : DateTime where
  nanos := t.nanos / (secs * 1000000000) * (secs * 1000000000)
  min_le := by
    obtain ⟨parts, hparts⟩ := hday
    have hmin : -8334601228800000 * 1000000 = -(96465292 * parts) * (secs * 1000000000 : ℤ) := by
      have hcast : (86400 : ℤ) = secs * parts := by exact_mod_cast hparts
      linear_combination -(96465292 * 1000000000) * hcast
    rw [hmin]
    refine Int.mul_le_mul_of_nonneg_right ?_ (by omega)
    rw [Int.le_ediv_iff_mul_le (by omega), ← hmin]
    exact t.min_le
  le_max := (Int.ediv_mul_le _ (by omega)).trans t.le_max

end DateTime

/-- What the date library computes. -/
structure Chrono where
  /-- `DateTime::<FixedOffset>::parse_from_str`, in UTC, of a text and a format. -/
  parseFromStr : String → String → Option DateTime
  /-- `DateTime::parse_from_rfc3339`, in UTC. -/
  parseFromRfc3339 : String → Option DateTime
  /-- `NaiveDateTime::parse_from_str` of a text and a format, taken as UTC. -/
  naiveParseFromStr : String → String → Option DateTime
  /-- `Datelike::year`. -/
  year : DateTime → ℤ

end Sentinalysis.Lib
