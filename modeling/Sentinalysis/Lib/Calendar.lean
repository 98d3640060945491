/-
# Sentinalysis.Lib.Calendar — dates and times of day of the Gregorian calendar.

A civil time is a valid date and a time of day; it has a place on the line of seconds from the start
of 1970, and every second of the line is the one of a civil time.  The same day and time of another
year is at least 364 days away, if that year has the day.
-/
import Mathlib.Algebra.GroupWithZero.Nat
import Mathlib.Algebra.Order.Group.Unbundled.Int
import Mathlib.Algebra.Order.Group.Nat
import Mathlib.Data.List.Defs
import Sentinalysis.Lib.Chrono

namespace Sentinalysis.Lib

namespace Calendar

/-! ## Years and months -/

/-- A year with a 29 February. -/
def isLeap (year : ℤ) : Bool := year % 4 = 0 ∧ (year % 100 = 0 → year % 400 = 0)

/-- The lengths of the months. -/
def monthLengths (leap : Bool) : List ℕ :=
  [31, if leap then 29 else 28, 31, 30, 31, 30, 31, 31, 30, 31, 30, 31]

/-- The months are counted from January on. -/
abbrev Month := Fin 12

def daysInMonth (leap : Bool) (month : Month) : ℕ :=
  (monthLengths leap).get (month.cast (by cases leap <;> rfl))

theorem daysInMonth_le (leap : Bool) (month : Month) : daysInMonth leap month ≤ 31 := by
  revert leap month
  decide

/-- The days of a year before a month. -/
def daysBeforeMonth (leap : Bool) (month : Month) : ℕ := ((monthLengths leap).take month).sum

/-- The days from 1 January 1970 to the start of a year. -/
def daysBeforeYear (year : ℤ) : ℤ :=
  365 * (year - 1970) + ((year - 1) / 4 - 492) - ((year - 1) / 100 - 19) + ((year - 1) / 400 - 4)

def daysInYear (year : ℤ) : ℕ := if isLeap year then 366 else 365

theorem sum_monthLengths (leap : Bool) :
    (monthLengths leap).sum = if leap then 366 else 365 := by
  cases leap <;> rfl

theorem daysBeforeYear_succ (year : ℤ) :
    daysBeforeYear (year + 1) = daysBeforeYear year + daysInYear year := by
  unfold daysBeforeYear daysInYear isLeap
  split <;> rename_i h <;> simp only [decide_eq_true_eq] at h <;> omega

/-- Years are 365 days long at least. -/
theorem daysBeforeYear_add_le {year later : ℤ} (h : year ≤ later) :
    daysBeforeYear year + 365 * (later - year) ≤ daysBeforeYear later := by
  induction later, h using Int.leInduction with
  | base => omega
  | succ later _ ih =>
    have hsucc := daysBeforeYear_succ later
    have hyear : 365 ≤ daysInYear later := by
      unfold daysInYear
      split <;> omega
    omega

/-- The months of leap years begin a day later at most. -/
theorem daysBeforeMonth_le (leap leap' : Bool) (month : Month) :
    daysBeforeMonth leap month ≤ daysBeforeMonth leap' month + 1 := by
  revert leap leap' month
  decide

/-! ## Places in a row of lengths -/

/-- Which part of a row a place falls into, and where in it. -/
def locate : List ℕ → ℕ → ℕ × ℕ
  | [], n => (0, n)
  | length :: rest, n =>
    if n < length then (0, n)
    else ((locate rest (n - length)).1 + 1, (locate rest (n - length)).2)

/-- What is before the part, and the place in it, make up the place. -/
theorem locate_spec {lengths : List ℕ} {n : ℕ} (h : n < lengths.sum) :
    ∃ hpart : (locate lengths n).1 < lengths.length,
      (locate lengths n).2 < lengths[(locate lengths n).1] ∧
      (lengths.take (locate lengths n).1).sum + (locate lengths n).2 = n := by
  induction lengths generalizing n with
  | nil => exact absurd h (Nat.not_lt_zero n)
  | cons length rest ih =>
    rw [List.sum_cons] at h
    by_cases hlt : n < length
    · simp [locate, hlt]
    · obtain ⟨hpart, hplace, hsum⟩ := ih (n := n - length) (by omega)
      simp only [locate, if_neg hlt, List.length_cons, List.getElem_cons_succ, List.take_succ_cons,
        List.sum_cons]
      exact ⟨by omega, hplace, by omega⟩

/-! ## Dates -/

/-- A day of the calendar. -/
structure Date where
  year : ℤ
  month : Month
  day : ℕ
  day_pos : 1 ≤ day
  day_le : day ≤ daysInMonth (isLeap year) month
  deriving Repr

namespace Date

/-- The days from 1 January 1970. -/
def dayNumber (date : Date) : ℤ :=
  daysBeforeYear date.year + daysBeforeMonth (isLeap date.year) date.month + (date.day - 1)

end Date

/-- The year that a day falls into. -/
def yearOfDay (n : ℤ) : ℤ :=
  -- a year of the mean length hits the year or one next to it
  let year := 400 * (n + 719162) / 146097 + 1
  if n < daysBeforeYear year then year - 1
  else if daysBeforeYear (year + 1) ≤ n then year + 1
  else year

theorem yearOfDay_spec (n : ℤ) :
    daysBeforeYear (yearOfDay n) ≤ n ∧ n < daysBeforeYear (yearOfDay n + 1) := by
  unfold yearOfDay daysBeforeYear
  dsimp only
  split
  · omega
  · split <;> omega

/-- The day of the year. -/
def dayOfYear (n : ℤ) : ℕ := (n - daysBeforeYear (yearOfDay n)).toNat

theorem dayOfYear_spec (n : ℤ) : daysBeforeYear (yearOfDay n) + dayOfYear n = n ∧
    dayOfYear n < (monthLengths (isLeap (yearOfDay n))).sum := by
  obtain ⟨hle, hlt⟩ := yearOfDay_spec n
  rw [daysBeforeYear_succ] at hlt
  rw [sum_monthLengths]
  unfold daysInYear at hlt
  unfold dayOfYear
  exact ⟨by omega, by omega⟩

/-- The month and the day of it that a day of a year falls into. -/
def monthOfDay (leap : Bool) (n : ℕ) : ℕ × ℕ := locate (monthLengths leap) n

theorem monthOfDay_lt {leap : Bool} {n : ℕ} (h : n < (monthLengths leap).sum) :
    (monthOfDay leap n).1 < 12 := by
  obtain ⟨hpart, -⟩ := locate_spec h
  have hlength : (monthLengths leap).length = 12 := by cases leap <;> rfl
  rwa [hlength] at hpart

namespace Date

/-- The date of a day. -/
def ofDayNumber (n : ℤ) : Date where
  year := yearOfDay n
  month := ⟨(monthOfDay (isLeap (yearOfDay n)) (dayOfYear n)).1,
    monthOfDay_lt (dayOfYear_spec n).2⟩
  day := (monthOfDay (isLeap (yearOfDay n)) (dayOfYear n)).2 + 1
  day_pos := Nat.le_add_left 1 _
  day_le := by
    obtain ⟨hpart, hplace, -⟩ := locate_spec (dayOfYear_spec n).2
    exact hplace

/-- **Every day has a date.** -/
theorem dayNumber_ofDayNumber (n : ℤ) : (ofDayNumber n).dayNumber = n := by
  obtain ⟨hyear, hday⟩ := dayOfYear_spec n
  obtain ⟨-, -, hsum⟩ := locate_spec hday
  have hmonth : daysBeforeMonth (isLeap (yearOfDay n)) (ofDayNumber n).month
      + ((ofDayNumber n).day - 1) = dayOfYear n := hsum
  have hpos := (ofDayNumber n).day_pos
  unfold dayNumber
  change daysBeforeYear (yearOfDay n) + daysBeforeMonth (isLeap (yearOfDay n)) _ + _ = n
  omega

/-- The date of the same month and day in another year, if there is one. -/
def inYear (date : Date) (year : ℤ) : Option Date :=
  if h : date.day ≤ daysInMonth (isLeap year) date.month then
    some { date with year := year, day_le := h }
  else none

theorem inYear_self (date : Date) : date.inYear date.year = some date := by
  rw [inYear, dif_pos date.day_le]

/-- **The same day of another year** is at least 364 days away. -/
theorem dayNumber_inYear {date date' : Date} {year : ℤ} (h : date.inYear year = some date') :
    (date.year < year → date.dayNumber + 364 ≤ date'.dayNumber) ∧
    (year < date.year → date'.dayNumber + 364 ≤ date.dayNumber) := by
  unfold inYear at h
  split at h
  · obtain rfl := Option.some.inj h
    have hmonth := daysBeforeMonth_le (isLeap date.year) (isLeap year) date.month
    have hmonth' := daysBeforeMonth_le (isLeap year) (isLeap date.year) date.month
    unfold dayNumber
    dsimp only
    constructor
    · intro hlt
      have hyears := daysBeforeYear_add_le hlt.le
      omega
    · intro hlt
      have hyears := daysBeforeYear_add_le hlt.le
      omega
  · cases h

end Date

/-! ## Civil times -/

/-- A date and a time of day. -/
structure CivilTime where
  date : Date
  hour : ℕ
  minute : ℕ
  second : ℕ
  hour_lt : hour < 24
  minute_lt : minute < 60
  second_lt : second < 60
  deriving Repr

namespace CivilTime

/-- The seconds from the start of 1970 on. -/
def seconds (c : CivilTime) : ℤ :=
  c.date.dayNumber * 86400 + c.hour * 3600 + c.minute * 60 + c.second

/-- The civil time of a second. -/
def ofSeconds (n : ℤ) : CivilTime where
  date := .ofDayNumber (n / 86400)
  hour := (n % 86400).toNat / 3600
  minute := (n % 86400).toNat / 60 % 60
  second := (n % 86400).toNat % 60
  hour_lt := by omega
  minute_lt := by omega
  second_lt := by omega

/-- **Every second is the one of a civil time.** -/
theorem seconds_ofSeconds (n : ℤ) : (ofSeconds n).seconds = n := by
  unfold seconds
  change (Date.ofDayNumber (n / 86400)).dayNumber * 86400
    + (((n % 86400).toNat / 3600 : ℕ) : ℤ) * 3600
    + (((n % 86400).toNat / 60 % 60 : ℕ) : ℤ) * 60 + (((n % 86400).toNat % 60 : ℕ) : ℤ) = n
  rw [Date.dayNumber_ofDayNumber]
  omega

/-- The same time of another year, if it has the day. -/
def inYear (c : CivilTime) (year : ℤ) : Option CivilTime :=
  (c.date.inYear year).map fun date => { c with date := date }

/-- The instant of a civil time in UTC, if the date library has it. -/
def toUtc (c : CivilTime) : Option DateTime :=
  if h : -8334601228800 ≤ c.seconds ∧ c.seconds ≤ 8210266876799 then
    some ⟨c.seconds * 1000000000, by omega, by omega⟩
  else none

theorem toUtc_eq_some_iff {c : CivilTime} {t : DateTime} :
    c.toUtc = some t ↔ t.nanos = c.seconds * 1000000000 := by
  have hmin := t.min_le
  have hmax := t.le_max
  unfold toUtc
  constructor
  · intro h
    split at h
    · obtain rfl := Option.some.inj h
      rfl
    · cases h
  · intro h
    rw [dif_pos ⟨by omega, by omega⟩, Option.some.injEq]
    cases t
    exact (DateTime.mk.injEq ..).mpr h.symm

/-- **A year that is put in from elsewhere** gives the second of a time within a day of it exactly
when it is its own. -/
theorem seconds_inYear_iff {c c' : CivilTime} {year z : ℤ} (hz : -86400 < z ∧ z < 86400)
    (h : c.inYear year = some c') : c'.seconds = c.seconds - z ↔ year = c.date.year ∧ z = 0 := by
  obtain ⟨date, hdate, rfl⟩ := Option.map_eq_some_iff.mp h
  obtain ⟨hlater, hearlier⟩ := Date.dayNumber_inYear hdate
  constructor
  · intro hseconds
    unfold seconds at hseconds
    dsimp only at hseconds
    have hyear : year = c.date.year := by omega
    subst hyear
    rw [Date.inYear_self] at hdate
    obtain rfl := Option.some.inj hdate
    exact ⟨rfl, by omega⟩
  · rintro ⟨rfl, rfl⟩
    rw [Date.inYear_self] at hdate
    obtain rfl := Option.some.inj hdate
    exact (Int.sub_zero _).symm

theorem inYear_self (c : CivilTime) : c.inYear c.date.year = some c := by
  rw [inYear, Date.inYear_self]
  rfl

end CivilTime

/-! ## Writing a civil time -/

/-- `%b`. -/
def monthName (month : Month) : String :=
  ["Jan", "Feb", "Mar", "Apr", "May", "Jun", "Jul", "Aug", "Sep", "Oct", "Nov", "Dec"].get month

/-- A number with a filler before it, up to a width. -/
def padded (filler : Char) (width n : ℕ) : List Char :=
  (Nat.toDigits 10 n).leftpad width filler

/-- `%H:%M:%S`. -/
def CivilTime.clock (c : CivilTime) : List Char :=
  padded '0' 2 c.hour ++ ':' :: (padded '0' 2 c.minute ++ ':' :: padded '0' 2 c.second)

theorem monthName_spec (month : Month) : (monthName month).toList.length = 3 ∧
    ∀ x ∈ (monthName month).toList, 64 < x.toNat ∧ x.toNat < 127 ∧ x.isAlpha = true := by
  have hnames : ∀ m : Month, (monthName m).toList.length = 3 ∧ ((monthName m).toList.all fun x =>
      64 < x.toNat && x.toNat < 127 && x.isAlpha) = true := by
    decide
  obtain ⟨hlength, hletters⟩ := hnames month
  refine ⟨hlength, fun x hx => ?_⟩
  simpa [and_assoc] using List.all_eq_true.mp hletters x hx

/-- A number below a hundred has two digits at most. -/
theorem length_toDigits_le {n : ℕ} (h : n < 100) : (Nat.toDigits 10 n).length ≤ 2 :=
  (Nat.length_toDigits_le_iff (by decide) (by decide)).mpr h

theorem length_padded {filler : Char} {n : ℕ} (h : n < 100) : (padded filler 2 n).length = 2 := by
  have hlength := length_toDigits_le h
  rw [padded, List.length_leftpad]
  omega

theorem isDigit_of_mem_toDigits {n : ℕ} {c : Char} (h : c ∈ Nat.toDigits 10 n) :
    c.isDigit = true := Nat.isDigit_of_mem_toDigits (by decide) (by decide) h

/-- Zeros are digits. -/
theorem isDigit_of_mem_padded {width n : ℕ} {c : Char} (h : c ∈ padded '0' width n) :
    c.isDigit = true := by
  rcases List.mem_append.mp h with h | h
  · rw [(List.mem_replicate.mp h).2]
    decide
  · exact isDigit_of_mem_toDigits h

end Calendar

end Sentinalysis.Lib
