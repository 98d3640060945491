/-
# Sentinalysis.Hub.Timestamps — the timestamps that the hub accepts, over every wire value.

Points, lines and entries carry milliseconds since the epoch.  Three checks convert them and compare
the result with the clock; a value that the date library cannot represent is compared, and stored,
as the reading of the clock that took its place.
-/
import Sentinalysis.Hub.Metrics

namespace Sentinalysis.Hub

open Lib Db

/-- What is sent with a timestamp. -/
inductive Item
  | point (point : MetricPoint)
  | line (line : LogLine)
  | entry (parsed : ParsedLogEntry)

/-- The instant so many milliseconds after the epoch is no more than five minutes ahead of the clock
and thirty days behind it, in whole seconds. -/
def Within (ms : ℤ) (now : DateTime) : Prop :=
  (ms * 1000000 - now.nanos).tdiv 1000000000 ≤ 5 * 60 ∧
    -(ms * 1000000 - now.nanos).tdiv 1000000000 ≤ 30 * 24 * 3600

instance (ms : ℤ) (now : DateTime) : Decidable (Within ms now) :=
  inferInstanceAs (Decidable (_ ∧ _))

namespace Item

/-- The timestamp of the record that the item becomes when it carries these milliseconds. -/
def stored (hostname : String) (clock : Clock) (ms : ℤ) : Item → Except String DateTime
  | .point sample =>
    (validatePoint clock { sample with timestampMs := ms } hostname).map fun metric =>
      metric.timestamp
  | .line text =>
    (validateLogLine clock { text with timestampMs := ms } hostname).map fun record =>
      record.timestamp
  | .entry parsed =>
    (validateParsedEntry clock { parsed with timestampMs := ms } hostname).map fun ingest =>
      ingest.entry.timestamp

/-- The item passes its other checks: with some timestamp it is accepted. -/
def Acceptable (item : Item) (hostname : String) : Prop :=
  ∃ clock ms ts, item.stored hostname clock ms = .ok ts

/-- The window holds: an acceptable item passes exactly within it and is stored at its very instant,
and what cannot be represented is rejected. -/
structure Honest (item : Item) (hostname : String) (clock : Clock) (ms : ℤ) : Prop where
  passes_iff : (∃ ts, item.stored hostname clock ms = .ok ts) ↔
    item.Acceptable hostname ∧ Within ms clock.now
  instant : ∀ ts, item.stored hostname clock ms = .ok ts → ts.nanos = ms * 1000000
  rejected : DateTime.fromTimestampMillis ms = none →
    ∀ ts, item.stored hostname clock ms ≠ .ok ts

variable {item : Item} {hostname : String} {clock : Clock} {ms : ℤ} {ts : DateTime}

theorem map_eq_ok_iff {α β : Type} {f : α → β} {result : Except String α} {b : β} :
    result.map f = .ok b ↔ ∃ a, result = .ok a ∧ f a = b := by
  cases result <;> simp [Except.map]

/-- An accepted item passed the window, and is stored at what the window looked at. -/
theorem inWindow_of_stored (h : item.stored hostname clock ms = .ok ts) :
    Validate.InWindow (tsFromMs clock.fallback ms) clock.now ∧ tsFromMs clock.fallback ms = ts := by
  cases item with
  | point sample =>
    obtain ⟨metric, hvalid, rfl⟩ := map_eq_ok_iff.mp h
    obtain ⟨hformed, rfl⟩ := validatePoint_eq_ok.mp hvalid
    exact ⟨hformed.timestamp, rfl⟩
  | line text =>
    obtain ⟨record, hvalid, rfl⟩ := map_eq_ok_iff.mp h
    obtain ⟨hformed, rfl⟩ := validateLogLine_eq_ok.mp hvalid
    exact ⟨hformed.timestamp, rfl⟩
  | entry parsed =>
    obtain ⟨ingest, hvalid, rfl⟩ := map_eq_ok_iff.mp h
    obtain ⟨hformed, rfl⟩ := validateParsedEntry_eq_ok.mp hvalid
    exact ⟨hformed.timestamp, rfl⟩

/-- The other checks look at neither the timestamp nor the clock. -/
theorem stored_of_inWindow (h : item.Acceptable hostname)
    (hwindow : Validate.InWindow (tsFromMs clock.fallback ms) clock.now) :
    item.stored hostname clock ms = .ok (tsFromMs clock.fallback ms) := by
  obtain ⟨clock', ms', ts, hstored⟩ := h
  cases item with
  | point sample =>
    obtain ⟨metric, hvalid, -⟩ := map_eq_ok_iff.mp hstored
    obtain ⟨hformed, -⟩ := validatePoint_eq_ok.mp hvalid
    exact map_eq_ok_iff.mpr ⟨_, validatePoint_eq_ok.mpr
      ⟨⟨hwindow, hformed.cpuPercent, hformed.load1m, hformed.load5m⟩, rfl⟩, rfl⟩
  | line text =>
    obtain ⟨record, hvalid, -⟩ := map_eq_ok_iff.mp hstored
    obtain ⟨hformed, -⟩ := validateLogLine_eq_ok.mp hvalid
    exact map_eq_ok_iff.mpr ⟨_, validateLogLine_eq_ok.mpr
      ⟨⟨hformed.container, hformed.stream, hwindow⟩, rfl⟩, rfl⟩
  | entry parsed =>
    obtain ⟨ingest, hvalid, -⟩ := map_eq_ok_iff.mp hstored
    obtain ⟨hformed, -⟩ := validateParsedEntry_eq_ok.mp hvalid
    refine map_eq_ok_iff.mpr ⟨_, validateParsedEntry_eq_ok.mpr ⟨?_, rfl⟩, rfl⟩
    exact ⟨hwindow, hformed.level, hformed.threatLevel, hformed.categoryCount, hformed.categories,
      hformed.clientIp, hformed.requestPath, hformed.noiseReason, hformed.statusCode,
      hformed.responseTime, hformed.serviceName, hformed.unitType, hformed.virtualHost⟩

/-- **An item is accepted exactly when it is acceptable and passes the window**, as far as the
conversion goes. -/
theorem stored_eq_ok_iff : item.stored hostname clock ms = .ok ts ↔
    item.Acceptable hostname ∧ Validate.InWindow (tsFromMs clock.fallback ms) clock.now ∧
      tsFromMs clock.fallback ms = ts := by
  constructor
  · intro h
    exact ⟨⟨clock, ms, ts, h⟩, inWindow_of_stored h⟩
  · rintro ⟨hacceptable, hwindow, rfl⟩
    exact stored_of_inWindow hacceptable hwindow

/-! ## Values with an instant, and values without -/

/-- A value that can be represented is its instant. -/
theorem nanos_tsFromMs (h : (DateTime.fromTimestampMillis ms).isSome = true) (fallback : DateTime) :
    (tsFromMs fallback ms).nanos = ms * 1000000 := by
  obtain ⟨t, ht⟩ := Option.isSome_iff_exists.mp h
  rw [tsFromMs, ht, Option.getD_some]
  unfold DateTime.fromTimestampMillis at ht
  split at ht
  · obtain rfl := Option.some.inj ht
    rfl
  · cases ht

theorem inWindow_iff_within (h : (DateTime.fromTimestampMillis ms).isSome = true) :
    Validate.InWindow (tsFromMs clock.fallback ms) clock.now ↔ Within ms clock.now := by
  unfold Validate.InWindow DateTime.secondsSince
  rw [nanos_tsFromMs h]
  rfl

/-- A value that cannot is the clock's. -/
theorem tsFromMs_of_none (h : DateTime.fromTimestampMillis ms = none) (fallback : DateTime) :
    tsFromMs fallback ms = fallback := by
  rw [tsFromMs, h, Option.getD_none]

theorem honest_of_isSome (h : (DateTime.fromTimestampMillis ms).isSome = true) :
    item.Honest hostname clock ms where
  passes_iff := by
    simp only [stored_eq_ok_iff, inWindow_iff_within h, exists_and_left, exists_eq', and_true]
  instant ts hstored := by
    obtain ⟨-, -, rfl⟩ := stored_eq_ok_iff.mp hstored
    exact nanos_tsFromMs h _
  rejected hnone := by
    rw [hnone] at h
    cases h

/-- Without an instant, an acceptable item is accepted exactly when the clock's two readings are
within the window of each other. -/
theorem honest_iff_of_none (h : DateTime.fromTimestampMillis ms = none)
    (hacceptable : item.Acceptable hostname) :
    item.Honest hostname clock ms ↔
      ¬ Validate.InWindow clock.fallback clock.now ∧ ¬ Within ms clock.now := by
  have hstored : ∀ ts, item.stored hostname clock ms = .ok ts ↔
      Validate.InWindow clock.fallback clock.now ∧ clock.fallback = ts := by
    intro ts
    rw [stored_eq_ok_iff, tsFromMs_of_none h, and_iff_right hacceptable]
  constructor
  · intro hhonest
    -- it must be rejected, and so the reading that stands in for it is not within the window
    have hreject : ¬ Validate.InWindow clock.fallback clock.now :=
      fun hwindow => hhonest.rejected h _ ((hstored _).mpr ⟨hwindow, rfl⟩)
    refine ⟨hreject, fun hwithin => ?_⟩
    obtain ⟨ts, hts⟩ := hhonest.passes_iff.mpr ⟨hacceptable, hwithin⟩
    exact hreject ((hstored ts).mp hts).1
  · rintro ⟨hwindow, hwithin⟩
    refine ⟨⟨?_, ?_⟩, ?_, ?_⟩
    · rintro ⟨ts, hts⟩
      exact absurd ((hstored ts).mp hts).1 hwindow
    · rintro ⟨-, h⟩
      exact absurd h hwithin
    · exact fun ts hts => absurd ((hstored ts).mp hts).1 hwindow
    · exact fun _ ts hts => absurd ((hstored ts).mp hts).1 hwindow

/-- A line of a container. -/
def hello : Item := .line { timestampMs := 0, container := "app", stream := "stdout", message := "hi" }

theorem acceptable_hello (hostname : String) : hello.Acceptable hostname := by
  have hformed : LineWellFormed ⟨.epoch, .epoch⟩
      { timestampMs := 0, container := "app", stream := "stdout", message := "hi" } :=
    ⟨by decide, Or.inl rfl, by decide⟩
  exact ⟨⟨.epoch, .epoch⟩, 0, _, map_eq_ok_iff.mpr
    ⟨_, validateLogLine_eq_ok.mpr ⟨hformed, rfl⟩, rfl⟩⟩

/-- **The window holds exactly for the values with an instant**, and where neither the reading of
the clock that stands in for the value nor the value itself is within the window. -/
theorem honest_iff (clock : Clock) (ms : ℤ) :
    (∀ (item : Item) (hostname : String), item.Honest hostname clock ms) ↔
      (DateTime.fromTimestampMillis ms).isSome = true ∨
        (¬ Validate.InWindow clock.fallback clock.now ∧ ¬ Within ms clock.now) := by
  cases h : DateTime.fromTimestampMillis ms with
  | some t =>
    have hsome : (DateTime.fromTimestampMillis ms).isSome = true := by rw [h]; rfl
    exact iff_of_true (fun _ _ => honest_of_isSome hsome) (Or.inl rfl)
  | none =>
    rw [or_iff_right (by simp)]
    constructor
    · -- one acceptable item shows what the clock does
      intro hall
      exact (honest_iff_of_none h (acceptable_hello "")).mp (hall hello "")
    · intro hclock item hostname
      by_cases hacceptable : item.Acceptable hostname
      · exact (honest_iff_of_none h hacceptable).mpr hclock
      · -- an item that fails another check is rejected at any time
        have hnever : ∀ ts, item.stored hostname clock ms ≠ .ok ts :=
          fun ts hts => hacceptable ⟨clock, ms, ts, hts⟩
        refine ⟨⟨fun ⟨ts, hts⟩ => absurd hts (hnever ts), fun hboth => absurd hboth.1 hacceptable⟩,
          fun ts hts => absurd hts (hnever ts), fun _ => hnever⟩

/-- Not so the greatest value: a line of the year 292 million is accepted, and stored as of now. -/
theorem not_honest_maxI64 : ¬ hello.Honest "host" ⟨.epoch, .epoch⟩ (2 ^ 63 - 1) := by
  intro h
  have hstored : hello.stored "host" ⟨.epoch, .epoch⟩ (2 ^ 63 - 1) = .ok .epoch :=
    stored_of_inWindow (acceptable_hello "host") (by decide)
  exact absurd (h.instant _ hstored) (by decide)

end Item

end Sentinalysis.Hub
