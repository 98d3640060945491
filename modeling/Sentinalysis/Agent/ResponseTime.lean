/-
# Sentinalysis.Agent.ResponseTime — a response time on its way from the log line to the hub.

The line has a decimal number of seconds, the parsed entry unsigned milliseconds, the record signed
ones.  The parser saturates at the unsigned limit; the pipeline casts; the hub rejects a negative
number.  Between the two limits, and beyond them, the cast wraps.
-/
import Mathlib.Data.Rat.Floor
import Sentinalysis.Agent.Parity

namespace Sentinalysis.Agent

open Lib Db LogScanner

/-- The number of seconds that the parser reads at the end of a line. -/
def requestTime (crates : Externals) (line : String) : Option ℚ :=
  (((nginxCombinedRe crates.unicode).captures (trim line)).bind (·.name .requestTime)).bind
    Text.parseDecimal

section ResponseTime

variable {η ρ : Type} (crates : Externals) (p : Pipeline η ρ)

/-- The record comes from a line of the web server with this request time. -/
def Timed (rt : ℚ) (e : InsertLogEntry) : Prop :=
  ∃ now env st line st', p.parsers.forPath line.filePath = nginxAccessParser crates ∧
    requestTime crates line.line = some rt ∧
    p.processLine crates now env st line = (.ok (some e), st')

/-- The milliseconds of the record are those of the request time: rounded, saturated at the signed
limit, in the order of the request times, and no reason for the hub to reject the record. -/
structure Kept (rt : ℚ) (e : InsertLogEntry) (ms : ℤ) : Prop where
  inRange : 0 ≤ ms ∧ ms ≤ 2 ^ 63 - 1
  rounded : round (rt * 1000) ≤ 2 ^ 63 - 1 → ms = round (rt * 1000)
  saturated : 2 ^ 63 - 1 < round (rt * 1000) → ms = 2 ^ 63 - 1
  monotone : ∀ rt' e' ms', Timed crates p rt' e' → ms' ∈ e'.responseTimeMs → rt' ≤ rt → ms' ≤ ms
  notRejected : ∀ clock hostname resolver,
    (∃ ingest, Hub.validateParsedEntry clock
      { entryToProto e resolver with responseTimeMs := none } hostname = .ok ingest) →
    ∃ ingest, Hub.validateParsedEntry clock (entryToProto e resolver) hostname = .ok ingest

/-! ## Three representations -/

theorem parseDecimal_nonneg {s : String} {rt : ℚ} (h : Text.parseDecimal s = some rt) : 0 ≤ rt := by
  obtain ⟨n, hdigits, rfl⟩ := Option.map_eq_some_iff.mp h
  obtain ⟨k, -, hcast⟩ := Option.bind_eq_some_iff.mp hdigits
  obtain rfl := Option.some.inj hcast
  positivity

theorem requestTime_nonneg {crates : Externals} {line : String} {rt : ℚ}
    (h : requestTime crates line = some rt) : 0 ≤ rt := by
  obtain ⟨_, -, hdecimal⟩ := Option.bind_eq_some_iff.mp h
  exact parseDecimal_nonneg hdecimal

/-- The parser saturates at the unsigned limit. -/
theorem requestTimeMillis_toNat {rt : ℚ} (h : 0 ≤ rt) :
    ((requestTimeMillis rt).toNat : ℤ) = min (round (rt * 1000)) (2 ^ 64 - 1) := by
  have hround : (rt * 1000 + 1 / 2).floor = round (rt * 1000) := by
    rw [round_eq]
    rfl
  have hnonneg : 0 ≤ round (rt * 1000) := by
    rw [round_eq]
    exact Int.floor_nonneg.mpr (by positivity)
  unfold requestTimeMillis
  rw [hround]
  dsimp only
  split
  · next hfits =>
    rw [UInt64.toNat_ofNat_of_lt' (show _ < 2 ^ 64 by omega)]
    omega
  · next hbig =>
    rw [UInt64.toNat_ofNat_of_lt' (by decide)]
    omega

/-- What the record has of a request time. -/
def storedMillis (rt : ℚ) : ℤ := asSigned 64 (requestTimeMillis rt).toNat

/-- Below the signed limit the cast keeps the milliseconds. -/
theorem storedMillis_of_lt {rt : ℚ} (h : 0 ≤ rt) (hlt : round (rt * 1000) < 2 ^ 63) :
    storedMillis rt = round (rt * 1000) := by
  have hmillis := requestTimeMillis_toNat h
  rw [storedMillis, asSigned_toNat64]
  split <;> omega

/-- From the signed limit on it makes them negative. -/
theorem storedMillis_neg {rt : ℚ} (h : 0 ≤ rt) (hle : 2 ^ 63 ≤ round (rt * 1000)) :
    storedMillis rt < 0 := by
  have hmillis := requestTimeMillis_toNat h
  rw [storedMillis, asSigned_toNat64]
  split <;> omega

theorem round_millis_lt_iff (rt : ℚ) :
    round (rt * 1000) < 2 ^ 63 ↔ rt < (2 ^ 63 - 1 / 2) / 1000 := by
  rw [round_eq, Int.floor_lt, lt_div_iff₀ (by norm_num)]
  push_cast
  constructor <;> intro h <;> linarith

/-! ## Through the parser and the pipeline -/

/-- An entry has its response time from the last group. -/
theorem responseTime_of_nginxParse {crates : Externals} {line : String} {entry : ParsedLogEntry}
    (h : nginxParse crates line = .ok (some entry)) :
    entry.metadata.responseTimeMs = (requestTime crates line).map requestTimeMillis := by
  obtain ⟨groups, hcaptures, hentry⟩ := nginxParseTrimmed_fromGroups h
  rw [hentry.responseTimeMs, requestTime, hcaptures, Option.bind_some]

variable {crates p} {rt : ℚ} {e : InsertLogEntry}

theorem Timed.nonneg (h : Timed crates p rt e) : 0 ≤ rt := by
  obtain ⟨-, -, -, line, -, -, htime, -⟩ := h
  exact requestTime_nonneg htime

theorem Timed.responseTimeMs (h : Timed crates p rt e) :
    e.responseTimeMs = some (storedMillis rt) := by
  obtain ⟨now, env, st, line, st', hparser, htime, hprocess⟩ := h
  obtain ⟨entry, hparse, -, rfl⟩ := Pipeline.processLine_eq_some_iff.mp hprocess
  rw [Pipeline.parseLine, hparser] at hparse
  have hmillis := responseTime_of_nginxParse hparse
  rw [htime, Option.map_some] at hmillis
  show entry.metadata.responseTimeMs.map _ = _
  rw [hmillis]
  rfl

/-- A time that is not negative is no reason to reject an entry. -/
theorem validateParsedEntry_of_nonneg {clock : Hub.Clock} {parsed : Hub.ParsedLogEntry}
    {hostname : String} (hnonneg : ∀ ms ∈ parsed.responseTimeMs, 0 ≤ ms)
    (h : ∃ ingest, Hub.validateParsedEntry clock { parsed with responseTimeMs := none } hostname
      = .ok ingest) :
    ∃ ingest, Hub.validateParsedEntry clock parsed hostname = .ok ingest := by
  obtain ⟨_, hok⟩ := h
  have hwell := (Hub.validateParsedEntry_eq_ok.mp hok).1
  exact ⟨_, Hub.validateParsedEntry_eq_ok.mpr ⟨{ hwell with responseTime := hnonneg }, rfl⟩⟩

/-! ## When a response time is kept -/

/-- **The milliseconds of a record are those of the request time exactly when they are below the
signed limit.** -/
theorem Timed.kept_iff (h : Timed crates p rt e) :
    (∃ ms ∈ e.responseTimeMs, Kept crates p rt e ms) ↔ rt < (2 ^ 63 - 1 / 2) / 1000 := by
  rw [← round_millis_lt_iff]
  constructor
  · rintro ⟨ms, hms, hkept⟩
    rw [h.responseTimeMs] at hms
    obtain rfl := Option.some.inj hms
    by_contra hbig
    -- where the cast wraps, the range is lost already
    have hneg := storedMillis_neg h.nonneg (not_lt.mp hbig)
    exact absurd hkept.inRange.1 (not_le.mpr hneg)
  · intro hlt
    have hstored := storedMillis_of_lt h.nonneg hlt
    have hnonneg : 0 ≤ storedMillis rt := by
      rw [hstored, round_eq]
      exact Int.floor_nonneg.mpr (by linarith [h.nonneg])
    refine ⟨_, h.responseTimeMs, ?_⟩
    exact
      { inRange := ⟨hnonneg, by omega⟩
        rounded := fun _ => hstored
        saturated := fun hbig => by omega
        monotone := by
          intro rt' e' ms' h' hms' hle
          rw [h'.responseTimeMs] at hms'
          obtain rfl := Option.some.inj hms'
          -- the shorter time is below the limit as well, so that neither of the two wraps
          have hround : round (rt' * 1000) ≤ round (rt * 1000) := by
            rw [round_eq, round_eq]
            exact Int.floor_le_floor (by linarith)
          rw [storedMillis_of_lt h'.nonneg (hround.trans_lt hlt), hstored]
          exact hround
        notRejected := by
          intro clock hostname resolver hpasses
          refine validateParsedEntry_of_nonneg (fun ms hms => ?_) hpasses
          rw [show (entryToProto e resolver).responseTimeMs = e.responseTimeMs from rfl,
            h.responseTimeMs] at hms
          obtain rfl := Option.some.inj hms
          exact hnonneg }

end ResponseTime

/-- A line that ends in a virtual host and a request time. -/
def timedLine (time : String) : TailLine where
  filePath := shopLog
  line := "192.0.2.7 - - [01/Jan/2025:00:00:00 +0000] \"GET / HTTP/1.1\" 200 12 "
    ++ "\"-\" \"-\" \"shop.example\" " ++ time
  byteOffset := 0

/-- Such a line becomes a record when it parses. -/
theorem processed_timedLine (time : String)
    (hparse : (nginxParse newYearCrates (timedLine time).line).toOption.join.isSome = true) :
    ∃ e, (Pipeline.build newYearCrates .default givenIds).processLine newYearCrates newYear (some 7)
      () (timedLine time) = (.ok (some e), ()) := by
  obtain ⟨entry, hentry⟩ := Option.isSome_iff_exists.mp hparse
  exact ⟨_, (processed_of_parse rfl (toOption_join_eq_some.mp hentry)).2⟩

/-- A quarter of a second. -/
theorem kept_quarter : ∃ e,
    (Pipeline.build newYearCrates .default givenIds).processLine newYearCrates newYear (some 7)
      () (timedLine "0.250") = (.ok (some e), ()) ∧
    ∃ ms ∈ e.responseTimeMs,
      Kept newYearCrates (Pipeline.build newYearCrates .default givenIds) (1 / 4) e ms := by
  obtain ⟨e, hprocess⟩ := processed_timedLine "0.250" (by decide +kernel)
  have htimed : Timed newYearCrates (Pipeline.build newYearCrates .default givenIds) (1 / 4) e :=
    ⟨newYear, some 7, (), _, (), rfl, by decide +kernel, hprocess⟩
  exact ⟨e, hprocess, htimed.kept_iff.mpr (by norm_num)⟩

/-- Ten quadrillion seconds, between the two limits. -/
theorem not_kept_tenQuadrillion : ∃ e,
    (Pipeline.build newYearCrates .default givenIds).processLine newYearCrates newYear (some 7)
      () (timedLine "10000000000000000") = (.ok (some e), ()) ∧
    requestTime newYearCrates (timedLine "10000000000000000").line = some (10 ^ 16) ∧
    e.responseTimeMs = some (-8446744073709551616) ∧
    ¬ ∃ ms ∈ e.responseTimeMs,
      Kept newYearCrates (Pipeline.build newYearCrates .default givenIds) (10 ^ 16) e ms := by
  obtain ⟨e, hprocess⟩ := processed_timedLine "10000000000000000" (by decide +kernel)
  have htime : requestTime newYearCrates (timedLine "10000000000000000").line = some (10 ^ 16) := by
    decide +kernel
  have htimed : Timed newYearCrates (Pipeline.build newYearCrates .default givenIds) (10 ^ 16) e :=
    ⟨newYear, some 7, (), _, (), rfl, htime, hprocess⟩
  have hmillis : e.responseTimeMs = some (-8446744073709551616) := by
    rw [htimed.responseTimeMs]
    decide +kernel
  refine ⟨e, hprocess, htime, hmillis, ?_⟩
  rintro ⟨ms, hms, hkept⟩
  rw [hmillis] at hms
  obtain rfl := Option.some.inj hms
  exact absurd hkept.inRange.1 (by decide)

end Sentinalysis.Agent
