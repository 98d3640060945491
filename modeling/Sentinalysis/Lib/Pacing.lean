/-
# Sentinalysis.Lib.Pacing — cells that come from timers, and when a quota lets all of them past.

A timer has a period, and its cells are at least that far apart.  Several timers together stay
within a quota when there are not more of them than the burst and their rates add up to at most that
of the quota.  Both conditions are exact: timers that tick together from the start on exceed the
quota at once if there are too many, and sooner or later if they are too fast.
-/
import Mathlib.Algebra.BigOperators.Group.List.Basic
import Mathlib.Algebra.Order.Archimedean.Basic
import Mathlib.Algebra.Order.Field.Rat
import Mathlib.Algebra.Order.Floor.Semifield
import Mathlib.Data.Rat.Floor
import Mathlib.Tactic.FieldSimp
import Mathlib.Tactic.Linarith
import Sentinalysis.Lib.Gcra

namespace Sentinalysis.Lib

/-- Cells that are at least a period apart. -/
def Spaced (period : ℕ) (times : List ℕ) : Prop := times.Pairwise fun a b => a + period ≤ b

namespace Spaced

variable {period start length : ℕ} {times : List ℕ}

theorem sublist {fewer : List ℕ} (h : Spaced period times) (hfewer : fewer.Sublist times) :
    Spaced period fewer := List.Pairwise.sublist hfewer h

/-- In a stretch of time there is room for one cell, and one more for each period.  The induction is
on the cells: what comes after the first is in a stretch that is shorter by a period. -/
theorem length_mul_le (h : Spaced period times)
    (hwindow : ∀ t ∈ times, start ≤ t ∧ t ≤ start + length) :
    times.length * period ≤ length + period := by
  induction times generalizing start length with
  | nil => simp
  | cons first rest ih =>
    obtain ⟨hfirst, hrest⟩ := List.pairwise_cons.mp h
    rw [List.forall_mem_cons] at hwindow
    rw [List.length_cons, Nat.succ_mul]
    cases rest with
    | nil => simp
    | cons second rest =>
      have hsecond := hfirst second List.mem_cons_self
      have hlast := (hwindow.2 second List.mem_cons_self).2
      have hshort : (second :: rest).length * period ≤
          (start + length - (first + period)) + period := ih hrest fun t ht =>
        ⟨hfirst t ht, by have := (hwindow.2 t ht).2; omega⟩
      omega

theorem countP_mul_le (h : Spaced period times) (start length : ℕ) :
    times.countP (fun t => start ≤ t ∧ t ≤ start + length) * period ≤ length + period := by
  rw [List.countP_eq_length_filter]
  exact (h.sublist List.filter_sublist).length_mul_le
    fun t ht => of_decide_eq_true (List.mem_filter.mp ht).2

end Spaced

namespace Quota

variable {q : Quota}

/-- How much of the rate of a quota timers with these periods take. -/
def load (q : Quota) (periods : List ℕ) : ℚ :=
  (periods.map fun period : ℕ => (q.interval : ℚ) / period).sum

/-- The cells of one timer in a stretch of time, as a share of the quota. -/
theorem countP_mul_interval_le {period : ℕ} {times : List ℕ} (hpos : 0 < period)
    (h : Spaced period times) (start length : ℕ) :
    (times.countP (fun t => start ≤ t ∧ t ≤ start + length) : ℚ) * q.interval ≤
      length * (q.interval / period) + q.interval := by
  have hcount : ((times.countP fun t => start ≤ t ∧ t ≤ start + length : ℕ) : ℚ) * period ≤
      length + period := by exact_mod_cast h.countP_mul_le start length
  have hperiod : (0 : ℚ) < period := by exact_mod_cast hpos
  have hshare := mul_le_mul_of_nonneg_right hcount
    (div_nonneg (Nat.cast_nonneg q.interval) hperiod.le)
  field_simp at hshare ⊢
  linarith

end Quota

/-! ## Several timers -/

section Paced

variable {τ : Type} {period : τ → ℕ} {timers : List τ} {cells : List (τ × ℕ)} {q : Quota}

/-- The cells of timers: those of one timer are its period apart. -/
structure Paced (period : τ → ℕ) (timers : List τ) (cells : List (τ × ℕ)) : Prop where
  timers : ∀ cell ∈ cells, cell.1 ∈ timers
  spaced : cells.Pairwise fun a b => a.1 = b.1 → a.2 + period a.1 ≤ b.2

/-- The cells of timers in a stretch of time, as a share of the quota.  The induction is on the
timers: the cells of the first are set apart from those of the others. -/
theorem Paced.countP_mul_interval_le [DecidableEq τ] (h : Paced period timers cells)
    (hpos : ∀ timer ∈ timers, 0 < period timer) (start length : ℕ) :
    (cells.countP (fun cell => start ≤ cell.2 ∧ cell.2 ≤ start + length) : ℚ) * q.interval ≤
      length * q.load (timers.map period) + timers.length * q.interval := by
  induction timers generalizing cells with
  | nil =>
    have hnone : cells = [] := List.eq_nil_iff_forall_not_mem.mpr fun cell hcell => by
      have := h.timers cell hcell
      simp at this
    simp [hnone, Quota.load]
  | cons timer timers ih =>
    rw [List.forall_mem_cons] at hpos
    have hown : Spaced (period timer) ((cells.filter (·.1 = timer)).map Prod.snd) := by
      rw [Spaced, List.pairwise_map, List.pairwise_filter]
      refine h.spaced.imp fun hgap ha hb => ?_
      rw [decide_eq_true_eq] at ha hb
      rw [← ha]
      exact hgap (ha.trans hb.symm)
    have hothers : Paced period timers (cells.filter fun cell => ¬ cell.1 = timer) := by
      refine ⟨fun cell hcell => ?_, h.spaced.sublist List.filter_sublist⟩
      obtain ⟨hmem, hne⟩ := List.mem_filter.mp hcell
      exact (List.mem_cons.mp (h.timers cell hmem)).resolve_left (of_decide_eq_true hne)
    have hfirst := Quota.countP_mul_interval_le (q := q) hpos.1 hown start length
    have hrest := ih hothers hpos.2
    rw [List.countP_map] at hfirst
    rw [List.countP_eq_countP_filter_add cells _ (·.1 = timer), List.map_cons, Quota.load,
      List.map_cons, List.sum_cons, List.length_cons]
    rw [Quota.load] at hrest
    simp only [Function.comp_def, decide_not] at hfirst hrest ⊢
    push_cast
    linarith

/-- **Timers within the rate are let past**, however they tick. -/
theorem Paced.within [DecidableEq τ] (h : Paced period timers cells)
    (hpos : ∀ timer ∈ timers, 0 < period timer) (hfew : timers.length ≤ q.burst)
    (hload : q.load (timers.map period) ≤ 1) : q.Within (cells.map Prod.snd) := by
  intro start length
  have hall := h.countP_mul_interval_le (q := q) hpos start length
  have hlength : (length : ℚ) * q.load (timers.map period) ≤ length :=
    mul_le_of_le_one_right (Nat.cast_nonneg length) hload
  have hburst : (timers.length : ℚ) * q.interval ≤ q.burst * q.interval :=
    mul_le_mul_of_nonneg_right (by exact_mod_cast hfew) (Nat.cast_nonneg _)
  have hsum := hall.trans (add_le_add hlength hburst)
  rw [List.countP_map]
  exact_mod_cast hsum

end Paced

/-! ## Timers that tick together -/

/-- The ticks of timers up to a time: each timer at all multiples of its period. -/
def ticks {τ : Type} (period : τ → ℕ) (timers : List τ) (n : ℕ) : List (τ × ℕ) :=
  (List.range (n + 1)).flatMap fun t => (timers.filter (period · ∣ t)).map (·, t)

section Ticks

variable {τ : Type} {period : τ → ℕ} {timers : List τ} {n : ℕ} {q : Quota}

theorem mem_ticks {tick : τ × ℕ} : tick ∈ ticks period timers n ↔
    tick.2 ≤ n ∧ tick.1 ∈ timers ∧ period tick.1 ∣ tick.2 := by
  obtain ⟨timer, t⟩ := tick
  simp only [ticks, List.mem_flatMap, List.mem_range, List.mem_map, List.mem_filter,
    decide_eq_true_eq, Prod.mk.injEq]
  constructor
  · rintro ⟨_, hlt, _, ⟨htimer, hdvd⟩, rfl, rfl⟩
    exact ⟨Nat.le_of_lt_succ hlt, htimer, hdvd⟩
  · rintro ⟨hle, htimer, hdvd⟩
    exact ⟨t, Nat.lt_succ_of_le hle, timer, ⟨htimer, hdvd⟩, rfl, rfl⟩

theorem pairwise_ticks : (ticks period timers n).Pairwise fun a b => a.2 ≤ b.2 := by
  rw [ticks, List.pairwise_flatMap]
  refine ⟨fun t _ => ?_, List.pairwise_lt_range.imp fun hlt a ha b hb => ?_⟩
  · rw [List.pairwise_map]
    exact List.pairwise_of_forall fun _ _ => le_rfl
  · obtain ⟨_, -, rfl⟩ := List.mem_map.mp ha
    obtain ⟨_, -, rfl⟩ := List.mem_map.mp hb
    exact hlt.le

theorem paced_ticks (htimers : timers.Nodup) (n : ℕ) :
    Paced period timers (ticks period timers n) := by
  refine ⟨fun tick htick => (mem_ticks.mp htick).2.1, ?_⟩
  rw [ticks, List.pairwise_flatMap]
  refine ⟨fun t _ => ?_, List.pairwise_lt_range.imp fun {t t'} hlt a ha b hb hsame => ?_⟩
  · rw [List.pairwise_map]
    exact (htimers.filter _).imp fun hne heq => absurd heq hne
  · obtain ⟨timer, htimer, rfl⟩ := List.mem_map.mp ha
    obtain ⟨timer', htimer', rfl⟩ := List.mem_map.mp hb
    obtain rfl : timer = timer' := hsame
    have hdvd := of_decide_eq_true (List.mem_filter.mp htimer).2
    have hdvd' := of_decide_eq_true (List.mem_filter.mp htimer').2
    have hgap := Nat.le_of_dvd (Nat.sub_pos_of_lt hlt) (Nat.dvd_sub hdvd' hdvd)
    show t + period timer ≤ t'
    omega

/-- Up to a time each timer has ticked once, and once more for each period. -/
theorem length_ticks (period : τ → ℕ) (timers : List τ) (n : ℕ) :
    (ticks period timers n).length = (timers.map fun timer => n / period timer + 1).sum := by
  induction n with
  | zero => simp [ticks]
  | succ n ih =>
    have hmore : (ticks period timers (n + 1)).length =
        (ticks period timers n).length + timers.countP (period · ∣ n + 1) := by
      rw [ticks, List.range_succ, List.flatMap_append, List.length_append, List.flatMap_singleton,
        List.length_map, ← List.countP_eq_length_filter]
      rfl
    rw [hmore, ih]
    clear ih hmore
    induction timers with
    | nil => rfl
    | cons timer timers ih =>
      rw [List.map_cons, List.sum_cons, List.map_cons, List.sum_cons, ← ih, List.countP_cons,
        Nat.succ_div]
      simp only [decide_eq_true_eq]
      omega

/-- The ticks up to a time, as a share of the quota. -/
theorem load_le_length_ticks (hpos : ∀ timer ∈ timers, 0 < period timer) (n : ℕ) :
    n * q.load (timers.map period) ≤ (ticks period timers n).length * q.interval := by
  rw [length_ticks, Quota.load]
  induction timers with
  | nil => simp
  | cons timer timers ih =>
    rw [List.forall_mem_cons] at hpos
    have hperiod : (0 : ℚ) < period timer := by exact_mod_cast hpos.1
    have hfloor : (n : ℚ) / period timer ≤ (n / period timer + 1 : ℕ) := by
      have hlt := Nat.lt_floor_add_one ((n : ℚ) / period timer)
      rw [Nat.floor_div_eq_div] at hlt
      exact_mod_cast hlt.le
    have hshare := mul_le_mul_of_nonneg_right hfloor (Nat.cast_nonneg (α := ℚ) q.interval)
    have hfirst : (n : ℚ) * (q.interval / period timer) = n / period timer * q.interval := by
      field_simp
    simp only [List.map_cons, List.sum_cons]
    rw [mul_add, hfirst, Nat.cast_add, add_mul]
    exact add_le_add hshare (ih hpos.2)

/-- **Timers over the rate exceed the quota** sooner or later. -/
theorem exists_not_within_ticks (hpos : ∀ timer ∈ timers, 0 < period timer)
    (hload : 1 < q.load (timers.map period)) :
    ∃ n, ¬ q.Within ((ticks period timers n).map Prod.snd) := by
  obtain ⟨n, hn⟩ := exists_nat_gt
    ((q.burst * q.interval : ℚ) / (q.load (timers.map period) - 1))
  rw [div_lt_iff₀ (sub_pos.mpr hload)] at hn
  refine ⟨n, fun hwithin => ?_⟩
  -- all ticks are in the stretch from the start on
  have hall := hwithin 0 n
  rw [List.countP_map, List.countP_eq_length.mpr ?_] at hall
  · have hlength : ((ticks period timers n).length : ℚ) * q.interval ≤
        n + q.burst * q.interval := by exact_mod_cast hall
    have := (load_le_length_ticks (q := q) hpos n).trans hlength
    linarith
  · intro tick htick
    simpa using (mem_ticks.mp htick).1

/-- More timers than the burst exceed the quota at their first tick. -/
theorem not_within_ticks_zero (hinterval : 0 < q.interval) (hmany : q.burst < timers.length) :
    ¬ q.Within ((ticks period timers 0).map Prod.snd) := by
  intro hwithin
  have hall := hwithin 0 0
  rw [List.countP_map, List.countP_eq_length.mpr ?_, length_ticks] at hall
  · have hmore := Nat.mul_lt_mul_of_pos_right hmany hinterval
    simp at hall
    omega
  · intro tick htick
    simpa using (mem_ticks.mp htick).1

/-- **A quota lets timers past exactly when there are not more of them than the burst, and their
rates add up to not more than that of the quota.** -/
theorem Quota.forall_paced_within_iff [DecidableEq τ] (hinterval : 0 < q.interval)
    (htimers : timers.Nodup) (hpos : ∀ timer ∈ timers, 0 < period timer) :
    (∀ cells, Paced period timers cells → cells.Pairwise (fun a b => a.2 ≤ b.2) →
      q.Within (cells.map Prod.snd)) ↔
      q.load (timers.map period) ≤ 1 ∧ timers.length ≤ q.burst := by
  constructor
  · intro h
    have hticks := fun n => h _ (paced_ticks htimers n) pairwise_ticks
    constructor
    · by_contra hload
      obtain ⟨n, hn⟩ := exists_not_within_ticks hpos (not_le.mp hload)
      exact hn (hticks n)
    · by_contra hmany
      exact not_within_ticks_zero hinterval (not_le.mp hmany) (hticks 0)
  · rintro ⟨hload, hfew⟩ cells hpaced -
    exact hpaced.within hpos hfew hload

end Ticks

end Sentinalysis.Lib
