/-
# Sentinalysis.Lib.Gcra — the generic cell rate algorithm, and what it lets past.

A limiter remembers one instant for each key, the theoretical arrival time: when the cells that it
let past so far would have arrived had they come one interval after the other.  A cell is let past
unless it comes too long before that.  The two ways of saying what a quota is are compared here: by
the algorithm, cell by cell, and by counting the cells in every stretch of time.

The main results are `within_append_singleton`, that the algorithm lets a cell past exactly when the
counts allow it, and `Limiter.Follows`, the invariant by which a limiter is used.
-/
import Mathlib.Algebra.Order.Group.Nat
import Mathlib.Data.List.Count
import Mathlib.Data.List.Induction

namespace Sentinalysis.Lib

universe u

/-- A burst of cells, and the interval at which one more is granted. -/
structure Quota where
  interval : ℕ
  burst : ℕ
  burst_pos : 0 < burst
  deriving DecidableEq

namespace Quota

variable (q : Quota)

/-- The theoretical arrival time after the cells that came at these times. -/
def arrival (times : List ℕ) : ℕ :=
  times.foldl (fun tat now => max tat now + q.interval) 0

/-- The decision about a cell: the next arrival time, if it is let past. -/
def check (tat now : ℕ) : Option ℕ :=
  if tat ≤ now + (q.burst - 1) * q.interval then some (max tat now + q.interval) else none

/-- No stretch of time holds more cells than the burst and one for each interval in it. -/
def Within (times : List ℕ) : Prop :=
  ∀ start length, times.countP (fun t => start ≤ t ∧ t ≤ start + length) * q.interval ≤
    length + q.burst * q.interval

variable {q}

@[simp] theorem arrival_nil : q.arrival [] = 0 := rfl

@[simp] theorem arrival_append_singleton (times : List ℕ) (now : ℕ) :
    q.arrival (times ++ [now]) = max (q.arrival times) now + q.interval := by
  simp [arrival]

theorem within_nil : q.Within [] := by
  intro start length
  simp

/-- The arrival time is bounded by the counts: every suffix of the cells has its time. -/
theorem arrival_le_iff {times : List ℕ} (hsorted : times.Pairwise (· ≤ ·)) {x : ℕ} :
    q.arrival times ≤ x ↔
      ∀ start, 0 < times.countP (start ≤ ·) →
        start + times.countP (start ≤ ·) * q.interval ≤ x := by
  induction times using List.reverseRecOn generalizing x with
  | nil => simp
  | append_singleton times now ih =>
    obtain ⟨hbefore, -, hlast⟩ := List.pairwise_append.mp hsorted
    have hle : ∀ t ∈ times, t ≤ now := fun t ht => hlast t ht now (List.mem_singleton.mpr rfl)
    rw [arrival_append_singleton]
    constructor
    · intro h start hpos
      by_cases hstart : start ≤ now
      · have hcount : (times ++ [now]).countP (start ≤ ·) = times.countP (start ≤ ·) + 1 := by
          simp [hstart]
        rw [hcount, Nat.add_mul]
        by_cases hempty : times.countP (start ≤ ·) = 0
        · rw [hempty]
          omega
        · have hx : q.arrival times ≤ x - q.interval := by omega
          have := (ih hbefore).mp hx start (Nat.pos_of_ne_zero hempty)
          omega
      · -- nothing comes after the last cell
        have hnone : (times ++ [now]).countP (start ≤ ·) = 0 := by
          rw [List.countP_eq_zero]
          intro t ht
          have htle : t ≤ now := by
            rcases List.mem_append.mp ht with ht | ht
            · exact hle t ht
            · exact (List.mem_singleton.mp ht).le
          simpa using by omega
        omega
    · intro h
      have hnow := h now (by simp)
      have hx : now + q.interval ≤ x := by
        have hcount : 1 ≤ (times ++ [now]).countP (now ≤ ·) := by simp
        have := Nat.mul_le_mul_right q.interval hcount
        omega
      have htimes : q.arrival times ≤ x - q.interval := by
        rw [ih hbefore]
        intro start hpos
        obtain ⟨t, ht, hst⟩ := List.countP_pos_iff.mp hpos
        have hstart : start ≤ now := (of_decide_eq_true hst).trans (hle t ht)
        have hcount : (times ++ [now]).countP (start ≤ ·) = times.countP (start ≤ ·) + 1 := by
          simp [hstart]
        have := h start (by omega)
        rw [hcount, Nat.add_mul] at this
        omega
      omega

/-- **The algorithm and the counts agree** on one more cell. -/
theorem within_append_singleton {times : List ℕ} {now : ℕ}
    (hsorted : (times ++ [now]).Pairwise (· ≤ ·)) :
    q.Within (times ++ [now]) ↔
      q.Within times ∧ q.arrival times ≤ now + (q.burst - 1) * q.interval := by
  obtain ⟨hbefore, -, hlast⟩ := List.pairwise_append.mp hsorted
  have hle : ∀ t ∈ times, t ≤ now := fun t ht => hlast t ht now (List.mem_singleton.mpr rfl)
  have hburst : q.burst * q.interval = (q.burst - 1) * q.interval + q.interval := by
    rw [← Nat.succ_mul, Nat.succ_eq_add_one, Nat.sub_add_cancel q.burst_pos]
  -- up to the last cell, a stretch of time is everything from its start
  have hstretch : ∀ start length, now ≤ start + length →
      times.countP (fun t => start ≤ t ∧ t ≤ start + length) = times.countP (start ≤ ·) := by
    intro start length hend
    apply List.countP_congr
    intro t ht
    have := hle t ht
    simp only [decide_eq_true_eq]
    omega
  constructor
  · intro h
    refine ⟨?_, ?_⟩
    · intro start length
      have hcount : times.countP (fun t => start ≤ t ∧ t ≤ start + length) ≤
          (times ++ [now]).countP (fun t => start ≤ t ∧ t ≤ start + length) := by
        rw [List.countP_append]
        exact Nat.le_add_right _ _
      exact (Nat.mul_le_mul_right _ hcount).trans (h start length)
    · rw [arrival_le_iff hbefore]
      intro start hpos
      obtain ⟨t, ht, hst⟩ := List.countP_pos_iff.mp hpos
      have hstart : start ≤ now := (of_decide_eq_true hst).trans (hle t ht)
      have hall := h start (now - start)
      rw [List.countP_append, hstretch start (now - start) (by omega)] at hall
      have hone : [now].countP (fun t => start ≤ t ∧ t ≤ start + (now - start)) = 1 := by
        simp only [List.countP_singleton, decide_eq_true_eq]
        rw [if_pos (by omega)]
      rw [hone, Nat.add_mul, Nat.one_mul, hburst] at hall
      omega
  · rintro ⟨hwithin, harrival⟩ start length
    rw [List.countP_append]
    by_cases hmem : start ≤ now ∧ now ≤ start + length
    · have hone : [now].countP (fun t => start ≤ t ∧ t ≤ start + length) = 1 := by
        simp only [List.countP_singleton, decide_eq_true_eq]
        rw [if_pos hmem]
      rw [hone, hstretch start length hmem.2, Nat.add_mul, Nat.one_mul, hburst]
      by_cases hempty : times.countP (start ≤ ·) = 0
      · rw [hempty]
        omega
      · have := (arrival_le_iff hbefore).mp harrival start (Nat.pos_of_ne_zero hempty)
        omega
    · have hnone : [now].countP (fun t => start ≤ t ∧ t ≤ start + length) = 0 := by
        simp only [List.countP_singleton, decide_eq_true_eq]
        rw [if_neg hmem]
      rw [hnone, Nat.add_zero]
      exact hwithin start length

/-- The algorithm lets a cell past exactly when the counts stay within the quota. -/
theorem check_isSome_iff {times : List ℕ} {now : ℕ} (hwithin : q.Within times)
    (hsorted : (times ++ [now]).Pairwise (· ≤ ·)) :
    (q.check (q.arrival times) now).isSome = true ↔ q.Within (times ++ [now]) := by
  rw [within_append_singleton hsorted, check]
  split
  · next h => simp [hwithin, h]
  · next h => simp [h]

theorem arrival_of_check {times : List ℕ} {now tat : ℕ}
    (h : q.check (q.arrival times) now = some tat) : tat = q.arrival (times ++ [now]) := by
  unfold check at h
  rw [Option.ite_none_right_eq_some] at h
  rw [arrival_append_singleton]
  exact (Option.some.inj h.2).symm

/-- What is within the quota stays so when cells are left out. -/
theorem Within.sublist {times fewer : List ℕ} (h : q.Within times) (hfewer : fewer.Sublist times) :
    q.Within fewer := by
  intro start length
  exact (Nat.mul_le_mul_right _ hfewer.countP_le).trans (h start length)

theorem Within.of_append {times more : List ℕ} (h : q.Within (times ++ more)) :
    q.Within times :=
  h.sublist (List.sublist_append_left times more)

theorem arrival_of_foldlM {times : List ℕ} {tat : ℕ} (h : times.foldlM q.check 0 = some tat) :
    tat = q.arrival times := by
  induction times using List.reverseRecOn generalizing tat with
  | nil => exact (Option.some.inj h).symm
  | append_singleton times now ih =>
    rw [List.foldlM_append] at h
    obtain ⟨before, hbefore, hlast⟩ := Option.bind_eq_some_iff.mp h
    obtain rfl := ih hbefore
    apply arrival_of_check
    simpa using hlast

/-- **A schedule is let past as a whole exactly when it is within the quota.** -/
theorem within_iff_foldlM {times : List ℕ} (hsorted : times.Pairwise (· ≤ ·)) :
    q.Within times ↔ (times.foldlM q.check 0).isSome = true := by
  induction times using List.reverseRecOn with
  | nil => simp [within_nil]
  | append_singleton times now ih =>
    have hbefore := (List.pairwise_append.mp hsorted).1
    rw [List.foldlM_append]
    cases htimes : times.foldlM q.check 0 with
    | none =>
      have hnot : ¬ q.Within times := by
        rw [ih hbefore, htimes]
        simp
      constructor
      · intro h
        exact absurd h.of_append hnot
      · intro h
        cases h
    | some tat =>
      have hwithin : q.Within times := by
        rw [ih hbefore, htimes]
        rfl
      obtain rfl := arrival_of_foldlM htimes
      rw [← check_isSome_iff hwithin hsorted]
      simp

/-- A larger burst allows more. -/
theorem Within.mono {q' : Quota} {times : List ℕ} (h : q.Within times)
    (hinterval : q'.interval = q.interval) (hburst : q.burst ≤ q'.burst) : q'.Within times := by
  intro start length
  have hmore := Nat.mul_le_mul_right q.interval hburst
  have := h start length
  rw [hinterval]
  omega

/-! ## Quotas by the minute -/

/-- A minute, in nanoseconds. -/
def minute : ℕ := 60 * 1000000000

/-- `Quota::per_minute(n).allow_burst(n)`. -/
def perMinute (n : ℕ) (h : 0 < n) : Quota where
  interval := minute / n
  burst := n
  burst_pos := h

/-- No stretch of time holds more than `extra` cells and `rate` for each minute of it. -/
def AtMost (rate extra : ℕ) (times : List ℕ) : Prop :=
  ∀ start length, times.countP (fun t => start ≤ t ∧ t ≤ start + length) * minute ≤
    rate * length + extra * minute

/-- A quota whose interval divides the minute is a rate. -/
theorem within_iff_atMost {rate : ℕ} (hrate : 0 < rate) (hinterval : rate * q.interval = minute)
    {times : List ℕ} : q.Within times ↔ AtMost rate q.burst times := by
  have hscale : ∀ count length, count * q.interval ≤ length + q.burst * q.interval ↔
      count * minute ≤ rate * length + q.burst * minute := by
    intro count length
    rw [← hinterval, Nat.mul_left_comm, Nat.mul_left_comm q.burst, ← Nat.mul_add]
    exact (Nat.mul_le_mul_left_iff hrate).symm
  constructor
  · intro h start length
    exact (hscale _ _).mp (h start length)
  · intro h start length
    exact (hscale _ _).mpr (h start length)

theorem AtMost.mono {rate rate' extra extra' : ℕ} {times : List ℕ} (h : AtMost rate extra times)
    (hrate : rate ≤ rate') (hextra : extra ≤ extra') : AtMost rate' extra' times := by
  intro start length
  have hfaster := Nat.mul_le_mul_right length hrate
  have hmore := Nat.mul_le_mul_right minute hextra
  have := h start length
  omega

theorem AtMost.of_append {rate extra : ℕ} {times more : List ℕ}
    (h : AtMost rate extra (times ++ more)) : AtMost rate extra times := by
  intro start length
  have hcount := (List.sublist_append_left times more).countP_le
    (p := fun t => start ≤ t ∧ t ≤ start + length)
  exact (Nat.mul_le_mul_right minute hcount).trans (h start length)

end Quota

/-! ## Limiters with keys -/

/-- A limiter keeps an arrival time for each key; a key it has not seen has none. -/
structure Limiter (κ : Type u) where
  quota : Quota
  arrivals : κ → ℕ := fun _ => 0

namespace Limiter

variable {κ : Type u} [DecidableEq κ]

/-- `check_key`: the decision, and the limiter afterwards. -/
def checkKey (limiter : Limiter κ) (now : ℕ) (key : κ) : Bool × Limiter κ :=
  match limiter.quota.check (limiter.arrivals key) now with
  | some tat => (true, { limiter with arrivals := Function.update limiter.arrivals key tat })
  | none => (false, limiter)

/-- The limiter is where it would be after letting past, for each key, the cells of a history that
is in order and within the quota. -/
structure Follows (limiter : Limiter κ) (history : κ → List ℕ) : Prop where
  arrivals : ∀ key, limiter.arrivals key = limiter.quota.arrival (history key)
  sorted : ∀ key, (history key).Pairwise (· ≤ ·)
  within : ∀ key, limiter.quota.Within (history key)

omit [DecidableEq κ] in
theorem follows_new (quota : Quota) :
    Follows { quota := quota : Limiter κ } fun _ => [] :=
  ⟨fun _ => rfl, fun _ => List.Pairwise.nil, fun _ => Quota.within_nil⟩

/-- One more cell, of one key. -/
def record (history : κ → List ℕ) (key : κ) (now : ℕ) : κ → List ℕ :=
  Function.update history key (history key ++ [now])

theorem mem_record {history : κ → List ℕ} {key key' : κ} {now t : ℕ}
    (h : t ∈ record history key now key') : t ∈ history key' ∨ (key' = key ∧ t = now) := by
  unfold record at h
  by_cases hkey : key' = key
  · rw [hkey, Function.update_self, List.mem_append, List.mem_singleton] at h
    rw [hkey]
    exact h.imp_right fun ht => ⟨rfl, ht⟩
  · rw [Function.update_of_ne hkey] at h
    exact Or.inl h

/-- What holds of every history and of the one that is longer by a cell. -/
theorem forall_record {P : List ℕ → Prop} {history : κ → List ℕ} {key : κ} {now : ℕ}
    (hbefore : ∀ key, P (history key)) (hnew : P (history key ++ [now])) (key' : κ) :
    P (record history key now key') := by
  unfold record
  by_cases hkey : key' = key
  · rw [hkey, Function.update_self]
    exact hnew
  · rw [Function.update_of_ne hkey]
    exact hbefore key'

variable {limiter : Limiter κ} {history : κ → List ℕ} {key : κ} {now : ℕ}

/-- **A limiter lets a cell past exactly when its key stays within the quota**, and then the cell
joins the history of its key. -/
theorem Follows.checkKey (h : Follows limiter history) (hlate : ∀ t ∈ history key, t ≤ now) :
    (limiter.quota.Within (history key ++ [now]) ∧ (limiter.checkKey now key).1 = true ∧
      (limiter.checkKey now key).2.quota = limiter.quota ∧
      Follows (limiter.checkKey now key).2 (record history key now)) ∨
    (¬ limiter.quota.Within (history key ++ [now]) ∧
      limiter.checkKey now key = (false, limiter)) := by
  have hsorted : (history key ++ [now]).Pairwise (· ≤ ·) := by
    rw [List.pairwise_append]
    refine ⟨h.sorted key, List.pairwise_singleton _ _, ?_⟩
    intro t ht t' ht'
    rw [List.mem_singleton.mp ht']
    exact hlate t ht
  have hiff := Quota.check_isSome_iff (h.within key) hsorted
  rw [← h.arrivals key] at hiff
  unfold Limiter.checkKey
  cases hcheck : limiter.quota.check (limiter.arrivals key) now with
  | none =>
    rw [hcheck] at hiff
    exact Or.inr ⟨fun hwithin => absurd (hiff.mpr hwithin) (by simp), rfl⟩
  | some tat =>
    rw [hcheck] at hiff
    have hwithin := hiff.mp rfl
    have htat : tat = limiter.quota.arrival (history key ++ [now]) := by
      rw [h.arrivals key] at hcheck
      exact Quota.arrival_of_check hcheck
    refine Or.inl ⟨hwithin, rfl, rfl, ?_, forall_record h.sorted hsorted,
      forall_record h.within hwithin⟩
    intro key'
    unfold record
    by_cases hkey : key' = key
    · simp only [hkey, Function.update_self]
      exact htat
    · simp only [Function.update_of_ne hkey]
      exact h.arrivals key'

/-- A cell that is not let past would not stay within the quota, and changes nothing. -/
theorem Follows.of_refused (h : Follows limiter history) (hlate : ∀ t ∈ history key, t ≤ now)
    (hcheck : (limiter.checkKey now key).1 = false) :
    ¬ limiter.quota.Within (history key ++ [now]) ∧ (limiter.checkKey now key).2 = limiter := by
  rcases h.checkKey hlate with ⟨-, hadmitted, -⟩ | ⟨hnot, hrefused⟩
  · rw [hcheck] at hadmitted
    cases hadmitted
  · exact ⟨hnot, by rw [hrefused]⟩

/-- A cell that is let past stays within the quota, and joins the history. -/
theorem Follows.of_admitted (h : Follows limiter history) (hlate : ∀ t ∈ history key, t ≤ now)
    (hcheck : (limiter.checkKey now key).1 = true) :
    limiter.quota.Within (history key ++ [now]) ∧
      (limiter.checkKey now key).2.quota = limiter.quota ∧
      Follows (limiter.checkKey now key).2 (record history key now) := by
  rcases h.checkKey hlate with ⟨hwithin, -, hrest⟩ | ⟨-, hrefused⟩
  · exact ⟨hwithin, hrest⟩
  · rw [hrefused] at hcheck
    cases hcheck

end Limiter

end Sentinalysis.Lib
