/-
# Sentinalysis.Agent.HubBudget — agents, and the budget of their address at the hub.

Every call of an agent is an attempt to authenticate, and the hub grants an address 20 of them, and
20 more by the minute; a call with a good key is no exception.  The calls of an agent come from its
timers: two in its loop, and one more that forwards the logs of the host; a buffer that fills up
makes more of them.  Which configurations the hub can serve is a question about the two of them
together, and `never_exhausted_iff` answers it for all agents behind one address.
-/
import Mathlib.Algebra.BigOperators.Ring.List
import Mathlib.Data.List.NodupEquivFin
import Mathlib.Tactic.NormNum
import Sentinalysis.Hub.AuthSoundness
import Sentinalysis.Hub.Ingest
import Sentinalysis.Hub.PostEvents
import Sentinalysis.Lib.Pacing
import Sentinalysis.Lib.Transition

namespace Sentinalysis.Agent

open Lib Hub

/-! ## The timers of an agent -/

/-- The timers that lead to a call: the two of `run`, and that of the scanner. -/
inductive Timer
  | metricsInterval
  | flushInterval
  | batchInterval
  deriving DecidableEq, Repr

/-- `AgentConfig`, as far as its timers go. -/
structure AgentConfig where
  logsEnabled : Bool := false
  metricsIntervalSecs : ℕ := 30
  logFlushIntervalSecs : ℕ := 5
  deriving DecidableEq, Repr

namespace AgentConfig

/-- The timers that an agent starts: `spawn_log_forwarding` has one of its own. -/
def timers (agent : AgentConfig) : List Timer :=
  if agent.logsEnabled then [.batchInterval, .metricsInterval, .flushInterval]
  else [.metricsInterval, .flushInterval]

/-- The period of a timer, in seconds. -/
def periodSecs (agent : AgentConfig) : Timer → ℕ
  | .metricsInterval => max agent.metricsIntervalSecs 1
  | .flushInterval | .batchInterval => max agent.logFlushIntervalSecs 1

theorem nodup_timers (agent : AgentConfig) : agent.timers.Nodup := by
  unfold timers
  split <;> decide

theorem periodSecs_pos (agent : AgentConfig) (timer : Timer) : 0 < agent.periodSecs timer := by
  cases timer <;> exact Nat.lt_of_lt_of_le Nat.one_pos (Nat.le_max_right _ _)

end AgentConfig

namespace HubBudget

/-- `Duration::from_secs(1)`, in nanoseconds. -/
def second : ℕ := 1000000000

variable {n : ℕ}

/-- The timers of several agents. -/
def timers (agents : Fin n → AgentConfig) : List (Fin n × Timer) :=
  (List.finRange n).flatMap fun agent => (agents agent).timers.map (agent, ·)

/-- Their periods. -/
def period (agents : Fin n → AgentConfig) (timer : Fin n × Timer) : ℕ :=
  (agents timer.1).periodSecs timer.2 * second

/-- The calls that the timers make in a minute, one at each tick. -/
def callsPerMinute (agents : Fin n → AgentConfig) : ℚ :=
  ((timers agents).map fun timer => (60 : ℚ) / (agents timer.1).periodSecs timer.2).sum

theorem nodup_timers (agents : Fin n → AgentConfig) : (timers agents).Nodup := by
  rw [timers, List.nodup_flatMap]
  refine ⟨fun agent _ => (agents agent).nodup_timers.map fun _ _ => congrArg Prod.snd, ?_⟩
  refine (List.nodup_finRange n).imp fun hne timer h h' => ?_
  obtain ⟨_, -, rfl⟩ := List.mem_map.mp h
  obtain ⟨_, -, heq⟩ := List.mem_map.mp h'
  exact hne (congrArg Prod.fst heq).symm

theorem period_pos (agents : Fin n → AgentConfig) (timer : Fin n × Timer) :
    0 < period agents timer :=
  Nat.mul_pos ((agents timer.1).periodSecs_pos timer.2) (by decide)

theorem interval_eq : ipLimiter.quota.interval = 3 * second := by
  norm_num [ipLimiter, Quota.perMinute, Quota.minute, maxAuthAttemptsPerMinute, second]

/-- The load of the timers is their share of the 20 calls by the minute. -/
theorem load_timers (agents : Fin n → AgentConfig) :
    ipLimiter.quota.load ((timers agents).map (period agents)) = callsPerMinute agents / 20 := by
  have hsecond : (second : ℚ) ≠ 0 := by
    rw [Nat.cast_ne_zero]
    decide
  have hshare : ∀ timer : Fin n × Timer, ((3 * second : ℕ) : ℚ) / (period agents timer : ℕ) =
      60 / (agents timer.1).periodSecs timer.2 * (1 / 20) := by
    intro timer
    rw [period, Nat.cast_mul, Nat.cast_mul, mul_div_mul_right _ _ hsecond]
    ring
  rw [Quota.load, callsPerMinute, interval_eq, List.map_map, div_eq_mul_one_div,
    ← List.sum_map_mul_right]
  exact congrArg List.sum (List.map_congr_left fun timer _ => hshare timer)

/-! ## The calls at the hub -/

/-- A call, as the hub meets it: its address, its key, what `authenticate` meets, the time, and the
timer that made it, where it is one of an agent. -/
structure Call (n : ℕ) where
  ip : String
  rawKey : Option String
  env : Surroundings
  time : Instant
  timer : Fin n × Timer

/-- The clock, the limiter of the addresses with what it let past, the cache, and the answers. -/
structure State (n : ℕ) where
  now : Instant := 0
  limiter : Limiter String := ipLimiter
  attempts : String → List Instant := fun _ => []
  cache : VerifiedCache := {}
  answers : List (Call n × Except Status Principal) := []

/-- A call that has no key is answered before the budget of its address is asked. -/
def serve (argon2 : Argon2) (s : State n) (call : Call n) : State n :=
  let checked := s.limiter.checkKey call.time call.ip
  let authorized := authorize argon2 call.env s.cache call.rawKey checked.1
  let charged := { s with
    now := call.time
    cache := authorized.2
    answers := s.answers ++ [(call, authorized.1)] }
  if call.rawKey.isSome then
    { charged with
      limiter := checked.2
      attempts :=
        if checked.1 then Limiter.record s.attempts call.ip call.time else s.attempts }
  else charged

/-- The gRPC service, up to the caller of a call; its clock does not go back. -/
def grpc (argon2 : Argon2) : Machine (State n) (Call n) where
  step s call := if s.now ≤ call.time then some (serve argon2 s call) else none

/-- No call from an address was answered `RESOURCE_EXHAUSTED`. -/
def NeverExhausted (ip : String) (s : State n) : Prop :=
  ∀ answer ∈ s.answers, answer.1.ip = ip →
    ∀ status, answer.2 = .error status → status.code ≠ .resourceExhausted

/-- The times of the calls from an address that have a key. -/
def times (ip : String) (calls : List (Call n)) : List Instant :=
  (calls.filter fun call => call.ip = ip ∧ call.rawKey.isSome).map (·.time)

section Calls

variable {argon2 : Argon2} {ip : String} {calls : List (Call n)} {s t : State n} {call : Call n}

theorem times_append_of_pos (h : call.ip = ip ∧ call.rawKey.isSome = true) :
    times ip (calls ++ [call]) = times ip calls ++ [call.time] := by
  simp [times, List.filter_append, h]

theorem times_append_of_neg (h : ¬ (call.ip = ip ∧ call.rawKey.isSome = true)) :
    times ip (calls ++ [call]) = times ip calls := by
  have hnone : [call].filter (fun call => call.ip = ip ∧ call.rawKey.isSome) = [] :=
    List.filter_eq_nil_iff.mpr fun other hother => by
      rw [List.mem_singleton.mp hother]
      simpa using h
  rw [times, List.filter_append, hnone, List.append_nil, times]

/-- The answer of `authenticate` is never that the budget is exhausted. -/
theorem authenticate_ne_rateLimited (argon2 : Argon2) (env : Surroundings) (cache : VerifiedCache)
    (rawKey : String) : (authenticate argon2 env cache rawKey).1 ≠ .error .RateLimited := by
  unfold authenticate
  repeat' split
  all_goals simp

/-- `authorize` says so exactly when there is a key and the budget is. -/
theorem authorize_exhausted_iff (argon2 : Argon2) (env : Surroundings) (cache : VerifiedCache)
    (rawKey : Option String) (withinBudget : Bool) :
    (∃ status, (authorize argon2 env cache rawKey withinBudget).1 = .error status ∧
      status.code = .resourceExhausted) ↔ rawKey.isSome = true ∧ withinBudget = false := by
  unfold authorize
  cases rawKey with
  | none => simp
  | some rawKey =>
    cases withinBudget with
    | false => simp [authStatus]
    | true =>
      have hnever := authenticate_ne_rateLimited argon2 env cache rawKey
      cases hresult : (authenticate argon2 env cache rawKey).1 with
      | ok principal => simp [hresult, Except.mapError]
      | error e =>
        rw [hresult] at hnever
        cases e <;> simp_all [Except.mapError, authStatus]

/-- The limiter follows what it let past, and what it let past is over.  As long as no call of an
address was refused, that is all its calls. -/
structure Tracked (ip : String) (calls : List (Call n)) (s : State n) : Prop where
  quota : s.limiter.quota = ipLimiter.quota
  follows : s.limiter.Follows s.attempts
  attempts_le : ∀ ip, ∀ time ∈ s.attempts ip, time ≤ s.now
  iff_within : NeverExhausted ip s ↔ ipLimiter.quota.Within (times ip calls)
  attempts : NeverExhausted ip s → s.attempts ip = times ip calls

theorem tracked_start : Tracked ip [] ({} : State n) where
  quota := rfl
  follows := Limiter.follows_new _
  attempts_le := by intro ip time htime; cases htime
  iff_within := by
    refine iff_of_true ?_ Quota.within_nil
    intro answer hanswer
    cases hanswer
  attempts := fun _ => rfl

theorem answers_serve (s : State n) (call : Call n) : (serve argon2 s call).answers = s.answers ++
    [(call, (authorize argon2 call.env s.cache call.rawKey
      (s.limiter.checkKey call.time call.ip).1).1)] := by
  unfold serve
  split <;> rfl

theorem neverExhausted_serve_iff : NeverExhausted ip (serve argon2 s call) ↔ NeverExhausted ip s ∧
    (call.ip = ip → call.rawKey.isSome = true →
      (s.limiter.checkKey call.time call.ip).1 = true) := by
  have hlast := authorize_exhausted_iff argon2 call.env s.cache call.rawKey
    (s.limiter.checkKey call.time call.ip).1
  unfold NeverExhausted
  rw [answers_serve, List.forall_mem_append, List.forall_mem_singleton]
  refine and_congr_right fun _ => forall_congr' fun _ => ?_
  rw [← not_iff_not]
  push Not
  rw [hlast]
  simp

/-- A call is not charged when it has no key or is refused. -/
theorem serve_uncharged (argon2 : Argon2) (h : Tracked ip calls s) (htime : s.now ≤ call.time)
    (hcall : call.rawKey.isSome = true → (s.limiter.checkKey call.time call.ip).1 = false) :
    (serve argon2 s call).limiter = s.limiter ∧ (serve argon2 s call).attempts = s.attempts ∧
      (serve argon2 s call).now = call.time := by
  cases hkey : call.rawKey.isSome with
  | false => simp [serve, hkey]
  | true =>
    have hlate : ∀ time ∈ s.attempts call.ip, time ≤ call.time :=
      fun time hmem => (h.attempts_le call.ip time hmem).trans htime
    have hsame := (h.follows.of_refused hlate (hcall hkey)).2
    simp [serve, hkey, hcall hkey, hsame]

theorem serve_charged (argon2 : Argon2) (hkey : call.rawKey.isSome = true)
    (hcheck : (s.limiter.checkKey call.time call.ip).1 = true) :
    (serve argon2 s call).limiter = (s.limiter.checkKey call.time call.ip).2 ∧
      (serve argon2 s call).attempts = Limiter.record s.attempts call.ip call.time ∧
      (serve argon2 s call).now = call.time := by
  simp [serve, hkey, hcheck]

/-- A call that is not charged, and is none that the address is refused. -/
theorem Tracked.uncharged (h : Tracked ip calls s) (htime : s.now ≤ call.time)
    (hcall : call.rawKey.isSome = true → (s.limiter.checkKey call.time call.ip).1 = false)
    (hother : ¬ (call.ip = ip ∧ call.rawKey.isSome = true)) :
    Tracked ip (calls ++ [call]) (HubBudget.serve argon2 s call) := by
  obtain ⟨hlimiter, hattempts, hnow⟩ := serve_uncharged argon2 h htime hcall
  have hiff : NeverExhausted ip (HubBudget.serve argon2 s call) ↔ NeverExhausted ip s := by
    rw [neverExhausted_serve_iff]
    exact and_iff_left fun hip hkey => absurd ⟨hip, hkey⟩ hother
  have htimes : times ip (calls ++ [call]) = times ip calls := times_append_of_neg hother
  refine ⟨by rw [hlimiter, h.quota], by rw [hlimiter, hattempts]; exact h.follows, ?_, ?_, ?_⟩
  · rw [hattempts, hnow]
    exact fun other time hmem => (h.attempts_le other time hmem).trans htime
  · rw [hiff, htimes, h.iff_within]
  · rw [hiff, htimes, hattempts]
    exact h.attempts

/-- A call that the address is refused would not have stayed within the quota. -/
theorem Tracked.refused (h : Tracked ip calls s) (htime : s.now ≤ call.time)
    (hkey : call.rawKey.isSome = true)
    (hcheck : (s.limiter.checkKey call.time call.ip).1 = false) (hip : call.ip = ip) :
    Tracked ip (calls ++ [call]) (HubBudget.serve argon2 s call) := by
  have hlate : ∀ time ∈ s.attempts call.ip, time ≤ call.time :=
    fun time hmem => (h.attempts_le call.ip time hmem).trans htime
  obtain ⟨hnot, -⟩ := h.follows.of_refused hlate hcheck
  obtain ⟨hlimiter, hattempts, hnow⟩ := serve_uncharged argon2 h htime fun _ => hcheck
  have hexhausted : ¬ NeverExhausted ip (HubBudget.serve argon2 s call) := by
    rw [neverExhausted_serve_iff, hcheck]
    exact fun hboth => absurd (hboth.2 hip hkey) Bool.false_ne_true
  refine ⟨by rw [hlimiter, h.quota], by rw [hlimiter, hattempts]; exact h.follows, ?_,
    iff_of_false hexhausted fun hwithin => ?_, fun hnever => absurd hnever hexhausted⟩
  · rw [hattempts, hnow]
    exact fun other time hmem => (h.attempts_le other time hmem).trans htime
  · rw [times_append_of_pos ⟨hip, hkey⟩] at hwithin
    rw [h.quota, hip, h.attempts (h.iff_within.mpr hwithin.of_append)] at hnot
    exact hnot hwithin

/-- A call that is let past joins what was. -/
theorem Tracked.charged (h : Tracked ip calls s) (htime : s.now ≤ call.time)
    (hkey : call.rawKey.isSome = true)
    (hcheck : (s.limiter.checkKey call.time call.ip).1 = true) :
    Tracked ip (calls ++ [call]) (HubBudget.serve argon2 s call) := by
  have hlate : ∀ time ∈ s.attempts call.ip, time ≤ call.time :=
    fun time hmem => (h.attempts_le call.ip time hmem).trans htime
  obtain ⟨hwithin, hquota, hfollows⟩ := h.follows.of_admitted hlate hcheck
  obtain ⟨hlimiter, hattempts, hnow⟩ := serve_charged argon2 hkey hcheck
  have hiff : NeverExhausted ip (HubBudget.serve argon2 s call) ↔ NeverExhausted ip s := by
    rw [neverExhausted_serve_iff]
    exact and_iff_left fun _ _ => hcheck
  refine ⟨by rw [hlimiter, hquota, h.quota], by rw [hlimiter, hattempts]; exact hfollows, ?_, ?_,
    ?_⟩
  · rw [hattempts, hnow]
    intro other time hmem
    rcases Limiter.mem_record hmem with hmem | ⟨-, rfl⟩
    · exact (h.attempts_le other time hmem).trans htime
    · exact le_rfl
  · rw [hiff]
    by_cases hip : call.ip = ip
    · rw [times_append_of_pos ⟨hip, hkey⟩]
      refine ⟨fun hnever => ?_, fun hall => h.iff_within.mpr hall.of_append⟩
      rw [h.quota, hip, h.attempts hnever] at hwithin
      exact hwithin
    · rw [times_append_of_neg fun hboth => hip hboth.1]
      exact h.iff_within
  · rw [hiff, hattempts]
    intro hnever
    by_cases hip : call.ip = ip
    · rw [times_append_of_pos ⟨hip, hkey⟩, ← h.attempts hnever, ← hip]
      exact Function.update_self _ _ _
    · rw [times_append_of_neg fun hboth => hip hboth.1, ← h.attempts hnever]
      exact Function.update_of_ne (Ne.symm hip) _ _

theorem Tracked.serve (h : Tracked ip calls s) (htime : s.now ≤ call.time) :
    Tracked ip (calls ++ [call]) (HubBudget.serve argon2 s call) := by
  by_cases hkey : call.rawKey.isSome = true
  · cases hcheck : (s.limiter.checkKey call.time call.ip).1 with
    | false =>
      by_cases hip : call.ip = ip
      · exact h.refused htime hkey hcheck hip
      · exact h.uncharged htime (fun _ => hcheck) fun hboth => hip hboth.1
    | true => exact h.charged htime hkey hcheck
  · exact h.uncharged htime (fun hsome => absurd hsome hkey) fun hboth => hkey hboth.2

theorem tracked_of_run (h : (grpc argon2).Run {} calls s) : Tracked ip calls s := by
  refine h.invariant_history tracked_start fun calls s call t ih hstep => ?_
  obtain ⟨htime, ht⟩ := Option.ite_none_right_eq_some.mp hstep
  exact Option.some.inj ht ▸ ih.serve htime

/-- An address is never refused exactly when its calls stay within the quota. -/
theorem neverExhausted_iff_within (h : (grpc argon2).Run {} calls s) :
    NeverExhausted ip s ↔ ipLimiter.quota.Within (times ip calls) :=
  (tracked_of_run h).iff_within

theorem now_serve (s : State n) (call : Call n) : (serve argon2 s call).now = call.time := by
  unfold serve
  split <;> rfl

/-- The calls of a run come in the order of their times. -/
theorem sorted_of_run (h : (grpc argon2).Run {} calls s) :
    calls.Pairwise fun earlier later => earlier.time ≤ later.time := by
  have hboth : (∀ call ∈ calls, call.time ≤ s.now) ∧
      calls.Pairwise fun earlier later => earlier.time ≤ later.time := by
    refine h.invariant_history (I := fun calls s => (∀ call ∈ calls, call.time ≤ s.now) ∧
      calls.Pairwise fun earlier later => earlier.time ≤ later.time) (by simp) ?_
    rintro calls s call t ⟨hnow, hsorted⟩ hstep
    obtain ⟨htime, ht⟩ := Option.ite_none_right_eq_some.mp hstep
    have hlate : ∀ earlier ∈ calls, earlier.time ≤ call.time :=
      fun earlier hmem => (hnow earlier hmem).trans htime
    rw [← Option.some.inj ht, now_serve, List.forall_mem_append, List.forall_mem_singleton,
      List.pairwise_append]
    refine ⟨⟨hlate, le_rfl⟩, hsorted, List.pairwise_singleton _ _, ?_⟩
    intro earlier hmem later hlater
    rw [List.mem_singleton.mp hlater]
    exact hlate earlier hmem
  exact hboth.2

/-- Calls that come in the order of their times can be served. -/
theorem exists_run_of_sorted (argon2 : Argon2)
    (h : calls.Pairwise fun earlier later => earlier.time ≤ later.time) :
    ∃ s, (grpc argon2).Run {} calls s := by
  have hboth : ∃ s, (grpc argon2).Run {} calls s ∧
      ∀ time, (∀ call ∈ calls, call.time ≤ time) → s.now ≤ time := by
    induction calls using List.reverseRecOn with
    | nil => exact ⟨{}, Machine.Run.nil, fun time _ => Nat.zero_le time⟩
    | append_singleton calls call ih =>
      obtain ⟨hbefore, -, hlast⟩ := List.pairwise_append.mp h
      obtain ⟨s, hrun, hnow⟩ := ih hbefore
      have htime : s.now ≤ call.time :=
        hnow call.time fun earlier he => hlast earlier he call (List.mem_singleton.mpr rfl)
      refine ⟨_, hrun.snoc (if_pos htime), fun time hall => ?_⟩
      rw [now_serve]
      exact hall call (by simp)
  obtain ⟨s, hrun, -⟩ := hboth
  exact ⟨s, hrun⟩

/-! ## What the hub can serve -/

/-- The calls from an address are those of the agents behind it: each has its key and comes from a
timer, and those of one timer are its period apart.  So they are while no tick is late (a timer
makes up for a late one with the next) and no buffer is full before its flush is due. -/
structure FromAgents (agents : Fin n → AgentConfig) (ip : String) (calls : List (Call n)) :
    Prop where
  key : ∀ call ∈ calls, call.ip = ip → call.rawKey.isSome = true
  timers : ∀ call ∈ calls, call.ip = ip → call.timer ∈ timers agents
  spaced : calls.Pairwise fun a b => a.ip = ip → b.ip = ip → a.timer = b.timer →
    a.time + period agents a.timer ≤ b.time

theorem FromAgents.paced {agents : Fin n → AgentConfig} (h : FromAgents agents ip calls) :
    Paced (period agents) (HubBudget.timers agents)
      ((calls.filter (·.ip = ip)).map fun call => (call.timer, call.time)) := by
  constructor
  · intro cell hcell
    obtain ⟨call, hcall, rfl⟩ := List.mem_map.mp hcell
    obtain ⟨hmem, hip⟩ := List.mem_filter.mp hcall
    exact h.timers call hmem (of_decide_eq_true hip)
  · rw [List.pairwise_map, List.pairwise_filter]
    refine h.spaced.imp fun hgap ha hb => ?_
    exact hgap (of_decide_eq_true ha) (of_decide_eq_true hb)

theorem FromAgents.times_eq {agents : Fin n → AgentConfig} (h : FromAgents agents ip calls) :
    times ip calls =
      ((calls.filter (·.ip = ip)).map fun call => (call.timer, call.time)).map Prod.snd := by
  rw [times, List.map_map]
  refine congrArg (List.map _) (List.filter_congr fun call hcall => ?_)
  rw [decide_eq_decide]
  exact and_iff_left_of_imp (h.key call hcall)

/-- The calls of timers that tick as they are told. -/
def callsOf (ip : String) (cells : List ((Fin n × Timer) × ℕ)) : List (Call n) :=
  cells.map fun cell =>
    { ip := ip
      rawKey := some ""
      env := { readAt := cell.2, keys := .ok {}, insertAt := cell.2, purgeAt := fun _ => cell.2 }
      time := cell.2
      timer := cell.1 }

theorem fromAgents_callsOf {agents : Fin n → AgentConfig} {cells : List ((Fin n × Timer) × ℕ)}
    (h : Paced (period agents) (HubBudget.timers agents) cells) :
    FromAgents agents ip (callsOf ip cells) := by
  refine ⟨fun call hcall _ => ?_, fun call hcall _ => ?_, ?_⟩
  · obtain ⟨cell, -, rfl⟩ := List.mem_map.mp hcall
    rfl
  · obtain ⟨cell, hcell, rfl⟩ := List.mem_map.mp hcall
    exact h.timers cell hcell
  · rw [callsOf, List.pairwise_map]
    exact h.spaced.imp fun hgap _ _ hsame => hgap hsame

theorem times_callsOf (ip : String) (cells : List ((Fin n × Timer) × ℕ)) :
    times ip (callsOf ip cells) = cells.map Prod.snd := by
  rw [times, callsOf, List.filter_eq_self.mpr, List.map_map]
  · rfl
  · intro call hcall
    obtain ⟨cell, -, rfl⟩ := List.mem_map.mp hcall
    simp

/-- **The hub serves every call of the agents behind an address exactly when their timers add up to
at most 20 calls by the minute, and there are at most 20 of them.** -/
theorem never_exhausted_iff (argon2 : Argon2) (agents : Fin n → AgentConfig) (ip : String) :
    (∀ calls s, FromAgents agents ip calls → (grpc argon2).Run {} calls s →
      NeverExhausted ip s) ↔
      callsPerMinute agents ≤ 20 ∧ (timers agents).length ≤ 20 := by
  have hquota := Quota.forall_paced_within_iff (q := ipLimiter.quota) (by decide)
    (nodup_timers agents) fun timer _ => period_pos agents timer
  rw [load_timers, div_le_one (by norm_num)] at hquota
  refine Iff.trans ⟨fun h cells hpaced hsorted => ?_, fun h calls s hfrom hrun => ?_⟩ hquota
  · have hsorted' : (callsOf ip cells).Pairwise fun a b => a.time ≤ b.time := by
      rw [callsOf, List.pairwise_map]
      exact hsorted
    obtain ⟨s, hrun⟩ := exists_run_of_sorted argon2 hsorted'
    have hnever := h _ s (fromAgents_callsOf hpaced) hrun
    rw [neverExhausted_iff_within hrun, times_callsOf] at hnever
    exact hnever
  · rw [neverExhausted_iff_within hrun, hfrom.times_eq]
    refine h _ hfrom.paced ?_
    rw [List.pairwise_map]
    exact (sorted_of_run hrun).sublist List.filter_sublist

end Calls

/-- An agent with the default timers makes 14 calls by the minute, and is always served; with the
logs of the host it makes 26, and is not. -/
theorem never_exhausted_iff_oneAgent :
    (callsPerMinute (fun _ : Fin 1 => {}) = 14 ∧
      ∀ calls s, FromAgents (fun _ : Fin 1 => {}) "192.0.2.7" calls →
        (grpc AuthService.plainHash).Run {} calls s → NeverExhausted "192.0.2.7" s) ∧
    callsPerMinute (fun _ : Fin 1 => { logsEnabled := true }) = 26 ∧
      ¬ ∀ calls s, FromAgents (fun _ : Fin 1 => { logsEnabled := true }) "192.0.2.7" calls →
        (grpc AuthService.plainHash).Run {} calls s → NeverExhausted "192.0.2.7" s := by
  have hfew : callsPerMinute (fun _ : Fin 1 => {}) = 14 := by decide +kernel
  have hmany : callsPerMinute (fun _ : Fin 1 => { logsEnabled := true }) = 26 := by decide +kernel
  refine ⟨⟨hfew, (never_exhausted_iff _ _ _).mpr ⟨?_, by decide +kernel⟩⟩, hmany, fun hall => ?_⟩
  · rw [hfew]
    norm_num
  · have hle := ((never_exhausted_iff _ _ _).mp hall).1
    rw [hmany] at hle
    norm_num at hle

end HubBudget

end Sentinalysis.Agent
