/-
# Sentinalysis.Hub.Quotas — what the two limiters let past, over every schedule of requests.

An app that stays below the quota of its key meets the limiter of its address first, which counts
each request as an attempt to authenticate and grants a fifth of that quota: `neverLimited_iff`.  A
key meets the limiter of the worker that its request is given to, and the quota that it is held to
is that of one limiter only as long as the limiters of the workers do not add up:
`always_bounded_iff`.
-/
import Sentinalysis.Hub.RateLimits

namespace Sentinalysis.Hub.RateLimits

open Lib Quota

/-! ## What an app meets -/

/-- The times of the requests of a kind. -/
def times (kind : Request → Prop) [DecidablePred kind] (requests : List Request) : List Instant :=
  (requests.filter kind).map (·.time)

/-- The requests of an address are those with a certain key, and the key may send events. -/
structure Own (ip keyId : String) (requests : List Request) : Prop where
  own : ∀ req ∈ requests, req.ip = ip →
    ∃ principal, req.caller = some principal ∧ principal.keyId = keyId ∧ principal.MayPost
  others : ∀ req ∈ requests, req.ip ≠ ip →
    ∀ principal, req.caller = some principal → principal.keyId ≠ keyId

/-- No request of an address is answered with `429`. -/
def NeverLimited (ip : String) (s : State) : Prop :=
  ∀ answer ∈ s.answers, answer.1.ip = ip → answer.2.status ≠ .TooManyRequests

section Times

variable {kind : Request → Prop} [DecidablePred kind] {requests : List Request} {req : Request}

variable (kind) in
theorem times_append_of_pos (h : kind req) :
    times kind (requests ++ [req]) = times kind requests ++ [req.time] := by
  simp [times, List.filter_append, h]

variable (kind) in
theorem times_append_of_neg (h : ¬ kind req) :
    times kind (requests ++ [req]) = times kind requests := by
  simp [times, List.filter_append, h]

theorem times_of_forall (h : ∀ req ∈ requests, kind req) :
    times kind requests = requests.map (·.time) := by
  unfold times
  rw [List.filter_eq_self.mpr]
  intro req hreq
  exact decide_eq_true (h req hreq)

theorem atMost_of_append {rate extra : ℕ} (h : AtMost rate extra (times kind (requests ++ [req]))) :
    AtMost rate extra (times kind requests) := by
  unfold times at h ⊢
  rw [List.filter_append, List.map_append] at h
  exact h.of_append

end Times

theorem ip_within_iff {limiter : Limiter String} (h : limiter.quota = Hub.ipLimiter.quota)
    {times : List Instant} : limiter.quota.Within times ↔ AtMost 20 20 times := by
  rw [h]
  exact within_iff_atMost (by decide) (by decide)

theorem event_within_iff {times : List Instant} :
    eventQuota.Within times ↔ AtMost 100 100 times :=
  within_iff_atMost (by decide) (by decide)

section Decisions

variable {s : State} {req : Request}

/-- The limiter of the addresses goes by its quota. -/
theorem Consistent.budget_iff (h : Consistent s) (htime : s.now ≤ req.time) :
    (s.ipLimiter.checkKey req.time req.ip).1 = true ↔
      AtMost 20 20 (s.attempts req.ip ++ [req.time]) := by
  rw [← ip_within_iff h.ipQuota]
  constructor
  · intro hcheck
    exact (h.attempts.of_admitted (h.attempts_late htime) hcheck).1
  · intro hwithin
    by_contra hcheck
    rw [Bool.not_eq_true] at hcheck
    exact (h.attempts.of_refused (h.attempts_late htime) hcheck).1 hwithin

/-- So does the limiter of a worker. -/
theorem Consistent.worker_iff (h : Consistent s) (htime : s.now ≤ req.time) (keyId : String) :
    ((s.limiters req.worker).checkKey req.time keyId).1 = true ↔
      AtMost 100 100 (s.passes req.worker keyId ++ [req.time]) := by
  rw [← event_within_iff, ← h.quotas req.worker]
  constructor
  · intro hcheck
    exact ((h.passes req.worker).of_admitted (h.passes_late htime keyId) hcheck).1
  · intro hwithin
    by_contra hcheck
    rw [Bool.not_eq_true] at hcheck
    exact ((h.passes req.worker).of_refused (h.passes_late htime keyId) hcheck).1 hwithin

end Decisions

section App

variable {allowlist : List String} {ip keyId : String} {before : List Request} {s t : State}
  {req : Request}

/-- What the limiters know of an app whose requests were all let past: its schedule so far. -/
structure Tracked (ip keyId : String) (before : List Request) (s : State) : Prop where
  consistent : Consistent s
  iff_atMost : NeverLimited ip s ↔ AtMost 20 20 (times (·.ip = ip) before)
  attempts : NeverLimited ip s → s.attempts ip = times (·.ip = ip) before
  passed : NeverLimited ip s → s.passed keyId = times (·.ip = ip) before

theorem NeverLimited.append_iff {response : HttpResponse}
    (ht : t.answers = s.answers ++ [(req, response)]) :
    NeverLimited ip t ↔
      NeverLimited ip s ∧ (req.ip = ip → response.status ≠ .TooManyRequests) := by
  unfold NeverLimited
  rw [ht]
  simp only [List.mem_append, List.mem_singleton, or_imp, forall_and, forall_eq]

/-- A request of another address is no concern of the app. -/
theorem Tracked.other (h : Tracked ip keyId before s) (hip : req.ip ≠ ip)
    (hcaller : ∀ principal, req.caller = some principal → principal.keyId ≠ keyId)
    (hstep : (rest allowlist).step s req = some t) : Tracked ip keyId (before ++ [req]) t := by
  have hconsistent := h.consistent.step hstep
  have htimes : times (·.ip = ip) (before ++ [req]) = times (·.ip = ip) before := by
    exact times_append_of_neg _ hip
  obtain ⟨htime, houtcome⟩ := outcome_of_step hstep
  have hattempts : (throttle s req).2.attempts ip = s.attempts ip := by
    cases hbudget : (s.ipLimiter.checkKey req.time req.ip).1 with
    | false => rw [throttle_refused h.consistent htime hbudget]
    | true =>
      rw [throttle_admitted hbudget]
      exact Function.update_of_ne (Ne.symm hip) _ _
  have hfinish : ∀ response, t.answers = s.answers ++ [(req, response)] →
      t.attempts ip = s.attempts ip → t.passed keyId = s.passed keyId →
      Tracked ip keyId (before ++ [req]) t := by
    intro response hanswers hsame hsame'
    have hiff : NeverLimited ip t ↔ NeverLimited ip s := by
      rw [NeverLimited.append_iff hanswers]
      exact and_iff_left fun heq => absurd heq hip
    refine ⟨hconsistent, ?_, ?_, ?_⟩
    · rw [hiff, htimes]
      exact h.iff_atMost
    · intro hnever
      rw [hsame, htimes]
      exact h.attempts (hiff.mp hnever)
    · intro hnever
      rw [hsame', htimes]
      exact h.passed (hiff.mp hnever)
  cases houtcome with
  | throttled hbudget hstatus ht =>
    exact hfinish _ (by rw [ht]; rfl) (by rw [ht]; exact hattempts) (by rw [ht]; rfl)
  | refused hbudget hnobody ht =>
    exact hfinish _ (by rw [ht]; rfl) (by rw [ht]; exact hattempts) (by rw [ht]; rfl)
  | limited principal hbudget hsome hmay hcheck hstatus ht =>
    exact hfinish _ (by rw [ht]) (by rw [ht]; exact hattempts) (by rw [ht]; rfl)
  | handled principal hbudget hsome hmay hcheck hstatus ht =>
    refine hfinish _ (by rw [ht]) (by rw [ht]; exact hattempts) ?_
    rw [ht]
    exact Function.update_of_ne (Ne.symm (hcaller principal hsome)) _ _

/-- A request of the app is refused by one of the limiters, and then its schedule is beyond the
smaller quota; or it joins what both let past. -/
theorem Tracked.mine (h : Tracked ip keyId before s) (hip : req.ip = ip)
    (hcaller : ∃ principal, req.caller = some principal ∧ principal.keyId = keyId ∧
      principal.MayPost)
    (hstep : (rest allowlist).step s req = some t) : Tracked ip keyId (before ++ [req]) t := by
  have hconsistent := h.consistent.step hstep
  have htimes : times (·.ip = ip) (before ++ [req]) = times (·.ip = ip) before ++ [req.time] := by
    exact times_append_of_pos _ hip
  obtain ⟨htime, houtcome⟩ := outcome_of_step hstep
  obtain ⟨caller, hcaller, hkey, hmaypost⟩ := hcaller
  -- a refusal, when the schedule is beyond the quota
  have hrefuse : ∀ response, t.answers = s.answers ++ [(req, response)] →
      response.status = .TooManyRequests →
      (NeverLimited ip s → ¬ AtMost 20 20 (times (·.ip = ip) before ++ [req.time])) →
      Tracked ip keyId (before ++ [req]) t := by
    intro response hanswers hstatus hbeyond
    have hlimited : ¬ NeverLimited ip t := by
      rw [NeverLimited.append_iff hanswers]
      exact fun hboth => hboth.2 hip hstatus
    refine ⟨hconsistent, ?_, fun hnever => absurd hnever hlimited,
      fun hnever => absurd hnever hlimited⟩
    rw [htimes]
    constructor
    · intro hnever
      exact absurd hnever hlimited
    · intro hatmost
      exact absurd hatmost (hbeyond (h.iff_atMost.mpr hatmost.of_append))
  cases houtcome with
  | throttled hbudget hstatus ht =>
    apply hrefuse _ (by rw [ht]; rfl) hstatus
    intro hnever
    rw [← h.attempts hnever, ← hip, ← h.consistent.budget_iff htime, hbudget]
    exact Bool.false_ne_true
  | refused hbudget hnobody ht => exact absurd hmaypost (hnobody caller hcaller)
  | limited principal hbudget hsome hmay hcheck hstatus ht =>
    obtain rfl := Option.some.inj (hcaller.symm.trans hsome)
    apply hrefuse _ (by rw [ht]) hstatus
    intro hnever hatmost
    have hsub := h.consistent.sublist req.worker caller.keyId
    rw [hkey, h.passed hnever] at hsub
    have hmore : AtMost 100 100 (times (·.ip = ip) before ++ [req.time]) :=
      hatmost.mono (by omega) (by omega)
    have hwithin := event_within_iff.mpr hmore
    have hworker : AtMost 100 100 (s.passes req.worker keyId ++ [req.time]) :=
      event_within_iff.mp (hwithin.sublist (hsub.append (List.Sublist.refl [req.time])))
    rw [hkey, (h.consistent.worker_iff htime keyId).mpr hworker] at hcheck
    cases hcheck
  | handled principal hbudget hsome hmay hcheck hstatus ht =>
    obtain rfl := Option.some.inj (hcaller.symm.trans hsome)
    have hiff : NeverLimited ip t ↔ NeverLimited ip s := by
      rw [NeverLimited.append_iff (by rw [ht])]
      exact and_iff_left fun _ => hstatus
    have hattempts : t.attempts ip = s.attempts ip ++ [req.time] := by
      rw [ht, throttle_admitted hbudget, ← hip]
      exact Function.update_self _ _ _
    have hpassed : t.passed keyId = s.passed keyId ++ [req.time] := by
      rw [ht, ← hkey]
      exact Function.update_self _ _ _
    refine ⟨hconsistent, ?_, ?_, ?_⟩
    · rw [hiff, htimes]
      constructor
      · intro hnever
        rw [← h.attempts hnever, ← hip]
        exact (h.consistent.budget_iff htime).mp hbudget
      · intro hatmost
        exact h.iff_atMost.mpr hatmost.of_append
    · intro hnever
      rw [hattempts, htimes, h.attempts (hiff.mp hnever)]
    · intro hnever
      rw [hpassed, htimes, h.passed (hiff.mp hnever)]

theorem tracked_of_run {requests : List Request} (hown : Own ip keyId requests)
    (hrun : (rest allowlist).Run {} requests s) : Tracked ip keyId requests s := by
  induction hrun with
  | nil =>
    refine ⟨consistent_start, ?_, fun _ => rfl, fun _ => rfl⟩
    constructor
    · intro _ start length
      simp [times]
    · intro _ answer hanswer
      cases hanswer
  | @snoc before s req t _ hstep ih =>
    have hbefore : Own ip keyId before :=
      ⟨fun req hreq => hown.own req (List.mem_append_left _ hreq),
        fun req hreq => hown.others req (List.mem_append_left _ hreq)⟩
    have hlast : req ∈ before ++ [req] := by simp
    by_cases hip : req.ip = ip
    · exact (ih hbefore).mine hip (hown.own req hlast hip) hstep
    · exact (ih hbefore).other hip (hown.others req hlast hip) hstep

/-- **An app is never rate limited exactly when its schedule stays below the budget of an address
for attempts to authenticate**: no stretch of time may hold more than 20 of its requests, and 20
more for each minute of it. -/
theorem neverLimited_iff {requests : List Request} (hown : Own ip keyId requests)
    (hrun : (rest allowlist).Run {} requests s) :
    NeverLimited ip s ↔ AtMost 20 20 (times (·.ip = ip) requests) :=
  (tracked_of_run hown hrun).iff_atMost

end App

/-- An app with its key. -/
def shop : Principal where
  keyId := "4f2a9c1be07d"
  permissions := [.IngestEvents]
  agentId := none
  hostname := none
  appName := some "shop"

/-- A request of the app, with no events. -/
def shopRequest (ip : String) (worker : Fin restWorkers) (time : Instant) : Request where
  ip := ip
  rawKey := some "sa_4f2a9c1be07d"
  authenticate := fun _ => .ok shop
  worker := worker
  time := time
  events := []
  env := { clock := fun _ => DateTime.epoch, failure := none }

theorem mayPost_shop : shop.MayPost := by decide

/-- A request every 0.6 seconds, the hundred of a minute. -/
def everySixTenths (n : ℕ) : List Request :=
  (List.range n).map fun i => shopRequest "203.0.113.7" 0 (i * 600000000)

theorem own_everySixTenths (n : ℕ) : Own "203.0.113.7" shop.keyId (everySixTenths n) where
  own := by
    intro req hreq _
    obtain ⟨i, -, rfl⟩ := List.mem_map.mp hreq
    exact ⟨shop, rfl, rfl, mayPost_shop⟩
  others := by
    intro req hreq hip
    obtain ⟨i, -, rfl⟩ := List.mem_map.mp hreq
    exact absurd rfl hip

theorem times_everySixTenths (n : ℕ) :
    times (·.ip = "203.0.113.7") (everySixTenths n) = (List.range n).map (· * 600000000) := by
  rw [times_of_forall]
  · unfold everySixTenths
    rw [List.map_map]
    rfl
  · intro req hreq
    obtain ⟨i, -, rfl⟩ := List.mem_map.mp hreq
    rfl

theorem exists_run_everySixTenths (allowlist : List String) (n : ℕ) :
    ∃ s, (rest allowlist).Run {} (everySixTenths n) s := by
  apply exists_run_of_sorted
  unfold everySixTenths
  rw [List.pairwise_map]
  exact List.pairwise_lt_range.imp fun hlt => Nat.mul_le_mul_right _ hlt.le

/-- Three of them are not refused. -/
theorem neverLimited_three : ∃ s, (rest []).Run {} (everySixTenths 3) s ∧
    NeverLimited "203.0.113.7" s := by
  obtain ⟨s, hrun⟩ := exists_run_everySixTenths [] 3
  refine ⟨s, hrun, (neverLimited_iff (own_everySixTenths 3) hrun).mpr ?_⟩
  rw [times_everySixTenths]
  exact (within_iff_atMost (q := Hub.ipLimiter.quota) (by decide) (by decide)).mp
    ((within_iff_foldlM (by decide)).mpr (by decide))

/-- The quota of 100 a minute with no burst. -/
def steady : Quota where
  interval := 600000000
  burst := 1
  burst_pos := Nat.one_pos

/-- The schedule keeps to the documented rate at every moment, and the 25th request is refused. -/
theorem limited_twentyFive : ¬ ∀ (ip keyId : String) (requests : List Request) (s : State),
    Own ip keyId requests → AtMost 100 1 (times (·.ip = ip) requests) →
    (rest []).Run {} requests s → NeverLimited ip s := by
  intro h
  obtain ⟨s, hrun⟩ := exists_run_everySixTenths [] 25
  have hown := own_everySixTenths 25
  have hrate : AtMost 100 1 (times (·.ip = "203.0.113.7") (everySixTenths 25)) := by
    rw [times_everySixTenths]
    exact (within_iff_atMost (q := steady) (by decide) (by decide)).mp
      ((within_iff_foldlM (by decide)).mpr (by decide))
  have hnever := h _ _ _ s hown hrate hrun
  have hbudget := (tracked_of_run hown hrun).iff_atMost.mp hnever
  rw [times_everySixTenths] at hbudget
  -- 25 requests in 14.4 seconds
  exact absurd (hbudget 0 14400000000) (by decide)

/-! ## What a key is held to -/

/-- What was let past of every key is within the quota of one limiter. -/
def Bounded (s : State) : Prop := ∀ key, AtMost 100 100 (s.passed key)

/-- A request that its worker lets past would also be let past by one limiter of all workers. -/
def SharedRoom (s : State) (req : Request) : Prop :=
  ∀ principal, req.caller = some principal → principal.MayPost →
    (s.ipLimiter.checkKey req.time req.ip).1 = true →
    ((s.limiters req.worker).checkKey req.time principal.keyId).1 = true →
    (eventQuota.check (eventQuota.arrival (s.passed principal.keyId)) req.time).isSome = true

section Key

variable {allowlist : List String} {requests : List Request} {s t : State} {req : Request}

/-- A request goes past both limiters, or adds nothing to what was let past. -/
theorem passed_of_step (hstep : (rest allowlist).step s req = some t) :
    (t.passed = s.passed ∧ ∀ principal, req.caller = some principal → principal.MayPost →
      (s.ipLimiter.checkKey req.time req.ip).1 = true →
      ((s.limiters req.worker).checkKey req.time principal.keyId).1 = false) ∨
    ∃ principal, req.caller = some principal ∧ principal.MayPost ∧
      (s.ipLimiter.checkKey req.time req.ip).1 = true ∧
      ((s.limiters req.worker).checkKey req.time principal.keyId).1 = true ∧
      t.passed = Limiter.record s.passed principal.keyId req.time := by
  obtain ⟨-, houtcome⟩ := outcome_of_step hstep
  cases houtcome with
  | throttled hbudget hstatus ht =>
    refine Or.inl ⟨by rw [ht]; rfl, ?_⟩
    intro principal _ _ hip
    rw [hbudget] at hip
    cases hip
  | refused hbudget hnobody ht =>
    refine Or.inl ⟨by rw [ht]; rfl, ?_⟩
    intro principal hcaller hmay _
    exact absurd hmay (hnobody principal hcaller)
  | limited principal hbudget hcaller hmay hcheck hstatus ht =>
    refine Or.inl ⟨by rw [ht]; rfl, ?_⟩
    intro other hother _ _
    obtain rfl := Option.some.inj (hcaller.symm.trans hother)
    exact hcheck
  | handled principal hbudget hcaller hmay hcheck hstatus ht =>
    exact Or.inr ⟨principal, hcaller, hmay, hbudget, hcheck, by rw [ht]⟩

theorem Consistent.shared_iff (h : Consistent s) (htime : s.now ≤ req.time) {keyId : String}
    (hbounded : AtMost 100 100 (s.passed keyId)) :
    (eventQuota.check (eventQuota.arrival (s.passed keyId)) req.time).isSome = true ↔
      AtMost 100 100 (s.passed keyId ++ [req.time]) := by
  rw [← event_within_iff]
  apply check_isSome_iff (event_within_iff.mpr hbounded)
  rw [List.pairwise_append]
  refine ⟨h.passed_sorted keyId, List.pairwise_singleton _ _, ?_⟩
  intro t ht last hlast
  rw [List.mem_singleton.mp hlast]
  exact (h.passed_le keyId t ht).trans htime

theorem bounded_of_along (hrun : (rest allowlist).Run {} requests s)
    (halong : (rest allowlist).Along SharedRoom {} requests) : Bounded s := by
  have hboth : Consistent s ∧ Bounded s := by
    apply hrun.invariant_along (I := fun _ s => Consistent s ∧ Bounded s) halong
    · exact ⟨consistent_start, fun key start length => by simp⟩
    · rintro - s req t ⟨hconsistent, hbounded⟩ hroom hstep
      refine ⟨hconsistent.step hstep, ?_⟩
      have htime := (outcome_of_step hstep).1
      rcases passed_of_step hstep with
        ⟨hsame, -⟩ | ⟨principal, hcaller, hmay, hip, hcheck, hpassed⟩
      · intro key
        rw [hsame]
        exact hbounded key
      · have hone := hroom principal hcaller hmay hip hcheck
        rw [hconsistent.shared_iff htime (hbounded _)] at hone
        intro key
        rw [hpassed]
        exact Limiter.forall_record hbounded hone key
  exact hboth.2

/-- When every key has a worker of its own, that worker has let past all there is. -/
theorem passes_of_run {worker : String → Fin restWorkers}
    (hworker : ∀ req ∈ requests, ∀ principal, req.caller = some principal →
      req.worker = worker principal.keyId)
    (hrun : (rest allowlist).Run {} requests s) (key : String) :
    s.passes (worker key) key = s.passed key := by
  induction hrun with
  | nil => rfl
  | @snoc before s req t _ hstep ih =>
    have hbefore := ih fun req hreq => hworker req (List.mem_append_left _ hreq)
    obtain ⟨-, houtcome⟩ := outcome_of_step hstep
    cases houtcome with
    | throttled hbudget hstatus ht => rw [ht]; exact hbefore
    | refused hbudget hnobody ht => rw [ht]; exact hbefore
    | limited principal hbudget hcaller hmay hcheck hstatus ht => rw [ht]; exact hbefore
    | handled principal hbudget hcaller hmay hcheck hstatus ht =>
      have hmine := hworker req (by simp) principal hcaller
      rw [ht]
      by_cases hkey : key = principal.keyId
      · rw [hkey] at hbefore ⊢
        simp only [hmine, Function.update_self, Limiter.record]
        rw [hbefore]
      · simp only [Limiter.record, Function.update_of_ne hkey]
        by_cases hsame : worker key = req.worker
        · rw [hsame, Function.update_self, Function.update_of_ne hkey, ← hsame]
          exact hbefore
        · rw [Function.update_of_ne hsame]
          exact hbefore

/-- **A key is held to its quota exactly as long as the workers let past no more than one limiter of
theirs would.**  So it is when each key has a worker of its own. -/
theorem always_bounded_iff (hrun : (rest allowlist).Run {} requests s) :
    ((rest allowlist).Always Bounded {} requests ↔
      (rest allowlist).Along SharedRoom {} requests) ∧
    ∀ worker : String → Fin restWorkers, (∀ req ∈ requests, ∀ principal,
      req.caller = some principal → req.worker = worker principal.keyId) →
      (rest allowlist).Always Bounded {} requests := by
  refine ⟨?_, ?_⟩
  · apply hrun.always_iff_along
    · intro requests s hrun halong
      exact bounded_of_along hrun halong
    · intro requests s req t hrun hstep hbounded principal hcaller hmay hip hcheck
      have hconsistent := consistent_of_run hrun
      have htime := (outcome_of_step hstep).1
      rcases passed_of_step hstep with ⟨-, hrefused⟩ | ⟨other, hother, -, -, -, hpassed⟩
      · rw [hrefused principal hcaller hmay hip] at hcheck
        cases hcheck
      · obtain rfl := Option.some.inj (hcaller.symm.trans hother)
        have hone := hbounded principal.keyId
        rw [hpassed] at hone
        unfold Limiter.record at hone
        rw [Function.update_self] at hone
        exact (hconsistent.shared_iff htime hone.of_append).mpr hone
  · intro worker hworker before after t hsplit hreached key
    have hbefore : ∀ req ∈ before, ∀ principal, req.caller = some principal →
        req.worker = worker principal.keyId := by
      intro req hreq
      exact hworker req (hsplit ▸ List.mem_append_left _ hreq)
    have hconsistent := consistent_of_run hreached
    have hwithin := (hconsistent.passes (worker key)).within key
    rw [hconsistent.quotas, passes_of_run hbefore hreached key] at hwithin
    exact event_within_iff.mp hwithin

/-- A schedule that is within the quota of every limiter is let past as a whole. -/
theorem passed_of_within {principal : Principal} (hmay : principal.MayPost)
    (hcaller : ∀ req ∈ requests, req.caller = some principal)
    (hip : ∀ ip, AtMost 20 20 (times (·.ip = ip) requests))
    (hworker : ∀ worker, AtMost 100 100 (times (·.worker = worker) requests))
    (hrun : (rest allowlist).Run {} requests s) :
    s.passed principal.keyId = requests.map (·.time) := by
  -- the limiters have seen the whole schedule
  have hall : (∀ ip, s.attempts ip = times (·.ip = ip) requests) ∧
      (∀ worker, s.passes worker principal.keyId = times (·.worker = worker) requests) ∧
      s.passed principal.keyId = requests.map (·.time) := by
    induction hrun with
    | nil => exact ⟨fun _ => rfl, fun _ => rfl, rfl⟩
    | @snoc before s req t hbefore hstep ih =>
      obtain ⟨hattempts, hpasses, hpassed⟩ := ih
        (fun req hreq => hcaller req (List.mem_append_left _ hreq))
        (fun ip => atMost_of_append (hip ip)) (fun worker => atMost_of_append (hworker worker))
      have hconsistent := consistent_of_run hbefore
      obtain ⟨htime, houtcome⟩ := outcome_of_step hstep
      have hlast := hcaller req (by simp)
      cases houtcome with
      | throttled hbudget hstatus ht =>
        have hatmost := hip req.ip
        rw [times_append_of_pos (·.ip = req.ip) rfl, ← hattempts,
          ← hconsistent.budget_iff htime, hbudget] at hatmost
        cases hatmost
      | refused hbudget hnobody ht => exact absurd hmay (hnobody principal hlast)
      | limited other hbudget hother hmayOther hcheck hstatus ht =>
        obtain rfl := Option.some.inj (hlast.symm.trans hother)
        have hatmost := hworker req.worker
        rw [times_append_of_pos (·.worker = req.worker) rfl, ← hpasses,
          ← hconsistent.worker_iff htime principal.keyId, hcheck] at hatmost
        cases hatmost
      | handled other hbudget hother hmayOther hcheck hstatus ht =>
        obtain rfl := Option.some.inj (hlast.symm.trans hother)
        rw [ht]
        refine ⟨?_, ?_, ?_⟩
        · intro ip
          rw [throttle_admitted hbudget]
          simp only [Limiter.record]
          by_cases hsame : req.ip = ip
          · rw [times_append_of_pos (·.ip = ip) hsame, ← hsame, Function.update_self, hattempts]
          · rw [times_append_of_neg (·.ip = ip) hsame,
              Function.update_of_ne (Ne.symm hsame), hattempts]
        · intro worker
          simp only [Limiter.record]
          by_cases hsame : req.worker = worker
          · rw [times_append_of_pos (·.worker = worker) hsame, ← hsame, Function.update_self,
              Function.update_self, hpasses]
          · rw [times_append_of_neg (·.worker = worker) hsame,
              Function.update_of_ne (Ne.symm hsame), hpasses]
        · simp only [Limiter.record, Function.update_self, hpassed, List.map_append, List.map_cons,
            List.map_nil]
  exact hall.2.2

end Key

/-- Requests with one key, all given to one worker. -/
theorem always_bounded_three : ∃ s, (rest []).Run {} (everySixTenths 3) s ∧
    (rest []).Always Bounded {} (everySixTenths 3) ∧
    (rest []).Along SharedRoom {} (everySixTenths 3) := by
  obtain ⟨s, hrun⟩ := exists_run_everySixTenths [] 3
  have halways : (rest []).Always Bounded {} (everySixTenths 3) := by
    refine (always_bounded_iff hrun).2 (fun _ => 0) ?_
    intro req hreq principal _
    obtain ⟨i, -, rfl⟩ := List.mem_map.mp hreq
    rfl
  exact ⟨s, hrun, halways, (always_bounded_iff hrun).1.mp halways⟩

/-- The addresses of an app that runs in six places. -/
def addresses : List String :=
  ["203.0.113.1", "203.0.113.2", "203.0.113.3", "203.0.113.4", "203.0.113.5", "203.0.113.6"]

/-- Twenty requests from each of them at one instant, every second one for the other worker. -/
def atOnce : List Request :=
  addresses.flatMap fun ip =>
    List.replicate 10 (shopRequest ip 0 0) ++ List.replicate 10 (shopRequest ip 1 0)

theorem mem_atOnce {req : Request} (h : req ∈ atOnce) :
    ∃ ip worker, req = shopRequest ip worker 0 := by
  obtain ⟨ip, -, hreq⟩ := List.mem_flatMap.mp h
  rcases List.mem_append.mp hreq with hreq | hreq
  · exact ⟨ip, 0, List.eq_of_mem_replicate hreq⟩
  · exact ⟨ip, 1, List.eq_of_mem_replicate hreq⟩

theorem atMost_of_length {rate extra : ℕ} {times : List ℕ} (h : times.length ≤ extra) :
    AtMost rate extra times := by
  intro start length
  have hcount := (List.countP_le_length (p := fun t => start ≤ t ∧ t ≤ start + length)).trans h
  have := Nat.mul_le_mul_right minute hcount
  omega

theorem times_atOnce : atOnce.map (·.time) = List.replicate 120 0 := by
  rw [List.eq_replicate_iff]
  refine ⟨by decide +kernel, ?_⟩
  intro time htime
  obtain ⟨req, hreq, rfl⟩ := List.mem_map.mp htime
  obtain ⟨ip, worker, rfl⟩ := mem_atOnce hreq
  rfl

/-- No address makes more than twenty of the requests. -/
theorem length_times_atOnce (ip : String) : (times (·.ip = ip) atOnce).length ≤ 20 := by
  have hlisted : ∀ ip ∈ addresses, (times (·.ip = ip) atOnce).length ≤ 20 := by decide +kernel
  by_cases hip : ip ∈ addresses
  · exact hlisted ip hip
  · have hnone : times (·.ip = ip) atOnce = [] := by
      unfold times
      rw [List.map_eq_nil_iff, List.filter_eq_nil_iff]
      intro req hreq
      obtain ⟨ip', hip', hreq⟩ := List.mem_flatMap.mp hreq
      have hsame : req.ip = ip' := by
        rcases List.mem_append.mp hreq with hreq | hreq
        · rw [List.eq_of_mem_replicate hreq]; rfl
        · rw [List.eq_of_mem_replicate hreq]; rfl
      simp only [decide_eq_true_eq, hsame]
      exact fun heq => hip (heq ▸ hip')
    rw [hnone]
    exact Nat.zero_le 20

/-- All 120 are let past, where one limiter grants 100. -/
theorem unbounded_atOnce : ¬ ∀ (requests : List Request) (s : State),
    (rest []).Run {} requests s → Bounded s := by
  intro h
  obtain ⟨s, hrun⟩ : ∃ s, (rest []).Run {} atOnce s := by
    apply exists_run_of_sorted
    rw [List.pairwise_iff_forall_sublist]
    intro earlier later hsub
    obtain ⟨ip, worker, rfl⟩ := mem_atOnce (hsub.subset (List.mem_cons_self ..))
    exact Nat.zero_le later.time
  have hcaller : ∀ req ∈ atOnce, req.caller = some shop := by
    intro req hreq
    obtain ⟨ip, worker, rfl⟩ := mem_atOnce hreq
    rfl
  have hip : ∀ ip, AtMost 20 20 (times (·.ip = ip) atOnce) :=
    fun ip => atMost_of_length (length_times_atOnce ip)
  have hworker : ∀ worker, AtMost 100 100 (times (·.worker = worker) atOnce) := by
    have hlength : ∀ worker, (times (·.worker = worker) atOnce).length ≤ 100 := by decide +kernel
    exact fun worker => atMost_of_length (hlength worker)
  have hbound := h atOnce s hrun shop.keyId
  rw [passed_of_within mayPost_shop hcaller hip hworker hrun, times_atOnce] at hbound
  exact absurd (hbound 0 0) (by decide +kernel)

end Sentinalysis.Hub.RateLimits
