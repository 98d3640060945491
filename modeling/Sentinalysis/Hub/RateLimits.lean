/-
# Sentinalysis.Hub.RateLimits — the two limiters that a request for `POST /v1/events` meets.

The first counts the requests of an address, whatever they are for; the hub has one.  The second
counts the requests of a key, and belongs to the state that the application factory builds: each
worker of the server has one of its own.  A request takes no time here, so that both limiters read
the same clock.
-/
import Sentinalysis.Hub.PostEvents
import Sentinalysis.Lib.Transition

namespace Sentinalysis.Hub.RateLimits

open Lib

/-- `.workers(2)`. -/
abbrev restWorkers : ℕ := 2

/-- A request, as it is met: its address, its key, what `authenticate` answers for a key, the worker
it is given to, the time, and the batch. -/
structure Request where
  ip : String
  rawKey : Option String
  authenticate : String → Except AuthError Principal
  worker : Fin restWorkers
  time : Instant
  events : List IngestEvent
  env : BatchEnv

/-- The clock, the limiters, and what they let past: the requests of each address, those of each key
at a worker, and those of each key. -/
structure State where
  now : Instant := 0
  ipLimiter : Limiter String := Hub.ipLimiter
  limiters : Fin restWorkers → Limiter String :=
    fun _ => EventRateLimiter.new eventRequestsPerMinute eventRequestsPerMinute_pos
  attempts : String → List Instant := fun _ => []
  passes : Fin restWorkers → String → List Instant := fun _ _ => []
  passed : String → List Instant := fun _ => []
  answers : List (Request × HttpResponse) := []

/-- `check_ip_budget`. -/
def throttle (s : State) (req : Request) : Bool × State :=
  let checked := s.ipLimiter.checkKey req.time req.ip
  (checked.1,
    { s with
      now := req.time
      ipLimiter := checked.2
      attempts := if checked.1 then Limiter.record s.attempts req.ip req.time else s.attempts })

def State.answer (s : State) (req : Request) (response : HttpResponse) : State :=
  { s with answers := s.answers ++ [(req, response)] }

/-- The request goes past the limiter of its worker. -/
def State.pass (s : State) (req : Request) (keyId : String) : State :=
  { s with
    passes := Function.update s.passes req.worker
      (Limiter.record (s.passes req.worker) keyId req.time)
    passed := Limiter.record s.passed keyId req.time }

/-- The handler, with the limiter of the worker. -/
def handle (allowlist : List String) (s : State) (req : Request) (principal : Principal) : State :=
  let limiter := s.limiters req.worker
  let posted := postEvents req.env limiter req.time allowlist principal req.events
  let after := { s with limiters := Function.update s.limiters req.worker posted.2.1 }
  if principal.MayPost ∧ (limiter.checkKey req.time principal.keyId).1 = true then
    (after.pass req principal.keyId).answer req posted.1
  else after.answer req posted.1

/-- A request, from the middleware on. -/
def serve (allowlist : List String) (s : State) (req : Request) : State :=
  let throttled := throttle s req
  match keyAuth throttled.1 req.rawKey req.authenticate with
  | .ok principal => handle allowlist throttled.2 req principal
  | .error response => throttled.2.answer req response

/-- The server; its clock does not go back. -/
def rest (allowlist : List String) : Machine State Request where
  step s req := if s.now ≤ req.time then some (serve allowlist s req) else none

/-! ## What one request does -/

/-- The caller that the key of a request stands for. -/
def Request.caller (req : Request) : Option Principal :=
  req.rawKey.bind fun rawKey => (req.authenticate rawKey).toOption

section Steps

variable {allowlist : List String} {s t : State} {req : Request}

/-- What can become of a request: the limiter of its address refuses it, it is refused for what it
is, the limiter of its worker refuses it, or it is handled. -/
inductive Outcome (s : State) (req : Request) : State → Prop
  | throttled {t : State} {response : HttpResponse}
      (hbudget : (s.ipLimiter.checkKey req.time req.ip).1 = false)
      (hstatus : response.status = .TooManyRequests)
      (ht : t = (throttle s req).2.answer req response) : Outcome s req t
  | refused {t : State} {response : HttpResponse}
      (hbudget : (s.ipLimiter.checkKey req.time req.ip).1 = true)
      (hcaller : ∀ principal, req.caller = some principal → ¬ principal.MayPost)
      (ht : t = (throttle s req).2.answer req response) : Outcome s req t
  | limited {t : State} {response : HttpResponse} (principal : Principal)
      (hbudget : (s.ipLimiter.checkKey req.time req.ip).1 = true)
      (hcaller : req.caller = some principal) (hmay : principal.MayPost)
      (hcheck : ((s.limiters req.worker).checkKey req.time principal.keyId).1 = false)
      (hstatus : response.status = .TooManyRequests)
      (ht : t = { (throttle s req).2 with
        limiters := Function.update s.limiters req.worker
          ((s.limiters req.worker).checkKey req.time principal.keyId).2
        answers := s.answers ++ [(req, response)] }) : Outcome s req t
  | handled {t : State} {response : HttpResponse} (principal : Principal)
      (hbudget : (s.ipLimiter.checkKey req.time req.ip).1 = true)
      (hcaller : req.caller = some principal) (hmay : principal.MayPost)
      (hcheck : ((s.limiters req.worker).checkKey req.time principal.keyId).1 = true)
      (hstatus : response.status ≠ .TooManyRequests)
      (ht : t = { (throttle s req).2 with
        limiters := Function.update s.limiters req.worker
          ((s.limiters req.worker).checkKey req.time principal.keyId).2
        passes := Function.update s.passes req.worker
          (Limiter.record (s.passes req.worker) principal.keyId req.time)
        passed := Limiter.record s.passed principal.keyId req.time
        answers := s.answers ++ [(req, response)] }) : Outcome s req t

theorem keyAuth_eq_ok_iff {principal : Principal} :
    keyAuth true req.rawKey req.authenticate = .ok principal ↔ req.caller = some principal := by
  unfold keyAuth Request.caller
  rw [if_pos rfl]
  cases req.rawKey with
  | none => simp
  | some rawKey => cases hauth : req.authenticate rawKey <;> simp [hauth, Except.toOption]

/-- The handler, where the request goes past no limiter. -/
theorem handle_limited {principal : Principal} {response : HttpResponse} {limiter : Limiter String}
    (hcheck : ¬ (principal.MayPost ∧
      ((s.limiters req.worker).checkKey req.time principal.keyId).1 = true))
    (hposted : postEvents req.env (s.limiters req.worker) req.time allowlist principal req.events
      = (response, limiter, [])) :
    handle allowlist (throttle s req).2 req principal = { (throttle s req).2 with
      limiters := Function.update s.limiters req.worker limiter
      answers := s.answers ++ [(req, response)] } := by
  have hlimiters : (throttle s req).2.limiters = s.limiters := rfl
  unfold handle
  simp only [hlimiters, hposted, if_neg hcheck]
  rfl

/-- The handler, where it does. -/
theorem handle_handled {principal : Principal} {response : HttpResponse} {limiter : Limiter String}
    {stored : List Db.InsertAppEvent}
    (hcheck : principal.MayPost ∧
      ((s.limiters req.worker).checkKey req.time principal.keyId).1 = true)
    (hposted : postEvents req.env (s.limiters req.worker) req.time allowlist principal req.events
      = (response, limiter, stored)) :
    handle allowlist (throttle s req).2 req principal = { (throttle s req).2 with
      limiters := Function.update s.limiters req.worker limiter
      passes := Function.update s.passes req.worker
        (Limiter.record (s.passes req.worker) principal.keyId req.time)
      passed := Limiter.record s.passed principal.keyId req.time
      answers := s.answers ++ [(req, response)] } := by
  have hlimiters : (throttle s req).2.limiters = s.limiters := rfl
  unfold handle
  simp only [hlimiters, hposted, if_pos hcheck]
  rfl

/-- Every request comes to one of these. -/
theorem outcome_of_step (h : (rest allowlist).step s req = some t) :
    s.now ≤ req.time ∧ Outcome s req t := by
  simp only [rest, Option.ite_none_right_eq_some] at h
  obtain ⟨htime, h⟩ := h
  obtain rfl := Option.some.inj h
  refine ⟨htime, ?_⟩
  show Outcome s req (match keyAuth (s.ipLimiter.checkKey req.time req.ip).1 req.rawKey
      req.authenticate with
    | .ok principal => handle allowlist (throttle s req).2 req principal
    | .error response => (throttle s req).2.answer req response)
  cases hbudget : (s.ipLimiter.checkKey req.time req.ip).1 with
  | false => exact Outcome.throttled hbudget rfl rfl
  | true =>
    cases hauth : keyAuth true req.rawKey req.authenticate with
    | error response =>
      refine Outcome.refused hbudget ?_ rfl
      intro principal hcaller
      rw [← keyAuth_eq_ok_iff, hauth] at hcaller
      cases hcaller
    | ok principal =>
      have hcaller := keyAuth_eq_ok_iff.mp hauth
      rcases postEvents_cases req.env (s.limiters req.worker) req.time allowlist principal req.events
        with ⟨hmay, reason, hposted⟩ | ⟨hmay, hcheck, hposted⟩ | ⟨appName, hmay, -, hcheck, hposted⟩
      · have ht : handle allowlist (throttle s req).2 req principal
            = (throttle s req).2.answer req (rejectForbidden reason) := by
          rw [handle_limited (fun hboth => hmay hboth.1) hposted, Function.update_eq_self]
          rfl
        refine Outcome.refused hbudget ?_ ht
        intro other hother
        obtain rfl := Option.some.inj (hcaller.symm.trans hother)
        exact hmay
      · have hnot : ¬ (principal.MayPost ∧
            ((s.limiters req.worker).checkKey req.time principal.keyId).1 = true) := by
          rw [hcheck]
          exact fun hboth => by cases hboth.2
        have ht := handle_limited hnot hposted
        exact Outcome.limited principal hbudget hcaller hmay hcheck rfl ht
      · exact Outcome.handled principal hbudget hcaller hmay hcheck
          (status_ingestEvents req.env appName allowlist req.events)
          (handle_handled ⟨hmay, hcheck⟩ hposted)

theorem now_of_step (h : (rest allowlist).step s req = some t) : t.now = req.time := by
  obtain ⟨-, houtcome⟩ := outcome_of_step h
  cases houtcome with
  | throttled hbudget hstatus ht => rw [ht]; rfl
  | refused hbudget hcaller ht => rw [ht]; rfl
  | limited principal hbudget hcaller hmay hcheck hstatus ht => rw [ht]; rfl
  | handled principal hbudget hcaller hmay hcheck hstatus ht => rw [ht]; rfl

/-- Requests that come in the order of their times can be served. -/
theorem exists_run_of_sorted {requests : List Request}
    (h : requests.Pairwise fun earlier later => earlier.time ≤ later.time) :
    ∃ s, (rest allowlist).Run {} requests s := by
  -- the clock stands where the last request left it
  have hboth : ∃ s, (rest allowlist).Run {} requests s ∧
      ∀ time, (∀ req ∈ requests, req.time ≤ time) → s.now ≤ time := by
    induction requests using List.reverseRecOn with
    | nil => exact ⟨{}, Machine.Run.nil, fun time _ => Nat.zero_le time⟩
    | append_singleton before req ih =>
      obtain ⟨hbefore, -, hlast⟩ := List.pairwise_append.mp h
      obtain ⟨s, hrun, hnow⟩ := ih hbefore
      have htime : s.now ≤ req.time :=
        hnow req.time fun earlier he => hlast earlier he req (List.mem_singleton.mpr rfl)
      have hstep : (rest allowlist).step s req = some (serve allowlist s req) := if_pos htime
      refine ⟨_, hrun.snoc hstep, ?_⟩
      intro time hall
      rw [now_of_step hstep]
      exact hall req (by simp)
  obtain ⟨s, hrun, -⟩ := hboth
  exact ⟨s, hrun⟩

end Steps

/-! ## Where the limiters are -/

/-- The quota of `EventRateLimiter::new(100)`. -/
def eventQuota : Quota :=
  (EventRateLimiter.new eventRequestsPerMinute eventRequestsPerMinute_pos).quota

/-- Every limiter follows what it let past, and what it let past is over.  What a worker let past of
a key is part of what was let past of it. -/
structure Consistent (s : State) : Prop where
  ipQuota : s.ipLimiter.quota = Hub.ipLimiter.quota
  attempts : s.ipLimiter.Follows s.attempts
  attempts_le : ∀ ip, ∀ t ∈ s.attempts ip, t ≤ s.now
  quotas : ∀ worker, (s.limiters worker).quota = eventQuota
  passes : ∀ worker, (s.limiters worker).Follows (s.passes worker)
  passed_le : ∀ key, ∀ t ∈ s.passed key, t ≤ s.now
  passed_sorted : ∀ key, (s.passed key).Pairwise (· ≤ ·)
  sublist : ∀ worker key, (s.passes worker key).Sublist (s.passed key)

theorem consistent_start : Consistent {} where
  ipQuota := rfl
  attempts := Limiter.follows_new _
  attempts_le := by intro ip t ht; cases ht
  quotas := fun _ => rfl
  passes := fun _ => Limiter.follows_new _
  passed_le := by intro key t ht; cases ht
  passed_sorted := fun _ => List.Pairwise.nil
  sublist := fun _ _ => List.Sublist.refl []

section Invariant

variable {allowlist : List String} {s t : State} {req : Request}

theorem throttle_admitted (hbudget : (s.ipLimiter.checkKey req.time req.ip).1 = true) :
    (throttle s req).2 = { s with
      now := req.time
      ipLimiter := (s.ipLimiter.checkKey req.time req.ip).2
      attempts := Limiter.record s.attempts req.ip req.time } := by
  unfold throttle
  simp only [hbudget, if_true]

/-- What was let past was let past before the request. -/
theorem Consistent.attempts_late (h : Consistent s) (htime : s.now ≤ req.time) :
    ∀ t ∈ s.attempts req.ip, t ≤ req.time :=
  fun t ht => (h.attempts_le req.ip t ht).trans htime

theorem Consistent.passes_late (h : Consistent s) (htime : s.now ≤ req.time) (keyId : String) :
    ∀ t ∈ s.passes req.worker keyId, t ≤ req.time :=
  fun t ht => (h.passed_le keyId t ((h.sublist req.worker keyId).subset ht)).trans htime

theorem throttle_refused (h : Consistent s) (htime : s.now ≤ req.time)
    (hbudget : (s.ipLimiter.checkKey req.time req.ip).1 = false) :
    (throttle s req).2 = { s with now := req.time } := by
  have hsame := (h.attempts.of_refused (h.attempts_late htime) hbudget).2
  unfold throttle
  simp only [hbudget, hsame, Bool.false_eq_true, if_false]

/-- The clock goes on. -/
theorem Consistent.wait (h : Consistent s) {time : Instant} (htime : s.now ≤ time) :
    Consistent { s with now := time } :=
  { h with
    attempts_le := fun ip t ht => (h.attempts_le ip t ht).trans htime
    passed_le := fun key t ht => (h.passed_le key t ht).trans htime }

theorem Consistent.throttle (h : Consistent s) (htime : s.now ≤ req.time) :
    Consistent (throttle s req).2 := by
  cases hbudget : (s.ipLimiter.checkKey req.time req.ip).1 with
  | false =>
    rw [throttle_refused h htime hbudget]
    exact h.wait htime
  | true =>
    rw [throttle_admitted hbudget]
    obtain ⟨-, hquota, hfollows⟩ := h.attempts.of_admitted (h.attempts_late htime) hbudget
    have hafter := h.wait htime
    exact { hafter with
      ipQuota := hquota.trans h.ipQuota
      attempts := hfollows
      attempts_le := by
        intro ip t ht
        rcases Limiter.mem_record ht with ht | ⟨-, rfl⟩
        · exact hafter.attempts_le ip t ht
        · exact le_refl _ }

/-- What the limiter of a worker lets past joins the history of the worker and that of the key. -/
theorem Consistent.pass {worker : Fin restWorkers} {keyId : String} (h : Consistent s)
    (hcheck : ((s.limiters worker).checkKey s.now keyId).1 = true) :
    Consistent { s with
      limiters := Function.update s.limiters worker ((s.limiters worker).checkKey s.now keyId).2
      passes := Function.update s.passes worker (Limiter.record (s.passes worker) keyId s.now)
      passed := Limiter.record s.passed keyId s.now } := by
  have hlate : ∀ t ∈ s.passes worker keyId, t ≤ s.now :=
    fun t ht => h.passed_le keyId t ((h.sublist worker keyId).subset ht)
  obtain ⟨-, hquota, hfollows⟩ := (h.passes worker).of_admitted hlate hcheck
  refine { h with quotas := ?_, passes := ?_, passed_le := ?_, passed_sorted := ?_, sublist := ?_ }
  · intro other
    by_cases hother : other = worker
    · simp only [hother, Function.update_self]
      exact hquota.trans (h.quotas worker)
    · simp only [Function.update_of_ne hother]
      exact h.quotas other
  · intro other
    by_cases hother : other = worker
    · simp only [hother, Function.update_self]
      exact hfollows
    · simp only [Function.update_of_ne hother]
      exact h.passes other
  · intro key t ht
    rcases Limiter.mem_record ht with ht | ⟨-, rfl⟩
    · exact h.passed_le key t ht
    · exact le_refl _
  · apply Limiter.forall_record h.passed_sorted
    rw [List.pairwise_append]
    refine ⟨h.passed_sorted keyId, List.pairwise_singleton _ _, ?_⟩
    intro t ht last hlast
    rw [List.mem_singleton.mp hlast]
    exact h.passed_le keyId t ht
  · intro other key
    by_cases hother : other = worker
    · simp only [hother, Function.update_self, Limiter.record]
      by_cases hkey : key = keyId
      · simp only [hkey, Function.update_self]
        exact (h.sublist worker keyId).append (List.Sublist.refl _)
      · simp only [Function.update_of_ne hkey]
        exact h.sublist worker key
    · simp only [Function.update_of_ne hother, Limiter.record]
      by_cases hkey : key = keyId
      · simp only [hkey, Function.update_self]
        exact (h.sublist other keyId).trans (List.sublist_append_left _ _)
      · simp only [Function.update_of_ne hkey]
        exact h.sublist other key

/-- An answer changes nothing that the limiters have to do with. -/
theorem Consistent.answered (h : Consistent s) (answers : List (Request × HttpResponse)) :
    Consistent { s with answers := answers } := by
  exact { h with }

theorem Consistent.step (h : Consistent s) (hstep : (rest allowlist).step s req = some t) :
    Consistent t := by
  obtain ⟨htime, houtcome⟩ := outcome_of_step hstep
  have hthrottled := h.throttle htime
  cases houtcome with
  | throttled hbudget hstatus ht => exact ht ▸ hthrottled.answered _
  | refused hbudget hcaller ht => exact ht ▸ hthrottled.answered _
  | limited principal hbudget hcaller hmay hcheck hstatus ht =>
    have hsame := ((h.passes req.worker).of_refused (h.passes_late htime _) hcheck).2
    rw [hsame, Function.update_eq_self] at ht
    exact ht ▸ hthrottled.answered _
  | handled principal hbudget hcaller hmay hcheck hstatus ht =>
    rw [ht]
    exact (Consistent.pass hthrottled hcheck).answered _

theorem consistent_of_run {requests : List Request} (h : (rest allowlist).Run {} requests s) :
    Consistent s :=
  h.invariant consistent_start fun _ _ _ hconsistent hstep => hconsistent.step hstep

end Invariant

end Sentinalysis.Hub.RateLimits
