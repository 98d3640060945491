/-
# Sentinalysis.Hub.PostEvents — `POST /v1/events`: from a request to the rows of a batch.

The middleware asks for the budget of the address before it looks at the key, and hands the caller
of the key to the handler.  The handler asks for the permission, for the app of the key and for the
budget of the key, in this order, and then checks the events one by one.  What passes is stored by
one statement; what does not is reported with its place in the batch.
-/
import Sentinalysis.Hub.Auth
import Sentinalysis.Hub.Events
import Sentinalysis.Lib.Gcra

namespace Sentinalysis.Hub

open Lib Db

/-! ## Responses -/

/-- The status codes of the handler and of the middleware. -/
inductive StatusCode
  | Accepted
  | BadRequest
  | Unauthorized
  | Forbidden
  | UnprocessableEntity
  | TooManyRequests
  | InternalServerError
  deriving DecidableEq, Repr

structure HttpResponse where
  status : StatusCode
  body : Json

/-- A response whose body is `\x7b "error": message \x7d`. -/
def HttpResponse.error (status : StatusCode) (message : String) : HttpResponse :=
  ⟨status, .object [("error", .string message)]⟩

/-- `reject_forbidden`. -/
def rejectForbidden (reason : String) : HttpResponse := .error .Forbidden reason

/-! ## The middleware -/

/-- The message of `reject`. -/
def AuthError.rejection : AuthError → String
  | .Malformed => "malformed API key"
  | .UnknownKey => "unknown API key"
  | .BadSignature => "invalid API key"
  | .RateLimited => "too many authentication attempts"
  | .Storage message => "authentication storage failure: " ++ message

/-- The message is the text of the error. -/
theorem AuthError.rejection_eq_display (error : AuthError) : error.rejection = error.display := by
  cases error <;> rfl

/-- `reject`. -/
def reject (error : AuthError) (status : StatusCode) : HttpResponse := .error status error.rejection

/-- `KeyAuthMiddleware::call` up to the handler: whether the address is within its budget, the key
in the headers, and what `authenticate` answers for it. -/
def keyAuth (withinBudget : Bool) (rawKey : Option String)
    (authenticate : String → Except AuthError Principal) : Except HttpResponse Principal :=
  if withinBudget then
    match rawKey with
    | none => .error (reject .Malformed .Unauthorized)
    | some rawKey => match authenticate rawKey with
      | .ok principal => .ok principal
      | .error e => .error (reject e (match e with
        | .RateLimited => .TooManyRequests
        | .Storage _ => .InternalServerError
        | .Malformed | .UnknownKey | .BadSignature => .Unauthorized))
  else .error (reject .RateLimited .TooManyRequests)

/-- `MAX_AUTH_ATTEMPTS_PER_MINUTE`. -/
def maxAuthAttemptsPerMinute : ℕ := 20

theorem maxAuthAttemptsPerMinute_pos : 0 < maxAuthAttemptsPerMinute := by decide

/-- `ip_limiter`, as `AuthService::new` makes it. -/
def ipLimiter : Limiter String where
  quota := .perMinute maxAuthAttemptsPerMinute maxAuthAttemptsPerMinute_pos

/-! ## The handler -/

/-- The requests by the minute that `EventsState::new` asks for. -/
def eventRequestsPerMinute : ℕ := 100

theorem eventRequestsPerMinute_pos : 0 < eventRequestsPerMinute := by decide

/-- `EventRateLimiter::new`. -/
def EventRateLimiter.new (perMinute : ℕ) (h : 0 < perMinute) : Limiter String where
  quota := .perMinute perMinute h

/-- What the handling of a batch meets: the clock at each event, and the failure of the statement,
if it fails. -/
structure BatchEnv where
  clock : ℕ → DateTime
  failure : Option SentinelError

/-- The events that passed, and the reasons why the others did not, each with its place. -/
structure Sorted where
  accepted : List InsertAppEvent := []
  errors : List (ℕ × String) := []

namespace Sorted

/-- One turn of the loop. -/
def next (clock : ℕ → DateTime) (appName : String) (allowlist : List String) (sorted : Sorted)
    (entry : IngestEvent × ℕ) : Sorted :=
  match validateEvent (clock entry.2) appName entry.1 allowlist with
  | .ok insert => { sorted with accepted := sorted.accepted ++ [insert] }
  | .error reason => { sorted with errors := sorted.errors ++ [(entry.2, reason)] }

/-- The loop over the events of a request. -/
def batch (clock : ℕ → DateTime) (appName : String) (allowlist : List String)
    (events : List IngestEvent) : Sorted :=
  events.zipIdx.foldl (next clock appName allowlist) {}

/-- The fields of a report. -/
def report (sorted : Sorted) (accepted : ℕ) : Json :=
  .object [("accepted", .number (toString accepted)),
    ("rejected", .number (toString sorted.errors.length)),
    ("errors", .array (sorted.errors.map fun error =>
      .object [("index", .number (toString error.1)), ("reason", .string error.2)]))]

end Sorted

/-- The handler behind its limiter. -/
def ingestEvents (env : BatchEnv) (appName : String) (allowlist : List String)
    (events : List IngestEvent) : HttpResponse × List InsertAppEvent :=
  if Validate.maxEventsPerRequest < events.length then
    (.error .BadRequest
      ("batch exceeds " ++ toString Validate.maxEventsPerRequest ++ " events"), [])
  else
    let sorted := Sorted.batch env.clock appName allowlist events
    if sorted.accepted = [] ∧ sorted.errors ≠ [] then
      (⟨.UnprocessableEntity, sorted.report 0⟩, [])
    else match AppEventRepository.insertBatch env.failure sorted.accepted with
      | (.ok inserted, stored) => (⟨.Accepted, sorted.report inserted⟩, stored)
      | (.error _, stored) => (.error .InternalServerError "storage failure", stored)

/-- `post_events`: the response, the limiter afterwards, and the rows that were stored. -/
def postEvents (env : BatchEnv) (limiter : Limiter String) (now : Instant) (allowlist : List String)
    (principal : Principal) (events : List IngestEvent) :
    HttpResponse × Limiter String × List InsertAppEvent :=
  if .IngestEvents ∉ principal.permissions then
    (rejectForbidden "key lacks ingest:events", limiter, [])
  else match principal.appName with
    | none =>
      (rejectForbidden "this key is not bound to an app; app keys are required for event ingestion",
        limiter, [])
    | some appName => match limiter.checkKey now principal.keyId with
      | (false, limiter) => (.error .TooManyRequests "rate limit exceeded", limiter, [])
      | (true, limiter) =>
        let (response, stored) := ingestEvents env appName allowlist events
        (response, limiter, stored)

/-! ## What a request comes to -/

section Cases

variable {env : BatchEnv} {limiter : Limiter String} {now : Instant} {allowlist : List String}
  {principal : Principal} {events : List IngestEvent}

/-- The caller may send events, and has an app to send them for. -/
def Principal.MayPost (principal : Principal) : Prop :=
  .IngestEvents ∈ principal.permissions ∧ principal.appName.isSome = true

instance (principal : Principal) : Decidable principal.MayPost :=
  inferInstanceAs (Decidable (_ ∧ _))

/-- A request is refused before the limiter is asked, refused by the limiter, or handled for the app
of its caller. -/
theorem postEvents_cases (env : BatchEnv) (limiter : Limiter String) (now : Instant)
    (allowlist : List String) (principal : Principal) (events : List IngestEvent) :
    (¬ principal.MayPost ∧ ∃ reason,
      postEvents env limiter now allowlist principal events
        = (rejectForbidden reason, limiter, [])) ∨
    (principal.MayPost ∧ (limiter.checkKey now principal.keyId).1 = false ∧
      postEvents env limiter now allowlist principal events
        = (.error .TooManyRequests "rate limit exceeded",
          (limiter.checkKey now principal.keyId).2, [])) ∨
    ∃ appName, principal.MayPost ∧ principal.appName = some appName ∧
      (limiter.checkKey now principal.keyId).1 = true ∧
      postEvents env limiter now allowlist principal events
        = ((ingestEvents env appName allowlist events).1,
          (limiter.checkKey now principal.keyId).2,
          (ingestEvents env appName allowlist events).2) := by
  unfold postEvents
  by_cases hpermission : .IngestEvents ∈ principal.permissions
  · rw [if_neg (not_not.mpr hpermission)]
    cases happ : principal.appName with
    | none =>
      refine Or.inl ⟨fun hmay => ?_, _, rfl⟩
      have hsome := hmay.2
      rw [happ] at hsome
      cases hsome
    | some appName =>
      have hmay : principal.MayPost := ⟨hpermission, by rw [happ]; rfl⟩
      rcases hcheck : limiter.checkKey now principal.keyId with ⟨_ | _, limiter'⟩
      · exact Or.inr (Or.inl ⟨hmay, rfl, rfl⟩)
      · exact Or.inr (Or.inr ⟨appName, hmay, rfl, rfl, rfl⟩)
  · rw [if_pos hpermission]
    exact Or.inl ⟨fun hmay => hpermission hmay.1, _, rfl⟩

/-- Behind the limiter nothing is answered with its status. -/
theorem status_ingestEvents (env : BatchEnv) (appName : String) (allowlist : List String)
    (events : List IngestEvent) :
    (ingestEvents env appName allowlist events).1.status ≠ .TooManyRequests := by
  unfold ingestEvents AppEventRepository.insertBatch
  split
  · exact fun heq => by cases heq
  · dsimp only
    split
    · exact fun heq => by cases heq
    · split
      · exact fun heq => by cases heq
      · exact fun heq => by cases heq

/-! ## The rows of a batch -/

/-- The events that pass become rows, in their order. -/
theorem accepted_batch (clock : ℕ → DateTime) (appName : String) (allowlist : List String)
    (events : List IngestEvent) :
    (Sorted.batch clock appName allowlist events).accepted = events.zipIdx.filterMap fun entry =>
      (validateEvent (clock entry.2) appName entry.1 allowlist).toOption := by
  -- the loop adds to what it has
  have hloop : ∀ (entries : List (IngestEvent × ℕ)) (sorted : Sorted),
      (entries.foldl (Sorted.next clock appName allowlist) sorted).accepted
        = sorted.accepted ++ entries.filterMap fun entry =>
          (validateEvent (clock entry.2) appName entry.1 allowlist).toOption := by
    intro entries
    induction entries with
    | nil => intro sorted; simp
    | cons entry entries ih =>
      intro sorted
      rw [List.foldl_cons, ih, List.filterMap_cons]
      unfold Sorted.next
      cases validateEvent (clock entry.2) appName entry.1 allowlist with
      | ok insert => simp [Except.toOption]
      | error reason => simp [Except.toOption]
  exact hloop events.zipIdx {}

/-- What is stored has passed. -/
theorem stored_subset (env : BatchEnv) (appName : String) (allowlist : List String)
    (events : List IngestEvent) : (ingestEvents env appName allowlist events).2 ⊆
      (Sorted.batch env.clock appName allowlist events).accepted := by
  unfold ingestEvents
  split
  · exact List.nil_subset _
  · dsimp only
    split
    · exact List.nil_subset _
    · have hsubset := AppEventRepository.insertBatch_subset env.failure
        (Sorted.batch env.clock appName allowlist events).accepted
      rcases hinsert : AppEventRepository.insertBatch env.failure
        (Sorted.batch env.clock appName allowlist events).accepted with ⟨_ | inserted, stored⟩
      · rw [hinsert] at hsubset
        exact hsubset
      · rw [hinsert] at hsubset
        exact hsubset

/-- Rows are stored under the name of the app, whatever the events say. -/
theorem appName_of_ingestEvents {appName : String} {row : InsertAppEvent}
    (h : row ∈ (ingestEvents env appName allowlist events).2) : row.appName = appName := by
  have haccepted := stored_subset env appName allowlist events h
  rw [accepted_batch] at haccepted
  obtain ⟨entry, -, hentry⟩ := List.mem_filterMap.mp haccepted
  cases hvalid : validateEvent (env.clock entry.2) appName entry.1 allowlist with
  | error reason =>
    rw [hvalid] at hentry
    cases hentry
  | ok insert =>
    rw [hvalid] at hentry
    obtain rfl := Option.some.inj hentry
    obtain ⟨-, rfl⟩ := validateEvent_eq_ok.mp hvalid
    rfl

end Cases

end Sentinalysis.Hub
