/-
# Sentinalysis.Hub.RestApp — the REST application: what is registered, and what is around it.

A request goes to the first service whose path it is under, through the middleware around that
service: the key is asked for before the route is known, and the security headers are put on what
comes back from behind the key.
-/
import Sentinalysis.Hub.AuthSoundness
import Sentinalysis.Hub.RateLimits
import Sentinalysis.Hub.Servers
import Sentinalysis.Hub.Summary
import Sentinalysis.Lib.Routing

namespace Sentinalysis.Hub.RestApp

open Lib Db Routing

/-! ## Requests and responses -/

inductive Method
  | GET
  | POST
  | other (name : String)
  deriving DecidableEq, Repr

/-- Header names are compared without their case, and the first value of a name counts. -/
abbrev HeaderMap (α : Type) := List (String × α)

namespace HeaderMap

variable {α : Type}

def get (headers : HeaderMap α) (name : String) : Option α := headers.lookup name.toLower

/-- `insert`: the values under the name are replaced. -/
def insert (headers : HeaderMap α) (name : String) (value : α) : HeaderMap α :=
  headers.filter (·.1 ≠ name.toLower) ++ [(name.toLower, value)]

theorem get_insert_self (headers : HeaderMap α) (name : String) (value : α) :
    (headers.insert name value).get name = some value := by
  unfold get insert
  rw [List.lookup_append]
  have hnone : (headers.filter (·.1 ≠ name.toLower)).lookup name.toLower = none := by
    rw [List.lookup_eq_none_iff]
    intro entry hentry
    have hne := of_decide_eq_true (List.mem_filter.mp hentry).2
    simpa using fun heq => hne heq.symm
  rw [hnone, Option.none_or]
  simp

theorem get_insert_of_ne (headers : HeaderMap α) {name other : String} (value : α)
    (h : other.toLower ≠ name.toLower) :
    (headers.insert name value).get other = headers.get other := by
  unfold get insert
  rw [List.lookup_append]
  have hnone : [(name.toLower, value)].lookup other.toLower = none := by simp [h]
  rw [hnone, Option.or_none]
  induction headers with
  | nil => rfl
  | cons entry headers ih =>
    obtain ⟨key, held⟩ := entry
    by_cases hkey : key = name.toLower
    · rw [List.filter_cons_of_neg (by simpa using hkey), ih, List.lookup_cons]
      have hskip : (other.toLower == key) = false := by simpa [hkey] using h
      rw [hskip]
    · rw [List.filter_cons_of_pos (by simpa using hkey), List.lookup_cons, List.lookup_cons, ih]

variable {inserted : List (String × α)} {name : String} {value : α}

theorem get_foldl_insert_of_ne (headers : HeaderMap α)
    (h : ∀ header ∈ inserted, name.toLower ≠ header.1.toLower) :
    (inserted.foldl (fun headers header => headers.insert header.1 header.2) headers).get name
      = headers.get name := by
  induction inserted generalizing headers with
  | nil => rfl
  | cons header inserted ih =>
    rw [List.forall_mem_cons] at h
    rw [List.foldl_cons, ih _ h.2, get_insert_of_ne headers header.2 h.1]

/-- What is inserted under several names is all there. -/
theorem get_foldl_insert (headers : HeaderMap α)
    (hnames : (inserted.map (·.1.toLower)).Nodup) (h : (name, value) ∈ inserted) :
    (inserted.foldl (fun headers header => headers.insert header.1 header.2) headers).get name
      = some value := by
  induction inserted generalizing headers with
  | nil => cases h
  | cons header inserted ih =>
    rw [List.map_cons, List.nodup_cons] at hnames
    rw [List.foldl_cons]
    rcases List.mem_cons.mp h with rfl | hrest
    · rw [get_foldl_insert_of_ne, get_insert_self]
      intro header hheader heq
      exact hnames.1 (List.mem_map.mpr ⟨header, hheader, heq.symm⟩)
    · exact ih _ hnames.2 hrest

end HeaderMap

/-- What an extractor answers when it cannot read a request. -/
structure ExtractError where
  status : ℕ
  message : String
  deriving DecidableEq, Repr

/-- A request, as the router sees it. Header values that are no visible text have none; the body and
the query are what the extractors read, each for the handler that asks for it. -/
structure Request where
  method : Method
  path : Routing.Path
  peerAddr : Option String := none
  headers : HeaderMap (Option String) := []
  body : Except ExtractError (List IngestEvent) := .error ⟨400, "Json deserialize error"⟩
  metricsQuery : Except ExtractError MetricsQuery := .ok ⟨none, none⟩
  eventsQuery : Except ExtractError EventsQuery := .ok ⟨none, none, none, none, none⟩
  /-- the extension that the middleware inserts -/
  principal : Option Principal := none

/-- `extract_key`: `X-API-KEY`, then `Authorization: Bearer`. -/
def extractKey (headers : HeaderMap (Option String)) : Option String :=
  match (headers.get "X-API-KEY").join with
  | some value => some value
  | none => (headers.get "Authorization").join.bind fun value =>
    if Text.startsWith value "Bearer " then some (String.ofList (value.toList.drop 7)) else none

/-- `client_ip`. -/
def clientIp (request : Request) : String := request.peerAddr.getD "unknown"

/-- The bodies of the application, with their statuses. -/
inductive Body
  | health
  | json (response : HttpResponse)
  | text (error : ExtractError)
  | metrics (points : List MetricPointDto)
  | events (response : EventsResponse)
  | servers (agents : List AgentDto)
  | summary (response : SummaryResponse)
  | notFound
  | file (status : ℕ) (contents : String)
  | indexMissing
  | placeholder

/-- The body is read from the tables. -/
def Body.IsData : Body → Prop
  | .metrics _ | .events _ | .servers _ | .summary _ => True
  | _ => False

structure Response where
  headers : HeaderMap String := []
  body : Body

/-- `CONTENT_SECURITY_POLICY`. -/
def contentSecurityPolicy : String :=
  "default-src 'self'; script-src 'self'; style-src 'self' 'unsafe-inline'; "
    ++ "img-src 'self' data:; connect-src 'self'; frame-ancestors 'none'; "
    ++ "base-uri 'self'; form-action 'self'"

/-- `SECURITY_HEADERS`. -/
def securityHeaders : List (String × String) := [
  ("Content-Security-Policy", contentSecurityPolicy),
  ("X-Content-Type-Options", "nosniff"),
  ("X-Frame-Options", "DENY"),
  ("Referrer-Policy", "no-referrer"),
  ("Cross-Origin-Opener-Policy", "same-origin")]

/-- All the security headers are on a response. -/
def Response.Hardened (response : Response) : Prop :=
  ∀ header ∈ securityHeaders, response.headers.get header.1 = some header.2

/-! ## What a request meets -/

/-- The tables that the dashboard reads. -/
structure Stored where
  metrics : MetricStore
  events : EventStore
  agents : Agents

/-- The clocks, the failures of statements and what the libraries answer, while a request is
handled; the key table is in `auth`. -/
structure Env where
  time : Instant
  worker : Fin RateLimits.restWorkers
  auth : Surroundings
  batch : BatchEnv
  toRfc3339 : DateTime → String
  avg : Averages
  collation : Collation
  now : DateTime
  failure : Option SentinelError
  summary : SummaryEnv
  stored : Stored

/-- What the hub keeps in memory. -/
structure App where
  auth : AuthService.State := {}
  ipLimiter : Limiter String := Hub.ipLimiter
  limiters : Fin RateLimits.restWorkers → Limiter String :=
    fun _ => EventRateLimiter.new eventRequestsPerMinute eventRequestsPerMinute_pos

/-- What a request comes to: the response, whom the key stood for, and the rows that were stored. -/
structure Served where
  response : Response
  caller : Option Principal := none
  stored : List InsertAppEvent := []
  app : App

abbrev Handler := Env → Request → App → Served

/-! ## Handlers -/

/-- `health`. -/
def health : Handler := fun _ _ app => { response := { body := .health }, app := app }

/-- The default of a scope that has none. -/
def notFound : Handler := fun _ _ app => { response := { body := .notFound }, app := app }

/-- `PrincipalExtractor`, before whatever else a handler asks for. -/
def withPrincipal (handler : Principal → Handler) : Handler := fun env request app =>
  match request.principal with
  | some principal => handler principal env request app
  | none => { response := { body := .text ⟨401, "authentication required"⟩ }, app := app }

/-- The body or the query of a request, for a handler. -/
def withExtracted {α : Type} (read : Request → Except ExtractError α) (handler : α → Handler) :
    Handler := fun env request app =>
  match read request with
  | .ok a => handler a env request app
  | .error e => { response := { body := .text e }, app := app }

/-- `post_events`, with the limiter of the worker. -/
def postEvents (allowlist : List String) : Handler :=
  withPrincipal fun principal => withExtracted (·.body) fun events env _ app =>
    let (response, limiter, stored) := Hub.postEvents env.batch (app.limiters env.worker) env.time
      allowlist principal events
    { response := { body := .json response }
      stored := stored
      app := { app with limiters := Function.update app.limiters env.worker limiter } }

/-- What a handler of the dashboard answers. -/
def reply {α : Type} (body : α → Body) (answer : Except HttpResponse α) (app : App) : Served where
  response := { body := match answer with
    | .ok a => body a
    | .error response => .json response }
  app := app

/-- `get_metrics`. -/
def getMetrics : Handler :=
  withPrincipal fun principal => withExtracted (·.metricsQuery) fun query env _ app =>
    reply .metrics (Hub.getMetrics env.toRfc3339 env.avg env.stored.metrics principal env.failure
      query) app

/-- `get_app_events`. -/
def getAppEvents : Handler :=
  withPrincipal fun principal => withExtracted (·.eventsQuery) fun query env _ app =>
    reply .events (Hub.getAppEvents env.toRfc3339 env.stored.events principal env.failure query) app

/-- `get_servers`. -/
def getServers : Handler := withPrincipal fun principal env _ app =>
  reply .servers (Hub.getServers env.toRfc3339 env.collation env.stored.agents env.now principal
    env.failure) app

/-- `get_summary`. -/
def getSummary : Handler := withPrincipal fun principal env _ app =>
  reply .summary (Hub.getSummary env.summary env.stored.events env.stored.metrics principal) app

/-! ## Middleware -/

/-- `SecurityHeadersMiddleware::call`. -/
def SecurityHeaders (service : Handler) : Handler := fun env request app =>
  let served := service env request app
  { served with response := { served.response with
    headers := securityHeaders.foldl (fun headers header => headers.insert header.1 header.2)
      served.response.headers } }

/-- A call of `authenticate`, with its place in the history. -/
def App.authenticate (argon2 : Argon2) (app : App) (env : Surroundings) (rawKey : String) :
    Except AuthError Principal × App :=
  let (result, cache) := Hub.authenticate argon2 env app.auth.cache rawKey
  let call : AuthService.Call := { rawKey := rawKey, env := env, result := result }
  (result, { app with auth := {
    cache := cache
    history := app.auth.history ++ [.authenticated call] } })

/-- `KeyAuthMiddleware::call`: a request over the budget of its address is not looked at. -/
def KeyAuth (argon2 : Argon2) (service : Handler) : Handler := fun env request app =>
  let (withinBudget, ipLimiter) := app.ipLimiter.checkKey env.time (clientIp request)
  let app := { app with ipLimiter := ipLimiter }
  let rawKey := extractKey request.headers
  let called := match withinBudget, rawKey with
    | true, some rawKey => (app.authenticate argon2 env.auth rawKey).2
    | _, _ => app
  match keyAuth withinBudget rawKey fun rawKey => (app.authenticate argon2 env.auth rawKey).1 with
  | .ok principal =>
    let served := service env { request with principal := some principal } called
    { served with caller := some principal }
  | .error response => { response := { body := .json response }, app := called }

/-! ## The application -/

/-- The parts of the configuration: the allowed types of events, what the file service answers by
itself, and `index.html`, if the dashboard is built. -/
structure Config where
  allowedEventTypes : List String := []
  files : Method → Routing.Path → Option (ℕ × String) := fun _ _ => none
  index : Option String := none
  built : Bool := false

/-- The dashboard: a file, or `index.html` for what is none. -/
def spa (config : Config) : Handler := fun _ request app =>
  { response := { body :=
      if config.built then
        match config.files request.method request.path, config.index with
        | some (status, contents), _ => .file status contents
        | none, some contents => .file 200 contents
        | none, none => .indexMissing
      else .placeholder }
    app := app }

/-- The routes of `web::scope("/v1")`. -/
def ingestRoutes (config : Config) : List (Route Method Handler) :=
  [⟨.POST, ["events"], postEvents config.allowedEventTypes⟩]

/-- The routes of `web::scope("/api/v1")`. -/
def readRoutes : List (Route Method Handler) := [
  ⟨.GET, ["metrics"], getMetrics⟩,
  ⟨.GET, ["events"], getAppEvents⟩,
  ⟨.GET, ["servers"], getServers⟩,
  ⟨.GET, ["summary"], getSummary⟩]

/-- `configure_app`. -/
def services (argon2 : Argon2) (config : Config) : List (Service Method Handler) := [
  .resource ⟨.GET, ["api", "v1", "health"], health⟩,
  ((Service.scope ["v1"] (ingestRoutes config) notFound).wrap SecurityHeaders).wrap
    (KeyAuth argon2),
  ((Service.scope ["api", "v1"] readRoutes notFound).wrap SecurityHeaders).wrap (KeyAuth argon2),
  (Service.scope [] [] (spa config)).wrap SecurityHeaders]

def serve (argon2 : Argon2) (config : Config) : Handler := fun env request app =>
  dispatch (services argon2 config) notFound request.method request.path env request app

end Sentinalysis.Hub.RestApp
