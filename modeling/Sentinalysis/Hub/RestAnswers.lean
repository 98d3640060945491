/-
# Sentinalysis.Hub.RestAnswers — what the REST application answers, over every run.

Whatever is asked and in whatever order: data and stored rows are for callers that were let in with
a key that has the permission, and the security headers are on everything but the health probe and
what is turned away at the door.  What the tables hold makes no difference to a caller that may not
read the dashboard.
-/
import Sentinalysis.Hub.EventAccounting
import Sentinalysis.Hub.RestApp

namespace Sentinalysis.Hub.RestApp

open Lib Db Routing

/-- A request, and what it meets. -/
structure Label where
  request : Request
  env : Env

/-- A request and what came of it. -/
structure Answer where
  request : Request
  response : Response
  caller : Option Principal
  stored : List InsertAppEvent

structure State where
  app : App := {}
  answers : List Answer := []

/-- The application: requests, one after the other. -/
def rest (argon2 : Argon2) (config : Config) : Machine State Label where
  step s label :=
    let served := serve argon2 config label.env label.request s.app
    some {
      app := served.app
      answers := s.answers ++
        [⟨label.request, served.response, served.caller, served.stored⟩] }

/-! ## Where a request goes -/

/-- `GET /api/v1/health`. -/
def Request.IsHealthProbe (request : Request) : Prop :=
  request.method = .GET ∧ request.path = ["api", "v1", "health"]

instance (request : Request) : Decidable request.IsHealthProbe :=
  inferInstanceAs (Decidable (_ ∧ _))

/-- The path is under one of the scopes that ask for a key, and the request is not the probe. -/
def Request.IsApi (request : Request) : Prop :=
  ¬ request.IsHealthProbe ∧ (["v1"] <+: request.path ∨ ["api", "v1"] <+: request.path)

/-- What the scopes serve behind the middleware. -/
def handlers (config : Config) : List Handler :=
  (ingestRoutes config ++ readRoutes).map Route.handler ++ [notFound]

/-- A scope serves one of the handlers when its routes lead to them. -/
theorem handler_scope_mem {config : Config} {routes : List (Route Method Handler)}
    (root : Routing.Path) (request : Request) (h : routes ⊆ ingestRoutes config ++ readRoutes) :
    (Service.scope root routes notFound).handler request.method request.path ∈ handlers config := by
  rcases Service.handler_scope_cases request.method request.path root routes notFound with
    ⟨route, hroute, heq⟩ | heq
  · rw [heq]
    exact List.mem_append_left _ (List.mem_map_of_mem (h hroute))
  · rw [heq]
    exact List.mem_append_right _ (List.mem_singleton_self _)

/-- A request is the probe, goes through both middlewares to a handler, or is for the dashboard. -/
theorem serve_cases (argon2 : Argon2) (config : Config) (request : Request) :
    (request.IsHealthProbe ∧ ∀ env app,
      serve argon2 config env request app = health env request app) ∨
    (request.IsApi ∧ ∃ handler ∈ handlers config, ∀ env app,
      serve argon2 config env request app
        = KeyAuth argon2 (SecurityHeaders handler) env request app) ∨
    (¬ request.IsHealthProbe ∧ ¬ request.IsApi ∧ ∀ env app,
      serve argon2 config env request app = SecurityHeaders (spa config) env request app) := by
  have hprobe_comm : (Method.GET = request.method ∧ ["api", "v1", "health"] = request.path) ↔
      request.IsHealthProbe := and_congr eq_comm eq_comm
  unfold serve services
  simp only [dispatch_cons, Service.takes_wrap, Service.handler_wrap, Service.takes_resource,
    Service.takes_scope, Service.handler_resource, Service.handler_scope_nil, hprobe_comm,
    List.nil_prefix, if_true]
  by_cases hprobe : request.IsHealthProbe
  · rw [if_pos hprobe]
    exact Or.inl ⟨hprobe, fun _ _ => rfl⟩
  · rw [if_neg hprobe]
    by_cases hingest : ["v1"] <+: request.path
    · rw [if_pos hingest]
      exact Or.inr (Or.inl ⟨⟨hprobe, Or.inl hingest⟩, _,
        handler_scope_mem _ request (List.subset_append_left _ _), fun _ _ => rfl⟩)
    · rw [if_neg hingest]
      by_cases hread : ["api", "v1"] <+: request.path
      · rw [if_pos hread]
        exact Or.inr (Or.inl ⟨⟨hprobe, Or.inr hread⟩, _,
          handler_scope_mem _ request (List.subset_append_right _ _), fun _ _ => rfl⟩)
      · rw [if_neg hread]
        exact Or.inr (Or.inr ⟨hprobe, fun hapi => hapi.2.elim hingest hread, fun _ _ => rfl⟩)

/-! ## Handlers -/

/-- A caller without the permission gets the same from every handler of the dashboard. -/
theorem requireDashboard_bind_of_not {α : Type} {principal : Principal}
    (h : .ReadDashboard ∉ principal.permissions) (rest : Unit → Except HttpResponse α) :
    (requireDashboard principal >>= rest)
      = .error (.error .Forbidden "key lacks read:dashboard") := by
  unfold requireDashboard
  rw [if_neg h]
  rfl

/-- What a handler does for a caller. -/
structure Behaves (principal : Principal) (app : App) (served : Served) : Prop where
  auth : served.app.auth = app.auth
  data : served.response.body.IsData → .ReadDashboard ∈ principal.permissions
  stored : served.stored ≠ [] → principal.MayPost ∧
    ∀ event ∈ served.stored, some event.appName = principal.appName

section Handlers

variable {config : Config} {handler : Handler} {env : Env} {request : Request} {app : App}
  {principal : Principal}

/-- A handler that answers by itself. -/
theorem behaves_plain {body : Body} (hbody : ¬ body.IsData) :
    Behaves principal app { response := { body := body }, app := app } where
  auth := rfl
  data := fun hdata => absurd hdata hbody
  stored := fun hstored => absurd rfl hstored

/-- A handler that asks for the permission first. -/
theorem behaves_reply {α : Type} (body : α → Body) (rest : Unit → Except HttpResponse α) :
    Behaves principal app (reply body (requireDashboard principal >>= rest) app) where
  auth := rfl
  data := by
    intro hdata
    by_contra hnot
    rw [requireDashboard_bind_of_not hnot] at hdata
    exact hdata
  stored := fun hstored => absurd rfl hstored

theorem appName_of_ingestEvents {batch : BatchEnv} {appName : String} {allowlist : List String}
    {events : List IngestEvent} :
    ∀ event ∈ (ingestEvents batch appName allowlist events).2, event.appName = appName := by
  intro event hevent
  unfold ingestEvents at hevent
  split at hevent
  · cases hevent
  · dsimp only at hevent
    split at hevent
    · cases hevent
    · have hsub := AppEventRepository.insertBatch_subset batch.failure
        (Sorted.batch batch.clock appName allowlist events).accepted
      split at hevent <;> rename_i hinsert <;> rw [hinsert] at hsub <;>
        exact (Sorted.accounts_batch batch.clock appName allowlist events).named event (hsub hevent)

theorem behaves_postEvents (allowlist : List String)
    (hprincipal : request.principal = some principal) :
    Behaves principal app (postEvents allowlist env request app) := by
  unfold postEvents withPrincipal withExtracted
  simp only [hprincipal]
  cases request.body with
  | error e => exact behaves_plain id
  | ok events =>
    dsimp only
    refine ⟨rfl, False.elim, fun hstored => ?_⟩
    rcases postEvents_cases env.batch (app.limiters env.worker) env.time allowlist principal events
      with ⟨-, reason, hpost⟩ | ⟨-, -, hpost⟩ | ⟨appName, hmay, happ, -, hpost⟩
    · simp only [hpost, ne_eq, not_true_eq_false] at hstored
    · simp only [hpost, ne_eq, not_true_eq_false] at hstored
    · refine ⟨hmay, ?_⟩
      simp only [hpost, happ, Option.some.injEq]
      exact appName_of_ingestEvents

/-- **Every handler behaves**, for the caller that the middleware hands to it. -/
theorem behaves_of_mem (env : Env) (app : App) (hhandler : handler ∈ handlers config)
    (hprincipal : request.principal = some principal) :
    Behaves principal app (handler env request app) := by
  simp only [handlers, ingestRoutes, readRoutes, List.map_append, List.map_cons, List.map_nil,
    List.mem_append, List.mem_cons, List.not_mem_nil, or_false, or_assoc] at hhandler
  rcases hhandler with rfl | rfl | rfl | rfl | rfl | rfl
  · exact behaves_postEvents _ hprincipal
  · unfold getMetrics withPrincipal withExtracted
    simp only [hprincipal]
    cases request.metricsQuery with
    | error e => exact behaves_plain id
    | ok query => exact behaves_reply _ _
  · unfold getAppEvents withPrincipal withExtracted
    simp only [hprincipal]
    cases request.eventsQuery with
    | error e => exact behaves_plain id
    | ok query => exact behaves_reply _ _
  · unfold getServers withPrincipal
    simp only [hprincipal]
    exact behaves_reply _ _
  · unfold getSummary withPrincipal
    simp only [hprincipal]
    exact behaves_reply _ _
  · exact behaves_plain id

/-- A handler reads the tables for who may read the dashboard only. -/
theorem handler_withStored (env : Env) (app : App) (hhandler : handler ∈ handlers config)
    (hprincipal : request.principal = some principal)
    (hnot : .ReadDashboard ∉ principal.permissions) (stored : Stored) :
    handler { env with stored := stored } request app = handler env request app := by
  have hsame : ∀ {α : Type} (body : α → Body) (rest rest' : Unit → Except HttpResponse α),
      reply body (requireDashboard principal >>= rest) app
        = reply body (requireDashboard principal >>= rest') app := by
    intro α body rest rest'
    rw [requireDashboard_bind_of_not hnot, requireDashboard_bind_of_not hnot]
  simp only [handlers, ingestRoutes, readRoutes, List.map_append, List.map_cons, List.map_nil,
    List.mem_append, List.mem_cons, List.not_mem_nil, or_false, or_assoc] at hhandler
  rcases hhandler with rfl | rfl | rfl | rfl | rfl | rfl
  · rfl
  · unfold getMetrics withPrincipal withExtracted
    simp only [hprincipal]
    cases request.metricsQuery with
    | error e => rfl
    | ok query => exact hsame _ _ _
  · unfold getAppEvents withPrincipal withExtracted
    simp only [hprincipal]
    cases request.eventsQuery with
    | error e => rfl
    | ok query => exact hsame _ _ _
  · unfold getServers withPrincipal
    simp only [hprincipal]
    exact hsame _ _ _
  · unfold getSummary withPrincipal
    simp only [hprincipal]
    exact hsame _ _ _
  · rfl

end Handlers

/-! ## The middleware -/

theorem hardened_securityHeaders (service : Handler) (env : Env) (request : Request) (app : App) :
    (SecurityHeaders service env request app).response.Hardened := fun _ hheader =>
  HeaderMap.get_foldl_insert _ (by decide +kernel) hheader

theorem not_hardened_nil (body : Body) : ¬ Response.Hardened { body := body } := by
  intro h
  have hfirst := h _ List.mem_cons_self
  cases hfirst

section KeyAuth

variable {argon2 : Argon2} {service : Handler} {env : Env} {request : Request} {app : App}

/-- The key of a request stands for a caller, as far as the hub knows. -/
def Admits (argon2 : Argon2) (env : Env) (request : Request) (app : App) (principal : Principal) :
    Prop :=
  ∃ rawKey, extractKey request.headers = some rawKey ∧
    (app.authenticate argon2 env.auth rawKey).1 = .ok principal

/-- A request is turned away, or its caller is handed to the service; a key that was looked at is
in the history. -/
theorem keyAuth_cases (argon2 : Argon2) (service : Handler) (env : Env) (request : Request)
    (app : App) :
    (∃ response called, (called.auth = app.auth ∨ ∃ rawKey,
        extractKey request.headers = some rawKey ∧
        called.auth = (app.authenticate argon2 env.auth rawKey).2.auth) ∧
      KeyAuth argon2 service env request app
        = { response := { body := .json response }, app := called }) ∨
    ∃ rawKey principal called, extractKey request.headers = some rawKey ∧
      (app.authenticate argon2 env.auth rawKey).1 = .ok principal ∧
      called.auth = (app.authenticate argon2 env.auth rawKey).2.auth ∧
      KeyAuth argon2 service env request app
        = { service env { request with principal := some principal } called with
            caller := some principal } := by
  unfold KeyAuth
  rcases app.ipLimiter.checkKey env.time (clientIp request) with ⟨withinBudget, ipLimiter⟩
  let limited : App := { app with ipLimiter := ipLimiter }
  cases withinBudget with
  | false => exact Or.inl ⟨_, limited, Or.inl rfl, rfl⟩
  | true =>
    cases hkey : extractKey request.headers with
    | none => exact Or.inl ⟨_, limited, Or.inl rfl, rfl⟩
    | some rawKey =>
      let called := (limited.authenticate argon2 env.auth rawKey).2
      dsimp only [keyAuth]
      rw [if_pos rfl]
      cases hcall : (limited.authenticate argon2 env.auth rawKey).1 with
      | error e => exact Or.inl ⟨_, called, Or.inr ⟨rawKey, rfl, rfl⟩, rfl⟩
      | ok principal => exact Or.inr ⟨rawKey, principal, called, rfl, hcall, rfl, rfl⟩

/-- What is behind the middleware matters for the callers that are let in only. -/
theorem keyAuth_withStored {stored : Stored}
    (h : ∀ principal called, Admits argon2 env request app principal →
      service { env with stored := stored } { request with principal := some principal } called
        = service env { request with principal := some principal } called) :
    KeyAuth argon2 service { env with stored := stored } request app
      = KeyAuth argon2 service env request app := by
  unfold KeyAuth
  dsimp only
  rcases app.ipLimiter.checkKey env.time (clientIp request) with ⟨_ | _, ipLimiter⟩
  · rfl
  · cases hkey : extractKey request.headers with
    | none => rfl
    | some rawKey =>
      dsimp only [keyAuth]
      rw [if_pos rfl]
      cases hcall : (({ app with ipLimiter := ipLimiter } : App).authenticate argon2 env.auth
          rawKey).1 with
      | error e => rfl
      | ok principal =>
        dsimp only
        rw [h principal _ ⟨rawKey, hkey, hcall⟩]

end KeyAuth

/-! ## Every answer -/

/-- The caller of an answer was let in with the key of the request: the key was verified, or the
caller was vouched for within the last minute. -/
def Answer.LetIn (argon2 : Argon2) (history : List AuthService.Event) (answer : Answer)
    (principal : Principal) : Prop :=
  ∃ before call after, history = before ++ .authenticated call :: after ∧
    extractKey answer.request.headers = some call.rawKey ∧
    parseKeyId call.rawKey = some principal.keyId ∧
    (call.Verified argon2 principal ∨ ∃ since,
      AuthService.Vouched argon2 before principal since ∧ call.env.readAt ≤ since + cacheTtl)

/-- What can be said of an answer, whatever the request was. -/
structure Answer.Sound (argon2 : Argon2) (history : List AuthService.Event) (answer : Answer) :
    Prop where
  hardened : answer.response.Hardened ↔ ¬ answer.request.IsHealthProbe ∧
    (answer.request.IsApi → answer.caller.isSome = true)
  caller : ∀ principal ∈ answer.caller,
    answer.request.IsApi ∧ answer.LetIn argon2 history principal
  data : answer.response.body.IsData →
    ∃ principal ∈ answer.caller, .ReadDashboard ∈ principal.permissions
  stored : answer.stored ≠ [] → ∃ principal ∈ answer.caller, principal.MayPost ∧
    ∀ event ∈ answer.stored, some event.appName = principal.appName

section Sound

variable {argon2 : Argon2} {config : Config} {history : List AuthService.Event} {answer : Answer}
  {env : Env} {request : Request} {app : App}

theorem Answer.Sound.mono (h : answer.Sound argon2 history) (more : List AuthService.Event) :
    answer.Sound argon2 (history ++ more) where
  hardened := h.hardened
  caller := by
    intro principal hprincipal
    obtain ⟨hapi, before, call, after, rfl, hrest⟩ := h.caller principal hprincipal
    exact ⟨hapi, before, call, after ++ more, by rw [List.append_assoc, List.cons_append], hrest⟩
  data := h.data
  stored := h.stored

/-- An answer that is plain, to a request that nobody was let in for. -/
theorem sound_plain {response : Response} (hdata : ¬ response.body.IsData)
    (hhardened : response.Hardened ↔ ¬ request.IsHealthProbe ∧ ¬ request.IsApi) :
    Answer.Sound argon2 history ⟨request, response, none, []⟩ where
  hardened := by simpa using hhardened
  caller := fun _ h => by cases h
  data := fun h => absurd h hdata
  stored := fun h => absurd rfl h

/-- A call is an event of the history. -/
theorem history_authenticate (argon2 : Argon2) (app : App) (env : Surroundings) (rawKey : String) :
    (app.authenticate argon2 env rawKey).2.auth.history = app.auth.history ++
      [.authenticated ⟨rawKey, env, (app.authenticate argon2 env rawKey).1⟩] := rfl

theorem invariant_authenticate (h : AuthService.Invariant argon2 app.auth) (env : Surroundings)
    (rawKey : String) : AuthService.Invariant argon2 (app.authenticate argon2 env rawKey).2.auth :=
  h.authenticate rawKey env rfl

/-- One request: the service stays as it has to be, its history grows, and the answer is sound. -/
theorem sound_serve (config : Config) (h : AuthService.Invariant argon2 app.auth) (env : Env)
    (request : Request) :
    let served := serve argon2 config env request app
    AuthService.Invariant argon2 served.app.auth ∧
      (∃ more, served.app.auth.history = app.auth.history ++ more) ∧
      Answer.Sound argon2 served.app.auth.history
        ⟨request, served.response, served.caller, served.stored⟩ := by
  intro served
  rcases serve_cases argon2 config request with
    ⟨hprobe, hserve⟩ | ⟨hapi, handler, hhandler, hserve⟩ | ⟨hprobe, hapi, hserve⟩
  · have hserved : served = health env request app := hserve env app
    rw [hserved]
    refine ⟨h, ⟨[], (List.append_nil _).symm⟩, sound_plain id ?_⟩
    exact iff_of_false (not_hardened_nil _) fun hboth => hboth.1 hprobe
  · have hserved : served = KeyAuth argon2 (SecurityHeaders handler) env request app :=
      hserve env app
    rcases keyAuth_cases argon2 (SecurityHeaders handler) env request app with
      ⟨response, called, hcalled, hkey⟩ |
        ⟨rawKey, principal, called, hextract, hcall, hcalled, hkey⟩
    · rw [hserved, hkey]
      have hplain : ∀ history, Answer.Sound argon2 history
          ⟨request, { body := .json response }, none, []⟩ := fun history =>
        sound_plain id (iff_of_false (not_hardened_nil _) fun hboth => hboth.2 hapi)
      rcases hcalled with hcalled | ⟨rawKey, -, hcalled⟩ <;> simp only [hcalled]
      · exact ⟨h, ⟨[], (List.append_nil _).symm⟩, hplain _⟩
      · exact ⟨invariant_authenticate h env.auth rawKey, ⟨_, history_authenticate ..⟩, hplain _⟩
    · rw [hserved, hkey]
      have hbehaves := behaves_of_mem env called hhandler
        (show ({ request with principal := some principal } : Request).principal = some principal
          from rfl)
      have hauth : (SecurityHeaders handler env { request with principal := some principal }
          called).app.auth = (app.authenticate argon2 env.auth rawKey).2.auth :=
        hbehaves.auth.trans hcalled
      have hinvariant := invariant_authenticate h env.auth rawKey
      simp only [hauth]
      refine ⟨hinvariant, ⟨_, history_authenticate ..⟩, ?_, ?_, ?_, ?_⟩
      · exact iff_of_true (hardened_securityHeaders _ _ _ _) ⟨hapi.1, fun _ => rfl⟩
      · rintro _ ⟨⟩
        obtain ⟨hparse, hvouched⟩ := hinvariant.accepted app.auth.history _ [] principal
          (history_authenticate ..) hcall
        exact ⟨hapi, app.auth.history, _, [], history_authenticate .., hextract, hparse, hvouched⟩
      · exact fun hdata => ⟨principal, rfl, hbehaves.data hdata⟩
      · exact fun hstored => ⟨principal, rfl, hbehaves.stored hstored⟩
  · have hserved : served = SecurityHeaders (spa config) env request app := hserve env app
    rw [hserved]
    refine ⟨h, ⟨[], (List.append_nil _).symm⟩, sound_plain ?_ ?_⟩
    · simp only [SecurityHeaders, spa]
      split
      · split <;> exact id
      · exact id
    · exact iff_of_true (hardened_securityHeaders _ _ _ _) ⟨hprobe, hapi⟩

/-- What is true after every run. -/
structure Invariant (argon2 : Argon2) (s : State) : Prop where
  auth : AuthService.Invariant argon2 s.app.auth
  answers : ∀ answer ∈ s.answers, answer.Sound argon2 s.app.auth.history

theorem Invariant.init (argon2 : Argon2) : Invariant argon2 {} where
  auth := {
    cached := fun _ _ h => by cases h
    accepted := fun before _ _ _ h => by cases before <;> cases h }
  answers := List.forall_mem_nil _

theorem Invariant.step {s t : State} {label : Label} (h : Invariant argon2 s)
    (hstep : (rest argon2 config).step s label = some t) : Invariant argon2 t := by
  obtain rfl := Option.some.inj hstep
  obtain ⟨hauth, ⟨more, hmore⟩, hsound⟩ :=
    sound_serve config h.auth label.env label.request
  refine ⟨hauth, fun answer hanswer => ?_⟩
  rcases List.mem_append.mp hanswer with hold | hnew
  · show answer.Sound argon2 (serve argon2 config label.env label.request s.app).app.auth.history
    rw [hmore]
    exact (h.answers answer hold).mono more
  · rw [List.mem_singleton.mp hnew]
    exact hsound

end Sound

/-! ## Without the permission to read -/

/-- The same request, over other tables. -/
def Label.SameButTables (label label' : Label) : Prop :=
  ∃ stored, label' = { label with env := { label.env with stored := stored } }

/-- Whoever the key of a request is verified for may not read the dashboard. -/
def Label.MayNotRead (argon2 : Argon2) (label : Label) : Prop :=
  ∀ rawKey principal, extractKey label.request.headers = some rawKey →
    Verified argon2 label.env.auth rawKey principal → .ReadDashboard ∉ principal.permissions

/-- Nobody in the cache may read the dashboard. -/
def NoReaders (app : App) : Prop :=
  ∀ keyId entry, app.auth.cache.map keyId = some entry →
    .ReadDashboard ∉ entry.principal.permissions

section Blind

variable {argon2 : Argon2} {config : Config} {label label' : Label} {s t : State}

/-- Whom a request is let in as may not read, when nobody in the cache may. -/
theorem not_reader_of_admits (hlabel : label.MayNotRead argon2) {app : App} (h : NoReaders app)
    {principal : Principal} (hadmits : Admits argon2 label.env label.request app principal) :
    .ReadDashboard ∉ principal.permissions := by
  obtain ⟨rawKey, hextract, hcall⟩ := hadmits
  simp only [App.authenticate] at hcall
  rcases authenticate_cases argon2 label.env.auth app.auth.cache rawKey with
    ⟨e, heq⟩ | ⟨keyId, cached, -, hget, heq⟩ | ⟨verified, hverified, heq⟩
  · rw [heq] at hcall
    cases hcall
  · rw [heq] at hcall
    obtain rfl := Except.ok.inj hcall
    obtain ⟨entry, hmap, -, rfl⟩ := VerifiedCache.get_eq_some_iff.mp hget
    exact h keyId entry hmap
  · rw [heq] at hcall
    obtain rfl := Except.ok.inj hcall
    exact hlabel rawKey verified hextract hverified

/-- A call with the key of such a request adds no reader to the cache. -/
theorem noReaders_authenticate (hlabel : label.MayNotRead argon2) {app : App} (h : NoReaders app)
    {rawKey : String} (hextract : extractKey label.request.headers = some rawKey) :
    NoReaders (app.authenticate argon2 label.env.auth rawKey).2 := by
  intro keyId entry hmap
  simp only [App.authenticate] at hmap
  rcases authenticate_cases argon2 label.env.auth app.auth.cache rawKey with
    ⟨e, heq⟩ | ⟨_, cached, -, -, heq⟩ | ⟨verified, hverified, heq⟩
  · rw [heq] at hmap
    exact h keyId entry hmap
  · rw [heq] at hmap
    exact h keyId entry hmap
  · rw [heq] at hmap
    rcases VerifiedCache.map_of_insert hmap with ⟨-, rfl⟩ | ⟨-, hold⟩
    · exact hlabel rawKey verified hextract hverified
    · exact h keyId entry hold

/-- A request that may not read adds no reader to the cache. -/
theorem noReaders_serve (config : Config) (hlabel : label.MayNotRead argon2) {app : App}
    (h : NoReaders app) : NoReaders (serve argon2 config label.env label.request app).app := by
  have hauth : ∀ {app' : App}, app'.auth = app.auth → NoReaders app' := by
    intro app' heq keyId entry hmap
    rw [heq] at hmap
    exact h keyId entry hmap
  have hcalled : ∀ {app' : App} {rawKey : String}, extractKey label.request.headers = some rawKey →
      app'.auth = (app.authenticate argon2 label.env.auth rawKey).2.auth → NoReaders app' := by
    intro app' rawKey hextract heq keyId entry hmap
    rw [heq] at hmap
    exact noReaders_authenticate hlabel h hextract keyId entry hmap
  rcases serve_cases argon2 config label.request with
    ⟨-, hserve⟩ | ⟨-, handler, hhandler, hserve⟩ | ⟨-, -, hserve⟩
  · rw [hserve]
    exact h
  · rw [hserve]
    rcases keyAuth_cases argon2 (SecurityHeaders handler) label.env label.request app with
      ⟨response, called, hsame | ⟨rawKey, hextract, hsame⟩, hkey⟩ |
        ⟨rawKey, principal, called, hextract, -, hsame, hkey⟩
    · rw [hkey]
      exact hauth hsame
    · rw [hkey]
      exact hcalled hextract hsame
    · rw [hkey]
      have hbehaves := behaves_of_mem label.env called hhandler
        (show ({ label.request with principal := some principal } : Request).principal
          = some principal from rfl)
      exact hcalled hextract (hbehaves.auth.trans hsame)
  · rw [hserve]
    exact h

/-- One request that may not read: the tables make no difference. -/
theorem serve_withStored (config : Config) (hlabel : label.MayNotRead argon2) {app : App}
    (h : NoReaders app) (stored : Stored) :
    serve argon2 config { label.env with stored := stored } label.request app
      = serve argon2 config label.env label.request app := by
  rcases serve_cases argon2 config label.request with
    ⟨-, hserve⟩ | ⟨-, handler, hhandler, hserve⟩ | ⟨-, -, hserve⟩
  · rw [hserve, hserve]
    rfl
  · rw [hserve, hserve]
    refine keyAuth_withStored fun principal called hadmits => ?_
    have hnot := not_reader_of_admits hlabel h hadmits
    have hsame := handler_withStored label.env called hhandler
      (show ({ label.request with principal := some principal } : Request).principal
        = some principal from rfl) hnot stored
    simp only [SecurityHeaders, hsame]
  · rw [hserve, hserve]
    rfl

/-- A run from any state in which nobody cached may read. The induction is on the requests. -/
theorem run_of_sameButTables {labels labels' : List Label} (h : NoReaders s.app)
    (hsame : List.Forall₂ Label.SameButTables labels labels')
    (hlabels : ∀ label ∈ labels, label.MayNotRead argon2)
    (hrun : (rest argon2 config).Run s labels t) : (rest argon2 config).Run s labels' t := by
  induction hsame generalizing s with
  | nil => exact hrun
  | cons hfirst _ ih =>
    obtain ⟨stored, rfl⟩ := hfirst
    rw [List.forall_mem_cons] at hlabels
    obtain ⟨u, hstep, hrest⟩ := hrun.of_cons
    obtain rfl := Option.some.inj hstep
    refine Machine.Run.cons ?_ (ih (noReaders_serve config hlabels.1 h) hlabels.2 hrest)
    simp only [rest, serve_withStored config hlabels.1 h stored]

/-- **The tables make no difference** to the answers of a run whose keys may not read the
dashboard, whatever is stored in them or taken from them between two requests. -/
theorem answers_of_sameButTables {labels labels' : List Label}
    (hrun : (rest argon2 config).Run {} labels t)
    (hlabels : ∀ label ∈ labels, label.MayNotRead argon2)
    (hsame : List.Forall₂ Label.SameButTables labels labels') :
    (rest argon2 config).Run {} labels' t :=
  run_of_sameButTables (fun _ _ h => by cases h) hsame hlabels hrun

end Blind

/-! ## An agent that asks for the summary -/

/-- Tables with so many events and nothing else. -/
def onlyEvents (n : ℕ) : Stored where
  metrics := ⟨{}, .sequential _, fun _ => .epoch⟩
  events := crowd n
  agents := {}

/-- The key of an agent, sent to the dashboard's endpoint. -/
def agentAsks (n : ℕ) : Label where
  request := {
    method := .GET
    path := ["api", "v1", "summary"]
    headers := [("x-api-key", some AuthService.agentKey)] }
  env := {
    time := 0
    worker := Fin.last 1
    auth := AuthService.atInstant 0
    batch := ⟨fun _ => .epoch, none⟩
    toRfc3339 := fun _ => "1970-01-01T00:00:00Z"
    avg := ⟨(·.headD .zero), fun _ => .zero⟩
    collation := ⟨fun _ _ => true, .sequential _⟩
    now := .epoch
    failure := none
    summary := .calm (.sequential _) .epoch
    stored := onlyEvents n }

/-- The agent learns nothing of the events. -/
theorem answers_of_sameButTables_agentAsks :
    ∃ t, (rest AuthService.plainHash {}).Run {} [agentAsks 1] t ∧
      (rest AuthService.plainHash {}).Run {} [agentAsks 2] t := by
  have hrun : (rest AuthService.plainHash {}).Run {} [agentAsks 1] _ := Machine.Run.cons rfl .nil
  refine ⟨_, hrun, answers_of_sameButTables hrun ?_ ?_⟩
  · rw [List.forall_mem_singleton]
    rintro rawKey principal - ⟨-, keys, row, hkeys, hrow, -, -, -, rfl⟩
    obtain rfl := Except.ok.inj hkeys
    rw [List.mem_singleton.mp hrow]
    decide
  · exact .cons ⟨onlyEvents 2, rfl⟩ .nil

end Sentinalysis.Hub.RestApp
