/-
# Sentinalysis.Hub.Summary — `GET /api/v1/summary`: the cards of the dashboard.

Five statements, one after the other; the first that fails is the answer.  The apps and the types
that are counted are what the events page offers as filters, so that a number on a card and the
number of events behind the filter have to be one number.
-/
import Sentinalysis.Hub.Charts

namespace Sentinalysis.Hub

open Lib Db

/-! ## The handler -/

/-- What the handling of a summary meets: the failures of the statements, if they fail, the order in
which groups are found, and the clock of the hub. -/
structure SummaryEnv where
  activeUsers : Option SentinelError
  total : Option SentinelError
  byApp : Option SentinelError
  byType : Option SentinelError
  latest : Option SentinelError
  found : Scan (String × ℕ)
  utcNow : DateTime

/-- No statement fails. -/
def SummaryEnv.calm (found : Scan (String × ℕ)) (utcNow : DateTime) : SummaryEnv :=
  ⟨none, none, none, none, none, found, utcNow⟩

/-- `SummaryResponse`. -/
structure SummaryResponse where
  activeUsers24h : ℕ
  totalEvents24h : ℕ
  eventsByApp : String → Option ℕ
  eventsByType : String → Option ℕ
  serverOnline : Bool
  currentCpuPercent : Float64
  currentMemPercent : Float64

/-- `(used as f64 / total as f64) * 100.0`, of a total that is not zero. -/
def memPercent (metric : StoredMetric) : Float64 :=
  if 0 < metric.memoryTotalBytes then
    .ofFloat ((Int64.ofInt metric.memoryUsedBytes).toFloat
      / (Int64.ofInt metric.memoryTotalBytes).toFloat * 100.0)
  else .zero

/-- `metric.timestamp > chrono::Utc::now() - chrono::Duration::seconds(90)`. -/
def isOnline (utcNow : DateTime) (metric : StoredMetric) : Bool :=
  utcNow.nanos - 90 * 1000000000 < metric.timestamp.nanos

/-- `get_summary`. -/
def getSummary (env : SummaryEnv) (events : EventStore) (metrics : MetricStore)
    (principal : Principal) : Except HttpResponse SummaryResponse := do
  requireDashboard principal
  let interval := MetricRange.H24.interval
  let summary : Except SentinelError SummaryResponse := do
    let activeUsers ← AppEventRepository.countActiveUsers env.activeUsers events interval
    let total ← AppEventRepository.countTotal env.total events interval
    let byApp ← AppEventRepository.countsByApp env.byApp events interval env.found
    let byType ← AppEventRepository.countsByType env.byType events interval env.found
    let latest ← SystemMetricRepository.latest env.latest metrics
    return {
      activeUsers24h := activeUsers
      totalEvents24h := total
      eventsByApp := GroupBy.collect byApp
      eventsByType := GroupBy.collect byType
      serverOnline := latest.any (isOnline env.utcNow)
      currentCpuPercent := (latest.map (·.cpuUsagePercent)).getD .zero
      currentMemPercent := (latest.map memPercent).getD .zero }
  match summary with
  | .ok response => return response
  | .error _ => .error internalError

/-! ## The numbers -/

section Numbers

variable {events : EventStore} {metrics : MetricStore} {principal : Principal}
  {found : Scan (String × ℕ)} {utcNow : DateTime}

/-- The map of a `GROUP BY` does not depend on the order in which the groups are found. -/
theorem collect_countsBy (interval : String) (key : AppEventRow → String) (name : String) :
    GroupBy.collect (AppEventRepository.countsBy events interval key found) name
      = GroupBy.collect (GroupBy.counts key (events.within interval)) name := by
  have hperm := AppEventRepository.perm_countsBy events interval key found
  exact (GroupBy.collect_perm (GroupBy.nodup_keys_counts _ _) hperm.symm).symm

/-- One of the newest rows is the newest: when it is not late enough, none is. -/
theorem latest_any {row : Option StoredMetric} {threshold : ℤ}
    (h : SystemMetricRepository.latest none metrics = .ok row) :
    row.any (fun metric => threshold < metric.timestamp.nanos) = true ↔
      ∃ metric ∈ metrics.metrics.rows, threshold < metric.timestamp.nanos := by
  obtain rfl := Except.ok.inj h
  have htotal : Std.Total fun a b : StoredMetric => b.timestamp ≤ a.timestamp :=
    ⟨fun a b => le_total b.timestamp a.timestamp⟩
  have htrans : IsTrans StoredMetric fun a b => b.timestamp ≤ a.timestamp :=
    ⟨fun _ _ _ h₁ h₂ => h₂.trans h₁⟩
  have hsorted := List.pairwise_insertionSort (fun a b : StoredMetric => b.timestamp ≤ a.timestamp)
    (metrics.scan.order metrics.metrics.rows)
  have hperm := (List.perm_insertionSort (fun a b : StoredMetric => b.timestamp ≤ a.timestamp)
    (metrics.scan.order metrics.metrics.rows)).trans (metrics.scan.perm _)
  simp only [← hperm.mem_iff]
  cases hrows : (metrics.scan.order metrics.metrics.rows).insertionSort
      fun a b => b.timestamp ≤ a.timestamp with
  | nil => simp
  | cons newest others =>
    rw [hrows] at hsorted
    rw [List.head?_cons, Option.any_some, decide_eq_true_iff]
    constructor
    · exact fun hlate => ⟨newest, List.mem_cons_self, hlate⟩
    · rintro ⟨metric, hmetric, hlate⟩
      rcases List.mem_cons.mp hmetric with rfl | hother
      · exact hlate
      · exact hlate.trans_le ((List.pairwise_cons.mp hsorted).1 metric hother)

/-- The users who logged in are no more than the logins. -/
theorem activeUsers_le (interval : String) :
    (((events.within interval).filter (·.eventType == "user_login")).filterMap
        (·.userId)).dedup.length
      ≤ (events.within interval).countP (·.eventType = "user_login") := by
  rw [List.countP_eq_length_filter]
  refine (List.dedup_sublist _).length_le.trans ((List.length_filterMap_le _ _).trans ?_)
  simp only [beq_eq_decide, le_refl]

/-- What a summary is when no statement fails. -/
theorem getSummary_calm (events : EventStore) (metrics : MetricStore) (found : Scan (String × ℕ))
    (utcNow : DateTime) (hpermission : .ReadDashboard ∈ principal.permissions) :
    ∃ response, getSummary (.calm found utcNow) events metrics principal = .ok response ∧
      response.activeUsers24h
        ≤ (events.within "24 hours").countP (·.eventType = "user_login") ∧
      response.totalEvents24h = (events.within "24 hours").length ∧
      response.eventsByApp
        = GroupBy.collect (GroupBy.counts (·.appName) (events.within "24 hours")) ∧
      response.eventsByType
        = GroupBy.collect (GroupBy.counts (·.eventType) (events.within "24 hours")) ∧
      (response.serverOnline = true ↔ ∃ metric ∈ metrics.metrics.rows,
        utcNow.nanos - 90 * 1000000000 < metric.timestamp.nanos) := by
  unfold getSummary requireDashboard
  rw [if_pos hpermission]
  exact ⟨_, rfl, activeUsers_le _, rfl, funext fun name => collect_countsBy _ _ name,
    funext fun name => collect_countsBy _ _ name, latest_any rfl⟩

end Numbers

/-! ## The events page -/

section Pages

variable (toRfc3339 : DateTime → String) (events : EventStore) (principal : Principal)

/-- The events of the last day, of an app or a type that is chosen. -/
def dayQuery (app eventType : Option String) : EventsQuery := ⟨app, eventType, none, none, none⟩

/-- The first page of a query says so many events, and shows one exactly when there are any. -/
def PageSays (query : EventsQuery) (limit n : ℕ) : Prop :=
  ∃ page, answer toRfc3339 events principal query limit 0 = .ok page ∧ page.total = n ∧
    (page.events ≠ [] ↔ n ≠ 0)

variable {toRfc3339 events principal}

theorem pageSays_of_valid {app eventType : Option String} {limit : ℕ}
    (hvalid : (dayQuery app eventType).Valid principal .H24) (hpos : 1 ≤ limit)
    (hle : limit ≤ 200) :
    PageSays toRfc3339 events principal (dayQuery app eventType) limit
      (events.events.rows.countP (events.selects ⟨app, eventType, "24 hours", limit, 0⟩)) := by
  have hpage : answer toRfc3339 events principal (dayQuery app eventType) limit 0 = .ok
      { events := (((events.sorted ((dayQuery app eventType).filter .H24 limit 0)).drop 0).take
          limit).map (appEventDto toRfc3339)
        total := (events.matching ((dayQuery app eventType).filter .H24 limit 0)).length } := by
    rw [answer, Nat.zero_mul, getAppEvents_page hvalid hpos hle, if_pos (by omega)]
  refine ⟨_, hpage, ?_, ?_⟩
  · rw [List.countP_eq_length_filter]
    rfl
  · have hlength := (events.perm_sorted ((dayQuery app eventType).filter .H24 limit 0)).length_eq
    rw [← List.length_pos_iff, ← Nat.pos_iff_ne_zero, List.countP_eq_length_filter]
    show 0 < (List.map _ _).length ↔ 0 < (events.matching
      ((dayQuery app eventType).filter .H24 limit 0)).length
    rw [List.length_map, List.length_take, List.drop_zero, hlength]
    omega

end Pages

/-! ## The run -/

/-- The cards and the events page agree: what is offered as a filter can be asked for, and behind
every filter are as many events as the card says. -/
structure SummaryAgrees (toRfc3339 : DateTime → String) (events : EventStore)
    (principal : Principal) (response : SummaryResponse) : Prop where
  everything : ∀ limit, 1 ≤ limit → limit ≤ 200 →
    PageSays toRfc3339 events principal (dayQuery none none) limit response.totalEvents24h
  app : ∀ app limit, Validate.appName app = .ok () → 1 ≤ limit → limit ≤ 200 →
    PageSays toRfc3339 events principal (dayQuery (some app) none) limit
      ((response.eventsByApp app).getD 0)
  eventType : ∀ type limit, Validate.eventType type none = .ok () → 1 ≤ limit → limit ≤ 200 →
    PageSays toRfc3339 events principal (dayQuery none (some type)) limit
      ((response.eventsByType type).getD 0)
  apps : ∀ app, (response.eventsByApp app).isSome = true → Validate.appName app = .ok ()
  eventTypes : ∀ type, (response.eventsByType type).isSome = true →
    Validate.eventType type none = .ok ()
  /-- in whatever order the maps are written -/
  sumApps : ∀ apps : List String, apps.Nodup →
    (∀ app, app ∈ apps ↔ (response.eventsByApp app).isSome = true) →
    (apps.map fun app => (response.eventsByApp app).getD 0).sum = response.totalEvents24h
  sumTypes : ∀ types : List String, types.Nodup →
    (∀ type, type ∈ types ↔ (response.eventsByType type).isSome = true) →
    (types.map fun type => (response.eventsByType type).getD 0).sum = response.totalEvents24h

section Run

variable {events : EventStore} {principal : Principal}

theorem valid_dayQuery (app eventType : Option String)
    (hpermission : .ReadDashboard ∈ principal.permissions)
    (happ : ∀ name ∈ app, Validate.appName name = .ok ())
    (htype : ∀ type ∈ eventType, Validate.eventType type none = .ok ()) :
    (dayQuery app eventType).Valid principal .H24 where
  permission := hpermission
  range_eq := rfl
  app name hname := Validate.ensure_eq_ok.mp (happ name hname)
  eventType type hmem := by
    have hok := htype type hmem
    rw [Validate.eventType, Validate.ensure_bind_eq_ok] at hok
    exact hok.1

/-- A name that is counted is the name of a row. -/
theorem exists_of_isSome {key : AppEventRow → String} {interval name : String}
    (h : (GroupBy.collect (GroupBy.counts key (events.within interval)) name).isSome = true) :
    ∃ row ∈ events.within interval, key row = name := by
  rw [GroupBy.isSome_collect_counts, ← Nat.pos_iff_ne_zero, List.countP_pos_iff] at h
  obtain ⟨row, hrow, hkey⟩ := h
  exact ⟨row, hrow, of_decide_eq_true hkey⟩

/-- Cards and page agree over a table that takes only what passes its checks. -/
theorem summaryAgrees_of_storable (toRfc3339 : DateTime → String)
    (hstorable : ∀ row ∈ events.within "24 hours", EventStorable row.toInsertAppEvent)
    (hpermission : .ReadDashboard ∈ principal.permissions) {response : SummaryResponse}
    (htotal : response.totalEvents24h = (events.within "24 hours").length)
    (hbyApp : response.eventsByApp
      = GroupBy.collect (GroupBy.counts (·.appName) (events.within "24 hours")))
    (hbyType : response.eventsByType
      = GroupBy.collect (GroupBy.counts (·.eventType) (events.within "24 hours"))) :
    SummaryAgrees toRfc3339 events principal response where
  everything limit hpos hle := by
    have hvalid := valid_dayQuery none none hpermission (by simp) (by simp)
    rw [htotal, ← events.countP_selects_all ⟨none, none, "24 hours", limit, 0⟩]
    exact pageSays_of_valid hvalid hpos hle
  app app limit happ hpos hle := by
    have hvalid := valid_dayQuery (some app) none hpermission
      (by simpa using happ) (by simp)
    rw [hbyApp, GroupBy.collect_counts,
      ← events.countP_selects_app ⟨none, none, "24 hours", limit, 0⟩]
    exact pageSays_of_valid hvalid hpos hle
  eventType type limit htype hpos hle := by
    have hvalid := valid_dayQuery none (some type) hpermission
      (by simp) (by simpa using htype)
    rw [hbyType, GroupBy.collect_counts,
      ← events.countP_selects_type ⟨none, none, "24 hours", limit, 0⟩]
    exact pageSays_of_valid hvalid hpos hle
  apps app h := by
    rw [hbyApp] at h
    obtain ⟨row, hrow, rfl⟩ := exists_of_isSome h
    exact Validate.ensure_eq_ok.mpr (hstorable row hrow).chkAppName
  eventTypes type h := by
    rw [hbyType] at h
    obtain ⟨row, hrow, rfl⟩ := exists_of_isSome h
    rw [Validate.eventType, Validate.ensure_bind_eq_ok, Validate.ensure_eq_ok]
    exact ⟨(hstorable row hrow).chkEventType, by simp⟩
  sumApps apps hnodup hall := by
    rw [hbyApp] at hall ⊢
    rw [htotal, GroupBy.sum_collect_counts _ _ hnodup hall]
  sumTypes types hnodup hall := by
    rw [hbyType] at hall ⊢
    rw [htotal, GroupBy.sum_collect_counts _ _ hnodup hall]

/-- **The cards say what is behind them**, after every run of the hub: the numbers are those of the
events page.  If every pruning kept a day or more and came no later than the summary, they count
every event that was ever stored in the last day.  If, besides, 90 seconds before the time of the
hub is within the last day of the database, a server is online exactly when some report that was
ever stored is newer than that. -/
theorem getSummary_agrees (toRfc3339 : DateTime → String) {l : List Statement} {s : Tables}
    (hrun : tables.Run {} l s) (events : EventStore) (hevents : events.events = s.events)
    (metrics : MetricStore) (hmetrics : metrics.metrics = s.metrics) (found : Scan (String × ℕ))
    (now utcNow : DateTime) (principal : Principal)
    (hpermission : .ReadDashboard ∈ principal.permissions)
    (hsince : (events.since "24 hours").nanos = now.nanos - 86400 * 1000000000) :
    ∃ response,
      getSummary (.calm found utcNow) events metrics principal = .ok response ∧
      SummaryAgrees toRfc3339 events principal response ∧
      response.activeUsers24h ≤ (response.eventsByType "user_login").getD 0 ∧
      ((∀ statement ∈ l, statement.KeepsADay now) →
        response.totalEvents24h
          = s.allEvents.countP (now.nanos - 86400 * 1000000000 < ·.timestamp.nanos) ∧
        (now.nanos - 86400 * 1000000000 ≤ utcNow.nanos - 90 * 1000000000 →
          (response.serverOnline = true ↔ ∃ metric ∈ s.allMetrics,
            utcNow.nanos - 90 * 1000000000 < metric.timestamp.nanos))) := by
  obtain ⟨response, hresponse, husers, htotal, hbyApp, hbyType, honline⟩ :=
    getSummary_calm events metrics found utcNow hpermission
  -- the filters need what the table checks, which no pruning takes away
  have hchecked := Tables.checked_of_run hrun
  have hstorable : ∀ row ∈ events.within "24 hours", EventStorable row.toInsertAppEvent := by
    intro row hrow
    have hmem := (List.mem_filter.mp hrow).1
    rw [hevents] at hmem
    exact hchecked.storable row (hchecked.events hmem)
  refine ⟨response, hresponse, summaryAgrees_of_storable toRfc3339 hstorable hpermission htotal
    hbyApp hbyType, ?_, fun hkeeps => ?_⟩
  · rwa [hbyType, GroupBy.collect_counts]
  obtain ⟨latest, hlatest⟩ := exists_latest l
  have hkept := Tables.kept_of_run hrun
    (fun statement hmem => (hkeeps statement hmem).spares hsince.ge) hlatest
  constructor
  · have hwithin : events.within "24 hours"
        = s.allEvents.filter (events.since "24 hours" < ·.timestamp) := by
      rw [← hkept.events, ← hevents]
      rfl
    rw [htotal, hwithin, ← List.countP_eq_length_filter, ← hsince]
    rfl
  · intro hday
    refine honline.trans (exists_congr fun metric => and_congr_left fun hlate => ?_)
    -- what is late enough is newer than a day, and so it was not pruned
    have hnewer : decide (events.since "24 hours" < metric.timestamp) = true :=
      decide_eq_true (DateTime.lt_iff.mpr (by omega))
    have hmem := Iff.of_eq (congrArg (metric ∈ ·) hkept.metrics)
    simp only [List.mem_filter, hnewer, and_true] at hmem
    rw [hmetrics, hmem]

end Run

/-- A user logs in to the shop. -/
def logsIn (now : DateTime) (user : String) (id : Uuid) : Statement :=
  .events ⟨fun _ => now, none⟩
    (EventRateLimiter.new eventRequestsPerMinute eventRequestsPerMinute_pos) 0 []
    ⟨"44556677", [.IngestEvents], none, none, some "shop"⟩
    [⟨"user_login", some user, .object [], now⟩] [id]

/-- A user has logged in long ago and another one now, a host reports, and a month is kept. -/
def twoLogins : List Statement :=
  [logsIn fortyDaysBefore "ada" 3, logsIn .epoch "bea" 4, reports .epoch "agent-1" "web",
    .point 0 (some 5), .pruneEvents (.sequential _) .epoch 30,
    .pruneMetrics (.sequential _) .epoch 30]

/-- A day before the database's time, which is a minute ahead of the hub's. -/
def dayBefore : DateTime := ⟨-86340000000000, by decide, by decide⟩

/-- The login of today is counted and can be looked up, and the server is online. -/
theorem getSummary_agrees_twoLogins : ∃ s response, tables.Run {} twoLogins s ∧
    (s.events.rows.length = 1 ∧ s.allEvents.length = 2) ∧
    getSummary (.calm (.sequential _) .epoch) ⟨s.events, fun _ => dayBefore⟩
        ⟨s.metrics, .sequential _, fun _ => dayBefore⟩ dashboard = .ok response ∧
    SummaryAgrees (fun _ => "1970-01-01T00:00:00Z") ⟨s.events, fun _ => dayBefore⟩ dashboard
      response ∧
    response.totalEvents24h = 1 ∧ response.serverOnline = true := by
  have hexec : (tables.exec {} twoLogins).any (fun s => decide ((s.events.rows.length = 1 ∧
      s.allEvents.length = 2) ∧
      s.allEvents.countP (60000000000 - 86400 * 1000000000 < ·.timestamp.nanos) = 1 ∧
      s.allMetrics.any (0 - 90 * 1000000000 < ·.timestamp.nanos) = true)) = true := by
    decide +kernel
  obtain ⟨s, hrun, hs⟩ := Machine.exists_run_any hexec
  obtain ⟨hlengths, hcount, hlate⟩ := of_decide_eq_true hs
  obtain ⟨response, hresponse, hagrees, -, hkept⟩ :=
    getSummary_agrees (fun _ => "1970-01-01T00:00:00Z") hrun ⟨s.events, fun _ => dayBefore⟩ rfl
      ⟨s.metrics, .sequential _, fun _ => dayBefore⟩ rfl (.sequential _)
      ⟨60000000000, by decide, by decide⟩ .epoch dashboard (by decide)
      (show (-86340000000000 : ℤ) = 60000000000 - 86400 * 1000000000 by decide)
  obtain ⟨htotal, honline⟩ := hkept (by decide +kernel)
  refine ⟨s, response, hrun, hlengths, hresponse, hagrees, htotal.trans hcount, ?_⟩
  refine (honline (show (60000000000 - 86400 * 1000000000 : ℤ) ≤ 0 - 90 * 1000000000 by
    decide)).mpr ?_
  obtain ⟨metric, hmetric, hnanos⟩ := List.any_eq_true.mp hlate
  exact ⟨metric, hmetric, of_decide_eq_true hnanos⟩

end Sentinalysis.Hub
