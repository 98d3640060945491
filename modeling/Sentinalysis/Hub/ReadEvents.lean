/-
# Sentinalysis.Hub.ReadEvents — `GET /api/v1/events`: the events page by page.

The handler checks the permission, the range, the limit, the offset and the names, in this order,
and answers with one page and the number of all events that match.  The number comes from one
statement and the page from another; the offsets that are allowed end at a fixed one, whatever the
number is.
-/
import Sentinalysis.Db.AppEventRepo
import Sentinalysis.Hub.Grpc
import Sentinalysis.Hub.PostEvents
import Sentinalysis.Lib.Paging

namespace Sentinalysis.Hub

open Lib Db

/-! ## The range -/

/-- `MetricRange`. -/
inductive MetricRange
  | H1
  | H6
  | H24
  | D7
  | D30
  deriving DecidableEq, Repr

def MetricRange.parse (value : String) : Option MetricRange :=
  if value = "1h" then some .H1
  else if value = "6h" then some .H6
  else if value = "24h" then some .H24
  else if value = "7d" then some .D7
  else if value = "30d" then some .D30
  else none

/-- `MetricRange::interval`. -/
def MetricRange.interval : MetricRange → String
  | .H1 => "1 hour"
  | .H6 => "6 hours"
  | .H24 => "24 hours"
  | .D7 => "7 days"
  | .D30 => "30 days"

/-! ## The handler -/

/-- `EventsQuery`. -/
structure EventsQuery where
  app : Option String
  eventType : Option String
  range : Option String
  limit : Option ℤ
  offset : Option ℤ

/-- The filter that a query stands for. -/
def EventsQuery.filter (query : EventsQuery) (range : MetricRange) (limit offset : ℤ) :
    EventFilter where
  appName := query.app
  eventType := query.eventType
  interval := range.interval
  limit := limit
  offset := offset

/-- `AppEventDto`: the timestamp is written to the second. -/
structure AppEventDto where
  id : Uuid
  appName : String
  eventType : String
  userId : Option String
  payload : Json
  timestamp : String

/-- `EventsResponse`: the body of a response with status 200. -/
structure EventsResponse where
  events : List AppEventDto
  total : ℕ

/-- `require_dashboard`. -/
def requireDashboard (principal : Principal) : Except HttpResponse Unit :=
  if .ReadDashboard ∈ principal.permissions then .ok ()
  else .error (.error .Forbidden "key lacks read:dashboard")

/-- `bad_request`, for a check that fails. -/
def badRequest {α : Type} (check : Except String α) : Except HttpResponse α :=
  check.mapError (HttpResponse.error .BadRequest)

/-- `internal_error`. -/
def internalError : HttpResponse := .error .InternalServerError "storage failure"

section Handler

variable (toRfc3339 : DateTime → String) (store : EventStore) (principal : Principal)

/-- The record of one event; `toRfc3339` is the date library's text of an instant, to the second. -/
def appEventDto (row : AppEventRow) : AppEventDto where
  id := row.id
  appName := row.appName
  eventType := row.eventType
  userId := row.userId
  payload := row.payload
  timestamp := toRfc3339 row.timestamp

/-- `get_app_events`. -/
def getAppEvents (failure : Option SentinelError) (query : EventsQuery) :
    Except HttpResponse EventsResponse := do
  requireDashboard principal
  let range ← match MetricRange.parse (query.range.getD "24h") with
    | some range => .ok range
    | none => .error (.error .BadRequest "range must be one of 1h, 6h, 24h, 7d, 30d")
  let limit ← badRequest (Validate.limit (query.limit.getD (min Validate.maxLimit 50)))
  let offset ← badRequest (Validate.offset (query.offset.getD 0))
  badRequest (checkOption Validate.appName query.app)
  badRequest (checkOption (Validate.eventType · none) query.eventType)
  match AppEventRepository.list failure store (query.filter range limit offset) with
  | .ok (rows, total) => return { events := rows.map (appEventDto toRfc3339), total := total }
  | .error _ => .error internalError

/-- The checks that have nothing to do with pages pass. -/
structure EventsQuery.Valid (query : EventsQuery) (range : MetricRange) : Prop where
  permission : .ReadDashboard ∈ principal.permissions
  range_eq : MetricRange.parse (query.range.getD "24h") = some range
  app : ∀ app ∈ query.app, Validate.appNameRe.isMatch app = true
  eventType : ∀ eventType ∈ query.eventType, Validate.eventTypeRe.isMatch eventType = true

/-- The query for the page at an offset. -/
def EventsQuery.page (query : EventsQuery) (limit offset : ℕ) : EventsQuery :=
  { query with limit := some limit, offset := some offset }

/-- The answer to the query for a page, from zero on. -/
def answer (query : EventsQuery) (limit k : ℕ) : Except HttpResponse EventsResponse :=
  getAppEvents toRfc3339 store principal none (query.page limit (k * limit))

/-- The events of an answer; a rejection has none. -/
def returned : Except HttpResponse EventsResponse → List AppEventDto
  | .ok response => response.events
  | .error _ => []

/-- Paging covers the total: every page that begins below it is answered, and one behind the other
they are all the matching events, in their order. -/
structure CoversTotal (query : EventsQuery) (range : MetricRange) (limit total : ℕ) : Prop where
  accepted : ∀ k, k * limit < total →
    ∃ response, answer toRfc3339 store principal query limit k = .ok response
  complete : ∃ rows : List AppEventRow,
    rows.Perm (store.matching (query.filter range limit 0)) ∧ rows.Pairwise AppEventRow.Before ∧
    (List.range (Paging.pageCount limit total)).flatMap
        (fun k => returned (answer toRfc3339 store principal query limit k))
      = rows.map (appEventDto toRfc3339)

end Handler

section Pages

variable {toRfc3339 : DateTime → String} {store : EventStore} {principal : Principal}
  {query : EventsQuery} {range : MetricRange} {limit offset : ℕ}

theorem EventsQuery.Valid.app_ok (hvalid : query.Valid principal range) :
    checkOption Validate.appName query.app = .ok () := by
  refine checkOption_eq_ok.mpr fun app happ => ?_
  exact Validate.ensure_eq_ok.mpr (hvalid.app app happ)

theorem EventsQuery.Valid.eventType_ok (hvalid : query.Valid principal range) :
    checkOption (Validate.eventType · none) query.eventType = .ok () := by
  refine checkOption_eq_ok.mpr fun eventType htype => ?_
  rw [Validate.eventType, Validate.ensure_bind_eq_ok, Validate.ensure_eq_ok]
  exact ⟨hvalid.eventType eventType htype, by simp⟩

theorem limit_of_mem (hpos : 1 ≤ limit) (hle : limit ≤ 200) :
    Validate.limit limit = .ok (limit : ℤ) := by
  rw [Validate.limit, Validate.ensure_bind_eq_ok]
  exact ⟨by simp only [Validate.minLimit, Validate.maxLimit]; omega, rfl⟩

theorem offset_eq (offset : ℕ) : Validate.offset offset =
    if offset ≤ 100000 then .ok (offset : ℤ)
    else .error "offset must be between 0 and 100000" := by
  unfold Validate.offset Validate.ensure Validate.maxOffset
  by_cases hle : offset ≤ 100000
  · rw [if_pos hle, if_pos (by omega)]
    rfl
  · rw [if_neg hle, if_neg (by omega)]
    rfl

/-- **What a valid query for a page is answered with.** -/
theorem getAppEvents_page (hvalid : query.Valid principal range) (hpos : 1 ≤ limit)
    (hle : limit ≤ 200) :
    getAppEvents toRfc3339 store principal none (query.page limit offset) =
      if offset ≤ 100000 then
        .ok
          { events := (((store.sorted (query.filter range limit 0)).drop offset).take limit).map
              (appEventDto toRfc3339)
            total := (store.matching (query.filter range limit 0)).length }
      else .error (.error .BadRequest "offset must be between 0 and 100000") := by
  unfold getAppEvents requireDashboard EventsQuery.page
  rw [if_pos hvalid.permission]
  simp only [hvalid.range_eq, Option.getD_some, limit_of_mem hpos hle, offset_eq,
    hvalid.app_ok, hvalid.eventType_ok]
  split
  · simp only [AppEventRepository.list, List.countP_eq_length_filter]
    rfl
  · rfl

theorem le_maxOffset_iff (hpos : 1 ≤ limit) (k : ℕ) :
    k * limit ≤ 100000 ↔ k < 100000 / limit + 1 := by
  rw [Nat.lt_succ_iff, Nat.le_div_iff_mul_le hpos]

theorem answered_iff (toRfc3339 : DateTime → String) (store : EventStore)
    (hvalid : query.Valid principal range) (hpos : 1 ≤ limit) (hle : limit ≤ 200) (k : ℕ) :
    (∃ response, answer toRfc3339 store principal query limit k = .ok response) ↔ k * limit ≤ 100000 := by
  rw [answer, getAppEvents_page hvalid hpos hle]
  split <;> simp [*]

theorem total_eq (hvalid : query.Valid principal range) (hpos : 1 ≤ limit) (hle : limit ≤ 200)
    {first : EventsResponse}
    (hfirst : answer toRfc3339 store principal query limit 0 = .ok first) :
    first.total = (store.sorted (query.filter range limit 0)).length := by
  rw [answer, getAppEvents_page hvalid hpos hle, if_pos (by omega)] at hfirst
  obtain rfl := Except.ok.inj hfirst
  exact (store.perm_sorted _).length_eq.symm

/-- The pages that are asked for are a beginning of the events. -/
theorem flatMap_returned (toRfc3339 : DateTime → String) (store : EventStore)
    (hvalid : query.Valid principal range) (hpos : 1 ≤ limit) (hle : limit ≤ 200) (count : ℕ) :
    (List.range count).flatMap (fun k => returned (answer toRfc3339 store principal query limit k))
      = ((store.sorted (query.filter range limit 0)).take
          (min count (100000 / limit + 1) * limit)).map (appEventDto toRfc3339) := by
  rw [← Paging.flatMap_page_upto, List.map_flatMap]
  congr 1
  funext k
  rw [answer, getAppEvents_page hvalid hpos hle]
  have hiff := le_maxOffset_iff hpos k
  by_cases hbelow : k * limit ≤ 100000
  · rw [if_pos hbelow, if_pos (hiff.mp hbelow)]
    rfl
  · rw [if_neg hbelow, if_neg (mt hiff.mpr hbelow)]
    rfl

/-- **Paging goes as far as the largest offset.**  A page that begins below the total is answered
exactly when its offset is allowed; one behind the other the pages are the first matching events,
the newest first and those of one time by their ids, up to the last offset and a page; and they are
all of them exactly when every offset below the total is allowed. -/
theorem getAppEvents_pages {first : EventsResponse} (hvalid : query.Valid principal range)
    (hpos : 1 ≤ limit) (hle : limit ≤ 200)
    (hfirst : answer toRfc3339 store principal query limit 0 = .ok first) :
    (∀ k, k * limit < first.total →
      ((∃ response, answer toRfc3339 store principal query limit k = .ok response) ↔
        k * limit ≤ 100000)) ∧
    (∃ rows : List AppEventRow,
      rows.Perm (store.matching (query.filter range limit 0)) ∧
      rows.Pairwise AppEventRow.Before ∧
      (List.range (Paging.pageCount limit first.total)).flatMap
          (fun k => returned (answer toRfc3339 store principal query limit k))
        = (rows.take ((100000 / limit + 1) * limit)).map (appEventDto toRfc3339)) ∧
    (CoversTotal toRfc3339 store principal query range limit first.total ↔
      ∀ k, k * limit < first.total → k * limit ≤ 100000) := by
  have htotal := total_eq hvalid hpos hle hfirst
  have hanswered := answered_iff toRfc3339 store hvalid hpos hle
  have hpages := flatMap_returned toRfc3339 store hvalid hpos hle
    (Paging.pageCount limit first.total)
  have hall := Paging.le_pageCount_mul hpos first.total
  rw [htotal] at hall
  refine ⟨fun k _ => hanswered k, ⟨_, store.perm_sorted _, store.pairwise_sorted _, ?_⟩, ?_⟩
  · rw [hpages]
    -- either every page that is asked for is answered, or the last ones are not
    rcases le_total (Paging.pageCount limit first.total) (100000 / limit + 1) with hfew | hmany
    · have hlast := hall.trans (htotal ▸ Nat.mul_le_mul_right limit hfew)
      rw [min_eq_left hfew, htotal, List.take_of_length_le hall, List.take_of_length_le hlast]
    · rw [min_eq_right hmany]
  · constructor
    · intro hcovers k hlt
      exact (hanswered k).mp (hcovers.accepted k hlt)
    · intro hallowed
      -- the page after the last allowed offset does not begin below the total
      have hfew : Paging.pageCount limit first.total ≤ 100000 / limit + 1 := by
        by_contra hmany
        have hbegins := (Paging.lt_pageCount_iff hpos).mp (not_le.mp hmany)
        exact absurd ((le_maxOffset_iff hpos _).mp (hallowed _ hbegins)) (lt_irrefl _)
      refine ⟨fun k hlt => (hanswered k).mpr (hallowed k hlt), _, store.perm_sorted _,
        store.pairwise_sorted _, ?_⟩
      rw [hpages, min_eq_left hfew, htotal, List.take_of_length_le hall]

end Pages

/-- So many events of one app, all of one time. -/
def crowd (n : ℕ) : EventStore where
  events :=
    { rows := (List.range n).map fun i =>
        { appName := "shop", eventType := "user_login", userId := none, payload := .null
          timestamp := .epoch, id := i }
      ids := by
        rw [List.map_map]
        exact (List.map_id _).symm ▸ List.nodup_range }
  since _ := ⟨-1, by decide, by decide⟩

/-- A key of the dashboard. -/
def dashboard : Principal where
  keyId := "00112233"
  permissions := [.ReadDashboard]
  agentId := none
  hostname := none
  appName := none

def everyEvent : EventsQuery := ⟨none, none, none, none, none⟩

theorem valid_everyEvent : everyEvent.Valid dashboard .H24 where
  permission := by decide
  range_eq := by decide
  app _ h := by cases h
  eventType _ h := by cases h

theorem length_matching_crowd (n limit : ℕ) :
    ((crowd n).matching (everyEvent.filter .H24 limit 0)).length = n := by
  have hall : (crowd n).matching (everyEvent.filter .H24 limit 0) = (crowd n).events.rows := by
    refine List.filter_eq_self.mpr fun row hrow => ?_
    obtain ⟨i, -, rfl⟩ := List.mem_map.mp hrow
    rfl
  rw [hall, crowd, List.length_map, List.length_range]

/-- Three events on pages of two. -/
theorem coversTotal_crowd :
    CoversTotal (fun _ => "") (crowd 3) dashboard everyEvent .H24 2 3 := by
  have hfirst : answer (fun _ => "") (crowd 3) dashboard everyEvent 2 0 = .ok _ :=
    getAppEvents_page valid_everyEvent (by decide) (by decide)
  have hpages := getAppEvents_pages valid_everyEvent (by decide) (by decide) hfirst
  have hcovers := hpages.2.2.mpr fun k hlt => by
    simp only [length_matching_crowd] at hlt
    omega
  rwa [length_matching_crowd] at hcovers

/-- On pages of fifty, as the dashboard has them, a crowd behind the last offset is not covered. -/
theorem not_coversTotal_of_lt {n : ℕ} (h : 100050 < n) : ∃ first,
    answer (fun _ => "") (crowd n) dashboard everyEvent 50 0 = .ok first ∧ first.total = n ∧
    ¬ CoversTotal (fun _ => "") (crowd n) dashboard everyEvent .H24 50 first.total := by
  have hfirst : answer (fun _ => "") (crowd n) dashboard everyEvent 50 0 = .ok _ :=
    getAppEvents_page valid_everyEvent (by decide) (by decide)
  refine ⟨_, hfirst, length_matching_crowd n 50, fun hcovers => ?_⟩
  have hlast := hcovers.accepted 2001 (by
    rw [length_matching_crowd]
    omega)
  exact absurd ((answered_iff _ _ valid_everyEvent (by decide) (by decide) 2001).mp hlast) (by decide)

/-- **The total is not covered** when one event is behind the page at the last offset. -/
theorem not_coversTotal_crowd : ∃ first,
    answer (fun _ => "") (crowd 100051) dashboard everyEvent 50 0 = .ok first ∧
    first.total = 100051 ∧
    ¬ CoversTotal (fun _ => "") (crowd 100051) dashboard everyEvent .H24 50 first.total :=
  not_coversTotal_of_lt (by decide)

end Sentinalysis.Hub
