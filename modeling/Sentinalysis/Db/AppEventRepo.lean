/-
# Sentinalysis.Db.AppEventRepo — the events that web applications send.
-/
import Mathlib.Data.Prod.Lex
import Sentinalysis.Db.Prune
import Sentinalysis.Error
import Sentinalysis.Lib.GroupBy
import Sentinalysis.Lib.Json
import Sentinalysis.Lib.Window

namespace Sentinalysis.Db

open Lib

/-- `InsertAppEvent`: a validated event. -/
structure InsertAppEvent where
  appName : String
  eventType : String
  userId : Option String
  payload : Json
  timestamp : DateTime

/-- A row of `app_events`. -/
structure AppEventRow extends InsertAppEvent where
  id : Uuid

/-- The `app_events` table. -/
abbrev AppEvents := Keyed AppEventRow.id

/-- `AppEventRepository::prune`. -/
def AppEventRepository.prune (events : AppEvents) (scan : Scan AppEventRow) (now : DateTime)
    (keepDays : UInt32) : ℕ × AppEvents :=
  Db.prune (·.timestamp) events scan now keepDays

/-- `AppEventRepository::insert_batch`: how many rows were inserted, and which; nothing is asked for an
empty batch. -/
def AppEventRepository.insertBatch (failure : Option SentinelError) (events : List InsertAppEvent) :
    Except SentinelError ℕ × List InsertAppEvent :=
  if events = [] then (.ok 0, [])
  else match failure with
    | some e => (.error e, [])
    | none => (.ok events.length, events)

theorem AppEventRepository.insertBatch_subset (failure : Option SentinelError)
    (events : List InsertAppEvent) : (insertBatch failure events).2 ⊆ events := by
  unfold insertBatch
  split
  · exact List.nil_subset _
  · cases failure with
    | none => exact List.Subset.refl _
    | some e => exact List.nil_subset _

/-! ## Listing events -/

/-- `EventFilter`: absent names select every event. -/
structure EventFilter where
  appName : Option String
  eventType : Option String
  interval : String
  limit : ℤ
  offset : ℤ

/-- The table, and what the database takes `NOW() - $1::interval` for while its clock is fixed. -/
structure EventStore where
  events : AppEvents
  since : String → DateTime

/-- The `WHERE` clause that both statements of `list` have. -/
def EventStore.selects (store : EventStore) (filter : EventFilter) (row : AppEventRow) : Bool :=
  (store.since filter.interval).nanos < row.timestamp.nanos
    && filter.appName.all (row.appName == ·) && filter.eventType.all (row.eventType == ·)

/-- The rows that match a filter. -/
def EventStore.matching (store : EventStore) (filter : EventFilter) : List AppEventRow :=
  store.events.rows.filter (store.selects filter)

/-- A row comes before another one: it is newer, or as old and of a smaller id. -/
def AppEventRow.Before (a b : AppEventRow) : Prop :=
  b.timestamp.nanos < a.timestamp.nanos ∨ b.timestamp.nanos = a.timestamp.nanos ∧ a.id < b.id

/-- The row value whose descending order is `ORDER BY timestamp DESC, id`. -/
def AppEventRow.cursor (row : AppEventRow) : ℤ ×ₗ ℕᵒᵈ :=
  toLex (row.timestamp.nanos, OrderDual.toDual row.id)

/-- The matching rows in the order of the statement. -/
def EventStore.sorted (store : EventStore) (filter : EventFilter) : List AppEventRow :=
  Window.newestFirst AppEventRow.cursor (store.matching filter)

/-- `AppEventRepository::list`: a page, and how many rows match; no caller passes a negative limit
or offset. -/
def AppEventRepository.list (failure : Option SentinelError) (store : EventStore)
    (filter : EventFilter) : Except SentinelError (List AppEventRow × ℕ) :=
  match failure with
  | some e => .error e
  | none =>
    .ok (((store.sorted filter).drop filter.offset.toNat).take filter.limit.toNat,
      store.events.rows.countP (store.selects filter))

namespace EventStore

variable (store : EventStore) (filter : EventFilter)

theorem perm_sorted : (store.sorted filter).Perm (store.matching filter) :=
  Window.perm_newestFirst _

/-- No row comes twice, as no two have the same id. -/
theorem pairwise_sorted : (store.sorted filter).Pairwise AppEventRow.Before := by
  have hkeys : ((store.matching filter).map AppEventRow.cursor).Nodup := by
    have hrows : (store.matching filter).Sublist store.events.rows := List.filter_sublist
    have hids := store.events.ids.sublist (hrows.map AppEventRow.id)
    refine List.pairwise_map.mpr ((List.pairwise_map.mp hids).imp fun hne heq => hne ?_)
    exact OrderDual.toDual.injective (Prod.ext_iff.mp (toLex.injective heq)).2
  refine (Window.descending_newestFirst hkeys).imp fun {a b} hlt => ?_
  rcases Prod.Lex.toLex_lt_toLex.mp hlt with hnewer | ⟨hsame, hid⟩
  · exact Or.inl hnewer
  · exact Or.inr ⟨hsame, hid⟩

/-! ## Counting events -/

/-- `WHERE timestamp > NOW() - $1::interval`. -/
def within (interval : String) : List AppEventRow :=
  store.events.rows.filter fun row => (store.since interval).nanos < row.timestamp.nanos

/-- What the filter on an app selects is what is counted for the app. -/
theorem countP_selects_app (interval app : String) :
    store.events.rows.countP (store.selects ⟨some app, none, interval, filter.limit, filter.offset⟩)
      = (store.within interval).countP (·.appName = app) := by
  rw [within, List.countP_filter]
  refine List.countP_congr fun row _ => ?_
  simp [selects, and_comm]

/-- What the filter on a type selects is what is counted for the type. -/
theorem countP_selects_type (interval type : String) :
    store.events.rows.countP (store.selects ⟨none, some type, interval, filter.limit, filter.offset⟩)
      = (store.within interval).countP (·.eventType = type) := by
  rw [within, List.countP_filter]
  refine List.countP_congr fun row _ => ?_
  simp [selects, and_comm]

/-- Without names the filter selects all that is counted. -/
theorem countP_selects_all (interval : String) :
    store.events.rows.countP (store.selects ⟨none, none, interval, filter.limit, filter.offset⟩)
      = (store.within interval).length := by
  rw [within, ← List.countP_eq_length_filter]
  refine List.countP_congr fun row _ => ?_
  simp [selects]

end EventStore

namespace AppEventRepository

variable (failure : Option SentinelError) (store : EventStore) (interval : String)

/-- A statement that yields a value unless it fails. -/
def statement {α : Type} (failure : Option SentinelError) (value : α) : Except SentinelError α :=
  match failure with
  | some e => .error e
  | none => .ok value

/-- `count_active_users`: the users who logged in. -/
def countActiveUsers : Except SentinelError ℕ :=
  statement failure (((store.within interval).filter
    (·.eventType == "user_login")).filterMap (·.userId)).dedup.length

/-- `count_total`. -/
def countTotal : Except SentinelError ℕ := statement failure (store.within interval).length

/-- `GROUP BY … ORDER BY COUNT(*) DESC`: keys that occur as often come in the order in which they
are found. -/
def countsBy (key : AppEventRow → String) (found : Scan (String × ℕ)) : List (String × ℕ) :=
  (found.order (GroupBy.counts key (store.within interval))).insertionSort fun a b => b.2 ≤ a.2

/-- `counts_by_app`. -/
def countsByApp (found : Scan (String × ℕ)) : Except SentinelError (List (String × ℕ)) :=
  statement failure (countsBy store interval (·.appName) found)

/-- `counts_by_type`. -/
def countsByType (found : Scan (String × ℕ)) : Except SentinelError (List (String × ℕ)) :=
  statement failure (countsBy store interval (·.eventType) found)

theorem perm_countsBy (key : AppEventRow → String) (found : Scan (String × ℕ)) :
    (countsBy store interval key found).Perm (GroupBy.counts key (store.within interval)) :=
  (List.perm_insertionSort _ _).trans (found.perm _)

end AppEventRepository

end Sentinalysis.Db
