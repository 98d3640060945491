/-
# Sentinalysis.Tui.Data — the data the log viewer shows, and where it comes from.

A data source answers two questions about a source: its latest entries, and those behind a cursor.
The database answers them by its queries; the one in memory by cutting lists that are in order
already.  `Serves` is what the two have in common.
-/
import Mathlib.Logic.Function.Basic
import Sentinalysis.Db.LogQueryRepo
import Sentinalysis.Error
import Sentinalysis.LogScanner.Classifier

namespace Sentinalysis.Tui

open Lib Db LogScanner

/-- `DisplayLogEntry`: one log entry as shown in the list. -/
structure DisplayLogEntry where
  id : Uuid
  timestamp : DateTime
  level : LogLevel
  threatLevel : ThreatLevel
  message : String
  raw : String
  sourceName : String
  threatCategories : List String
  deriving DecidableEq, Repr

/-- `(e.timestamp, e.id)`. -/
def DisplayLogEntry.cursor (entry : DisplayLogEntry) : RowValue :=
  rowValue entry.timestamp entry.id

/-- `row_to_display`. -/
def rowToDisplay (row : LogEntryRow) : DisplayLogEntry where
  id := row.id
  timestamp := row.timestamp
  level := LogLevel.fromDb row.level
  threatLevel := ThreatLevel.fromDb row.threatLevel
  message := row.message
  raw := row.rawLine.getD ""
  sourceName := row.sourceName
  threatCategories := row.threatCategories

@[simp] theorem cursor_rowToDisplay (row : LogEntryRow) :
    (rowToDisplay row).cursor = row.cursor := rfl

/-- `LogDataSource`, as it answers at one moment. -/
structure LogDataSource where
  recent : Source → ℕ → Except SentinelError (List DisplayLogEntry)
  newer : Source → DateTime → Uuid → ℕ → Except SentinelError (List DisplayLogEntry)

/-- A data source serves the entries it holds for a source: the newest of them, newest first, and
those strictly behind a cursor. -/
structure LogDataSource.Serves (data : LogDataSource) (source : Source)
    (stored : List DisplayLogEntry) : Prop where
  recent : ∀ limit, data.recent source limit =
    .ok (Window.newest DisplayLogEntry.cursor limit stored)
  newer : ∀ since sinceId limit, data.newer source since sinceId limit =
    .ok (Window.newest DisplayLogEntry.cursor limit
      (Window.above DisplayLogEntry.cursor (rowValue since sinceId) stored))

/-! ## The database -/

/-- The entries the database holds for a source. -/
def storedEntries (store : LogStore) (source : Source) : List DisplayLogEntry :=
  (store.rows source.kind source.name).map rowToDisplay

/-- `PgLogDataSource`: a query fails or returns its rows. -/
def pgLogDataSource (store : LogStore) (failure : Option SentinelError) : LogDataSource where
  recent source limit := match failure with
    | some e => .error e
    | none => .ok ((store.recentEntries source.kind source.name limit).map rowToDisplay)
  newer source since sinceId limit := match failure with
    | some e => .error e
    | none =>
      .ok ((store.newerEntries source.kind source.name since sinceId limit).map rowToDisplay)

/-- The database serves what it holds. -/
theorem pgLogDataSource_serves (store : LogStore) (source : Source) :
    (pgLogDataSource store none).Serves source (storedEntries store source) where
  recent limit := by
    rw [storedEntries, Window.newest_map cursor_rowToDisplay]
    rfl
  newer since sinceId limit := by
    rw [storedEntries, Window.above_map cursor_rowToDisplay,
      Window.newest_map cursor_rowToDisplay]
    rfl

theorem nodup_storedEntries (store : LogStore) (source : Source) :
    ((storedEntries store source).map DisplayLogEntry.cursor).Nodup := by
  rw [storedEntries, List.map_map]
  exact store.nodup_cursors source.kind source.name

theorem storedEntries_of_insert {store store' : LogStore} {insertion : Insertion}
    (h : store.insert insertion = some store') (source : Source) :
    storedEntries store source ⊆ storedEntries store' source :=
  List.map_subset rowToDisplay (LogStore.rows_of_insert h source.kind source.name)

/-! ## In memory -/

/-- `MemoryLogDataSource`: lists by the name of the source, newest first. -/
def memoryLogDataSource (entries : String → Option (List DisplayLogEntry)) : LogDataSource where
  recent source limit := .ok (((entries source.name).getD []).take limit)
  newer source since sinceId limit := match entries source.name with
    | none => .ok []
    | some entries => .ok ((entries.filter fun e => rowValue since sinceId < e.cursor).take limit)

/-- The lists in memory are served the same way as long as they are in order. -/
theorem memoryLogDataSource_serves {entries : String → Option (List DisplayLogEntry)}
    {source : Source}
    (h : Window.Descending DisplayLogEntry.cursor ((entries source.name).getD [])) :
    (memoryLogDataSource entries).Serves source ((entries source.name).getD []) where
  recent limit := by
    rw [Window.newest, Window.newestFirst_of_descending h]
    rfl
  newer since sinceId limit := by
    have habove : Window.Descending DisplayLogEntry.cursor (Window.above DisplayLogEntry.cursor
        (rowValue since sinceId) ((entries source.name).getD [])) := h.sublist List.filter_sublist
    rw [Window.newest, Window.newestFirst_of_descending habove]
    cases hentries : entries source.name with
    | none => simp [memoryLogDataSource, hentries, Window.above]
    | some list => simp [memoryLogDataSource, hentries, Window.above]

end Sentinalysis.Tui
