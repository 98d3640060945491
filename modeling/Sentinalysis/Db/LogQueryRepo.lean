/-
# Sentinalysis.Db.LogQueryRepo — the queries of the log viewer.

An entry belongs to a source through its service.  Entries are ordered by timestamp, and by id
where timestamps are equal; the same pair is the cursor behind which entries are newer.
-/
import Mathlib.Data.Prod.Lex
import Sentinalysis.Db.ServiceRepo
import Sentinalysis.Lib.Batch
import Sentinalysis.Lib.GroupBy
import Sentinalysis.Lib.Window
import Sentinalysis.LogScanner.Source

namespace Sentinalysis.Db

open Lib LogScanner

/-- `LogEntryRow`: one row of the viewer's list, for either kind of source. -/
structure LogEntryRow where
  id : Uuid
  timestamp : DateTime
  level : String
  message : String
  rawLine : Option String
  sourceName : String
  threatLevel : String
  threatCategories : List String
  deriving DecidableEq, Repr

/-- A row value `(timestamp, id)`. -/
abbrev RowValue := ℤ ×ₗ ℕ

def rowValue (timestamp : DateTime) (id : Uuid) : RowValue := toLex (timestamp.nanos, id)

/-- `(le.timestamp, le.id)`. -/
def LogEntryRow.cursor (row : LogEntryRow) : RowValue := rowValue row.timestamp row.id

/-- The two tables the viewer reads: the id of an entry is its primary key. -/
structure LogStore where
  services : Services := {}
  entries : List LogEntry := []
  ids : (entries.map LogEntry.id).Nodup := by exact List.nodup_nil

/-- A row for one of the tables. -/
inductive Insertion
  | service (row : Service)
  | entry (row : LogEntry)
  deriving DecidableEq, Repr

/-- The `WHERE` clause on the service: `s.virtual_host = $1`, or
`s.name = $1 AND s.virtual_host IS NULL`. -/
def selects (kind : SourceKind) (name : String) (service : Service) : Bool :=
  match kind with
  | .Vhost => service.virtualHost = some name
  | .SystemLog => service.name = name ∧ service.virtualHost = none

/-- The column that the counts are grouped by: `s.virtual_host`, or `s.name` where that is null. -/
def sourceName (kind : SourceKind) (service : Service) : Option String :=
  match kind with
  | .Vhost => service.virtualHost
  | .SystemLog => if service.virtualHost = none then some service.name else none

/-- A list selects by the column that the counts are grouped by. -/
theorem selects_eq_true_iff {kind : SourceKind} {name : String} {service : Service} :
    selects kind name service = true ↔ sourceName kind service = some name := by
  cases kind with
  | Vhost => simp [selects, sourceName]
  | SystemLog => simp [selects, sourceName, and_comm]

/-- The row of an entry; the name is the column `source_name`. -/
def logEntryRow (entry : LogEntry) (sourceName : String) : LogEntryRow where
  id := entry.id
  timestamp := entry.timestamp
  level := entry.level
  message := entry.message
  rawLine := entry.rawLine
  sourceName := sourceName
  threatLevel := entry.threatLevel
  threatCategories := entry.threatCategories

namespace LogStore

/-- An insertion, unless it is against a constraint of its table. -/
def insert (store : LogStore) : Insertion → Option LogStore
  | .service row => (store.services.insert row).map fun services => { store with services := services }
  | .entry row =>
    if h : row.id ∉ store.entries.map LogEntry.id ∧
        ∀ serviceId ∈ row.serviceId, (store.services.findId serviceId).isSome then
      some
        { store with
          entries := store.entries ++ [row]
          ids := by
            rw [List.map_append]
            exact List.nodup_append.mpr ⟨store.ids, List.nodup_singleton _, by
              rintro id hid _ hrow rfl
              rw [List.map_singleton, List.mem_singleton] at hrow
              exact h.1 (hrow ▸ hid)⟩ }
    else none

/-- `JOIN services s ON le.service_id = s.id`: a key has one row at most. -/
def serviceOf (store : LogStore) (entry : LogEntry) : Option Service :=
  entry.serviceId.bind store.services.findId

/-- The row of one entry in the result for a source, if the entry belongs to it. -/
def rowOf (store : LogStore) (kind : SourceKind) (name : String) (entry : LogEntry) :
    Option LogEntryRow :=
  ((store.serviceOf entry).filter (selects kind name)).map fun _ => logEntryRow entry name

/-- The entries of a source. -/
def rows (store : LogStore) (kind : SourceKind) (name : String) : List LogEntryRow :=
  store.entries.filterMap (store.rowOf kind name)

/-- `recent_entries`: `ORDER BY le.timestamp DESC, le.id DESC LIMIT $2`. -/
def recentEntries (store : LogStore) (kind : SourceKind) (name : String) (limit : ℕ) :
    List LogEntryRow :=
  Window.newest LogEntryRow.cursor limit (store.rows kind name)

/-- The column of each row that a count counts: `= ANY($1)`. -/
def counted (store : LogStore) (kind : SourceKind) (names : List String) : List String :=
  (store.entries.filterMap fun entry => (store.serviceOf entry).bind (sourceName kind)).filter
    (· ∈ names)

/-- `count_entries`: names without entries have no row, and the rows come in any order. -/
def countEntries (failure : Option SentinelError) (store : LogStore) (kind : SourceKind)
    (names : List String) (found : Scan (String × ℕ)) : Except SentinelError (List (String × ℕ)) :=
  match failure with
  | some e => .error e
  | none => .ok (found.order (GroupBy.counts id (store.counted kind names)))

/-- `newer_entries`: the same with `(le.timestamp, le.id) > ($2, $3)`. -/
def newerEntries (store : LogStore) (kind : SourceKind) (name : String) (since : DateTime)
    (sinceId : Uuid) (limit : ℕ) : List LogEntryRow :=
  Window.newest LogEntryRow.cursor limit
    (Window.above LogEntryRow.cursor (rowValue since sinceId) (store.rows kind name))

theorem id_of_rowOf {store : LogStore} {kind : SourceKind} {name : String} {entry : LogEntry}
    {row : LogEntryRow} (h : store.rowOf kind name entry = some row) : row.id = entry.id := by
  obtain ⟨_, _, rfl⟩ := Option.map_eq_some_iff.mp h
  rfl

/-- An entry has a row for a source when its service has the name of the source. -/
theorem isSome_rowOf {store : LogStore} {kind : SourceKind} {name : String} {entry : LogEntry} :
    (store.rowOf kind name entry).isSome = true ↔
      (store.serviceOf entry).bind (sourceName kind) = some name := by
  rw [rowOf, Option.isSome_map]
  cases store.serviceOf entry with
  | none => simp
  | some service =>
    rw [Option.bind_some, ← selects_eq_true_iff]
    cases hselects : selects kind name service <;> simp [Option.filter, hselects]

/-- A name is counted as often as its source has rows. -/
theorem count_counted {store : LogStore} {kind : SourceKind} {name : String} {names : List String}
    (hname : name ∈ names) :
    (store.counted kind names).count name = (store.rows kind name).length := by
  rw [counted, List.count_filter (by simpa using hname), rows,
    List.length_filterMap_eq_countP, List.count, List.countP_filterMap]
  refine List.countP_congr fun entry _ => ?_
  rw [isSome_rowOf]
  cases (store.serviceOf entry).bind (sourceName kind) <;> simp

/-- No two rows of a source have the same cursor. -/
theorem nodup_cursors (store : LogStore) (kind : SourceKind) (name : String) :
    ((store.rows kind name).map LogEntryRow.cursor).Nodup := by
  have hrows : (store.rows kind name).Pairwise fun a b => a.id ≠ b.id := by
    rw [rows, List.pairwise_filterMap]
    refine List.Pairwise.imp ?_ (List.pairwise_map.mp store.ids)
    intro a b hne row hrow row' hrow'
    rw [id_of_rowOf hrow, id_of_rowOf hrow']
    exact hne
  apply List.pairwise_map.mpr
  refine hrows.imp fun hne heq => hne ?_
  exact (Prod.ext_iff.mp (toLex.injective heq)).2

/-- An insertion adds a row at the end of one of the tables. -/
theorem insert_cases {store store' : LogStore} {insertion : Insertion}
    (h : store.insert insertion = some store') :
    (∃ row, store'.services.rows = store.services.rows ++ [row] ∧ store'.entries = store.entries) ∨
    ∃ row, store'.services = store.services ∧ store'.entries = store.entries ++ [row] := by
  cases insertion with
  | service row =>
    obtain ⟨services, hinsert, rfl⟩ := Option.map_eq_some_iff.mp h
    exact Or.inl ⟨row, Table.rows_of_insert hinsert, rfl⟩
  | entry row =>
    simp only [insert] at h
    split at h
    · obtain rfl := Option.some.inj h
      exact Or.inr ⟨row, rfl, rfl⟩
    · cases h

/-- An entry keeps its row when rows are added to the tables. -/
theorem rowOf_of_insert {store store' : LogStore} {insertion : Insertion}
    (h : store.insert insertion = some store') {kind : SourceKind} {name : String}
    {entry : LogEntry} {row : LogEntryRow} (hrow : store.rowOf kind name entry = some row) :
    store'.rowOf kind name entry = some row := by
  have hkept : ∀ service, store.serviceOf entry = some service →
      store'.serviceOf entry = some service := by
    intro service hservice
    obtain ⟨serviceId, hid, hfind⟩ := Option.bind_eq_some_iff.mp hservice
    rw [serviceOf, hid]
    rcases insert_cases h with ⟨_, hservices, -⟩ | ⟨_, hservices, -⟩
    · exact Table.findId_of_rows_eq hservices hfind
    · rw [hservices]
      exact hfind
  obtain ⟨service, hservice, rfl⟩ := Option.map_eq_some_iff.mp hrow
  obtain ⟨hservice, hselects⟩ := Option.filter_eq_some_iff.mp hservice
  rw [rowOf, hkept service hservice, Option.filter_some_pos hselects]
  rfl

/-- Entries are not removed. -/
theorem entries_of_insert {store store' : LogStore} {insertion : Insertion}
    (h : store.insert insertion = some store') : store.entries ⊆ store'.entries := by
  rcases insert_cases h with ⟨_, -, hentries⟩ | ⟨_, -, hentries⟩
  · rw [hentries]
    exact List.Subset.refl _
  · rw [hentries]
    exact List.subset_append_left _ _

/-- The entries of a source stay its entries. -/
theorem rows_of_insert {store store' : LogStore} {insertion : Insertion}
    (h : store.insert insertion = some store') (kind : SourceKind) (name : String) :
    store.rows kind name ⊆ store'.rows kind name := by
  intro row hrow
  obtain ⟨entry, hentry, hrow⟩ := List.mem_filterMap.mp hrow
  exact List.mem_filterMap.mpr ⟨entry, entries_of_insert h hentry, rowOf_of_insert h hrow⟩

end LogStore

end Sentinalysis.Db
