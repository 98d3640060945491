/-
# Sentinalysis.Tui.SourcesPanel — the sources of the viewer, each with the number of its entries.

The names come from the disk and the numbers from the database: one query for the virtual hosts and
one for the system logs.  A number is what the list of the source holds, and over all that was ever
written each entry is in one number at most.
-/
import Sentinalysis.LogScanner.SourceDiscovery
import Sentinalysis.Tui.Data
import Sentinalysis.Tui.Viewer

namespace Sentinalysis.Tui

open Lib Db LogScanner

/-- `SourceInfo::new`. -/
def SourceInfo.new (kind : SourceKind) (name : String) (entryCount : ℕ) : SourceInfo where
  source := match kind with
    | .Vhost => .vhost name
    | .SystemLog => .systemLog name
  entryCount := entryCount

@[simp] theorem SourceInfo.new_eq (source : Source) (entryCount : ℕ) :
    SourceInfo.new source.kind source.name entryCount = ⟨source, entryCount⟩ := by
  obtain ⟨name, kind⟩ := source
  cases kind <;> rfl

/-- `partition_by_kind`. -/
def partitionByKind (sources : List Source) : List Source × List Source :=
  sources.foldl (fun split source => match source.kind with
    | .Vhost => (split.1 ++ [source], split.2)
    | .SystemLog => (split.1, split.2 ++ [source])) ([], [])

/-- What the queries of the panel meet: their failures, and the orders in which groups are found. -/
structure PanelEnv where
  vhosts : Option SentinelError
  systemLogs : Option SentinelError
  found : SourceKind → Scan (String × ℕ)

/-- `counts_for`: nothing is asked for an empty list. -/
def countsFor (failure : Option SentinelError) (store : LogStore) (kind : SourceKind)
    (sources : List Source) (found : Scan (String × ℕ)) : Except SentinelError (List SourceInfo) :=
  if sources = [] then .ok []
  else do
    let counts ← store.countEntries failure kind (sources.map (·.name)) found
    return sources.map fun source =>
      .new source.kind source.name ((GroupBy.collect counts source.name).getD 0)

/-- `PgLogDataSource::sources`. -/
def pgSources (env : PanelEnv) (store : LogStore) (discovered : List Source) :
    Except SentinelError (List SourceInfo) := do
  let (vhosts, systemLogs) := partitionByKind discovered
  let vhostInfos ← countsFor env.vhosts store .Vhost vhosts (env.found .Vhost)
  let systemInfos ← countsFor env.systemLogs store .SystemLog systemLogs (env.found .SystemLog)
  return vhostInfos ++ systemInfos

/-! ## One answer -/

theorem partitionByKind_eq (sources : List Source) : partitionByKind sources =
    (sources.filter (·.kind = .Vhost), sources.filter (·.kind = .SystemLog)) := by
  induction sources using List.reverseRecOn with
  | nil => rfl
  | append_singleton sources source ih =>
    rw [partitionByKind, List.foldl_append, ← partitionByKind, ih]
    cases hkind : source.kind <;> simp [hkind]

/-- The row of a source: its number is the length of its list. -/
def infoOf (store : LogStore) (source : Source) : SourceInfo :=
  ⟨source, (storedEntries store source).length⟩

/-- Without a failure the rows are those of the sources. -/
theorem countsFor_eq_ok (store : LogStore) {kind : SourceKind} {sources : List Source}
    (hkind : ∀ source ∈ sources, source.kind = kind) (found : Scan (String × ℕ)) :
    countsFor none store kind sources found = .ok (sources.map (infoOf store)) := by
  unfold countsFor
  split
  · next hnil =>
    rw [hnil]
    rfl
  · refine congrArg Except.ok (List.map_congr_left fun source hsource => ?_)
    have hperm := GroupBy.collect_perm (k := source.name) (GroupBy.nodup_keys_counts id
      (store.counted kind (sources.map (·.name)))) (found.perm _).symm
    have hcount : (GroupBy.collect (found.order (GroupBy.counts id
        (store.counted kind (sources.map (·.name))))) source.name).getD 0
          = (storedEntries store source).length := by
      rw [← hperm, GroupBy.collect_counts, storedEntries, List.length_map, hkind source hsource,
        ← LogStore.count_counted (List.mem_map_of_mem hsource), List.count]
      exact List.countP_congr fun name _ => by simp
    rw [hcount, SourceInfo.new_eq, infoOf]

theorem pgSources_eq_ok {env : PanelEnv} (hvhosts : env.vhosts = none)
    (hsystemLogs : env.systemLogs = none) (store : LogStore) (discovered : List Source) :
    pgSources env store discovered = .ok
      ((discovered.filter (·.kind = .Vhost) ++ discovered.filter (·.kind = .SystemLog)).map
        (infoOf store)) := by
  unfold pgSources
  have hkinds : ∀ kind, ∀ source ∈ discovered.filter (·.kind = kind), source.kind = kind :=
    fun kind source hsource => of_decide_eq_true (List.mem_filter.mp hsource).2
  rw [partitionByKind_eq, hvhosts, hsystemLogs]
  simp only [countsFor_eq_ok store (hkinds _)]
  rw [List.map_append]
  rfl

/-- What is discovered is in the order of the panel already. -/
theorem filter_discover (glob : Glob) (fs : FileSystem) (config : LogWatchingConfig) :
    (SourceDiscovery.discover glob fs config).filter (·.kind = .Vhost)
        ++ (SourceDiscovery.discover glob fs config).filter (·.kind = .SystemLog)
      = SourceDiscovery.discover glob fs config := by
  unfold SourceDiscovery.discover
  have hvhost : ∀ names : List String, (names.map Source.vhost).filter (·.kind = .Vhost)
      = names.map Source.vhost ∧ (names.map Source.vhost).filter (·.kind = .SystemLog) = [] := by
    intro names
    simp [List.filter_map, Function.comp_def, Source.vhost]
  have hsystemLog : ∀ names : List String, (names.map Source.systemLog).filter (·.kind = .Vhost)
      = [] ∧ (names.map Source.systemLog).filter (·.kind = .SystemLog)
        = names.map Source.systemLog := by
    intro names
    simp [List.filter_map, Function.comp_def, Source.systemLog]
  simp only [List.filter_append, (hvhost _).1, (hvhost _).2, (hsystemLog _).1, (hsystemLog _).2,
    List.append_nil, List.nil_append]

/-! ## Over all that was written -/

/-- The two tables; rows are added. -/
def logTables : Machine LogStore Insertion where
  step := LogStore.insert

/-- An entry of a service that belongs to a source. -/
def writtenFor (insertions : List Insertion) (source : Source) : Insertion → Bool
  | .entry row => insertions.any fun
    | .service service =>
      row.serviceId = some service.id ∧ selects source.kind source.name service
    | .entry _ => false
  | .service _ => false

/-- The rows of one table among those that were written. -/
def servicesOf (insertions : List Insertion) : List Service :=
  insertions.filterMap fun
    | .service service => some service
    | .entry _ => none

def entriesOf (insertions : List Insertion) : List LogEntry :=
  insertions.filterMap fun
    | .service _ => none
    | .entry row => some row

section Run

variable {insertions : List Insertion} {store : LogStore}

/-- The tables hold what was written, in its order. -/
theorem rows_of_run (hrun : logTables.Run {} insertions store) :
    store.services.rows = servicesOf insertions ∧ store.entries = entriesOf insertions := by
  refine hrun.invariant_history (I := fun insertions (store : LogStore) =>
    store.services.rows = servicesOf insertions ∧ store.entries = entriesOf insertions)
    ⟨rfl, rfl⟩ ?_
  rintro insertions store insertion store' ⟨hservices, hentries⟩ hstep
  unfold servicesOf entriesOf at *
  rw [List.filterMap_append, List.filterMap_append, ← hservices, ← hentries]
  cases insertion with
  | service row =>
    obtain ⟨services, hinsert, rfl⟩ := Option.map_eq_some_iff.mp hstep
    exact ⟨Table.rows_of_insert hinsert, (List.append_nil _).symm⟩
  | entry row =>
    simp only [logTables, LogStore.insert] at hstep
    split at hstep
    · obtain rfl := Option.some.inj hstep
      exact ⟨(List.append_nil _).symm, rfl⟩
    · cases hstep

/-- An entry has a row for a source when it was written for it. -/
theorem isSome_rowOf_iff (hrun : logTables.Run {} insertions store) (source : Source)
    (entry : LogEntry) : (store.rowOf source.kind source.name entry).isSome
      = writtenFor insertions source (.entry entry) := by
  rw [Bool.eq_iff_iff, LogStore.isSome_rowOf]
  have hservices : ∀ service, service ∈ store.services.rows ↔ .service service ∈ insertions := by
    intro service
    rw [(rows_of_run hrun).1, servicesOf, List.mem_filterMap]
    constructor
    · rintro ⟨_ | _, hmem, hsome⟩
      · exact Option.some.inj hsome ▸ hmem
      · cases hsome
    · exact fun hmem => ⟨_, hmem, rfl⟩
  simp only [writtenFor, List.any_eq_true]
  constructor
  · intro hname
    obtain ⟨service, hservice, hname⟩ := Option.bind_eq_some_iff.mp hname
    obtain ⟨serviceId, hid, hfind⟩ := Option.bind_eq_some_iff.mp hservice
    have hmem : service ∈ store.services.rows := List.mem_of_find?_eq_some hfind
    have hsame : service.id = serviceId := by simpa using List.find?_some hfind
    refine ⟨.service service, (hservices service).mp hmem, ?_⟩
    exact decide_eq_true ⟨hid.trans (congrArg some hsame.symm), selects_eq_true_iff.mpr hname⟩
  · rintro ⟨_ | _, hmem, hfor⟩
    · next service =>
      obtain ⟨hid, hselects⟩ := of_decide_eq_true hfor
      have hfind := store.services.findId_of_mem ((hservices service).mpr hmem)
      rw [LogStore.serviceOf, hid, Option.bind_some, hfind, Option.bind_some]
      exact selects_eq_true_iff.mp hselects
    · cases hfor

/-- A list holds the entries that were written for its source. -/
theorem length_storedEntries (hrun : logTables.Run {} insertions store) (source : Source) :
    (storedEntries store source).length = insertions.countP (writtenFor insertions source) := by
  rw [storedEntries, List.length_map, LogStore.rows, List.length_filterMap_eq_countP,
    (rows_of_run hrun).2, entriesOf, List.countP_filterMap]
  refine List.countP_congr fun insertion _ => ?_
  cases insertion with
  | service row => simp [writtenFor]
  | entry row => simp [isSome_rowOf_iff hrun]

/-- An entry is written for one source at most. -/
theorem source_eq_of_writtenFor (hrun : logTables.Run {} insertions store) {source source' : Source}
    {insertion : Insertion} (h : writtenFor insertions source insertion = true)
    (h' : writtenFor insertions source' insertion = true) : source = source' := by
  cases insertion with
  | service row => cases h
  | entry row =>
    rw [← isSome_rowOf_iff hrun, LogStore.isSome_rowOf] at h h'
    obtain ⟨service, hservice, hname⟩ := Option.bind_eq_some_iff.mp h
    obtain ⟨service', hservice', hname'⟩ := Option.bind_eq_some_iff.mp h'
    obtain rfl := Option.some.inj (hservice.symm.trans hservice')
    obtain ⟨name, kind⟩ := source
    obtain ⟨name', kind'⟩ := source'
    cases kind <;> cases kind' <;> simp_all [sourceName]

end Run

/-- What the panel says, over all that was written. -/
structure Panel (insertions : List Insertion) (discovered : List Source) (store : LogStore)
    (infos : List SourceInfo) : Prop where
  sources : infos.map (·.source) = discovered
  counts : ∀ info ∈ infos,
    info.entryCount = insertions.countP (writtenFor insertions info.source)
  /-- no entry is counted twice -/
  total : (infos.map (·.entryCount)).sum
    = insertions.countP fun insertion => discovered.any (writtenFor insertions · insertion)
  /-- the list of a source ends where its number says -/
  lists : ∀ info ∈ infos, ∀ limit, ∃ entries,
    (pgLogDataSource store none).recent info.source limit = .ok entries ∧
      entries.length = min limit info.entryCount

/-- **The panel counts what was written**, in every run of the tables: the sources are those found
on the disk, each with the number of entries that were written for it. -/
theorem pgSources_panel {insertions : List Insertion} {store : LogStore}
    (hrun : logTables.Run {} insertions store) (env : PanelEnv) (hvhosts : env.vhosts = none)
    (hsystemLogs : env.systemLogs = none) (glob : Glob) (fs : FileSystem)
    (config : LogWatchingConfig) :
    ∃ infos, pgSources env store (SourceDiscovery.discover glob fs config) = .ok infos ∧
      Panel insertions (SourceDiscovery.discover glob fs config) store infos := by
  let discovered := SourceDiscovery.discover glob fs config
  have hok := pgSources_eq_ok hvhosts hsystemLogs store discovered
  rw [filter_discover] at hok
  refine ⟨_, hok, ?_, ?_, ?_, ?_⟩
  · rw [List.map_map]
    exact List.map_id _
  · intro info hinfo
    obtain ⟨source, -, rfl⟩ := List.mem_map.mp hinfo
    exact length_storedEntries hrun source
  · rw [List.map_map]
    have hcounts : discovered.map (SourceInfo.entryCount ∘ infoOf store)
        = discovered.map fun source => insertions.countP (writtenFor insertions source) :=
      List.map_congr_left fun source _ => length_storedEntries hrun source
    rw [hcounts]
    exact GroupBy.sum_countP_of_unique (writtenFor insertions)
      (SourceDiscovery.nodup_discover glob fs config)
      (fun _ _ _ h h' => source_eq_of_writtenFor hrun h h') insertions
  · intro info hinfo limit
    obtain ⟨source, -, rfl⟩ := List.mem_map.mp hinfo
    refine ⟨_, (pgLogDataSource_serves store source).recent limit, ?_⟩
    rw [Window.newest, List.length_take, (Window.perm_newestFirst _).length_eq]
    rfl

/-- A service with a virtual host, and two of its entries. -/
def twoEntries : List Insertion :=
  let entry : InsertLogEntry := {
    serviceId := some 1, timestamp := .epoch, level := "info", message := "GET /", rawLine := none
    clientIp := none, requestPath := none, statusCode := none, responseTimeMs := none
    isNoise := false, noiseReason := none, threatLevel := "none", threatCategories := []
    sourceHost := none }
  [.service ⟨1, "nginx", "nginx", none, some "shop.example"⟩, .entry { entry with id := 2 },
    .entry { entry with id := 3 }]

/-- The panel of the host that has the log of `shop.example`. -/
theorem pgSources_panel_twoEntries :
    let discovered := SourceDiscovery.discover SourceDiscovery.logGlob SourceDiscovery.shopFiles
      SourceDiscovery.shopDirectory
    ∃ store infos, logTables.Run {} twoEntries store ∧
      pgSources ⟨none, none, fun _ => .sequential _⟩ store discovered = .ok infos ∧
      Panel twoEntries discovered store infos := by
  obtain ⟨store, hrun⟩ := Machine.exists_run (M := logTables) (s := {}) (l := twoEntries)
    (by decide)
  obtain ⟨infos, hok, hpanel⟩ :=
    pgSources_panel hrun ⟨none, none, fun _ => .sequential _⟩ rfl rfl SourceDiscovery.logGlob
      SourceDiscovery.shopFiles SourceDiscovery.shopDirectory
  exact ⟨store, infos, hrun, hok, hpanel⟩

end Sentinalysis.Tui
