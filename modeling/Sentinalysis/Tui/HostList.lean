/-
# Sentinalysis.Tui.HostList — the rows of the sources panel, drawn and resolved.

Drawing builds the texts of the rows, a selection is resolved by arithmetic on its index, and a
third function counts.  All three are views of one list: two sections, the second one left out with
its header when it is empty.
-/
import Mathlib.Order.Monotone.Basic
import Sentinalysis.LogScanner.SourceDiscovery
import Sentinalysis.Tui.Viewer

namespace Sentinalysis.Tui

open Lib LogScanner

/-- A row of the sources panel. -/
inductive Row
  | header (title : String)
  | entry (marker : String) (info : SourceInfo)

def Row.text : Row → String
  | .header title => title
  | .entry marker info => marker ++ info.source.name

def Row.source : Row → Option Source
  | .header _ => none
  | .entry _ info => some info.source

namespace Viewer

variable {viewer : Viewer}

/-- What the panel lists. -/
def listed (viewer : Viewer) : List SourceInfo := viewer.virtualHosts ++ viewer.systemLogs

/-- The rows of what it lists. -/
def entryRows (viewer : Viewer) : List Row :=
  viewer.virtualHosts.map (.entry "[L] ") ++ viewer.systemLogs.map (.entry "[S] ")

/-- The panel. -/
def panel (viewer : Viewer) : List Row :=
  .header "Virtual Hosts" :: viewer.virtualHosts.map (.entry "[L] ")
    ++ if viewer.systemLogs ≠ [] then
        .header "System Logs" :: viewer.systemLogs.map (.entry "[S] ")
      else []

/-- The index of the row of the `k`-th source: the headers before it are passed over. -/
def rowOf (viewer : Viewer) (k : ℕ) : ℕ := if k < viewer.virtualHosts.length then k + 1 else k + 2

theorem strictMono_rowOf (viewer : Viewer) : StrictMono viewer.rowOf := by
  intro k l hlt
  unfold rowOf
  split <;> split <;> omega

/-- Every index is of a header or of the row of a source. -/
theorem index_cases (viewer : Viewer) (i : ℕ) :
    i = 0 ∨ i = viewer.virtualHosts.length + 1 ∨ ∃ k, viewer.rowOf k = i := by
  rcases Nat.lt_trichotomy i (viewer.virtualHosts.length + 1) with hlt | heq | hgt
  · rcases Nat.eq_zero_or_pos i with hzero | hpos
    · exact Or.inl hzero
    · exact Or.inr (Or.inr ⟨i - 1, by rw [rowOf, if_pos (by omega)]; omega⟩)
  · exact Or.inr (Or.inl heq)
  · exact Or.inr (Or.inr ⟨i - 2, by rw [rowOf, if_neg (by omega)]; omega⟩)

/-! ## The panel -/

theorem panel_systemHeader (viewer : Viewer) : viewer.panel[viewer.virtualHosts.length + 1]? =
    if viewer.systemLogs ≠ [] then some (.header "System Logs") else none := by
  have hlength : (viewer.virtualHosts.map (Row.entry "[L] ")).length
      = viewer.virtualHosts.length := List.length_map _
  rw [panel, List.cons_append, List.getElem?_cons_succ,
    List.getElem?_append_right (by rw [hlength]), hlength, Nat.sub_self]
  split <;> rfl

/-- Off the headers, the panel has the rows of what it lists. -/
theorem panel_rowOf (viewer : Viewer) (k : ℕ) :
    viewer.panel[viewer.rowOf k]? = viewer.entryRows[k]? := by
  have hlength : (viewer.virtualHosts.map (Row.entry "[L] ")).length
      = viewer.virtualHosts.length := List.length_map _
  unfold rowOf panel entryRows
  rw [List.cons_append]
  by_cases hk : k < viewer.virtualHosts.length
  · rw [if_pos hk, List.getElem?_cons_succ, List.getElem?_append_left (by rwa [hlength]),
      List.getElem?_append_left (by rwa [hlength])]
  · rw [if_neg hk, List.getElem?_cons_succ, List.getElem?_append_right (by omega),
      List.getElem?_append_right (by omega), hlength, Nat.sub_add_comm (not_lt.mp hk)]
    split
    · rw [List.getElem?_cons_succ]
    · next hnone =>
      rw [not_ne_iff.mp hnone]
      rfl

theorem length_panel (viewer : Viewer) : viewer.panel.length = viewer.totalHostListLen := by
  unfold panel totalHostListLen
  dsimp only
  split
  · simp only [List.length_append, List.length_cons, List.length_map]
    omega
  · simp only [List.append_nil, List.length_cons, List.length_map]
    omega

/-- What is drawn are the texts of the rows, unless there is nothing to list. -/
theorem hostItems_eq (h : viewer.virtualHosts ≠ [] ∨ viewer.systemLogs ≠ []) :
    viewer.hostItems = viewer.panel.map Row.text := by
  have hsome : ¬ (viewer.virtualHosts = [] ∧ viewer.systemLogs = []) := by
    rintro ⟨hhosts, hlogs⟩
    exact h.elim (fun hne => hne hhosts) fun hne => hne hlogs
  unfold hostItems panel
  rw [if_neg hsome]
  split <;> simp [Row.text, Function.comp_def]

/-- The rows of what is listed are rows of its sources, in the same places. -/
theorem source_entryRows (viewer : Viewer) (k : ℕ) :
    viewer.entryRows[k]?.bind Row.source = viewer.listed[k]?.map SourceInfo.source := by
  have hsources : viewer.entryRows.map Row.source
      = viewer.listed.map fun info => some info.source := by
    simp [entryRows, listed, Row.source, Function.comp_def]
  calc viewer.entryRows[k]?.bind Row.source
      = (viewer.entryRows.map Row.source)[k]?.join := by
        rw [List.getElem?_map]
        cases viewer.entryRows[k]? <;> rfl
    _ = (viewer.listed.map fun info => some info.source)[k]?.join := by rw [hsources]
    _ = viewer.listed[k]?.map SourceInfo.source := by
        rw [List.getElem?_map]
        cases viewer.listed[k]? <;> rfl

/-- The index arithmetic finds the `k`-th source in its row. -/
theorem resolveSelection_rowOf (viewer : Viewer) (k : ℕ) :
    viewer.resolveSelection (viewer.rowOf k) = viewer.listed[k]?.map SourceInfo.source := by
  unfold resolveSelection rowOf listed
  by_cases hk : k < viewer.virtualHosts.length
  · rw [if_pos hk, if_neg (Nat.succ_ne_zero k), Nat.add_sub_cancel, List.getElem?_append_left hk,
      List.getElem?_eq_getElem hk]
    rfl
  · -- past the virtual hosts, the lookup goes on behind the second header
    have hpast : viewer.virtualHosts[k + 2 - 1]? = none := List.getElem?_eq_none (by omega)
    have hindex : k + 2 - (1 + viewer.virtualHosts.length) - 1 = k - viewer.virtualHosts.length := by
      omega
    rw [if_neg hk, if_neg (Nat.succ_ne_zero _), hpast, List.getElem?_append_right (by omega)]
    dsimp only
    rw [hindex]
    split
    · cases viewer.systemLogs[k - viewer.virtualHosts.length]? <;> rfl
    · next hnone =>
      have hempty : viewer.systemLogs = [] := by
        by_contra hne
        exact hnone ⟨hne, by omega⟩
      rw [hempty]
      rfl

/-- **What is resolved is the source of the row.** -/
theorem resolveSelection_eq (viewer : Viewer) (i : ℕ) :
    viewer.resolveSelection i = viewer.panel[i]?.bind Row.source := by
  rcases viewer.index_cases i with rfl | rfl | ⟨k, rfl⟩
  · rfl
  · have hpast : viewer.virtualHosts[viewer.virtualHosts.length + 1 - 1]? = none :=
      List.getElem?_eq_none (by omega)
    rw [panel_systemHeader, resolveSelection, if_neg (Nat.succ_ne_zero _), hpast]
    dsimp only
    rw [if_neg (by omega)]
    split <;> rfl
  · rw [resolveSelection_rowOf, panel_rowOf, source_entryRows]

/-- The headers have two titles, the other rows two markers. -/
theorem mem_panel {row : Row} (h : row ∈ viewer.panel) :
    (∃ title ∈ ["Virtual Hosts", "System Logs"], row = .header title) ∨
      ∃ marker ∈ ["[L] ", "[S] "], ∃ info, row = .entry marker info := by
  unfold panel at h
  rcases List.mem_append.mp h with hhosts | hlogs
  · rcases List.mem_cons.mp hhosts with rfl | hrow
    · exact Or.inl ⟨_, by simp, rfl⟩
    · obtain ⟨info, -, rfl⟩ := List.mem_map.mp hrow
      exact Or.inr ⟨_, by simp, info, rfl⟩
  · split at hlogs
    · rcases List.mem_cons.mp hlogs with rfl | hrow
      · exact Or.inl ⟨_, by simp, rfl⟩
      · obtain ⟨info, -, rfl⟩ := List.mem_map.mp hrow
        exact Or.inr ⟨_, by simp, info, rfl⟩
    · cases hlogs

/-- No row of a source reads like a header. -/
theorem text_entry_ne {marker title : String} (hmarker : marker ∈ ["[L] ", "[S] "])
    (htitle : title ∈ ["Virtual Hosts", "System Logs"]) (info : SourceInfo) :
    (Row.entry marker info).text ≠ title := by
  intro heq
  have hfirst := congrArg (fun s => s.toList.head?) heq
  simp only [List.mem_cons, List.not_mem_nil, or_false] at hmarker htitle
  rcases hmarker with rfl | rfl <;> rcases htitle with rfl | rfl <;> simp [Row.text] at hfirst

/-! ## The two computations agree -/

/-- The rows that are drawn and the sources that are resolved are of one panel. -/
structure Agrees (viewer : Viewer) : Prop where
  length : viewer.hostItems.length = viewer.totalHostListLen
  shown : ∀ i source, viewer.resolveSelection i = some source →
    ∃ marker ∈ ["[L] ", "[S] "], viewer.hostItems[i]? = some (marker ++ source.name)
  header : ∀ i < viewer.totalHostListLen, viewer.resolveSelection i = none ↔
    ∃ title ∈ ["Virtual Hosts", "System Logs"], viewer.hostItems[i]? = some title
  pastEnd : ∀ i, viewer.totalHostListLen ≤ i → viewer.resolveSelection i = none
  /-- Each source that is listed has an index of its own, and no other index returns it. -/
  once : ∃ row : ℕ → ℕ, StrictMono row ∧ ∀ i source, viewer.resolveSelection i = some source ↔
    ∃ k info, viewer.listed[k]? = some info ∧ info.source = source ∧ row k = i
  unique : (viewer.listed.map SourceInfo.source).Nodup → ∀ info ∈ viewer.listed,
    ∃! i, viewer.resolveSelection i = some info.source

/-- The indices that return a source are those of the rows of what is listed. -/
theorem resolveSelection_eq_some_iff {i : ℕ} {source : Source} :
    viewer.resolveSelection i = some source ↔
      ∃ k info, viewer.listed[k]? = some info ∧ info.source = source ∧ viewer.rowOf k = i := by
  constructor
  · intro hresolve
    rcases viewer.index_cases i with rfl | rfl | ⟨k, rfl⟩
    · cases hresolve
    · rw [resolveSelection_eq, panel_systemHeader] at hresolve
      split at hresolve <;> cases hresolve
    · rw [resolveSelection_rowOf] at hresolve
      obtain ⟨info, hinfo, hsource⟩ := Option.map_eq_some_iff.mp hresolve
      exact ⟨k, info, hinfo, hsource, rfl⟩
  · rintro ⟨k, info, hinfo, rfl, rfl⟩
    rw [resolveSelection_rowOf, hinfo]
    rfl

/-- Among distinct sources, each is returned for one index. -/
theorem exists_unique_of_nodup (h : (viewer.listed.map SourceInfo.source).Nodup) {info : SourceInfo}
    (hinfo : info ∈ viewer.listed) : ∃! i, viewer.resolveSelection i = some info.source := by
  obtain ⟨k, hk⟩ := List.mem_iff_getElem?.mp hinfo
  refine ⟨viewer.rowOf k, resolveSelection_eq_some_iff.mpr ⟨k, info, hk, rfl, rfl⟩, ?_⟩
  intro i hi
  obtain ⟨l, info', hl, hsource, rfl⟩ := resolveSelection_eq_some_iff.mp hi
  have hplaces : (viewer.listed.map SourceInfo.source)[k]?
      = (viewer.listed.map SourceInfo.source)[l]? := by
    rw [List.getElem?_map, List.getElem?_map, hk, hl, Option.map_some, Option.map_some, hsource]
  have hlt : k < (viewer.listed.map SourceInfo.source).length := by
    rw [List.length_map]
    exact (List.getElem?_eq_some_iff.mp hk).1
  rw [(List.getElem?_inj hlt h).mp hplaces]

/-- The row of an index that returns a source shows its name. -/
theorem hostItems_of_resolveSelection {i : ℕ} {source : Source}
    (hresolve : viewer.resolveSelection i = some source) :
    ∃ marker ∈ ["[L] ", "[S] "], viewer.hostItems[i]? = some (marker ++ source.name) := by
  have hsome : viewer.virtualHosts ≠ [] ∨ viewer.systemLogs ≠ [] := by
    obtain ⟨k, info, hinfo, -, -⟩ := resolveSelection_eq_some_iff.mp hresolve
    have hlisted : viewer.listed ≠ [] := List.ne_nil_of_mem (List.mem_of_getElem? hinfo)
    by_contra hnone
    rw [not_or, not_ne_iff, not_ne_iff] at hnone
    exact hlisted (List.append_eq_nil_iff.mpr hnone)
  rw [resolveSelection_eq] at hresolve
  obtain ⟨row, hrow, hsource⟩ := Option.bind_eq_some_iff.mp hresolve
  rcases mem_panel (List.mem_of_getElem? hrow) with
    ⟨title, -, rfl⟩ | ⟨marker, hmarker, info, rfl⟩
  · cases hsource
  · obtain rfl := Option.some.inj hsource
    refine ⟨marker, hmarker, ?_⟩
    rw [hostItems_eq hsome, List.getElem?_map, hrow]
    rfl

/-- `Refresh` switches to the source whose name is in the highlighted row. -/
theorem hostItems_of_refreshTarget {source : Source} (h : viewer.refreshTarget = some source) :
    ∃ i, viewer.hostState = some i ∧ ∃ marker ∈ ["[L] ", "[S] "],
      viewer.hostItems[i]? = some (marker ++ source.name) := by
  unfold refreshTarget at h
  cases hstate : viewer.hostState with
  | none =>
    rw [hstate] at h
    cases h
  | some i =>
    refine ⟨i, rfl, hostItems_of_resolveSelection ?_⟩
    rw [hstate] at h
    dsimp only at h
    cases hresolve : viewer.resolveSelection i with
    | none =>
      rw [hresolve] at h
      cases h
    | some target =>
      rw [hresolve] at h
      dsimp only at h
      split at h
      · rw [Option.some.inj h]
      · cases h

/-- `Refresh` switches to a source that is listed. -/
theorem exists_listed_of_refreshTarget {source : Source} (h : viewer.refreshTarget = some source) :
    ∃ info ∈ viewer.listed, info.source = source := by
  unfold refreshTarget at h
  split at h
  · cases h
  split at h
  · cases h
  · next i target hresolve =>
    rw [Option.ite_none_right_eq_some] at h
    obtain ⟨k, info, hinfo, hsource, -⟩ := resolveSelection_eq_some_iff.mp hresolve
    exact ⟨info, List.mem_of_getElem? hinfo, hsource.trans (Option.some.inj h.2)⟩

/-- The two sections have what the data source gave, each once. -/
theorem perm_listed_init (discovered : List SourceInfo) (data : LogDataSource) :
    (new.init (.ok discovered) data).2.listed.Perm discovered := by
  have hlisted : (new.init (.ok discovered) data).2.listed
      = discovered.filter (fun s => s.source.kind = SourceKind.Vhost)
        ++ discovered.filter fun s => s.source.kind ≠ SourceKind.Vhost := by
    unfold init listed
    dsimp only
    split
    · rfl
    · rename_i first _ _
      cases LogViewer.loadRecentEntries _ data first.source <;> rfl
  rw [hlisted]
  simpa using List.filter_append_perm (fun s => decide (s.source.kind = SourceKind.Vhost)) discovered

/-- **The discovered sources are distinct**, so that a viewer of them has one row for each. -/
theorem exists_unique_of_discover {glob : Glob} {fs : FileSystem} {config : LogWatchingConfig}
    {discovered : List SourceInfo} (data : LogDataSource)
    (h : discovered.map SourceInfo.source = SourceDiscovery.discover glob fs config) :
    ∀ source ∈ SourceDiscovery.discover glob fs config,
      ∃! i, (new.init (.ok discovered) data).2.resolveSelection i = some source := by
  intro source hsource
  have hperm := perm_listed_init discovered data
  rw [← h] at hsource
  obtain ⟨info, hinfo, rfl⟩ := List.mem_map.mp hsource
  refine exists_unique_of_nodup ?_ (hperm.mem_iff.mpr hinfo)
  rw [(hperm.map SourceInfo.source).nodup_iff, h]
  exact SourceDiscovery.nodup_discover glob fs config

/-- **What is selected is what is shown.**  If anything is listed, there are as many rows as are
counted; the row of an index shows the name of the source that the index returns; headers and what
lies behind the last row return none; and every source is returned for one index. -/
theorem hostItems_agrees (h : viewer.virtualHosts ≠ [] ∨ viewer.systemLogs ≠ []) :
    viewer.Agrees where
  length := by rw [hostItems_eq h, List.length_map, length_panel]
  shown _ _ := hostItems_of_resolveSelection
  header i hi := by
    rw [← length_panel] at hi
    have hrow := List.getElem?_eq_getElem hi
    rw [resolveSelection_eq, hostItems_eq h, List.getElem?_map, hrow]
    rcases mem_panel (List.mem_of_getElem? hrow) with
      ⟨title, htitle, heq⟩ | ⟨marker, hmarker, info, heq⟩
    · rw [heq]
      exact iff_of_true rfl ⟨title, htitle, rfl⟩
    · rw [heq]
      refine iff_of_false (fun hnone => by cases hnone) ?_
      rintro ⟨title, htitle, htext⟩
      exact text_entry_ne hmarker htitle info (Option.some.inj htext)
  pastEnd i hi := by
    rw [← length_panel] at hi
    rw [resolveSelection_eq, List.getElem?_eq_none hi]
    rfl
  once := ⟨viewer.rowOf, viewer.strictMono_rowOf, fun _ _ => resolveSelection_eq_some_iff⟩
  unique hnodup _ := exists_unique_of_nodup hnodup

/-- A virtual host and a system log. -/
theorem hostItems_agrees_shop : Agrees { new with
    virtualHosts := [⟨.vhost "shop.example.com", 2⟩], systemLogs := [⟨.systemLog "auth.log", 0⟩] } :=
  hostItems_agrees (Or.inl (List.cons_ne_nil _ _))

end Viewer

end Sentinalysis.Tui
