/-
# Sentinalysis.Tui.Viewer — the two panels of the log viewer, their actions and their drawing.

The panel on the left lists the sources, the one on the right the entries that are cached for the
selected source, as far as they match the filter.  Keys arrive as actions.  Two parties move the
selection of a panel: actions, which take its bounds from the cache, and drawing, which takes them
from the rows that it draws.
-/
import Sentinalysis.Tui.LogViewer

namespace Sentinalysis.Tui

open Lib LogScanner LogScanner.Classifier

/-- `Action`. -/
inductive Action
  | Quit
  | Tick
  | SelectUp
  | SelectDown
  | Refresh
  | ToggleFilter
  | ClearFilter
  | LogEntryAdded
  | ScrollUp
  | ScrollDown
  | PageUp
  | PageDown
  | ScrollToTop
  | ScrollToBottom
  | FilterInput (c : Char)
  | FilterBackspace
  | LoadOlderEntries
  | ToggleFocus
  deriving DecidableEq, Repr

/-- `PanelFocus`: which panel receives the navigation keys. -/
inductive PanelFocus
  | HostList
  | LogList
  deriving DecidableEq, Repr

def PanelFocus.toggle : PanelFocus → PanelFocus
  | .HostList => .LogList
  | .LogList => .HostList

theorem PanelFocus.eq_of_toggle {focus : PanelFocus} (h : focus.toggle = .LogList) :
    focus = .HostList := by
  cases focus with
  | HostList => rfl
  | LogList => cases h

/-- `SourceInfo`: a row of the sources panel. -/
structure SourceInfo where
  source : Source
  entryCount : ℕ
  deriving DecidableEq, Repr

/-- `DEFAULT_POLL_INTERVAL`, in nanoseconds. -/
def defaultPollInterval : ℕ := 2000000000

/-- `LogViewer`, with its panels; the fields start as `LogViewer::new` sets them. -/
structure Viewer extends LogViewer where
  virtualHosts : List SourceInfo := []
  systemLogs : List SourceInfo := []
  hostState : Option ℕ := some 0
  selectedSource : Option Source := none
  filterMode : Bool := false
  filterText : String := ""
  focus : PanelFocus := .HostList
  pollInterval : ℕ := defaultPollInterval
  lastPoll : Option ℕ := none

/-- What an action meets: the data source, and the clock when the viewer asks whether a poll is due
and when it notes the poll. -/
structure Moment where
  data : LogDataSource
  now : ℕ := 0
  polledAt : ℕ := now

/-- `usize::saturating_add_signed`. -/
def saturatingAddSigned (i : ℕ) (delta : ℤ) : ℕ := (i + delta).toNat

namespace Viewer

def new : Viewer := {}

/-- `with_poll_interval`. -/
def withPollInterval (viewer : Viewer) (interval : ℕ) : Viewer :=
  { viewer with pollInterval := interval }

/-! ## The sources panel -/

/-- `total_host_list_len`: the rows of the sources panel, headers included. -/
def totalHostListLen (viewer : Viewer) : ℕ :=
  let len := 1 + viewer.virtualHosts.length
  if viewer.systemLogs ≠ [] then len + (1 + viewer.systemLogs.length) else len

/-- `resolve_selection`: headers point at no source. -/
def resolveSelection (viewer : Viewer) (index : ℕ) : Option Source :=
  if index = 0 then none
  else match viewer.virtualHosts[index - 1]? with
    | some vhost => some vhost.source
    | none =>
      let systemHeader := 1 + viewer.virtualHosts.length
      if viewer.systemLogs ≠ [] ∧ systemHeader < index then
        match viewer.systemLogs[index - systemHeader - 1]? with
        | some systemLog => some systemLog.source
        | none => none
      else none

/-- `log_list_max`: the highest index of the list of the selected source, or 0. -/
def logListMax (viewer : Viewer) : ℕ :=
  match viewer.selectedSource with
  | none => 0
  | some source => match viewer.logEntries source.name with
    | none => 0
    | some entries => entries.length - 1

/-! ## Actions -/

/-- `handle_filter_action`: everything but the keys of the filter is swallowed. -/
def handleFilterAction (viewer : Viewer) : Action → Viewer
  | .FilterInput c => { viewer with filterText := viewer.filterText.push c }
  | .FilterBackspace =>
    { viewer with filterText := String.ofList viewer.filterText.toList.dropLast }
  | .ClearFilter => { viewer with filterMode := false, filterText := "" }
  | .ToggleFilter | .Refresh => { viewer with filterMode := false }
  | _ => viewer

/-- `move_selection`: a panel without a selection keeps none. -/
def moveSelection (viewer : Viewer) (delta : ℤ) : Viewer :=
  match viewer.focus with
  | .HostList =>
    let max := viewer.totalHostListLen - 1
    { viewer with
      hostState := viewer.hostState.map fun i => min (saturatingAddSigned i delta) max }
  | .LogList =>
    { viewer with
      logState := viewer.logState.map fun i => min (saturatingAddSigned i delta) viewer.logListMax }

/-- A change of the cache; one that failed changes nothing, and is logged. -/
def settle (viewer : Viewer) : Except SentinelError LogViewer → Viewer
  | .ok cache => { viewer with toLogViewer := cache }
  | .error _ => viewer

/-- The source that `Refresh` switches to: the highlighted one, unless it is shown already. -/
def refreshTarget (viewer : Viewer) : Option Source :=
  match viewer.hostState with
  | none => none
  | some i => match viewer.resolveSelection i with
    | none => none
    | some source => if viewer.selectedSource ≠ some source then some source else none

/-- The switch of `Refresh`. -/
def switchTo (viewer : Viewer) (data : LogDataSource) (source : Source) : Viewer :=
  let viewer := { viewer with selectedSource := some source, logState := some 0 }
  viewer.settle (viewer.loadRecentEntries data source)

/-- The source that `Tick` polls: the selected one, when a poll is due. -/
def pollTarget (viewer : Viewer) (now : ℕ) : Option Source :=
  let due := match viewer.lastPoll with
    | none => true
    | some last => decide (viewer.pollInterval ≤ now - last)
  if due then viewer.selectedSource else none

/-- The poll of `Tick`. -/
def poll (viewer : Viewer) (moment : Moment) (source : Source) : Viewer :=
  let viewer := { viewer with lastPoll := some moment.polledAt }
  viewer.settle (viewer.checkNewEntries moment.data source)

/-- `handle_action`. -/
def handleAction (viewer : Viewer) (action : Action) (moment : Moment) : Viewer :=
  if viewer.filterMode then viewer.handleFilterAction action
  else match action with
    | .ToggleFocus => { viewer with focus := viewer.focus.toggle }
    | .SelectUp => viewer.moveSelection (-1)
    | .SelectDown => viewer.moveSelection 1
    | .Refresh => match viewer.refreshTarget with
      | some source => viewer.switchTo moment.data source
      | none => viewer
    | .ToggleFilter => { viewer with filterMode := true }
    | .ClearFilter => { viewer with filterText := "" }
    | .PageUp => { viewer with logState := viewer.logState.map fun i => i - 20 }
    | .PageDown =>
      { viewer with logState := viewer.logState.map fun i => min (i + 20) viewer.logListMax }
    | .ScrollToTop => { viewer with logState := some 0 }
    | .ScrollToBottom =>
      if viewer.selectedSource.any fun source => (viewer.logEntries source.name).isSome then
        { viewer with logState := some viewer.logListMax }
      else viewer
    | .Tick => match viewer.pollTarget moment.now with
      | some source => viewer.poll moment source
      | none => viewer
    | _ => viewer

/-- `init`: the sources by kind, and the entries of the first virtual host. -/
def init (viewer : Viewer) (sources : Except SentinelError (List SourceInfo))
    (data : LogDataSource) : Except SentinelError Unit × Viewer :=
  match sources with
  | .error e => (.error e, viewer)
  | .ok discovered =>
    let viewer := { viewer with
      virtualHosts := discovered.filter fun s => s.source.kind = SourceKind.Vhost
      systemLogs := discovered.filter fun s => s.source.kind ≠ SourceKind.Vhost }
    match viewer.virtualHosts with
    | [] => (.ok (), viewer)
    | first :: _ =>
      let viewer := { viewer with selectedSource := some first.source }
      match viewer.loadRecentEntries data first.source with
      | .error e => (.error e, viewer)
      | .ok cache => (.ok (), { viewer with toLogViewer := cache })

/-- What a switch comes to. -/
theorem switchTo_cases (viewer : Viewer) (data : LogDataSource) (source : Source) :
    (∃ e, data.recent source maxEntriesPerHost = .error e ∧ viewer.switchTo data source
      = { viewer with selectedSource := some source, logState := some 0 }) ∨
    ∃ entries, data.recent source maxEntriesPerHost = .ok entries ∧ viewer.switchTo data source
      = { viewer with
          selectedSource := some source
          logState := some 0
          logEntries := Function.update viewer.logEntries source.name (some entries) } := by
  unfold switchTo LogViewer.loadRecentEntries
  cases data.recent source maxEntriesPerHost with
  | error e => exact Or.inl ⟨e, rfl, rfl⟩
  | ok entries => exact Or.inr ⟨entries, rfl, rfl⟩

/-- What a poll comes to: nothing but its time, or new entries before those that are cached. -/
theorem poll_cases (viewer : Viewer) (moment : Moment) (source : Source) :
    (viewer.poll moment source = { viewer with lastPoll := some moment.polledAt } ∧
      ∀ newest rest entries, viewer.logEntries source.name = some (newest :: rest) →
        moment.data.newer source newest.timestamp newest.id newEntriesPerPoll = .ok entries →
        entries = []) ∨
    ∃ newest rest entries, viewer.logEntries source.name = some (newest :: rest) ∧
      moment.data.newer source newest.timestamp newest.id newEntriesPerPoll = .ok entries ∧
      viewer.poll moment source = { viewer with
        lastPoll := some moment.polledAt
        logEntries := Function.update viewer.logEntries source.name
          (some ((entries ++ newest :: rest).take maxEntriesPerHost)) } := by
  unfold poll LogViewer.checkNewEntries
  dsimp only
  rcases hcached : viewer.logEntries source.name with _ | _ | ⟨newest, rest⟩
  · exact Or.inl ⟨rfl, fun _ _ _ h => by cases h⟩
  · exact Or.inl ⟨rfl, fun _ _ _ h => by cases h⟩
  · rcases hnewer : moment.data.newer source newest.timestamp newest.id newEntriesPerPoll with
      e | _ | ⟨entry, entries⟩
    · refine Or.inl ⟨by simp only [hnewer, settle], fun _ _ _ h hok => ?_⟩
      obtain ⟨rfl, rfl⟩ := List.cons.inj (Option.some.inj h)
      rw [hnewer] at hok
      cases hok
    · refine Or.inl ⟨by simp only [hnewer, settle], fun _ _ _ h hok => ?_⟩
      obtain ⟨rfl, rfl⟩ := List.cons.inj (Option.some.inj h)
      rw [hnewer] at hok
      exact (Except.ok.inj hok).symm
    · refine Or.inr ⟨newest, rest, entry :: entries, rfl, hnewer, ?_⟩
      simp only [hnewer, settle]
      split
      · rfl
      · rename_i hlength
        rw [List.take_of_length_le (not_lt.mp hlength)]

/-- What `init` makes of a new viewer: the rows of the sources panel, and a first switch if a
virtual host is among them. -/
theorem init_cases (pollInterval : ℕ) (sources : Except SentinelError (List SourceInfo))
    (data : LogDataSource) : ∃ virtualHosts systemLogs,
    let viewer := { new.withPollInterval pollInterval with
      virtualHosts := virtualHosts, systemLogs := systemLogs }
    virtualHosts ++ systemLogs ⊆ sources.toOption.getD [] ∧
      (((new.withPollInterval pollInterval).init sources data).2 = viewer ∨
        ∃ first ∈ virtualHosts, ((new.withPollInterval pollInterval).init sources data).2
          = viewer.switchTo data first.source) := by
  cases sources with
  | error e => exact ⟨[], [], List.Subset.refl _, Or.inl rfl⟩
  | ok discovered =>
    refine ⟨discovered.filter fun s => s.source.kind = SourceKind.Vhost,
      discovered.filter fun s => s.source.kind ≠ SourceKind.Vhost,
      List.append_subset.mpr ⟨List.filter_subset_self _, List.filter_subset_self _⟩, ?_⟩
    unfold init
    dsimp only
    split
    · exact Or.inl rfl
    · rename_i first _ hvirtualHosts
      refine Or.inr ⟨first, hvirtualHosts ▸ List.mem_cons_self, ?_⟩
      unfold switchTo LogViewer.loadRecentEntries
      cases data.recent first.source maxEntriesPerHost with
      | error e => rfl
      | ok entries => rfl

/-! ## Drawing -/

/-- The rows of `render_host_list`. -/
def hostItems (viewer : Viewer) : List String :=
  ["Virtual Hosts"]
    ++ (if viewer.virtualHosts = [] ∧ viewer.systemLogs = [] then ["No log sources found"] else [])
    ++ viewer.virtualHosts.map (fun h => "[L] " ++ h.source.name)
    ++ (if viewer.systemLogs ≠ [] then
        "System Logs" :: viewer.systemLogs.map (fun h => "[S] " ++ h.source.name)
      else [])

/-- An entry passes a filter in its message or in its line, whatever the case. -/
def passes (u : Unicode) (filterText : String) (entry : DisplayLogEntry) : Bool :=
  filterText.isEmpty ||
    (Text.contains (toLowercase u entry.message) (toLowercase u filterText) ||
      Text.contains (toLowercase u entry.raw) (toLowercase u filterText))

/-- What is cached for the selected source. -/
def entries (viewer : Viewer) : List DisplayLogEntry :=
  match viewer.selectedSource with
  | none => []
  | some source => viewer.cached source

/-- The rows of `render_log_list`. -/
def displayed (u : Unicode) (viewer : Viewer) : List DisplayLogEntry :=
  viewer.entries.filter (passes u viewer.filterText)

end Viewer

/-- The selection that ratatui's `List` leaves after it renders some number of items. -/
def renderedSelection (items : ℕ) (selected : Option ℕ) : Option ℕ :=
  if items = 0 then none else selected.map fun i => if items ≤ i then items - 1 else i

@[simp] theorem renderedSelection_none (items : ℕ) : renderedSelection items none = none := by
  unfold renderedSelection
  split <;> rfl

theorem renderedSelection_zero (selected : Option ℕ) : renderedSelection 0 selected = none := rfl

/-- Among some rows, a selection stays one, and it is one of them. -/
theorem renderedSelection_some {items : ℕ} (h : items ≠ 0) (i : ℕ) :
    ∃ j, renderedSelection items (some i) = some j ∧ j ≤ i ∧ j < items := by
  refine ⟨if items ≤ i then items - 1 else i, ?_, ?_, ?_⟩
  · unfold renderedSelection
    rw [if_neg h]
    rfl
  · split <;> omega
  · split <;> omega

/-- `render`. -/
def Viewer.draw (u : Unicode) (viewer : Viewer) : Viewer :=
  { viewer with
    hostState := renderedSelection viewer.hostItems.length viewer.hostState
    logState := renderedSelection (viewer.displayed u).length viewer.logState }

/-- A session: actions and drawing, in any order. -/
inductive Label
  | action (action : Action) (moment : Moment)
  | draw

def session (u : Unicode) : Machine Viewer Label where
  step viewer
    | .action action moment => some (viewer.handleAction action moment)
    | .draw => some (viewer.draw u)

/-- Everything can happen at any time. -/
theorem exists_session (u : Unicode) (viewer : Viewer) (labels : List Label) :
    ∃ viewer', (session u).Run viewer labels viewer' := by
  induction labels generalizing viewer with
  | nil => exact ⟨viewer, .nil⟩
  | cons label labels ih =>
    obtain ⟨next, hstep⟩ : ∃ next, (session u).step viewer label = some next := by
      cases label <;> exact ⟨_, rfl⟩
    obtain ⟨viewer', hrest⟩ := ih next
    exact ⟨viewer', hrest.cons hstep⟩

end Sentinalysis.Tui
