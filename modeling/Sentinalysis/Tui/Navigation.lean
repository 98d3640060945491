/-
# Sentinalysis.Tui.Navigation — whether the keys still move a selection.

Drawing a list without rows takes the selection away, and the keys that move a selection do nothing
without one.  So a filter that matches nothing leaves a viewer behind whose keys do not work once
rows are back, until a key that sets the selection is pressed.
-/
import Sentinalysis.Tui.ViewerState

namespace Sentinalysis.Tui

open Lib Db LogScanner

namespace Viewer

variable {u : Unicode} {viewer viewer' : Viewer}

/-! ## The navigation keys -/

/-- Up, Down, PageUp and PageDown. -/
def navigationKeys : List Action := [.SelectUp, .SelectDown, .PageUp, .PageDown]

/-- A displayed row is selected. -/
def RowSelected (u : Unicode) (viewer : Viewer) : Prop :=
  ∃ i, viewer.logState = some i ∧ i < (viewer.displayed u).length

/-- With rows on a focused log panel, a navigation key and a draw leave one of them selected. -/
def NavigationWorks (u : Unicode) (viewer : Viewer) : Prop :=
  viewer.displayed u ≠ [] → viewer.focus = .LogList → ∀ key ∈ navigationKeys, ∀ moment,
    RowSelected u ((viewer.handleAction key moment).draw u)

/-- On a focused log panel, a navigation key moves the selection if there is one. -/
theorem handleAction_navigation (hfocus : viewer.focus = .LogList) {key : Action}
    (hkey : key ∈ navigationKeys) (moment : Moment) :
    ∃ move : ℕ → ℕ, viewer.handleAction key moment
      = { viewer with logState := viewer.logState.map move } := by
  unfold handleAction
  simp only [navigationKeys, List.mem_cons, List.not_mem_nil, or_false] at hkey
  by_cases hmode : viewer.filterMode = true
  · refine ⟨id, ?_⟩
    rw [if_pos hmode, Option.map_id_fun]
    rcases hkey with rfl | rfl | rfl | rfl <;> rfl
  · rw [if_neg hmode]
    rcases hkey with rfl | rfl | rfl | rfl
    · simp only [moveSelection, hfocus]
      exact ⟨_, rfl⟩
    · simp only [moveSelection, hfocus]
      exact ⟨_, rfl⟩
    · exact ⟨_, rfl⟩
    · exact ⟨_, rfl⟩

/-- **The keys work exactly as long as something is selected.** -/
theorem navigationWorks_iff : NavigationWorks u viewer ↔
    (viewer.displayed u ≠ [] → viewer.focus = .LogList → viewer.logState ≠ none) := by
  refine forall₂_congr fun hrows hfocus => ?_
  have hitems : (viewer.displayed u).length ≠ 0 := mt List.length_eq_zero_iff.mp hrows
  constructor
  · intro hworks hnone
    have hkey : Action.SelectUp ∈ navigationKeys := by decide
    let moment : Moment := ⟨memoryLogDataSource fun _ => none, 0, 0⟩
    obtain ⟨move, hmove⟩ := handleAction_navigation hfocus hkey moment
    obtain ⟨i, hi, -⟩ := hworks .SelectUp hkey moment
    rw [hmove] at hi
    have hdrawn : renderedSelection (viewer.displayed u).length (viewer.logState.map move)
        = some i := hi
    rw [hnone, Option.map_none, renderedSelection_none] at hdrawn
    cases hdrawn
  · intro hsome key hkey moment
    obtain ⟨move, hmove⟩ := handleAction_navigation hfocus hkey moment
    obtain ⟨i, hi⟩ := Option.ne_none_iff_exists'.mp hsome
    obtain ⟨j, hj, -, hlt⟩ := renderedSelection_some hitems (move i)
    rw [hmove]
    refine ⟨j, ?_, hlt⟩
    show renderedSelection (viewer.displayed u).length (viewer.logState.map move) = some j
    rw [hi, Option.map_some, hj]

/-! ## Rows that come back -/

/-- What a poll brings. -/
def arrivals (viewer : Viewer) (moment : Moment) : List DisplayLogEntry :=
  match viewer.pollTarget moment.now with
  | none => []
  | some source => match viewer.logEntries source.name with
    | some (newest :: _) =>
      match moment.data.newer source newest.timestamp newest.id newEntriesPerPoll with
      | .ok entries => entries
      | .error _ => []
    | _ => []

/-- A tick leaves the list of the selected source, or puts what the poll brings before it. -/
theorem entries_tick (viewer : Viewer) (moment : Moment) (hmode : viewer.filterMode = false) :
    (viewer.handleAction .Tick moment).logState = viewer.logState ∧
    (viewer.handleAction .Tick moment).focus = viewer.focus ∧
    (viewer.handleAction .Tick moment).filterText = viewer.filterText ∧
    ((viewer.handleAction .Tick moment).entries = viewer.entries ∧ viewer.arrivals moment = [] ∨
      (viewer.handleAction .Tick moment).entries
        = (viewer.arrivals moment ++ viewer.entries).take maxEntriesPerHost) := by
  unfold handleAction arrivals
  rw [hmode, if_neg Bool.false_ne_true]
  dsimp only
  cases htarget : viewer.pollTarget moment.now with
  | none => exact ⟨rfl, rfl, rfl, Or.inl ⟨rfl, rfl⟩⟩
  | some source =>
    dsimp only
    have hselected := selectedSource_of_pollTarget htarget
    rcases viewer.poll_cases moment source with
      ⟨heq, hnothing⟩ | ⟨newest, rest, entries, hcached, hnewer, heq⟩
    · rw [heq]
      refine ⟨rfl, rfl, rfl, Or.inl ⟨rfl, ?_⟩⟩
      split
      · rename_i newest rest hcached
        split
        · rename_i entries hnewer
          exact hnothing newest rest entries hcached hnewer
        · rfl
      · rfl
    · rw [heq, hcached]
      refine ⟨rfl, rfl, rfl, Or.inr ?_⟩
      simp only [hnewer, Viewer.entries, hselected, LogViewer.cached, Function.update_self,
        hcached, Option.getD_some]

/-- With nothing selected, an action brings rows before the user: by another filter, by another
focus, or by new entries. -/
def Strands (u : Unicode) (viewer : Viewer) : Label → Prop
  | .draw => False
  | .action action moment => viewer.logState = none ∧ match action with
    | .FilterInput c => viewer.filterMode = true ∧ viewer.focus = .LogList ∧
      viewer.entries.filter (passes u (viewer.filterText.push c)) ≠ []
    | .FilterBackspace => viewer.filterMode = true ∧ viewer.focus = .LogList ∧
      viewer.entries.filter (passes u (String.ofList viewer.filterText.toList.dropLast)) ≠ []
    | .ClearFilter => viewer.focus = .LogList ∧ viewer.entries ≠ []
    | .ToggleFocus => viewer.filterMode = false ∧ viewer.focus = .HostList ∧
      viewer.displayed u ≠ []
    | .Tick => viewer.filterMode = false ∧ viewer.focus = .LogList ∧
      ∃ entry ∈ (viewer.arrivals moment).take maxEntriesPerHost,
        passes u viewer.filterText entry = true
    | _ => False

theorem displayed_ne_nil_iff : viewer.displayed u ≠ [] ↔
    ∃ entry ∈ viewer.entries, passes u viewer.filterText entry = true := by
  unfold displayed
  rw [Ne, List.filter_eq_nil_iff]
  simp only [not_forall, not_not, exists_prop]

/-- Without a filter everything is shown. -/
theorem displayed_of_isEmpty (h : viewer.filterText = "") : viewer.displayed u = viewer.entries := by
  unfold displayed
  rw [h]
  exact List.filter_eq_self.mpr fun entry _ => rfl

/-- Where nothing was shown, a tick shows rows exactly when the poll brings some. -/
theorem displayed_tick {moment : Moment} (hmode : viewer.filterMode = false)
    (hnone : viewer.displayed u = []) :
    (viewer.handleAction .Tick moment).displayed u ≠ [] ↔
      ∃ entry ∈ (viewer.arrivals moment).take maxEntriesPerHost,
        passes u viewer.filterText entry = true := by
  obtain ⟨-, -, htext, hentries⟩ := viewer.entries_tick moment hmode
  have hold : ∀ entry ∈ viewer.entries, ¬ passes u viewer.filterText entry = true :=
    fun entry hentry hpasses => displayed_ne_nil_iff.mpr ⟨entry, hentry, hpasses⟩ hnone
  rw [displayed_ne_nil_iff, htext]
  rcases hentries with ⟨heq, hnothing⟩ | heq
  · rw [heq, hnothing, List.take_nil]
    constructor
    · rintro ⟨entry, hentry, hpasses⟩
      exact absurd hpasses (hold entry hentry)
    · rintro ⟨entry, hentry, -⟩
      exact absurd hentry List.not_mem_nil
  · rw [heq, List.take_append]
    constructor
    · rintro ⟨entry, hentry, hpasses⟩
      rcases List.mem_append.mp hentry with hnew | hmem
      · exact ⟨entry, hnew, hpasses⟩
      · exact absurd hpasses (hold entry (List.mem_of_mem_take hmem))
    · rintro ⟨entry, hnew, hpasses⟩
      exact ⟨entry, List.mem_append_left _ hnew, hpasses⟩

/-! ## One step -/

theorem renderedSelection_eq_none {items : ℕ} (h : items ≠ 0) {selected : Option ℕ}
    (hnone : renderedSelection items selected = none) : selected = none := by
  cases selected with
  | none => rfl
  | some i =>
    obtain ⟨j, hj, -⟩ := renderedSelection_some h i
    rw [hj] at hnone
    cases hnone

/-- Moving a selection leaves the log panel as it is, but for the row that is selected. -/
theorem moveSelection_log (u : Unicode) (viewer : Viewer) (delta : ℤ) :
    (viewer.moveSelection delta).displayed u = viewer.displayed u ∧
    (viewer.moveSelection delta).focus = viewer.focus ∧
    ((viewer.moveSelection delta).logState = none ↔ viewer.logState = none) := by
  unfold moveSelection
  split
  · exact ⟨rfl, rfl, Iff.rfl⟩
  · exact ⟨rfl, rfl, Option.map_eq_none_iff⟩

theorem logState_switchTo (viewer : Viewer) (data : LogDataSource) (source : Source) :
    (viewer.switchTo data source).logState = some 0 := by
  rcases viewer.switchTo_cases data source with ⟨_, -, heq⟩ | ⟨_, -, heq⟩
  · rw [heq]
  · rw [heq]

/-- A step that strands nobody leaves the keys working. -/
theorem NavigationWorks.step {label : Label} (hworks : NavigationWorks u viewer)
    (hstrands : ¬ Strands u viewer label)
    (hstep : (session u).step viewer label = some viewer') : NavigationWorks u viewer' := by
  rw [navigationWorks_iff] at hworks ⊢
  intro hrows hfocus hnone
  cases label with
  | draw =>
    obtain rfl := Option.some.inj hstep
    have hitems : (viewer.displayed u).length ≠ 0 := mt List.length_eq_zero_iff.mp hrows
    exact hworks hrows hfocus (renderedSelection_eq_none hitems hnone)
  | action action moment =>
    obtain rfl := Option.some.inj hstep
    have hclear : ∀ mode : Bool, ({ viewer with filterMode := mode, filterText := "" }).displayed u
        = viewer.entries := fun mode => displayed_of_isEmpty rfl
    by_cases hmode : viewer.filterMode = true
    · unfold handleAction at hrows hfocus hnone
      rw [if_pos hmode] at hrows hfocus hnone
      cases action with
      | FilterInput c => exact hstrands ⟨hnone, hmode, hfocus, hrows⟩
      | FilterBackspace => exact hstrands ⟨hnone, hmode, hfocus, hrows⟩
      | ClearFilter => exact hstrands ⟨hnone, hfocus, fun hnil => hrows ((hclear false).trans hnil)⟩
      | _ => exact hworks hrows hfocus hnone
    · have hmode' : viewer.filterMode = false := Bool.eq_false_iff.mpr hmode
      by_cases htick : action = .Tick
      · subst htick
        obtain ⟨hstate, hpanel, -⟩ := viewer.entries_tick moment hmode'
        rw [hstate] at hnone
        rw [hpanel] at hfocus
        have hempty : viewer.displayed u = [] := by
          by_contra hshown
          exact hworks hshown hfocus hnone
        exact hstrands ⟨hnone, hmode', hfocus, (displayed_tick hmode' hempty).mp hrows⟩
      unfold handleAction at hrows hfocus hnone
      rw [if_neg hmode] at hrows hfocus hnone
      cases action with
      | Tick => exact absurd rfl htick
      | ToggleFocus => exact hstrands ⟨hnone, hmode', PanelFocus.eq_of_toggle hfocus, hrows⟩
      | ClearFilter => exact hstrands ⟨hnone, hfocus, fun hnil => hrows ((hclear _).trans hnil)⟩
      | SelectUp =>
        obtain ⟨hshown, hpanel, hstate⟩ := moveSelection_log u viewer (-1)
        exact hworks (hshown ▸ hrows) (hpanel ▸ hfocus) (hstate.mp hnone)
      | SelectDown =>
        obtain ⟨hshown, hpanel, hstate⟩ := moveSelection_log u viewer 1
        exact hworks (hshown ▸ hrows) (hpanel ▸ hfocus) (hstate.mp hnone)
      | Refresh =>
        cases htarget : viewer.refreshTarget with
        | none =>
          simp only [htarget] at hrows hfocus hnone
          exact hworks hrows hfocus hnone
        | some source =>
          simp only [htarget] at hnone
          rw [logState_switchTo] at hnone
          cases hnone
      | PageUp => exact hworks hrows hfocus (Option.map_eq_none_iff.mp hnone)
      | PageDown => exact hworks hrows hfocus (Option.map_eq_none_iff.mp hnone)
      | ScrollToTop =>
        cases hnone
      | ScrollToBottom =>
        dsimp only at hrows hfocus hnone
        split at hnone
        · cases hnone
        · rename_i hcached
          rw [if_neg hcached] at hrows hfocus
          exact hworks hrows hfocus hnone
      | _ => exact hworks hrows hfocus hnone

/-- A step that strands somebody leaves keys that do not work. -/
theorem not_navigationWorks_of_strands {label : Label} (hstrands : Strands u viewer label)
    (hstep : (session u).step viewer label = some viewer') : ¬ NavigationWorks u viewer' := by
  rw [navigationWorks_iff]
  intro hworks
  cases label with
  | draw => exact hstrands
  | action action moment =>
    obtain rfl := Option.some.inj hstep
    obtain ⟨hnone, haction⟩ := hstrands
    cases action with
    | FilterInput c =>
      obtain ⟨hmode, hfocus, hrows⟩ := haction
      unfold handleAction at hworks
      rw [if_pos hmode] at hworks
      exact hworks hrows hfocus hnone
    | FilterBackspace =>
      obtain ⟨hmode, hfocus, hrows⟩ := haction
      unfold handleAction at hworks
      rw [if_pos hmode] at hworks
      exact hworks hrows hfocus hnone
    | ClearFilter =>
      obtain ⟨hfocus, hentries⟩ := haction
      unfold handleAction at hworks
      split at hworks
      · exact hworks (by rw [displayed_of_isEmpty rfl]; exact hentries) hfocus hnone
      · exact hworks (by rw [displayed_of_isEmpty rfl]; exact hentries) hfocus hnone
    | ToggleFocus =>
      obtain ⟨hmode, hfocus, hrows⟩ := haction
      unfold handleAction at hworks
      rw [hmode, if_neg Bool.false_ne_true] at hworks
      exact hworks hrows (congrArg PanelFocus.toggle hfocus) hnone
    | Tick =>
      obtain ⟨hmode, hfocus, entry, hentry, hpasses⟩ := haction
      obtain ⟨hstate, hpanel, htext, hentries⟩ := viewer.entries_tick moment hmode
      refine hworks ?_ (hpanel.trans hfocus) (hstate.trans hnone)
      refine displayed_ne_nil_iff.mpr ⟨entry, ?_, by rw [htext]; exact hpasses⟩
      rcases hentries with ⟨-, hnothing⟩ | heq
      · rw [hnothing, List.take_nil] at hentry
        exact absurd hentry List.not_mem_nil
      · rw [heq, List.take_append]
        exact List.mem_append_left _ hentry
    | _ => exact haction

/-! ## Sessions -/

/-- **The keys work throughout a session** exactly when no step of it brings rows before a user with
nothing selected. -/
theorem navigationWorks_iff_spares {labels : List Label} (hselected : viewer.logState ≠ none)
    (hrun : (session u).Run viewer labels viewer') :
    (session u).Always (NavigationWorks u) viewer labels ↔
      (session u).Along (fun viewer label => ¬ Strands u viewer label) viewer labels := by
  refine hrun.always_iff_along_of_keep (J := NavigationWorks u) ?_ ?_ (fun _ => id) ?_
  · exact navigationWorks_iff.mpr fun _ _ => hselected
  · intro labels before label after _ hworks hspares hstep
    exact hworks.step hspares hstep
  · intro labels before label after _ hstep hworks hstrands
    exact not_navigationWorks_of_strands hstrands hstep hworks

/-! ## A filter without a match -/

/-- A viewer on a source with two entries. -/
def shopViewer : Viewer :=
  (new.init (.ok [⟨.vhost "shop.example.com", 2⟩]) (shopData [2, 1])).2

def shopMoment : Moment := ⟨shopData [2, 1], 0, 0⟩

/-- Without a filter the keys go on working. -/
theorem navigationWorks_shop : (session .ascii).Always (NavigationWorks .ascii) shopViewer
    [.draw, .action .ToggleFocus shopMoment, .action .SelectDown shopMoment, .draw] := by
  obtain ⟨viewer, hrun⟩ := exists_session .ascii shopViewer
    [.draw, .action .ToggleFocus shopMoment, .action .SelectDown shopMoment, .draw]
  refine (navigationWorks_iff_spares (by decide) hrun).mpr ?_
  refine ⟨id, fun hstrands => ?_, fun hstrands => hstrands.2, id, trivial⟩
  -- what was drawn has a selected row
  have hselected : (shopViewer.draw .ascii).logState ≠ none := by decide
  exact hselected hstrands.1

/-- A filter is typed that matches nothing, and is cleared again. -/
def clearedFilter : List Label :=
  [.action .ToggleFocus shopMoment, .action .ToggleFilter shopMoment,
    .action (.FilterInput '%') shopMoment, .draw, .action .ClearFilter shopMoment]

/-- Both entries are shown again, and the keys do not work. -/
theorem not_navigationWorks_clearedFilter :
    ¬ (session .ascii).Always (NavigationWorks .ascii) shopViewer clearedFilter := by
  have hexec : ((session .ascii).exec shopViewer clearedFilter).any (fun viewer =>
      viewer.displayed .ascii ≠ [] ∧ viewer.focus = .LogList ∧ viewer.logState = none) = true := by
    decide +kernel
  obtain ⟨viewer, hrun, h⟩ := Machine.exists_run_any hexec
  obtain ⟨hrows, hfocus, hnone⟩ := of_decide_eq_true h
  intro halways
  exact navigationWorks_iff.mp (halways.last hrun) hrows hfocus hnone

end Viewer

end Sentinalysis.Tui
