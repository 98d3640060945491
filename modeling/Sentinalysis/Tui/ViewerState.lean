/-
# Sentinalysis.Tui.ViewerState — what holds of the viewer after every action.

The selections stay within their panels and the cached lists stay in order, whatever is pressed and
whichever queries fail.  A poll puts what is new before what is there: that the list stays in order
rests on its first entry being the greatest, since this is the cursor that the poll asks with.
-/
import Sentinalysis.Tui.Viewer

namespace Sentinalysis.Tui

open Lib Db LogScanner

/-! ## The contract of a data source -/

/-- A list that a data source may answer with: of bounded length, newest first, and every id with
its own timestamp. -/
structure Reply (stamp : Uuid → DateTime) (limit : ℕ) (entries : List DisplayLogEntry) : Prop where
  length_le : entries.length ≤ limit
  descending : Window.Descending DisplayLogEntry.cursor entries
  stamped : ∀ entry ∈ entries, entry.timestamp = stamp entry.id

/-- The contract of `LogDataSource`, for a source whose ids have the timestamps of `stamp`. -/
structure LogDataSource.Honours (stamp : Uuid → DateTime) (data : LogDataSource) : Prop where
  recent : ∀ source limit entries, data.recent source limit = .ok entries →
    Reply stamp limit entries
  newer : ∀ source since sinceId limit entries,
    data.newer source since sinceId limit = .ok entries →
    Reply stamp limit entries ∧ ∀ entry ∈ entries, rowValue since sinceId < entry.cursor

/-- The newest entries of a collection are a reply. -/
theorem Reply.newest {stamp : Uuid → DateTime} {stored : List DisplayLogEntry}
    (hnodup : (stored.map DisplayLogEntry.cursor).Nodup)
    (hstamp : ∀ entry ∈ stored, entry.timestamp = stamp entry.id) (limit : ℕ) :
    Reply stamp limit (Window.newest DisplayLogEntry.cursor limit stored) where
  length_le := Window.length_newest_le limit stored
  descending := (Window.Held.newest hnodup).descending
  stamped entry hentry := hstamp entry (Window.newest_subset limit stored hentry)

/-- A data source that serves what it holds honours the contract. -/
theorem LogDataSource.Honours.of_serves {stamp : Uuid → DateTime} {data : LogDataSource}
    {stored : Source → List DisplayLogEntry} (hserves : ∀ source, data.Serves source (stored source))
    (hnodup : ∀ source, ((stored source).map DisplayLogEntry.cursor).Nodup)
    (hstamp : ∀ source, ∀ entry ∈ stored source, entry.timestamp = stamp entry.id) :
    data.Honours stamp where
  recent source limit entries h := by
    rw [(hserves source).recent] at h
    obtain rfl := Except.ok.inj h
    exact Reply.newest (hnodup source) (hstamp source) limit
  newer source since sinceId limit entries h := by
    rw [(hserves source).newer] at h
    obtain rfl := Except.ok.inj h
    have hsub : Window.above DisplayLogEntry.cursor (rowValue since sinceId) (stored source) ⊆
        stored source := fun entry hentry => (Window.mem_above.mp hentry).1
    refine ⟨Reply.newest ((hnodup source).sublist (List.filter_sublist.map _))
      (fun entry hentry => hstamp source entry (hsub hentry)) limit, fun entry hentry => ?_⟩
    exact (Window.mem_above.mp (Window.newest_subset limit _ hentry)).2

/-- A database honours the contract, with or without a failure. -/
theorem pgLogDataSource_honours {stamp : Uuid → DateTime} {store : LogStore}
    (hstamp : ∀ source, ∀ entry ∈ storedEntries store source, entry.timestamp = stamp entry.id)
    (failure : Option SentinelError) : (pgLogDataSource store failure).Honours stamp := by
  cases failure with
  | none =>
    exact .of_serves (pgLogDataSource_serves store) (nodup_storedEntries store) hstamp
  | some e => exact ⟨fun _ _ _ h => (by cases h), fun _ _ _ _ _ h => (by cases h)⟩

/-! ## The invariants -/

/-- A cached list in good order. -/
structure Cached (stamp : Uuid → DateTime) (entries : List DisplayLogEntry) : Prop where
  descending : Window.Descending DisplayLogEntry.cursor entries
  stamped : ∀ entry ∈ entries, entry.timestamp = stamp entry.id
  length_le : entries.length ≤ maxEntriesPerHost

theorem Reply.cached {stamp : Uuid → DateTime} {entries : List DisplayLogEntry}
    (h : Reply stamp maxEntriesPerHost entries) : Cached stamp entries :=
  ⟨h.descending, h.stamped, h.length_le⟩

/-- No id is in the list twice: its entries would share their timestamp, and so their place. -/
theorem Cached.nodup_ids {stamp : Uuid → DateTime} {entries : List DisplayLogEntry}
    (h : Cached stamp entries) : (entries.map DisplayLogEntry.id).Nodup := by
  refine List.pairwise_map.mpr (List.pairwise_iff_forall_sublist.mpr fun {a b} hab heq => ?_)
  have hlt : b.cursor < a.cursor := List.pairwise_iff_forall_sublist.mp h.descending hab
  have hstamp : a.timestamp = b.timestamp := by
    rw [h.stamped a (hab.subset List.mem_cons_self),
      h.stamped b (hab.subset (List.mem_cons_of_mem _ List.mem_cons_self)), heq]
  rw [DisplayLogEntry.cursor, DisplayLogEntry.cursor, hstamp, heq] at hlt
  exact lt_irrefl _ hlt

/-- A poll keeps a list in good order, and does not make it shorter. -/
theorem Cached.splice {stamp : Uuid → DateTime} {newest : DisplayLogEntry}
    {rest entries : List DisplayLogEntry} {limit : ℕ} (h : Cached stamp (newest :: rest))
    (hreply : Reply stamp limit entries)
    (habove : ∀ entry ∈ entries, rowValue newest.timestamp newest.id < entry.cursor) :
    Cached stamp ((entries ++ newest :: rest).take maxEntriesPerHost) where
  descending := (hreply.descending.append h.descending habove).sublist (List.take_sublist _ _)
  stamped entry hentry := by
    rcases List.mem_append.mp (List.mem_of_mem_take hentry) with hnew | hold
    · exact hreply.stamped entry hnew
    · exact h.stamped entry hold
  length_le := List.length_take_le _ _

namespace Viewer

/-- The invariants of the viewer. -/
structure Sound (stamp : Uuid → DateTime) (viewer : Viewer) : Prop where
  hostState : ∃ i, viewer.hostState = some i ∧ i < viewer.totalHostListLen
  logState : ∀ i, viewer.logState = some i → i ≤ viewer.logListMax
  caches : ∀ name entries, viewer.logEntries name = some entries → Cached stamp entries

theorem totalHostListLen_pos (viewer : Viewer) : 0 < viewer.totalHostListLen := by
  unfold totalHostListLen
  dsimp only
  split <;> omega

theorem logListMax_eq (viewer : Viewer) : viewer.logListMax = viewer.entries.length - 1 := by
  unfold logListMax entries LogViewer.cached
  cases viewer.selectedSource with
  | none => rfl
  | some source =>
    dsimp only
    cases viewer.logEntries source.name with
    | none => rfl
    | some entries => rfl

/-! ## What an action changes -/

/-- The selections move within their panels; the lists of the panels are left alone. -/
structure Moves (viewer viewer' : Viewer) : Prop where
  logEntries : viewer'.logEntries = viewer.logEntries
  virtualHosts : viewer'.virtualHosts = viewer.virtualHosts
  systemLogs : viewer'.systemLogs = viewer.systemLogs
  selectedSource : viewer'.selectedSource = viewer.selectedSource
  hostState : ∀ i, viewer.hostState = some i →
    ∃ j, viewer'.hostState = some j ∧ (j ≤ i ∨ j ≤ viewer.totalHostListLen - 1)
  logState : ∀ i, viewer'.logState = some i →
    (∃ j, viewer.logState = some j ∧ i ≤ j) ∨ i ≤ viewer.logListMax

/-- What leaves the selections alone, too, moves nothing. -/
theorem Moves.of_eq {viewer viewer' : Viewer} (hlog : viewer'.toLogViewer = viewer.toLogViewer)
    (hhosts : viewer'.virtualHosts = viewer.virtualHosts)
    (hlogs : viewer'.systemLogs = viewer.systemLogs)
    (hselected : viewer'.selectedSource = viewer.selectedSource)
    (hstate : viewer'.hostState = viewer.hostState) : Moves viewer viewer' where
  logEntries := by rw [hlog]
  virtualHosts := hhosts
  systemLogs := hlogs
  selectedSource := hselected
  hostState i hi := ⟨i, hstate.trans hi, Or.inl le_rfl⟩
  logState i hi := Or.inl ⟨i, by rw [← hlog]; exact hi, le_rfl⟩

/-- What moves the selection of the log panel only. -/
theorem Moves.of_logState {viewer : Viewer} {logState : Option ℕ}
    (h : ∀ i, logState = some i →
      (∃ j, viewer.logState = some j ∧ i ≤ j) ∨ i ≤ viewer.logListMax) :
    Moves viewer { viewer with logState := logState } :=
  ⟨rfl, rfl, rfl, rfl, fun i hi => ⟨i, hi, Or.inl le_rfl⟩, h⟩

theorem moves_handleFilterAction (viewer : Viewer) (action : Action) :
    Moves viewer (viewer.handleFilterAction action) := by
  cases action <;> exact Moves.of_eq rfl rfl rfl rfl rfl

theorem moves_moveSelection (viewer : Viewer) (delta : ℤ) :
    Moves viewer (viewer.moveSelection delta) := by
  unfold moveSelection
  split
  · refine ⟨rfl, rfl, rfl, rfl, fun i hi => ?_, fun i hi => Or.inl ⟨i, hi, le_rfl⟩⟩
    exact ⟨_, Option.map_eq_some_iff.mpr ⟨i, hi, rfl⟩, Or.inr (Nat.min_le_right _ _)⟩
  · refine Moves.of_logState fun i hi => Or.inr ?_
    obtain ⟨j, -, rfl⟩ := Option.map_eq_some_iff.mp hi
    exact Nat.min_le_right _ _

/-- **An action moves selections, or switches to another source, or polls the selected one.** -/
theorem handleAction_cases (viewer : Viewer) (action : Action) (moment : Moment) :
    Moves viewer (viewer.handleAction action moment) ∨
    (∃ source, action = .Refresh ∧ viewer.filterMode = false ∧ viewer.refreshTarget = some source ∧
      viewer.handleAction action moment = viewer.switchTo moment.data source) ∨
    (∃ source, action = .Tick ∧ viewer.filterMode = false ∧
      viewer.pollTarget moment.now = some source ∧
      viewer.handleAction action moment = viewer.poll moment source) := by
  unfold handleAction
  split
  · exact Or.inl (moves_handleFilterAction viewer action)
  · rename_i hmode
    have hmode' : viewer.filterMode = false := Bool.eq_false_iff.mpr hmode
    cases action with
    | Refresh =>
      cases htarget : viewer.refreshTarget with
      | none => exact Or.inl (Moves.of_eq rfl rfl rfl rfl rfl)
      | some source => exact Or.inr (Or.inl ⟨source, rfl, hmode', rfl, rfl⟩)
    | Tick =>
      cases htarget : viewer.pollTarget moment.now with
      | none => exact Or.inl (Moves.of_eq rfl rfl rfl rfl rfl)
      | some source => exact Or.inr (Or.inr ⟨source, rfl, hmode', rfl, rfl⟩)
    | SelectUp => exact Or.inl (moves_moveSelection viewer (-1))
    | SelectDown => exact Or.inl (moves_moveSelection viewer 1)
    | PageUp =>
      refine Or.inl (Moves.of_logState fun i hi => Or.inl ?_)
      obtain ⟨j, hj, rfl⟩ := Option.map_eq_some_iff.mp hi
      exact ⟨j, hj, Nat.sub_le j 20⟩
    | PageDown =>
      refine Or.inl (Moves.of_logState fun i hi => Or.inr ?_)
      obtain ⟨j, -, rfl⟩ := Option.map_eq_some_iff.mp hi
      exact Nat.min_le_right _ _
    | ScrollToTop =>
      refine Or.inl (Moves.of_logState fun i hi => Or.inr ?_)
      obtain rfl : 0 = i := Option.some.inj hi
      exact Nat.zero_le _
    | ScrollToBottom =>
      dsimp only
      split
      · refine Or.inl (Moves.of_logState fun i hi => Or.inr ?_)
        exact (Option.some.inj hi).symm.le
      · exact Or.inl (Moves.of_eq rfl rfl rfl rfl rfl)
    | _ => exact Or.inl (Moves.of_eq rfl rfl rfl rfl rfl)

/-! ## One step keeps the invariants -/

variable {stamp : Uuid → DateTime} {viewer viewer' : Viewer}

theorem Moves.totalHostListLen (h : Moves viewer viewer') :
    viewer'.totalHostListLen = viewer.totalHostListLen := by
  unfold Viewer.totalHostListLen
  rw [h.virtualHosts, h.systemLogs]

theorem Moves.logListMax (h : Moves viewer viewer') : viewer'.logListMax = viewer.logListMax := by
  unfold Viewer.logListMax
  rw [h.selectedSource, h.logEntries]

theorem Sound.moves (hsound : viewer.Sound stamp) (h : Moves viewer viewer') :
    viewer'.Sound stamp where
  hostState := by
    obtain ⟨i, hi, hlt⟩ := hsound.hostState
    have hpos := viewer.totalHostListLen_pos
    rw [h.totalHostListLen]
    obtain ⟨j, hj, hle⟩ := h.hostState i hi
    exact ⟨j, hj, by omega⟩
  logState i hi := by
    rw [h.logListMax]
    rcases h.logState i hi with ⟨j, hj, hle⟩ | hle
    · exact hle.trans (hsound.logState j hj)
    · exact hle
  caches := by
    rw [h.logEntries]
    exact hsound.caches

/-- The caches after a list was replaced. -/
theorem caches_update (hcaches : ∀ name entries, viewer.logEntries name = some entries →
      Cached stamp entries) {name : String} {entries : List DisplayLogEntry}
    (hentries : Cached stamp entries) :
    ∀ other list, Function.update viewer.logEntries name (some entries) other = some list →
      Cached stamp list := by
  intro other list hlist
  by_cases hname : other = name
  · subst hname
    rw [Function.update_self] at hlist
    obtain rfl := Option.some.inj hlist
    exact hentries
  · rw [Function.update_of_ne hname] at hlist
    exact hcaches other list hlist

theorem Sound.switchTo (hsound : viewer.Sound stamp) {data : LogDataSource}
    (hdata : data.Honours stamp) (source : Source) : (viewer.switchTo data source).Sound stamp := by
  rcases viewer.switchTo_cases data source with ⟨e, -, heq⟩ | ⟨entries, hrecent, heq⟩
  · rw [heq]
    refine ⟨hsound.hostState, fun i hi => ?_, hsound.caches⟩
    obtain rfl : 0 = i := Option.some.inj hi
    exact Nat.zero_le _
  · rw [heq]
    refine ⟨hsound.hostState, fun i hi => ?_,
      caches_update hsound.caches (hdata.recent _ _ _ hrecent).cached⟩
    obtain rfl : 0 = i := Option.some.inj hi
    exact Nat.zero_le _

theorem Sound.poll (hsound : viewer.Sound stamp) {moment : Moment}
    (hdata : moment.data.Honours stamp) {source : Source}
    (hselected : viewer.selectedSource = some source) : (viewer.poll moment source).Sound stamp := by
  rcases viewer.poll_cases moment source with
    ⟨heq, -⟩ | ⟨newest, rest, entries, hcached, hnewer, heq⟩
  · rw [heq]
    exact hsound.moves (Moves.of_eq rfl rfl rfl rfl rfl)
  · obtain ⟨hreply, habove⟩ := hdata.newer _ _ _ _ _ hnewer
    have hold := hsound.caches _ _ hcached
    rw [heq]
    refine ⟨hsound.hostState, fun i hi => ?_,
      caches_update hsound.caches (hold.splice hreply habove)⟩
    -- the list of the selected source does not become shorter
    have hle := hsound.logState i hi
    have hlength := hold.length_le
    rw [logListMax_eq, Viewer.entries, hselected] at hle ⊢
    dsimp only [LogViewer.cached] at hle ⊢
    rw [hcached, Option.getD_some] at hle
    rw [Function.update_self, Option.getD_some, List.length_take, List.length_append]
    omega

/-- Drawing moves the selections within what is drawn. -/
theorem moves_draw (u : Unicode) (viewer : Viewer) : Moves viewer (viewer.draw u) where
  logEntries := rfl
  virtualHosts := rfl
  systemLogs := rfl
  selectedSource := rfl
  hostState i hi := by
    have hitems : viewer.hostItems.length ≠ 0 := by
      unfold hostItems
      simp
    obtain ⟨j, hj, hle, -⟩ := renderedSelection_some hitems i
    exact ⟨j, by rw [← hj, ← hi]; rfl, Or.inl hle⟩
  logState i hi := by
    have hdrawn : renderedSelection (viewer.displayed u).length viewer.logState = some i := hi
    cases hstate : viewer.logState with
    | none =>
      rw [hstate, renderedSelection_none] at hdrawn
      cases hdrawn
    | some k =>
      have hitems : (viewer.displayed u).length ≠ 0 := by
        intro hzero
        rw [hzero, renderedSelection_zero] at hdrawn
        cases hdrawn
      obtain ⟨j, hj, hle, -⟩ := renderedSelection_some hitems k
      rw [hstate, hj] at hdrawn
      obtain rfl := Option.some.inj hdrawn
      exact Or.inl ⟨k, rfl, hle⟩

theorem selectedSource_of_pollTarget {now : ℕ} {source : Source}
    (h : viewer.pollTarget now = some source) : viewer.selectedSource = some source := by
  unfold pollTarget at h
  dsimp only at h
  split at h <;> split at h
  · exact h
  · cases h
  · exact h
  · cases h

/-- Whatever happens keeps the invariants, as long as the data source answers as it has to. -/
theorem Sound.step {u : Unicode} {label : Label} (hsound : viewer.Sound stamp)
    (hdata : ∀ action moment, label = .action action moment → moment.data.Honours stamp)
    (hstep : (session u).step viewer label = some viewer') : viewer'.Sound stamp := by
  cases label with
  | draw =>
    obtain rfl := Option.some.inj hstep
    exact hsound.moves (moves_draw u viewer)
  | action action moment =>
    obtain rfl := Option.some.inj hstep
    have hhonours := hdata action moment rfl
    rcases viewer.handleAction_cases action moment with
      hmoves | ⟨source, -, -, -, heq⟩ | ⟨source, -, -, htarget, heq⟩
    · exact hsound.moves hmoves
    · rw [heq]
      exact hsound.switchTo hhonours source
    · rw [heq]
      exact hsound.poll hhonours (selectedSource_of_pollTarget htarget)

/-! ## Sessions -/

/-- A viewer that was just made, whatever the sources panel lists: nothing is cached and the first
row is selected. -/
theorem sound_new (pollInterval : ℕ) (virtualHosts systemLogs : List SourceInfo) :
    Sound stamp { new.withPollInterval pollInterval with
      virtualHosts := virtualHosts, systemLogs := systemLogs } where
  hostState := ⟨0, rfl, totalHostListLen_pos _⟩
  logState i hi := (Option.some.inj hi).symm.le
  caches _ _ h := by cases h

/-- The first load. -/
theorem sound_init (pollInterval : ℕ) (sources : Except SentinelError (List SourceInfo))
    {data : LogDataSource} (hdata : data.Honours stamp) :
    ((new.withPollInterval pollInterval).init sources data).2.Sound stamp := by
  obtain ⟨virtualHosts, systemLogs, -, heq | ⟨first, -, heq⟩⟩ :=
    init_cases pollInterval sources data
  · rw [heq]
    exact sound_new pollInterval virtualHosts systemLogs
  · rw [heq]
    exact (sound_new pollInterval virtualHosts systemLogs).switchTo hdata first.source

theorem Sound.run {u : Unicode} {labels : List Label} (hsound : viewer.Sound stamp)
    (hdata : ∀ action moment, .action action moment ∈ labels → moment.data.Honours stamp)
    (hrun : (session u).Run viewer labels viewer') : viewer'.Sound stamp := by
  induction hrun with
  | nil => exact hsound
  | snoc hbefore hstep ih =>
    refine (ih fun action moment hmem => hdata action moment (List.mem_append_left _ hmem)).step
      (fun action moment heq => ?_) hstep
    exact hdata action moment (List.mem_append_right _ (List.mem_singleton.mpr heq.symm))

/-- **After every action** the selections are within their panels, and every cached list is in
order, without a repeated id and within the cap. -/
theorem invariants_of_session {u : Unicode} {pollInterval : ℕ}
    {sources : Except SentinelError (List SourceInfo)} {data : LogDataSource}
    {labels : List Label} (hinit : data.Honours stamp)
    (hdata : ∀ action moment, .action action moment ∈ labels → moment.data.Honours stamp)
    (hrun : (session u).Run ((new.withPollInterval pollInterval).init sources data).2 labels
      viewer) :
    (∃ i, viewer.hostState = some i ∧ i < viewer.totalHostListLen) ∧
    (∀ i, viewer.logState = some i → i ≤ viewer.logListMax) ∧
    ∀ name entries, viewer.logEntries name = some entries →
      Window.Descending DisplayLogEntry.cursor entries ∧
      (entries.map DisplayLogEntry.id).Nodup ∧ entries.length ≤ maxEntriesPerHost := by
  have hsound := (sound_init pollInterval sources hinit).run hdata hrun
  refine ⟨hsound.hostState, hsound.logState, fun name entries hentries => ?_⟩
  have hcached := hsound.caches name entries hentries
  exact ⟨hcached.descending, hcached.nodup_ids, hcached.length_le⟩

/-! ## A shop -/

/-- Entries of one moment, told apart by their ids. -/
def shopEntry (id : Uuid) : DisplayLogEntry where
  id := id
  timestamp := .epoch
  level := .Info
  threatLevel := .None
  message := "GET /"
  raw := ""
  sourceName := "shop.example.com"
  threatCategories := []

/-- They are all there is, whatever the source. -/
def shopData (ids : List Uuid) : LogDataSource :=
  memoryLogDataSource fun _ => some (ids.map shopEntry)

theorem shopData_honours {ids : List Uuid} (h : ids.Pairwise (· > ·)) :
    (shopData ids).Honours fun _ => .epoch := by
  have hdescending : Window.Descending DisplayLogEntry.cursor (ids.map shopEntry) := by
    refine List.pairwise_map.mpr (h.imp fun hlt => ?_)
    exact Prod.Lex.toLex_lt_toLex.mpr (Or.inr ⟨rfl, hlt⟩)
  have hserves : ∀ source, (shopData ids).Serves source (ids.map shopEntry) :=
    fun source => memoryLogDataSource_serves hdescending
  refine .of_serves hserves (fun _ => ?_) fun _ entry hentry => ?_
  · exact List.pairwise_map.mpr (hdescending.imp fun hlt => (ne_of_lt hlt).symm)
  · obtain ⟨id, -, rfl⟩ := List.mem_map.mp hentry
    rfl

/-- Two entries are loaded, the second is selected, and a poll brings a third. -/
theorem invariants_of_session_shop : ∃ viewer,
    (session .ascii).Run
      ((new.withPollInterval 0).init (.ok [⟨.vhost "shop.example.com", 2⟩]) (shopData [2, 1])).2
      [.draw, .action .ToggleFocus ⟨shopData [2, 1], 0, 0⟩,
        .action .SelectDown ⟨shopData [2, 1], 0, 0⟩, .action .Tick ⟨shopData [3, 2, 1], 0, 0⟩]
      viewer ∧
    ∀ i, viewer.logState = some i → i ≤ viewer.logListMax := by
  obtain ⟨viewer, hrun⟩ := exists_session .ascii
    ((new.withPollInterval 0).init (.ok [⟨.vhost "shop.example.com", 2⟩]) (shopData [2, 1])).2
    [.draw, .action .ToggleFocus ⟨shopData [2, 1], 0, 0⟩,
      .action .SelectDown ⟨shopData [2, 1], 0, 0⟩, .action .Tick ⟨shopData [3, 2, 1], 0, 0⟩]
  have hdata : ∀ ids ∈ [[2, 1], [3, 2, 1]], (shopData ids).Honours fun _ => .epoch :=
    fun ids hids => shopData_honours ((by decide : ∀ ids ∈ [[2, 1], [3, 2, 1]],
      ids.Pairwise (· > ·)) ids hids)
  refine ⟨viewer, hrun, (invariants_of_session (hdata [2, 1] (by decide))
    (fun action moment hmem => ?_) hrun).2.1⟩
  simp only [List.mem_cons, List.not_mem_nil, reduceCtorEq, Label.action.injEq, false_or,
    or_false] at hmem
  rcases hmem with ⟨-, rfl⟩ | ⟨-, rfl⟩ | ⟨-, rfl⟩
  · exact hdata [2, 1] (by decide)
  · exact hdata [2, 1] (by decide)
  · exact hdata [3, 2, 1] (by decide)

end Viewer

end Sentinalysis.Tui
