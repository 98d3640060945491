/-
# Sentinalysis.Tui.LogViewer — the viewer's list of entries, and whether a poll completes it.

A poll asks for what is newer than the first entry on screen.  It completes the list unless more
came than one poll fetches, or something came that is older than the first entry, or there was no
first entry to ask with.
-/
import Sentinalysis.Lib.Transition
import Sentinalysis.Tui.Data

namespace Sentinalysis.Tui

open Lib Db LogScanner

/-- `MAX_ENTRIES_PER_HOST`. -/
def maxEntriesPerHost : ℕ := 1000

/-- `NEW_ENTRIES_PER_POLL`. -/
def newEntriesPerPoll : ℕ := 100

/-- `LogViewer`: the cached entries by the name of their source, and the selected row. -/
structure LogViewer where
  logEntries : String → Option (List DisplayLogEntry) := fun _ => none
  logState : Option ℕ := some 0

namespace LogViewer

/-- What is cached for a source. -/
def cached (viewer : LogViewer) (source : Source) : List DisplayLogEntry :=
  (viewer.logEntries source.name).getD []

/-- `load_recent_entries`: replaces whatever was cached. -/
def loadRecentEntries (viewer : LogViewer) (data : LogDataSource) (source : Source) :
    Except SentinelError LogViewer :=
  match data.recent source maxEntriesPerHost with
  | .error e => .error e
  | .ok entries => .ok
      { logEntries := Function.update viewer.logEntries source.name (some entries)
        logState := some 0 }

/-- `check_new_entries`: without a first entry there is nothing to ask. -/
def checkNewEntries (viewer : LogViewer) (data : LogDataSource) (source : Source) :
    Except SentinelError LogViewer :=
  match viewer.logEntries source.name with
  | none => .ok viewer
  | some [] => .ok viewer
  | some (newest :: rest) =>
    match data.newer source newest.timestamp newest.id newEntriesPerPoll with
    | .error e => .error e
    | .ok [] => .ok viewer
    | .ok newEntries =>
      let hostEntries := newEntries ++ newest :: rest
      .ok
        { viewer with
          logEntries := Function.update viewer.logEntries source.name
            (some (if maxEntriesPerHost < hostEntries.length then hostEntries.take maxEntriesPerHost
              else hostEntries)) }

variable {viewer viewer' : LogViewer} {data : LogDataSource} {source : Source}
  {stored : List DisplayLogEntry}

/-- What loading comes to. -/
theorem cached_of_load (hserves : data.Serves source stored)
    (h : viewer.loadRecentEntries data source = .ok viewer') :
    viewer'.cached source = Window.newest DisplayLogEntry.cursor maxEntriesPerHost stored := by
  rw [loadRecentEntries, hserves.recent] at h
  obtain rfl := Except.ok.inj h
  simp [cached]

/-- What polling comes to: the cache catches up. -/
theorem cached_of_check (hserves : data.Serves source stored)
    (hlength : (viewer.cached source).length ≤ maxEntriesPerHost)
    (h : viewer.checkNewEntries data source = .ok viewer') :
    viewer'.cached source = Window.catchUp DisplayLogEntry.cursor maxEntriesPerHost
      newEntriesPerPoll stored (viewer.cached source) := by
  unfold checkNewEntries at h
  unfold cached at *
  cases hentries : viewer.logEntries source.name with
  | none =>
    simp only [hentries] at h
    obtain rfl := Except.ok.inj h
    simp [hentries, Window.catchUp]
  | some entries =>
    cases entries with
    | nil =>
      simp only [hentries] at h
      obtain rfl := Except.ok.inj h
      simp [hentries, Window.catchUp]
    | cons newest rest =>
      simp only [hentries, hserves.newer, Option.getD_some] at h hlength ⊢
      rw [Window.catchUp]
      show _ = (Window.newest _ _ (Window.above _ (rowValue newest.timestamp newest.id) stored)
        ++ _).take _
      cases hnew : Window.newest DisplayLogEntry.cursor newEntriesPerPoll
          (Window.above DisplayLogEntry.cursor (rowValue newest.timestamp newest.id) stored) with
      | nil =>
        simp only [hnew] at h
        obtain rfl := Except.ok.inj h
        rw [hentries, Option.getD_some, List.nil_append, List.take_of_length_le hlength]
      | cons e es =>
        simp only [hnew] at h
        obtain rfl := Except.ok.inj h
        simp only [Function.update_self, Option.getD_some]
        split
        · rfl
        · rw [List.take_of_length_le (by omega)]

/-- A poll without a first entry succeeds without a question. -/
theorem check_of_cached_nil (h : viewer.cached source = []) :
    viewer.checkNewEntries data source = .ok viewer := by
  unfold cached at h
  unfold checkNewEntries
  cases hentries : viewer.logEntries source.name with
  | none => rfl
  | some entries =>
    rw [hentries, Option.getD_some] at h
    rw [h]

/-- A poll of a data source that serves succeeds. -/
theorem check_isOk (hserves : data.Serves source stored) :
    ∃ viewer', viewer.checkNewEntries data source = .ok viewer' := by
  unfold checkNewEntries
  split
  · exact ⟨_, rfl⟩
  · exact ⟨_, rfl⟩
  · rw [hserves.newer]
    split
    · contradiction
    · exact ⟨_, rfl⟩
    · exact ⟨_, rfl⟩

/-- A poll whose query fails succeeds only without a question. -/
theorem cached_nil_of_check_failed {store : LogStore} {e : SentinelError}
    (h : viewer.checkNewEntries (pgLogDataSource store (some e)) source = .ok viewer') :
    viewer.cached source = [] := by
  unfold checkNewEntries at h
  unfold cached
  split at h
  · rename_i hentries
    rw [hentries]
    rfl
  · rename_i hentries
    rw [hentries]
    rfl
  · cases h

end LogViewer

end Sentinalysis.Tui
