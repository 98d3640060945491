/-
# Sentinalysis.LogScanner.Forgetting — which files the tailer keeps after they are gone.

The branch that forgets a file stands behind the test that there is a file at the path.  A removed
file fails the test, and so does the old name of a renamed one; what is forgotten is a file that has
come back, or a rotated file under its new name.
-/
import Sentinalysis.LogScanner.Effects

namespace Sentinalysis.LogScanner.Forgetting

open Lib TailerState

/-! ## Events after the initial read -/

/-- The tailer and its channel, and which paths were files at their last handled event. -/
structure State where
  st : TailerState
  tx : Sender
  present : Path → Bool

/-- A renaming to the name of a rotated log, and the paths that its event names. -/
structure Rotation where
  old : Path
  new : Path
  paths : List Path
  named : ∀ path ∈ paths, path = old ∨ path = new
  rotated : ∃ name, new.fileName = some name ∧ isRotatedLog name = true

/-- An event is handled, with the files as they are then. -/
inductive Label
  | other (fs : FileSystem) (event : Event)
  /-- The event of a renaming to a rotated name. -/
  | renamed (fs : FileSystem) (rotation : Rotation)

def Label.fs : Label → FileSystem
  | .other fs _ | .renamed fs _ => fs

/-- The event that is handled. -/
def Label.event : Label → Event
  | .other _ event => event
  | .renamed _ rotation => ⟨.modifyName, rotation.paths⟩

/-- The paths that an event is about: those that it names, and the old one of a renaming. -/
def Label.about : Label → List Path
  | .other _ event => event.paths
  | .renamed _ rotation => rotation.old :: rotation.paths

section Machine

variable (files : List Path) (watchConfigs : List LogWatchConfig)

/-- The event arm of the tailing loop. -/
def handling : Machine State Label where
  step s a :=
    let (st, tx) := onEvent a.fs s.st a.event watchConfigs
      (watchConfigs.map LogWatchConfig.directory) s.tx
    some ⟨st, tx, fun path => if path ∈ a.about then a.fs.isFile path else s.present path⟩

/-- After the initial read. -/
def start (fs : FileSystem) (tx : Sender) : State :=
  let (st, tx) := initialRead fs files watchConfigs tx
  ⟨st, tx, fs.isFile⟩

/-- The maps hold configured files, and files that were there at their last handled event. -/
def OnlyPresent (s : State) : Prop :=
  ∀ path, s.st.Tracked path → path ∈ files ∨ s.present path = true

/-- The tracked path is to be forgotten: its file is removed, or renamed to a rotated name. -/
def Gone : Label → Path → Prop
  | .other fs event, path =>
    event.kind = .remove ∧ path ∈ event.paths ∧ fs.isFile path = false
  | .renamed _ rotation, path => path = rotation.old

/-- What is to be forgotten is in neither map after the event. -/
def ForgetsGone (s : State) (a : Label) : Prop :=
  ∀ t, (handling watchConfigs).step s a = some t →
    ∀ path, Gone a path → s.st.Tracked path → ¬ t.st.Tracked path

/-- An event is about tracked files that are there, or configured ones.  None of a removal names a
tracked path without a file, and none of a rotation is of a tracked path, unless it names it, there
is a file at it again and its own name is a rotated one. -/
def NoneGone (s : State) (a : Label) : Prop :=
  (∀ path, Gone a path → s.st.Tracked path →
    path ∈ a.event.paths ∧ a.fs.isFile path = true ∧ Forgets a.event.kind path) ∧
  ∀ path ∈ a.about, s.st.Tracked path → a.fs.isFile path = true ∨ path ∈ files

end Machine

/-! ## The initial read -/

section Start

variable {fs : FileSystem} {st : TailerState} {path : Path} {tx : Sender}

/-- A read tracks nothing but the file that it reads. -/
theorem tracked_readExistingLines {file : Path}
    (h : (readExistingLines fs st file tx).2.1.Tracked path) :
    st.Tracked path ∨ (path = file ∧ fs.isFile path = true) := by
  unfold readExistingLines at h
  cases hread : fs.readToString file with
  | error e =>
    simp only [hread] at h
    exact Or.inl h
  | ok content =>
    simp only [hread] at h
    by_cases hne : path = file
    · subst hne
      refine Or.inr ⟨rfl, ?_⟩
      unfold FileSystem.readToString FileSystem.readToStringFrom at hread
      cases hfile : fs.file path with
      | none =>
        rw [hfile] at hread
        cases hread
      | some file => exact FileSystem.isFile_of_file hfile
    · left
      rw [Tracked, setPosition] at h
      simp only [Function.update_of_ne hne] at h
      exact h

theorem tracked_track {file : Path} (h : (st.track file).Tracked path) :
    st.Tracked path ∨ path = file := by
  by_cases hne : path = file
  · exact Or.inr hne
  · left
    rw [Tracked, track] at h
    simp only [Function.update_of_ne hne] at h
    exact h

/-- A directory entry is tracked if it is a file. -/
theorem tracked_discoverEntry {cfg : LogWatchConfig} {entry : Path}
    (h : (discoverEntry fs cfg (st, tx) entry).1.Tracked path) :
    st.Tracked path ∨ fs.isFile path = true := by
  unfold discoverEntry at h
  cases hfile : fs.isFile entry with
  | false =>
    simp only [hfile, Bool.not_false, if_true] at h
    exact Or.inl h
  | true =>
    cases hname : entry.fileName with
    | none =>
      simp only [hfile, hname] at h
      exact Or.inl h
    | some name =>
      simp only [hfile, hname, Bool.not_true, Bool.false_eq_true, if_false] at h
      split at h
      · exact Or.inl h
      split at h
      · exact Or.inl h
      · rcases tracked_readExistingLines h with htrack | ⟨-, hisFile⟩
        · rcases tracked_track htrack with hbefore | rfl
          · exact Or.inl hbefore
          · exact Or.inr hfile
        · exact Or.inr hisFile

/-- After the initial read, what is tracked is configured or there. -/
theorem onlyPresent_start (fs : FileSystem) (files : List Path)
    (watchConfigs : List LogWatchConfig) (tx : Sender) :
    OnlyPresent files (start files watchConfigs fs tx) := by
  intro path htracked
  -- the explicit files, and then one directory after the other
  have hread : (files.foldl (fun s file => report (readExistingLines fs s.1 file s.2))
      (new files, tx)).1.Tracked path → path ∈ files ∨ fs.isFile path = true := by
    refine List.foldlRecOn (motive := fun (s : TailerState × Sender) => s.1.Tracked path →
      path ∈ files ∨ fs.isFile path = true) files _ ?_ ?_
    · rintro (htailed | hposition)
      · exact Or.inl (of_decide_eq_true htailed)
      · cases hposition
    · intro s hs file _
      rw [report_fst]
      intro h
      rcases tracked_readExistingLines h with hbefore | ⟨-, hfile⟩
      · exact hs hbefore
      · exact Or.inr hfile
  refine List.foldlRecOn (motive := fun (s : TailerState × Sender) => s.1.Tracked path →
    path ∈ files ∨ fs.isFile path = true) watchConfigs _ hread ?_ htracked
  intro s hs cfg _
  rw [report_fst]
  unfold discoverExistingLogs
  cases fs.readDir cfg.directory with
  | error e => exact hs
  | ok entries =>
    refine List.foldlRecOn (motive := fun (s : TailerState × Sender) => s.1.Tracked path →
      path ∈ files ∨ fs.isFile path = true) entries (discoverEntry fs cfg) hs ?_
    intro s hs entry _ h
    rcases tracked_discoverEntry h with hbefore | hfile
    · exact hs hbefore
    · exact Or.inr hfile

end Start

/-! ## Runs -/

section Runs

variable {files : List Path} {watchConfigs : List LogWatchConfig} {s t : State} {a : Label}

/-- The state of the tailer after an event. -/
theorem st_of_step (h : (handling watchConfigs).step s a = some t) :
    t.st = (onEvent a.fs s.st a.event watchConfigs
        (watchConfigs.map LogWatchConfig.directory) s.tx).1 ∧
      ∀ path, t.present path = if path ∈ a.about then a.fs.isFile path else s.present path := by
  obtain rfl := Option.some.inj h
  exact ⟨rfl, fun _ => rfl⟩

theorem mem_about_of_mem_paths {path : Path} (h : path ∈ a.event.paths) : path ∈ a.about := by
  cases a with
  | other fs event => exact h
  | renamed fs rotation => exact List.mem_cons_of_mem _ h

/-- Only a file that is there is forgotten. -/
theorem forgetsGone_iff : ForgetsGone watchConfigs s a ↔
    ∀ path, Gone a path → s.st.Tracked path →
      path ∈ a.event.paths ∧ a.fs.isFile path = true ∧ Forgets a.event.kind path := by
  constructor
  · intro hforgets path hgone htracked
    exact forgets_of_not_tracked htracked (hforgets _ rfl path hgone htracked)
  · intro hnone t hstep path hgone htracked
    obtain ⟨hpath, hfile, hforgets⟩ := hnone path hgone htracked
    rw [(st_of_step hstep).1]
    exact not_tracked_onEvent hpath hfile hforgets

/-- An event about tracked files that are there, or configured, keeps the maps to such. -/
theorem OnlyPresent.step (h : OnlyPresent files s)
    (hthere : ∀ path ∈ a.about, s.st.Tracked path → a.fs.isFile path = true ∨ path ∈ files)
    (hstep : (handling watchConfigs).step s a = some t) : OnlyPresent files t := by
  obtain ⟨hst, hpresent⟩ := st_of_step hstep
  intro path htracked
  rw [hst] at htracked
  have hbefore := tracked_or_isFile htracked
  rw [hpresent]
  by_cases habout : path ∈ a.about
  · rw [if_pos habout]
    rcases hbefore with htracked | ⟨-, hfile⟩
    · exact (hthere path habout htracked).symm
    · exact Or.inr hfile
  · rw [if_neg habout]
    rcases hbefore with htracked | ⟨hpath, -⟩
    · exact h path htracked
    · exact absurd (mem_about_of_mem_paths hpath) habout

/-- A tracked path without a file stays tracked when an event is about it. -/
theorem OnlyPresent.of_step (hstep : (handling watchConfigs).step s a = some t)
    (h : OnlyPresent files t) :
    ∀ path ∈ a.about, s.st.Tracked path → a.fs.isFile path = true ∨ path ∈ files := by
  obtain ⟨hst, hpresent⟩ := st_of_step hstep
  intro path habout htracked
  by_cases hfile : a.fs.isFile path = true
  · exact Or.inl hfile
  · have hstill : t.st.Tracked path := by
      by_contra hnot
      rw [hst] at hnot
      exact hfile (forgets_of_not_tracked htracked hnot).2.1
    rcases h path hstill with hconfigured | hthere
    · exact Or.inr hconfigured
    · rw [hpresent, if_pos habout] at hthere
      exact absurd hthere hfile

/-- **Removed files are forgotten exactly when none is removed**: when no event of a removal is about
a tracked path without a file, and none of a rotation about one that has not come back under a
rotated name. -/
theorem forgetsGone_and_onlyPresent_iff {fs : FileSystem} {tx : Sender} {labels : List Label}
    (hrun : (handling watchConfigs).Run (start files watchConfigs fs tx) labels s) :
    ((handling watchConfigs).Along (ForgetsGone watchConfigs) (start files watchConfigs fs tx)
        labels ∧
      (handling watchConfigs).Always (OnlyPresent files) (start files watchConfigs fs tx) labels) ↔
    (handling watchConfigs).Along (NoneGone files) (start files watchConfigs fs tx) labels := by
  have hpresent : (handling watchConfigs).Always (OnlyPresent files)
      (start files watchConfigs fs tx) labels ↔
      (handling watchConfigs).Along (fun s a => ∀ path ∈ a.about, s.st.Tracked path →
        a.fs.isFile path = true ∨ path ∈ files) (start files watchConfigs fs tx) labels := by
    refine hrun.always_iff_along_of_keep (J := OnlyPresent files)
      (onlyPresent_start fs files watchConfigs tx) ?_ (fun _ => id) ?_
    · intro _ s a t _ h hthere hstep
      exact h.step hthere hstep
    · intro _ s a t _ hstep h
      exact OnlyPresent.of_step hstep h
  rw [hpresent, Machine.along_congr fun s a => forgetsGone_iff, ← Machine.along_and]
  exact Iff.rfl

end Runs

/-! ## A log that is rotated -/

/-- The directory of the log, watched for every name. -/
def varLog : List LogWatchConfig := [⟨[.text "var", .text "log"], fun _ => true⟩]

/-- The files of the directory: one that is empty for each name. -/
def holding (names : List String) : FileSystem where
  file := fun path =>
    if path ∈ names.map (Path.join [.text "var", .text "log"]) then some ⟨[], true⟩ else none
  dir := fun path =>
    if path = [.text "var", .text "log"] then
      some (names.map (Path.join [.text "var", .text "log"]))
    else none

/-- A log that was rotated so many times. -/
def appLog (rotations : String) : Path :=
  Path.join [.text "var", .text "log"] ("app.log" ++ rotations)

/-- A rotation to a name with a number; the event names both paths. -/
def rotateTo (old : String) (new : String) (h : isRotatedLog ("app.log" ++ new) = true) :
    Rotation where
  old := appLog old
  new := appLog new
  paths := [appLog old, appLog new]
  named _ := List.mem_pair.mp
  rotated := ⟨_, Path.fileName_join _ _, h⟩

/-- `app.log.1` is configured, becomes `app.log.2`, and is there again: it is forgotten. -/
theorem forgetsGone_backAgain : ∃ s, (handling varLog).Run
      (start [appLog ".1"] varLog (holding ["app.log.1"]) {})
      [.renamed (holding ["app.log.1", "app.log.2"]) (rotateTo ".1" ".2" (by decide))] s ∧
    ¬ s.st.Tracked (appLog ".1") ∧
    ((handling varLog).Along (ForgetsGone varLog)
        (start [appLog ".1"] varLog (holding ["app.log.1"]) {})
        [.renamed (holding ["app.log.1", "app.log.2"]) (rotateTo ".1" ".2" (by decide))] ∧
      (handling varLog).Always (OnlyPresent [appLog ".1"])
        (start [appLog ".1"] varLog (holding ["app.log.1"]) {})
        [.renamed (holding ["app.log.1", "app.log.2"]) (rotateTo ".1" ".2" (by decide))]) := by
  obtain ⟨s, hstep⟩ : ∃ s, (handling varLog).step
      (start [appLog ".1"] varLog (holding ["app.log.1"]) {})
      (.renamed (holding ["app.log.1", "app.log.2"]) (rotateTo ".1" ".2" (by decide))) = some s :=
    ⟨_, rfl⟩
  have hrun := Machine.Run.nil.snoc hstep
  refine ⟨s, hrun, ?_, (forgetsGone_and_onlyPresent_iff hrun).mpr ?_⟩
  · obtain rfl := Option.some.inj hstep
    decide +kernel
  · refine ⟨⟨?_, ?_⟩, ?_⟩
    · rintro path rfl _
      exact ⟨List.mem_cons_self .., by decide +kernel, by decide +kernel⟩
    · intro path hpath _
      left
      have hmem : path = appLog ".1" ∨ path = appLog ".1" ∨ path = appLog ".2" := by
        simpa [Label.about, rotateTo] using hpath
      rcases hmem with rfl | rfl | rfl
      · decide +kernel
      · decide +kernel
      · decide +kernel
    · rw [hstep]
      exact trivial

/-- **A renamed log is not forgotten**: it was tracked, and is tracked when it is gone. -/
theorem renamed_stillTracked : ∃ s, (handling varLog).Run
      (start [] varLog (holding ["app.log"]) {})
      [.renamed (holding ["app.log.1"]) (rotateTo "" ".1" (by decide))] s ∧
    s.st.Tracked (appLog "") ∧ ¬ OnlyPresent [] s ∧
    ¬ ForgetsGone varLog (start [] varLog (holding ["app.log"]) {})
      (.renamed (holding ["app.log.1"]) (rotateTo "" ".1" (by decide))) := by
  have hbefore : (start [] varLog (holding ["app.log"]) {}).st.Tracked (appLog "") := by
    decide +kernel
  obtain ⟨s, hstep⟩ : ∃ s, (handling varLog).step (start [] varLog (holding ["app.log"]) {})
      (.renamed (holding ["app.log.1"]) (rotateTo "" ".1" (by decide))) = some s := ⟨_, rfl⟩
  have hafter : s.st.Tracked (appLog "") := by
    obtain rfl := Option.some.inj hstep
    decide +kernel
  refine ⟨s, Machine.Run.nil.snoc hstep, hafter, ?_, ?_⟩
  · intro hpresent
    rcases hpresent _ hafter with hconfigured | hthere
    · cases hconfigured
    · obtain rfl := Option.some.inj hstep
      exact absurd hthere (by decide +kernel)
  · intro hforgets
    exact hforgets s hstep _ rfl hbefore hafter

end Sentinalysis.LogScanner.Forgetting
