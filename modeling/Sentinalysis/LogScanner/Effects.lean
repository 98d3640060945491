/-
# Sentinalysis.LogScanner.Effects — what one event can do to the state of the tailer.

Each path of an event is looked at on its own, and only while there is a file at it: it is read on,
adopted, or forgotten.  What a whole event does follows path by path.
-/
import Sentinalysis.LogScanner.Tailer

namespace Sentinalysis.LogScanner

open Lib

namespace TailerState

/-- The path is in one of the two maps. -/
def Tracked (st : TailerState) (path : Path) : Prop :=
  st.tailedFiles path = true ∨ (st.positions path).isSome = true

instance (st : TailerState) (path : Path) : Decidable (st.Tracked path) :=
  inferInstanceAs (Decidable (_ ∨ _))

/-- An event of the kind forgets a file of that name. -/
def Forgets (kind : EventKind) (path : Path) : Prop :=
  ∃ name, path.fileName = some name ∧
    (kind = .remove ∨ (kind = .modifyName ∧ isRotatedLog name = true))

instance (kind : EventKind) (path : Path) : Decidable (Forgets kind path) :=
  decidable_of_iff ((path.fileName.any fun name => kind = .remove ∨
    (kind = .modifyName ∧ isRotatedLog name = true)) = true) (by
      simp [Forgets, Option.any_eq_true])

section Effects

variable {fs : FileSystem} {st st' : TailerState} {kind : EventKind} {path : Path}
  {watchConfigs : List LogWatchConfig} {watchedDirs : List Path} {tx : Sender}

/-- What a path of an event can do: nothing, or something to the file at that path. -/
inductive PathEffect (fs : FileSystem) (st : TailerState) (kind : EventKind) (path : Path) :
    TailerState → Prop
  | unchanged : PathEffect fs st kind path st
  | read (hfile : fs.isFile path = true) (hkind : kind = .modifyData)
      (htailed : st.tailedFiles path = true) (hposition : (st.positions path).isSome = true)
      (offset : ℕ) : PathEffect fs st kind path (st.setPosition path offset)
  | adopted (hfile : fs.isFile path = true) (hkind : kind = .create) (offset : ℕ) :
      PathEffect fs st kind path ((st.track path).setPosition path offset)
  | forgotten (hfile : fs.isFile path = true) (hforgets : Forgets kind path) :
      PathEffect fs st kind path (st.forget path)

theorem setPosition_setPosition (st : TailerState) (path : Path) (a b : ℕ) :
    (st.setPosition path a).setPosition path b = st.setPosition path b := by
  simp [setPosition, Function.update_idem]

theorem handleData_effect (hfile : fs.isFile path = true) (hkind : kind = .modifyData)
    (htailed : st.tailedFiles path = true) :
    PathEffect fs st kind path (handleData fs st path tx).2.1 := by
  unfold handleData
  cases hposition : st.positions path with
  | none => exact PathEffect.unchanged
  | some pos =>
    cases hread : fs.readToStringFrom path pos with
    | error e =>
      simp only [hread]
      exact PathEffect.unchanged
    | ok content =>
      rcases hemit : emitLines path (Text.lines content) pos tx with ⟨tx', offset, _ | _⟩
      · simp only [hread, hemit]
        exact PathEffect.unchanged
      · simp only [hread, hemit]
        exact PathEffect.read hfile hkind htailed (by rw [hposition]; rfl) offset

theorem handleCreate_effect (hfile : fs.isFile path = true) (hkind : kind = .create)
    (name : String) :
    PathEffect fs st kind path
      (handleCreate fs st path name watchConfigs watchedDirs tx).1 := by
  unfold handleCreate
  cases findMatchingConfig path watchConfigs watchedDirs with
  | none => exact PathEffect.unchanged
  | some cfg =>
    simp only
    split
    · -- the file is adopted, whether it can be read or not
      unfold readExistingLines
      cases fs.readToString path with
      | error e => exact PathEffect.adopted hfile hkind 0
      | ok content =>
        simp only [setPosition_setPosition]
        exact PathEffect.adopted hfile hkind _
    · exact PathEffect.unchanged

theorem handlePath_effect (fs : FileSystem) (st : TailerState) (kind : EventKind) (path : Path)
    (watchConfigs : List LogWatchConfig) (watchedDirs : List Path) (tx : Sender) :
    PathEffect fs st kind path
      (handlePath fs st kind path watchConfigs watchedDirs tx).2.1 := by
  unfold handlePath
  cases hfile : fs.isFile path with
  | false => exact PathEffect.unchanged
  | true =>
    cases hname : path.fileName with
    | none => exact PathEffect.unchanged
    | some name =>
      simp only [Bool.not_true, Bool.false_eq_true, if_false]
      split
      · next hdata => exact handleData_effect hfile hdata.1 hdata.2
      split
      · next hcreate => exact handleCreate_effect hfile hcreate.1 name
      split
      · next hforget => exact PathEffect.forgotten hfile ⟨name, hname, hforget⟩
      · exact PathEffect.unchanged

/-- Reporting a failure does not touch the state. -/
theorem report_fst (result : Except SentinelError Unit × TailerState × Sender) :
    (report result).1 = result.2.1 := by
  obtain ⟨outcome, st, tx⟩ := result
  cases outcome with
  | ok _ => rfl
  | error e => rfl

/-- **Rule for one event.**  What every path of the event keeps, the event keeps. -/
theorem onEvent_induction {I : TailerState → Prop} {event : Event} (h : I st)
    (keep : ∀ path ∈ event.paths, ∀ st st', I st → PathEffect fs st event.kind path st' → I st')
    (watchConfigs : List LogWatchConfig) (watchedDirs : List Path) (tx : Sender) :
    I (onEvent fs st event watchConfigs watchedDirs tx).1 := by
  obtain ⟨kind, paths⟩ := event
  unfold onEvent handleEvent
  rw [report_fst]
  simp only at keep ⊢
  induction paths generalizing st tx with
  | nil => exact h
  | cons path paths ih =>
    have hpath := keep path (List.mem_cons_self ..) st _ h
      (handlePath_effect fs st kind path watchConfigs watchedDirs tx)
    have hrest : ∀ other ∈ paths, ∀ st st', I st → PathEffect fs st kind other st' → I st' :=
      fun other hother => keep other (List.mem_cons_of_mem _ hother)
    unfold handlePaths
    split
    · next e st' tx' hresult =>
      rw [hresult] at hpath
      exact hpath
    · next st' tx' hresult =>
      rw [hresult] at hpath
      exact hpath
    · next st' tx' hresult =>
      rw [hresult] at hpath
      exact ih hpath tx' hrest

/-! ## Which paths are tracked -/

theorem PathEffect.of_ne (h : PathEffect fs st kind path st') {other : Path}
    (hne : other ≠ path) :
    st'.tailedFiles other = st.tailedFiles other ∧ st'.positions other = st.positions other := by
  cases h with
  | unchanged => exact ⟨rfl, rfl⟩
  | read _ _ _ _ offset => exact ⟨rfl, Function.update_of_ne hne _ _⟩
  | adopted _ _ offset =>
    exact ⟨Function.update_of_ne hne _ _, Function.update_of_ne hne _ _⟩
  | forgotten _ _ => exact ⟨Function.update_of_ne hne _ _, Function.update_of_ne hne _ _⟩

theorem PathEffect.tracked_of_ne (h : PathEffect fs st kind path st') {other : Path}
    (hne : other ≠ path) : st'.Tracked other ↔ st.Tracked other := by
  obtain ⟨htailed, hposition⟩ := h.of_ne hne
  rw [Tracked, Tracked, htailed, hposition]

/-- A path that is tracked after an event was tracked before it, or there is a file at it. -/
theorem tracked_or_isFile {event : Event} {other : Path}
    (h : (onEvent fs st event watchConfigs watchedDirs tx).1.Tracked other) :
    st.Tracked other ∨ (other ∈ event.paths ∧ fs.isFile other = true) := by
  revert h
  refine onEvent_induction (I := fun st' => st'.Tracked other → st.Tracked other ∨
    (other ∈ event.paths ∧ fs.isFile other = true)) Or.inl ?_ watchConfigs watchedDirs tx
  intro path hpath st₁ st₂ ih heffect htracked
  by_cases hne : other = path
  · subst hne
    cases heffect with
    | unchanged => exact ih htracked
    | read hfile _ _ _ _ => exact Or.inr ⟨hpath, hfile⟩
    | adopted hfile _ _ => exact Or.inr ⟨hpath, hfile⟩
    | forgotten hfile _ => exact Or.inr ⟨hpath, hfile⟩
  · exact ih ((heffect.tracked_of_ne hne).mp htracked)

/-- A tracked path that is not tracked after an event was forgotten by it. -/
theorem forgets_of_not_tracked {event : Event} {other : Path} (h : st.Tracked other)
    (hnot : ¬ (onEvent fs st event watchConfigs watchedDirs tx).1.Tracked other) :
    other ∈ event.paths ∧ fs.isFile other = true ∧ Forgets event.kind other := by
  by_contra hno
  apply hnot
  refine onEvent_induction (I := fun st' => st'.Tracked other) h ?_ watchConfigs watchedDirs tx
  intro path hpath st₁ st₂ htracked heffect
  by_cases hne : other = path
  · subst hne
    cases heffect with
    | unchanged => exact htracked
    | read _ _ htailed _ _ => exact Or.inl htailed
    | adopted _ _ offset => exact Or.inl (Function.update_self _ _ _)
    | forgotten hfile hforgets => exact absurd ⟨hpath, hfile, hforgets⟩ hno
  · exact (heffect.tracked_of_ne hne).mpr htracked

theorem not_tracked_forget (st : TailerState) (path : Path) : ¬ (st.forget path).Tracked path := by
  simp [Tracked, forget]

/-- The file of a path is forgotten by an event of its removal or of a renaming. -/
theorem handlePath_of_forgets (hfile : fs.isFile path = true) (hforgets : Forgets kind path) :
    handlePath fs st kind path watchConfigs watchedDirs tx = (.ok .next, st.forget path, tx) := by
  obtain ⟨name, hname, hforget⟩ := hforgets
  have hkind : kind ≠ .modifyData ∧ kind ≠ .create := by
    rcases hforget with rfl | ⟨rfl, -⟩
    · exact ⟨nofun, nofun⟩
    · exact ⟨nofun, nofun⟩
  unfold handlePath
  simp [hfile, hname, hkind.1, hkind.2, hforget]

/-- A path of an event that neither reads nor adopts sends nothing, and the next one follows. -/
theorem handlePath_quiet (hdata : kind ≠ .modifyData) (hcreate : kind ≠ .create) :
    ∃ st', handlePath fs st kind path watchConfigs watchedDirs tx = (.ok .next, st', tx) := by
  unfold handlePath
  cases fs.isFile path with
  | false => exact ⟨st, rfl⟩
  | true =>
    cases path.fileName with
    | none => exact ⟨st, rfl⟩
    | some name =>
      simp only [Bool.not_true, Bool.false_eq_true, if_false, hdata, hcreate, false_and]
      split
      · exact ⟨st.forget path, rfl⟩
      · exact ⟨st, rfl⟩

/-- The rest of an event, once one of its paths is done. -/
theorem onEvent_cons {paths : List Path} {tx' : Sender}
    (hpath : handlePath fs st kind path watchConfigs watchedDirs tx = (.ok .next, st', tx')) :
    onEvent fs st ⟨kind, path :: paths⟩ watchConfigs watchedDirs tx =
      onEvent fs st' ⟨kind, paths⟩ watchConfigs watchedDirs tx' := by
  unfold onEvent handleEvent
  simp only
  conv_lhs => unfold handlePaths
  rw [hpath]

theorem onEvent_quiet {event : Event} (hdata : event.kind ≠ .modifyData)
    (hcreate : event.kind ≠ .create) :
    (onEvent fs st event watchConfigs watchedDirs tx).2 = tx := by
  obtain ⟨kind, paths⟩ := event
  induction paths generalizing st with
  | nil => rfl
  | cons path paths ih =>
    obtain ⟨st', hpath⟩ : ∃ st', handlePath fs st kind path watchConfigs watchedDirs tx =
        (.ok .next, st', tx) := handlePath_quiet hdata hcreate
    rw [onEvent_cons hpath]
    exact ih hdata hcreate

/-- What is not tracked stays so, unless it is created. -/
theorem PathEffect.not_tracked (h : PathEffect fs st kind path st') (hkind : kind ≠ .create)
    {other : Path} (hnot : ¬ st.Tracked other) : ¬ st'.Tracked other := by
  by_cases hne : other = path
  · subst hne
    cases h with
    | unchanged => exact hnot
    | read _ _ htailed _ _ => exact absurd (Or.inl htailed) hnot
    | adopted _ hcreate _ => exact absurd hcreate hkind
    | forgotten _ _ => exact not_tracked_forget st other
  · exact (h.tracked_of_ne hne).not.mpr hnot

/-- **A file is forgotten** by an event that names it and whose kind forgets its name. -/
theorem not_tracked_onEvent {event : Event} (hpath : path ∈ event.paths)
    (hfile : fs.isFile path = true) (hforgets : Forgets event.kind path) :
    ¬ (onEvent fs st event watchConfigs watchedDirs tx).1.Tracked path := by
  have hkind : event.kind ≠ .modifyData ∧ event.kind ≠ .create := by
    obtain ⟨-, -, hremove | ⟨hrename, -⟩⟩ := hforgets
    · rw [hremove]
      exact ⟨nofun, nofun⟩
    · rw [hrename]
      exact ⟨nofun, nofun⟩
  obtain ⟨kind, paths⟩ := event
  induction paths generalizing st tx with
  | nil => cases hpath
  | cons other paths ih =>
    obtain ⟨st', hresult⟩ : ∃ st', handlePath fs st kind other watchConfigs watchedDirs tx =
        (.ok .next, st', tx) := handlePath_quiet hkind.1 hkind.2
    rw [onEvent_cons hresult]
    rcases List.mem_cons.mp hpath with rfl | hrest
    · -- what comes after it does not bring it back
      rw [handlePath_of_forgets hfile hforgets] at hresult
      obtain rfl : st.forget path = st' := congrArg (fun result => result.2.1) hresult
      refine onEvent_induction (I := fun st => ¬ st.Tracked path) (not_tracked_forget st path) ?_
        watchConfigs watchedDirs tx
      intro other _ st₁ st₂ hnot heffect
      exact heffect.not_tracked hkind.2 hnot
    · exact ih hrest hforgets hkind

end Effects

end TailerState

end Sentinalysis.LogScanner
