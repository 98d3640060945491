/-
# Sentinalysis.LogScanner.Adoption — which files a tailer adopts, at its start and later.

At its start the tailer lists every configured directory and tries the directory's own pattern on
every file in it.  A file that is created later is looked at the other way round: the first
configuration whose directory contains it, at any depth, is chosen, and only the pattern of that one
is tried.  The two agree as long as that first configuration speaks for the file's own directory.
-/
import Sentinalysis.LogScanner.Tailer

namespace Sentinalysis.LogScanner

open Lib

namespace TailerState

/-- The file is there and its name matches, as the tailer tests it. -/
def Matching (fs : FileSystem) (cfg : LogWatchConfig) (path : Path) : Prop :=
  fs.isFile path = true ∧
    ∃ name, path.fileName = some name ∧ cfg.pattern name = true ∧ isRotatedLog name = false

/-- The test of a directory entry: what does not match is skipped, what matches has a name. -/
theorem matching_cases {α : Type} (fs : FileSystem) (cfg : LogWatchConfig) (path : Path) (skip : α)
    (take : String → α) {result : α}
    (hresult : (if !fs.isFile path then skip
      else match path.fileName with
        | none => skip
        | some name =>
          if !cfg.pattern name || isRotatedLog name then skip else take name) = result) :
    (¬ Matching fs cfg path ∧ skip = result) ∨
      ∃ name, path.fileName = some name ∧ Matching fs cfg path ∧ take name = result := by
  unfold Matching
  cases hfile : fs.isFile path with
  | false =>
    rw [hfile] at hresult
    exact Or.inl ⟨fun h => (by cases h.1), hresult⟩
  | true =>
    rw [hfile] at hresult
    cases hname : path.fileName with
    | none =>
      rw [hname] at hresult
      exact Or.inl ⟨fun ⟨_, _, h, _⟩ => (by cases h), hresult⟩
    | some name =>
      simp only [hname, Bool.not_true, Bool.false_eq_true, if_false] at hresult
      split at hresult
      · next hno =>
        refine Or.inl ⟨?_, hresult⟩
        rintro ⟨-, name', hname', hpattern, hrotated⟩
        obtain rfl := Option.some.inj hname'
        simp [hpattern, hrotated] at hno
      · next hyes =>
        simp only [Bool.or_eq_true, Bool.not_eq_true', not_or, Bool.not_eq_false,
          Bool.not_eq_true] at hyes
        exact Or.inr ⟨name, rfl, ⟨rfl, name, rfl, hyes⟩, hresult⟩

/-- The listing of a configured directory has the file, and it matches. -/
def Discoverable (fs : FileSystem) (watchConfigs : List LogWatchConfig) (path : Path) : Prop :=
  ∃ cfg ∈ watchConfigs, ∃ entries, fs.dir cfg.directory = some entries ∧ path ∈ entries ∧
    Matching fs cfg path

/-- The lines of the file were sent, from the first byte on, if it could be read. -/
def ReadFromStart (fs : FileSystem) (path : Path) (sent : List TailEvent) : Prop :=
  ∀ content, fs.readToString path = .ok content → tailLines path (Text.lines content) 0 <:+: sent

/-- The file is tracked and was read from offset 0. -/
def Adopted (fs : FileSystem) (path : Path) (s : TailerState × Sender) : Prop :=
  s.1.tailedFiles path = true ∧ ReadFromStart fs path s.2.sent

theorem ReadFromStart.append {fs : FileSystem} {path : Path} {sent : List TailEvent}
    (h : ReadFromStart fs path sent) (more : List TailEvent) :
    ReadFromStart fs path (sent ++ more) := by
  intro content hread
  exact (h content hread).trans (List.prefix_append sent more).isInfix

/-! ## One read -/

section Reads

variable {fs : FileSystem} {st : TailerState} {file : Path} {tx : Sender}

/-- A read sends the lines of the file, and changes nothing but the file's position. -/
theorem readExistingLines_cases (fs : FileSystem) (st : TailerState) (file : Path)
    (h : tx.room = none) :
    (∃ e, fs.readToString file = .error e ∧
      readExistingLines fs st file tx = (.error (.Io e), st, tx)) ∨
    ∃ content, fs.readToString file = .ok content ∧
      readExistingLines fs st file tx = (.ok (), st.setPosition file (Text.resume content),
        { tx with sent := tx.sent ++ tailLines file (Text.lines content) 0 }) := by
  unfold readExistingLines
  cases hread : fs.readToString file with
  | error e => exact Or.inl ⟨e, rfl, rfl⟩
  | ok content =>
    refine Or.inr ⟨content, rfl, ?_⟩
    simp only [emitLines_of_room_none _ _ _ h, Text.resume, Nat.zero_add]

/-- What a read leaves behind: the receiver, the set of tailed files, the lines sent before, and the
file read. -/
structure Reads (fs : FileSystem) (file : Path) (st : TailerState) (tx : Sender)
    (s : TailerState × Sender) : Prop where
  receiver : s.2.room = none
  tailed : s.1.tailedFiles = st.tailedFiles
  sent : ∃ more, s.2.sent = tx.sent ++ more
  read : ReadFromStart fs file s.2.sent

theorem reads_readExistingLines (fs : FileSystem) (st : TailerState) (file : Path)
    (h : tx.room = none) :
    Reads fs file st tx (readExistingLines fs st file tx).2 := by
  rcases readExistingLines_cases fs st file h with
    ⟨e, hread, heq⟩ | ⟨content, hread, heq⟩
  · rw [heq]
    refine ⟨h, rfl, ⟨[], (List.append_nil _).symm⟩, ?_⟩
    intro content hok
    rw [hread] at hok
    cases hok
  · rw [heq]
    refine ⟨h, rfl, ⟨_, rfl⟩, ?_⟩
    intro content' hok
    obtain rfl : content = content' := Except.ok.inj (hread.symm.trans hok)
    exact (List.suffix_append _ _).isInfix

/-- Reporting a failure does not change that. -/
theorem Reads.report {result : Except SentinelError Unit × TailerState × Sender}
    (h : Reads fs file st tx result.2) : Reads fs file st tx (TailerState.report result) := by
  obtain ⟨outcome, st', tx'⟩ := result
  cases outcome with
  | ok _ => exact h
  | error e =>
    obtain ⟨more, hmore⟩ := h.sent
    simp only [TailerState.report, Sender.send_of_room_none h.receiver]
    refine ⟨h.receiver, h.tailed, ⟨more ++ [.error e], ?_⟩, h.read.append _⟩
    rw [← List.append_assoc, ← hmore]

end Reads

/-! ## At the start -/

/-- The state of the initial read with regard to one file: whether it is tailed, and that it was
read if it is. -/
structure Discovering (fs : FileSystem) (path : Path) (seen : Prop) (s : TailerState × Sender) :
    Prop where
  receiver : s.2.room = none
  tailed : s.1.tailedFiles path = true ↔ seen
  read : seen → ReadFromStart fs path s.2.sent

section Discovery

variable {fs : FileSystem} {path : Path} {seen : Prop} {s : TailerState × Sender}

theorem Discovering.congr {seen' : Prop} (h : Discovering fs path seen s) (hiff : seen ↔ seen') :
    Discovering fs path seen' s :=
  ⟨h.receiver, h.tailed.trans hiff, fun hseen => h.read (hiff.mpr hseen)⟩

theorem Discovering.report {result : Except SentinelError Unit × TailerState × Sender}
    (h : Discovering fs path seen result.2) :
    Discovering fs path seen (TailerState.report result) := by
  obtain ⟨outcome, st, tx⟩ := result
  cases outcome with
  | ok _ => exact h
  | error e =>
    have hroom : tx.room = none := h.receiver
    simp only [TailerState.report, Sender.send_of_room_none hroom]
    exact ⟨h.receiver, h.tailed, fun hseen => (h.read hseen).append _⟩

/-- An entry of a directory is adopted if it matches and is not tailed yet. -/
theorem Discovering.discoverEntry (h : Discovering fs path seen s) (cfg : LogWatchConfig)
    (entry : Path) :
    Discovering fs path (seen ∨ (entry = path ∧ Matching fs cfg path))
      (TailerState.discoverEntry fs cfg s entry) := by
  obtain ⟨st, tx⟩ := s
  rcases matching_cases fs cfg entry _ _
    (show _ = TailerState.discoverEntry fs cfg (st, tx) entry from rfl) with
    ⟨hno, heq⟩ | ⟨name, -, hmatch, heq⟩
  · rw [← heq]
    refine h.congr ⟨Or.inl, ?_⟩
    rintro (hseen | ⟨rfl, hmatch⟩)
    · exact hseen
    · exact absurd hmatch hno
  rw [← heq]
  split
  · next htailed =>
    refine h.congr ⟨Or.inl, ?_⟩
    rintro (hseen | ⟨rfl, -⟩)
    · exact hseen
    · exact h.tailed.mp htailed
  · obtain ⟨hroom, htailed, ⟨more, hmore⟩, hread⟩ :=
      reads_readExistingLines fs (st.track entry) entry (show tx.room = none from h.receiver)
    refine ⟨hroom, ?_, ?_⟩
    · show (readExistingLines fs (st.track entry) entry tx).2.1.tailedFiles path = true ↔ _
      rw [htailed]
      show Function.update st.tailedFiles entry true path = true ↔ _
      by_cases heq : path = entry
      · subst heq
        simp [hmatch]
      · rw [Function.update_of_ne heq, h.tailed]
        simp [Ne.symm heq]
    · rintro (hseen | ⟨rfl, -⟩)
      · show ReadFromStart fs path (readExistingLines fs (st.track entry) entry tx).2.2.sent
        rw [hmore]
        exact (h.read hseen).append more
      · exact hread

theorem Discovering.foldl_discoverEntry (h : Discovering fs path seen s) (cfg : LogWatchConfig)
    (entries : List Path) :
    Discovering fs path (seen ∨ (path ∈ entries ∧ Matching fs cfg path))
      (entries.foldl (TailerState.discoverEntry fs cfg) s) := by
  -- what was seen grows by one entry at a time
  induction entries generalizing seen s with
  | nil => exact h.congr (by simp)
  | cons entry entries ih =>
    refine (ih (h.discoverEntry cfg entry)).congr ?_
    rw [List.mem_cons, or_and_right, or_assoc, eq_comm]

/-- A directory adds its matching files. -/
theorem Discovering.discoverExistingLogs {st : TailerState} {tx : Sender}
    (h : Discovering fs path seen (st, tx)) (cfg : LogWatchConfig) :
    Discovering fs path (seen ∨ Discoverable fs [cfg] path)
      (TailerState.report (TailerState.discoverExistingLogs fs st cfg tx)) := by
  have hone : Discoverable fs [cfg] path ↔
      ∃ entries, fs.dir cfg.directory = some entries ∧ path ∈ entries ∧ Matching fs cfg path := by
    simp [Discoverable]
  apply Discovering.report
  unfold TailerState.discoverExistingLogs FileSystem.readDir
  cases hdir : fs.dir cfg.directory with
  | none => exact h.congr (by simp [hone, hdir])
  | some entries => exact (h.foldl_discoverEntry cfg entries).congr (by simp [hone, hdir])

/-- **The initial read** tails the explicit files and the files it discovers, and reads them from
their start. -/
theorem discovering_initialRead (fs : FileSystem) (path : Path) (files : List Path)
    (watchConfigs : List LogWatchConfig) {tx : Sender} (htx : tx.room = none) :
    Discovering fs path (path ∈ files ∨ Discoverable fs watchConfigs path)
      (initialRead fs files watchConfigs tx) := by
  -- the explicit files: those read so far were read from their start
  have hfiles : ∀ (done rest : List Path) (s : TailerState × Sender), s.2.room = none →
      (∀ p, s.1.tailedFiles p = true ↔ p ∈ files) →
      (path ∈ done → ReadFromStart fs path s.2.sent) → files = done ++ rest →
      Discovering fs path (path ∈ files)
        (rest.foldl (fun s file => report (readExistingLines fs s.1 file s.2)) s) := by
    intro done rest
    induction rest generalizing done with
    | nil =>
      intro s hroom htailed hread hsplit
      rw [List.append_nil] at hsplit
      exact ⟨hroom, htailed path, fun hmem => hread (hsplit ▸ hmem)⟩
    | cons file rest ih =>
      rintro ⟨st, tx⟩ hroom htailed hread hsplit
      have hreads := (reads_readExistingLines fs st file hroom).report
      obtain ⟨more, hmore⟩ := hreads.sent
      refine ih (done ++ [file]) _ hreads.receiver ?_ ?_ (by rw [hsplit, List.append_cons])
      · intro p
        rw [hreads.tailed]
        exact htailed p
      · intro hmem
        rcases List.mem_append.mp hmem with hdone | hlast
        · rw [hmore]
          exact (hread hdone).append more
        · obtain rfl := List.mem_singleton.mp hlast
          exact hreads.read
  have hstart := hfiles [] files (new files, tx) htx (fun p => decide_eq_true_iff)
    (fun hmem => (by cases hmem)) rfl
  -- then one directory after the other
  unfold initialRead
  change Discovering fs path _ (watchConfigs.foldl _
    (files.foldl (fun s file => report (readExistingLines fs s.1 file s.2)) (new files, tx)))
  generalize files.foldl (fun s file => report (readExistingLines fs s.1 file s.2))
    (new files, tx) = s at hstart ⊢
  generalize (path ∈ files) = seen at hstart ⊢
  induction watchConfigs generalizing seen s with
  | nil => exact hstart.congr (by simp [Discoverable])
  | cons cfg watchConfigs ih =>
    refine (ih _ _ (hstart.discoverExistingLogs cfg)).congr ?_
    simp [Discoverable, or_assoc]

theorem adopted_initialRead_iff {files : List Path} {watchConfigs : List LogWatchConfig}
    {tx : Sender} (htx : tx.room = none) :
    Adopted fs path (initialRead fs files watchConfigs tx) ↔
      path ∈ files ∨ Discoverable fs watchConfigs path := by
  have h := discovering_initialRead fs path files watchConfigs htx
  exact ⟨fun hadopted => h.tailed.mp hadopted.1, fun hseen => ⟨h.tailed.mpr hseen, h.read hseen⟩⟩

end Discovery

/-! ## Later -/

/-- A file lies directly in a configured directory, of which the snapshot has a listing. -/
structure Placed (fs : FileSystem) (watchConfigs : List LogWatchConfig) (dir path : Path) :
    Prop where
  file : fs.isFile path = true
  direct : ∃ component, path = dir ++ [component]
  configured : ∃ cfg ∈ watchConfigs, cfg.directory = dir
  listed : ∃ entries, fs.dir dir = some entries ∧ path ∈ entries
  /-- A listing has only what lies directly in its directory. -/
  unlisted : ∀ other entries, fs.dir other = some entries → path ∈ entries → other = dir

/-- The first configuration that contains the file, at any depth, matches its name exactly when some
configuration of the file's own directory does; a rotated log matches nowhere. -/
def FirstSpeaksForDirectory (watchConfigs : List LogWatchConfig) (dir path : Path) : Prop :=
  ∀ name, path.fileName = some name → isRotatedLog name = false →
    ∀ first, watchConfigs.find? (fun cfg => path.startsWith cfg.directory) = some first →
      (first.pattern name = true ↔
        ∃ cfg ∈ watchConfigs, cfg.directory = dir ∧ cfg.pattern name = true)

/-- The first configuration that contains a created file matches its name. -/
def AdoptsCreated (watchConfigs : List LogWatchConfig) (path : Path) : Prop :=
  ∃ name, path.fileName = some name ∧ isRotatedLog name = false ∧
    ∃ first, watchConfigs.find? (fun cfg => path.startsWith cfg.directory) = some first ∧
      first.pattern name = true

instance (watchConfigs : List LogWatchConfig) (path : Path) :
    Decidable (AdoptsCreated watchConfigs path) :=
  decidable_of_iff ((path.fileName.any fun name => !isRotatedLog name &&
      (watchConfigs.find? fun cfg => path.startsWith cfg.directory).any (·.pattern name)) = true)
    (by simp [AdoptsCreated, Option.any_eq_true])

section Creation

variable {fs : FileSystem} {watchConfigs : List LogWatchConfig} {dir path : Path}
  {st : TailerState} {tx : Sender}

/-- A placed file is discoverable exactly when a configuration of its directory matches. -/
theorem Placed.discoverable_iff (h : Placed fs watchConfigs dir path) :
    Discoverable fs watchConfigs path ↔ ∃ name, path.fileName = some name ∧
      isRotatedLog name = false ∧
      ∃ cfg ∈ watchConfigs, cfg.directory = dir ∧ cfg.pattern name = true := by
  constructor
  · rintro ⟨cfg, hcfg, entries, hdir, hmem, -, name, hname, hpattern, hrotated⟩
    exact ⟨name, hname, hrotated, cfg, hcfg, h.unlisted _ entries hdir hmem, hpattern⟩
  · rintro ⟨name, hname, hrotated, cfg, hcfg, rfl, hpattern⟩
    obtain ⟨entries, hdir, hmem⟩ := h.listed
    exact ⟨cfg, hcfg, entries, hdir, hmem, h.file, name, hname, hpattern, hrotated⟩

/-- Some configuration contains a placed file. -/
theorem Placed.exists_first (h : Placed fs watchConfigs dir path) :
    ∃ first, watchConfigs.find? (fun cfg => path.startsWith cfg.directory) = some first := by
  obtain ⟨component, rfl⟩ := h.direct
  obtain ⟨cfg, hcfg, rfl⟩ := h.configured
  apply Option.isSome_iff_exists.mp
  rw [List.find?_isSome]
  refine ⟨cfg, hcfg, ?_⟩
  exact List.isPrefixOf_iff_prefix.mpr (List.prefix_append _ _)

/-- Every configured directory is watched. -/
theorem findMatchingConfig_watched (path : Path) (watchConfigs : List LogWatchConfig) :
    findMatchingConfig path watchConfigs (watchConfigs.map LogWatchConfig.directory) =
      watchConfigs.find? fun cfg => path.startsWith cfg.directory := by
  -- what matters of the watched directories is that they have those of the list
  suffices h : ∀ watchedDirs : List Path, (∀ cfg ∈ watchConfigs, cfg.directory ∈ watchedDirs) →
      findMatchingConfig path watchConfigs watchedDirs =
        watchConfigs.find? fun cfg => path.startsWith cfg.directory by
    exact h _ fun cfg hcfg => List.mem_map_of_mem hcfg
  intro watchedDirs hwatched
  unfold findMatchingConfig
  induction watchConfigs with
  | nil => rfl
  | cons cfg watchConfigs ih =>
    rw [List.forall_mem_cons] at hwatched
    rw [List.find?_cons, List.find?_cons, decide_eq_true hwatched.1, Bool.true_and,
      ih hwatched.2]

/-- **The event of a created file** makes the tailer track it and read it from its start if the
first configuration that contains it matches, and changes nothing otherwise. -/
theorem onEvent_create (fs : FileSystem) (st : TailerState) (path : Path)
    (watchConfigs : List LogWatchConfig) (tx : Sender) :
    (¬ (fs.isFile path = true ∧ AdoptsCreated watchConfigs path) ∧
      onEvent fs st ⟨.create, [path]⟩ watchConfigs (watchConfigs.map LogWatchConfig.directory) tx =
        (st, tx)) ∨
    (fs.isFile path = true ∧ AdoptsCreated watchConfigs path ∧
      onEvent fs st ⟨.create, [path]⟩ watchConfigs (watchConfigs.map LogWatchConfig.directory) tx =
        (readExistingLines fs ((st.track path).setPosition path 0) path tx).2) := by
  unfold onEvent handleEvent handlePaths handlePath handleCreate AdoptsCreated
  rw [findMatchingConfig_watched]
  cases hfile : fs.isFile path with
  | false => exact Or.inl ⟨fun h => (by cases h.1), by simp [handlePaths, report]⟩
  | true =>
    cases hname : path.fileName with
    | none =>
      refine Or.inl ⟨?_, by simp [handlePaths, report]⟩
      rintro ⟨-, name', hname', -⟩
      cases hname'
    | some name =>
      cases hrotated : isRotatedLog name with
      | true =>
        refine Or.inl ⟨?_, by simp [hrotated, handlePaths, report]⟩
        rintro ⟨-, name', hname', hno, -⟩
        obtain rfl := Option.some.inj hname'
        rw [hrotated] at hno
        cases hno
      | false =>
        cases hfirst : watchConfigs.find? (fun cfg => path.startsWith cfg.directory) with
        | none =>
          refine Or.inl ⟨?_, by simp [hrotated, handlePaths, report]⟩
          rintro ⟨-, name', -, -, first', hfirst', -⟩
          cases hfirst'
        | some first =>
          cases hpattern : first.pattern name with
          | false =>
            refine Or.inl ⟨?_, by simp [hrotated, hpattern, handlePaths, report]⟩
            rintro ⟨-, name', hname', -, first', hfirst', hyes⟩
            obtain rfl := Option.some.inj hname'
            obtain rfl := Option.some.inj hfirst'
            rw [hpattern] at hyes
            cases hyes
          | true =>
            exact Or.inr ⟨rfl, ⟨name, rfl, hrotated, first, rfl, hpattern⟩,
              by simp [hrotated, hpattern, handlePaths, report]⟩

theorem adopted_onEvent_create_iff (hfile : fs.isFile path = true)
    (huntracked : st.tailedFiles path = false) (htx : tx.room = none) :
    Adopted fs path (onEvent fs st ⟨.create, [path]⟩ watchConfigs
        (watchConfigs.map LogWatchConfig.directory) tx) ↔ AdoptsCreated watchConfigs path := by
  rcases onEvent_create fs st path watchConfigs tx with ⟨hno, heq⟩ | ⟨-, hadopts, heq⟩
  · rw [heq]
    refine ⟨?_, fun hadopts => absurd ⟨hfile, hadopts⟩ hno⟩
    rintro ⟨htailed, -⟩
    rw [huntracked] at htailed
    cases htailed
  · rw [heq]
    have hreads := reads_readExistingLines fs ((st.track path).setPosition path 0) path htx
    refine ⟨fun _ => hadopts, fun _ => ⟨?_, hreads.read⟩⟩
    rw [hreads.tailed]
    exact Function.update_self _ _ _

/-- **A created file is adopted exactly when it would have been discovered** if and only if the
first configuration that contains it speaks for its directory. -/
theorem created_iff_discovered_iff (h : Placed fs watchConfigs dir path)
    (huntracked : st.tailedFiles path = false) (htx : tx.room = none) {files : List Path}
    (hfiles : path ∉ files) :
    (Adopted fs path (onEvent fs st ⟨.create, [path]⟩ watchConfigs
          (watchConfigs.map LogWatchConfig.directory) tx) ↔
        Adopted fs path (initialRead fs files watchConfigs {})) ↔
      FirstSpeaksForDirectory watchConfigs dir path := by
  obtain ⟨first, hfirst⟩ := h.exists_first
  rw [adopted_onEvent_create_iff h.file huntracked htx, adopted_initialRead_iff rfl,
    or_iff_right hfiles, h.discoverable_iff]
  constructor
  · intro hiff name hname hrotated first' hfirst'
    constructor
    · intro hpattern
      obtain ⟨name', hname', -, hcfg⟩ := hiff.mp ⟨name, hname, hrotated, first', hfirst', hpattern⟩
      obtain rfl : name = name' := Option.some.inj (hname.symm.trans hname')
      exact hcfg
    · intro hcfg
      obtain ⟨name', hname', -, first'', hfirst'', hpattern⟩ :=
        hiff.mpr ⟨name, hname, hrotated, hcfg⟩
      obtain rfl : name = name' := Option.some.inj (hname.symm.trans hname')
      obtain rfl : first' = first'' := Option.some.inj (hfirst'.symm.trans hfirst'')
      exact hpattern
  · intro hspeaks
    constructor
    · rintro ⟨name, hname, hrotated, first', hfirst', hpattern⟩
      exact ⟨name, hname, hrotated, (hspeaks name hname hrotated first' hfirst').mp hpattern⟩
    · rintro ⟨name, hname, hrotated, hcfg⟩
      exact ⟨name, hname, hrotated, first, hfirst,
        (hspeaks name hname hrotated first hfirst).mpr hcfg⟩

end Creation

/-! ## Two patterns for one directory -/

/-- The directory of the files below. -/
def appLogs : Path := [.text "srv", .text "logs"]

/-- The directory with one empty file. -/
def oneFile (name : String) : FileSystem where
  file := fun path => if path = appLogs.join name then some ⟨[], true⟩ else none
  dir := fun path => if path = appLogs then some [appLogs.join name] else none

/-- The directory watched for the names with an extension. -/
def watchExtension (extension : String) : LogWatchConfig where
  directory := appLogs
  pattern := (Text.endsWith · extension)

theorem placed_oneFile (name : String) {watchConfigs : List LogWatchConfig}
    (h : ∃ cfg ∈ watchConfigs, cfg.directory = appLogs) :
    Placed (oneFile name) watchConfigs appLogs (appLogs.join name) where
  file := by simp [FileSystem.isFile, oneFile]
  direct := ⟨.text name, rfl⟩
  configured := h
  listed := ⟨[appLogs.join name], by simp [oneFile], by simp⟩
  unlisted := by
    intro other entries hdir _
    simp only [oneFile, Option.ite_none_right_eq_some] at hdir
    exact hdir.1

/-- One pattern speaks for its directory. -/
theorem created_iff_discovered_onePattern :
    Adopted (oneFile "a.log") (appLogs.join "a.log") (onEvent (oneFile "a.log") (new [])
        ⟨.create, [appLogs.join "a.log"]⟩ [watchExtension ".log"] [appLogs] {}) ↔
      Adopted (oneFile "a.log") (appLogs.join "a.log")
        (initialRead (oneFile "a.log") [] [watchExtension ".log"] {}) := by
  refine (created_iff_discovered_iff (placed_oneFile "a.log" ⟨_, List.mem_singleton_self _, rfl⟩)
    rfl rfl (List.not_mem_nil)).mpr ?_
  intro name _ _ first hfirst
  obtain rfl : watchExtension ".log" = first := by
    obtain rfl := List.mem_singleton.mp (List.mem_of_find?_eq_some hfirst)
    rfl
  exact ⟨fun hpattern => ⟨_, List.mem_singleton_self _, rfl, hpattern⟩,
    fun ⟨_, hcfg, _, hpattern⟩ => List.mem_singleton.mp hcfg ▸ hpattern⟩

/-- **A file that would have been discovered is not adopted when it is created**: of two patterns
for its directory, the second one matches. -/
theorem created_not_adopted :
    Placed (oneFile "a.txt") [watchExtension ".log", watchExtension ".txt"] appLogs
        (appLogs.join "a.txt") ∧
      Adopted (oneFile "a.txt") (appLogs.join "a.txt")
        (initialRead (oneFile "a.txt") [] [watchExtension ".log", watchExtension ".txt"] {}) ∧
      ¬ Adopted (oneFile "a.txt") (appLogs.join "a.txt") (onEvent (oneFile "a.txt") (new [])
        ⟨.create, [appLogs.join "a.txt"]⟩ [watchExtension ".log", watchExtension ".txt"]
        [appLogs, appLogs] {}) := by
  have hplaced : Placed (oneFile "a.txt") [watchExtension ".log", watchExtension ".txt"] appLogs
      (appLogs.join "a.txt") := placed_oneFile "a.txt" ⟨_, List.mem_cons_self .., rfl⟩
  refine ⟨hplaced, ?_, ?_⟩
  · rw [adopted_initialRead_iff rfl, hplaced.discoverable_iff]
    refine Or.inr ⟨"a.txt", Path.fileName_join _ _, by decide, watchExtension ".txt", ?_, rfl, ?_⟩
    · exact List.mem_cons_of_mem _ (List.mem_singleton_self _)
    · decide
  · intro hadopted
    obtain ⟨name, hname, -, first, hfirst, hpattern⟩ :=
      (adopted_onEvent_create_iff hplaced.file rfl rfl).mp hadopted
    obtain rfl : "a.txt" = name := Option.some.inj ((Path.fileName_join _ _).symm.trans hname)
    obtain rfl : watchExtension ".log" = first := by
      rw [List.find?_cons_of_pos (by decide)] at hfirst
      exact Option.some.inj hfirst
    exact absurd hpattern (by decide)

end TailerState

end Sentinalysis.LogScanner
