/-
# Sentinalysis.LogScanner.SourceDiscovery — the sources that the viewer lists, and the services that
lines are filed under.

Three components classify files.  The tailer takes every configured file and every file that
matches in a configured directory.  The pipeline files a line under the virtual host of its file or,
for a file without one, of the line itself; what has neither goes under the name of the file.  The
discovery of sources lists the virtual hosts of the directories, `access.log`, and the configured
files by name.  What a line is filed under is listed only where these rules meet.
-/
import Sentinalysis.LogScanner.Adoption
import Sentinalysis.LogScanner.FileTailer
import Sentinalysis.LogScanner.Pipeline
import Mathlib.Data.Finset.Sort
import Mathlib.Data.String.Basic

namespace Sentinalysis.LogScanner

open Lib

/-! ## Discovery -/

namespace SourceDiscovery

/-- The two `BTreeSet`s of `discover`. -/
structure Found where
  vhosts : Finset String := ∅
  systemLogs : Finset String := ∅

/-- One directory entry of `discover_directory`. -/
def discoverFile (fs : FileSystem) (pattern : String → Bool) (found : Found) (path : Path) :
    Found :=
  if !fs.isFile path then found
  else match path.fileName with
    | none => found
    | some fileName =>
      if !pattern fileName || isRotatedLog fileName then found
      else match vhostFromFilePath path with
        | some vhost => { found with vhosts := insert vhost found.vhosts }
        | none =>
          if fileName = "access.log" then
            { found with systemLogs := insert "access.log" found.systemLogs }
          else found

/-- `discover_directory`; what cannot be listed or has no valid pattern is skipped. -/
def discoverDirectory (glob : Glob) (fs : FileSystem) (found : Found) (dir : LogDirectoryConfig) :
    Found :=
  match fs.readDir dir.path with
  | .error _ => found
  | .ok entries => match glob dir.pattern with
    | .error _ => found
    | .ok pattern => entries.foldl (discoverFile fs pattern) found

/-- One configured file of `discover`. -/
def discoverConfigured (fs : FileSystem) (found : Found) (file : Path) : Found :=
  if fs.isFile file then
    match file.fileName with
    | some name => { found with systemLogs := insert name found.systemLogs }
    | none => found
  else found

/-- `discover`: virtual hosts first, then system logs, each sorted by name. -/
def discover (glob : Glob) (fs : FileSystem) (config : LogWatchingConfig) : List Source :=
  let found := config.directories.foldl (discoverDirectory glob fs) {}
  let found := config.files.foldl (discoverConfigured fs) found
  found.vhosts.sort.map Source.vhost ++ found.systemLogs.sort.map Source.systemLog

/-- No source is listed twice. -/
theorem nodup_discover (glob : Glob) (fs : FileSystem) (config : LogWatchingConfig) :
    (discover glob fs config).Nodup := by
  have hvhost : Function.Injective Source.vhost := fun _ _ h => congrArg Source.name h
  have hsystemLog : Function.Injective Source.systemLog := fun _ _ h => congrArg Source.name h
  unfold discover
  refine List.nodup_append.mpr ⟨?_, ?_, ?_⟩
  · exact (Finset.sort_nodup _ _).map hvhost
  · exact (Finset.sort_nodup _ _).map hsystemLog
  · intro a ha b hb heq
    obtain ⟨_, -, rfl⟩ := List.mem_map.mp ha
    obtain ⟨_, -, rfl⟩ := List.mem_map.mp hb
    exact absurd (congrArg Source.kind heq) (by simp [Source.vhost, Source.systemLog])

/-! ## What is listed -/

/-- The directories whose patterns compile, as the tailer watches them. -/
def watched (glob : Glob) (directories : List LogDirectoryConfig) : List LogWatchConfig :=
  directories.filterMap fun dir => (glob dir.pattern).toOption.map (⟨dir.path, ·⟩)

/-- The files that the directories contribute to what is found. -/
structure Contributes (found found' : Found) (contributed : Path → Prop) : Prop where
  vhosts : ∀ vhost, vhost ∈ found'.vhosts ↔ vhost ∈ found.vhosts ∨
    ∃ path, contributed path ∧ vhostFromFilePath path = some vhost
  systemLogs : ∀ name, name ∈ found'.systemLogs ↔ name ∈ found.systemLogs ∨
    (name = "access.log" ∧ ∃ path, contributed path ∧ path.fileName = some name)

section Listed

variable {glob : Glob} {fs : FileSystem} {found : Found}

theorem contributes_nothing {contributed : Path → Prop} (h : ∀ path, ¬ contributed path) :
    Contributes found found contributed where
  vhosts vhost := by simp [h]
  systemLogs name := by simp [h]

theorem Contributes.trans {found' found'' : Found} {P Q : Path → Prop}
    (h : Contributes found found' P) (h' : Contributes found' found'' Q) :
    Contributes found found'' fun path => P path ∨ Q path where
  vhosts vhost := by
    rw [h'.vhosts, h.vhosts, or_assoc]
    simp only [or_and_right, exists_or]
  systemLogs name := by
    rw [h'.systemLogs, h.systemLogs, or_assoc]
    simp only [or_and_right, exists_or, and_or_left]

theorem Contributes.congr {found' : Found} {P Q : Path → Prop} (h : Contributes found found' P)
    (hiff : ∀ path, P path ↔ Q path) : Contributes found found' Q := by
  rwa [show P = Q from funext fun path => propext (hiff path)] at h

/-- `access.log` is not the log of a virtual host. -/
theorem vhost_accessLog {path : Path} (h : path.fileName = some "access.log") :
    vhostFromFilePath path = none := by
  unfold vhostFromFilePath
  rw [h]
  rfl

theorem contributes_discoverFile (fs : FileSystem) (cfg : LogWatchConfig) (found : Found)
    (entry : Path) : Contributes found (discoverFile fs cfg.pattern found entry)
      fun path => path = entry ∧ TailerState.Matching fs cfg path := by
  rcases TailerState.matching_cases fs cfg entry _ _
    (show _ = discoverFile fs cfg.pattern found entry from rfl) with
    ⟨hno, heq⟩ | ⟨name, hname, hmatch, heq⟩
  · rw [← heq]
    apply contributes_nothing
    rintro path ⟨rfl, hmatch⟩
    exact hno hmatch
  rw [← heq]
  -- a file is of a virtual host, or `access.log`, or of no use here
  cases hvhost : vhostFromFilePath entry with
  | some vhost =>
    refine ⟨fun vhost' => ?_, fun name' => ?_⟩
    · simp [hmatch, hvhost, or_comm, eq_comm]
    · have hno : name' = "access.log" → entry.fileName ≠ some name' := by
        rintro rfl hentry
        rw [vhost_accessLog hentry] at hvhost
        cases hvhost
      simp only [and_assoc, exists_eq_left]
      exact ⟨Or.inl, fun h => h.elim id fun ⟨heq, _, hentry⟩ => absurd hentry (hno heq)⟩
  | none =>
    simp only
    split
    · next haccess =>
      subst haccess
      refine ⟨fun vhost => ?_, fun name => ?_⟩
      · simp [hvhost]
      · simp only [Finset.mem_insert, and_assoc, exists_eq_left, hname, Option.some.injEq]
        constructor
        · rintro (rfl | hmem)
          · exact Or.inr ⟨rfl, hmatch, rfl⟩
          · exact Or.inl hmem
        · rintro (hmem | ⟨rfl, -, -⟩)
          · exact Or.inr hmem
          · exact Or.inl rfl
    · next hother =>
      refine ⟨fun vhost => ?_, fun name' => ?_⟩
      · simp [hvhost]
      · simp only [and_assoc, exists_eq_left, hname, Option.some.injEq]
        exact ⟨Or.inl, fun h => h.elim id fun ⟨heq, _, hentry⟩ =>
          absurd (hentry.trans heq) hother⟩

theorem contributes_foldl (fs : FileSystem) (cfg : LogWatchConfig) (entries : List Path)
    (found : Found) : Contributes found (entries.foldl (discoverFile fs cfg.pattern) found)
      fun path => path ∈ entries ∧ TailerState.Matching fs cfg path := by
  induction entries generalizing found with
  | nil => exact contributes_nothing (by simp)
  | cons entry entries ih =>
    refine ((contributes_discoverFile fs cfg found entry).trans (ih _)).congr fun path => ?_
    rw [List.mem_cons, or_and_right]

/-- A directory contributes what the tailer discovers in it. -/
theorem contributes_discoverDirectory (glob : Glob) (fs : FileSystem) (found : Found)
    (dir : LogDirectoryConfig) : Contributes found (discoverDirectory glob fs found dir)
      (TailerState.Discoverable fs (watched glob [dir])) := by
  unfold discoverDirectory FileSystem.readDir
  cases hdir : fs.dir dir.path with
  | none =>
    apply contributes_nothing
    rintro path ⟨cfg, hcfg, entries, hentries, -⟩
    obtain ⟨dir', hmem, hsome⟩ := List.mem_filterMap.mp hcfg
    obtain rfl := List.mem_singleton.mp hmem
    obtain ⟨pattern, -, rfl⟩ := Option.map_eq_some_iff.mp hsome
    rw [hdir] at hentries
    cases hentries
  | some entries =>
    cases hglob : glob dir.pattern with
    | error e =>
      apply contributes_nothing
      simp [TailerState.Discoverable, watched, hglob, Except.toOption]
    | ok pattern =>
      refine (contributes_foldl fs ⟨dir.path, pattern⟩ entries found).congr fun path => ?_
      simp [TailerState.Discoverable, watched, hglob, hdir, Except.toOption]

theorem contributes_directories (glob : Glob) (fs : FileSystem)
    (directories : List LogDirectoryConfig) (found : Found) :
    Contributes found (directories.foldl (discoverDirectory glob fs) found)
      (TailerState.Discoverable fs (watched glob directories)) := by
  induction directories generalizing found with
  | nil => exact contributes_nothing (by simp [TailerState.Discoverable, watched])
  | cons dir directories ih =>
    refine ((contributes_discoverDirectory glob fs found dir).trans (ih _)).congr fun path => ?_
    have hsplit : watched glob (dir :: directories) =
        watched glob [dir] ++ watched glob directories := by
      rw [watched, ← List.singleton_append, List.filterMap_append]
      rfl
    unfold TailerState.Discoverable
    simp only [hsplit, List.mem_append, or_and_right, exists_or]

/-- The configured files add their names. -/
theorem foldl_discoverConfigured (fs : FileSystem) (files : List Path) (found : Found) :
    (files.foldl (discoverConfigured fs) found).vhosts = found.vhosts ∧
      ∀ name, name ∈ (files.foldl (discoverConfigured fs) found).systemLogs ↔
        name ∈ found.systemLogs ∨
          ∃ file ∈ files, fs.isFile file = true ∧ file.fileName = some name := by
  induction files generalizing found with
  | nil => simp
  | cons file files ih =>
    have hone : (discoverConfigured fs found file).vhosts = found.vhosts ∧
        ∀ name, name ∈ (discoverConfigured fs found file).systemLogs ↔
          name ∈ found.systemLogs ∨ (fs.isFile file = true ∧ file.fileName = some name) := by
      unfold discoverConfigured
      cases hfile : fs.isFile file with
      | false => simp
      | true =>
        cases hname : file.fileName with
        | none => simp
        | some name => simp [or_comm, eq_comm]
    obtain ⟨hvhosts, hsystemLogs⟩ := ih (discoverConfigured fs found file)
    refine ⟨hvhosts.trans hone.1, fun name => ?_⟩
    rw [List.foldl_cons, hsystemLogs, hone.2, or_assoc]
    simp

/-- **A virtual host is listed** if a directory has a file of it. -/
theorem vhost_mem_discover_iff {config : LogWatchingConfig} {vhost : String} :
    Source.vhost vhost ∈ discover glob fs config ↔ ∃ path,
      TailerState.Discoverable fs (watched glob config.directories) path ∧
        vhostFromFilePath path = some vhost := by
  have hfound := contributes_directories glob fs config.directories {}
  obtain ⟨hvhosts, -⟩ := foldl_discoverConfigured fs config.files
    (config.directories.foldl (discoverDirectory glob fs) {})
  simp [discover, hvhosts, hfound.vhosts, Source.vhost, Source.systemLog]

/-- **A system log is listed** if it is a configured file, or `access.log` in a directory. -/
theorem systemLog_mem_discover_iff {config : LogWatchingConfig} {name : String} :
    Source.systemLog name ∈ discover glob fs config ↔
      (∃ file ∈ config.files, fs.isFile file = true ∧ file.fileName = some name) ∨
      (name = "access.log" ∧ ∃ path,
        TailerState.Discoverable fs (watched glob config.directories) path ∧
          path.fileName = some name) := by
  have hfound := contributes_directories glob fs config.directories {}
  obtain ⟨-, hsystemLogs⟩ := foldl_discoverConfigured fs config.files
    (config.directories.foldl (discoverDirectory glob fs) {})
  simp [discover, hsystemLogs, hfound.systemLogs, Source.vhost, Source.systemLog, or_comm]

end Listed

/-! ## What a line is filed under -/

/-- The source that selects the entries of a service. -/
def sourceOf (service : ServiceMeta) : Source :=
  match service.virtualHost with
  | some vhost => .vhost vhost
  | none => .systemLog service.name

/-- The tailer that is built from the configuration tails the file, and it is there. -/
def Tails (glob : Glob) (config : LogWatchingConfig) (fs : FileSystem) (path : Path) : Prop :=
  fs.isFile path = true ∧ ∃ tailer, FileTailer.fromWatchConfig glob config = .ok tailer ∧
    (TailerState.initialRead fs tailer.files tailer.watchConfigs {}).1.tailedFiles path = true

/-- A line with a virtual host, from the name of its file or from the line, needs a directory with a
file of that host.  Any other line needs to be from a file named `access.log`, or to have its file's
name among those of the configured files. -/
def Selectable (glob : Glob) (config : LogWatchingConfig) (fs : FileSystem) (path : Path)
    (host : Option String) : Prop :=
  match (vhostFromFilePath path).or host with
  | some vhost => ∃ file, TailerState.Discoverable fs (watched glob config.directories) file ∧
      vhostFromFilePath file = some vhost
  | none => path.fileName = some "access.log" ∨ ∃ file ∈ config.files, fs.isFile file = true ∧
      file.fileName = some (path.fileName.getD "unknown-log")

section Agreement

variable {glob : Glob} {config : LogWatchingConfig} {fs : FileSystem} {path : Path}

/-- The tailer watches the configured directories and has the configured files. -/
theorem fromWatchConfig_eq_ok {tailer : FileTailer}
    (h : FileTailer.fromWatchConfig glob config = .ok tailer) :
    tailer.files = config.files ∧ tailer.watchConfigs = watched glob config.directories := by
  have hfold : ∀ (directories : List LogDirectoryConfig) (before after : FileTailer),
      directories.foldlM (FileTailer.withWatchDirectory glob) before = .ok after →
      after.files = before.files ∧
        after.watchConfigs = before.watchConfigs ++ watched glob directories := by
    intro directories
    induction directories with
    | nil =>
      intro before after heq
      cases heq
      exact ⟨rfl, (List.append_nil _).symm⟩
    | cons dir directories ih =>
      intro before after heq
      rw [List.foldlM_cons] at heq
      unfold FileTailer.withWatchDirectory at heq
      cases hglob : glob dir.pattern with
      | error e =>
        rw [hglob] at heq
        cases heq
      | ok pattern =>
        rw [hglob] at heq
        obtain ⟨hfiles, hconfigs⟩ := ih _ _ heq
        refine ⟨hfiles, ?_⟩
        rw [hconfigs]
        simp [watched, hglob, Except.toOption]
  unfold FileTailer.fromWatchConfig at h
  cases hdirs : config.directories.foldlM (FileTailer.withWatchDirectory glob) {} with
  | error e =>
    rw [hdirs] at h
    cases h
  | ok built =>
    rw [hdirs] at h
    obtain ⟨hfiles, hconfigs⟩ := hfold _ _ _ hdirs
    simp only [List.nil_append] at hconfigs
    obtain rfl := Except.ok.inj h
    split
    · next hempty =>
      rw [hempty]
      exact ⟨hfiles, hconfigs⟩
    · exact ⟨rfl, hconfigs⟩

/-- A tailed file is a configured one, or in a directory. -/
theorem Tails.mem (h : Tails glob config fs path) : path ∈ config.files ∨
    TailerState.Discoverable fs (watched glob config.directories) path := by
  obtain ⟨-, tailer, hbuild, htailed⟩ := h
  obtain ⟨hfiles, hconfigs⟩ := fromWatchConfig_eq_ok hbuild
  rw [← hfiles, ← hconfigs]
  exact (TailerState.discovering_initialRead fs path _ _ rfl).tailed.mp htailed

/-- The source of a line of a tailed file is listed exactly when the line is selectable. -/
theorem source_mem_discover_iff (h : Tails glob config fs path) (entry : ParsedLogEntry) :
    sourceOf (serviceOf path entry) ∈ discover glob fs config ↔
      Selectable glob config fs path entry.metadata.virtualHost := by
  unfold serviceOf Selectable
  cases (vhostFromFilePath path).or entry.metadata.virtualHost with
  | some vhost => exact vhost_mem_discover_iff
  | none =>
    simp only [sourceOf]
    rw [systemLog_mem_discover_iff]
    constructor
    · rintro (hconfigured | ⟨hname, file, -, hfile⟩)
      · exact Or.inr hconfigured
      · -- the name `access.log` is not the one given to files without a name
        refine Or.inl ?_
        cases hpath : path.fileName with
        | none =>
          rw [hpath] at hname
          exact absurd hname (by decide)
        | some name =>
          rw [hpath] at hname
          exact congrArg some hname
    · rintro (haccess | hconfigured)
      · rw [haccess]
        rcases h.mem with hfile | hdiscoverable
        · exact Or.inl ⟨path, hfile, h.1, haccess⟩
        · exact Or.inr ⟨rfl, path, hdiscoverable, haccess⟩
      · exact Or.inl hconfigured

/-- **What an entry is filed under is listed exactly when its line is selectable.** -/
theorem entry_listed_iff {η ρ : Type} {crates : Externals} {p : Pipeline η ρ} {now : DateTime}
    {env : η} {st st' : ρ} {line : TailLine} {e : Db.InsertLogEntry}
    (h : Tails glob config fs line.filePath)
    (hentry : p.processLine crates now env st line = (.ok (some e), st')) :
    ∃ entry, p.parseLine now line = .ok (some entry) ∧
      p.services.resolve env st (serviceOf line.filePath entry) = (e.serviceId, st') ∧
      (sourceOf (serviceOf line.filePath entry) ∈ discover glob fs config ↔
        Selectable glob config fs line.filePath entry.metadata.virtualHost) := by
  obtain ⟨entry, hparse, hst, rfl⟩ := Pipeline.processLine_eq_some_iff.mp hentry
  refine ⟨entry, hparse, ?_, source_mem_discover_iff h entry⟩
  exact Prod.ext rfl hst

end Agreement

/-! ## The log of a virtual host as a configured file -/

/-- The directory of the log. -/
def nginxDir : Path := [.text "var", .text "log", .text "nginx"]

/-- A file system with the log, of one line. -/
def shopFiles : FileSystem where
  file := fun path =>
    if path = shopLog then some ⟨Text.bytes (shopLine.line ++ "\n"), true⟩ else none
  dir := fun path => if path = nginxDir then some [shopLog] else none

/-- One pattern. -/
def logGlob : Glob := fun _ => .ok (Text.endsWith · ".log")

def shopPipeline : Pipeline (Option Db.Uuid) Unit := .build newYearCrates .default givenIds

/-- The line is filed under the virtual host of its file. -/
theorem processLine_shopLine : shopPipeline.processLine newYearCrates newYear none () shopLine =
    (.ok (some (insertEntry newYearCrates shopPipeline.filter shopEntry none)), ()) :=
  Pipeline.processLine_of_parseLine newYearCrates none ()
    (parseLine_of_nginx .default givenIds newYear rfl parse_shopLine)

/-- The directory of the log is configured. -/
def shopDirectory : LogWatchingConfig := ⟨[⟨nginxDir, "*.log"⟩], []⟩

/-- The log is configured by itself. -/
def shopFile : LogWatchingConfig := ⟨[], [shopLog]⟩

theorem discoverable_shopLog :
    TailerState.Discoverable shopFiles (watched logGlob shopDirectory.directories) shopLog :=
  ⟨⟨nginxDir, (Text.endsWith · ".log")⟩, List.mem_singleton_self _, [shopLog], by simp [shopFiles],
    List.mem_singleton_self _, by simp [FileSystem.isFile, shopFiles], "shop.example-access.log",
    Path.fileName_join _ _, by decide, by decide⟩

theorem tails_shopDirectory : Tails logGlob shopDirectory shopFiles shopLog := by
  refine ⟨by simp [FileSystem.isFile, shopFiles], _, rfl, ?_⟩
  exact (TailerState.discovering_initialRead shopFiles shopLog _ _ rfl).tailed.mpr
    (Or.inr discoverable_shopLog)

theorem tails_shopFile : Tails logGlob shopFile shopFiles shopLog := by
  refine ⟨by simp [FileSystem.isFile, shopFiles], _, rfl, ?_⟩
  exact (TailerState.discovering_initialRead shopFiles shopLog _ _ rfl).tailed.mpr
    (Or.inl (List.mem_singleton_self _))

/-- From a configured directory, the log's virtual host is listed. -/
theorem entry_listed_shopDirectory : ∃ entry,
    sourceOf (serviceOf shopLog entry) ∈ discover logGlob shopFiles shopDirectory := by
  obtain ⟨entry, -, -, hlisted⟩ := entry_listed_iff tails_shopDirectory processLine_shopLine
  refine ⟨entry, hlisted.mpr ?_⟩
  exact ⟨shopLog, discoverable_shopLog, by decide⟩

/-- **The log of a virtual host that is configured as a file is not listed** as what its lines are
filed under: the viewer lists a system log, and the entries have a virtual host. -/
theorem configuredLog_not_listed : Tails logGlob shopFile shopFiles shopLine.filePath ∧
    (shopPipeline.parseLine newYear shopLine = .ok (some shopEntry) ∧
      (shopPipeline.processLine newYearCrates newYear none () shopLine).1 =
        .ok (some (insertEntry newYearCrates shopPipeline.filter shopEntry none))) ∧
    sourceOf (serviceOf shopLine.filePath shopEntry) ∉ discover logGlob shopFiles shopFile := by
  refine ⟨tails_shopFile, ⟨?_, ?_⟩, ?_⟩
  · exact parseLine_of_nginx .default givenIds newYear rfl parse_shopLine
  · rw [processLine_shopLine]
  · have hsource : sourceOf (serviceOf shopLine.filePath shopEntry) = .vhost "shop.example" := by
      decide
    rw [hsource, vhost_mem_discover_iff]
    rintro ⟨path, ⟨cfg, hcfg, -⟩, -⟩
    cases hcfg

end SourceDiscovery

end Sentinalysis.LogScanner
