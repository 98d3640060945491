/-
# Sentinalysis.LogScanner.VhostNames — the names of virtual hosts, and the names of their logs.

`<vhost>-access.log` is the log of `<vhost>`.  The name is recovered by taking the ending off as
often as it occurs, so that the log of a host whose own name ends like a log is taken for the log of
another host; the entries of the two are filed under one service, and both are one source.
-/
import Sentinalysis.LogScanner.DbServiceResolver
import Sentinalysis.LogScanner.SourceDiscovery

namespace Sentinalysis.LogScanner

open Lib Db

namespace VhostNames

/-! ## One name -/

theorem vhostFromFilePath_of_fileName {path : Path} {name : String}
    (h : path.fileName = some name) : vhostFromFilePath path =
      if Text.endsWith name accessLogSuffix then some (Text.trimEndMatches name accessLogSuffix)
      else none := by
  rw [vhostFromFilePath, h]

theorem accessLogSuffix_ne : accessLogSuffix ≠ "" := by decide

/-- **What is recovered**: the virtual host is what the endings stand behind, all of them. -/
theorem vhostFromFilePath_eq_some_iff {path : Path} {name vhost : String}
    (h : path.fileName = some name) : vhostFromFilePath path = some vhost ↔
      ¬ Text.endsWith vhost accessLogSuffix = true ∧ ∃ n, name.toList =
        vhost.toList ++ (List.replicate (n + 1) accessLogSuffix.toList).flatten := by
  rw [vhostFromFilePath_of_fileName h]
  constructor
  · intro hsome
    split at hsome
    · next hends =>
      obtain ⟨hnot, n, hn⟩ :=
        (Text.trimEndMatches_eq_iff accessLogSuffix_ne).mp (Option.some.inj hsome)
      refine ⟨hnot, n - 1, ?_⟩
      cases n with
      | zero =>
        -- the name ends like a log, and so at least one ending was removed
        obtain rfl : name = vhost := String.toList_inj.mp (by simpa using hn)
        exact absurd hends hnot
      | succ n => exact hn
    · cases hsome
  · rintro ⟨hnot, n, hn⟩
    have hends : Text.endsWith name accessLogSuffix = true := by
      rw [Text.endsWith, List.isSuffixOf_iff_suffix, hn, List.replicate_succ', List.flatten_append,
        List.flatten_singleton, ← List.append_assoc]
      exact List.suffix_append _ _
    rw [if_pos hends, Option.some_inj]
    exact (Text.trimEndMatches_eq_iff accessLogSuffix_ne).mpr ⟨hnot, n + 1, hn⟩

/-- What is recovered from the name of a file is what stands before its ending, unless the ending
comes twice. -/
theorem recovered_iff {path : Path} {name : String} (h : path.fileName = some name) :
    (∀ vhost, vhostFromFilePath path = some vhost ↔ name = vhost ++ accessLogSuffix) ↔
      ¬ Text.endsWith name (accessLogSuffix ++ accessLogSuffix) = true := by
  constructor
  · intro hexact hdoubled
    obtain ⟨front, rfl⟩ := Text.endsWith_iff.mp hdoubled
    have hvhost := (hexact (front ++ accessLogSuffix)).mpr String.append_assoc.symm
    exact ((vhostFromFilePath_eq_some_iff h).mp hvhost).1 (Text.endsWith_iff.mpr ⟨front, rfl⟩)
  · intro hsingle vhost
    rw [vhostFromFilePath_eq_some_iff h]
    constructor
    · rintro ⟨-, n, hn⟩
      cases n with
      | zero => exact String.toList_inj.mp (by simpa using hn)
      | succ n =>
        -- there are two endings to take off
        refine absurd (Text.endsWith_iff.mpr ⟨vhost ++ String.ofList
          (List.replicate n accessLogSuffix.toList).flatten, ?_⟩) hsingle
        rw [← String.toList_inj, hn]
        simp [List.replicate_succ', List.append_assoc]
    · rintro rfl
      refine ⟨fun hmore => ?_, 0, by simp⟩
      obtain ⟨front, rfl⟩ := Text.endsWith_iff.mp hmore
      exact hsingle (Text.endsWith_iff.mpr ⟨front, String.append_assoc⟩)

/-! ## What lines are filed under -/

/-- The pipeline's resolver with the table, and the entries that were made, each with its file. -/
structure Filed where
  resolver : DbServiceResolver := {}
  entries : List (Path × InsertLogEntry) := []

inductive Label
  /-- A line is processed. -/
  | line (now : DateTime) (statements : Statements) (line : TailLine)
  /-- Another party adds services to the table. -/
  | others (services : Services)

/-- A pipeline over the database, whatever its parsers and its filter are. -/
def pipeline (parsers : ParserRegistry) (filter : NoiseFilter) :
    Pipeline Statements DbServiceResolver where
  parsers := parsers
  filter := filter
  services := DbServiceResolver.serviceResolver

/-- Lines are processed, beside other parties that use the table. -/
def filing (crates : Externals) (parsers : ParserRegistry) (filter : NoiseFilter) :
    Machine Filed Label where
  step s
    | .line now statements line =>
      match (pipeline parsers filter).processLine crates now statements s.resolver line with
      | (.ok (some e), resolver) =>
        some { resolver := resolver, entries := s.entries ++ [(line.filePath, e)] }
      | (_, resolver) => some { s with resolver := resolver }
    | .others services =>
      if s.resolver.services.rows ⊆ services.rows then
        some { s with resolver := { s.resolver with services := services } }
      else none

/-- Every entry of a virtual host's log is filed under the row of that name. -/
structure Invariant (s : Filed) : Prop where
  names : s.resolver.NamesKept
  filed : ∀ path e, (path, e) ∈ s.entries → ∀ vhost ∈ vhostFromFilePath path, ∀ id ∈ e.serviceId,
    ∃ row ∈ s.resolver.services.rows, row.id = id ∧ row.name = vhost

section Filing

variable {crates : Externals} {parsers : ParserRegistry} {filter : NoiseFilter} {s t : Filed}

/-- A step of processing: the resolver is left alone, or asked once for the service of the line. -/
theorem step_line {now : DateTime} {statements : Statements} {line : TailLine}
    (h : (filing crates parsers filter).step s (.line now statements line) = some t) :
    t = s ∨ ∃ entry answer resolver e,
      DbServiceResolver.resolve statements s.resolver (serviceOf line.filePath entry)
        = (answer, resolver) ∧ e.serviceId = answer ∧
      t = { resolver := resolver, entries := s.entries ++ [(line.filePath, e)] } := by
  unfold filing Pipeline.processLine at h
  dsimp only at h
  rcases hparse : (pipeline parsers filter).parseLine now line with e | _ | entry
  · rw [hparse] at h
    exact Or.inl (Option.some.inj h).symm
  · rw [hparse] at h
    exact Or.inl (Option.some.inj h).symm
  · rw [hparse] at h
    exact Or.inr ⟨entry, _, _, _, rfl, rfl, (Option.some.inj h).symm⟩

theorem Invariant.step {label : Label} (h : Invariant s)
    (hstep : (filing crates parsers filter).step s label = some t) : Invariant t := by
  cases label with
  | others services =>
    simp only [filing, Option.ite_none_right_eq_some, Option.some.injEq] at hstep
    obtain ⟨hrows, rfl⟩ := hstep
    refine ⟨fun name id hcache => ?_, fun path e he vhost hvhost id hid => ?_⟩
    · obtain ⟨row, hrow, hrest⟩ := h.names name id hcache
      exact ⟨row, hrows hrow, hrest⟩
    · obtain ⟨row, hrow, hrest⟩ := h.filed path e he vhost hvhost id hid
      exact ⟨row, hrows hrow, hrest⟩
  | line now statements line =>
    rcases step_line hstep with rfl | ⟨entry, answer, resolver, e, hresolve, rfl, rfl⟩
    · exact h
    obtain ⟨hrows, hanswer, -⟩ := h.names.answer hresolve
    refine ⟨h.names.resolve hresolve, fun path e' he vhost hvhost id hid => ?_⟩
    rcases List.mem_append.mp he with hbefore | hnew
    · obtain ⟨row, hrow, hrest⟩ := h.filed path e' hbefore vhost hvhost id hid
      exact ⟨row, hrows hrow, hrest⟩
    · obtain ⟨rfl, rfl⟩ := Prod.mk.inj (List.mem_singleton.mp hnew)
      obtain ⟨row, hrow, hrowId, hname⟩ := hanswer id hid
      refine ⟨row, hrow, hrowId, hname.trans ?_⟩
      rw [serviceOf, hvhost, Option.some_or]

theorem invariant_of_run {services : Services} {labels : List Label}
    (hrun : (filing crates parsers filter).Run { resolver := { services := services } } labels s) :
    Invariant s := by
  refine hrun.invariant ⟨fun name id hcache => ?_, fun path e he => ?_⟩ fun _ _ _ h hstep =>
    h.step hstep
  · cases hcache
  · cases he

/-- **Entries of two hosts' logs are filed under two services.** -/
theorem Invariant.serviceId_ne (h : Invariant s) {p q : Path} {e e' : InsertLogEntry}
    {vhost vhost' : String} (hp : vhostFromFilePath p = some vhost)
    (hq : vhostFromFilePath q = some vhost') (hne : vhost ≠ vhost') (he : (p, e) ∈ s.entries)
    (he' : (q, e') ∈ s.entries) {id : Uuid} (hid : e.serviceId = some id) :
    e'.serviceId ≠ some id := by
  intro hid'
  obtain ⟨row, hrow, hrowId, hname⟩ := h.filed p e he vhost hp id hid
  obtain ⟨row', hrow', hrowId', hname'⟩ := h.filed q e' he' vhost' hq id hid'
  have hsame := s.resolver.services.eq_of_id_eq hrow hrow' (hrowId.trans hrowId'.symm)
  exact hne (hname.symm.trans (hsame ▸ hname'))

end Filing

/-! ## Recovering names -/

/-- A file with the name of an access log. -/
def IsAccessLog (path : Path) : Prop :=
  ∃ name, path.fileName = some name ∧ Text.endsWith name accessLogSuffix = true

/-- Two different access logs in one directory. -/
structure Siblings (p q : Path) : Prop where
  directory : p.dropLast = q.dropLast
  ne : p ≠ q
  left : IsAccessLog p
  right : IsAccessLog q

/-- Names of virtual hosts are recovered exactly: the law for each file, and what the pipeline and
the discovery of sources take from it for two logs in one directory. -/
structure Recovers (files : Set Path) : Prop where
  exact : ∀ path ∈ files, ∀ name, path.fileName = some name →
    ∀ vhost, vhostFromFilePath path = some vhost ↔ name = vhost ++ "-access.log"
  apart : ∀ p ∈ files, ∀ q ∈ files, Siblings p q → vhostFromFilePath p ≠ vhostFromFilePath q
  notMerged : ∀ p ∈ files, ∀ q ∈ files, Siblings p q →
    ∀ crates parsers filter services labels s,
      (filing crates parsers filter).Run { resolver := { services := services } } labels s →
      ∀ e e', (p, e) ∈ s.entries → (q, e') ∈ s.entries →
        ∀ id, e.serviceId = some id → e'.serviceId ≠ some id
  notOneSource : ∀ p ∈ files, ∀ q ∈ files, Siblings p q → ∀ glob fs config,
    TailerState.Discoverable fs (SourceDiscovery.watched glob config.directories) p →
    TailerState.Discoverable fs (SourceDiscovery.watched glob config.directories) q →
    ∃ vhost vhost', vhost ≠ vhost' ∧
      vhostFromFilePath p = some vhost ∧ vhostFromFilePath q = some vhost' ∧
      .vhost vhost ∈ SourceDiscovery.discover glob fs config ∧
      .vhost vhost' ∈ SourceDiscovery.discover glob fs config

/-- Files of one directory with one name are one. -/
theorem eq_of_fileName_eq {p q : Path} (hdir : p.dropLast = q.dropLast) {name : String}
    (hp : p.fileName = some name) (hq : q.fileName = some name) : p = q := by
  have hlast : ∀ {path : Path}, path.fileName = some name →
      path = path.dropLast ++ [.text name] := by
    intro path hpath
    obtain ⟨component, hcomponent, htext⟩ := Option.bind_eq_some_iff.mp hpath
    cases component with
    | raw b => cases htext
    | text s =>
      obtain rfl := Option.some.inj htext
      exact (List.dropLast_append_getLast? _ hcomponent).symm
  rw [hlast hp, hlast hq, hdir]

/-- **Names of virtual hosts are recovered exactly when** no file name ends like a log of a log. -/
theorem recovers_iff (files : Set Path) : Recovers files ↔ ∀ path ∈ files, ∀ name,
    path.fileName = some name → ¬ Text.endsWith name "-access.log-access.log" = true := by
  constructor
  · intro h path hpath name hname
    exact (recovered_iff hname).mp (h.exact path hpath name hname)
  · intro hsingle
    have hexact : ∀ path ∈ files, ∀ name, path.fileName = some name → ∀ vhost,
        vhostFromFilePath path = some vhost ↔ name = vhost ++ "-access.log" :=
      fun path hpath name hname => (recovered_iff hname).mpr (hsingle path hpath name hname)
    -- each of two logs has a virtual host of its own
    have hhosts : ∀ p ∈ files, ∀ q ∈ files, Siblings p q → ∃ vhost vhost', vhost ≠ vhost' ∧
        vhostFromFilePath p = some vhost ∧ vhostFromFilePath q = some vhost' := by
      intro p hp q hq hsiblings
      obtain ⟨name, hname, hends⟩ := hsiblings.left
      obtain ⟨name', hname', hends'⟩ := hsiblings.right
      obtain ⟨vhost, rfl⟩ := Text.endsWith_iff.mp hends
      obtain ⟨vhost', rfl⟩ := Text.endsWith_iff.mp hends'
      refine ⟨vhost, vhost', ?_, (hexact p hp _ hname _).mpr rfl, (hexact q hq _ hname' _).mpr rfl⟩
      rintro rfl
      exact hsiblings.ne (eq_of_fileName_eq hsiblings.directory hname hname')
    refine ⟨hexact, ?_, ?_, ?_⟩
    · intro p hp q hq hsiblings heq
      obtain ⟨vhost, vhost', hne, hvhost, hvhost'⟩ := hhosts p hp q hq hsiblings
      exact hne (Option.some.inj (hvhost.symm.trans (heq.trans hvhost')))
    · intro p hp q hq hsiblings _ _ _ _ _ s hrun e e' he he' id hid
      obtain ⟨vhost, vhost', hne, hvhost, hvhost'⟩ := hhosts p hp q hq hsiblings
      exact (invariant_of_run hrun).serviceId_ne hvhost hvhost' hne he he' hid
    · intro p hp q hq hsiblings glob fs config hdiscoverable hdiscoverable'
      obtain ⟨vhost, vhost', hne, hvhost, hvhost'⟩ := hhosts p hp q hq hsiblings
      exact ⟨vhost, vhost', hne, hvhost, hvhost',
        SourceDiscovery.vhost_mem_discover_iff.mpr ⟨p, hdiscoverable, hvhost⟩,
        SourceDiscovery.vhost_mem_discover_iff.mpr ⟨q, hdiscoverable', hvhost'⟩⟩

/-! ## A log of a log -/

/-- A line that parses becomes an entry. -/
theorem step_of_parseLine (crates : Externals) (statements : Statements) {parsers : ParserRegistry}
    {filter : NoiseFilter} {s : Filed} {now : DateTime} {line : TailLine}
    {entry : ParsedLogEntry} {answer : Option Uuid} {resolver : DbServiceResolver}
    (h : (pipeline parsers filter).parseLine now line = .ok (some entry))
    (hresolve : DbServiceResolver.resolve statements s.resolver (serviceOf line.filePath entry)
      = (answer, resolver)) :
    (filing crates parsers filter).step s (.line now statements line) = some
      { resolver := resolver
        entries := s.entries ++ [(line.filePath, insertEntry crates filter entry answer)] } := by
  have hasked : (pipeline parsers filter).services.resolve statements s.resolver
      (serviceOf line.filePath entry) = (answer, resolver) := hresolve
  have hprocess := Pipeline.processLine_of_parseLine crates statements s.resolver h
  rw [hasked] at hprocess
  simp only [filing, hprocess]
  rfl

/-- **Two files of one virtual host are filed as one**: the second entry gets the id that the first
one made. -/
theorem merged_of_vhost_eq (crates : Externals) {parsers : ParserRegistry} {filter : NoiseFilter}
    {now : DateTime} {line line' : TailLine} {entry entry' : ParsedLogEntry} {vhost : String}
    (hparse : (pipeline parsers filter).parseLine now line = .ok (some entry))
    (hparse' : (pipeline parsers filter).parseLine now line' = .ok (some entry'))
    (hvhost : vhostFromFilePath line.filePath = some vhost)
    (hvhost' : vhostFromFilePath line'.filePath = some vhost) (statements : Statements)
    (hlookup : statements.lookup = .ok ()) {id : Uuid} (hinsert : statements.insert = .ok id) :
    ∃ s e e', (filing crates parsers filter).Run {}
        [.line now statements line, .line now statements line'] s ∧
      s.entries = [(line.filePath, e), (line'.filePath, e')] ∧
      e.serviceId = some id ∧ e'.serviceId = some id := by
  have hname : ∀ {path : Path} (entry : ParsedLogEntry), vhostFromFilePath path = some vhost →
      (serviceOf path entry).name = vhost := by
    intro path entry hpath
    rw [serviceOf, hpath, Option.some_or]
  obtain ⟨resolver, hfirst, hkept⟩ := DbServiceResolver.resolve_of_fresh {}
    (serviceOf line.filePath entry) rfl hlookup hinsert List.not_mem_nil
    (fun _ hrow => (List.not_mem_nil hrow).elim)
  -- the second line asks for the same name, and the answer to the first was kept
  have hsecond := DbServiceResolver.resolve_of_kept statements
    ((congrArg resolver.cache ((hname entry' hvhost').trans (hname entry hvhost).symm)).trans hkept)
  have hrun := (Machine.Run.nil.snoc (step_of_parseLine (s := {}) crates statements hparse
    hfirst)).snoc (step_of_parseLine crates statements hparse' hsecond)
  exact ⟨_, _, _, hrun, rfl, rfl, rfl⟩

/-- The log of a virtual host that is named like the log of the shop. -/
def doubledLog : Path :=
  Path.join [.text "var", .text "log", .text "nginx"] "shop.example-access.log-access.log"

/-- **A log of a log is taken for the log of the shop**, its entries are filed under the shop's
service, and so the names of the two are not recovered. -/
theorem not_recovers_doubled : vhostFromFilePath doubledLog = some "shop.example" ∧
    doubledLog.fileName = some ("shop.example-access.log" ++ "-access.log") ∧
    vhostFromFilePath shopLog = some "shop.example" ∧ Siblings shopLog doubledLog ∧
    (∃ labels s e e', (filing newYearCrates (ParserRegistry.defaultRegistry newYearCrates)
        (NoiseFilter.fromConfig .default)).Run {} labels s ∧
      s.entries = [(shopLog, e), (doubledLog, e')] ∧
      e.serviceId = some 7 ∧ e'.serviceId = some 7) ∧
    ¬ Recovers {shopLog, doubledLog} := by
  have hvhost : vhostFromFilePath doubledLog = some "shop.example" := by decide
  have hshop : vhostFromFilePath shopLog = some "shop.example" := by decide
  refine ⟨hvhost, by decide, hshop, ⟨by decide, by decide, ⟨_, Path.fileName_join _ _, by decide⟩,
    ⟨_, Path.fileName_join _ _, by decide⟩⟩, ?_, fun h => ?_⟩
  · have hparse : ∀ path, (ParserRegistry.defaultRegistry newYearCrates).forPath path
        = nginxAccessParser newYearCrates →
        (pipeline (ParserRegistry.defaultRegistry newYearCrates)
          (NoiseFilter.fromConfig .default)).parseLine newYear { shopLine with filePath := path }
          = .ok (some shopEntry) := fun path hpath =>
      parseLine_of_nginx .default DbServiceResolver.serviceResolver newYear hpath parse_shopLine
    obtain ⟨s, e, e', hrun, hrest⟩ := merged_of_vhost_eq newYearCrates (hparse shopLog rfl)
      (hparse doubledLog rfl) hshop hvhost { insert := .ok 7 } rfl rfl
    exact ⟨_, s, e, e', hrun, hrest⟩
  · have hlaw := (h.exact doubledLog (Or.inr rfl) _ (Path.fileName_join _ _)
      "shop.example-access.log").mpr (by decide)
    exact absurd hlaw (by decide)

end VhostNames

end Sentinalysis.LogScanner
