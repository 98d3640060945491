/-
# Sentinalysis.Daemon.Listing — from the lines that daemons read to the lists of the viewer.

Daemons run one after the other on the same tables; each begins with an empty cache, and what it has
not stored when it ends is lost.  A line is filed under a source, by the name of its file or of its
virtual host, but the tables know a service by its name alone: the first line whose service was
resolved under a name decides in which list all lines of that name are found.

Main result: what the viewer gets for a source, and when that is what was read for it (`recent_eq`).
-/
import Sentinalysis.LogScanner.DbServiceResolver
import Sentinalysis.LogScanner.Scanner
import Sentinalysis.LogScanner.SourceDiscovery
import Sentinalysis.Tui.Data

namespace Sentinalysis.Daemon

open Lib Db LogScanner Tui DbServiceResolver SourceDiscovery

/-- A line of which an entry was made: the source of the line, and the entry. -/
structure Filed where
  source : Source
  entry : InsertLogEntry
  deriving DecidableEq, Repr

section Filing

variable (crates : Externals) (noise : NoiseFilterConfig)

/-- The source of a consumed line that parses. -/
def eventSource : Consumed Statements → Option Source
  | (now, _, .ok line) =>
    ((buildPipeline crates noise).parseLine now line).toOption.join.map fun entry =>
      sourceOf (serviceOf line.filePath entry)
  | (_, _, .error _) => none

/-- The lines of which entries were made, and the resolver that is left. -/
def fileEvents (resolver : DbServiceResolver) : List (Consumed Statements) →
    List Filed × DbServiceResolver
  | [] => ([], resolver)
  | event :: events =>
    let (entry, next) := (buildPipeline crates noise).processEvent crates resolver event
    let filed := (eventSource crates noise event).bind fun source => entry.map (Filed.mk source)
    let (rest, last) := fileEvents next events
    (filed.toList ++ rest, last)

end Filing

/-- A daemon: its configuration, what happened to its scanner, and where that left it. -/
structure Life where
  noise : NoiseFilterConfig
  policy : Scanner.Batching
  labels : List (Scanner.Label Statements)
  last : Scanner.State Statements DbServiceResolver

namespace Life

variable (crates : Externals) (life : Life)

/-- The lines it made entries of. -/
def filed (services : Services) : List Filed :=
  (fileEvents crates life.noise { services := services } life.last.consumed).1

/-- Those whose entries it stored. -/
def written (services : Services) : List Filed :=
  (life.filed crates services).take life.last.stored.flatten.length

end Life

/-- One daemon after the other, from one state of the services to another. -/
def Succession (crates : Externals) : Services → List Life → Services → Prop
  | services, [], final => final = services
  | services, life :: lives, final =>
    (Scanner.run crates (buildPipeline crates life.noise) life.policy).Run
        { resolver := { services := services } } life.labels life.last ∧
      Succession crates life.last.resolver.services lives final

/-- All lines of which entries were made. -/
def filed (crates : Externals) : Services → List Life → List Filed
  | _, [] => []
  | services, life :: lives =>
    life.filed crates services ++ filed crates life.last.resolver.services lives

/-- All lines whose entries were stored. -/
def written (crates : Externals) : Services → List Life → List Filed
  | _, [] => []
  | services, life :: lives =>
    life.written crates services ++ written crates life.last.resolver.services lives

/-- The source of the first line that was resolved under a name. -/
def owner (lines : List Filed) (name : String) : Option Source :=
  (lines.find? fun line => line.source.name = name ∧ line.entry.serviceId.isSome).map Filed.source

/-- The list of a source: the rows of the lines that were resolved, where the name is its own. -/
def listed (lines : List Filed) (source : Source) (rows : List (Filed × LogEntry)) :
    List DisplayLogEntry :=
  rows.filterMap fun (line, row) =>
    if line.entry.serviceId.isSome ∧ owner lines line.source.name = some source then
      some (rowToDisplay (logEntryRow row source.name))
    else none

/-- The rows of the lines of a source that were resolved. -/
def own (source : Source) (rows : List (Filed × LogEntry)) : List DisplayLogEntry :=
  rows.filterMap fun (line, row) =>
    if line.entry.serviceId.isSome ∧ line.source = source then
      some (rowToDisplay (logEntryRow row source.name))
    else none

/-! ## The names of services -/

/-- The lists of no other source select the service. -/
def SelectedBy (service : Service) (source : Source) : Prop :=
  ∀ other : Source, selects other.kind other.name service = true ↔ other = source

/-- A service has the name of its source. -/
theorem name_sourceOf_serviceOf (filePath : Path) (entry : ParsedLogEntry) :
    (sourceOf (serviceOf filePath entry)).name = (serviceOf filePath entry).name := by
  unfold serviceOf
  split <;> rfl

/-- The row that is made for a line is selected by the source of the line. -/
theorem selectedBy_newService (filePath : Path) (entry : ParsedLogEntry) (id : Uuid) :
    SelectedBy (ServiceRepository.newService (serviceOf filePath entry).insertService id)
      (sourceOf (serviceOf filePath entry)) := by
  rintro ⟨name, kind⟩
  unfold serviceOf
  split <;> cases kind <;>
    simp [selects, ServiceRepository.newService, ServiceMeta.insertService, sourceOf, Source.vhost,
      Source.systemLog, eq_comm]

theorem owner_append (lines : List Filed) (line : Filed) (name : String) :
    owner (lines ++ [line]) name = (owner lines name).or
      (if line.source.name = name ∧ line.entry.serviceId.isSome then some line.source
      else none) := by
  unfold owner
  rw [List.find?_append, Option.map_or]
  congr 1
  by_cases h : line.source.name = name ∧ line.entry.serviceId.isSome <;> simp [h]

/-- An owner stays. -/
theorem owner_append_of_some {lines : List Filed} {line : Filed} {name : String} {source : Source}
    (h : owner lines name = some source) : owner (lines ++ [line]) name = some source := by
  rw [owner_append, h, Option.some_or]

theorem mem_of_owner {lines : List Filed} {name : String} {source : Source}
    (h : owner lines name = some source) :
    ∃ line ∈ lines, line.source = source ∧ line.source.name = name ∧
      line.entry.serviceId.isSome := by
  obtain ⟨line, hfind, rfl⟩ := Option.map_eq_some_iff.mp h
  have hboth := List.find?_some hfind
  obtain ⟨hname, hresolved⟩ := of_decide_eq_true hboth
  exact ⟨line, List.mem_of_find?_eq_some hfind, rfl, hname, hresolved⟩

/-! ## What the tables know of the lines -/

/-- Every resolved line has a row of its name, and every row is selected by the owner of its
name. -/
structure Kept (lines : List Filed) (resolver : DbServiceResolver) : Prop where
  names : resolver.NamesKept
  resolved : ∀ line ∈ lines, ∀ id ∈ line.entry.serviceId,
    ∃ row ∈ resolver.services.rows, row.id = id ∧ row.name = line.source.name
  owned : ∀ row ∈ resolver.services.rows,
    ∃ source, owner lines row.name = some source ∧ SelectedBy row source

namespace Kept

variable {crates : Externals} {noise : NoiseFilterConfig} {lines : List Filed}
  {resolver : DbServiceResolver}

/-- A daemon begins with an empty cache. -/
theorem restart (h : Kept lines resolver) : Kept lines { services := resolver.services } where
  names := fun _ _ hkept => by cases hkept
  resolved := h.resolved
  owned := h.owned

/-- A line that found no service is in no list. -/
theorem append_none {line : Filed} (h : Kept lines resolver) (hnone : line.entry.serviceId = none) :
    Kept (lines ++ [line]) resolver where
  names := h.names
  resolved := by
    rw [List.forall_mem_append, List.forall_mem_singleton, hnone]
    exact ⟨h.resolved, fun _ hid => by cases hid⟩
  owned := by
    intro row hrow
    obtain ⟨source, howner, hselected⟩ := h.owned row hrow
    exact ⟨source, owner_append_of_some howner, hselected⟩

/-- A line whose name has a row already; the cache may have learned of it. -/
theorem append_found {line : Filed} {next : DbServiceResolver} {row : Service}
    (h : Kept lines resolver) (hnames : next.NamesKept)
    (hservices : next.services = resolver.services) (hrow : row ∈ resolver.services.rows)
    (hname : row.name = line.source.name) (hid : line.entry.serviceId = some row.id) :
    Kept (lines ++ [line]) next where
  names := hnames
  resolved := by
    rw [hservices, List.forall_mem_append, List.forall_mem_singleton, hid]
    refine ⟨h.resolved, ?_⟩
    rintro _ ⟨⟩
    exact ⟨row, hrow, rfl, hname⟩
  owned := by
    rw [hservices]
    intro other hother
    obtain ⟨source, howner, hselected⟩ := h.owned other hother
    exact ⟨source, owner_append_of_some howner, hselected⟩

/-- A line whose name is new: its row is made, and it owns the name. -/
theorem append_made {line : Filed} {next : DbServiceResolver} {row : Service}
    (h : Kept lines resolver) (hnames : next.NamesKept)
    (hservices : next.services.rows = resolver.services.rows ++ [row])
    (hname : row.name = line.source.name) (hfresh : ∀ other ∈ resolver.services.rows,
      other.name ≠ line.source.name)
    (hid : line.entry.serviceId = some row.id) (hselected : SelectedBy row line.source) :
    Kept (lines ++ [line]) next where
  names := hnames
  resolved := by
    rw [hservices, List.forall_mem_append, List.forall_mem_singleton, hid]
    constructor
    · intro other hother id hotherId
      obtain ⟨found, hfound, hboth⟩ := h.resolved other hother id hotherId
      exact ⟨found, List.mem_append_left _ hfound, hboth⟩
    · rintro _ ⟨⟩
      exact ⟨row, List.mem_append_right _ (List.mem_singleton_self _), rfl, hname⟩
  owned := by
    -- without a row of its name, no line before it was resolved under it
    have hnone : owner lines line.source.name = none := by
      cases howner : owner lines line.source.name with
      | none => rfl
      | some source =>
        obtain ⟨other, hother, -, hotherName, hresolved⟩ := mem_of_owner howner
        obtain ⟨id, hotherId⟩ := Option.isSome_iff_exists.mp hresolved
        obtain ⟨found, hfound, -, hfoundName⟩ := h.resolved other hother id hotherId
        exact absurd (hfoundName.trans hotherName) (hfresh found hfound)
    rw [hservices, List.forall_mem_append, List.forall_mem_singleton]
    constructor
    · intro other hother
      obtain ⟨source, howner, hsource⟩ := h.owned other hother
      exact ⟨source, owner_append_of_some howner, hsource⟩
    · refine ⟨line.source, ?_, hselected⟩
      rw [hname, owner_append, hnone, Option.none_or, if_pos ⟨rfl, by rw [hid]; rfl⟩]

/-- What asking for the service of a line comes to: nothing, the row of that name, or a new row. -/
theorem resolve_cases {statements : Statements} {next : DbServiceResolver} {service : ServiceMeta}
    {answer : Option Uuid} (h : Kept lines resolver)
    (hresolve : DbServiceResolver.resolve statements resolver service = (answer, next)) :
    (answer = none ∧ next = resolver) ∨
      (∃ row ∈ resolver.services.rows, row.name = service.name ∧ answer = some row.id ∧
        next.services = resolver.services) ∨
      ∃ id, (∀ row ∈ resolver.services.rows, row.name ≠ service.name) ∧ answer = some id ∧
        next.services.rows = resolver.services.rows
          ++ [ServiceRepository.newService service.insertService id] := by
  cases hcached : resolver.cache service.name with
  | some id =>
    rw [resolve_of_kept statements hcached] at hresolve
    obtain ⟨rfl, rfl⟩ := Prod.mk.inj hresolve
    obtain ⟨row, hrow, rfl, hname⟩ := h.names service.name id hcached
    exact Or.inr (Or.inl ⟨row, hrow, hname, rfl, rfl⟩)
  | none =>
    -- the database is asked; the cache learns of the answer, and the table of a new row
    simp only [DbServiceResolver.resolve, hcached] at hresolve
    rcases ServiceRepository.getOrCreate_cases resolver.services service.insertService statements
      with ⟨e, hcall⟩ | ⟨row, hrow, hname, -, hcall⟩ | ⟨id, services, hfresh, hrows, hcall⟩
    · rw [hcall] at hresolve
      obtain ⟨rfl, rfl⟩ := Prod.mk.inj hresolve
      exact Or.inl ⟨rfl, rfl⟩
    · rw [hcall] at hresolve
      obtain ⟨rfl, rfl⟩ := Prod.mk.inj hresolve
      exact Or.inr (Or.inl ⟨row, hrow, hname, rfl, rfl⟩)
    · rw [hcall] at hresolve
      obtain ⟨rfl, rfl⟩ := Prod.mk.inj hresolve
      exact Or.inr (Or.inr ⟨id, hfresh, rfl, hrows⟩)

end Kept

/-! ## One daemon -/

section Events

variable {crates : Externals} {noise : NoiseFilterConfig} {lines : List Filed}
  {resolver : DbServiceResolver}

/-- An event yields nothing, or an entry with the answer of the resolver. -/
theorem processEvent_cases (crates : Externals) (noise : NoiseFilterConfig)
    (resolver : DbServiceResolver) (event : Consumed Statements) :
    (eventSource crates noise event = none ∧
      (buildPipeline crates noise).processEvent crates resolver event = (none, resolver)) ∨
    ∃ (filePath : Path) (parsed : ParsedLogEntry) (statements : Statements) (e : InsertLogEntry)
        (next : DbServiceResolver),
      eventSource crates noise event = some (sourceOf (serviceOf filePath parsed)) ∧
      resolve statements resolver (serviceOf filePath parsed) = (e.serviceId, next) ∧
      (buildPipeline crates noise).processEvent crates resolver event = (some e, next) := by
  obtain ⟨now, statements, e | line⟩ := event
  · exact Or.inl ⟨rfl, rfl⟩
  cases hparse : (buildPipeline crates noise).parseLine now line with
  | error e =>
    refine Or.inl ⟨by simp [eventSource, hparse, Except.toOption], ?_⟩
    simp [Pipeline.processEvent, Pipeline.processLine, hparse, Except.toOption]
  | ok parsed =>
    cases parsed with
    | none =>
      refine Or.inl ⟨by simp [eventSource, hparse, Except.toOption], ?_⟩
      simp [Pipeline.processEvent, Pipeline.processLine, hparse, Except.toOption]
    | some parsed =>
      have hline := Pipeline.processLine_of_parseLine crates statements resolver hparse
      let answer := resolve statements resolver (serviceOf line.filePath parsed)
      refine Or.inr ⟨line.filePath, parsed, statements,
        insertEntry crates (buildPipeline crates noise).filter parsed answer.1, answer.2,
        by simp [eventSource, hparse, Except.toOption], rfl, ?_⟩
      simp only [Pipeline.processEvent, hline]
      rfl

/-- The entries of the lines are those that the scanner makes of the events. -/
theorem fileEvents_eq (crates : Externals) (noise : NoiseFilterConfig)
    (resolver : DbServiceResolver) (events : List (Consumed Statements)) :
    ((fileEvents crates noise resolver events).1.map Filed.entry,
        (fileEvents crates noise resolver events).2)
      = (buildPipeline crates noise).processEvents crates resolver events := by
  induction events generalizing resolver with
  | nil => rfl
  | cons event events ih =>
    simp only [fileEvents, Pipeline.processEvents]
    rw [← ih]
    rcases processEvent_cases crates noise resolver event with
      ⟨hsource, hevent⟩ | ⟨_, _, _, e, next, hsource, -, hevent⟩
    · rw [hsource, hevent]
      simp
    · rw [hsource, hevent]
      simp

/-- **One event keeps what the tables know.** -/
theorem Kept.processEvent (h : Kept lines resolver) (crates : Externals)
    (noise : NoiseFilterConfig) (event : Consumed Statements) :
    Kept (lines ++ (fileEvents crates noise resolver [event]).1)
      (fileEvents crates noise resolver [event]).2 := by
  simp only [fileEvents, List.append_nil]
  rcases processEvent_cases crates noise resolver event with
    ⟨hsource, hevent⟩ | ⟨filePath, parsed, statements, e, next, hsource, hresolve, hevent⟩
  · rw [hsource, hevent]
    simpa using h
  · rw [hsource, hevent]
    have hname := name_sourceOf_serviceOf filePath parsed
    have hnames := h.names.resolve hresolve
    dsimp only [Option.bind_some, Option.map_some, Option.toList_some]
    rcases h.resolve_cases hresolve with
      ⟨hnone, rfl⟩ | ⟨row, hrow, hrowName, hid, hservices⟩ | ⟨id, hfresh, hid, hservices⟩
    · exact h.append_none hnone
    · exact h.append_found hnames hservices hrow (hrowName.trans hname.symm) hid
    · refine h.append_made hnames hservices hname.symm ?_ hid ?_
      · exact fun other hother heq => hfresh other hother (heq.trans hname)
      · exact selectedBy_newService filePath parsed id

/-- The induction is on the events. -/
theorem Kept.fileEvents (h : Kept lines resolver) (crates : Externals)
    (noise : NoiseFilterConfig) (events : List (Consumed Statements)) :
    Kept (lines ++ (Daemon.fileEvents crates noise resolver events).1)
      (Daemon.fileEvents crates noise resolver events).2 := by
  induction events generalizing lines resolver with
  | nil => simpa [Daemon.fileEvents] using h
  | cons event events ih =>
    have hnext := ih (h.processEvent crates noise event)
    simpa [Daemon.fileEvents] using hnext

end Events

/-! ## One daemon after the other -/

section Lives

variable {crates : Externals} {lives : List Life} {services final : Services} {lines : List Filed}

/-- What is left of a daemon: its resolver, and what it stored as the beginning of what it made. -/
theorem Life.conserved {life : Life}
    (hrun : (Scanner.run crates (buildPipeline crates life.noise) life.policy).Run
      { resolver := { services := services } } life.labels life.last) :
    (fileEvents crates life.noise { services := services } life.last.consumed).2
        = life.last.resolver ∧
      (life.written crates services).map Filed.entry = life.last.stored.flatten := by
  have hstart : Scanner.Conserved crates (buildPipeline crates life.noise)
      { services := services } { resolver := { services := services } } :=
    ⟨rfl, rfl, by intro entries isFinal h; cases h⟩
  have hconserved := hrun.invariant hstart fun _ _ _ h hstep => h.step hstep
  have hfiled := fileEvents_eq crates life.noise { services := services } life.last.consumed
  constructor
  · rw [hconserved.resolver, ← hfiled]
  · have hentries : life.last.stored.flatten ++ life.last.pending
        = (life.filed crates services).map Filed.entry :=
      hconserved.entries.trans (congrArg Prod.fst hfiled.symm)
    rw [Life.filed] at hentries
    rw [Life.written, Life.filed, List.map_take, ← hentries, List.take_left]

/-- The induction is on the daemons. -/
theorem Kept.succession (h : Kept lines { services := services })
    (hlives : Succession crates services lives final) :
    Kept (lines ++ filed crates services lives) { services := final } := by
  induction lives generalizing lines services with
  | nil =>
    obtain rfl : final = services := hlives
    simpa [filed] using h
  | cons life lives ih =>
    obtain ⟨hrun, hrest⟩ := hlives
    have hfiled := h.fileEvents crates life.noise life.last.consumed
    rw [(Life.conserved hrun).1] at hfiled
    have hnext := ih hfiled.restart hrest
    rwa [List.append_assoc] at hnext

/-- What was stored was made before. -/
theorem written_subset_filed (crates : Externals) (services : Services) (lives : List Life) :
    written crates services lives ⊆ filed crates services lives := by
  induction lives generalizing services with
  | nil => exact List.Subset.refl _
  | cons life lives ih =>
    intro line hline
    rcases List.mem_append.mp hline with hline | hline
    · exact List.mem_append_left _ (List.mem_of_mem_take hline)
    · exact List.mem_append_right _ (ih _ hline)

end Lives

/-! ## The lists -/

section Lists

variable {crates : Externals} {lives : List Life} {lines : List Filed} {store : LogStore}

/-- The row of a line is in the list of the source that owns its name, and in no other. -/
theorem Kept.rowOf_eq {resolver : DbServiceResolver} (h : Kept lines resolver)
    (hservices : store.services = resolver.services) {line : Filed} (hline : line ∈ lines)
    {row : LogEntry} (hid : row.serviceId = line.entry.serviceId) (source : Source) :
    (store.rowOf source.kind source.name row).map rowToDisplay =
      if line.entry.serviceId.isSome ∧ owner lines line.source.name = some source then
        some (rowToDisplay (logEntryRow row source.name))
      else none := by
  unfold LogStore.rowOf LogStore.serviceOf
  rw [hid]
  cases hservice : line.entry.serviceId with
  | none => simp
  | some id =>
    obtain ⟨service, hmem, rfl, hname⟩ := h.resolved line hline id hservice
    obtain ⟨first, howner, hselected⟩ := h.owned service hmem
    rw [← hservices] at hmem
    rw [Option.bind_some, store.services.findId_of_mem hmem, ← hname, howner]
    by_cases hsource : first = source
    · have hselects := (hselected source).mpr hsource.symm
      rw [Option.filter_some_pos hselects, if_pos ⟨rfl, by rw [hsource]⟩]
      rfl
    · rw [Option.filter_some_neg, if_neg (by simp [hsource])]
      · rfl
      · rw [Bool.eq_false_iff]
        exact fun hselects => hsource ((hselected source).mp hselects).symm

/-- Lists that agree in something are walked together. -/
theorem filterMap_zip_congr {rows : List LogEntry} {P : Filed × LogEntry → Option DisplayLogEntry}
    {f : LogEntry → Option DisplayLogEntry}
    (h : rows.map (·.serviceId) = lines.map (·.entry.serviceId))
    (hf : ∀ line ∈ lines, ∀ row : LogEntry, row.serviceId = line.entry.serviceId →
      f row = P (line, row)) :
    rows.filterMap f = (lines.zip rows).filterMap P := by
  induction lines generalizing rows with
  | nil =>
    obtain rfl : rows = [] := List.map_eq_nil_iff.mp h
    rfl
  | cons line lines ih =>
    obtain ⟨row, rest, rfl, hrow, hrest⟩ := List.map_eq_cons_iff.mp h
    rw [List.forall_mem_cons] at hf
    rw [List.zip_cons_cons, List.filterMap_cons, List.filterMap_cons, hf.1 row hrow,
      ih hrest hf.2]

/-- A list is the own one of its source when all of its names are owned so. -/
theorem listed_eq_own {rows : List (Filed × LogEntry)} (source : Source)
    (h : ∀ pair ∈ rows, pair.1.entry.serviceId.isSome →
      owner lines pair.1.source.name = some pair.1.source) :
    listed lines source rows = own source rows := by
  refine List.filterMap_congr fun ⟨line, row⟩ hpair => ?_
  dsimp only
  by_cases hresolved : line.entry.serviceId.isSome
  · rw [h (line, row) hpair hresolved]
    simp
  · rw [if_neg (by simp [hresolved]), if_neg (by simp [hresolved])]

/-- A row of its own list that is in the list is there for its own line. -/
theorem owner_of_listed_eq_own {rows : List (Filed × LogEntry)} {pair : Filed × LogEntry}
    (hids : (rows.map fun pair => pair.2.id).Nodup) (hpair : pair ∈ rows)
    (hresolved : pair.1.entry.serviceId.isSome)
    (h : listed lines pair.1.source rows = own pair.1.source rows) :
    owner lines pair.1.source.name = some pair.1.source := by
  have hmem : rowToDisplay (logEntryRow pair.2 pair.1.source.name) ∈ own pair.1.source rows :=
    List.mem_filterMap.mpr ⟨pair, hpair, if_pos ⟨hresolved, rfl⟩⟩
  rw [← h] at hmem
  obtain ⟨other, hother, hdisplay⟩ := List.mem_filterMap.mp hmem
  simp only [Option.ite_none_right_eq_some] at hdisplay
  obtain ⟨⟨-, howner⟩, hdisplay⟩ := hdisplay
  have hid : other.2.id = pair.2.id := congrArg DisplayLogEntry.id (Option.some.inj hdisplay)
  rwa [Table.eq_of_nodup_map hids hother hpair hid] at howner

/-- **The lists of the viewer**, after daemons that had the tables for themselves, with a row for
each entry that was stored and its service: a source has the rows of all stored lines whose name it
owns.  These are the lines of the source itself exactly when no stored line was resolved under a
name that an earlier line of another source owns. -/
theorem recent_eq (hlives : Succession crates {} lives store.services)
    (hstored : store.entries.map (·.serviceId)
      = (written crates {} lives).map (·.entry.serviceId)) :
    let lines := filed crates {} lives
    let rows := (written crates {} lives).zip store.entries
    (∀ source limit, (pgLogDataSource store none).recent source limit
      = .ok (Window.newest DisplayLogEntry.cursor limit (listed lines source rows))) ∧
    ((∀ source, listed lines source rows = own source rows) ↔
      ∀ line ∈ written crates {} lives, line.entry.serviceId.isSome →
        owner lines line.source.name = some line.source) := by
  intro lines rows
  have hstart : Kept [] { services := {} } :=
    ⟨fun _ _ h => (by cases h), fun _ h => (by cases h), fun _ h => (by cases h)⟩
  have hkept := hstart.succession hlives
  rw [List.nil_append] at hkept
  -- lines and rows are as many, so that neither list is cut where they are walked together
  have hlength : (written crates {} lives).length = store.entries.length := by
    rw [← List.length_map (·.entry.serviceId), ← hstored, List.length_map]
  refine ⟨?_, ?_, ?_⟩
  · intro source limit
    rw [(pgLogDataSource_serves store source).recent limit, storedEntries, LogStore.rows,
      List.map_filterMap]
    refine congrArg (fun list => Except.ok (Window.newest _ limit list)) ?_
    refine filterMap_zip_congr hstored fun line hline row hid => ?_
    exact hkept.rowOf_eq rfl (written_subset_filed crates {} lives hline) hid source
  · intro hown line hline hresolved
    -- an id has one row, so a row of the list is there for its own line
    have hids : rows.map (fun pair => pair.2.id) = store.entries.map LogEntry.id := by
      rw [← List.map_snd_zip hlength.ge, List.map_map]
      rfl
    obtain ⟨row, hpair⟩ : ∃ row, (line, row) ∈ rows := by
      rw [← List.map_fst_zip hlength.le] at hline
      obtain ⟨⟨_, row⟩, hpair, rfl⟩ := List.mem_map.mp hline
      exact ⟨row, hpair⟩
    exact owner_of_listed_eq_own (hids ▸ store.ids) hpair hresolved (hown line.source)
  · intro howned source
    exact listed_eq_own source fun pair hpair => howned pair.1 (List.of_mem_zip hpair).1

end Lists

/-- The rows of entries that are stored one after the other. -/
def numbered (entries : List InsertLogEntry) : List LogEntry :=
  entries.zipIdx.map fun (entry, id) => { entry with id := id }

theorem serviceId_numbered (entries : List InsertLogEntry) :
    (numbered entries).map (·.serviceId) = entries.map (·.serviceId) := by
  have hentries : entries.map (·.serviceId) = (entries.zipIdx.map Prod.fst).map (·.serviceId) := by
    rw [List.zipIdx_map_fst]
  rw [hentries, numbered, List.map_map, List.map_map]
  rfl

theorem nodup_ids_numbered (entries : List InsertLogEntry) :
    ((numbered entries).map LogEntry.id).Nodup := by
  have hids : (numbered entries).map LogEntry.id = entries.zipIdx.map Prod.snd := by
    rw [numbered, List.map_map]
    rfl
  rw [hids, List.zipIdx_map_snd]
  exact List.nodup_range'

/-- A daemon reads the line of a virtual host and stores its entry. -/
def readsShopLine (insert : Except SentinelError Uuid) : List (Scanner.Label Statements) :=
  [.send (.ok shopLine), .recv newYear { insert := insert }, .tick, .inserted]

/-- The first daemon makes the row of the service, the second one finds it. -/
theorem recent_eq_twoDaemons : ∃ lives store,
    Succession newYearCrates {} lives store.services ∧
    lives.map Life.labels = [readsShopLine (.ok 7), readsShopLine (.error (.Internal "unused"))] ∧
    ∀ source limit, (pgLogDataSource store none).recent source limit
      = .ok (Window.newest DisplayLogEntry.cursor limit (listed (filed newYearCrates {} lives)
        source ((written newYearCrates {} lives).zip store.entries))) := by
  let daemon := Scanner.run newYearCrates (buildPipeline newYearCrates .default) ⟨100, true⟩
  let second := readsShopLine (.error (.Internal "unused"))
  have hexec : ((daemon.exec { resolver := {} } (readsShopLine (.ok 7))).any fun t =>
      (daemon.exec { resolver := { services := t.resolver.services } } second).isSome) = true := by
    decide +kernel
  obtain ⟨first, hfirst, hnext⟩ := Machine.exists_run_any hexec
  obtain ⟨last, hlast⟩ := Machine.exists_run hnext
  let lives : List Life := [⟨.default, ⟨100, true⟩, readsShopLine (.ok 7), first⟩,
    ⟨.default, ⟨100, true⟩, second, last⟩]
  let entries := (written newYearCrates {} lives).map Filed.entry
  let store : LogStore := ⟨last.resolver.services, numbered entries, nodup_ids_numbered entries⟩
  have hlives : Succession newYearCrates {} lives store.services := ⟨hfirst, hlast, rfl⟩
  refine ⟨lives, store, hlives, rfl, (recent_eq hlives ?_).1⟩
  exact (serviceId_numbered entries).trans (List.map_map ..)

end Sentinalysis.Daemon
