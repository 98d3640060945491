/-
# Sentinalysis.Hub.Linked — stored entries and the calls their services come from.

A request to the hub and a line of the daemon are runs of `ServiceIdentity.run`: what they link
their entries to are answered calls of it.
-/
import Sentinalysis.Hub.ServiceIdentity

namespace Sentinalysis.Hub.ServiceIdentity

open Lib Db LogScanner

/-! ## A request -/

/-- The service under which an entry of a request is filed. -/
def FiledUnder (req : LogsRequest) (entry : InsertLogEntry) (service : InsertService) : Prop :=
  (∃ line ∈ req.lines, ∃ clock hostname checked,
    validateLogLine clock line hostname = .ok checked ∧
      entry = { checked with serviceId := entry.serviceId } ∧
      service = containerService line.container) ∨
  ∃ parsed ∈ req.parsedLines, ∃ clock hostname ingest,
    validateParsedEntry clock parsed hostname = .ok ingest ∧
      entry = { ingest.entry with serviceId := entry.serviceId } ∧ service = parsedService ingest

/-- A run is where a request is: at its table and its cache, and every entry that has a service has
it from an answered call. -/
structure Tracks (req : LogsRequest) (request : ℕ) (t : State) (s : Ingestion) : Prop where
  services : t.services = s.services
  serviceCache : t.requests request = s.serviceCache
  linked : ∀ entry ∈ s.entries, ∀ id, entry.serviceId = some id →
    ∃ service, FiledUnder req entry service ∧ (service, id) ∈ t.answered

/-- The run can be continued to where the request is. -/
def CanReach (req : LogsRequest) (request : ℕ) (t : State) (s : Ingestion) : Prop :=
  ∃ labels u, run.Run t labels u ∧ Tracks req request u s

variable {req : LogsRequest} {request : ℕ} {t : State} {s : Ingestion}

/-- Filing an entry is one call. -/
theorem Tracks.file (h : Tracks req request t s) (statements : Statements)
    {checked : InsertLogEntry} {service : InsertService}
    (hfiled : ∀ resolved, FiledUnder req { checked with serviceId := resolved } service) :
    CanReach req request t (s.file statements checked service) := by
  rcases hcall : resolveService statements s.services s.serviceCache service with
    ⟨resolved, services, serviceCache⟩
  rw [← h.services, ← h.serviceCache] at hcall
  have hstep := step_hubResolve hcall
  refine ⟨[.hubResolve request service statements], _, .cons hstep .nil, ?_⟩
  simp only [Ingestion.file, ← h.services, ← h.serviceCache, hcall]
  refine ⟨rfl, Function.update_self .., ?_⟩
  intro entry hentry id hid
  rcases List.mem_append.mp hentry with hbefore | hnew
  · obtain ⟨service', hfiled', hanswered⟩ := h.linked entry hbefore id hid
    exact ⟨service', hfiled', List.mem_append_left _ hanswered⟩
  · obtain rfl := List.mem_singleton.mp hnew
    refine ⟨service, hfiled resolved, List.mem_append_right _ ?_⟩
    obtain rfl : resolved = some id := hid
    exact List.mem_singleton.mpr rfl

/-- A rejected line leaves everything but the count as it is. -/
theorem Tracks.reject (h : Tracks req request t s) :
    Tracks req request t { s with rejected := s.rejected + 1 } :=
  ⟨h.services, h.serviceCache, h.linked⟩

theorem Tracks.line (h : Tracks req request t s) (hostname : String) (env : LineEnv)
    {line : LogLine} (hline : line ∈ req.lines) :
    CanReach req request t (s.line hostname env line) := by
  unfold Ingestion.line
  cases hchecked : validateLogLine env.clock line hostname with
  | error reason => exact ⟨[], t, .nil, h.reject⟩
  | ok checked =>
    exact h.file env.statements fun _ =>
      Or.inl ⟨line, hline, env.clock, hostname, checked, hchecked, rfl, rfl⟩

theorem Tracks.parsed (h : Tracks req request t s) (hostname : String) (env : LineEnv)
    {parsed : ParsedLogEntry} (hparsed : parsed ∈ req.parsedLines) :
    CanReach req request t (s.parsed hostname env parsed) := by
  unfold Ingestion.parsed
  cases hchecked : validateParsedEntry env.clock parsed hostname with
  | error reason => exact ⟨[], t, .nil, h.reject⟩
  | ok ingest =>
    exact h.file env.statements fun _ =>
      Or.inr ⟨parsed, hparsed, env.clock, hostname, ingest, hchecked, rfl, rfl⟩

/-- Line after line. The induction is on the lines that are left. -/
theorem Tracks.foldl {α : Type} {f : Ingestion → α → Ingestion} {lines : List α}
    (hline : ∀ line ∈ lines, ∀ t s, Tracks req request t s → CanReach req request t (f s line))
    (h : Tracks req request t s) : CanReach req request t (lines.foldl f s) := by
  induction lines generalizing t s with
  | nil => exact ⟨[], t, .nil, h⟩
  | cons line lines ih =>
    obtain ⟨labels, u, hrun, htracks⟩ := hline line List.mem_cons_self t s h
    obtain ⟨labels', v, hrun', htracks'⟩ :=
      ih (fun line hmem => hline line (List.mem_cons_of_mem _ hmem)) htracks
    exact ⟨labels ++ labels', v, hrun.append hrun', htracks'⟩

/-- All lines of a request, which knows no services when it comes. -/
theorem request_reaches (start : State) (request : ℕ) (hostname : String) (env : ℕ → LineEnv)
    (req : LogsRequest) :
    CanReach req request start (Ingestion.request hostname env start.services req) := by
  have hfresh : Tracks req request
      { start with requests := Function.update start.requests request fun _ => none }
      { services := start.services } :=
    ⟨rfl, Function.update_self .., fun _ h => (by cases h)⟩
  obtain ⟨labels, t, hrun, htracks⟩ :=
    hfresh.foldl fun line hline _ s h => h.line hostname (env s.handled) hline
  obtain ⟨labels', u, hrun', htracks'⟩ :=
    htracks.foldl fun parsed hparsed _ s h => h.parsed hostname (env s.handled) hparsed
  exact ⟨.hubRequest request :: (labels ++ labels'), u,
    Machine.Run.cons rfl (hrun.append hrun'), htracks'⟩

/-- **A request is a run**: it leaves the table of a run, and what it stores is linked to rows that
answered calls of that run. -/
theorem sendLogs_run (start : State) (request : ℕ) (env : ℕ → LineEnv)
    (insertBatch : Except SentinelError Unit) (authorized : Except Status Principal)
    (req : LogsRequest) :
    ∃ labels t, run.Run start labels t ∧
      t.services = (sendLogs env insertBatch authorized start.services req).2.1 ∧
      ∀ entry ∈ (sendLogs env insertBatch authorized start.services req).2.2,
        ∀ id, entry.serviceId = some id →
          ∃ service, FiledUnder req entry service ∧ (service, id) ∈ t.answered := by
  rcases sendLogs_cases env insertBatch authorized start.services req with
    ⟨status, hanswer⟩ | ⟨hostname, answer, stored, hanswer, hstored⟩
  · rw [hanswer]
    exact ⟨[], start, .nil, rfl, fun _ h => (by cases h)⟩
  · rw [hanswer]
    obtain ⟨labels, t, hrun, htracks⟩ := request_reaches start request hostname env req
    exact ⟨labels, t, hrun, htracks.services, fun entry h => htracks.linked entry (hstored h)⟩

/-! ## A line of the daemon -/

/-- **A line is a call**: the entry it yields is linked to the row that answered for where the line
is filed. -/
theorem processLine_step {crates : Externals} {noise : NoiseFilterConfig} {now : DateTime}
    {statements : Statements} {t : State} {resolver : DbServiceResolver} {line : TailLine}
    {e : InsertLogEntry}
    (h : (DbServiceResolver.buildPipeline crates noise).processLine crates now statements
      { services := t.services, cache := t.daemon } line = (.ok (some e), resolver)) :
    ∃ entry u, run.step t (.daemonResolve (serviceOf line.filePath entry) statements) = some u ∧
      u.services = resolver.services ∧ u.daemon = resolver.cache ∧
      ∀ id, e.serviceId = some id →
        ((serviceOf line.filePath entry).insertService, id) ∈ u.answered := by
  obtain ⟨entry, hresolve⟩ := DbServiceResolver.serviceId_of_processLine h
  refine ⟨entry, _, step_daemonResolve hresolve, rfl, rfl, fun id hid => ?_⟩
  apply List.mem_append_right
  rw [hid]
  exact List.mem_singleton.mpr rfl

end Sentinalysis.Hub.ServiceIdentity
