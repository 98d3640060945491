/-
# Sentinalysis.Hub.Tables — the tables behind the dashboard, over every run of the hub.

Agents report points and applications send events, many at a time, while the retention task prunes.
A report is two statements, and those of other requests may come between them; a batch of events is
one.  Beside each table stands what was ever stored in it: pruning takes rows from the table only.
-/
import Sentinalysis.Db.Constraints
import Sentinalysis.Hub.Metrics
import Sentinalysis.Hub.PostEvents
import Sentinalysis.Lib.Transition

namespace Sentinalysis.Hub

open Lib Db

/-! ## A report -/

/-- What a report is once its checks are passed. -/
structure Report where
  agentId : String
  hostname : String
  metric : InsertSystemMetric

/-- The checks of `send_metrics`: the permission, the agent and the host, and the point. -/
def report (clock : Clock) (authorized : Except Status Principal) (req : MetricsRequest) :
    Option Report :=
  match authorized with
  | .error _ => none
  | .ok principal =>
    if .IngestMetrics ∈ principal.permissions then
      match principal.agentId, principal.hostname, req.point with
      | some agentId, some hostname, some point =>
        match validatePoint clock point hostname with
        | .ok metric => some ⟨agentId, hostname, metric⟩
        | .error _ => none
      | _, _, _ => none
    else none

/-- Who is heard from when the first statement of a request succeeds. -/
def heard (env : MetricsEnv) (authorized : Except Status Principal) (req : MetricsRequest) :
    Option Report :=
  match env.upsert with
  | some _ => none
  | none => report env.clock authorized req

/-- **What `send_metrics` does up to the insert**: the row of an agent that is heard from is
refreshed, and its point is left to insert. -/
theorem sendMetrics_eq (env : MetricsEnv) (authorized : Except Status Principal) (agents : Agents)
    (req : MetricsRequest) :
    (sendMetrics { env with insert := none } authorized agents req).2 =
      match heard env authorized req with
      | none => (agents, [])
      | some report =>
        (AgentRepository.upsert agents env.now report.agentId report.hostname, [report.metric]) := by
  obtain ⟨clock, now, upsert, insert⟩ := env
  unfold sendMetrics heard report
  cases authorized with
  | error status => cases upsert <;> rfl
  | ok principal =>
    obtain ⟨keyId, permissions, agentId, hostname, appName⟩ := principal
    dsimp only
    by_cases hpermission : .IngestMetrics ∈ permissions
    · rw [if_neg (not_not.mpr hpermission), if_pos hpermission]
      rcases agentId with _ | agentId
      · cases upsert <;> rfl
      rcases hostname with _ | hostname
      · cases upsert <;> rfl
      rcases hpoint : req.point with _ | point
      · cases upsert <;> rfl
      dsimp only
      cases validatePoint clock point hostname with
      | error reason => cases upsert <;> rfl
      | ok metric => cases upsert <;> rfl
    · rw [if_pos hpermission, if_neg hpermission]
      cases upsert <;> rfl

/-- What is heard passed the checks of a point. -/
theorem validatePoint_of_heard {env : MetricsEnv} {authorized : Except Status Principal}
    {req : MetricsRequest} {heardReport : Report}
    (h : heard env authorized req = some heardReport) :
    ∃ point, validatePoint env.clock point heardReport.hostname = .ok heardReport.metric := by
  unfold heard at h
  split at h
  · cases h
  unfold report at h
  split at h
  · cases h
  split at h
  · split at h
    · split at h
      · next hvalid =>
        obtain rfl := Option.some.inj h
        exact ⟨_, hvalid⟩
      · cases h
    · cases h
  · cases h

/-- The point that is heard is no more than five minutes ahead of the clock of the hub. -/
theorem timestamp_lt_of_heard {env : MetricsEnv} {authorized : Except Status Principal}
    {req : MetricsRequest} {report : Report} (h : heard env authorized req = some report) :
    report.metric.timestamp.nanos < env.clock.now.nanos + 301 * 1000000000 := by
  obtain ⟨point, hvalid⟩ := validatePoint_of_heard h
  obtain ⟨hwell, hrecord⟩ := validatePoint_eq_ok.mp hvalid
  have hskew : (report.metric.timestamp.nanos - env.clock.now.nanos).tdiv 1000000000 ≤ 300 := by
    rw [← hrecord]
    exact hwell.timestamp.1
  by_contra hlate
  have hmono := Int.tdiv_le_tdiv (a := 301 * 1000000000) (c := 1000000000) (by decide)
    (show 301 * 1000000000 ≤ report.metric.timestamp.nanos - env.clock.now.nanos by omega)
  rw [Int.mul_tdiv_cancel _ (by decide)] at hmono
  omega

/-! ## The tables -/

/-- The tables, the points between the two statements of their requests, and what was ever stored. -/
structure Tables where
  agents : Agents := {}
  pending : List InsertSystemMetric := []
  metrics : Keyed StoredMetric.id := {}
  events : AppEvents := {}
  allMetrics : List StoredMetric := []
  allEvents : List AppEventRow := []

/-- One statement: the first or the second one of a report, a batch of events, or a pruning.  The
database makes the ids; without one the insert of a point fails. -/
inductive Statement
  | seen (env : MetricsEnv) (authorized : Except Status Principal) (req : MetricsRequest)
  | point (index : ℕ) (id : Option Uuid)
  | events (env : BatchEnv) (limiter : Limiter String) (now : Instant) (allowlist : List String)
      (principal : Principal) (events : List IngestEvent) (ids : List Uuid)
  | pruneMetrics (scan : Scan StoredMetric) (now : DateTime) (keepDays : UInt32)
  | pruneEvents (scan : Scan AppEventRow) (now : DateTime) (keepDays : UInt32)

namespace Tables

variable (s : Tables)

/-- The first statement of a report. -/
def seen (env : MetricsEnv) (authorized : Except Status Principal) (req : MetricsRequest) :
    Tables :=
  let handled := (sendMetrics { env with insert := none } authorized s.agents req).2
  { s with agents := handled.1, pending := s.pending ++ handled.2 }

/-- The second statement of one of the reports. -/
def point (index : ℕ) (id : Option Uuid) : Option Tables := do
  let metric ← s.pending[index]?
  let s := { s with pending := s.pending.eraseIdx index }
  match id with
  | none => return s
  | some id =>
    let row : StoredMetric := { metric with id := id }
    let metrics ← s.metrics.insertAll [row]
    return { s with metrics := metrics, allMetrics := s.allMetrics ++ [row] }

/-- A batch of events: the statement does not succeed with rows that the table does not take. -/
def post (stored : List InsertAppEvent) (ids : List Uuid) : Option Tables :=
  if stored.length = ids.length ∧ ∀ event ∈ stored, EventStorable event then do
    let rows := List.zipWith (fun event id => { event with id := id }) stored ids
    let events ← s.events.insertAll rows
    return { s with events := events, allEvents := s.allEvents ++ rows }
  else none

end Tables

/-- The hub as its tables see it. -/
def tables : Machine Tables Statement where
  step s
    | .seen env authorized req => some (s.seen env authorized req)
    | .point index id => s.point index id
    | .events env limiter now allowlist principal events ids =>
      s.post (postEvents env limiter now allowlist principal events).2.2 ids
    | .pruneMetrics scan now keepDays =>
      some { s with metrics := (Db.prune (·.timestamp) s.metrics scan now keepDays).2 }
    | .pruneEvents scan now keepDays =>
      some { s with events := (AppEventRepository.prune s.events scan now keepDays).2 }

/-! ## What the tables keep -/

/-- All that the second statement of a report can do: its point is lost, or it is stored. -/
theorem Tables.of_point {s s' : Tables} {index : ℕ} {id : Option Uuid}
    (h : s.point index id = some s') :
    ∃ metric, s.pending[index]? = some metric ∧
      (s' = { s with pending := s.pending.eraseIdx index } ∨ ∃ (row : StoredMetric) (metrics : _),
        row.toInsertSystemMetric = metric ∧ s.metrics.insertAll [row] = some metrics ∧
        s' = { s with
          pending := s.pending.eraseIdx index
          metrics := metrics
          allMetrics := s.allMetrics ++ [row] }) := by
  unfold Tables.point at h
  obtain ⟨metric, hmetric, h⟩ := Option.bind_eq_some_iff.mp h
  refine ⟨metric, hmetric, ?_⟩
  cases id with
  | none => exact Or.inl (Option.some.inj h).symm
  | some id =>
    obtain ⟨metrics, hinsert, h⟩ := Option.bind_eq_some_iff.mp h
    exact Or.inr ⟨_, metrics, rfl, hinsert, (Option.some.inj h).symm⟩

/-- All that a batch can do: its rows pass the checks of the table, and they are stored. -/
theorem Tables.of_post {s s' : Tables} {stored : List InsertAppEvent} {ids : List Uuid}
    (h : s.post stored ids = some s') :
    ∃ rows events, (∀ row ∈ rows, EventStorable row.toInsertAppEvent) ∧
      s.events.insertAll rows = some events ∧
      s' = { s with events := events, allEvents := s.allEvents ++ rows } := by
  unfold Tables.post at h
  split at h
  · next htaken =>
    obtain ⟨events, hinsert, h⟩ := Option.bind_eq_some_iff.mp h
    refine ⟨_, events, fun row hrow => ?_, hinsert, (Option.some.inj h).symm⟩
    rw [← List.map_uncurry_zip_eq_zipWith] at hrow
    obtain ⟨pair, hpair, rfl⟩ := List.mem_map.mp hrow
    exact htaken.2 _ (List.of_mem_zip hpair).1
  · cases h

/-- A pruning leaves what is newer than a time. -/
def Statement.Spares (since : DateTime) : Statement → Prop
  | .pruneMetrics _ now keepDays | .pruneEvents _ now keepDays =>
    now.nanos - makeInterval (castSigned keepDays) ≤ since.nanos
  | _ => True

instance (since : DateTime) : DecidablePred (Statement.Spares since)
  | .pruneMetrics .. | .pruneEvents .. => inferInstanceAs (Decidable (_ ≤ _))
  | .seen .. | .point .. | .events .. => inferInstanceAs (Decidable True)

/-- A pruning keeps a day or more, and was no later than a time. -/
def Statement.KeepsADay (now : DateTime) : Statement → Prop
  | .pruneMetrics _ pruned keepDays | .pruneEvents _ pruned keepDays =>
    pruned ≤ now ∧ 1 ≤ keepDays.toNat ∧ keepDays.toNat < 2147483648
  | _ => True

instance (now : DateTime) : DecidablePred (Statement.KeepsADay now)
  | .pruneMetrics .. | .pruneEvents .. => inferInstanceAs (Decidable (_ ∧ _ ∧ _))
  | .seen .. | .point .. | .events .. => inferInstanceAs (Decidable True)

/-- Such a pruning leaves the last day. -/
theorem Statement.KeepsADay.spares {statement : Statement} {now since : DateTime}
    (h : statement.KeepsADay now) (hsince : now.nanos - 86400 * 1000000000 ≤ since.nanos) :
    statement.Spares since := by
  cases statement with
  | pruneMetrics scan pruned keepDays | pruneEvents scan pruned keepDays =>
    obtain ⟨hpruned, hday, hfits⟩ := h
    have hle : pruned.nanos ≤ now.nanos := hpruned
    show pruned.nanos - makeInterval (castSigned keepDays) ≤ since.nanos
    rw [castSigned_of_lt hfits, makeInterval]
    omega
  | _ => trivial

/-- The clock of the hub shows no later time. -/
def Statement.NoLaterThan (latest : ℤ) : Statement → Prop
  | .seen env _ _ => env.clock.now.nanos ≤ latest
  | _ => True

instance (latest : ℤ) : DecidablePred (Statement.NoLaterThan latest)
  | .seen .. => inferInstanceAs (Decidable (_ ≤ _))
  | .point .. | .events .. | .pruneMetrics .. | .pruneEvents .. => inferInstanceAs (Decidable True)

/-- What is true of the events whatever is pruned: what is there was stored, and had what the table
asks for. -/
structure Tables.Checked (s : Tables) : Prop where
  events : s.events.rows ⊆ s.allEvents
  storable : ∀ row ∈ s.allEvents, EventStorable row.toInsertAppEvent

/-- What the prunings and the clock leave true: nothing newer than `since` was lost, and the points
are not far ahead of the clock. -/
structure Tables.Kept (since : DateTime) (latest : ℤ) (s : Tables) : Prop where
  metrics : s.metrics.rows.filter (since < ·.timestamp) = s.allMetrics.filter (since < ·.timestamp)
  events : s.events.rows.filter (since < ·.timestamp) = s.allEvents.filter (since < ·.timestamp)
  pending : ∀ metric ∈ s.pending, metric.timestamp.nanos < latest + 301 * 1000000000
  timely : ∀ row ∈ s.allMetrics, row.timestamp.nanos < latest + 301 * 1000000000

section Checked

variable {s : Tables}

theorem Tables.Checked.post {stored : List InsertAppEvent} {ids : List Uuid} {s' : Tables}
    (h : s.Checked) (hpost : s.post stored ids = some s') : s'.Checked := by
  obtain ⟨rows, events, hchecked, hinsert, rfl⟩ := Tables.of_post hpost
  constructor
  · show events.rows ⊆ s.allEvents ++ rows
    rw [Keyed.rows_of_insertAll hinsert]
    exact List.append_subset.mpr ⟨List.subset_append_of_subset_left _ h.events,
      List.subset_append_right _ _⟩
  · exact List.forall_mem_append.mpr ⟨h.storable, hchecked⟩

theorem Tables.Checked.step {statement : Statement} {s' : Tables} (h : s.Checked)
    (hstep : tables.step s statement = some s') : s'.Checked := by
  cases statement with
  | seen env authorized req =>
    obtain rfl := Option.some.inj hstep
    exact ⟨h.events, h.storable⟩
  | point index id =>
    obtain ⟨metric, -, rfl | ⟨row, metrics, -, -, rfl⟩⟩ := Tables.of_point hstep
    · exact ⟨h.events, h.storable⟩
    · exact ⟨h.events, h.storable⟩
  | events env limiter now allowlist principal events ids => exact h.post hstep
  | pruneMetrics scan now keepDays =>
    obtain rfl := Option.some.inj hstep
    exact ⟨h.events, h.storable⟩
  | pruneEvents scan now keepDays =>
    obtain rfl := Option.some.inj hstep
    refine ⟨fun row hrow => h.events ?_, h.storable⟩
    exact ((s.events.mem_deleteBatch _ _ _).mp hrow).1

/-- **No run brings anything into the table that was not stored or does not pass its checks.** -/
theorem Tables.checked_of_run {l : List Statement} (hrun : tables.Run {} l s) : s.Checked :=
  hrun.invariant ⟨List.Subset.refl _, by simp⟩ fun _ _ _ h hstep => h.step hstep

end Checked

section Kept

variable {since : DateTime} {latest : ℤ} {s : Tables}

theorem Tables.kept_empty (since : DateTime) (latest : ℤ) : ({} : Tables).Kept since latest where
  metrics := rfl
  events := rfl
  pending := by simp
  timely := by simp

/-- A pruning that spares what is newer takes none of it. -/
theorem filter_prune {α : Type} {id : α → Uuid} (timestamp : α → DateTime) (table : Keyed id)
    (scan : Scan α) {now : DateTime} {keepDays : UInt32}
    (h : now.nanos - makeInterval (castSigned keepDays) ≤ since.nanos) :
    (Db.prune timestamp table scan now keepDays).2.rows.filter (since < timestamp ·)
      = table.rows.filter (since < timestamp ·) := by
  refine table.filter_deleteBatch scan _ pruneLimit fun row _ hnewer => ?_
  rw [decide_eq_true_iff, DateTime.lt_iff] at hnewer
  rw [expired, decide_eq_false_iff_not]
  omega

theorem Tables.Kept.seen {env : MetricsEnv} {authorized : Except Status Principal}
    {req : MetricsRequest} (h : s.Kept since latest) (hclock : env.clock.now.nanos ≤ latest) :
    (s.seen env authorized req).Kept since latest := by
  unfold Tables.seen
  rw [sendMetrics_eq]
  cases hheard : heard env authorized req with
  | none =>
    dsimp only
    rw [List.append_nil]
    exact { h with }
  | some report =>
    refine { h with pending := fun metric hmetric => ?_ }
    rcases List.mem_append.mp hmetric with hold | hnew
    · exact h.pending metric hold
    · rw [List.mem_singleton.mp hnew]
      have hlt := timestamp_lt_of_heard hheard
      omega

theorem Tables.Kept.point {index : ℕ} {id : Option Uuid} {s' : Tables} (h : s.Kept since latest)
    (hpoint : s.point index id = some s') : s'.Kept since latest := by
  have hpending : ∀ metric ∈ s.pending.eraseIdx index,
      metric.timestamp.nanos < latest + 301 * 1000000000 :=
    fun metric hmem => h.pending metric (List.mem_of_mem_eraseIdx hmem)
  obtain ⟨metric, hmetric, rfl | ⟨row, metrics, rfl, hinsert, rfl⟩⟩ := Tables.of_point hpoint
  · exact { h with pending := hpending }
  · refine { h with pending := hpending, metrics := ?_, timely := ?_ }
    · show metrics.rows.filter _ = (s.allMetrics ++ [row]).filter _
      rw [Keyed.rows_of_insertAll hinsert, List.filter_append, List.filter_append, h.metrics]
    · -- the new row is as timely as the point that was waiting
      refine List.forall_mem_append.mpr ⟨h.timely, List.forall_mem_singleton.mpr ?_⟩
      exact h.pending _ (List.mem_of_getElem? hmetric)

theorem Tables.Kept.post {stored : List InsertAppEvent} {ids : List Uuid} {s' : Tables}
    (h : s.Kept since latest) (hpost : s.post stored ids = some s') : s'.Kept since latest := by
  obtain ⟨rows, events, -, hinsert, rfl⟩ := Tables.of_post hpost
  refine { h with events := ?_ }
  show events.rows.filter _ = (s.allEvents ++ rows).filter _
  rw [Keyed.rows_of_insertAll hinsert, List.filter_append, List.filter_append, h.events]

/-- Every statement that spares what is newer keeps it, and the rest. -/
theorem Tables.Kept.step {statement : Statement} {s' : Tables} (h : s.Kept since latest)
    (hspares : statement.Spares since) (hclock : statement.NoLaterThan latest)
    (hstep : tables.step s statement = some s') : s'.Kept since latest := by
  cases statement with
  | seen env authorized req =>
    obtain rfl := Option.some.inj hstep
    exact h.seen hclock
  | point index id => exact h.point hstep
  | events env limiter now allowlist principal events ids => exact h.post hstep
  | pruneMetrics scan now keepDays =>
    obtain rfl := Option.some.inj hstep
    exact { h with metrics := (filter_prune _ s.metrics scan hspares).trans h.metrics }
  | pruneEvents scan now keepDays =>
    obtain rfl := Option.some.inj hstep
    exact { h with events := (filter_prune _ s.events scan hspares).trans h.events }

/-- **Every run keeps what is newer than what its prunings reach.** -/
theorem Tables.kept_of_run {l : List Statement} (hrun : tables.Run {} l s)
    (hspares : ∀ statement ∈ l, statement.Spares since)
    (hclock : ∀ statement ∈ l, statement.NoLaterThan latest) : s.Kept since latest := by
  refine hrun.invariant_of_forall (P := fun statement => statement.Spares since ∧
    statement.NoLaterThan latest) (fun statement hmem => ⟨hspares _ hmem, hclock _ hmem⟩)
    (Tables.kept_empty since latest) fun _ _ _ hkept hstatement hstep => ?_
  exact hkept.step hstatement.1 hstatement.2 hstep

/-- Some time is no earlier than what the clock showed in a run. -/
theorem exists_latest (l : List Statement) :
    ∃ latest, ∀ statement ∈ l, statement.NoLaterThan latest := by
  have hmono : ∀ {statement : Statement} {a b : ℤ}, a ≤ b → statement.NoLaterThan a →
      statement.NoLaterThan b := by
    intro statement a b hle h
    cases statement with
    | seen env authorized req => exact le_trans (α := ℤ) h hle
    | _ => trivial
  induction l with
  | nil => exact ⟨0, by simp⟩
  | cons statement l ih =>
    obtain ⟨latest, hlatest⟩ := ih
    obtain ⟨shown, hshown⟩ : ∃ shown, statement.NoLaterThan shown := by
      cases statement with
      | seen env authorized req => exact ⟨_, le_refl (α := ℤ) _⟩
      | _ => exact ⟨0, trivial⟩
    refine ⟨max shown latest, List.forall_mem_cons.mpr ⟨hmono (le_max_left _ _) hshown, ?_⟩⟩
    exact fun other hother => hmono (le_max_right _ _) (hlatest other hother)

end Kept

/-! ## Who was heard from -/

/-- An agent was heard from at a time. -/
structure Hearing where
  now : DateTime
  agentId : String
  hostname : String

/-- Whom a statement hears from. -/
def Statement.hearing : Statement → Option Hearing
  | .seen env authorized req => (heard env authorized req).map fun report =>
      ⟨env.now, report.agentId, report.hostname⟩
  | _ => none

/-- Who was heard from, in the order of the statements. -/
def hearings (l : List Statement) : List Hearing := l.filterMap Statement.hearing

/-- What there is to say about an agent: when it was heard from first and last, and what its host was
called at last. -/
def agentSummary (agentId : String) (hearings : List Hearing) : Option AgentRow :=
  match hearings.filter (·.agentId = agentId) with
  | [] => none
  | first :: rest =>
    let last := (first :: rest).getLast (List.cons_ne_nil first rest)
    some ⟨agentId, last.hostname, first.now, last.now⟩

section Hearings

variable {agents : Agents} {past : List Hearing} {hearing : Hearing}

theorem agentSummary_append_of_ne {agentId : String} (h : hearing.agentId ≠ agentId) :
    agentSummary agentId (past ++ [hearing]) = agentSummary agentId past := by
  unfold agentSummary
  rw [List.filter_append, List.filter_singleton, decide_eq_false h]
  simp

/-- The last hearing renews the row, or makes the first one. -/
theorem agentSummary_append_self :
    agentSummary hearing.agentId (past ++ [hearing]) = some
      ⟨hearing.agentId, hearing.hostname,
        ((agentSummary hearing.agentId past).map (·.firstSeenAt)).getD hearing.now, hearing.now⟩ := by
  unfold agentSummary
  rw [List.filter_append, List.filter_singleton, decide_eq_true rfl]
  cases past.filter (·.agentId = hearing.agentId) with
  | nil => rfl
  | cons first rest => simp

/-- The table says of every agent what there is to say. -/
def Tells (agents : Agents) (past : List Hearing) : Prop :=
  ∀ agentId, AgentRepository.find agents agentId = agentSummary agentId past

/-- An upsert adds to what is told. -/
theorem Tells.upsert (hearing : Hearing) (h : Tells agents past) :
    Tells (AgentRepository.upsert agents hearing.now hearing.agentId hearing.hostname)
      (past ++ [hearing]) := by
  intro agentId
  rw [AgentRepository.find_upsert]
  split
  · next heq => rw [heq, agentSummary_append_self, h]
  · next hne => rw [agentSummary_append_of_ne (Ne.symm hne), h]

theorem hearings_append_none {l : List Statement} {statement : Statement}
    (h : statement.hearing = none) : hearings (l ++ [statement]) = hearings l := by
  rw [hearings, List.filterMap_append, List.filterMap_cons, h]
  exact List.append_nil _

theorem Tables.agents_seen (s : Tables) (env : MetricsEnv)
    (authorized : Except Status Principal) (req : MetricsRequest) :
    (s.seen env authorized req).agents = match heard env authorized req with
      | none => s.agents
      | some report => AgentRepository.upsert s.agents env.now report.agentId report.hostname := by
  rw [Tables.seen, sendMetrics_eq]
  cases heard env authorized req <;> rfl

/-- **After every run the table tells who was heard from.** -/
theorem tells_of_run {l : List Statement} {s : Tables} (hrun : tables.Run {} l s) :
    Tells s.agents (hearings l) := by
  refine hrun.invariant_history (I := fun l s => Tells s.agents (hearings l)) (fun _ => rfl) ?_
  intro l t statement u htells hstep
  have hother : statement.hearing = none → u.agents = t.agents →
      Tells u.agents (hearings (l ++ [statement])) := by
    intro hnone hagents
    rwa [hearings_append_none hnone, hagents]
  cases statement with
  | seen env authorized req =>
    obtain rfl := Option.some.inj hstep
    rw [Tables.agents_seen]
    cases hheard : heard env authorized req with
    | none =>
      rw [hearings_append_none (by rw [Statement.hearing, hheard, Option.map_none])]
      exact htells
    | some report =>
      have hhearing : hearings (l ++ [.seen env authorized req])
          = hearings l ++ [⟨env.now, report.agentId, report.hostname⟩] := by
        rw [hearings, List.filterMap_append, List.filterMap_cons, Statement.hearing, hheard]
        rfl
      rw [hhearing]
      exact htells.upsert ⟨env.now, report.agentId, report.hostname⟩
  | point index id =>
    obtain ⟨metric, -, rfl | ⟨row, metrics, -, -, rfl⟩⟩ := Tables.of_point hstep
    · exact hother rfl rfl
    · exact hother rfl rfl
  | events env limiter now allowlist principal events ids =>
    obtain ⟨rows, events, -, -, rfl⟩ := Tables.of_post hstep
    exact hother rfl rfl
  | pruneMetrics scan now keepDays =>
    obtain rfl := Option.some.inj hstep
    exact hother rfl rfl
  | pruneEvents scan now keepDays =>
    obtain rfl := Option.some.inj hstep
    exact hother rfl rfl

end Hearings

end Sentinalysis.Hub
