/-
# Sentinalysis.Agent.WireIdentity — the service that an entry is sent under.

An entry carries the id of its service, and the identity behind the id is looked up when the batch
is sent.  The resolver gives ids to names, and keeps for each id the identity that was resolved
last.  A virtual host and a log file of the same name share an id; between the processing of a line
and its flush, a line of the other kind changes what the entry is sent under.
-/
import Sentinalysis.Agent.Logs
import Sentinalysis.LogScanner.ScanEnd

namespace Sentinalysis.Agent

open Lib Db LogScanner

/-! ## What the resolver knows of a name -/

namespace AgentServiceResolver

/-- The identity that is looked up for the entries of a name. -/
def known (resolver : AgentServiceResolver) (name : String) : Option ServiceMeta :=
  (resolver.byName name).bind resolver.metaOf

/-- Behind the id of a name is an identity of that name, so that no two names share an id. -/
def Registered (resolver : AgentServiceResolver) : Prop :=
  ∀ name id, resolver.byName name = some id →
    ∃ service, resolver.byId id = some service ∧ service.name = name

/-- An id that the resolver has not seen. -/
def Unseen (resolver : AgentServiceResolver) (id : Uuid) : Prop := resolver.byId id = none

variable {resolver : AgentServiceResolver} {fresh : Uuid} {service : ServiceMeta}

/-- The id that a service is resolved to is the one of its name from then on. -/
theorem byName_resolve (fresh : Uuid) (resolver : AgentServiceResolver) (service : ServiceMeta) :
    (resolve fresh resolver service).2.byName service.name
      = (resolve fresh resolver service).1 := by
  simp [resolve]

/-- Ids are kept. -/
theorem byName_resolve_of_eq {name : String} {id : Uuid} (h : resolver.byName name = some id) :
    (resolve fresh resolver service).2.byName name = some id := by
  by_cases hname : name = service.name
  · subst hname
    simp [resolve, h]
  · simp [resolve, Function.update_of_ne hname, h]

/-- The id of another name is not the one that is resolved. -/
theorem ne_of_byName (hregistered : resolver.Registered) (hunseen : resolver.Unseen fresh)
    {name : String} {id : Uuid} (hname : name ≠ service.name) (h : resolver.byName name = some id) :
    id ≠ (resolver.byName service.name).getD fresh := by
  rintro rfl
  obtain ⟨identity, hmeta, hmetaName⟩ := hregistered name _ h
  cases hservice : resolver.byName service.name with
  | none =>
    rw [hservice, Option.getD_none, hunseen] at hmeta
    cases hmeta
  | some id =>
    rw [hservice, Option.getD_some] at hmeta
    obtain ⟨other, hother, hotherName⟩ := hregistered service.name id hservice
    obtain rfl := Option.some.inj (hmeta.symm.trans hother)
    exact hname (hmetaName.symm.trans hotherName)

theorem Registered.resolve (hregistered : resolver.Registered) (hunseen : resolver.Unseen fresh) :
    (resolve fresh resolver service).2.Registered := by
  intro name id h
  by_cases hname : name = service.name
  · subst hname
    rw [byName_resolve] at h
    obtain rfl := Option.some.inj h
    exact ⟨service, Function.update_self _ _ _, rfl⟩
  · have hbefore : resolver.byName name = some id := by
      simpa [AgentServiceResolver.resolve, Function.update_of_ne hname] using h
    obtain ⟨identity, hmeta, hmetaName⟩ := hregistered name id hbefore
    refine ⟨identity, ?_, hmetaName⟩
    exact (Function.update_of_ne (ne_of_byName hregistered hunseen hname hbefore) _ _).trans hmeta

/-- No id is given out but the fresh one. -/
theorem Unseen.resolve {id : Uuid} (hunseen : resolver.Unseen id)
    (hregistered : resolver.Registered) (hne : id ≠ fresh) :
    (resolve fresh resolver service).2.Unseen id := by
  refine (Function.update_of_ne ?_ _ _).trans hunseen
  cases hservice : resolver.byName service.name with
  | none => exact hne
  | some other =>
    rintro rfl
    obtain ⟨identity, hidentity, -⟩ := hregistered service.name _ hservice
    rw [hunseen] at hidentity
    cases hidentity

/-- A service that is resolved is known by its name, and nothing changes for other names. -/
theorem known_resolve (hregistered : resolver.Registered) (hunseen : resolver.Unseen fresh)
    (name : String) : (resolve fresh resolver service).2.known name
      = if name = service.name then some service else resolver.known name := by
  unfold known
  by_cases hname : name = service.name
  · subst hname
    rw [if_pos rfl, byName_resolve]
    exact metaOf_resolve fresh resolver service
  · rw [if_neg hname]
    have hbyName : (AgentServiceResolver.resolve fresh resolver service).2.byName name
        = resolver.byName name := Function.update_of_ne hname _ _
    rw [hbyName]
    cases h : resolver.byName name with
    | none => rfl
    | some id =>
      exact Function.update_of_ne (ne_of_byName hregistered hunseen hname h) _ _

end AgentServiceResolver

/-! ## What an entry is sent under -/

/-- The message carries the identity of the service. -/
structure Carries (message : Hub.ParsedLogEntry) (service : ServiceMeta) : Prop where
  name : message.serviceName = service.name
  unitType : message.serviceUnitType = service.unitType
  virtualHost : message.virtualHost = service.virtualHost

/-- An entry has the id of the name of its service. -/
def HasIdOf (resolver : AgentServiceResolver) (entry : InsertLogEntry) (service : ServiceMeta) :
    Prop :=
  ∃ id, entry.serviceId = some id ∧ resolver.byName service.name = some id

/-- **An entry is sent under its service** exactly when this is what the name of the service is
known for at that moment. -/
theorem carries_iff_known {resolver : AgentServiceResolver} (hregistered : resolver.Registered)
    {entry : InsertLogEntry} {service : ServiceMeta} (h : HasIdOf resolver entry service) :
    Carries (entryToProto entry resolver) service ↔ resolver.known service.name = some service := by
  obtain ⟨id, hentry, hname⟩ := h
  obtain ⟨identity, hmeta, -⟩ := hregistered service.name id hname
  have hlookup : entry.serviceId.bind resolver.metaOf = some identity := by
    rw [hentry]
    exact hmeta
  have hknown : resolver.known service.name = some identity := by
    unfold AgentServiceResolver.known
    rw [hname]
    exact hmeta
  rw [hknown, Option.some.injEq]
  constructor
  · rintro ⟨hname, hunit, hvhost⟩
    simp only [entryToProto, hlookup, Option.map_some, Option.getD_some, Option.bind_some]
      at hname hunit hvhost
    cases identity
    cases service
    exact ServiceMeta.mk.injEq .. ▸ ⟨hname, hunit, hvhost⟩
  · rintro rfl
    exact ⟨by simp [entryToProto, hlookup], by simp [entryToProto, hlookup],
      by simp [entryToProto, hlookup]⟩

/-! ## The services of consumed lines -/

section Lines

variable (crates : Externals) (noise : NoiseFilterConfig)

/-- The service that `process_line` passes to the resolver for an event. -/
def resolvedService : Consumed Uuid → Option ServiceMeta
  | (now, _, .ok line) => match (buildAgentPipeline crates noise).parseLine now line with
    | .ok (some entry) => some (serviceOf line.filePath entry)
    | _ => none
  | (_, _, .error _) => none

/-- The services of the entries that events yield, in order. -/
def services (events : List (Consumed Uuid)) : List ServiceMeta :=
  events.filterMap (resolvedService crates noise)

variable {crates noise}

/-- An event that resolves no service yields no entry. -/
theorem processEvent_of_none {event : Consumed Uuid} (h : resolvedService crates noise event = none)
    (resolver : AgentServiceResolver) :
    (buildAgentPipeline crates noise).processEvent crates resolver event = (none, resolver) := by
  obtain ⟨now, fresh, event⟩ := event
  cases event with
  | error e => rfl
  | ok line =>
    unfold resolvedService at h
    dsimp only at h
    unfold Pipeline.processEvent Pipeline.processLine
    dsimp only
    split at h
    · cases h
    · rename_i hparse
      cases hline : (buildAgentPipeline crates noise).parseLine now line with
      | error e => rfl
      | ok parsed =>
        cases parsed with
        | none => rfl
        | some entry => exact absurd hline (hparse entry)

/-- An event that resolves a service yields an entry with its id. -/
theorem processEvent_of_some {now : DateTime} {fresh : Uuid} {event : TailEvent}
    {service : ServiceMeta}
    (h : resolvedService crates noise (now, fresh, event) = some service)
    (resolver : AgentServiceResolver) : ∃ entry,
    (buildAgentPipeline crates noise).processEvent crates resolver (now, fresh, event)
      = (some entry, (AgentServiceResolver.resolve fresh resolver service).2) ∧
    entry.serviceId = (AgentServiceResolver.resolve fresh resolver service).1 := by
  cases event with
  | error e => cases h
  | ok line =>
    unfold resolvedService at h
    dsimp only at h
    split at h
    · rename_i entry hparse
      obtain rfl := Option.some.inj h
      refine ⟨insertEntry crates (buildAgentPipeline crates noise).filter entry
        (AgentServiceResolver.resolve fresh resolver (serviceOf line.filePath entry)).1, ?_, rfl⟩
      unfold Pipeline.processEvent
      dsimp only
      rw [Pipeline.processLine_of_parseLine crates fresh resolver hparse]
      rfl
    · cases h

/-- Where the resolver stands after some events: every entry has the id of the name of its service,
and ids are those that were given out. -/
structure Traced (crates : Externals) (noise : NoiseFilterConfig) (events : List (Consumed Uuid)) :
    Prop where
  entries : List.Forall₂
    (HasIdOf ((buildAgentPipeline crates noise).processEvents crates .new events).2)
    ((buildAgentPipeline crates noise).processEvents crates .new events).1
    (services crates noise events)
  registered :
    ((buildAgentPipeline crates noise).processEvents crates .new events).2.Registered
  unseen : ∀ id ∉ events.map (fun event => event.2.1),
    ((buildAgentPipeline crates noise).processEvents crates .new events).2.Unseen id

theorem services_concat (events : List (Consumed Uuid)) (event : Consumed Uuid) :
    services crates noise (events ++ [event])
      = services crates noise events ++ (resolvedService crates noise event).toList := by
  unfold services
  rw [List.filterMap_append]
  cases h : resolvedService crates noise event with
  | none => simp [h]
  | some service => simp [h]

/-- An entry keeps the id of its name. -/
theorem HasIdOf.resolve {resolver : AgentServiceResolver} {entry : InsertLogEntry}
    {service : ServiceMeta} (h : HasIdOf resolver entry service) (fresh : Uuid)
    (other : ServiceMeta) :
    HasIdOf (AgentServiceResolver.resolve fresh resolver other).2 entry service := by
  obtain ⟨id, hentry, hname⟩ := h
  exact ⟨id, hentry, AgentServiceResolver.byName_resolve_of_eq hname⟩

/-- An event that resolves no service leaves what is traced. -/
theorem Traced.snoc_of_none {events : List (Consumed Uuid)} (h : Traced crates noise events)
    {event : Consumed Uuid} (hservice : resolvedService crates noise event = none) :
    Traced crates noise (events ++ [event]) := by
  have hevents : (buildAgentPipeline crates noise).processEvents crates .new (events ++ [event])
      = (buildAgentPipeline crates noise).processEvents crates .new events := by
    rw [Pipeline.processEvents_snoc, processEvent_of_none hservice]
    simp
  have hservices : services crates noise (events ++ [event]) = services crates noise events := by
    rw [services_concat, hservice]
    simp
  refine ⟨?_, ?_, fun id hid => ?_⟩
  · rw [hevents, hservices]
    exact h.entries
  · rw [hevents]
    exact h.registered
  · rw [hevents]
    refine h.unseen id fun hmem => hid ?_
    rw [List.map_append]
    exact List.mem_append_left _ hmem

/-- An event that resolves a service adds an entry with its id, if the fresh id is a new one. -/
theorem Traced.snoc_of_some {events : List (Consumed Uuid)} (h : Traced crates noise events)
    {now : DateTime} {fresh : Uuid} {event : TailEvent} {service : ServiceMeta}
    (hnew : fresh ∉ events.map fun event => event.2.1)
    (hservice : resolvedService crates noise (now, fresh, event) = some service) :
    Traced crates noise (events ++ [(now, fresh, event)]) := by
  obtain ⟨entry, hprocess, hid⟩ := processEvent_of_some hservice
    ((buildAgentPipeline crates noise).processEvents crates .new events).2
  have hevents : (buildAgentPipeline crates noise).processEvents crates .new
      (events ++ [(now, fresh, event)])
      = (((buildAgentPipeline crates noise).processEvents crates .new events).1 ++ [entry],
        (AgentServiceResolver.resolve fresh ((buildAgentPipeline crates noise).processEvents
          crates .new events).2 service).2) := by
    rw [Pipeline.processEvents_snoc, hprocess]
    rfl
  refine ⟨?_, ?_, fun id hmem => ?_⟩
  · rw [hevents, services_concat, hservice]
    refine List.rel_append ?_ ?_
    · exact h.entries.imp fun _ _ hentry => hentry.resolve fresh service
    · refine .cons ⟨_, hid, ?_⟩ .nil
      exact AgentServiceResolver.byName_resolve _ _ _
  · rw [hevents]
    exact h.registered.resolve (h.unseen fresh hnew)
  · rw [hevents]
    rw [List.map_append, List.mem_append, not_or, List.map_singleton, List.mem_singleton] at hmem
    exact (h.unseen id hmem.1).resolve h.registered hmem.2

/-- Fresh ids that differ keep the services apart. -/
theorem traced {events : List (Consumed Uuid)}
    (hfresh : (events.map fun event => event.2.1).Nodup) : Traced crates noise events := by
  induction events using List.reverseRecOn with
  | nil => exact ⟨.nil, fun name id h => (by cases h), fun id _ => rfl⟩
  | append_singleton events event ih =>
    rw [List.map_append, List.map_singleton] at hfresh
    have hbefore := ih hfresh.of_append_left
    obtain ⟨now, fresh, event⟩ := event
    have hnew : fresh ∉ events.map fun event => event.2.1 := by
      intro hmem
      exact (List.nodup_append.mp hfresh).2.2 fresh hmem fresh (List.mem_singleton_self _) rfl
    cases hservice : resolvedService crates noise (now, fresh, event) with
    | none => exact hbefore.snoc_of_none hservice
    | some service => exact hbefore.snoc_of_some hnew hservice

end Lines

/-! ## The pending entries of the scanner -/

section Pending

variable (crates : Externals) (noise : NoiseFilterConfig)

/-- The states of the agent's scanner. -/
abbrev ScannerState := Scanner.State Uuid AgentServiceResolver

/-- The services of the pending entries: those of all entries without the stored ones. -/
def pendingServices (s : ScannerState) : List ServiceMeta :=
  (services crates noise s.consumed).drop s.stored.flatten.length

/-- Every pending entry would be sent under the service that `process_line` passed to the resolver
for its line. -/
def FaithfulOnWire (s : ScannerState) : Prop :=
  List.Forall₂ (fun entry service => Carries (entryToProto entry s.resolver) service) s.pending
    (pendingServices crates noise s)

/-- A line that is consumed has no namesake among the pending entries: one of the same name that is
another service. -/
def NoNamesake (s : ScannerState) : Scanner.Label Uuid → Prop
  | .recv now fresh => ∀ event ∈ s.queue.head?,
    ∀ service ∈ resolvedService crates noise (now, fresh, event),
      ∀ pending ∈ pendingServices crates noise s, pending.name = service.name → pending = service
  | _ => True

/-- The id that a step may give out. -/
def freshId : Scanner.Label Uuid → Option Uuid
  | .recv _ fresh => some fresh
  | _ => none

variable {crates noise} {policy : Scanner.Batching} {s t : ScannerState}

/-- A step consumes an event, or leaves what was consumed and resolved alone. -/
theorem step_cases {a : Scanner.Label Uuid}
    (hstep : (Scanner.run crates (buildAgentPipeline crates noise) policy).step s a = some t) :
    (freshId a = none ∧ t.consumed = s.consumed ∧ t.resolver = s.resolver ∧
      s.stored.flatten.length ≤ t.stored.flatten.length) ∨
    ∃ now fresh event, a = .recv now fresh ∧ s.queue.head? = some event ∧
      t.consumed = s.consumed ++ [(now, fresh, event)] ∧ t.stored = s.stored ∧
      t.resolver = ((buildAgentPipeline crates noise).processEvent crates s.resolver
        (now, fresh, event)).2 := by
  have hflush : ∀ (s : ScannerState) (final : Bool),
      (Scanner.flushBatch s final).consumed = s.consumed ∧
      (Scanner.flushBatch s final).resolver = s.resolver ∧
      (Scanner.flushBatch s final).stored = s.stored := by
    intro s final
    rcases Scanner.flushBatch_cases s final with ⟨-, heq⟩ | ⟨-, heq⟩ <;> rw [heq] <;>
      exact ⟨rfl, rfl, rfl⟩
  cases Scanner.move_of_step hstep with
  | send event hopen => exact Or.inl ⟨rfl, rfl, rfl, le_rfl⟩
  | hangUp => exact Or.inl ⟨rfl, rfl, rfl, le_rfl⟩
  | cancel => exact Or.inl ⟨rfl, rfl, rfl, le_rfl⟩
  | recv now fresh event queue hphase hqueue =>
    refine Or.inr ⟨now, fresh, event, rfl, by rw [hqueue]; rfl, ?_⟩
    unfold Scanner.consume
    dsimp only
    split
    · obtain ⟨hconsumed, hresolver, hstored⟩ := hflush (Scanner.join crates
        (buildAgentPipeline crates noise) s now fresh event queue) false
      rw [hconsumed, hresolver, hstored]
      exact ⟨rfl, rfl, rfl⟩
    · exact ⟨rfl, rfl, rfl⟩
  | cancelled hphase hqueue hcancelled =>
    obtain ⟨hconsumed, hresolver, hstored⟩ := hflush s true
    exact Or.inl ⟨rfl, hconsumed, hresolver, by rw [hstored]⟩
  | tick hphase hqueue hcancelled htimer =>
    obtain ⟨hconsumed, hresolver, hstored⟩ := hflush s false
    exact Or.inl ⟨rfl, hconsumed, hresolver, by rw [hstored]⟩
  | inserted entries final hphase =>
    refine Or.inl ⟨rfl, rfl, rfl, ?_⟩
    rw [List.flatten_append, List.length_append]
    exact Nat.le_add_right _ _
  | insertFailed entries final hphase => exact Or.inl ⟨rfl, rfl, rfl, le_rfl⟩

/-- The ids that were on offer are those of the labels. -/
theorem consumed_of_run {labels : List (Scanner.Label Uuid)}
    (hrun : (Scanner.run crates (buildAgentPipeline crates noise) policy).Run
      { resolver := .new } labels t) :
    t.consumed.map (fun event => event.2.1) = labels.filterMap freshId := by
  induction hrun with
  | nil => rfl
  | snoc _ hstep ih =>
    rw [List.filterMap_append, ← ih]
    rcases step_cases hstep with ⟨hnone, hconsumed, -⟩ | ⟨now, fresh, event, rfl, -, hconsumed, -⟩
    · rw [hconsumed]
      simp [hnone]
    · rw [hconsumed, List.map_append]
      rfl

/-- What is traced of the events that a state has consumed. -/
structure Reached (crates : Externals) (noise : NoiseFilterConfig) (s : ScannerState) : Prop where
  traced : Traced crates noise s.consumed
  conserved : Scanner.Conserved crates (buildAgentPipeline crates noise) .new s

theorem reached_of_run {labels : List (Scanner.Label Uuid)}
    (hrun : (Scanner.run crates (buildAgentPipeline crates noise) policy).Run
      { resolver := .new } labels t)
    (hfresh : (labels.filterMap freshId).Nodup) : Reached crates noise t := by
  refine ⟨traced (by rw [consumed_of_run hrun]; exact hfresh), ?_⟩
  exact hrun.invariant ⟨rfl, rfl, fun _ _ h => by cases h⟩ fun _ _ _ h hstep => h.step hstep

/-- Every pending entry has the id of the name of its service. -/
theorem Reached.pending (h : Reached crates noise s) :
    List.Forall₂ (HasIdOf s.resolver) s.pending (pendingServices crates noise s) := by
  have hentries := List.forall₂_drop s.stored.flatten.length h.traced.entries
  rw [← h.conserved.entries, ← h.conserved.resolver, List.drop_left] at hentries
  exact hentries

theorem Reached.stored_le (h : Reached crates noise s) :
    s.stored.flatten.length ≤ (services crates noise s.consumed).length := by
  have hlength := h.traced.entries.length_eq
  rw [← h.conserved.entries, List.length_append] at hlength
  omega

theorem Reached.registered (h : Reached crates noise s) : s.resolver.Registered := by
  rw [h.conserved.resolver]
  exact h.traced.registered

/-- **What is pending is faithful** exactly when every name is known for the services it stands
for. -/
theorem Reached.faithful_iff (h : Reached crates noise s) : FaithfulOnWire crates noise s ↔
    ∀ service ∈ pendingServices crates noise s,
      s.resolver.known service.name = some service := by
  have hpairs := h.pending
  unfold FaithfulOnWire
  generalize s.pending = entries at hpairs ⊢
  generalize pendingServices crates noise s = pending at hpairs ⊢
  induction hpairs with
  | nil => simp
  | cons hid _ ih =>
    rw [List.forall₂_cons, List.forall_mem_cons]
    exact and_congr (carries_iff_known h.registered hid) ih

/-- What is pending after an event was consumed. -/
theorem pendingServices_concat (h : Reached crates noise s) {event : Consumed Uuid}
    (hconsumed : t.consumed = s.consumed ++ [event]) (hstored : t.stored = s.stored) :
    pendingServices crates noise t
      = pendingServices crates noise s ++ (resolvedService crates noise event).toList := by
  unfold pendingServices
  rw [hconsumed, hstored, services_concat, List.drop_append_of_le_length h.stored_le]

/-- A line that resolves a service leaves the others faithful that are known as before. -/
theorem Reached.faithful_iff_of_recv (hs : Reached crates noise s) (ht : Reached crates noise t)
    {now : DateTime} {fresh : Uuid} {event : TailEvent} {service : ServiceMeta}
    (hunseen : s.resolver.Unseen fresh)
    (hservice : resolvedService crates noise (now, fresh, event) = some service)
    (hconsumed : t.consumed = s.consumed ++ [(now, fresh, event)]) (hstored : t.stored = s.stored)
    (hresolver : t.resolver = ((buildAgentPipeline crates noise).processEvent crates s.resolver
      (now, fresh, event)).2) :
    FaithfulOnWire crates noise t ↔ ∀ pending ∈ pendingServices crates noise s,
      if pending.name = service.name then pending = service
      else s.resolver.known pending.name = some pending := by
  obtain ⟨entry, hprocess, -⟩ := processEvent_of_some hservice s.resolver
  have hknown : ∀ name, t.resolver.known name
      = if name = service.name then some service else s.resolver.known name := by
    intro name
    rw [hresolver, hprocess]
    exact AgentServiceResolver.known_resolve hs.registered hunseen name
  rw [ht.faithful_iff, pendingServices_concat hs hconsumed hstored, hservice, Option.toList_some]
  simp only [List.mem_append, List.mem_singleton, or_imp, forall_and, forall_eq, hknown, if_true,
    and_true]
  refine forall₂_congr fun pending _ => ?_
  split
  · rw [Option.some.injEq, eq_comm]
  · exact Iff.rfl

/-- A line without a service leaves everything as it was. -/
theorem Reached.faithful_iff_of_skip (hs : Reached crates noise s) (ht : Reached crates noise t)
    {now : DateTime} {fresh : Uuid} {event : TailEvent}
    (hservice : resolvedService crates noise (now, fresh, event) = none)
    (hconsumed : t.consumed = s.consumed ++ [(now, fresh, event)]) (hstored : t.stored = s.stored)
    (hresolver : t.resolver = ((buildAgentPipeline crates noise).processEvent crates s.resolver
      (now, fresh, event)).2) :
    FaithfulOnWire crates noise t ↔ FaithfulOnWire crates noise s := by
  rw [processEvent_of_none hservice] at hresolver
  rw [ht.faithful_iff, hs.faithful_iff, pendingServices_concat hs hconsumed hstored, hservice,
    Option.toList_none, List.append_nil, hresolver]

theorem unseen_of_recv {labels : List (Scanner.Label Uuid)}
    (hrun : (Scanner.run crates (buildAgentPipeline crates noise) policy).Run
      { resolver := .new } labels s)
    {now : DateTime} {fresh : Uuid}
    (hfresh : ((labels ++ [Scanner.Label.recv now fresh]).filterMap freshId).Nodup) :
    s.resolver.Unseen fresh := by
  rw [List.filterMap_append] at hfresh
  have hreached := reached_of_run hrun hfresh.of_append_left
  rw [hreached.conserved.resolver]
  refine hreached.traced.unseen fresh fun hmem => ?_
  rw [consumed_of_run hrun] at hmem
  exact (List.nodup_append.mp hfresh).2.2 fresh hmem fresh (List.mem_singleton_self _) rfl

/-- **Run lemma.**  Without namesakes, what is pending stays faithful. -/
theorem faithfulOnWire_of_along {labels : List (Scanner.Label Uuid)}
    (hrun : (Scanner.run crates (buildAgentPipeline crates noise) policy).Run
      { resolver := .new } labels t)
    (hfresh : (labels.filterMap freshId).Nodup)
    (halong : (Scanner.run crates (buildAgentPipeline crates noise) policy).Along
      (NoNamesake crates noise) { resolver := .new } labels) : FaithfulOnWire crates noise t := by
  induction hrun with
  | nil => exact .nil
  | @snoc labels s a t hbefore hstep ih =>
    obtain ⟨hbeforeAlong, hnamesake⟩ := (Machine.along_snoc hbefore).mp halong
    have hfresh' : (labels.filterMap freshId).Nodup := by
      rw [List.filterMap_append] at hfresh
      exact hfresh.of_append_left
    have hs := reached_of_run hbefore hfresh'
    have ht := reached_of_run (hbefore.snoc hstep) hfresh
    have hfaithful := ih hfresh' hbeforeAlong
    rcases step_cases hstep with
      ⟨-, hconsumed, hresolver, hstored⟩ | ⟨now, fresh, event, rfl, hqueue, hconsumed, hstored,
        hresolver⟩
    · rw [ht.faithful_iff, hresolver]
      intro service hmem
      refine hs.faithful_iff.mp hfaithful service ?_
      unfold pendingServices at hmem ⊢
      rw [hconsumed] at hmem
      exact (List.drop_sublist_drop_left _ hstored).subset hmem
    · cases hservice : resolvedService crates noise (now, fresh, event) with
      | none =>
        exact (hs.faithful_iff_of_skip ht hservice hconsumed hstored hresolver).mpr hfaithful
      | some service =>
        refine (hs.faithful_iff_of_recv ht (unseen_of_recv hbefore hfresh) hservice hconsumed
          hstored hresolver).mpr fun pending hpending => ?_
        split
        · rename_i hname
          exact hnamesake event hqueue service hservice pending hpending hname
        · exact hs.faithful_iff.mp hfaithful pending hpending

/-- **Entries are sent under their services** throughout a run exactly when no line is consumed
while a namesake of its service is pending. -/
theorem faithfulOnWire_iff_noNamesake {labels : List (Scanner.Label Uuid)}
    (hrun : (Scanner.run crates (buildAgentPipeline crates noise) policy).Run
      { resolver := .new } labels t)
    (hfresh : (labels.filterMap freshId).Nodup) :
    (Scanner.run crates (buildAgentPipeline crates noise) policy).Always
        (FaithfulOnWire crates noise) { resolver := .new } labels ↔
      (Scanner.run crates (buildAgentPipeline crates noise) policy).Along
        (NoNamesake crates noise) { resolver := .new } labels := by
  have hbegin : ∀ l₁ l₂, labels = l₁ ++ l₂ → (l₁.filterMap freshId).Nodup := by
    rintro l₁ l₂ rfl
    rw [List.filterMap_append] at hfresh
    exact hfresh.of_append_left
  refine hrun.always_iff_along_upto (fun l₁ l₂ t hl hrun halong =>
    faithfulOnWire_of_along hrun (hbegin l₁ l₂ hl) halong) ?_
  intro l₁ a l₂ s t hl hbefore hstep hfaithful
  have hl' : labels = (l₁ ++ [a]) ++ l₂ := by rw [hl, List.append_assoc, List.singleton_append]
  have hs := reached_of_run hbefore (hbegin l₁ _ hl)
  have ht := reached_of_run (hbefore.snoc hstep) (hbegin _ _ hl')
  unfold NoNamesake
  split
  · rename_i now fresh
    intro event hqueue service hservice pending hpending hname
    rcases step_cases hstep with ⟨hnone, -⟩ | ⟨_, _, event', heq, hqueue', hconsumed, hstored,
      hresolver⟩
    · cases hnone
    · obtain ⟨rfl, rfl⟩ := Scanner.Label.recv.inj heq
      obtain rfl := Option.some.inj (hqueue'.symm.trans hqueue)
      have hunseen := unseen_of_recv hbefore (hbegin _ _ hl')
      have hall := (hs.faithful_iff_of_recv ht hunseen hservice hconsumed hstored
        hresolver).mp hfaithful pending hpending
      rwa [if_pos hname] at hall
  · trivial

end Pending

instance decidableNoNamesake (crates : Externals) (noise : NoiseFilterConfig) (s : ScannerState) :
    ∀ a, Decidable (NoNamesake crates noise s a)
  | .recv _ _ => inferInstanceAs (Decidable (∀ event ∈ s.queue.head?, ∀ service ∈ _,
      ∀ pending ∈ _, _ → _))
  | .send _ | .hangUp | .cancel | .cancelled | .tick | .inserted | .insertFailed => .isTrue trivial

/-! ## A host that is called as the log file -/

/-- The log of requests without a virtual host of their own. -/
def accessLog : Path := Path.join [.text "var", .text "log", .text "nginx"] "access.log"

/-- A request for the host that the client names. -/
def hostLine (host : String) : TailLine where
  filePath := accessLog
  line := shopLine.line ++ " \"" ++ host ++ "\" 0.001"
  byteOffset := 0

/-- Requests without a host, and for a host of its own. -/
def twoHosts : List (Scanner.Label Uuid) :=
  [.send (.ok (hostLine "-")), .send (.ok (hostLine "shop.example")), .recv newYear 7,
    .recv newYear 8, .tick, .inserted]

theorem faithfulOnWire_twoHosts :
    (Scanner.run newYearCrates (buildAgentPipeline newYearCrates .default) ⟨100, true⟩).Always
      (FaithfulOnWire newYearCrates .default) { resolver := .new } twoHosts := by
  obtain ⟨t, hrun⟩ := Machine.exists_run (show ((Scanner.run newYearCrates
    (buildAgentPipeline newYearCrates .default) ⟨100, true⟩).exec { resolver := .new }
    twoHosts).isSome = true by decide +kernel)
  exact (faithfulOnWire_iff_noNamesake hrun (by decide)).mpr (by decide +kernel)

/-- A request without a host, and one for a host that is called as the log file. -/
def hostOfTheLog : List (Scanner.Label Uuid) :=
  [.send (.ok (hostLine "-")), .send (.ok (hostLine "access.log")), .recv newYear 7,
    .recv newYear 8]

theorem map_unitType_of_forall₂ {resolver : AgentServiceResolver} {entries : List InsertLogEntry}
    {services : List ServiceMeta}
    (h : List.Forall₂ (fun entry service => Carries (entryToProto entry resolver) service) entries
      services) :
    entries.map (fun entry => (entryToProto entry resolver).serviceUnitType)
      = services.map ServiceMeta.unitType := by
  induction h with
  | nil => rfl
  | cons hcarries _ ih => rw [List.map_cons, List.map_cons, hcarries.unitType, ih]

/-- The first request would be sent under the virtual host that the second one names. -/
theorem not_faithfulOnWire_hostOfTheLog :
    ¬ (Scanner.run newYearCrates (buildAgentPipeline newYearCrates .default) ⟨100, true⟩).Always
      (FaithfulOnWire newYearCrates .default) { resolver := .new } hostOfTheLog := by
  have hexec : ((Scanner.run newYearCrates
      (buildAgentPipeline newYearCrates .default) ⟨100, true⟩).exec { resolver := .new }
      hostOfTheLog).any (fun t =>
        t.pending.map (fun entry => (entryToProto entry t.resolver).serviceUnitType)
          = [unitTypeNginxVhost, unitTypeNginxVhost] ∧
        pendingServices newYearCrates .default t
          = [⟨"access.log", unitTypeSystemLog, none⟩,
            ⟨"access.log", unitTypeNginxVhost, some "access.log"⟩]) = true := by
    decide +kernel
  obtain ⟨t, hrun, h⟩ := Machine.exists_run_any hexec
  obtain ⟨hsent, hservices⟩ := of_decide_eq_true h
  intro halways
  have hfaithful : FaithfulOnWire newYearCrates .default t := halways.last hrun
  have hunits := map_unitType_of_forall₂ hfaithful
  rw [hsent, hservices] at hunits
  exact absurd hunits (by decide)

end Sentinalysis.Agent
