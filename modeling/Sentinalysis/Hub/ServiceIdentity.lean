/-
# Sentinalysis.Hub.ServiceIdentity — the services of the daemon and of the hub, in one table.

The daemon knows a service by its name, a request to the hub by its kind and name, and the table
has one row for a name.  A name that is asked for as two things is answered with one row: the row
of whoever came first.
-/
import Sentinalysis.Db.LogQueryRepo
import Sentinalysis.Hub.Ingest
import Sentinalysis.Lib.Transition
import Sentinalysis.LogScanner.DbServiceResolver

namespace Sentinalysis.Hub.ServiceIdentity

open Lib Db LogScanner

/-- The table, the ids the daemon keeps, those each request keeps, and the calls that were answered
so far. -/
structure State where
  services : Services := {}
  daemon : String → Option Uuid := fun _ => none
  requests : ℕ → ServiceCache := fun _ _ => none
  answered : List (InsertService × Uuid) := []

inductive Label
  | daemonStart
  | daemonResolve (service : ServiceMeta) (statements : Statements)
  | hubRequest (request : ℕ)
  | hubResolve (request : ℕ) (service : InsertService) (statements : Statements)
  deriving DecidableEq, Repr

/-- What a call adds to the answered ones. -/
def answers (service : InsertService) (answer : Option Uuid) : List (InsertService × Uuid) :=
  (answer.map (service, ·)).toList

/-- The daemon, started any number of times, and any number of requests to the hub. -/
def run : Machine State Label where
  step s
    | .daemonStart => some { s with daemon := ({} : DbServiceResolver).cache }
    | .daemonResolve service statements =>
      let (answer, resolver) :=
        DbServiceResolver.resolve statements { services := s.services, cache := s.daemon } service
      some
        { s with
          services := resolver.services
          daemon := resolver.cache
          answered := s.answered ++ answers service.insertService answer }
    | .hubRequest request =>
      some { s with requests := Function.update s.requests request fun _ => none }
    | .hubResolve request service statements =>
      let (answer, services, serviceCache) :=
        resolveService statements s.services (s.requests request) service
      some
        { s with
          services := services
          requests := Function.update s.requests request serviceCache
          answered := s.answered ++ answers service answer }

theorem step_daemonResolve {s : State} {service : ServiceMeta} {statements : Statements}
    {answer : Option Uuid} {resolver : DbServiceResolver}
    (h : DbServiceResolver.resolve statements { services := s.services, cache := s.daemon } service
      = (answer, resolver)) :
    run.step s (.daemonResolve service statements) = some
      { s with
        services := resolver.services
        daemon := resolver.cache
        answered := s.answered ++ answers service.insertService answer } := by
  simp only [run, h]

theorem step_hubResolve {s : State} {request : ℕ} {service : InsertService}
    {statements : Statements} {answer : Option Uuid} {services : Services}
    {serviceCache : ServiceCache}
    (h : resolveService statements s.services (s.requests request) service
      = (answer, services, serviceCache)) :
    run.step s (.hubResolve request service statements) = some
      { s with
        services := services
        requests := Function.update s.requests request serviceCache
        answered := s.answered ++ answers service answer } := by
  simp only [run, h]

/-! ## Calls -/

/-- A call of either side: what is asked for, what the side's cache says, and what the database
would do. -/
structure Call where
  service : InsertService
  cached : Option (Option Uuid)
  statements : Statements

namespace Call

/-- The answer, and the table afterwards. -/
def answer (call : Call) (services : Services) : Option Uuid × Services :=
  match call.cached with
  | some cached => (cached, services)
  | none =>
    let (created, services) :=
      ServiceRepository.getOrCreate services call.service call.statements
    (created.toOption, services)

/-- The call gets to see a row of that name if there is one: the cache knows an id, or it is not
asked and the lookup is answered. -/
def Reaches (call : Call) : Prop :=
  match call.cached with
  | some cached => cached.isSome = true
  | none => call.statements.lookup = .ok ()

instance (call : Call) : Decidable call.Reaches := by
  unfold Reaches
  exact match call.cached with
    | some cached => inferInstanceAs (Decidable (cached.isSome = true))
    | none => inferInstanceAs (Decidable (call.statements.lookup = .ok ()))

/-- What the cache says is the id of a row of that name. -/
def CacheKept (call : Call) (services : Services) : Prop :=
  ∀ id, call.cached = some (some id) →
    ∃ row ∈ services.rows, row.id = id ∧ row.name = call.service.name

variable {call : Call} {services : Services}

/-- What a call can come to: no answer, the row of that name, or a new row. -/
theorem answer_cases (hkept : call.CacheKept services) :
    call.answer services = (none, services) ∨
    (∃ row ∈ services.rows, row.name = call.service.name ∧ call.Reaches ∧
      call.answer services = (some row.id, services)) ∨
    ∃ id services', services'.rows = services.rows ++ [ServiceRepository.newService call.service id] ∧
      call.answer services = (some id, services') := by
  unfold answer Reaches
  cases hcached : call.cached with
  | some cached =>
    cases cached with
    | none => exact Or.inl rfl
    | some id =>
      obtain ⟨row, hrow, rfl, hname⟩ := hkept id hcached
      exact Or.inr (Or.inl ⟨row, hrow, hname, rfl, rfl⟩)
  | none =>
    rcases ServiceRepository.getOrCreate_cases services call.service call.statements with
      ⟨e, hcall⟩ | ⟨row, hrow, hname, hlookup, hcall⟩ | ⟨id, services', -, hrows, hcall⟩
    · left
      simp only [hcall]
      rfl
    · right; left
      refine ⟨row, hrow, hname, hlookup, ?_⟩
      simp only [hcall]
      rfl
    · right; right
      refine ⟨id, services', hrows, ?_⟩
      simp only [hcall]
      rfl

/-- A call that reaches a row of that name is answered with it. -/
theorem answer_of_reaches (hkept : call.CacheKept services) (hreaches : call.Reaches)
    {row : Service} (hrow : row ∈ services.rows) (hname : row.name = call.service.name) :
    call.answer services = (some row.id, services) := by
  unfold Reaches at hreaches
  unfold answer
  cases hcached : call.cached with
  | some cached =>
    rw [hcached] at hreaches
    obtain ⟨id, rfl⟩ := Option.isSome_iff_exists.mp hreaches
    obtain ⟨row', hrow', rfl, hname'⟩ := hkept id hcached
    rw [services.eq_of_name_eq hrow' hrow (hname'.trans hname.symm)]
  | none =>
    rw [hcached] at hreaches
    simp only [ServiceRepository.getOrCreate_of_row hreaches hrow hname]
    rfl

/-- Rows are only added. -/
theorem rows_subset (hkept : call.CacheKept services) :
    services.rows ⊆ (call.answer services).2.rows := by
  rcases answer_cases hkept with h | ⟨_, _, _, _, h⟩ | ⟨id, services', hrows, h⟩
  · rw [h]
    exact List.Subset.refl _
  · rw [h]
    exact List.Subset.refl _
  · rw [h, hrows]
    exact List.subset_append_left _ _

/-- An answer is the id of a row of that name. -/
theorem exists_row_of_answer (hkept : call.CacheKept services) {id : Uuid}
    (h : (call.answer services).1 = some id) :
    ∃ row ∈ (call.answer services).2.rows, row.id = id ∧ row.name = call.service.name := by
  rcases answer_cases hkept with hcall | ⟨row, hrow, hname, -, hcall⟩ | ⟨id', services', hrows, hcall⟩
  · rw [hcall] at h
    cases h
  · rw [hcall] at h ⊢
    exact ⟨row, hrow, Option.some.inj h, hname⟩
  · rw [hcall] at h ⊢
    obtain rfl := Option.some.inj h
    refine ⟨ServiceRepository.newService call.service id', ?_, rfl, rfl⟩
    rw [hrows]
    exact List.mem_append_right _ (List.mem_singleton.mpr rfl)

end Call

/-- The call that a step makes. -/
def State.call (s : State) : Label → Option Call
  | .daemonResolve service statements =>
    some ⟨service.insertService, (s.daemon service.name).map some, statements⟩
  | .hubResolve request service statements =>
    some ⟨service, s.requests request (service.unitType, service.name), statements⟩
  | .daemonStart | .hubRequest _ => none

/-- Some cache keeps an id under a name. -/
def State.Keeps (s : State) (name : String) (id : Uuid) : Prop :=
  s.daemon name = some id ∨ ∃ request unitType, s.requests request (unitType, name) = some (some id)

/-- Every id that is kept is the id of a row of that name. -/
def NamesKept (s : State) : Prop :=
  ∀ name id, s.Keeps name id → ∃ row ∈ s.services.rows, row.id = id ∧ row.name = name

variable {s t : State} {a : Label} {call : Call}

theorem NamesKept.cacheKept (h : NamesKept s) (hcall : s.call a = some call) :
    call.CacheKept s.services := by
  intro id hcached
  cases a with
  | daemonStart => cases hcall
  | daemonResolve service statements =>
    obtain rfl := Option.some.inj hcall
    obtain ⟨id', hid, heq⟩ := Option.map_eq_some_iff.mp hcached
    obtain rfl := Option.some.inj heq
    exact h service.name id' (Or.inl hid)
  | hubRequest request => cases hcall
  | hubResolve request service statements =>
    obtain rfl := Option.some.inj hcall
    exact h service.name id (Or.inr ⟨request, service.unitType, hcached⟩)

/-- A step without a call changes nothing but caches, which it empties. -/
theorem of_step_quiet (hcall : s.call a = none) (hstep : run.step s a = some t) :
    t.services = s.services ∧ t.answered = s.answered ∧
      ∀ name id, t.Keeps name id → s.Keeps name id := by
  cases a with
  | daemonStart =>
    obtain rfl := Option.some.inj hstep
    refine ⟨rfl, rfl, ?_⟩
    rintro name id (hdaemon | hrequest)
    · cases hdaemon
    · exact Or.inr hrequest
  | daemonResolve service statements => cases hcall
  | hubRequest request =>
    obtain rfl := Option.some.inj hstep
    refine ⟨rfl, rfl, ?_⟩
    rintro name id (hdaemon | ⟨request', unitType, hkept⟩)
    · exact Or.inl hdaemon
    · by_cases hsame : request' = request
      · simp only [hsame, Function.update_self] at hkept
        cases hkept
      · simp only [Function.update_of_ne hsame] at hkept
        exact Or.inr ⟨request', unitType, hkept⟩
  | hubResolve request service statements => cases hcall

/-- A step with a call: the table and the answer are the call's, and only its answer is kept
anew, under its name. -/
theorem of_step_call (hcall : s.call a = some call) (hstep : run.step s a = some t) :
    t.services = (call.answer s.services).2 ∧
      t.answered = s.answered ++ answers call.service (call.answer s.services).1 ∧
      ∀ name id, t.Keeps name id →
        s.Keeps name id ∨ (name = call.service.name ∧ (call.answer s.services).1 = some id) := by
  cases a with
  | daemonStart => cases hcall
  | daemonResolve service statements =>
    obtain rfl := Option.some.inj hcall
    simp only [run, DbServiceResolver.resolve] at hstep
    unfold Call.answer
    cases hcached : s.daemon service.name with
    | some id =>
      simp only [hcached] at hstep
      obtain rfl := Option.some.inj hstep
      exact ⟨rfl, rfl, fun _ _ h => Or.inl h⟩
    | none =>
      simp only [hcached] at hstep
      simp only [Option.map_none]
      rcases hget : ServiceRepository.getOrCreate s.services service.insertService statements with
        ⟨_ | id, services⟩
      · simp only [hget] at hstep
        obtain rfl := Option.some.inj hstep
        exact ⟨rfl, rfl, fun _ _ h => Or.inl h⟩
      · simp only [hget] at hstep
        obtain rfl := Option.some.inj hstep
        refine ⟨rfl, rfl, ?_⟩
        rintro name id' (hdaemon | hrequest)
        · by_cases hname : name = service.name
          · simp only [hname, Function.update_self] at hdaemon
            exact Or.inr ⟨hname, hdaemon⟩
          · simp only [Function.update_of_ne hname] at hdaemon
            exact Or.inl (Or.inl hdaemon)
        · exact Or.inl (Or.inr hrequest)
  | hubRequest request => cases hcall
  | hubResolve request service statements =>
    obtain rfl := Option.some.inj hcall
    simp only [run, resolveService] at hstep
    unfold Call.answer
    cases hcached : s.requests request (service.unitType, service.name) with
    | some cached =>
      simp only [hcached] at hstep
      obtain rfl := Option.some.inj hstep
      refine ⟨rfl, rfl, ?_⟩
      rintro name id (hdaemon | hrequest)
      · exact Or.inl (Or.inl hdaemon)
      · simp only [Function.update_eq_self] at hrequest
        exact Or.inl (Or.inr hrequest)
    | none =>
      simp only [hcached] at hstep
      obtain rfl := Option.some.inj hstep
      refine ⟨rfl, rfl, ?_⟩
      rintro name id (hdaemon | ⟨request', unitType, hkept⟩)
      · exact Or.inl (Or.inl hdaemon)
      · by_cases hsame : request' = request
        · simp only [hsame, Function.update_self] at hkept
          by_cases hkey : (unitType, name) = (service.unitType, service.name)
          · rw [hkey, Function.update_self] at hkept
            exact Or.inr ⟨(Prod.mk.inj hkey).2, Option.some.inj hkept⟩
          · rw [Function.update_of_ne hkey] at hkept
            exact Or.inl (Or.inr ⟨request, unitType, hkept⟩)
        · simp only [Function.update_of_ne hsame] at hkept
          exact Or.inl (Or.inr ⟨request', unitType, hkept⟩)

/-- Every step keeps the names of what is kept. -/
theorem NamesKept.step (h : NamesKept s) (hstep : run.step s a = some t) : NamesKept t := by
  intro name id hkeeps
  cases hcall : s.call a with
  | none =>
    obtain ⟨hservices, -, hkept⟩ := of_step_quiet hcall hstep
    rw [hservices]
    exact h name id (hkept name id hkeeps)
  | some call =>
    obtain ⟨hservices, -, hkept⟩ := of_step_call hcall hstep
    have hcache := h.cacheKept hcall
    rw [hservices]
    rcases hkept name id hkeeps with hbefore | ⟨rfl, hanswer⟩
    · obtain ⟨row, hrow, hid, hname⟩ := h name id hbefore
      exact ⟨row, Call.rows_subset hcache hrow, hid, hname⟩
    · exact Call.exists_row_of_answer hcache hanswer

theorem namesKept_of_run {labels : List Label} (hrun : run.Run {} labels t) : NamesKept t := by
  refine hrun.invariant ?_ fun _ _ _ h hstep => h.step hstep
  rintro name id (hdaemon | ⟨_, _, hrequest⟩)
  · cases hdaemon
  · cases hrequest

/-! ## Identity -/

/-- Every answered call was answered with a row that is what it asked for. -/
def Returned (s : State) : Prop :=
  ∀ service id, (service, id) ∈ s.answered → ∃ row ∈ s.services.rows, row.id = id ∧ row.IsFor service

/-- The identity of services is kept. -/
structure Kept (s : State) : Prop where
  returned : Returned s
  /-- One row is never the answer to two identities. -/
  apart : ∀ service service' id, (service, id) ∈ s.answered → (service', id) ∈ s.answered →
    service.unitType = service'.unitType ∧ service.name = service'.name
  /-- The entries of a service without a virtual host are found as those of a system log. -/
  visible : ∀ service id, (service, id) ∈ s.answered → service.virtualHost = none →
    ∀ store : LogStore, store.services = s.services → ∀ entry : LogEntry, entry.serviceId = some id →
      store.rowOf .SystemLog service.name entry = some (logEntryRow entry service.name)

/-- The rest follows from what is returned. -/
theorem Returned.kept (h : Returned s) : Kept s := by
  refine ⟨h, ?_, ?_⟩
  · intro service service' id hanswered hanswered'
    obtain ⟨row, hrow, hid, hname, hunit, -⟩ := h service id hanswered
    obtain ⟨row', hrow', hid', hname', hunit', -⟩ := h service' id hanswered'
    have hsame : row = row' := s.services.eq_of_id_eq hrow hrow' (hid.trans hid'.symm)
    subst hsame
    exact ⟨hunit.symm.trans hunit', hname.symm.trans hname'⟩
  · intro service id hanswered hnone store hstore entry hentry
    obtain ⟨row, hrow, rfl, hname, -, hvhost⟩ := h service id hanswered
    have hservice : store.serviceOf entry = some row := by
      rw [LogStore.serviceOf, hentry, hstore]
      exact s.services.findId_of_mem hrow
    have hselects : selects .SystemLog service.name row = true :=
      decide_eq_true ⟨hname, hvhost.trans hnone⟩
    rw [LogStore.rowOf, hservice, Option.filter_some_pos hselects]
    rfl

/-- At a call that gets to see a row of the name it asks for, this row has the kind and the virtual
host it asks for. -/
def Agrees (s : State) (a : Label) : Prop :=
  ∀ call ∈ s.call a, call.Reaches →
    ∀ row ∈ s.services.rows, row.name = call.service.name → row.IsFor call.service

instance decidableAgrees (s : State) (a : Label) : Decidable (Agrees s a) :=
  match h : s.call a with
  | none => .isTrue fun call hcall => by rw [h] at hcall; cases hcall
  | some call => decidable_of_iff (call.Reaches →
      ∀ row ∈ s.services.rows, row.name = call.service.name → row.IsFor call.service) (by
        unfold Agrees
        rw [h]
        simp)

/-- A step that agrees keeps what was returned. -/
theorem Returned.step (h : Returned s) (hnames : NamesKept s) (hagrees : Agrees s a)
    (hstep : run.step s a = some t) : Returned t := by
  intro service id hanswered
  cases hcall : s.call a with
  | none =>
    obtain ⟨hservices, hsame, -⟩ := of_step_quiet hcall hstep
    rw [hsame] at hanswered
    rw [hservices]
    exact h service id hanswered
  | some call =>
    obtain ⟨hservices, hadded, -⟩ := of_step_call hcall hstep
    have hcache := hnames.cacheKept hcall
    rw [hadded, List.mem_append] at hanswered
    rw [hservices]
    rcases hanswered with hbefore | hnew
    · obtain ⟨row, hrow, hrest⟩ := h service id hbefore
      exact ⟨row, Call.rows_subset hcache hrow, hrest⟩
    · rcases Call.answer_cases hcache with
        hanswer | ⟨row, hrow, hname, hreaches, hanswer⟩ | ⟨id', services', hrows, hanswer⟩
      · rw [hanswer] at hnew
        cases hnew
      · -- the row of that name
        rw [hanswer] at hnew ⊢
        obtain ⟨rfl, rfl⟩ := Prod.mk.inj (List.mem_singleton.mp hnew)
        exact ⟨row, hrow, rfl, hagrees call hcall hreaches row hrow hname⟩
      · -- a new row
        rw [hanswer] at hnew ⊢
        obtain ⟨rfl, rfl⟩ := Prod.mk.inj (List.mem_singleton.mp hnew)
        refine ⟨ServiceRepository.newService call.service id, ?_, rfl,
          ServiceRepository.newService_isFor call.service id⟩
        rw [hrows]
        exact List.mem_append_right _ (List.mem_singleton.mpr rfl)

/-- A step after which what was returned is right agrees. -/
theorem agrees_of_returned (hnames : NamesKept s) (hstep : run.step s a = some t)
    (h : Returned t) : Agrees s a := by
  intro call hcall hreaches row hrow hname
  obtain ⟨hservices, hadded, -⟩ := of_step_call hcall hstep
  have hanswer := Call.answer_of_reaches (hnames.cacheKept hcall) hreaches hrow hname
  rw [hanswer] at hservices hadded
  have hanswered : (call.service, row.id) ∈ t.answered := by
    rw [hadded]
    exact List.mem_append_right _ (List.mem_singleton.mpr rfl)
  obtain ⟨row', hrow', hid, hfor⟩ := h call.service row.id hanswered
  rw [hservices] at hrow'
  rwa [s.services.eq_of_id_eq hrow hrow' hid.symm]

/-- **The identity of services is kept** exactly when every call that gets to see a row of the name
it asks for finds the kind and the virtual host it asks for. -/
theorem always_kept_iff {labels : List Label} (hrun : run.Run {} labels t) :
    run.Always Kept {} labels ↔ run.Along Agrees {} labels := by
  refine hrun.always_iff_along_of_keep (J := Returned) (fun _ _ h => (by cases h)) ?_
    (fun _ => Returned.kept) ?_
  · intro labels s a t hbefore hreturned hagrees hstep
    exact hreturned.step (namesKept_of_run hbefore) hagrees hstep
  · intro labels s a t hbefore hstep hkept
    exact agrees_of_returned (namesKept_of_run hbefore) hstep hkept.returned

/-! ## Names that meet -/

/-- The database answers, and a row that is made gets this id. -/
def answering (id : Uuid) : Statements where
  insert := .ok id

/-- A virtual host, from the daemon and from an agent, and a container. -/
def distinctNames : List Label :=
  let shop : ServiceMeta := ⟨"shop.example", unitTypeNginxVhost, some "shop.example"⟩
  [.daemonStart, .daemonResolve shop (answering 1), .hubRequest 0,
    .hubResolve 0 (containerService "db") (answering 2),
    .hubResolve 0 shop.insertService (answering 3)]

/-- All of them keep their identity. -/
theorem always_kept_distinctNames : run.Always Kept {} distinctNames := by
  obtain ⟨t, hrun⟩ := Machine.exists_run (M := run) (s := {}) (l := distinctNames)
    (by decide +kernel)
  exact (always_kept_iff hrun).mpr (by decide +kernel)

/-- A request whose `Host` header is the name of a log file. -/
def hostHeaderEntry : LogScanner.ParsedLogEntry :=
  { shopEntry with metadata := { shopEntry.metadata with virtualHost := some "auth.log" } }

/-- A line of `auth.log` is filed after that request. -/
def hostHeader : List Label :=
  let accessLog := Path.join [.text "var", .text "log", .text "nginx"] "access.log"
  let authLog := Path.join [.text "var", .text "log"] "auth.log"
  [.daemonStart, .daemonResolve (serviceOf accessLog hostHeaderEntry) (answering 1),
    .daemonResolve (serviceOf authLog shopEntry) (answering 2)]

/-- The log file is filed under the row of the virtual host, and its entries are not found. -/
theorem hostHeader_not_kept : ∃ t, run.Run {} hostHeader t ∧
    (⟨"auth.log", unitTypeSystemLog, none, none⟩, 1) ∈ t.answered ∧
    (∀ row ∈ t.services.rows, row.id = 1 →
      row.unitType = unitTypeNginxVhost ∧ row.virtualHost = some "auth.log") ∧ ¬ Kept t := by
  have hexec : (run.exec {} hostHeader).any (fun t =>
      (⟨"auth.log", unitTypeSystemLog, none, none⟩, 1) ∈ t.answered ∧
      ∀ row ∈ t.services.rows, row.id = 1 →
        row.unitType = unitTypeNginxVhost ∧ row.virtualHost = some "auth.log") = true := by
    decide +kernel
  obtain ⟨t, hrun, h⟩ := Machine.exists_run_any hexec
  obtain ⟨hanswered, hrows⟩ := of_decide_eq_true h
  refine ⟨t, hrun, hanswered, hrows, fun hkept => ?_⟩
  obtain ⟨row, hrow, hid, -, hunit, -⟩ := hkept.returned _ _ hanswered
  rw [(hrows row hrow hid).1] at hunit
  exact absurd hunit (by decide)

end Sentinalysis.Hub.ServiceIdentity
