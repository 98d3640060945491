/-
# Sentinalysis.Hub.ServiceRace — calls of `get_or_create` that run at the same time.

A call is two statements, and the statements of other calls come in between: a call that saw no row
of its name may find the name taken when it makes one.  The daemon and the requests of the hub share
the table, and each files its entries under whatever its call returned, or under nothing.
-/
import Mathlib.Data.Finset.Card
import Mathlib.Data.Fintype.EquivFin
import Sentinalysis.Hub.ServiceIdentity

namespace Sentinalysis.Hub.ServiceRace

open Lib Db LogScanner

/-! ## The two statements of a call -/

/-- How far a call has come: before its lookup, after a lookup that found nothing, or done. -/
inductive Progress
  | looking
  | creating
  | returned (result : Except SentinelError Uuid)
  deriving DecidableEq, Repr

/-- A call of `get_or_create`. -/
structure Call where
  service : InsertService
  progress : Progress
  deriving DecidableEq, Repr

/-- The first statement, and what follows from its answer. -/
def lookup (services : Services) (service : InsertService) : Progress :=
  match ServiceRepository.findByName services service.name with
  | some existing => .returned (.ok existing.id)
  | none => .creating

/-- Without anything in between, the two statements are the call. -/
theorem getOrCreate_eq (services : Services) (service : InsertService) (id : Uuid) :
    ServiceRepository.getOrCreate services service { insert := .ok id } =
      match lookup services service with
      | .returned result => (result, services)
      | _ => ServiceRepository.create services service (.ok id) := by
  unfold ServiceRepository.getOrCreate lookup
  cases ServiceRepository.findByName services service.name with
  | none => rfl
  | some existing => rfl

theorem lookup_cases (services : Services) (service : InsertService) :
    (∃ row ∈ services.rows, row.name = service.name ∧
      lookup services service = .returned (.ok row.id)) ∨
    ((∀ row ∈ services.rows, row.name ≠ service.name) ∧ lookup services service = .creating) := by
  unfold lookup
  cases hfind : ServiceRepository.findByName services service.name with
  | none => exact Or.inr ⟨services.find_eq_none_iff.mp hfind, rfl⟩
  | some existing =>
    obtain ⟨hrow, hname⟩ := services.find_eq_some_iff.mp hfind
    exact Or.inl ⟨existing, hrow, hname, rfl⟩

/-! ## What the callers make of an answer -/

/-- What the entries of a caller are filed under. -/
def filedUnder (result : Except SentinelError Uuid) : Option Uuid := result.toOption

/-- The daemon, at a name it does not know yet. -/
theorem resolve_eq_filedUnder {statements : Statements} {resolver : DbServiceResolver}
    {service : ServiceMeta} (hnew : resolver.cache service.name = none) :
    (DbServiceResolver.resolve statements resolver service).1 = filedUnder
      (ServiceRepository.getOrCreate resolver.services service.insertService statements).1 := by
  simp only [DbServiceResolver.resolve, hnew]
  rcases ServiceRepository.getOrCreate resolver.services service.insertService statements with
    ⟨_ | id, services⟩
  · rfl
  · rfl

/-- A request, at a service it does not know yet; what it is filed under is kept for the request. -/
theorem resolveService_eq_filedUnder {statements : Statements} {services : Services}
    {serviceCache : ServiceCache} {service : InsertService}
    (hnew : serviceCache (service.unitType, service.name) = none) :
    (resolveService statements services serviceCache service).1 = filedUnder
        (ServiceRepository.getOrCreate services service statements).1 ∧
      (resolveService statements services serviceCache service).2.2
        (service.unitType, service.name) = some (filedUnder
          (ServiceRepository.getOrCreate services service statements).1) := by
  simp only [resolveService, hnew]
  exact ⟨rfl, Function.update_self _ _ _⟩

/-! ## Interleaved calls -/

/-- The table, and the calls by who makes them. -/
structure State where
  services : Services
  calls : ℕ → Option Call := fun _ => none

/-- A call begins, or takes one of its statements; the database gives a row its id. -/
inductive Label
  | call (caller : ℕ) (service : InsertService)
  | find (caller : ℕ)
  | insert (caller : ℕ) (id : Uuid)
  deriving DecidableEq, Repr

def State.put (s : State) (caller : ℕ) (call : Call) : State :=
  { s with calls := Function.update s.calls caller (some call) }

/-- The second statement. -/
def State.create (s : State) (caller : ℕ) (service : InsertService) (id : Uuid) : State :=
  let (result, services) := ServiceRepository.create s.services service (.ok id)
  { services := services
    calls := Function.update s.calls caller (some ⟨service, .returned result⟩) }

/-- Any number of calls. No statement fails but for a name that is taken: the ids that the database
makes are new. -/
def run : Machine State Label where
  step s
    | .call caller service => match s.calls caller with
      | none => some (s.put caller ⟨service, .looking⟩)
      | some _ => none
    | .find caller => match s.calls caller with
      | some ⟨service, .looking⟩ => some (s.put caller ⟨service, lookup s.services service⟩)
      | _ => none
    | .insert caller id => match s.calls caller with
      | some ⟨service, .creating⟩ =>
        if id ∈ s.services.rows.map Service.id then none else some (s.create caller service id)
      | _ => none

section Steps

variable {s t : State}

/-- What a step can do: a call begins, is answered with a row, goes on, makes its row, or finds its
name taken. -/
inductive Effect (s : State) : Label → State → Prop
  | call (caller : ℕ) (service : InsertService) (hnew : s.calls caller = none) :
      Effect s (.call caller service) (s.put caller ⟨service, .looking⟩)
  | found (caller : ℕ) (service : InsertService) (row : Service) (hrow : row ∈ s.services.rows)
      (hname : row.name = service.name) :
      Effect s (.find caller) (s.put caller ⟨service, .returned (.ok row.id)⟩)
  | missed (caller : ℕ) (service : InsertService) :
      Effect s (.find caller) (s.put caller ⟨service, .creating⟩)
  | made (caller : ℕ) (service : InsertService) (id : Uuid) (services : Services)
      (hcall : s.calls caller = some ⟨service, .creating⟩)
      (hfree : ∀ row ∈ s.services.rows, row.name ≠ service.name)
      (hrows : services.rows = s.services.rows ++ [ServiceRepository.newService service id]) :
      Effect s (.insert caller id)
        { services := services
          calls := Function.update s.calls caller (some ⟨service, .returned (.ok id)⟩) }
  | taken (caller : ℕ) (service : InsertService) (id : Uuid) (row : Service)
      (hcall : s.calls caller = some ⟨service, .creating⟩) (hrow : row ∈ s.services.rows)
      (hname : row.name = service.name) :
      Effect s (.insert caller id)
        (s.put caller ⟨service, .returned (.error ServiceRepository.uniqueViolation)⟩)

/-- The second statement makes the row, or finds the name taken. -/
theorem create_cases {caller : ℕ} {service : InsertService} {id : Uuid}
    (hcall : s.calls caller = some ⟨service, .creating⟩)
    (hid : id ∉ s.services.rows.map Service.id) :
    Effect s (.insert caller id) (s.create caller service id) := by
  by_cases htaken : ∃ row ∈ s.services.rows, row.name = service.name
  · obtain ⟨row, hrow, hname⟩ := htaken
    have htaken := ServiceRepository.create_of_taken hrow hname id
    rw [State.create, htaken]
    exact Effect.taken caller service id row hcall hrow hname
  · have hfree : ∀ row ∈ s.services.rows, row.name ≠ service.name :=
      fun row hrow hname => htaken ⟨row, hrow, hname⟩
    obtain ⟨services, hrows, hmade⟩ := ServiceRepository.create_of_fresh hid hfree
    rw [State.create, hmade]
    exact Effect.made caller service id services hcall hfree hrows

/-- Every step is one of these. -/
theorem effect_of_step {a : Label} (h : run.step s a = some t) : Effect s a t := by
  cases a with
  | call caller service =>
    simp only [run] at h
    split at h
    · next hnew => exact Option.some.inj h ▸ Effect.call caller service hnew
    · cases h
  | find caller =>
    simp only [run] at h
    split at h
    · next service _ =>
      rcases lookup_cases s.services service with ⟨row, hrow, hname, hfound⟩ | ⟨-, hmissed⟩
      · rw [hfound] at h
        exact Option.some.inj h ▸ Effect.found caller service row hrow hname
      · rw [hmissed] at h
        exact Option.some.inj h ▸ Effect.missed caller service
    · cases h
  | insert caller id =>
    simp only [run] at h
    split at h
    · next service hcall =>
      rw [Option.ite_none_left_eq_some] at h
      exact Option.some.inj h.2 ▸ create_cases hcall h.1
    · cases h

end Steps

/-! ## Agreement -/

/-- Every call that has returned was answered with the row of its name. -/
def Answered (s : State) : Prop :=
  ∀ caller service result, s.calls caller = some ⟨service, .returned result⟩ →
    ∃ row ∈ s.services.rows, row.name = service.name ∧ result = .ok row.id

/-- The calls that have returned agree. -/
structure Agreed (s : State) : Prop where
  ok : ∀ caller service result, s.calls caller = some ⟨service, .returned result⟩ →
    ∃ id, result = .ok id
  /-- Calls with one name have one answer. -/
  same : ∀ caller caller' service service' result result',
    s.calls caller = some ⟨service, .returned result⟩ →
    s.calls caller' = some ⟨service', .returned result'⟩ → service.name = service'.name →
    result = result'
  /-- The entries of every caller are filed under the row of the name. -/
  linked : ∀ caller service result, s.calls caller = some ⟨service, .returned result⟩ →
    ∃ row ∈ s.services.rows, row.name = service.name ∧ filedUnder result = some row.id

variable {s t : State}

/-- The name is unique, so that one row is the answer to all. -/
theorem Answered.agreed (h : Answered s) : Agreed s := by
  refine ⟨?_, ?_, ?_⟩
  · intro caller service result hreturned
    obtain ⟨row, -, -, hresult⟩ := h caller service result hreturned
    exact ⟨row.id, hresult⟩
  · intro caller caller' service service' result result' hreturned hreturned' hsame
    obtain ⟨row, hrow, hname, rfl⟩ := h caller service result hreturned
    obtain ⟨row', hrow', hname', rfl⟩ := h caller' service' result' hreturned'
    have heq : row.name = row'.name := hname.trans (hsame.trans hname'.symm)
    rw [s.services.eq_of_name_eq hrow hrow' heq]
  · intro caller service result hreturned
    obtain ⟨row, hrow, hname, rfl⟩ := h caller service result hreturned
    exact ⟨row, hrow, hname, rfl⟩

/-- A call makes its row only while there is none of that name. -/
def Unovertaken (s : State) : Label → Prop
  | .insert caller _ => ∀ call ∈ s.calls caller,
      ∀ row ∈ s.services.rows, row.name ≠ call.service.name
  | .call _ _ | .find _ => True

instance decidableUnovertaken (s : State) : ∀ a, Decidable (Unovertaken s a)
  | .insert caller _ => match h : s.calls caller with
    | none => .isTrue fun call hcall => by rw [h] at hcall; cases hcall
    | some call => decidable_of_iff
        (∀ row ∈ s.services.rows, row.name ≠ call.service.name) (by
          show _ ↔ ∀ call ∈ s.calls caller, _
          simp [h])
  | .call _ _ | .find _ => .isTrue trivial

/-- A call of `s` that takes a step, with what it then is; the others stay as they are. -/
theorem Answered.update (h : Answered s) {services : Services}
    (hrows : s.services.rows ⊆ services.rows) {caller : ℕ} {call : Call}
    (hcall : ∀ result, call.progress = .returned result →
      ∃ row ∈ services.rows, row.name = call.service.name ∧ result = .ok row.id) :
    Answered { services := services, calls := Function.update s.calls caller (some call) } := by
  intro caller' service result hreturned
  by_cases hsame : caller' = caller
  · simp only [hsame, Function.update_self, Option.some.injEq] at hreturned
    subst hreturned
    exact hcall result rfl
  · simp only [Function.update_of_ne hsame] at hreturned
    obtain ⟨row, hrow, hrest⟩ := h caller' service result hreturned
    exact ⟨row, hrows hrow, hrest⟩

/-- A step that is not overtaken keeps the answers. -/
theorem Answered.step (h : Answered s) {a : Label} (hfree : Unovertaken s a)
    (hstep : run.step s a = some t) : Answered t := by
  cases effect_of_step hstep with
  | call caller service _ =>
    apply h.update (List.Subset.refl _)
    intro result hreturned
    cases hreturned
  | found caller service row hrow hname =>
    apply h.update (List.Subset.refl _)
    intro result hreturned
    obtain rfl := Progress.returned.inj hreturned
    exact ⟨row, hrow, hname, rfl⟩
  | missed caller service =>
    apply h.update (List.Subset.refl _)
    intro result hreturned
    cases hreturned
  | made caller service id services _ _ hrows =>
    apply h.update (hrows ▸ List.subset_append_left _ _)
    intro result hreturned
    obtain rfl := Progress.returned.inj hreturned
    refine ⟨ServiceRepository.newService service id, ?_, rfl, rfl⟩
    rw [hrows]
    exact List.mem_append_right _ (List.mem_singleton.mpr rfl)
  | taken caller service id row hcall hrow hname => exact absurd hname (hfree _ hcall row hrow)

/-- A call that is overtaken is answered with an error. -/
theorem unovertaken_of_agreed {a : Label} (hstep : run.step s a = some t) (h : Agreed t) :
    Unovertaken s a := by
  cases effect_of_step hstep with
  | call _ _ _ => exact trivial
  | found _ _ _ _ _ => exact trivial
  | missed _ _ => exact trivial
  | made caller service id services hcall hfree hrows =>
    intro call hcall'
    obtain rfl : _ = call := Option.some.inj (hcall.symm.trans hcall')
    exact hfree
  | taken caller service id row hcall hrow hname =>
    obtain ⟨id, hid⟩ := h.ok caller service _ (Function.update_self _ _ _)
    cases hid

/-- Every call comes to an answer with two steps of its own. -/
theorem exists_returned {caller : ℕ} {call : Call} (hcall : s.calls caller = some call) :
    ∃ labels u result, labels.length ≤ 2 ∧ run.Run s labels u ∧
      u.calls caller = some ⟨call.service, .returned result⟩ := by
  -- the second statement, wherever the call has come to it
  have hsecond : ∀ s : State, s.calls caller = some ⟨call.service, .creating⟩ →
      ∃ a u result, run.step s a = some u ∧
        u.calls caller = some ⟨call.service, .returned result⟩ := by
    intro s hcall
    obtain ⟨id, hid⟩ := Infinite.exists_notMem_finset (s.services.rows.map Service.id).toFinset
    rw [List.mem_toFinset] at hid
    refine ⟨.insert caller id, s.create caller call.service id, _, ?_, Function.update_self _ _ _⟩
    simp only [run, hcall, if_neg hid]
  obtain ⟨service, progress⟩ := call
  cases progress with
  | looking =>
    have hfind : run.step s (.find caller)
        = some (s.put caller ⟨service, lookup s.services service⟩) := by
      simp only [run, hcall]
    rcases lookup_cases s.services service with ⟨row, -, -, hfound⟩ | ⟨-, hmissed⟩
    · rw [hfound] at hfind
      exact ⟨[.find caller], _, _, Nat.le_succ 1, Machine.Run.nil.snoc hfind,
        Function.update_self _ _ _⟩
    · rw [hmissed] at hfind
      obtain ⟨a, u, result, hstep, hreturned⟩ := hsecond (s.put caller ⟨service, .creating⟩)
        (Function.update_self _ _ _)
      exact ⟨[.find caller, a], u, result, Nat.le_refl 2,
        (Machine.Run.nil.snoc hfind).snoc hstep, hreturned⟩
  | creating =>
    obtain ⟨a, u, result, hstep, hreturned⟩ := hsecond s hcall
    exact ⟨[a], u, result, Nat.le_succ 1, Machine.Run.nil.snoc hstep, hreturned⟩
  | returned result => exact ⟨[], s, result, Nat.zero_le 2, Machine.Run.nil, hcall⟩

/-- **Calls agree** exactly when none of them is overtaken between its two statements; whether they
agree or not, every call comes to an answer. -/
theorem always_agreed_iff (services : Services) {labels : List Label}
    (hrun : run.Run { services := services } labels t) :
    (run.Always Agreed { services := services } labels ↔
      run.Along Unovertaken { services := services } labels) ∧
    ∀ caller call, t.calls caller = some call → ∃ more u result, more.length ≤ 2 ∧
      run.Run t more u ∧ u.calls caller = some ⟨call.service, .returned result⟩ := by
  refine ⟨hrun.always_iff_along_of_keep (J := Answered) ?_ ?_ (fun _ => Answered.agreed) ?_,
    fun caller call hcall => exists_returned hcall⟩
  · intro caller service result hreturned
    cases hreturned
  · intro labels s a t _ h hfree hstep
    exact h.step hfree hstep
  · intro labels s a t _ hstep hagreed
    exact unovertaken_of_agreed hstep hagreed

/-! ## A race -/

/-- The daemon and a request of the hub meet the service of `shop`, one after the other. -/
def inTurn : List Label :=
  let shop : ServiceMeta := ⟨"shop.example", unitTypeNginxVhost, some "shop.example"⟩
  [.call 0 shop.insertService, .find 0, .insert 0 1, .call 1 shop.insertService, .find 1]

theorem always_agreed_inTurn : run.Always Agreed { services := {} } inTurn := by
  obtain ⟨t, hrun⟩ := Machine.exists_run (M := run) (s := { services := {} }) (l := inTurn)
    (by decide +kernel)
  exact (always_agreed_iff {} hrun).1.mpr (by decide +kernel)

/-- They meet it at the same time. -/
def atOnce : List Label :=
  let shop : ServiceMeta := ⟨"shop.example", unitTypeNginxVhost, some "shop.example"⟩
  [.call 0 shop.insertService, .call 1 shop.insertService, .find 0, .find 1, .insert 0 1,
    .insert 1 2]

/-- The later of the two is refused, and its entries are filed under nothing. -/
theorem not_agreed_atOnce : ∃ t, run.Run { services := {} } atOnce t ∧ ¬ Agreed t ∧
    ∃ service, t.calls 1 =
        some ⟨service, .returned (.error ServiceRepository.uniqueViolation)⟩ ∧
      filedUnder (.error ServiceRepository.uniqueViolation) = none := by
  have hexec : (run.exec { services := {} } atOnce).any (fun t => (t.calls 1).any fun call =>
      call.progress = .returned (.error ServiceRepository.uniqueViolation)) = true := by
    decide +kernel
  obtain ⟨t, hrun, h⟩ := Machine.exists_run_any hexec
  obtain ⟨⟨service, progress⟩, hcall, hprogress⟩ := (Option.any_eq_true _ _).mp h
  obtain rfl : progress = _ := of_decide_eq_true hprogress
  refine ⟨t, hrun, fun hagreed => ?_, service, hcall, rfl⟩
  obtain ⟨id, hid⟩ := hagreed.ok 1 service _ hcall
  cases hid

end Sentinalysis.Hub.ServiceRace
