/-
# Sentinalysis.Hub.EventAccounting — every event of a batch is accounted for.

An event of a request is either stored or reported, and never both.  What is stored keeps the order
of the request and the name of the app of the key; what is reported carries its place in the batch,
so that the caller can send again what did not pass and nothing else.
-/
import Sentinalysis.Hub.PostEvents

namespace Sentinalysis.Hub

open Lib Db

/-! ## One turn of the loop -/

namespace Sorted

variable {clock : ℕ → DateTime} {appName : String} {allowlist : List String}

/-- The place of an event is the number of those before it. -/
theorem batch_concat (events : List IngestEvent) (event : IngestEvent) :
    batch clock appName allowlist (events ++ [event])
      = next clock appName allowlist (batch clock appName allowlist events)
        (event, events.length) := by
  unfold batch
  rw [List.zipIdx_append, List.foldl_append, Nat.zero_add]
  rfl

theorem next_of_ok {sorted : Sorted} {event : IngestEvent} {index : ℕ} {row : InsertAppEvent}
    (h : validateEvent (clock index) appName event allowlist = .ok row) :
    next clock appName allowlist sorted (event, index)
      = { sorted with accepted := sorted.accepted ++ [row] } := by
  unfold next
  rw [h]

theorem next_of_error {sorted : Sorted} {event : IngestEvent} {index : ℕ} {reason : String}
    (h : validateEvent (clock index) appName event allowlist = .error reason) :
    next clock appName allowlist sorted (event, index)
      = { sorted with errors := sorted.errors ++ [(index, reason)] } := by
  unfold next
  rw [h]

/-! ## The whole batch -/

variable (clock appName allowlist)

/-- Every event is accepted or reported. -/
theorem length_batch (events : List IngestEvent) :
    (batch clock appName allowlist events).accepted.length
      + (batch clock appName allowlist events).errors.length = events.length := by
  induction events using List.reverseRecOn with
  | nil => rfl
  | append_singleton events event ih =>
    rw [batch_concat, List.length_append, List.length_singleton]
    cases hverdict : validateEvent (clock events.length) appName event allowlist with
    | ok row =>
      rw [next_of_ok hverdict]
      dsimp only
      rw [List.length_append, List.length_singleton]
      omega
    | error reason =>
      rw [next_of_error hverdict]
      dsimp only
      rw [List.length_append, List.length_singleton]
      omega

/-- What is reported is what fails, at its place and with its reason. -/
theorem mem_errors_batch (events : List IngestEvent) (index : ℕ) (reason : String) :
    (index, reason) ∈ (batch clock appName allowlist events).errors ↔
      ∃ event, events[index]? = some event ∧
        validateEvent (clock index) appName event allowlist = .error reason := by
  induction events using List.reverseRecOn with
  | nil =>
    constructor
    · exact fun hmem => absurd hmem List.not_mem_nil
    · rintro ⟨event, hevent, -⟩
      cases hevent
  | append_singleton events event ih =>
    -- the places before the last one are those of the shorter batch
    have hbefore : ∀ earlier, (events ++ [event])[index]? = some earlier ↔
        events[index]? = some earlier ∨ index = events.length ∧ event = earlier := by
      intro earlier
      rcases lt_trichotomy index events.length with hlt | heq | hgt
      · rw [List.getElem?_append_left hlt]
        exact ⟨Or.inl, fun h => h.resolve_right fun hlast => hlt.ne hlast.1⟩
      · subst heq
        rw [List.getElem?_concat_length, List.getElem?_eq_none le_rfl]
        exact ⟨fun h => Or.inr ⟨rfl, Option.some.inj h⟩, fun h => by
          obtain ⟨-, rfl⟩ := h.resolve_left fun hnone => by cases hnone
          rfl⟩
      · have hlength : (events ++ [event]).length ≤ index := by
          rw [List.length_append, List.length_singleton]
          omega
        rw [List.getElem?_eq_none hlength, List.getElem?_eq_none hgt.le]
        exact ⟨fun h => (by cases h), fun h => h.elim id fun hlast => absurd hlast.1 hgt.ne'⟩
    simp only [hbefore, or_and_right, exists_or, ← ih]
    rw [batch_concat]
    cases hverdict : validateEvent (clock events.length) appName event allowlist with
    | ok row =>
      rw [next_of_ok hverdict]
      constructor
      · exact Or.inl
      · rintro (hmem | ⟨earlier, ⟨rfl, rfl⟩, herror⟩)
        · exact hmem
        · rw [hverdict] at herror
          cases herror
    | error why =>
      rw [next_of_error hverdict, List.mem_append, List.mem_singleton, Prod.mk.injEq]
      constructor
      · rintro (hmem | ⟨rfl, rfl⟩)
        · exact Or.inl hmem
        · exact Or.inr ⟨event, ⟨rfl, rfl⟩, hverdict⟩
      · rintro (hmem | ⟨earlier, ⟨rfl, rfl⟩, herror⟩)
        · exact Or.inl hmem
        · rw [hverdict] at herror
          exact Or.inr ⟨rfl, (Except.error.inj herror).symm⟩

/-- A place is reported after those before it, and once. -/
theorem pairwise_errors_batch (events : List IngestEvent) :
    ((batch clock appName allowlist events).errors.map Prod.fst).Pairwise (· < ·) := by
  induction events using List.reverseRecOn with
  | nil => exact List.Pairwise.nil
  | append_singleton events event ih =>
    rw [batch_concat]
    cases hverdict : validateEvent (clock events.length) appName event allowlist with
    | ok row =>
      rw [next_of_ok hverdict]
      exact ih
    | error reason =>
      rw [next_of_error hverdict, List.map_append, List.map_singleton, List.pairwise_append]
      refine ⟨ih, List.pairwise_singleton _ _, fun index hindex last hlast => ?_⟩
      obtain rfl := List.mem_singleton.mp hlast
      obtain ⟨⟨_, why⟩, hmem, rfl⟩ := List.mem_map.mp hindex
      obtain ⟨earlier, hearlier, -⟩ := (mem_errors_batch _ _ _ _ _ _).mp hmem
      exact (List.getElem?_eq_some_iff.mp hearlier).1

/-- What is accepted are the rows of the events that pass, in the order of the request. -/
theorem accepted_batch_eq_map (events : List IngestEvent) :
    (batch clock appName allowlist events).accepted
      = (events.zipIdx.filter fun entry =>
          (validateEvent (clock entry.2) appName entry.1 allowlist).isOk).map
        fun entry => eventRow appName entry.1 := by
  rw [accepted_batch, ← List.filterMap_eq_map, List.filterMap_filter]
  refine List.filterMap_congr fun entry _ => ?_
  cases hverdict : validateEvent (clock entry.2) appName entry.1 allowlist with
  | ok row =>
    obtain ⟨-, rfl⟩ := validateEvent_eq_ok.mp hverdict
    rfl
  | error reason => rfl

end Sorted

/-! ## The account of a request -/

/-- What a caller can rely on, of the sorting of a batch. -/
structure Sorted.Accounts (clock : ℕ → DateTime) (appName : String) (allowlist : List String)
    (events : List IngestEvent) (sorted : Sorted) : Prop where
  /-- the rows of the events that pass, in the order of the request -/
  accepted : sorted.accepted
    = (events.zipIdx.filter fun entry =>
        (validateEvent (clock entry.2) appName entry.1 allowlist).isOk).map
      fun entry => eventRow appName entry.1
  /-- all under the name of the app of the key -/
  named : ∀ row ∈ sorted.accepted, row.appName = appName
  /-- nothing is lost and nothing is counted twice -/
  length : sorted.accepted.length + sorted.errors.length = events.length
  increasing : (sorted.errors.map Prod.fst).Pairwise (· < ·)
  /-- what is reported is what fails -/
  errors : ∀ index reason, (index, reason) ∈ sorted.errors ↔
    ∃ event, events[index]? = some event ∧
      validateEvent (clock index) appName event allowlist = .error reason

theorem Sorted.accounts_batch (clock : ℕ → DateTime) (appName : String) (allowlist : List String)
    (events : List IngestEvent) :
    (batch clock appName allowlist events).Accounts clock appName allowlist events where
  accepted := accepted_batch_eq_map clock appName allowlist events
  named := by
    intro row hrow
    rw [accepted_batch_eq_map] at hrow
    obtain ⟨entry, -, rfl⟩ := List.mem_map.mp hrow
    rfl
  length := length_batch clock appName allowlist events
  increasing := pairwise_errors_batch clock appName allowlist events
  errors := mem_errors_batch clock appName allowlist events

/-- Nothing is accepted exactly when no event passes. -/
theorem Sorted.Accounts.accepted_eq_nil_iff {clock : ℕ → DateTime} {appName : String}
    {allowlist : List String} {events : List IngestEvent} {sorted : Sorted}
    (h : sorted.Accounts clock appName allowlist events) :
    sorted.accepted = [] ↔ ∀ index event, events[index]? = some event →
      (validateEvent (clock index) appName event allowlist).isOk = false := by
  rw [h.accepted, List.map_eq_nil_iff, List.filter_eq_nil_iff]
  constructor
  · intro hnone index event hevent
    exact Bool.eq_false_iff.mpr
      (hnone (event, index) (List.mk_mem_zipIdx_iff_getElem?.mpr hevent))
  · rintro hnone ⟨event, index⟩ hmem
    exact Bool.eq_false_iff.mp
      (hnone index event (List.mk_mem_zipIdx_iff_getElem?.mp hmem))

/-- Something is reported exactly when an event fails. -/
theorem Sorted.Accounts.errors_ne_nil_iff {clock : ℕ → DateTime} {appName : String}
    {allowlist : List String} {events : List IngestEvent} {sorted : Sorted}
    (h : sorted.Accounts clock appName allowlist events) :
    sorted.errors ≠ [] ↔ ∃ index event, events[index]? = some event ∧
      (validateEvent (clock index) appName event allowlist).isOk = false := by
  constructor
  · intro hne
    obtain ⟨⟨index, reason⟩, hmem⟩ := List.exists_mem_of_ne_nil _ hne
    obtain ⟨event, hevent, herror⟩ := (h.errors index reason).mp hmem
    exact ⟨index, event, hevent, by rw [herror]; rfl⟩
  · rintro ⟨index, event, hevent, hfails⟩
    cases hverdict : validateEvent (clock index) appName event allowlist with
    | ok row =>
      rw [hverdict] at hfails
      cases hfails
    | error reason =>
      exact List.ne_nil_of_mem ((h.errors index reason).mpr ⟨event, hevent, hverdict⟩)

/-- A batch within the cap, over a storage that works. -/
theorem ingestEvents_of_length_le {clock : ℕ → DateTime} {appName : String}
    {allowlist : List String} {events : List IngestEvent}
    (hlength : events.length ≤ Validate.maxEventsPerRequest) :
    ingestEvents ⟨clock, none⟩ appName allowlist events
      = let sorted := Sorted.batch clock appName allowlist events
        (⟨if sorted.accepted = [] ∧ sorted.errors ≠ [] then .UnprocessableEntity else .Accepted,
          sorted.report sorted.accepted.length⟩, sorted.accepted) := by
  unfold ingestEvents
  rw [if_neg hlength.not_gt]
  dsimp only
  by_cases hnone : (Sorted.batch clock appName allowlist events).accepted = []
  · rw [hnone]
    split
    · rfl
    · rfl
  · rw [if_neg fun h => hnone h.1, if_neg fun h => hnone h.1]
    unfold AppEventRepository.insertBatch
    rw [if_neg hnone]

/-- **Every event is accounted for.**  The rows that are stored and the places that are reported are
those of `Sorted.Accounts`, and the response carries their numbers; it is a 422, with nothing
stored, exactly when there are events and none of them passes. -/
theorem postEvents_accounts (clock : ℕ → DateTime) (limiter : Limiter String) (now : Instant)
    (allowlist : List String) (principal : Principal) (events : List IngestEvent)
    (appName : String) (hpermission : .IngestEvents ∈ principal.permissions)
    (happ : principal.appName = some appName)
    (hlength : events.length ≤ Validate.maxEventsPerRequest)
    (hbudget : (limiter.checkKey now principal.keyId).1 = true) :
    ∃ (response : HttpResponse) (sorted : Sorted),
      postEvents ⟨clock, none⟩ limiter now allowlist principal events
        = (response, (limiter.checkKey now principal.keyId).2, sorted.accepted) ∧
      sorted.Accounts clock appName allowlist events ∧
      response.body = sorted.report sorted.accepted.length ∧
      (response.status = .UnprocessableEntity ∧ sorted.accepted = [] ↔
        (∀ index event, events[index]? = some event →
          (validateEvent (clock index) appName event allowlist).isOk = false) ∧
        ∃ index event, events[index]? = some event ∧
          (validateEvent (clock index) appName event allowlist).isOk = false) ∧
      (response.status = .UnprocessableEntity ∨ response.status = .Accepted) := by
  have haccounts := Sorted.accounts_batch clock appName allowlist events
  refine ⟨(ingestEvents ⟨clock, none⟩ appName allowlist events).1,
    Sorted.batch clock appName allowlist events, ?_, haccounts, ?_, ?_, ?_⟩
  · have hmay : principal.MayPost := ⟨hpermission, by rw [happ]; rfl⟩
    rcases postEvents_cases ⟨clock, none⟩ limiter now allowlist principal events with
      ⟨hnot, -⟩ | ⟨-, hrefused, -⟩ | ⟨name, -, hname, -, hpost⟩
    · exact absurd hmay hnot
    · exact absurd hbudget (Bool.eq_false_iff.mp hrefused)
    · obtain rfl : appName = name := Option.some.inj (happ.symm.trans hname)
      rw [hpost, ingestEvents_of_length_le hlength]
  · rw [ingestEvents_of_length_le hlength]
  · rw [← haccounts.accepted_eq_nil_iff, ← haccounts.errors_ne_nil_iff,
      ingestEvents_of_length_le hlength]
    dsimp only
    split
    · rename_i hunprocessable
      exact ⟨fun _ => hunprocessable, fun h => ⟨rfl, h.1⟩⟩
    · rename_i haccepted
      exact ⟨fun h => StatusCode.noConfusion h.1, fun h => absurd h haccepted⟩
  · rw [ingestEvents_of_length_le hlength]
    dsimp only
    split
    · exact Or.inl rfl
    · exact Or.inr rfl

/-- A batch of an event of the day and one that the clock refuses. -/
theorem postEvents_accounts_late :
    ∃ (response : HttpResponse) (sorted : Sorted),
      postEvents ⟨fun _ => .epoch, none⟩
          (EventRateLimiter.new eventRequestsPerMinute eventRequestsPerMinute_pos) 0 []
          ⟨"key", [.IngestEvents], none, none, some "shop"⟩
          [⟨"login", some "ada", .object [], .epoch⟩,
            ⟨"login", none, .object [], ⟨1000000000000000000, by decide, by decide⟩⟩]
        = (response,
          ((EventRateLimiter.new eventRequestsPerMinute eventRequestsPerMinute_pos).checkKey
            0 "key").2, sorted.accepted) ∧
      sorted.accepted.length + sorted.errors.length = 2 := by
  obtain ⟨response, sorted, hpost, haccounts, -⟩ := postEvents_accounts (fun _ => .epoch)
    (EventRateLimiter.new eventRequestsPerMinute eventRequestsPerMinute_pos) 0 []
    ⟨"key", [.IngestEvents], none, none, some "shop"⟩
    [⟨"login", some "ada", .object [], .epoch⟩,
      ⟨"login", none, .object [], ⟨1000000000000000000, by decide, by decide⟩⟩]
    "shop" (by decide) rfl (by decide) (by decide)
  exact ⟨response, sorted, hpost, haccounts.length⟩

end Sentinalysis.Hub
