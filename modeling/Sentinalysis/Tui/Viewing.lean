/-
# Sentinalysis.Tui.Viewing — one source on screen while its store grows.

Rows are added to the store, and the viewer loads and polls, in any order.  A poll asks for what is
above its cursor and assumes that nothing else is missing: completeness is a question about the
state before each poll that succeeds.
-/
import Sentinalysis.Tui.LogViewer

namespace Sentinalysis.Tui.Viewing

open Lib Db LogScanner

/-- The store and the viewer; `polled` marks the state right after a successful poll. -/
structure State where
  store : LogStore := {}
  viewer : LogViewer := {}
  polled : Bool := false

/-- A row comes, or the viewer loads or polls; its query may fail. -/
inductive Label
  | insert (insertion : Insertion)
  | load (failure : Option SentinelError)
  | poll (failure : Option SentinelError)
  deriving DecidableEq, Repr

/-- The run of one selected source. -/
def view (source : Source) : Machine State Label where
  step s
    | .insert insertion =>
      (s.store.insert insertion).map fun store => { s with store := store, polled := false }
    | .load failure => match s.viewer.loadRecentEntries (pgLogDataSource s.store failure) source with
      | .ok viewer => some { s with viewer := viewer, polled := false }
      | .error _ => some { s with polled := false }
    | .poll failure => match s.viewer.checkNewEntries (pgLogDataSource s.store failure) source with
      | .ok viewer => some { s with viewer := viewer, polled := true }
      | .error _ => some { s with polled := false }

section Completeness

variable (source : Source)

/-- What is cached for the source. -/
def State.cached (s : State) : List DisplayLogEntry := s.viewer.cached source

/-- What the store holds for the source. -/
def State.stored (s : State) : List DisplayLogEntry := storedEntries s.store source

/-- Right after a successful poll, the list is the newest entries of the store, newest first. -/
def Complete (s : State) : Prop :=
  s.polled = true → s.cached source =
    Window.newest DisplayLogEntry.cursor maxEntriesPerHost (s.stored source)

/-- At a poll that succeeds, all that is missing is above the cursor and fetched at once: without a
cached entry nothing is stored; otherwise at most `newEntriesPerPoll` entries are above the first
one, and every other entry that is not cached has `maxEntriesPerHost` entries above it. -/
def CoveredByPoll (s : State) (a : Label) : Prop :=
  match a with
  | .poll failure => failure = none ∨ s.cached source = [] →
    Window.Covers DisplayLogEntry.cursor maxEntriesPerHost newEntriesPerPoll (s.stored source)
      (s.cached source)
  | _ => True

instance decidableCoveredByPoll (s : State) : ∀ a, Decidable (CoveredByPoll source s a)
  | .poll failure => inferInstanceAs (Decidable (failure = none ∨ _ → _))
  | .insert _ | .load _ => .isTrue trivial

variable {source}

/-- What is cached is a part of the store, in order and of bounded length. -/
def Cache (source : Source) (s : State) : Prop :=
  Window.Held DisplayLogEntry.cursor maxEntriesPerHost (s.stored source) (s.cached source)

/-- A poll that succeeds makes the cache catch up with the store. -/
theorem cached_of_poll {s t : State} {failure : Option SentinelError} (hcache : Cache source s)
    (hstep : (view source).step s (.poll failure) = some t) (hpolled : t.polled = true) :
    (failure = none ∨ s.cached source = []) ∧ t.stored source = s.stored source ∧
      t.cached source = Window.catchUp DisplayLogEntry.cursor maxEntriesPerHost newEntriesPerPoll
        (s.stored source) (s.cached source) := by
  simp only [view] at hstep
  split at hstep
  · rename_i viewer hcheck
    obtain rfl := Option.some.inj hstep
    cases failure with
    | none =>
      exact ⟨Or.inl rfl, rfl, LogViewer.cached_of_check (pgLogDataSource_serves s.store source)
        hcache.length_le hcheck⟩
    | some e =>
      have hnil := LogViewer.cached_nil_of_check_failed hcheck
      rw [LogViewer.check_of_cached_nil hnil] at hcheck
      obtain rfl := Except.ok.inj hcheck
      refine ⟨Or.inr hnil, rfl, ?_⟩
      show s.viewer.cached source = Window.catchUp _ _ _ _ (s.viewer.cached source)
      rw [hnil, Window.catchUp]
  · obtain rfl := Option.some.inj hstep
    cases hpolled

/-- A poll with the right to succeed does. -/
theorem polled_of_poll {s t : State} {failure : Option SentinelError}
    (hstep : (view source).step s (.poll failure) = some t)
    (hsucceeds : failure = none ∨ s.cached source = []) : t.polled = true := by
  have hok : ∃ viewer,
      s.viewer.checkNewEntries (pgLogDataSource s.store failure) source = .ok viewer := by
    rcases hsucceeds with rfl | hnil
    · exact LogViewer.check_isOk (pgLogDataSource_serves s.store source)
    · exact ⟨s.viewer, LogViewer.check_of_cached_nil hnil⟩
  obtain ⟨viewer, hcheck⟩ := hok
  simp only [view, hcheck] at hstep
  obtain rfl := Option.some.inj hstep
  rfl

/-- A step that is not a poll leaves a state that is not polled. -/
theorem not_polled_of_step {s t : State} {a : Label} (hstep : (view source).step s a = some t)
    (ha : ∀ failure, a ≠ .poll failure) : t.polled = false := by
  cases a with
  | insert insertion =>
    obtain ⟨store, -, rfl⟩ := Option.map_eq_some_iff.mp hstep
    rfl
  | load failure =>
    simp only [view] at hstep
    split at hstep <;> (obtain rfl := Option.some.inj hstep; rfl)
  | poll failure => exact absurd rfl (ha failure)

/-- Every step keeps the cache a part of the store. -/
theorem Cache.step {s t : State} {a : Label} (hcache : Cache source s)
    (hstep : (view source).step s a = some t) : Cache source t := by
  cases a with
  | insert insertion =>
    obtain ⟨store, hinsert, rfl⟩ := Option.map_eq_some_iff.mp hstep
    exact Window.Held.mono hcache (storedEntries_of_insert hinsert source)
  | load failure =>
    simp only [view] at hstep
    split at hstep
    · rename_i viewer hload
      obtain rfl := Option.some.inj hstep
      cases failure with
      | none =>
        have hcached := LogViewer.cached_of_load (pgLogDataSource_serves s.store source) hload
        show Window.Held _ _ _ (viewer.cached source)
        rw [hcached]
        exact Window.Held.newest (nodup_storedEntries s.store source)
      | some e => cases hload
    · obtain rfl := Option.some.inj hstep
      exact hcache
  | poll failure =>
    by_cases hpolled : t.polled = true
    · obtain ⟨-, hstored, hcached⟩ := cached_of_poll hcache hstep hpolled
      rw [Cache, hcached, hstored]
      exact Window.Held.catchUp hcache (nodup_storedEntries s.store source)
    · simp only [view] at hstep
      split at hstep
      · obtain rfl := Option.some.inj hstep
        exact absurd rfl hpolled
      · obtain rfl := Option.some.inj hstep
        exact hcache

/-- In every state of a run, the cache is a part of the store. -/
theorem cache_of_run {labels : List Label} {t : State} (hrun : (view source).Run {} labels t) :
    Cache source t :=
  hrun.invariant Window.Held.nil fun _ _ _ hcache hstep => hcache.step hstep

/-- One poll: what it leaves is complete exactly when it was covered. -/
theorem complete_iff_covers {s t : State} {failure : Option SentinelError}
    (hcache : Cache source s) (hstep : (view source).step s (.poll failure) = some t)
    (hpolled : t.polled = true) : Complete source t ↔
      Window.Covers DisplayLogEntry.cursor maxEntriesPerHost newEntriesPerPoll (s.stored source)
        (s.cached source) := by
  obtain ⟨-, hstored, hcached⟩ := cached_of_poll hcache hstep hpolled
  have hlimit : newEntriesPerPoll < maxEntriesPerHost := by decide
  rw [← Window.catchUp_eq_newest_iff hcache (nodup_storedEntries s.store source) hlimit, Complete,
    hcached, hstored]
  exact ⟨fun h => h hpolled, fun h _ => h⟩

/-- **Every successful poll completes the list** exactly when at every poll all that is missing is
above the cursor and fetched at once. -/
theorem complete_iff {labels : List Label} {t : State} (hrun : (view source).Run {} labels t) :
    (view source).Always (Complete source) {} labels ↔
      (view source).Along (CoveredByPoll source) {} labels := by
  apply hrun.always_iff_along
  · intro labels t hrun halong
    cases hrun with
    | nil => exact fun hpolled => (by cases hpolled)
    | @snoc labels s a t hbefore hstep =>
      intro hpolled
      have hcovered := ((Machine.along_snoc hbefore).mp halong).2
      have hcache := cache_of_run hbefore
      cases a with
      | poll failure =>
        obtain ⟨hsucceeds, -⟩ := cached_of_poll hcache hstep hpolled
        exact (complete_iff_covers hcache hstep hpolled).mpr (hcovered hsucceeds) hpolled
      | insert insertion =>
        rw [not_polled_of_step hstep (by simp)] at hpolled
        cases hpolled
      | load failure =>
        rw [not_polled_of_step hstep (by simp)] at hpolled
        cases hpolled
  · intro labels s a t hbefore hstep hcomplete
    have hcache := cache_of_run hbefore
    cases a with
    | poll failure =>
      intro hsucceeds
      have hpolled := polled_of_poll hstep hsucceeds
      exact (complete_iff_covers hcache hstep hpolled).mp hcomplete
    | insert insertion => trivial
    | load failure => trivial

end Completeness

/-! ## A quiet log -/

/-- The service of a virtual host. -/
def shopService : Service where
  id := 1
  name := "shop.example.com"
  unitType := "nginx-vhost"
  logPaths := none
  virtualHost := some "shop.example.com"

/-- An entry of it, at some second. -/
def shopRow (id : Uuid) (second : Fin 1000) : LogEntry where
  id := id
  serviceId := some 1
  timestamp := ⟨second * 1000000000, by omega, by omega⟩
  level := "info"
  message := "GET /"
  rawLine := none
  clientIp := none
  requestPath := some "/"
  statusCode := some 200
  responseTimeMs := none
  isNoise := false
  noiseReason := none
  threatLevel := "none"
  threatCategories := []
  sourceHost := none

/-- One entry is there when the source is loaded, and another comes. -/
def oneMore : List Label :=
  [.insert (.service shopService), .insert (.entry (shopRow 1 1)), .load none,
    .insert (.entry (shopRow 2 2)), .poll none]

/-- The poll shows both. -/
theorem complete_oneMore :
    (view (.vhost "shop.example.com")).Always (Complete (.vhost "shop.example.com")) {} oneMore := by
  obtain ⟨t, hrun⟩ := Machine.exists_run (M := view (.vhost "shop.example.com")) (s := {})
    (l := oneMore) (by decide +kernel)
  exact (complete_iff hrun).mpr (by decide +kernel)

/-- The source is empty when it is loaded, and an entry comes. -/
def firstEntry : List Label :=
  [.insert (.service shopService), .load none, .insert (.entry (shopRow 1 1)), .poll none]

/-- The poll succeeds and the entry is not shown. -/
theorem firstEntry_not_shown : ∃ t, (view (.vhost "shop.example.com")).Run {} firstEntry t ∧
    t.polled = true ∧ t.stored (.vhost "shop.example.com") ≠ [] ∧
    t.cached (.vhost "shop.example.com") = [] ∧ ¬ Complete (.vhost "shop.example.com") t := by
  have hexec : ((view (.vhost "shop.example.com")).exec {} firstEntry).any (fun t =>
      t.polled ∧ t.stored (.vhost "shop.example.com") ≠ [] ∧
        t.cached (.vhost "shop.example.com") = [] ∧
        Window.newest DisplayLogEntry.cursor maxEntriesPerHost (t.stored (.vhost "shop.example.com"))
          ≠ []) = true := by
    decide +kernel
  obtain ⟨t, hrun, h⟩ := Machine.exists_run_any hexec
  obtain ⟨hpolled, hstored, hcached, hnewest⟩ := of_decide_eq_true h
  refine ⟨t, hrun, hpolled, hstored, hcached, fun hcomplete => hnewest ?_⟩
  rw [← hcomplete hpolled, hcached]

end Sentinalysis.Tui.Viewing
