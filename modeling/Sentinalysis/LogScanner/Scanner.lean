/-
# Sentinalysis.LogScanner.Scanner — the batching loop between the tailer's channel and a sink.

`Scanner::run` waits on three things at once, in a fixed order of preference: an event in the
channel, the cancel token, the flush timer.  An entry made from an event goes to the pending batch;
a full batch, the timer and cancellation flush it.  A flush takes the batch out, passes it to the
sink and, when the sink fails, puts it back.

The machine steps at every await: between the call of the sink and its answer the taken entries are
in flight, and the channel, the token and the timer go on.  What the outside sees is recorded as it
happens: the events consumed, the slices passed to the sink, and the slices the sink stored.

Main results: entries are conserved in order (`entries_conserved`), and when every slice passed to
the sink is within the batch size (`passed_length_le_iff`).
-/
import Sentinalysis.LogScanner.Pipeline
import Sentinalysis.Lib.Transition

namespace Sentinalysis.LogScanner

open Lib Db

/-- `BATCH_SIZE`. -/
def batchSizeDefault : ℕ := 100

/-- An event as it is consumed: the clock and the resolver's environment at that moment, and the
event. -/
abbrev Consumed (η : Type) := DateTime × η × TailEvent

namespace Pipeline

variable {η ρ : Type} (crates : Externals) (p : Pipeline η ρ)

/-- What one consumed event yields: at most one entry, and the resolver's next state. -/
def processEvent (st : ρ) : Consumed η → Option InsertLogEntry × ρ
  | (now, env, .ok line) =>
    let (result, st) := p.processLine crates now env st line
    (result.toOption.join, st)
  | (_, _, .error _) => (none, st)

/-- The entries that consumed events yield, in order. -/
def processEvents (st : ρ) : List (Consumed η) → List InsertLogEntry × ρ
  | [] => ([], st)
  | event :: events =>
    let (entry, st) := p.processEvent crates st event
    let (entries, st) := processEvents st events
    (entry.toList ++ entries, st)

theorem processEvents_append (st : ρ) (events later : List (Consumed η)) :
    p.processEvents crates st (events ++ later)
      = ((p.processEvents crates st events).1
          ++ (p.processEvents crates (p.processEvents crates st events).2 later).1,
        (p.processEvents crates (p.processEvents crates st events).2 later).2) := by
  induction events generalizing st with
  | nil => simp [processEvents]
  | cons first events ih => simp [processEvents, ih]

theorem processEvents_snoc (st : ρ) (events : List (Consumed η)) (event : Consumed η) :
    p.processEvents crates st (events ++ [event])
      = ((p.processEvents crates st events).1
          ++ (p.processEvent crates (p.processEvents crates st events).2 event).1.toList,
        (p.processEvent crates (p.processEvents crates st events).2 event).2) := by
  simp [processEvents_append, processEvents]

end Pipeline

namespace Scanner

variable {η ρ : Type}

/-! ## The loop -/

/-- Where `run` is: waiting in `select!`, waiting for the sink (to stop afterwards, or to go on), or
done. -/
inductive Phase
  | selecting
  | inserting (entries : List InsertLogEntry) (final : Bool)
  | returned
  deriving DecidableEq, Repr

/-- The scanner, its channel and its token, and what the outside has seen. -/
structure State (η ρ : Type) where
  queue : List TailEvent := []
  closed : Bool := false
  cancelled : Bool := false
  resolver : ρ
  batch : List InsertLogEntry := []
  phase : Phase := .selecting
  consumed : List (Consumed η) := []
  passed : List (List InsertLogEntry) := []
  stored : List (List InsertLogEntry) := []

/-- What can happen: the tailer sends or hangs up, the token fires, `select!` takes a branch, or the
sink answers. -/
inductive Label (η : Type)
  | send (event : TailEvent)
  | hangUp
  | cancel
  | recv (now : DateTime) (env : η)
  | cancelled
  | tick
  | inserted
  | insertFailed

/-- `flush_batch` up to its await: an empty batch is not flushed. -/
def flushBatch (s : State η ρ) (final : Bool) : State η ρ :=
  if s.batch = [] then { s with phase := if final then .returned else .selecting }
  else
    { s with
      batch := []
      phase := .inserting s.batch final
      passed := s.passed ++ [s.batch] }

/-- The batching policy: the size that triggers a flush, and whether there is a timer. -/
structure Batching where
  batchSize : ℕ
  timer : Bool
  deriving DecidableEq, Repr

variable (crates : Externals) (p : Pipeline η ρ) (policy : Batching)

/-- The event leaves the channel and its entry, if any, joins the batch. -/
def join (s : State η ρ) (now : DateTime) (env : η) (event : TailEvent) (queue : List TailEvent) :
    State η ρ :=
  let (entry, resolver) := p.processEvent crates s.resolver (now, env, event)
  { s with
    queue := queue
    resolver := resolver
    consumed := s.consumed ++ [(now, env, event)]
    batch := s.batch ++ entry.toList }

/-- The event branch: a batch that is full afterwards is flushed. -/
def consume (s : State η ρ) (now : DateTime) (env : η) (event : TailEvent)
    (queue : List TailEvent) : State η ρ :=
  let s := join crates p s now env event queue
  if policy.batchSize ≤ s.batch.length then flushBatch s false else s

/-- `Scanner::run` and its surroundings. The branches of `select!` are tried in order, so
cancellation is seen only when the channel is empty, and the timer only when not cancelled. -/
def run : Machine (State η ρ) (Label η) where
  step s
    | .send event => if s.closed then none else some { s with queue := s.queue ++ [event] }
    | .hangUp => some { s with closed := true }
    | .cancel => some { s with cancelled := true }
    | .recv now env => match s.phase, s.queue with
      | .selecting, event :: queue => some (consume crates p policy s now env event queue)
      | _, _ => none
    | .cancelled =>
      if s.phase = .selecting ∧ s.queue = [] ∧ s.cancelled = true then some (flushBatch s true)
      else none
    | .tick =>
      if s.phase = .selecting ∧ s.queue = [] ∧ s.cancelled = false ∧ policy.timer = true then
        some (flushBatch s false)
      else none
    | .inserted => match s.phase with
      | .inserting entries final => some
          { s with
            phase := if final then .returned else .selecting
            stored := s.stored ++ [entries] }
      | _ => none
    | .insertFailed => match s.phase with
      | .inserting entries final => some
          { s with
            phase := if final then .returned else .selecting
            batch := entries }
      | _ => none

/-- The entries the sink was given and has not answered for. -/
def Phase.inFlight : Phase → List InsertLogEntry
  | .inserting entries _ => entries
  | _ => []

/-- The entries not stored yet, oldest first. -/
def State.pending (s : State η ρ) : List InsertLogEntry := s.phase.inFlight ++ s.batch

/-! ## What one step does -/

section Steps

variable {crates p policy} {s t : State η ρ}

/-- While the sink is awaited the batch is empty: its entries are the ones in flight. -/
def State.Exclusive (s : State η ρ) : Prop := ∀ entries final, s.phase = .inserting entries final →
  s.batch = [] ∧ entries ≠ []

/-- A flush moves the batch, and changes nothing else that matters to the entries. -/
theorem flushBatch_cases (s : State η ρ) (final : Bool) :
    (s.batch = [] ∧ flushBatch s final
      = { s with phase := if final then .returned else .selecting }) ∨
    (s.batch ≠ [] ∧ flushBatch s final
      = { s with
          batch := []
          phase := .inserting s.batch final
          passed := s.passed ++ [s.batch] }) := by
  by_cases h : s.batch = []
  · exact Or.inl ⟨h, by simp [flushBatch, h]⟩
  · exact Or.inr ⟨h, by simp [flushBatch, h]⟩

/-- What a step can do to the entries: nothing, consume an event, start a flush, or hear from the
sink. -/
inductive Effect (crates : Externals) (p : Pipeline η ρ) (policy : Batching) (s : State η ρ) :
    Label η → State η ρ → Prop
  | outside {a : Label η} (queue closed cancelled) :
      Effect crates p policy s a
        { s with queue := queue, closed := closed, cancelled := cancelled }
  | consume (now : DateTime) (env : η) (event : TailEvent) (queue : List TailEvent)
      (hphase : s.phase = .selecting) (hqueue : s.queue = event :: queue) :
      Effect crates p policy s (.recv now env) (consume crates p policy s now env event queue)
  | flush {a : Label η} (final : Bool) (hphase : s.phase = .selecting) :
      Effect crates p policy s a (flushBatch s final)
  | inserted {a : Label η} (entries : List InsertLogEntry) (final : Bool)
      (hphase : s.phase = .inserting entries final) :
      Effect crates p policy s a { s with
        phase := if final then .returned else .selecting
        stored := s.stored ++ [entries] }
  | failed {a : Label η} (entries : List InsertLogEntry) (final : Bool)
      (hphase : s.phase = .inserting entries final) :
      Effect crates p policy s a { s with
        phase := if final then .returned else .selecting
        batch := entries }

/-- The event branch takes the first event of the channel. -/
theorem step_recv {now : DateTime} {env : η}
    (h : (run crates p policy).step s (.recv now env) = some t) :
    ∃ event queue, s.phase = .selecting ∧ s.queue = event :: queue ∧
      t = consume crates p policy s now env event queue := by
  simp only [run] at h
  split at h
  · rename_i event queue hphase hqueue
    exact ⟨event, queue, hphase, hqueue, (Option.some.inj h).symm⟩
  · exact absurd h (by simp)

/-- Every step is one of these. -/
theorem effect_of_step {a : Label η} (h : (run crates p policy).step s a = some t) :
    Effect crates p policy s a t := by
  cases a with
  | send event =>
    simp only [run, Option.ite_none_left_eq_some] at h
    obtain ⟨-, h⟩ := h
    exact Option.some.inj h ▸ Effect.outside (s.queue ++ [event]) s.closed s.cancelled
  | hangUp => exact Option.some.inj h ▸ Effect.outside s.queue true s.cancelled
  | cancel => exact Option.some.inj h ▸ Effect.outside s.queue s.closed true
  | recv now env =>
    obtain ⟨event, queue, hphase, hqueue, rfl⟩ := step_recv h
    exact Effect.consume now env event queue hphase hqueue
  | cancelled =>
    simp only [run, Option.ite_none_right_eq_some] at h
    obtain ⟨⟨hphase, -, -⟩, h⟩ := h
    exact Option.some.inj h ▸ Effect.flush true hphase
  | tick =>
    simp only [run, Option.ite_none_right_eq_some] at h
    obtain ⟨⟨hphase, -, -, -⟩, h⟩ := h
    exact Option.some.inj h ▸ Effect.flush false hphase
  | inserted =>
    simp only [run] at h
    split at h
    · rename_i entries final hphase
      exact Option.some.inj h ▸ Effect.inserted entries final hphase
    · exact absurd h (by simp)
  | insertFailed =>
    simp only [run] at h
    split at h
    · rename_i entries final hphase
      exact Option.some.inj h ▸ Effect.failed entries final hphase
    · exact absurd h (by simp)

end Steps

/-! ## Conservation -/

section Conservation

variable {crates p policy} {s t : State η ρ}

/-- What the events consumed so far have yielded is stored or pending, in order, and the resolver
is where they left it. -/
structure Conserved (crates : Externals) (p : Pipeline η ρ) (st : ρ) (s : State η ρ) : Prop where
  entries : s.stored.flatten ++ s.pending = (p.processEvents crates st s.consumed).1
  resolver : s.resolver = (p.processEvents crates st s.consumed).2
  exclusive : s.Exclusive

@[simp] theorem pending_of_selecting (h : s.phase = .selecting) : s.pending = s.batch := by
  simp [State.pending, h, Phase.inFlight]

/-- A flush keeps every entry pending. -/
theorem Conserved.flushBatch {st : ρ} (h : Conserved crates p st s) (hphase : s.phase = .selecting)
    (final : Bool) : Conserved crates p st (flushBatch s final) := by
  have hentries := h.entries
  rw [pending_of_selecting hphase] at hentries
  rcases flushBatch_cases s final with ⟨hbatch, heq⟩ | ⟨hbatch, heq⟩
  · rw [heq]
    refine ⟨?_, h.resolver, ?_⟩
    · rw [← hentries]
      cases final <;> simp [State.pending, Phase.inFlight]
    · intro entries final' hinserting
      cases final <;> simp at hinserting
  · rw [heq]
    refine ⟨?_, h.resolver, ?_⟩
    · rw [← hentries]
      simp [State.pending, Phase.inFlight]
    · intro entries final' hinserting
      simp only [Phase.inserting.injEq] at hinserting
      exact ⟨rfl, hinserting.1 ▸ hbatch⟩

/-- The entry of a consumed event becomes the last pending one. -/
theorem Conserved.join {st : ρ} (h : Conserved crates p st s) (hphase : s.phase = .selecting)
    (now : DateTime) (env : η) (event : TailEvent) (queue : List TailEvent) :
    Conserved crates p st (join crates p s now env event queue) := by
  have hentries := h.entries
  rw [pending_of_selecting hphase] at hentries
  have hphase' : (Scanner.join crates p s now env event queue).phase = .selecting := hphase
  refine ⟨?_, ?_, ?_⟩
  · rw [pending_of_selecting hphase']
    simp only [Scanner.join]
    rw [Pipeline.processEvents_snoc, ← hentries, ← h.resolver, List.append_assoc]
  · simp only [Scanner.join]
    rw [Pipeline.processEvents_snoc, ← h.resolver]
  · intro entries final hinserting
    rw [hphase'] at hinserting
    cases hinserting

theorem Conserved.consume {st : ρ} (h : Conserved crates p st s) (hphase : s.phase = .selecting)
    (now : DateTime) (env : η) (event : TailEvent) (queue : List TailEvent) :
    Conserved crates p st (consume crates p policy s now env event queue) := by
  have hjoined := h.join hphase now env event queue
  unfold Scanner.consume
  simp only
  split
  · exact hjoined.flushBatch hphase false
  · exact hjoined

/-- Every step keeps the entries: a successful insert moves the slice in flight to the store, a
failed one back to the batch, which is empty in the meantime. -/
theorem Conserved.step {st : ρ} {a : Label η} (h : Conserved crates p st s)
    (hstep : (run crates p policy).step s a = some t) : Conserved crates p st t := by
  cases effect_of_step hstep with
  | outside queue closed cancelled => exact ⟨h.entries, h.resolver, h.exclusive⟩
  | consume now env event queue hphase hqueue => exact h.consume hphase now env event queue
  | flush final hphase => exact h.flushBatch hphase final
  | inserted entries final hphase =>
    obtain ⟨hbatch, -⟩ := h.exclusive entries final hphase
    have hentries := h.entries
    rw [State.pending, hphase, hbatch] at hentries
    refine ⟨?_, h.resolver, ?_⟩
    · rw [← hentries]
      cases final <;> simp [State.pending, Phase.inFlight, hbatch]
    · intro entries' final' hinserting
      cases final <;> simp at hinserting
  | failed entries final hphase =>
    obtain ⟨hbatch, -⟩ := h.exclusive entries final hphase
    have hentries := h.entries
    rw [State.pending, hphase, hbatch] at hentries
    refine ⟨?_, h.resolver, ?_⟩
    · rw [← hentries]
      cases final <;> simp [State.pending, Phase.inFlight]
    · intro entries' final' hinserting
      cases final <;> simp at hinserting

/-- **Conservation.**  In every run, whatever the order of events, ticks, flushes and cancellation
and whichever inserts fail, the slices stored so far and then the pending entries are the entries
that the consumed events yielded, in order. -/
theorem entries_conserved (crates : Externals) (p : Pipeline η ρ) (policy : Batching) (st : ρ)
    {labels : List (Label η)} {t : State η ρ}
    (hrun : (run crates p policy).Run { resolver := st } labels t) :
    t.stored.flatten ++ t.pending = (p.processEvents crates st t.consumed).1 := by
  have hstart : Conserved crates p st ({ resolver := st } : State η ρ) :=
    ⟨rfl, rfl, by intro entries final h; cases h⟩
  exact (hrun.invariant hstart fun _ _ _ h hstep => h.step hstep).entries

/-- Two lines and an error: the first flush fails, the one at shutdown stores both entries. -/
def failThenStop : List (Label (Option Uuid)) :=
  [.send (.ok shopLine), .recv newYear (some 7), .tick, .send (.error (.FileTailingError "gone")),
    .insertFailed, .send (.ok shopLine), .recv newYear none, .recv newYear none, .cancel, .cancelled,
    .inserted]

theorem entries_conserved_failThenStop : ∃ t, (run newYearCrates
      (Pipeline.build newYearCrates .default givenIds) ⟨100, true⟩).Run { resolver := () }
      failThenStop t ∧
    t.stored.flatten ++ t.pending = ((Pipeline.build newYearCrates .default givenIds).processEvents
      newYearCrates () t.consumed).1 := by
  obtain ⟨t, hrun⟩ := Machine.exists_run (show ((run newYearCrates
    (Pipeline.build newYearCrates .default givenIds) ⟨100, true⟩).exec { resolver := () }
    failThenStop).isSome = true by decide +kernel)
  exact ⟨t, hrun, entries_conserved newYearCrates _ _ () hrun⟩

end Conservation

/-! ## The size of a slice -/

section Size

variable {crates p policy} {s t : State η ρ}

/-- A line that yields an entry is consumed only while the batch is not full. A batch that is full
in `select!` is one whose flush failed. -/
def RoomForEntry (crates : Externals) (p : Pipeline η ρ) (policy : Batching) (s : State η ρ) :
    Label η → Prop
  | .recv now env => ∀ event ∈ s.queue.head?,
      s.batch.length < policy.batchSize ∨
        (p.processEvent crates s.resolver (now, env, event)).1 = none
  | _ => True

instance decidableRoomForEntry (crates : Externals) (p : Pipeline η ρ) (policy : Batching)
    (s : State η ρ) : ∀ a, Decidable (RoomForEntry crates p policy s a)
  | .recv _ _ => inferInstanceAs (Decidable (∀ event ∈ s.queue.head?, _ ∨ _))
  | .send _ | .hangUp | .cancel | .cancelled | .tick | .inserted | .insertFailed => .isTrue trivial

/-- No more entries than the batch size in any place. -/
structure Within (size : ℕ) (s : State η ρ) : Prop where
  batch : s.batch.length ≤ size
  inFlight : ∀ entries final, s.phase = .inserting entries final → entries.length ≤ size
  passed : ∀ slice ∈ s.passed, slice.length ≤ size

theorem Within.flushBatch {size : ℕ} (h : Within size s) (final : Bool) :
    Within size (flushBatch s final) := by
  rcases flushBatch_cases s final with ⟨-, heq⟩ | ⟨-, heq⟩
  · rw [heq]
    refine ⟨h.batch, ?_, h.passed⟩
    intro entries final' hphase
    cases final <;> simp at hphase
  · rw [heq]
    refine ⟨Nat.zero_le _, ?_, ?_⟩
    · intro entries final' hphase
      simp only [Phase.inserting.injEq] at hphase
      exact hphase.1 ▸ h.batch
    · intro slice hslice
      rcases List.mem_append.mp hslice with hslice | hslice
      · exact h.passed slice hslice
      · exact List.mem_singleton.mp hslice ▸ h.batch

theorem Within.consume {now : DateTime} {env : η} {event : TailEvent} {queue : List TailEvent}
    (h : Within policy.batchSize s)
    (hroom : s.batch.length < policy.batchSize ∨
      (p.processEvent crates s.resolver (now, env, event)).1 = none) :
    Within policy.batchSize (consume crates p policy s now env event queue) := by
  have hjoined : Within policy.batchSize (join crates p s now env event queue) := by
    refine ⟨?_, h.inFlight, h.passed⟩
    have hentry := Option.length_toList_le
      (o := (p.processEvent crates s.resolver (now, env, event)).1)
    simp only [join, List.length_append]
    rcases hroom with hroom | hnone
    · omega
    · simpa [hnone] using h.batch
  unfold Scanner.consume
  simp only
  split
  · exact hjoined.flushBatch false
  · exact hjoined

theorem Within.step {a : Label η} (h : Within policy.batchSize s)
    (hroom : RoomForEntry crates p policy s a) (hstep : (run crates p policy).step s a = some t) :
    Within policy.batchSize t := by
  cases effect_of_step hstep with
  | outside queue closed cancelled => exact ⟨h.batch, h.inFlight, h.passed⟩
  | consume now env event queue hphase hqueue =>
    exact h.consume (hroom event (by rw [hqueue]; rfl))
  | flush final hphase => exact h.flushBatch final
  | inserted entries final hphase =>
    refine ⟨h.batch, ?_, h.passed⟩
    intro entries' final' hinserting
    cases final <;> simp at hinserting
  | failed entries final hphase =>
    refine ⟨h.inFlight entries final hphase, ?_, h.passed⟩
    intro entries' final' hinserting
    cases final <;> simp at hinserting

/-- A slice that was passed stays recorded. -/
theorem passed_subset_of_step {a : Label η} (hstep : (run crates p policy).step s a = some t) :
    s.passed ⊆ t.passed := by
  have hflush : ∀ (s : State η ρ) (final : Bool), s.passed ⊆ (flushBatch s final).passed := by
    intro s final
    rcases flushBatch_cases s final with ⟨-, heq⟩ | ⟨-, heq⟩
    · rw [heq]
      exact List.Subset.refl _
    · rw [heq]
      exact List.subset_append_left _ _
  cases effect_of_step hstep with
  | outside queue closed cancelled => exact List.Subset.refl _
  | consume now env event queue hphase hqueue =>
    unfold Scanner.consume
    simp only
    split
    · exact hflush (join crates p s now env event queue) false
    · exact List.Subset.refl _
  | flush final hphase => exact hflush s final
  | inserted entries final hphase => exact List.Subset.refl _
  | failed entries final hphase => exact List.Subset.refl _

/-- An entry that joins a full batch is flushed with it. -/
theorem passed_of_no_room {now : DateTime} {env : η}
    (hstep : (run crates p policy).step s (.recv now env) = some t)
    (hroom : ¬ RoomForEntry crates p policy s (.recv now env)) :
    ∃ slice ∈ t.passed, policy.batchSize < slice.length := by
  simp only [RoomForEntry, not_forall, not_or, not_lt] at hroom
  obtain ⟨event, hevent, hfull, hentry⟩ := hroom
  obtain ⟨entry, hentry⟩ := Option.ne_none_iff_exists'.mp hentry
  obtain ⟨event', queue, -, hqueue, rfl⟩ := step_recv hstep
  obtain rfl : event' = event := by simpa [hqueue] using hevent
  have hbatch : (join crates p s now env event' queue).batch = s.batch ++ [entry] := by
    simp [join, hentry]
  have hlength : (s.batch ++ [entry]).length = s.batch.length + 1 := List.length_append
  have hflushed : consume crates p policy s now env event' queue
      = flushBatch (join crates p s now env event' queue) false := by
    simp only [consume]
    rw [if_pos (by rw [hbatch]; omega)]
  refine ⟨s.batch ++ [entry], ?_, by omega⟩
  rcases flushBatch_cases (join crates p s now env event' queue) false with ⟨hempty, -⟩ | ⟨-, heq⟩
  · rw [hbatch] at hempty
    exact absurd hempty (by simp)
  · rw [hflushed, heq, hbatch]
    exact List.mem_append_right _ (List.mem_singleton.mpr rfl)

/-- **The size of a slice.**  In a run, every slice passed to the sink is within the batch size
exactly when every line that yields an entry is consumed while there is room for it. -/
theorem passed_length_le_iff (st : ρ) {labels : List (Label η)}
    (hrun : (run crates p policy).Run { resolver := st } labels t) :
    (∀ slice ∈ t.passed, slice.length ≤ policy.batchSize) ↔
      (run crates p policy).Along (RoomForEntry crates p policy) { resolver := st } labels := by
  constructor
  · intro hpassed
    induction hrun with
    | nil => exact Machine.along_nil _
    | @snoc labels s a t hbefore hstep ih =>
      refine (Machine.along_snoc hbefore).mpr ⟨ih ?_, ?_⟩
      · exact fun slice hslice => hpassed slice (passed_subset_of_step hstep hslice)
      · cases a with
        | recv now env =>
          by_contra hroom
          obtain ⟨slice, hslice, hlong⟩ := passed_of_no_room hstep hroom
          exact absurd (hpassed slice hslice) (not_le.mpr hlong)
        | _ => exact trivial
  · intro halong
    have hstart : Within policy.batchSize ({ resolver := st } : State η ρ) :=
      ⟨Nat.zero_le _, fun _ _ h => (by cases h), fun _ h => (by cases h)⟩
    exact (hrun.invariant_along (I := fun _ t => Within policy.batchSize t) halong hstart
      fun _ _ _ _ h hroom hstep => h.step hroom hstep).passed

end Size

end Scanner

end Sentinalysis.LogScanner
