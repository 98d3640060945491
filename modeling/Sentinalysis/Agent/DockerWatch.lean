/-
# Sentinalysis.Agent.DockerWatch — the life of the container tail.

`start` makes a watcher, watches the log files and spawns the drain thread, which owns the map of
containers and the receiving end of the watcher's channel.  The watcher stays a variable of `start`.
It holds the only sender of that channel, and both are gone when `start` returns; the thread reads
what is left in the channel and then finds it disconnected.
-/
import Sentinalysis.Agent.DockerStart
import Sentinalysis.Lib.Scope

namespace Sentinalysis.Agent.DockerWatch

open Lib

/-- A watcher, with the files it watches and the sender of its events. -/
structure Watcher where
  watched : List Path := []
  deriving DecidableEq, Repr

/-- Where `start` is. -/
inductive Progress
  | creating
  | watching
  | spawned
  | returned
  | failed
  deriving DecidableEq, Repr

/-- The drain thread: at the head of its loop, in `recv_timeout`, at the paths of an event, or at
its end. -/
inductive Thread
  | looping
  | waiting
  | handling (paths : List Path)
  | ended
  deriving DecidableEq, Repr

/-- `start` with its local variables and the paths it has tried to watch, the token, the receiver of
the lines, the channel of events, and the thread with what it owns and the paths it has read. -/
structure State where
  progress : Progress := .creating
  locals : Scope Watcher := {}
  tried : List Path := []
  cancelled : Bool := false
  receiver : Bool := true
  raw : List (List Path) := []
  drain : DockerStart.State
  thread : Option Thread := none
  reads : List Path := []

/-- What can happen: `start` goes on, the watcher reports an event, the token fires, the receiver is
dropped, or the thread takes a step. -/
inductive Label
  | create (ok : Bool)
  | watch (path : Path) (ok : Bool)
  | spawn
  | returns
  | event (paths : List Path)
  | cancel
  | dropReceiver
  | check
  | recv
  | timeout
  | disconnected
  | path (now : ℤ) (size : Option ℕ) (content : Option (List UInt8))
  | send
  | next
  deriving DecidableEq, Repr

/-- The watcher, and with it the sender, is alive as long as somebody owns it. -/
def State.watched (s : State) : Bool := !s.locals.owned.isEmpty

/-- The thread handles a path: `read_new_lines`, if it is that of a container. -/
def handle (reader : EnvelopeReader) (s : State) (path : Path) (paths : List Path) (now : ℤ)
    (size : Option ℕ) (content : Option (List UInt8)) : Option State :=
  ((DockerStart.draining reader).step s.drain (.path path now size content)).map fun drain =>
    { s with
      drain := drain
      thread := some (.handling paths)
      reads := if (s.drain.state path).isSome then s.reads ++ [path] else s.reads }

/-- `start`, and the thread that it spawns. -/
def start (reader : EnvelopeReader) (containers : List Tailed) : Machine State Label where
  step s
    | .create ok =>
      if s.progress = .creating then
        if ok then some { s with locals := s.locals.hold {} .variable, progress := .watching }
        else some { s with progress := .failed }
      else none
    -- a file that cannot be watched is passed over
    | .watch path ok =>
      if s.progress = .watching ∧ path ∈ containers.map Tailed.logPath ∧ path ∉ s.tried then
        some { s with
          locals := if ok then s.locals.modify fun watcher => ⟨watcher.watched ++ [path]⟩
            else s.locals
          tried := s.tried ++ [path] }
      else none
    | .spawn =>
      if s.progress = .watching ∧ ∀ path ∈ containers.map Tailed.logPath, path ∈ s.tried then
        some { s with progress := .spawned, thread := some .looping }
      else none
    -- `Ok(rx)`: the receiver goes to the caller, the variables are dropped
    | .returns =>
      if s.progress = .spawned then
        some { s with progress := .returned, locals := s.locals.endBlock.2 }
      else none
    | .event paths => if s.watched then some { s with raw := s.raw ++ [paths] } else none
    | .cancel => some { s with cancelled := true }
    | .dropReceiver =>
      if s.progress = .returned then some { s with receiver := false } else none
    | .check =>
      if s.thread = some .looping then
        some { s with thread := some (if s.cancelled then .ended else .waiting) }
      else none
    | .recv => match s.raw with
      | [] => none
      | paths :: raw =>
        if s.thread = some .waiting then
          some { s with raw := raw, thread := some (.handling paths) }
        else none
    | .timeout =>
      if s.thread = some .waiting ∧ s.raw = [] ∧ s.watched = true then
        some { s with thread := some .looping }
      else none
    | .disconnected =>
      if s.thread = some .waiting ∧ s.raw = [] ∧ s.watched = false then
        some { s with thread := some .ended }
      else none
    | .path now size content => match s.thread with
      | some (.handling (path :: paths)) => handle reader s path paths now size content
      | _ => none
    | .send => match s.thread with
      | some (.handling _) =>
        if s.drain.sending = [] then none
        else if s.receiver then
          ((DockerStart.draining reader).step s.drain .send).map fun drain =>
            { s with drain := drain }
        else some { s with thread := some .ended }
      | _ => none
    | .next =>
      if s.thread = some (.handling []) ∧ s.drain.sending = [] then
        some { s with thread := some .looping }
      else none

/-- Before `start`, with the map of the containers. -/
def initial (containers : List Tailed) : State where
  drain := DockerStart.start containers

/-- The steps of the thread. -/
def Label.OfThread : Label → Prop
  | .check | .recv | .timeout | .path _ _ _ | .send | .next => True
  | _ => False

/-- `start` has returned `Ok`, and nobody has asked the tail to end. -/
def State.Wanted (s : State) : Prop :=
  s.progress = .returned ∧ s.cancelled = false ∧ s.receiver = true

instance (s : State) : Decidable s.Wanted := inferInstanceAs (Decidable (_ ∧ _ ∧ _))

/-- The watcher is alive, the thread goes on, and an event of a container's file, when it comes, is
read by the thread in steps of its own. -/
structure Tails (reader : EnvelopeReader) (containers : List Tailed) (s : State) : Prop where
  watched : s.watched = true
  thread : s.thread ≠ some .ended
  reads : ∀ path, (s.drain.state path).isSome = true → ∃ labels t,
    (∀ a ∈ labels, a.OfThread) ∧ (start reader containers).Run s (.event [path] :: labels) t ∧
      s.reads.count path < t.reads.count path

/-- As long as it is wanted, the tail is alive. -/
def StaysAlive (reader : EnvelopeReader) (containers : List Tailed) (s : State) : Prop :=
  s.Wanted → Tails reader containers s

/-- `start` returns only after the token has fired. -/
def ReturnsAfterCancel (s : State) (a : Label) : Prop :=
  match a with
  | .returns => s.cancelled = true
  | _ => True

instance decidableReturnsAfterCancel (s : State) : ∀ a, Decidable (ReturnsAfterCancel s a)
  | .returns => inferInstanceAs (Decidable (s.cancelled = true))
  | .create _ | .watch _ _ | .spawn | .event _ | .cancel | .dropReceiver | .check | .recv
  | .timeout | .disconnected | .path _ _ _ | .send | .next => .isTrue trivial

/-! ## Who owns the watcher -/

section Steps

variable {reader : EnvelopeReader} {containers : List Tailed} {s t : State} {a : Label}

/-- What a step does to `start`: it has not returned yet, it returns and lets go of its variables,
or it is where it was. -/
inductive Move (s : State) : Label → State → Prop
  | setup {a : Label} {t : State} (hbefore : s.progress ≠ .returned)
      (hafter : t.progress ≠ .returned) (hreceiver : t.receiver = s.receiver) : Move s a t
  | returns (hspawned : s.progress = .spawned) :
      Move s .returns { s with progress := .returned, locals := s.locals.endBlock.2 }
  | background {a : Label} {t : State} (hprogress : t.progress = s.progress)
      (hlocals : t.locals = s.locals) (hcancelled : s.cancelled = true → t.cancelled = true)
      (hreceiver : t.receiver = s.receiver ∨ s.progress = .returned) : Move s a t

/-- Every step is one of these. -/
theorem move_of_step (hstep : (start reader containers).step s a = some t) : Move s a t := by
  cases a with
  | create ok =>
    simp only [start, Option.ite_none_right_eq_some] at hstep
    obtain ⟨hcreating, hstep⟩ := hstep
    have hbefore : s.progress ≠ .returned := by
      rw [hcreating]
      exact fun hreturned => by cases hreturned
    split at hstep
    · obtain rfl := Option.some.inj hstep
      exact Move.setup hbefore (fun hreturned => by cases hreturned) rfl
    · obtain rfl := Option.some.inj hstep
      exact Move.setup hbefore (fun hreturned => by cases hreturned) rfl
  | watch path ok =>
    simp only [start, Option.ite_none_right_eq_some] at hstep
    obtain ⟨⟨hwatching, -⟩, hstep⟩ := hstep
    obtain rfl := Option.some.inj hstep
    have hbefore : s.progress ≠ .returned := by
      rw [hwatching]
      exact fun hreturned => by cases hreturned
    exact Move.setup hbefore hbefore rfl
  | spawn =>
    simp only [start, Option.ite_none_right_eq_some] at hstep
    obtain ⟨⟨hwatching, -⟩, hstep⟩ := hstep
    obtain rfl := Option.some.inj hstep
    have hbefore : s.progress ≠ .returned := by
      rw [hwatching]
      exact fun hreturned => by cases hreturned
    exact Move.setup hbefore (fun hreturned => by cases hreturned) rfl
  | returns =>
    simp only [start, Option.ite_none_right_eq_some] at hstep
    obtain ⟨hspawned, hstep⟩ := hstep
    exact Option.some.inj hstep ▸ Move.returns hspawned
  | cancel =>
    exact Option.some.inj hstep ▸ Move.background rfl rfl (fun _ => rfl) (Or.inl rfl)
  | dropReceiver =>
    simp only [start, Option.ite_none_right_eq_some] at hstep
    obtain ⟨hreturned, hstep⟩ := hstep
    exact Option.some.inj hstep ▸ Move.background rfl rfl id (Or.inr hreturned)
  | recv =>
    simp only [start] at hstep
    split at hstep
    · cases hstep
    · simp only [Option.ite_none_right_eq_some] at hstep
      exact Option.some.inj hstep.2 ▸ Move.background rfl rfl id (Or.inl rfl)
  | path now size content =>
    simp only [start] at hstep
    split at hstep
    · unfold handle at hstep
      obtain ⟨drain, -, rfl⟩ := Option.map_eq_some_iff.mp hstep
      exact Move.background rfl rfl id (Or.inl rfl)
    · cases hstep
  | send =>
    simp only [start] at hstep
    split at hstep
    · simp only [Option.ite_none_left_eq_some] at hstep
      obtain ⟨-, hstep⟩ := hstep
      split at hstep
      · obtain ⟨drain, -, rfl⟩ := Option.map_eq_some_iff.mp hstep
        exact Move.background rfl rfl id (Or.inl rfl)
      · exact Option.some.inj hstep ▸ Move.background rfl rfl id (Or.inl rfl)
    · cases hstep
  | event paths | check | timeout | disconnected | next =>
    simp only [start, Option.ite_none_right_eq_some] at hstep
    exact Option.some.inj hstep.2 ▸ Move.background rfl rfl id (Or.inl rfl)

/-- **The watcher does not outlive `start`.** -/
theorem watched_of_returned {labels : List Label}
    (hrun : (start reader containers).Run (initial containers) labels s) :
    s.progress = .returned → s.watched = false := by
  apply hrun.invariant (I := fun s => s.progress = .returned → s.watched = false)
  · intro hreturned
    cases hreturned
  · intro s a t h hstep hreturned
    cases move_of_step hstep with
    | setup hbefore hafter hreceiver => exact absurd hreturned hafter
    | returns hspawned => rfl
    | background hprogress hlocals hcancelled hreceiver =>
      unfold State.watched
      rw [hlocals]
      exact h (hprogress ▸ hreturned)

/-- With the token fired first, the tail is never wanted. -/
theorem cancelled_of_returned {labels : List Label}
    (hrun : (start reader containers).Run (initial containers) labels s)
    (halong : (start reader containers).Along ReturnsAfterCancel (initial containers) labels) :
    s.progress = .returned → s.cancelled = true := by
  apply hrun.invariant_along (I := fun _ s => s.progress = .returned → s.cancelled = true) halong
  · intro hreturned
    cases hreturned
  · intro labels s a t h hcancelled hstep hreturned
    cases move_of_step hstep with
    | setup hbefore hafter hreceiver => exact absurd hreturned hafter
    | returns hspawned => exact hcancelled
    | background hprogress hlocals hkept hreceiver => exact hkept (h (hprogress ▸ hreturned))

/-- The receiver is there when `start` returns it. -/
theorem returned_or_receiver {labels : List Label}
    (hrun : (start reader containers).Run (initial containers) labels s) :
    s.progress = .returned ∨ s.receiver = true := by
  apply hrun.invariant (I := fun s => s.progress = .returned ∨ s.receiver = true)
  · exact Or.inr rfl
  · intro s a t h hstep
    cases move_of_step hstep with
    | setup hbefore hafter hreceiver => exact Or.inr (hreceiver.trans (h.resolve_left hbefore))
    | returns hspawned => exact Or.inl rfl
    | background hprogress hlocals hkept hreceiver =>
      rcases h with hreturned | hthere
      · exact Or.inl (hprogress.trans hreturned)
      · rcases hreceiver with hsame | hreturned
        · exact Or.inr (hsame.trans hthere)
        · exact Or.inl (hprogress.trans hreturned)

end Steps

/-- **The tail stays alive as long as it is wanted** only where it is never wanted: exactly when the
token has fired by the time `start` returns. -/
theorem staysAlive_iff (reader : EnvelopeReader) (containers : List Tailed) {labels : List Label}
    {t : State} (hrun : (start reader containers).Run (initial containers) labels t) :
    (start reader containers).Always (StaysAlive reader containers) (initial containers) labels ↔
      (start reader containers).Along ReturnsAfterCancel (initial containers) labels := by
  apply hrun.always_iff_along
  · intro labels s hreached halong hwanted
    have hcancelled := cancelled_of_returned hreached halong hwanted.1
    rw [hwanted.2.1] at hcancelled
    cases hcancelled
  · intro labels s a t hbefore hstep halive
    cases a with
    | returns =>
      by_contra hnot
      have hcancelled : s.cancelled = false := by
        simpa [ReturnsAfterCancel] using hnot
      have hreturns := hstep
      simp only [start, Option.ite_none_right_eq_some] at hreturns
      obtain ⟨hspawned, ht⟩ := hreturns
      obtain rfl := Option.some.inj ht
      have hreceiver : s.receiver = true := by
        refine (returned_or_receiver hbefore).resolve_left ?_
        rw [hspawned]
        exact fun hreturned => by cases hreturned
      have htails := halive ⟨rfl, hcancelled, hreceiver⟩
      have hwatched := htails.watched
      rw [watched_of_returned (hbefore.snoc hstep) rfl] at hwatched
      cases hwatched
    | _ => exact trivial

/-- The token fires before `start` returns. -/
def stoppedEarly : List Label :=
  [.create true, .watch DockerStart.web.logPath true, .spawn, .cancel, .returns, .check]

theorem staysAlive_stoppedEarly :
    ∃ t, (start DockerTail.upReader [DockerStart.web]).Run (initial [DockerStart.web])
        stoppedEarly t ∧
      (start DockerTail.upReader [DockerStart.web]).Always
        (StaysAlive DockerTail.upReader [DockerStart.web]) (initial [DockerStart.web])
        stoppedEarly := by
  obtain ⟨t, hrun⟩ := Machine.exists_run
    (show ((start DockerTail.upReader [DockerStart.web]).exec (initial [DockerStart.web])
      stoppedEarly).isSome = true by decide)
  exact ⟨t, hrun,
    (staysAlive_iff DockerTail.upReader [DockerStart.web] hrun).mpr (by decide)⟩

/-- An ordinary run: the thread ends at its first look at the channel. -/
def ordinary : List Label :=
  [.create true, .watch DockerStart.web.logPath true, .spawn, .returns, .check, .disconnected]

/-- **The thread is gone while it is wanted**: the token has not fired, and the receiver waits. -/
theorem thread_ended : ∃ t, (start DockerTail.upReader [DockerStart.web]).Run
      (initial [DockerStart.web]) ordinary t ∧ t.Wanted ∧ t.thread = some .ended ∧
      ¬ StaysAlive DockerTail.upReader [DockerStart.web] t := by
  have hexec : ((start DockerTail.upReader [DockerStart.web]).exec (initial [DockerStart.web])
      ordinary).any (fun t => t.Wanted ∧ t.thread = some .ended) = true := by
    decide
  obtain ⟨t, hrun, hended⟩ := Machine.exists_run_any hexec
  obtain ⟨hwanted, hthread⟩ := of_decide_eq_true hended
  refine ⟨t, hrun, hwanted, hthread, ?_⟩
  intro halive
  exact (halive hwanted).thread hthread

end Sentinalysis.Agent.DockerWatch
