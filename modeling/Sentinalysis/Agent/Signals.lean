/-
# Sentinalysis.Agent.Signals — the agent, and the signals that are to stop it.

`run` makes one cancel token and hands it to everything it starts: the connect loop, the task that
forwards host logs, the tail of the containers, and its own loop.  Each of them waits for it, and
the loop flushes its buffer when it fires.  Nothing in the program cancels that token, and the agent
installs no handler for a signal, so that a signal does to it what it does to any process.
-/
import Sentinalysis.Agent.DockerWatch
import Sentinalysis.Agent.Logs
import Sentinalysis.LogScanner.FileTailer
import Sentinalysis.LogScanner.Scanner

namespace Sentinalysis.Agent.Signals

open Lib Db LogScanner

/-- The signals that stop a service. -/
inductive Signal
  | SIGINT
  | SIGTERM
  deriving DecidableEq, Repr

/-- What `run` reads of its configuration, from the connection on. -/
structure Config where
  logsEnabled : Bool := false
  logBatchSize : ℕ := 100
  logBufferMax : ℕ := 10000
  logWatching : LogWatchingConfig := .default
  noiseFilter : NoiseFilterConfig := .default

/-- The libraries, and the containers that are discovered. -/
structure Surroundings where
  crates : Externals
  glob : Glob
  reader : EnvelopeReader
  containers : List Tailed

/-- Where `run` is, or how the process has ended: `run` has returned, or a signal has ended it. -/
inductive Phase
  | connecting
  | backingOff
  | connected
  | discovering
  | looping
  | returned (result : Except SentinelError Unit)
  | killed (connected : Bool)
  deriving DecidableEq, Repr

/-- The task of `spawn_log_forwarding`. -/
inductive Forwarding
  | off
  | starting
  | scanning (scanner : Scanner.State Uuid AgentServiceResolver)
  | failed

/-- `run`, its token, whether the process has a handler for signals, and what `run` has started. -/
structure State where
  phase : Phase := .connecting
  backoff : ℕ := 1
  token : Bool := false
  handled : Bool := false
  forwarding : Forwarding := .off
  docker : Option DockerWatch.State := none
  loop : Loop.State

/-- What can happen: `run` goes on, a task of its takes a step, or a signal arrives. -/
inductive Label
  | connect (ok : Bool)
  | slept
  | cancelled
  | forward
  | discover
  | enterLoop
  | scan (queue : List TailEvent)
  | tailerFails
  | scanner (a : Scanner.Label Uuid)
  | docker (a : DockerWatch.Label)
  | loop (a : Loop.Label)
  | returns
  | signal (signal : Signal)

/-- The process has not ended. -/
def Phase.Alive : Phase → Prop
  | .returned _ | .killed _ => False
  | _ => True

instance decidableAlive : ∀ phase, Decidable (Phase.Alive phase)
  | .returned _ | .killed _ => .isFalse id
  | .connecting | .backingOff | .connected | .discovering | .looping => .isTrue trivial

/-- The connection has been made, and the process has not ended. -/
def Phase.Connected : Phase → Prop
  | .connected | .discovering | .looping => True
  | _ => False

instance decidableConnected : ∀ phase, Decidable (Phase.Connected phase)
  | .connected | .discovering | .looping => .isTrue trivial
  | .connecting | .backingOff | .returned _ | .killed _ => .isFalse id

theorem Phase.Connected.alive {phase : Phase} (h : phase.Connected) : phase.Alive := by
  cases phase with
  | connecting | backingOff => exact trivial
  | connected | discovering | looping => exact trivial
  | returned _ | killed _ => exact h

/-- `tail_containers` has returned, or it was never called since no container could be listed. -/
def State.discovered (s : State) : Bool :=
  s.docker.all fun docker => docker.progress = .returned ∨ docker.progress = .failed

/-- What the loop sees of the token. -/
def State.loopView (s : State) : Loop.State := { s.loop with cancelled := s.token }

/-- `agent::run` and what it starts, from the connection on. The tasks share the token of `run`, so
that none of them has a token of its own to be cancelled; which lines the pump brings from the drain
thread to the loop is left open. -/
def agent (env : Surroundings) (config : Config) : Machine State Label where
  step s
    -- the head of the connect loop, and one attempt
    | .connect ok =>
      if s.phase = .connecting then
        if s.token then some { s with
          phase := .returned (.error (.ServiceError "cancelled during connect")) }
        else some { s with phase := if ok then .connected else .backingOff }
      else none
    | .slept =>
      if s.phase = .backingOff then some { s with
        phase := .connecting
        backoff := min (s.backoff * 2) 60 }
      else none
    | .cancelled =>
      if s.phase = .backingOff ∧ s.token = true then some { s with
        phase := .returned (.error (.ServiceError "cancelled during connect")) }
      else none
    | .forward =>
      if s.phase = .connected then
        if config.logsEnabled then
          match FileTailer.fromWatchConfig env.glob config.logWatching with
          | .ok _ => some { s with phase := .discovering, forwarding := .starting }
          | .error e => some { s with phase := .returned (.error e) }
        else some { s with phase := .discovering }
      else none
    | .discover =>
      if s.phase = .discovering ∧ s.docker.isNone then
        some { s with docker := some (DockerWatch.initial env.containers) }
      else none
    | .enterLoop =>
      if s.phase = .discovering ∧ s.discovered then some { s with phase := .looping } else none
    | .scan queue => match s.forwarding with
      | .starting =>
        if s.phase.Alive then some { s with
          forwarding := .scanning { queue := queue, resolver := AgentServiceResolver.new } }
        else none
      | _ => none
    | .tailerFails => match s.forwarding with
      | .starting => if s.phase.Alive then some { s with forwarding := .failed } else none
      | _ => none
    | .scanner a => match s.forwarding, a with
      | .scanning _, .cancel => none
      | .scanning scanner, a =>
        if s.phase.Alive then
          ((Scanner.run env.crates (buildAgentPipeline env.crates config.noiseFilter)
            ⟨forwardBatchSize config.logBatchSize, true⟩).step
              { scanner with cancelled := s.token } a).map fun scanner =>
            { s with forwarding := .scanning scanner }
        else none
      | _, _ => none
    | .docker a => match s.docker, a with
      | some _, .cancel => none
      | some docker, a =>
        if s.phase.Alive then
          ((DockerWatch.start env.reader env.containers).step
              { docker with cancelled := s.token } a).map fun docker =>
            { s with docker := some docker }
        else none
      | none, _ => none
    | .loop a => match a with
      | .cancel => none
      | a =>
        if s.phase = .looping then
          ((Loop.run config.logBatchSize).step s.loopView a).map fun loop =>
            { s with loop := loop }
        else none
    | .returns =>
      if s.phase = .looping ∧ s.loop.phase = .returned then
        some { s with phase := .returned (.ok ()) }
      else none
    -- a signal ends a process that has no handler for it
    | .signal _ =>
      if s.phase.Alive then
        if s.handled then some s
        else some { s with phase := .killed (decide s.phase.Connected) }
      else none

/-- Before the connection. -/
def start (config : Config) : State where
  loop := Loop.start config.logBufferMax

/-- `shutdown` has been called, or is done. -/
def ShutdownBegun : Loop.Phase → Prop
  | .stopping _ | .returned => True
  | _ => False

instance decidableShutdownBegun : ∀ phase, Decidable (ShutdownBegun phase)
  | .stopping _ | .returned => .isTrue trivial
  | .selecting | .sendingMetrics | .sendingLogs _ | .pending => .isFalse id

/-- A signal that comes after the connection has ended the process only if `shutdown` has come to
the final flush and the token, which the forwarding scanner shares, was cancelled. -/
def EndsFlushed (s : State) : Prop :=
  s.phase = .killed true → ShutdownBegun s.loop.phase ∧ s.token = true

instance (s : State) : Decidable (EndsFlushed s) := inferInstanceAs (Decidable (_ → _))

/-- No signal comes once the connection is made. -/
def NoSignal (s : State) : Label → Prop
  | .signal _ => ¬ s.phase.Connected
  | _ => True

instance decidableNoSignal (s : State) : ∀ a, Decidable (NoSignal s a)
  | .signal _ => inferInstanceAs (Decidable (¬ _))
  | .connect _ | .slept | .cancelled | .forward | .discover | .enterLoop | .scan _ | .tailerFails
  | .scanner _ | .docker _ | .loop _ | .returns => .isTrue trivial

section Steps

variable {env : Surroundings} {config : Config} {s t : State}

/-- What a step does to the token, the handlers and the loop: a signal ends the process, the loop
takes a step, or they are as they were. -/
inductive Effect (env : Surroundings) (config : Config) (s : State) : Label → State → Prop
  | signal (signal : Signal) (hhandled : s.handled = false) :
      Effect env config s (.signal signal)
        { s with phase := .killed (decide s.phase.Connected) }
  | ignored (signal : Signal) (hhandled : s.handled = true) :
      Effect env config s (.signal signal) s
  | loop {a : Loop.Label} (loop : Loop.State) (hcancel : a ≠ .cancel)
      (hstep : (Loop.run config.logBatchSize).step s.loopView a = some loop)
      (hphase : s.phase = .looping) : Effect env config s (.loop a) { s with loop := loop }
  | other {a : Label} {t : State} (htoken : t.token = s.token) (hhandled : t.handled = s.handled)
      (hloop : t.loop = s.loop) (hphase : ∀ connected, t.phase ≠ .killed connected)
      (hlabel : NoSignal s a) : Effect env config s a t

theorem not_killed_of_alive {phase : Phase} (h : phase.Alive) :
    ∀ connected, phase ≠ .killed connected := by
  rintro connected rfl
  exact h

/-- Every step is one of these. -/
theorem effect_of_step {a : Label} (h : (agent env config).step s a = some t) :
    Effect env config s a t := by
  cases a with
  | connect ok =>
    simp only [agent, Option.ite_none_right_eq_some] at h
    obtain ⟨-, h⟩ := h
    split at h
    · obtain rfl := Option.some.inj h
      exact Effect.other rfl rfl rfl (fun _ heq => by cases heq) trivial
    · obtain rfl := Option.some.inj h
      exact Effect.other rfl rfl rfl (fun _ heq => by cases ok <;> cases heq) trivial
  | slept | cancelled | enterLoop | returns =>
    simp only [agent, Option.ite_none_right_eq_some] at h
    obtain rfl := Option.some.inj h.2
    exact Effect.other rfl rfl rfl (fun _ heq => by cases heq) trivial
  | forward =>
    simp only [agent, Option.ite_none_right_eq_some] at h
    obtain ⟨-, h⟩ := h
    split at h
    · split at h
      · obtain rfl := Option.some.inj h
        exact Effect.other rfl rfl rfl (fun _ heq => by cases heq) trivial
      · obtain rfl := Option.some.inj h
        exact Effect.other rfl rfl rfl (fun _ heq => by cases heq) trivial
    · obtain rfl := Option.some.inj h
      exact Effect.other rfl rfl rfl (fun _ heq => by cases heq) trivial
  | discover =>
    simp only [agent, Option.ite_none_right_eq_some] at h
    obtain ⟨⟨hphase, -⟩, h⟩ := h
    obtain rfl := Option.some.inj h
    exact Effect.other rfl rfl rfl (fun _ heq => by rw [hphase] at heq; cases heq) trivial
  | scan queue | tailerFails =>
    simp only [agent] at h
    split at h
    · simp only [Option.ite_none_right_eq_some] at h
      obtain ⟨halive, h⟩ := h
      obtain rfl := Option.some.inj h
      exact Effect.other rfl rfl rfl (not_killed_of_alive halive) trivial
    · cases h
  | scanner a =>
    simp only [agent] at h
    split at h
    · cases h
    · simp only [Option.ite_none_right_eq_some, Option.map_eq_some_iff] at h
      obtain ⟨halive, scanner, -, rfl⟩ := h
      exact Effect.other rfl rfl rfl (not_killed_of_alive halive) trivial
    · cases h
  | docker a =>
    simp only [agent] at h
    split at h
    · cases h
    · simp only [Option.ite_none_right_eq_some, Option.map_eq_some_iff] at h
      obtain ⟨halive, docker, -, rfl⟩ := h
      exact Effect.other rfl rfl rfl (not_killed_of_alive halive) trivial
    · cases h
  | loop a =>
    simp only [agent] at h
    split at h
    · cases h
    · next hcancel =>
      simp only [Option.ite_none_right_eq_some, Option.map_eq_some_iff] at h
      obtain ⟨hphase, loop, hstep, rfl⟩ := h
      exact Effect.loop loop (fun heq => hcancel heq) hstep hphase
  | signal signal =>
    simp only [agent, Option.ite_none_right_eq_some] at h
    obtain ⟨-, h⟩ := h
    split at h
    · next hhandled =>
      obtain rfl := Option.some.inj h
      exact Effect.ignored signal hhandled
    · next hhandled =>
      obtain rfl := Option.some.inj h
      exact Effect.signal signal (Bool.not_eq_true _ ▸ hhandled)

/-- A flush in the loop is not the last one. -/
theorem not_shutdownBegun_flush {s : Loop.State} (h : ¬ ShutdownBegun s.phase) (n : ℕ) :
    ¬ ShutdownBegun (Loop.flush s n false).phase := by
  rcases Loop.flush_cases s n false with ⟨-, heq⟩ | ⟨-, heq⟩
  · rw [heq]
    exact h
  · rw [heq]
    exact id

/-- Without the token the loop never comes to `shutdown`. -/
theorem not_shutdownBegun_of_step {n : ℕ} {s t : Loop.State} {a : Loop.Label}
    (h : ¬ ShutdownBegun s.phase) (htoken : s.cancelled = false)
    (hstep : (Loop.run n).step s a = some t) : ¬ ShutdownBegun t.phase := by
  cases a with
  | arrive line =>
    simp only [Loop.run, Option.ite_none_left_eq_some] at hstep
    obtain rfl := Option.some.inj hstep.2
    exact h
  | close | cancel =>
    obtain rfl := Option.some.inj hstep
    exact h
  | cancelled =>
    simp only [Loop.run, Option.ite_none_right_eq_some] at hstep
    rw [htoken] at hstep
    cases hstep.1.2
  | metricsTick | metricsSent ok =>
    simp only [Loop.run, Option.ite_none_right_eq_some] at hstep
    obtain rfl := Option.some.inj hstep.2
    exact id
  | flushTick =>
    simp only [Loop.run, Option.ite_none_right_eq_some] at hstep
    obtain rfl := Option.some.inj hstep.2
    exact not_shutdownBegun_flush h n
  | recv =>
    simp only [Loop.run, Option.ite_none_right_eq_some] at hstep
    obtain ⟨-, hstep⟩ := hstep
    split at hstep
    · next line channel _ =>
      obtain rfl := Option.some.inj hstep
      have hqueued : ¬ ShutdownBegun (Loop.enqueue s line channel).phase := h
      unfold Loop.receive
      split
      · exact not_shutdownBegun_flush hqueued n
      · exact hqueued
    · simp only [Option.ite_none_right_eq_some] at hstep
      obtain rfl := Option.some.inj hstep.2
      exact id
  | logsSent ok =>
    simp only [Loop.run] at hstep
    split at hstep
    · obtain rfl := Option.some.inj hstep
      exact id
    · next hphase =>
      rw [hphase] at h
      exact absurd trivial h
    · cases hstep
  | deadline =>
    simp only [Loop.run] at hstep
    split at hstep
    · next hphase =>
      rw [hphase] at h
      exact absurd trivial h
    · cases hstep

/-- The token is whole, signals find no handler, and nothing is shut down. -/
structure Undisturbed (s : State) : Prop where
  token : s.token = false
  handled : s.handled = false
  loop : ¬ ShutdownBegun s.loop.phase

theorem Undisturbed.step (h : Undisturbed s) {a : Label}
    (hstep : (agent env config).step s a = some t) : Undisturbed t := by
  cases effect_of_step hstep with
  | signal signal _ => exact ⟨h.token, h.handled, h.loop⟩
  | ignored signal _ => exact h
  | loop loop _ hloop _ =>
    refine ⟨h.token, h.handled, not_shutdownBegun_of_step ?_ ?_ hloop⟩
    · exact h.loop
    · exact h.token
  | other htoken hhandled hloop _ _ =>
    refine ⟨htoken.trans h.token, hhandled.trans h.handled, ?_⟩
    rw [hloop]
    exact h.loop

/-- **Nothing ever cancels the token**, whatever the agent does and whatever arrives. -/
theorem undisturbed_of_run {labels : List Label}
    (hrun : (agent env config).Run (start config) labels s) : Undisturbed s :=
  hrun.invariant (I := Undisturbed) ⟨rfl, rfl, id⟩ fun _ _ _ h hstep => h.step hstep

end Steps

/-- **A signal ends the agent without its final flush**: a run is free of that exactly when no
signal comes once the connection is made, and wherever one comes, the process is gone at once, with
the loop as it was. -/
theorem endsFlushed_iff (env : Surroundings) (config : Config) {labels : List Label} {s : State}
    (hrun : (agent env config).Run (start config) labels s) :
    ((agent env config).Always EndsFlushed (start config) labels ↔
      (agent env config).Along NoSignal (start config) labels) ∧
    ∀ signal, s.phase.Connected → ∃ t, (agent env config).step s (.signal signal) = some t ∧
      t.phase = .killed true ∧ t.loop = s.loop ∧ ¬ ShutdownBegun t.loop.phase ∧ t.token = false := by
  have hkill : ∀ {labels s}, (agent env config).Run (start config) labels s →
      ∀ signal, s.phase.Connected → (agent env config).step s (.signal signal) =
        some { s with phase := .killed true } := by
    intro labels s hrun signal hconnected
    have halive := hconnected.alive
    have hhandled := (undisturbed_of_run hrun).handled
    simp only [agent, if_pos halive, hhandled, decide_eq_true hconnected]
    rfl
  refine ⟨hrun.always_iff_along_of_keep (J := EndsFlushed) nofun ?_ (fun _ => id) ?_, ?_⟩
  · intro _ s a t _ hs hnone hstep hkilled
    cases effect_of_step hstep with
    | signal signal _ =>
      have hconnected := of_decide_eq_true (Phase.killed.inj hkilled)
      exact absurd hconnected hnone
    | ignored signal _ => exact hs hkilled
    | loop loop _ _ hlooping =>
      rw [show s.phase = _ from hkilled] at hlooping
      cases hlooping
    | other _ _ _ hphase _ => exact absurd hkilled (hphase true)
  · intro labels s a t hrun hstep hflushed
    cases a with
    | signal signal =>
      intro hconnected
      rw [hkill hrun signal hconnected] at hstep
      obtain rfl := Option.some.inj hstep
      exact (undisturbed_of_run hrun).loop (hflushed rfl).1
    | _ => exact trivial
  · intro signal hconnected
    have hundisturbed := undisturbed_of_run hrun
    exact ⟨_, hkill hrun signal hconnected, rfl, rfl, hundisturbed.loop, hundisturbed.token⟩

/-! ## A line in the buffer -/

/-- The default configuration, and one container. -/
def surroundings : Surroundings where
  crates := newYearCrates
  glob := fun _ => .ok fun _ => true
  reader := DockerTail.upReader
  containers := [DockerStart.web]

/-- The containers are watched, and the file of the one there is changes before `start` returns. -/
def discovery : List Label :=
  [.discover, .docker (.create true), .docker (.watch DockerStart.web.logPath true),
    .docker .spawn, .docker (.event [DockerStart.web.logPath]), .docker .returns]

/-- The drain thread handles the event, and sends what it has read. -/
def drained : List Label :=
  [.docker .check, .docker .recv,
    .docker (.path 0 (some (Framing.encode [DockerTail.upLine]).length)
      (some (Framing.encode [DockerTail.upLine]))),
    .docker .send]

/-- What it sends. -/
def sentLine : DockerLogLine := ⟨1767225600000, "", "stdout", "up"⟩

/-- The agent connects at the second attempt, and the line goes to the buffer of its loop. -/
def oneBuffered : List Label :=
  [.connect false, .slept, .connect true, .forward] ++ discovery ++ [.enterLoop] ++ drained ++
    [.loop (.arrive sentLine), .loop .recv]

/-- No signal has come. -/
theorem endsFlushed_oneBuffered : ∃ t, (agent surroundings {}).Run (start {}) oneBuffered t ∧
    (agent surroundings {}).Always EndsFlushed (start {}) oneBuffered := by
  obtain ⟨t, hrun⟩ := Machine.exists_run
    (show ((agent surroundings {}).exec (start {}) oneBuffered).isSome = true by decide +kernel)
  exact ⟨t, hrun, (endsFlushed_iff surroundings {} hrun).1.mpr (by decide +kernel)⟩

/-- **The line is lost** when the service is stopped: it was not sent, and nothing reports it. -/
theorem buffered_lost : ∃ t, (agent surroundings {}).Run (start {})
      (oneBuffered ++ [.signal .SIGTERM]) t ∧ ¬ EndsFlushed t ∧
      t.docker.map (·.drain.delivered) = some [(DockerStart.web.logPath, sentLine)] ∧
      t.loop.batcher.buf ≠ [] ∧ t.loop.acknowledged = [] ∧ t.loop.failed = [] := by
  have hexec : ((agent surroundings {}).exec (start {}) (oneBuffered ++ [.signal .SIGTERM])).any
      (fun t => ¬ EndsFlushed t ∧
        t.docker.map (·.drain.delivered) = some [(DockerStart.web.logPath, sentLine)] ∧
        t.loop.batcher.buf ≠ [] ∧ t.loop.acknowledged = [] ∧ t.loop.failed = []) = true := by
    decide +kernel
  obtain ⟨t, hrun, h⟩ := Machine.exists_run_any hexec
  exact ⟨t, hrun, of_decide_eq_true h⟩

end Sentinalysis.Agent.Signals
