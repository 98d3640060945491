/-
# Sentinalysis.LogScanner.FileTailer — a tailer from its configuration to its end.

`FileTailer::start` sets up the watcher, a bridge of two bounded channels, and the task that reads
the existing content and then reacts to events.  The watcher lives in the tailer, and the tailer's
`Drop` cancels the token that the task looks at: who owns the tailer decides how long events are
delivered and handled.

`tailAndScan` is the body that the daemon and the agent share: build a tailer, start it, and run the
scanner on its lines.  Its parameter is how the body holds the tailer in the statement that starts
it.
-/
import Sentinalysis.LogScanner.Tailer
import Sentinalysis.Lib.Scope

namespace Sentinalysis.LogScanner

open Lib

/-! ## Configuration -/

/-- `LogDirectoryConfig`. -/
structure LogDirectoryConfig where
  path : Path
  pattern : String
  deriving DecidableEq, Repr

/-- `LogWatchingConfig`. -/
structure LogWatchingConfig where
  directories : List LogDirectoryConfig
  files : List Path
  deriving DecidableEq, Repr

/-- `LogWatchingConfig::default`. -/
def LogWatchingConfig.default : LogWatchingConfig where
  directories := [{ path := [.text "var", .text "log", .text "nginx"], pattern := "*.log" }]
  files := [Path.join [.text "var", .text "log"] "auth.log"]

/-- `glob::Pattern::new`: the file names a glob matches, or what is wrong with it. -/
abbrev Glob := String → Except String (String → Bool)

/-- `FileTailer`, apart from its token; `watching` says that it holds a watcher. -/
structure FileTailer where
  watching : Bool := false
  files : List Path := []
  watchConfigs : List LogWatchConfig := []
  started : Bool := false

namespace FileTailer

def withFiles (tailer : FileTailer) (files : List Path) : FileTailer :=
  { tailer with files := files }

/-- `with_watch_directory`. -/
def withWatchDirectory (glob : Glob) (tailer : FileTailer) (directory : LogDirectoryConfig) :
    Except SentinelError FileTailer :=
  match glob directory.pattern with
  | .ok pattern => .ok { tailer with
      watchConfigs := tailer.watchConfigs ++ [{ directory := directory.path, pattern := pattern }] }
  | .error e => .error (.ConfigError ("invalid log watch pattern '" ++ directory.pattern ++ "': "
      ++ e))

/-- `from_watch_config`. -/
def fromWatchConfig (glob : Glob) (config : LogWatchingConfig) :
    Except SentinelError FileTailer := do
  let tailer ← config.directories.foldlM (withWatchDirectory glob) {}
  return if config.files = [] then tailer else tailer.withFiles config.files

/-- `start`, up to its tasks; the environment says whether the watcher can be set up. -/
def start (failure : Option SentinelError) (tailer : FileTailer) :
    Except SentinelError FileTailer :=
  if tailer.started then .error (.Internal "Tailer already started")
  else match failure with
    | some e => .error e
    | none => .ok { tailer with watching := true, started := true }

end FileTailer

/-! ## The tasks of a started tailer -/

/-- `notify::Result<Event>`. -/
abbrev NotifyEvent := Except String Event

/-- The capacity of both channels of the bridge. -/
def notifyCapacity : ℕ := 128

/-- The bridge between the two channels: it may hold one event. -/
inductive Bridge
  | idle
  | holding (event : NotifyEvent)
  | ended
  deriving DecidableEq, Repr

/-- The tailing task. -/
inductive TailTask
  | reading (files : List Path) (watchConfigs : List LogWatchConfig)
  | tailing (watchConfigs : List LogWatchConfig) (state : TailerState) (tx : Sender)
  | ended

namespace Tailing

/-- Where the body is: before the tailer is built, before and in its start, after the statement that
started it, in `Scanner::run`, or done. -/
inductive Phase
  | building
  | starting
  | started
  | ready
  | scanning
  | returned (result : Except SentinelError Unit)
  deriving DecidableEq, Repr

/-- The body, what it owns, its own token, and the tailer's token, channels and task. Events that the
watcher delivers while the scanner runs and that get lost are recorded. -/
structure State where
  cancelled : Bool := false
  phase : Phase := .building
  scope : Scope FileTailer := {}
  tailerCancelled : Bool := false
  notifyChannel : List NotifyEvent := []
  bridge : Bridge := .idle
  eventChannel : List NotifyEvent := []
  task : Option TailTask := none
  lost : List NotifyEvent := []

/-- What can happen: the body goes on, its token fires, the watcher delivers an event, the bridge
moves one, or the tailing task takes a step. -/
inductive Label
  | build
  | start (failure : Option SentinelError)
  | endStatement
  | scan
  | stop
  | cancel
  | deliver (event : NotifyEvent)
  | take
  | forward
  | read (fs : FileSystem)
  | handle (fs : FileSystem)
  | tokenSeen
  | closed

/-- A watcher is alive as long as its tailer is owned. -/
def State.watched (s : State) : Bool := s.scope.owned.any FileTailer.watching

/-- `Drop for FileTailer`: the token of a dropped tailer is cancelled. -/
def drop (s : State) (dropped : List FileTailer × Scope FileTailer) : State :=
  { s with
    scope := dropped.2
    tailerCancelled := s.tailerCancelled || !dropped.1.isEmpty }

/-- The scanner runs and the body's own token has not fired. -/
def State.Scanning (s : State) : Prop := s.phase = .scanning ∧ s.cancelled = false

instance (s : State) : Decidable s.Scanning := inferInstanceAs (Decidable (_ ∧ _))

/-- `ChannelHandler::handle_event`: an event that finds the channel full, or without a receiver, is
dropped. -/
def deliver (s : State) (event : NotifyEvent) : State :=
  if s.bridge ≠ .ended ∧ s.notifyChannel.length < notifyCapacity then
    { s with notifyChannel := s.notifyChannel ++ [event] }
  else if s.Scanning then { s with lost := s.lost ++ [event] }
  else s

/-- One turn of the bridge, with an event in hand: it ends when the tailing task is gone. -/
def forward (s : State) (event : NotifyEvent) : Option State :=
  match s.task with
  | some .ended => some { s with bridge := .ended }
  | _ =>
    if s.eventChannel.length < notifyCapacity then
      some { s with bridge := .idle, eventChannel := s.eventChannel ++ [event] }
    else none

/-- The event arm of the tailing loop: it ends at an error of the watcher. -/
def handle (fs : FileSystem) (watchConfigs : List LogWatchConfig) (state : TailerState)
    (tx : Sender) : NotifyEvent → TailTask
  | .ok event =>
    let watchedDirs := watchConfigs.map LogWatchConfig.directory
    let (state, tx) := state.onEvent fs event watchConfigs watchedDirs tx
    .tailing watchConfigs state tx
  | .error _ => .ended

/-- The body that starts a tailer held as `binding` and scans its lines, with the tailer's tasks. -/
def tailAndScan (glob : Glob) (config : LogWatchingConfig) (binding : Binding) :
    Machine State Label where
  step s
    | .build =>
      if s.phase = .building then
        match FileTailer.fromWatchConfig glob config with
        | .ok tailer => some { s with scope := s.scope.hold tailer binding, phase := .starting }
        | .error e => some { s with phase := .returned (.error e) }
      else none
    | .start failure =>
      if s.phase = .starting then
        match s.scope.owned with
        | [tailer] => match tailer.start failure with
          | .ok started => some { s with
              scope := s.scope.modify fun _ => started
              task := some (.reading started.files started.watchConfigs)
              phase := .started }
          | .error e => some (drop { s with phase := .returned (.error e) } s.scope.endBlock)
        | _ => none
      else none
    | .endStatement =>
      if s.phase = .started then some (drop { s with phase := .ready } s.scope.endStatement)
      else none
    | .scan => if s.phase = .ready then some { s with phase := .scanning } else none
    | .stop =>
      if s.phase = .scanning ∧ s.cancelled = true then
        some (drop { s with phase := .returned (.ok ()) } s.scope.endBlock)
      else none
    | .cancel => some { s with cancelled := true }
    | .deliver event => if s.watched then some (deliver s event) else none
    | .take => match s.bridge, s.notifyChannel with
      | .idle, event :: events => some
          { s with notifyChannel := events, bridge := .holding event }
      | _, _ => none
    | .forward => match s.bridge with
      | .holding event => forward s event
      | _ => none
    | .read fs => match s.task with
      | some (.reading files watchConfigs) =>
        let (state, tx) := TailerState.initialRead fs files watchConfigs {}
        some { s with task := some (.tailing watchConfigs state tx) }
      | _ => none
    | .handle fs => match s.task, s.eventChannel with
      | some (.tailing watchConfigs state tx), event :: events => some
          { s with eventChannel := events, task := some (handle fs watchConfigs state tx event) }
      | _, _ => none
    | .tokenSeen => match s.task with
      | some (.tailing _ _ _) =>
        if s.tailerCancelled then some { s with task := some .ended } else none
      | _ => none
    | .closed => match s.task with
      | some (.tailing _ _ _) =>
        if s.watched = false ∧ s.notifyChannel = [] ∧ s.bridge = .idle ∧ s.eventChannel = [] then
          some { s with task := some .ended }
        else none
      | _ => none

/-! ## What one step does to the tailer -/

section Steps

variable {glob : Glob} {config : LogWatchingConfig} {binding : Binding} {s t : State}

/-- What a step can do to the body and the tailer: leave them as they are, or take the body from one
phase to the next. -/
inductive Move (binding : Binding) (s : State) : Label → State → Prop
  | background {a : Label} {t : State} (hphase : t.phase = s.phase) (hscope : t.scope = s.scope)
      (htoken : t.tailerCancelled = s.tailerCancelled)
      (hcancelled : s.cancelled = true → t.cancelled = true) : Move binding s a t
  | build (tailer : FileTailer) (hphase : s.phase = .building) :
      Move binding s .build
        { s with scope := s.scope.hold tailer binding, phase := .starting }
  | start {failure : Option SentinelError} (tailer started : FileTailer)
      (hphase : s.phase = .starting) (howned : s.scope.owned = [tailer])
      (hstarted : started.watching = true) :
      Move binding s (.start failure) { s with
        scope := s.scope.modify fun _ => started
        task := some (.reading started.files started.watchConfigs)
        phase := .started }
  | endStatement (hphase : s.phase = .started) :
      Move binding s .endStatement (drop { s with phase := .ready } s.scope.endStatement)
  | scan (hphase : s.phase = .ready) : Move binding s .scan { s with phase := .scanning }
  | leave {a : Label} {t : State} (result : Except SentinelError Unit)
      (hphase : t.phase = .returned result)
      (hcancelled : s.cancelled = true → t.cancelled = true) : Move binding s a t

theorem watching_of_start {failure : Option SentinelError} {tailer started : FileTailer}
    (h : tailer.start failure = .ok started) : started.watching = true := by
  unfold FileTailer.start at h
  split at h
  · cases h
  · split at h
    · cases h
    · cases h
      rfl

theorem deliver_background (s : State) (event : NotifyEvent) :
    (deliver s event).phase = s.phase ∧ (deliver s event).scope = s.scope ∧
      (deliver s event).tailerCancelled = s.tailerCancelled ∧
      (deliver s event).cancelled = s.cancelled := by
  unfold deliver
  split
  · exact ⟨rfl, rfl, rfl, rfl⟩
  · split
    · exact ⟨rfl, rfl, rfl, rfl⟩
    · exact ⟨rfl, rfl, rfl, rfl⟩

theorem forward_background {event : NotifyEvent} (h : forward s event = some t) :
    t.phase = s.phase ∧ t.scope = s.scope ∧ t.tailerCancelled = s.tailerCancelled ∧
      t.cancelled = s.cancelled := by
  unfold forward at h
  split at h
  · cases h
    exact ⟨rfl, rfl, rfl, rfl⟩
  · split at h
    · cases h
      exact ⟨rfl, rfl, rfl, rfl⟩
    · cases h

/-- Every step is one of these. -/
theorem move_of_step {a : Label} (h : (tailAndScan glob config binding).step s a = some t) :
    Move binding s a t := by
  cases a with
  | build =>
    simp only [tailAndScan, Option.ite_none_right_eq_some] at h
    obtain ⟨hphase, h⟩ := h
    split at h
    · rename_i tailer _
      exact Option.some.inj h ▸ Move.build tailer hphase
    · rename_i e _
      exact Option.some.inj h ▸ Move.leave (.error e) rfl id
  | start failure =>
    simp only [tailAndScan, Option.ite_none_right_eq_some] at h
    obtain ⟨hphase, h⟩ := h
    split at h
    · rename_i tailer howned
      split at h
      · rename_i started hstart
        exact Option.some.inj h ▸
          Move.start tailer started hphase howned (watching_of_start hstart)
      · rename_i e _
        exact Option.some.inj h ▸ Move.leave (.error e) rfl id
    · cases h
  | endStatement =>
    simp only [tailAndScan, Option.ite_none_right_eq_some] at h
    exact Option.some.inj h.2 ▸ Move.endStatement h.1
  | scan =>
    simp only [tailAndScan, Option.ite_none_right_eq_some] at h
    exact Option.some.inj h.2 ▸ Move.scan h.1
  | stop =>
    simp only [tailAndScan, Option.ite_none_right_eq_some] at h
    exact Option.some.inj h.2 ▸ Move.leave (.ok ()) rfl id
  | cancel => exact Option.some.inj h ▸ Move.background rfl rfl rfl fun _ => rfl
  | deliver event =>
    simp only [tailAndScan, Option.ite_none_right_eq_some] at h
    obtain ⟨hphase, hscope, htoken, hcancelled⟩ := deliver_background s event
    exact Option.some.inj h.2 ▸
      Move.background hphase hscope htoken fun hc => hcancelled.trans hc
  | take =>
    simp only [tailAndScan] at h
    split at h
    · exact Option.some.inj h ▸ Move.background rfl rfl rfl id
    · cases h
  | forward =>
    simp only [tailAndScan] at h
    split at h
    · obtain ⟨hphase, hscope, htoken, hcancelled⟩ := forward_background h
      exact Move.background hphase hscope htoken fun hc => hcancelled.trans hc
    · cases h
  | read fs =>
    simp only [tailAndScan] at h
    split at h
    · exact Option.some.inj h ▸ Move.background rfl rfl rfl id
    · cases h
  | handle fs =>
    simp only [tailAndScan] at h
    split at h
    · exact Option.some.inj h ▸ Move.background rfl rfl rfl id
    · cases h
  | tokenSeen =>
    simp only [tailAndScan] at h
    split at h
    · simp only [Option.ite_none_right_eq_some] at h
      exact Option.some.inj h.2 ▸ Move.background rfl rfl rfl id
    · cases h
  | closed =>
    simp only [tailAndScan] at h
    split at h
    · simp only [Option.ite_none_right_eq_some] at h
      exact Option.some.inj h.2 ▸ Move.background rfl rfl rfl id
    · cases h

/-- What the body owns and whether the tailer's token is cancelled, phase by phase. -/
def Ownership (binding : Binding) (scope : Scope FileTailer) (tailerCancelled : Bool) :
    Phase → Prop
  | .building => scope = {} ∧ tailerCancelled = false
  | .starting => ∃ tailer, scope = ({} : Scope FileTailer).hold tailer binding ∧
      tailerCancelled = false
  | .started => ∃ tailer, tailer.watching = true ∧
      scope = ({} : Scope FileTailer).hold tailer binding ∧ tailerCancelled = false
  | .ready | .scanning => match binding with
    | .temporary => scope = {} ∧ tailerCancelled = true
    | .variable => ∃ tailer, tailer.watching = true ∧
        scope = ({} : Scope FileTailer).hold tailer .variable ∧ tailerCancelled = false
  | .returned _ => True

/-- Every step keeps to it. -/
theorem ownership_of_step {a : Label} (h : Ownership binding s.scope s.tailerCancelled s.phase)
    (hstep : (tailAndScan glob config binding).step s a = some t) :
    Ownership binding t.scope t.tailerCancelled t.phase := by
  cases move_of_step hstep with
  | background hphase hscope htoken _ =>
    rw [hphase, hscope, htoken]
    exact h
  | build tailer hphase =>
    rw [hphase] at h
    exact ⟨tailer, by rw [h.1], h.2⟩
  | start tailer started hphase howned hstarted =>
    rw [hphase] at h
    obtain ⟨tailer', hscope, htoken⟩ := h
    refine ⟨started, hstarted, ?_, htoken⟩
    rw [hscope, Scope.modify_hold]
  | endStatement hphase =>
    rw [hphase] at h
    obtain ⟨tailer, hwatching, hscope, htoken⟩ := h
    simp only [drop, hscope, htoken]
    cases binding with
    | temporary => exact ⟨rfl, rfl⟩
    | «variable» => exact ⟨tailer, hwatching, rfl, rfl⟩
  | scan hphase =>
    rw [hphase] at h
    exact h
  | leave result hphase _ =>
    rw [hphase]
    exact trivial

/-- So does every run. -/
theorem ownership_of_run {labels : List Label}
    (hrun : (tailAndScan glob config binding).Run {} labels t) :
    Ownership binding t.scope t.tailerCancelled t.phase :=
  hrun.invariant
    (I := fun t : State => Ownership binding t.scope t.tailerCancelled t.phase) ⟨rfl, rfl⟩
    fun _ _ _ h hstep => ownership_of_step h hstep

end Steps

/-! ## Keeping the tail -/

/-- The tailer has not been dropped, and its token has not been cancelled. -/
structure KeptAlive (s : State) : Prop where
  watched : s.watched = true
  token : s.tailerCancelled = false

/-- The tailer is alive, the tailing task goes on, and no event delivered since the scanner started
has been lost on its way to it. -/
structure Tails (s : State) : Prop extends KeptAlive s where
  task : ∀ task, s.task = some task → task ≠ .ended
  lost : s.lost = []

/-- **A tailer held by a variable lives as long as the scanner runs.** -/
theorem keptAlive_of_variable {glob : Glob} {config : LogWatchingConfig} {labels : List Label}
    {t : State} (hrun : (tailAndScan glob config .variable).Run {} labels t)
    (hphase : t.phase = .scanning) : KeptAlive t := by
  have howns := ownership_of_run hrun
  rw [hphase] at howns
  obtain ⟨tailer, hwatching, hscope, htoken⟩ := howns
  refine ⟨?_, htoken⟩
  rw [State.watched, hscope, Scope.owned_hold]
  simp [hwatching]

/-- **A tailer that is a temporary is gone before the scanner runs**: no event is delivered any
more, and its token is cancelled. -/
theorem not_keptAlive_of_temporary {glob : Glob} {config : LogWatchingConfig} {labels : List Label}
    {t : State} (hrun : (tailAndScan glob config .temporary).Run {} labels t)
    (hphase : t.phase = .scanning) : t.watched = false ∧ t.tailerCancelled = true := by
  have howns := ownership_of_run hrun
  rw [hphase] at howns
  obtain ⟨hscope, htoken⟩ := howns
  refine ⟨?_, htoken⟩
  rw [State.watched, hscope]
  rfl

end Tailing

end Sentinalysis.LogScanner
