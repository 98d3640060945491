/-
# Sentinalysis.Agent.DockerStart — tailing the discovered containers.

Discovery keeps the containers that the configuration names; their log files are watched, and one
thread reads what the watcher reports and sends the lines on.  The lines of all containers share the
channel, so a line has to say which container it is from.  Nothing writes that down: the parser
leaves the name to its caller, and the callers pass the line on.
-/
import Sentinalysis.Agent.DockerTail
import Sentinalysis.Hub.Grpc

namespace Sentinalysis.Agent

open Lib

/-! ## Discovery -/

/-- `ContainerConfigV2`: the fields of a container's configuration that are used. -/
structure ContainerConfigV2 where
  name : Option String := none
  logPath : Option Path := none
  deriving DecidableEq, Repr

/-- The name of a container, without the slashes in front. -/
def ContainerConfigV2.short (config : ContainerConfigV2) : String :=
  String.ofList ((config.name.getD "").toList.dropWhile (· == '/'))

/-- One directory of `discover`; a container without a configuration that can be read is skipped.
The size is that of the log file, if it can be asked. -/
def discoverContainer (names : List String) (size : Path → Option ℕ)
    (config : Option ContainerConfigV2) : Option Tailed :=
  config.bind fun config =>
    if config.short ∈ names then
      config.logPath.map fun logPath =>
        { name := config.short, logPath := logPath, offset := (size logPath).getD 0 }
    else none

/-- `discover`; `entries` is what the root directory has. -/
def discover (names : List String) (size : Path → Option ℕ)
    (entries : Except IoError (List (Option ContainerConfigV2))) : Except IoError (List Tailed) :=
  if names = [] then .ok [] else entries.map (List.filterMap (discoverContainer names size))

/-- A container is tailed under a name that the configuration asks for. -/
theorem name_mem_of_discover {names : List String} {size : Path → Option ℕ}
    {entries : Except IoError (List (Option ContainerConfigV2))} {containers : List Tailed}
    (h : discover names size entries = .ok containers) :
    ∀ tailed ∈ containers, tailed.name ∈ names := by
  unfold discover at h
  split at h
  · cases h
    intro tailed htailed
    cases htailed
  · cases entries with
    | error e => cases h
    | ok entries =>
      cases h
      intro tailed htailed
      obtain ⟨config, -, hconfig⟩ := List.mem_filterMap.mp htailed
      obtain ⟨config, -, hconfig⟩ := Option.bind_eq_some_iff.mp hconfig
      rw [Option.ite_none_right_eq_some] at hconfig
      obtain ⟨hname, hpath⟩ := hconfig
      obtain ⟨logPath, -, rfl⟩ := Option.map_eq_some_iff.mp hpath
      exact hname

namespace DockerStart

/-! ## The drain thread -/

/-- The map of tailed containers; the lines read but not sent yet, and the lines sent, each with the
file it came from; and whether the thread still runs. -/
structure State where
  state : Path → Option Tailed
  sending : List (Path × DockerLogLine) := []
  delivered : List (Path × DockerLogLine) := []
  running : Bool := true

/-- The thread handles a path of an event, sends one line, or ends: it was cancelled, or the
receiver is gone.  With the path comes what `read_new_lines` finds there. -/
inductive Label
  | path (path : Path) (now : ℤ) (size : Option ℕ) (content : Option (List UInt8))
  | send
  | stop
  deriving DecidableEq, Repr

/-- The thread of `start`: an event is handled when the lines before it are sent. -/
def draining (reader : EnvelopeReader) : Machine State Label where
  step s
    | .path path now size content =>
      if s.running = true ∧ s.sending = [] then
        match s.state path with
        | none => some s
        | some tailed => some { s with
            state := Function.update s.state path
              (some (readNewLines reader now tailed size content).2)
            sending := (readNewLines reader now tailed size content).1.map (path, ·) }
      else none
    | .send => match s.sending with
      | [] => none
      | line :: sending =>
        if s.running then
          some { s with sending := sending, delivered := s.delivered ++ [line] }
        else none
    | .stop => some { s with running := false }

/-- An entry of the map; of two containers with one log file the later one stays. -/
def insert (state : Path → Option Tailed) (tailed : Tailed) : Path → Option Tailed :=
  Function.update state tailed.logPath (some tailed)

/-- The thread at its start, with the map of the containers. -/
def start (containers : List Tailed) : State where
  state := containers.foldl insert fun _ => none

section Steps

variable {reader : EnvelopeReader} {containers : List Tailed} {s t : State}

theorem readNewLines_name (now : ℤ) (tailed : Tailed) (size : Option ℕ)
    (content : Option (List UInt8)) :
    (readNewLines reader now tailed size content).2.name = tailed.name ∧
      (readNewLines reader now tailed size content).2.logPath = tailed.logPath := by
  have hreset : ∀ n, (tailed.reset n).name = tailed.name ∧
      (tailed.reset n).logPath = tailed.logPath := by
    intro n
    unfold Tailed.reset
    split <;> exact ⟨rfl, rfl⟩
  unfold readNewLines
  split
  · exact ⟨rfl, rfl⟩
  · split
    · exact hreset _
    · split <;> exact hreset _

/-- A line of a call is what some envelope is parsed to. -/
theorem parsed_of_mem_readNewLines {now : ℤ} {tailed : Tailed} {size : Option ℕ}
    {content : Option (List UInt8)} {line : DockerLogLine}
    (h : line ∈ (readNewLines reader now tailed size content).1) :
    ∃ raw, DockerTail.Parsed reader raw line := by
  unfold readNewLines at h
  split at h
  · cases h
  · split at h
    · cases h
    · split at h
      · cases h
      · obtain ⟨raw, -, hraw⟩ := List.mem_filterMap.mp h
        exact ⟨raw, now, hraw⟩

/-- The line is from an envelope of a container that is tailed. -/
def FromContainer (reader : EnvelopeReader) (containers : List Tailed)
    (entry : Path × DockerLogLine) : Prop :=
  (∃ tailed ∈ containers, tailed.logPath = entry.1) ∧ ∃ raw, DockerTail.Parsed reader raw entry.2

/-- The map has the discovered containers, under the paths of their files, and so have the lines. -/
structure Invariant (reader : EnvelopeReader) (containers : List Tailed) (s : State) : Prop where
  state : ∀ path tailed, s.state path = some tailed →
    ∃ container ∈ containers, container.name = tailed.name ∧ container.logPath = path
  sending : ∀ entry ∈ s.sending, FromContainer reader containers entry
  delivered : ∀ entry ∈ s.delivered, FromContainer reader containers entry

/-- What holds of the entries of a map and of the containers put into it holds of the result. -/
theorem foldl_insert {P : Path → Tailed → Prop} {state : Path → Option Tailed}
    (hstate : ∀ path tailed, state path = some tailed → P path tailed)
    (hcontainers : ∀ tailed ∈ containers, P tailed.logPath tailed) :
    ∀ path tailed, containers.foldl insert state path = some tailed → P path tailed := by
  induction containers generalizing state with
  | nil => exact hstate
  | cons next rest ih =>
    rw [List.forall_mem_cons] at hcontainers
    rw [List.foldl_cons]
    refine ih ?_ hcontainers.2
    intro path tailed hpath
    unfold insert at hpath
    by_cases heq : path = next.logPath
    · subst heq
      rw [Function.update_self] at hpath
      cases hpath
      exact hcontainers.1
    · rw [Function.update_of_ne heq] at hpath
      exact hstate path tailed hpath

theorem invariant_start : Invariant reader containers (start containers) := by
  refine ⟨?_, fun _ h => (by cases h), fun _ h => (by cases h)⟩
  apply foldl_insert
  · intro _ _ hnone
    cases hnone
  · intro tailed htailed
    exact ⟨tailed, htailed, rfl, rfl⟩

theorem Invariant.step (hs : Invariant reader containers s) {label : Label}
    (hstep : (draining reader).step s label = some t) : Invariant reader containers t := by
  cases label with
  | path path now size content =>
    simp only [draining, Option.ite_none_right_eq_some] at hstep
    obtain ⟨-, hstep⟩ := hstep
    cases htailed : s.state path with
    | none =>
      simp only [htailed] at hstep
      obtain rfl := Option.some.inj hstep
      exact hs
    | some tailed =>
      simp only [htailed] at hstep
      obtain rfl := Option.some.inj hstep
      obtain ⟨container, hmem, hname, hpath⟩ := hs.state path tailed htailed
      refine ⟨?_, ?_, hs.delivered⟩
      · intro other after hafter
        simp only at hafter
        by_cases heq : other = path
        · subst heq
          rw [Function.update_self] at hafter
          cases hafter
          refine ⟨container, hmem, ?_, hpath⟩
          rw [(readNewLines_name now tailed size content).1]
          exact hname
        · rw [Function.update_of_ne heq] at hafter
          exact hs.state other after hafter
      · intro entry hentry
        obtain ⟨line, hline, rfl⟩ := List.mem_map.mp hentry
        exact ⟨⟨container, hmem, hpath⟩, parsed_of_mem_readNewLines hline⟩
  | send =>
    simp only [draining] at hstep
    split at hstep
    · cases hstep
    · next line sending hsending =>
      simp only [Option.ite_none_right_eq_some] at hstep
      obtain ⟨-, hstep⟩ := hstep
      obtain rfl := Option.some.inj hstep
      have hboth := List.forall_mem_cons.mp (hsending ▸ hs.sending)
      refine ⟨hs.state, hboth.2, ?_⟩
      intro entry hentry
      rcases List.mem_append.mp hentry with hold | hnew
      · exact hs.delivered entry hold
      · obtain rfl := List.mem_singleton.mp hnew
        exact hboth.1
  | stop =>
    obtain rfl := Option.some.inj hstep
    exact ⟨hs.state, hs.sending, hs.delivered⟩

end Steps

/-! ## What the hub makes of a line -/

/-- The line has the name of its container, and the hub accepts what the agent makes of it where
name, stream and time allow. -/
structure KeepsContainer (clock : Hub.Clock) (hostname name : String) (line : DockerLogLine) :
    Prop where
  container : line.container = name
  accepted : Hub.Validate.containerRe.isMatch name = true →
    line.stream = "stdout" ∨ line.stream = "stderr" →
    Hub.Validate.InWindow (Hub.tsFromMs clock.fallback line.timestampMs) clock.now →
    ∃ entry, Hub.validateLogLine clock line.toPending.toLogLine hostname = .ok entry

/-- No parsed line names a container. -/
theorem container_of_parsed {reader : EnvelopeReader} {raw : String} {line : DockerLogLine}
    (h : DockerTail.Parsed reader raw line) : line.container = "" := by
  obtain ⟨now, hline⟩ := h
  obtain ⟨envelope, -, -, rfl⟩ := parseEnvelope_eq_some_iff.mp hline
  rfl

/-- The hub refuses a line without a container. -/
theorem refused_of_container {line : DockerLogLine} (h : line.container = "") (clock : Hub.Clock)
    (hostname : String) :
    ¬ ∃ entry, Hub.validateLogLine clock line.toPending.toLogLine hostname = .ok entry := by
  intro haccepted
  have hmatch := (Hub.validateLogLine_isOk_iff.mp haccepted).container
  rw [show line.toPending.toLogLine.container = "" from h] at hmatch
  exact absurd hmatch (by decide)

/-- A line without a container is right for a container without a name, and for no other. -/
theorem keepsContainer_iff {line : DockerLogLine} (h : line.container = "") {clock : Hub.Clock}
    {hostname name : String} : KeepsContainer clock hostname name line ↔ name = "" := by
  constructor
  · intro hkeeps
    rw [← hkeeps.container, h]
  · rintro rfl
    refine ⟨h, fun hmatch => ?_⟩
    exact absurd hmatch (by decide)

/-- **A delivered line keeps its container exactly when the container has no name.** -/
theorem delivered_keepsContainer_iff {reader : EnvelopeReader} {containers : List Tailed}
    {labels : List Label} {t : State} (hrun : (draining reader).Run (start containers) labels t)
    {path : Path} {line : DockerLogLine} (hline : (path, line) ∈ t.delivered) (clock : Hub.Clock)
    (hostname : String) :
    (∃ tailed ∈ containers, tailed.logPath = path) ∧
      ∀ tailed ∈ containers, tailed.logPath = path →
        (KeepsContainer clock hostname tailed.name line ↔ tailed.name = "") := by
  have hinv : Invariant reader containers t := by
    refine hrun.invariant invariant_start ?_
    intro s label u hs hstep
    exact hs.step hstep
  obtain ⟨hfrom, raw, hparsed⟩ := hinv.delivered _ hline
  refine ⟨hfrom, ?_⟩
  intro tailed _ _
  exact keepsContainer_iff (container_of_parsed hparsed)

/-! ## A container with a name -/

/-- The container of the line `upLine`. -/
def web : Tailed := ⟨"web", [.text "c1-json.log"], 0⟩

/-- The file of the container is read, and its line is sent. -/
def oneLine : List Label :=
  [.path web.logPath 0 (some (Framing.encode [DockerTail.upLine]).length)
    (some (Framing.encode [DockerTail.upLine])), .send]

/-- The thread has sent a line. -/
theorem exists_delivered : ((draining DockerTail.upReader).exec (start [web]) oneLine).any
    (fun t => t.delivered.any fun entry => entry.1 = web.logPath ∧ entry.2.container = "") =
      true := by
  decide +kernel

theorem delivered_keepsContainer_web : ∃ (t : State) (line : DockerLogLine),
    (web.logPath, line) ∈ t.delivered ∧ ∀ tailed ∈ [web], tailed.logPath = web.logPath →
      (KeepsContainer ⟨.epoch, .epoch⟩ "host" tailed.name line
        ↔ tailed.name = "") := by
  obtain ⟨t, hrun, ht⟩ := Machine.exists_run_any exists_delivered
  obtain ⟨⟨path, line⟩, hmem, hentry⟩ := List.any_eq_true.mp ht
  obtain ⟨hpath, -⟩ := of_decide_eq_true hentry
  obtain rfl : path = web.logPath := hpath
  exact ⟨t, line, hmem,
    (delivered_keepsContainer_iff hrun hmem _ "host").2⟩

/-- **The line of a container with a name does not carry it**, and the hub refuses it. -/
theorem container_lost :
    (∀ raw ∈ [DockerTail.upLine], DockerTail.WellFormed DockerTail.upReader raw) ∧
    Hub.Validate.containerRe.isMatch web.name = true ∧
    ∃ t, (draining DockerTail.upReader).Run (start [web]) oneLine t ∧
      ∃ line, (web.logPath, line) ∈ t.delivered ∧ line.container ≠ web.name ∧
        ∀ clock hostname,
          ¬ ∃ entry, Hub.validateLogLine clock line.toPending.toLogLine hostname = .ok entry := by
  refine ⟨DockerTail.wellFormed_upLine, by decide, ?_⟩
  obtain ⟨t, hrun, ht⟩ := Machine.exists_run_any exists_delivered
  obtain ⟨⟨path, line⟩, hmem, hentry⟩ := List.any_eq_true.mp ht
  obtain ⟨hpath, hcontainer⟩ := of_decide_eq_true hentry
  obtain rfl : path = web.logPath := hpath
  refine ⟨t, hrun, line, hmem, ?_, refused_of_container hcontainer⟩
  rw [hcontainer]
  decide

end DockerStart

end Sentinalysis.Agent
