/-
# Sentinalysis.Hub.Serving — the hub from its start to its end: the two servers, the retention loop,
and `run`, which waits for a signal and then for the three of them.

The token that `run` cancels on a signal reaches the retention loop.  The servers are handed it too
and do not look at it: they serve until they fail.  What a server fails with is logged by its task,
and nobody looks at the task before the signal.
-/
import Sentinalysis.Hub.RunHub
import Sentinalysis.Lib.Transition
import Mathlib.Logic.Function.Basic

namespace Sentinalysis.Hub.Serving

open Lib RunHub

/-! ## The tasks and `run` -/

/-- The task of a server: before its bind, serving, or at its end with the error that it logged. -/
inductive ServerTask
  | binding
  | serving
  | ended (error : String)
  deriving DecidableEq, Repr

def ServerTask.Ended : ServerTask → Prop
  | .ended _ => True
  | _ => False

instance : ∀ task, Decidable (ServerTask.Ended task)
  | .ended _ => .isTrue trivial
  | .binding | .serving => .isFalse id

/-- The retention loop: in `select!`, in a pass, or at its end. -/
inductive RetentionTask
  | selecting
  | pruning
  | ended
  deriving DecidableEq, Repr

/-- The tasks that `run` waits for. -/
inductive Part
  | server (server : Server)
  | retention
  deriving DecidableEq, Repr

/-- Where `run` is: before each of its spawns, before and in its wait, in the loop that awaits the
tasks, or done; or a signal has ended the process. -/
inductive Main
  | starting
  | grpcSpawned
  | restSpawned
  | listening
  | waiting
  | joining (parts : List Part)
  | returned (result : Except SentinelError Unit)
  | killed
  deriving DecidableEq, Repr

/-- The process has not ended. -/
def Main.Alive : Main → Prop
  | .returned _ | .killed => False
  | _ => True

instance : ∀ main, Decidable (Main.Alive main)
  | .returned _ | .killed => .isFalse id
  | .starting | .grpcSpawned | .restSpawned | .listening | .waiting | .joining _ => .isTrue trivial

/-- `run`, its token and its tasks. -/
structure State where
  main : Main := .starting
  cancelled : Bool := false
  servers : Server → Option ServerTask := fun _ => none
  retention : Option RetentionTask := none

/-- What can happen: `run` goes on, a shutdown signal arrives, a server is bound or fails, or the
retention loop takes a step. -/
inductive Label
  | spawnGrpc
  | spawnRest
  | spawnRetention
  | wait
  | signal
  | cancelSeen
  | join
  | finish
  | bind (server : Server) (failure : Option String)
  | fail (server : Server) (error : String)
  | tick
  | pruned
  | retentionCancelled
  deriving DecidableEq, Repr

/-- The task of a part has ended. -/
def State.Ended (s : State) : Part → Prop
  | .server server => ∃ task, s.servers server = some task ∧ task.Ended
  | .retention => s.retention = some .ended

instance (s : State) : ∀ part, Decidable (s.Ended part)
  | .server server => match h : s.servers server with
    | none => .isFalse fun ⟨_, hsome, _⟩ => by rw [h] at hsome; cases hsome
    | some task => decidable_of_iff task.Ended (by simp [State.Ended, h])
  | .retention => inferInstanceAs (Decidable (_ = _))

def State.setServer (s : State) (server : Server) (task : ServerTask) : State :=
  { s with servers := Function.update s.servers server (some task) }

/-- What `run` does before it spawns the first server. -/
def beforeGrpc (toSocketAddrs : ToSocketAddrs) (migrations : Except SentinelError Unit)
    (hub : RunHub.HubConfig) : Except SentinelError IpAddr := do
  if ¬ hub.enabled then
    .error (.ConfigError "hub mode requested but hub.enabled is false in the config")
  else
    hub.validateBindSecurity
    migrations
    resolveAddr toSocketAddrs .grpc hub.grpcHost hub.grpcPort

/-- The start of the hub in its two parts. -/
theorem run_eq (toSocketAddrs : ToSocketAddrs) (migrations : Except SentinelError Unit)
    (hub : RunHub.HubConfig) : RunHub.run toSocketAddrs migrations hub = (do
      let grpcAddr ← beforeGrpc toSocketAddrs migrations hub
      let restAddr ← resolveAddr toSocketAddrs .rest hub.restHost hub.restPort
      return [RunHub.spawnGrpc grpcAddr hub.grpcPort, RunHub.spawnRest restAddr hub.restPort]) := by
  unfold RunHub.run beforeGrpc
  split
  · rfl
  · cases hub.validateBindSecurity with
    | error e => rfl
    | ok _ =>
      cases migrations with
      | error e => rfl
      | ok _ =>
        cases resolveAddr toSocketAddrs .grpc hub.grpcHost hub.grpcPort with
        | error e => rfl
        | ok addr => rfl

/-- The order in which `run` awaits its tasks. -/
def parts : List Part := [.server .grpc, .server .rest, .retention]

/-- `run_hub::run` and its tasks. A server that has started ends only on an error; a signal that
finds no handler ends the process. -/
def hubMachine (toSocketAddrs : ToSocketAddrs) (migrations : Except SentinelError Unit)
    (hub : RunHub.HubConfig) : Machine State Label where
  step s
    | .spawnGrpc =>
      if s.main = .starting then
        match beforeGrpc toSocketAddrs migrations hub with
        | .ok _ => some { s.setServer .grpc .binding with main := .grpcSpawned }
        | .error e => some { s with main := .returned (.error e) }
      else none
    | .spawnRest =>
      if s.main = .grpcSpawned then
        match resolveAddr toSocketAddrs .rest hub.restHost hub.restPort with
        | .ok _ => some { s.setServer .rest .binding with main := .restSpawned }
        | .error e => some { s with main := .returned (.error e) }
      else none
    | .spawnRetention =>
      if s.main = .restSpawned then
        some { s with retention := some .selecting, main := .listening }
      else none
    -- the handlers are installed when `wait_for_shutdown` is first polled
    | .wait => if s.main = .listening then some { s with main := .waiting } else none
    | .signal =>
      if s.main.Alive then
        match s.main with
        | .waiting => some { s with main := .joining parts, cancelled := true }
        | .joining _ => some s
        | _ => some { s with main := .killed }
      else none
    | .cancelSeen =>
      if s.main = .waiting ∧ s.cancelled = true then
        some { s with main := .joining parts, cancelled := true }
      else none
    | .join => match s.main with
      | .joining (part :: rest) =>
        if s.Ended part then some { s with main := .joining rest } else none
      | _ => none
    | .finish => if s.main = .joining [] then some { s with main := .returned (.ok ()) } else none
    | .bind server failure =>
      if s.main.Alive ∧ s.servers server = some .binding then
        some (s.setServer server (failure.elim .serving .ended))
      else none
    | .fail server error =>
      if s.main.Alive ∧ s.servers server = some .serving then
        some (s.setServer server (.ended error))
      else none
    | .tick =>
      if s.main.Alive ∧ s.retention = some .selecting then
        some { s with retention := some .pruning }
      else none
    | .pruned =>
      if s.main.Alive ∧ s.retention = some .pruning then
        some { s with retention := some .selecting }
      else none
    | .retentionCancelled =>
      if s.main.Alive ∧ s.retention = some .selecting ∧ s.cancelled = true then
        some { s with retention := some .ended }
      else none

/-- The steps of a task's own, which need nothing from outside: a server has none that leads
anywhere, the retention loop ends its pass and sees the token. -/
def Label.Own : Part → Label → Prop
  | .retention, .pruned | .retention, .retentionCancelled => True
  | _, _ => False

/-- A server ends, with what it failed with. -/
def Label.EndsServer : Label → Prop
  | .bind _ (some _) | .fail _ _ => True
  | _ => False

instance : ∀ a, Decidable (Label.EndsServer a)
  | .bind _ (some _) | .fail _ _ => .isTrue trivial
  | .bind _ none | .spawnGrpc | .spawnRest | .spawnRetention | .wait | .signal | .cancelSeen
  | .join | .finish | .tick | .pruned | .retentionCancelled => .isFalse id

/-! ## What one step does -/

section Steps

variable {toSocketAddrs : ToSocketAddrs} {migrations : Except SentinelError Unit}
  {hub : RunHub.HubConfig} {s t : State}

/-- What a step can do: take `run` through its setup, to its wait or out of it; await a task that
has ended; or move a task. -/
inductive Effect (s : State) : Label → State → Prop
  | setup {a : Label} {t : State} (halive : s.main.Alive) (hend : ¬ a.EndsServer)
      (hbefore : s.main ≠ .waiting)
      (hjoining : ∀ parts, s.main ≠ .joining parts) (hafter : t.main ≠ .waiting)
      (hjoining' : ∀ parts, t.main ≠ .joining parts)
      (hretention : t.main = .listening → t.retention ≠ none) : Effect s a t
  | wait (hmain : s.main = .listening) : Effect s .wait { s with main := .waiting }
  | shutdown {a : Label} (hmain : s.main = .waiting) (hlabel : a = .signal ∨ a = .cancelSeen) :
      Effect s a { s with main := .joining parts, cancelled := true }
  | ignored (parts : List Part) (hmain : s.main = .joining parts) : Effect s .signal s
  | join (part : Part) (rest : List Part) (hmain : s.main = .joining (part :: rest))
      (hended : s.Ended part) : Effect s .join { s with main := .joining rest }
  | finish (hmain : s.main = .joining []) : Effect s .finish { s with main := .returned (.ok ()) }
  | server {a : Label} (server : Server) (task : ServerTask) (halive : s.main.Alive)
      (hbefore : ¬ s.Ended (.server server)) (hend : a.EndsServer ↔ task.Ended) :
      Effect s a (s.setServer server task)
  | retention {a : Label} (task : RetentionTask) (halive : s.main.Alive)
      (hend : ¬ a.EndsServer) (hsome : s.retention ≠ none) :
      Effect s a { s with retention := some task }

theorem not_ended_of_eq {server : Server} {task : ServerTask}
    (h : s.servers server = some task) (hended : ¬ task.Ended) : ¬ s.Ended (.server server) := by
  rintro ⟨task', htask, hended'⟩
  obtain rfl := Option.some.inj (h.symm.trans htask)
  exact hended hended'

/-- What has ended once a server's task has moved: that server, if its new task has, or one that had
ended. -/
theorem State.Ended.of_setServer {server other : Server} {task : ServerTask}
    (h : (s.setServer server task).Ended (.server other)) :
    task.Ended ∨ s.Ended (.server other) := by
  obtain ⟨task', htask, hended⟩ := h
  have htask' : Function.update s.servers server (some task) other = some task' := htask
  by_cases hsame : other = server
  · subst hsame
    rw [Function.update_self] at htask'
    obtain rfl := Option.some.inj htask'
    exact Or.inl hended
  · rw [Function.update_of_ne hsame] at htask'
    exact Or.inr ⟨task', htask', hended⟩

/-- Every step is one of these. -/
theorem effect_of_step {a : Label}
    (h : (hubMachine toSocketAddrs migrations hub).step s a = some t) : Effect s a t := by
  -- a step of the setup leads from one of its places to another, or ends the hub
  have hsetup : ∀ {a : Label} {main : Main} {t : State}, ¬ a.EndsServer → s.main = main →
      main.Alive → main ≠ .waiting → (∀ parts, main ≠ .joining parts) → t.main ≠ .waiting →
      (∀ parts, t.main ≠ .joining parts) → (t.main = .listening → t.retention ≠ none) →
      Effect s a t := by
    intro a main t hend hmain halive hwaiting hjoining hafter hjoining' hretention
    subst hmain
    exact Effect.setup halive hend hwaiting hjoining hafter hjoining' hretention
  cases a with
  | spawnGrpc | spawnRest =>
    simp only [hubMachine, Option.ite_none_right_eq_some] at h
    obtain ⟨hmain, h⟩ := h
    split at h
    · obtain rfl := Option.some.inj h
      exact hsetup id hmain trivial nofun nofun nofun nofun nofun
    · obtain rfl := Option.some.inj h
      exact hsetup id hmain trivial nofun nofun nofun nofun nofun
  | spawnRetention =>
    simp only [hubMachine, Option.ite_none_right_eq_some] at h
    obtain ⟨hmain, h⟩ := h
    obtain rfl := Option.some.inj h
    exact hsetup id hmain trivial nofun nofun nofun nofun fun _ => nofun
  | wait =>
    simp only [hubMachine, Option.ite_none_right_eq_some] at h
    obtain ⟨hmain, h⟩ := h
    obtain rfl := Option.some.inj h
    exact Effect.wait hmain
  | signal =>
    simp only [hubMachine, Option.ite_none_right_eq_some] at h
    obtain ⟨halive, h⟩ := h
    split at h
    · next hmain =>
      obtain rfl := Option.some.inj h
      exact Effect.shutdown hmain (Or.inl rfl)
    · next parts hmain =>
      obtain rfl := Option.some.inj h
      exact Effect.ignored parts hmain
    · next hwaiting hjoining =>
      obtain rfl := Option.some.inj h
      exact hsetup id rfl halive (fun heq => hwaiting heq) (fun parts heq => hjoining parts heq)
        nofun nofun nofun
  | cancelSeen =>
    simp only [hubMachine, Option.ite_none_right_eq_some] at h
    obtain ⟨⟨hmain, -⟩, h⟩ := h
    obtain rfl := Option.some.inj h
    exact Effect.shutdown hmain (Or.inr rfl)
  | join =>
    simp only [hubMachine] at h
    split at h
    · next part rest hmain =>
      simp only [Option.ite_none_right_eq_some] at h
      obtain ⟨hended, h⟩ := h
      obtain rfl := Option.some.inj h
      exact Effect.join part rest hmain hended
    · cases h
  | finish =>
    simp only [hubMachine, Option.ite_none_right_eq_some] at h
    obtain ⟨hmain, h⟩ := h
    obtain rfl := Option.some.inj h
    exact Effect.finish hmain
  | bind server failure =>
    simp only [hubMachine, Option.ite_none_right_eq_some] at h
    obtain ⟨⟨halive, hbinding⟩, h⟩ := h
    obtain rfl := Option.some.inj h
    refine Effect.server server _ halive (not_ended_of_eq hbinding id) ?_
    cases failure with
    | none => exact Iff.rfl
    | some e => exact Iff.rfl
  | fail server error =>
    simp only [hubMachine, Option.ite_none_right_eq_some] at h
    obtain ⟨⟨halive, hserving⟩, h⟩ := h
    obtain rfl := Option.some.inj h
    exact Effect.server server _ halive (not_ended_of_eq hserving id) Iff.rfl
  | tick | pruned =>
    simp only [hubMachine, Option.ite_none_right_eq_some] at h
    obtain ⟨⟨halive, hretention⟩, h⟩ := h
    obtain rfl := Option.some.inj h
    exact Effect.retention _ halive id (by rw [hretention]; nofun)
  | retentionCancelled =>
    simp only [hubMachine, Option.ite_none_right_eq_some] at h
    obtain ⟨⟨halive, hretention, -⟩, h⟩ := h
    obtain rfl := Option.some.inj h
    exact Effect.retention _ halive id (by rw [hretention]; nofun)

end Steps

/-! ## The end of the hub -/

section Shutdown

variable (toSocketAddrs : ToSocketAddrs) (migrations : Except SentinelError Unit)
  (hub : RunHub.HubConfig)

/-- The task of a part can come to its end by steps of its own. -/
def CanComplete (s : State) (part : Part) : Prop :=
  ∃ labels t, (∀ a ∈ labels, Label.Own part a) ∧
    (hubMachine toSocketAddrs migrations hub).Run s labels t ∧ t.Ended part

/-- Once the token is cancelled, every task that `run` still waits for can. -/
def CanEnd (s : State) : Prop :=
  s.cancelled = true → ∀ parts, s.main = .joining parts →
    ∀ part ∈ parts, CanComplete toSocketAddrs migrations hub s part

/-- When `run` leaves its wait, both servers have ended. -/
def ServersEndFirst (s : State) : Label → Prop
  | .signal | .cancelSeen => s.main = .waiting → ∀ server, s.Ended (.server server)
  | _ => True

variable {toSocketAddrs migrations hub} {s t : State}

/-- The retention loop is there once the hub listens, and no server is left when `run` awaits its
tasks. -/
structure Ready (s : State) : Prop where
  retention : (s.main = .listening ∨ s.main = .waiting ∨ ∃ parts, s.main = .joining parts) →
    s.retention ≠ none
  servers : ∀ parts, s.main = .joining parts → ∀ server, s.Ended (.server server)

theorem Ready.step (h : Ready s) {a : Label} (hfirst : ServersEndFirst s a)
    (hstep : (hubMachine toSocketAddrs migrations hub).step s a = some t) : Ready t := by
  cases effect_of_step hstep with
  | setup _ _ _ _ hafter hjoining' hretention =>
    refine ⟨?_, fun parts hmain => absurd hmain (hjoining' parts)⟩
    rintro (hmain | hmain | ⟨parts, hmain⟩)
    · exact hretention hmain
    · exact absurd hmain hafter
    · exact absurd hmain (hjoining' parts)
  | wait hmain => exact ⟨fun _ => h.retention (Or.inl hmain), nofun⟩
  | shutdown hmain hlabel =>
    refine ⟨fun _ => h.retention (Or.inr (Or.inl hmain)), ?_⟩
    intro _ _ server
    rcases hlabel with rfl | rfl
    · exact hfirst hmain server
    · exact hfirst hmain server
  | ignored parts _ => exact h
  | join part rest hmain _ =>
    refine ⟨fun _ => h.retention (Or.inr (Or.inr ⟨_, hmain⟩)), ?_⟩
    intro _ _ server
    exact h.servers _ hmain server
  | finish _ => exact ⟨nofun, nofun⟩
  | server server _ _ hbefore _ =>
    refine ⟨h.retention, ?_⟩
    intro parts hmain
    exact absurd (h.servers parts hmain server) hbefore
  | retention _ _ _ _ => exact ⟨fun _ => nofun, h.servers⟩

/-- The retention loop ends by itself. -/
theorem canComplete_retention {parts : List Part} (hmain : s.main = .joining parts)
    (hcancelled : s.cancelled = true) (hretention : s.retention ≠ none) :
    CanComplete toSocketAddrs migrations hub s .retention := by
  have halive : s.main.Alive := by
    rw [hmain]
    exact trivial
  have hsees : ∀ s : State, s.main.Alive → s.cancelled = true → s.retention = some .selecting →
      (hubMachine toSocketAddrs migrations hub).Run s [.retentionCancelled]
        { s with retention := some .ended } := by
    intro s halive hcancelled hselecting
    apply Machine.Run.nil.snoc
    exact if_pos ⟨halive, hselecting, hcancelled⟩
  obtain ⟨task, hsome⟩ := Option.ne_none_iff_exists'.mp hretention
  cases task with
  | selecting =>
    refine ⟨[.retentionCancelled], _, ?_, hsees s halive hcancelled hsome, rfl⟩
    intro a ha
    obtain rfl := List.mem_singleton.mp ha
    exact trivial
  | pruning =>
    have hpruned : (hubMachine toSocketAddrs migrations hub).step s .pruned =
        some { s with retention := some .selecting } := if_pos ⟨halive, hsome⟩
    refine ⟨[.pruned, .retentionCancelled], _, ?_,
      Machine.Run.cons hpruned (hsees _ halive hcancelled rfl), rfl⟩
    intro a ha
    rcases List.mem_pair.mp ha with rfl | rfl
    · exact trivial
    · exact trivial
  | ended => exact ⟨[], s, nofun, Machine.Run.nil, hsome⟩

theorem Ready.canEnd (h : Ready s) : CanEnd toSocketAddrs migrations hub s := by
  intro hcancelled parts hmain part _
  cases part with
  | server server => exact ⟨[], s, nofun, Machine.Run.nil, h.servers parts hmain server⟩
  | retention =>
    exact canComplete_retention hmain hcancelled (h.retention (Or.inr (Or.inr ⟨parts, hmain⟩)))

/-- A server does nothing of its own to come to its end. -/
theorem ended_of_canComplete {server : Server}
    (h : CanComplete toSocketAddrs migrations hub s (.server server)) :
    s.Ended (.server server) := by
  obtain ⟨labels, t, hown, hrun, hended⟩ := h
  cases labels with
  | nil => exact hrun.of_nil ▸ hended
  | cons a labels => exact absurd (hown a (List.mem_cons_self ..)) id

/-- While `run` awaits a server that has not ended, only that server's failure changes it. -/
theorem joining_of_run {server : Server} {more : List Label}
    (hwaits : ∃ parts, s.main = .joining parts ∧ .server server ∈ parts)
    (hserves : ¬ s.Ended (.server server)) (hnone : ∀ a ∈ more, ¬ a.EndsServer)
    (hrun : (hubMachine toSocketAddrs migrations hub).Run s more t) :
    (∃ parts, t.main = .joining parts ∧ .server server ∈ parts) ∧
      ¬ t.Ended (.server server) := by
  induction hrun with
  | nil => exact ⟨hwaits, hserves⟩
  | @snoc more u a t _ hstep ih =>
    obtain ⟨⟨parts, hmain, hmem⟩, hserves⟩ :=
      ih fun a ha => hnone a (List.mem_append_left _ ha)
    have hend := hnone a (List.mem_append_right _ (List.mem_singleton_self a))
    cases effect_of_step hstep with
    | setup _ _ _ hjoining _ _ _ => exact absurd hmain (hjoining parts)
    | wait hlistening => rw [hmain] at hlistening; cases hlistening
    | shutdown hwaiting _ => rw [hmain] at hwaiting; cases hwaiting
    | ignored _ _ => exact ⟨⟨parts, hmain, hmem⟩, hserves⟩
    | join part rest hjoining hended =>
      obtain rfl := Main.joining.inj (hmain.symm.trans hjoining)
      refine ⟨⟨rest, rfl, ?_⟩, hserves⟩
      rcases List.mem_cons.mp hmem with rfl | hrest
      · exact absurd hended hserves
      · exact hrest
    | finish hdone =>
      obtain rfl := Main.joining.inj (hmain.symm.trans hdone)
      cases hmem
    | server other task _ _ hiff =>
      refine ⟨⟨parts, hmain, hmem⟩, ?_⟩
      intro hended
      rcases hended.of_setServer with htask | hbefore
      · exact hend (hiff.mpr htask)
      · exact hserves hbefore
    | retention _ _ _ _ => exact ⟨⟨parts, hmain, hmem⟩, hserves⟩

/-- **The hub can end** exactly when both servers have failed before `run` leaves its wait.  As long
as one of them serves, `run` awaits it, and nothing but its failure leads on. -/
theorem canEnd_iff {labels : List Label}
    (hrun : (hubMachine toSocketAddrs migrations hub).Run {} labels s) :
    ((hubMachine toSocketAddrs migrations hub).Always (CanEnd toSocketAddrs migrations hub) {}
        labels ↔
      (hubMachine toSocketAddrs migrations hub).Along ServersEndFirst {} labels) ∧
    ∀ server, (∃ parts, s.main = .joining parts ∧ .server server ∈ parts) →
      ¬ s.Ended (.server server) → ∀ more u, (∀ a ∈ more, ¬ a.EndsServer) →
      (hubMachine toSocketAddrs migrations hub).Run s more u → ∃ parts, u.main = .joining parts := by
  refine ⟨hrun.always_iff_along_of_keep (J := Ready) ⟨nofun, nofun⟩ ?_ (fun _ => Ready.canEnd) ?_,
    ?_⟩
  · intro labels s a t _ hready hfirst hstep
    exact hready.step hfirst hstep
  · intro labels s a t _ hstep hcan
    have hleaves : (hubMachine toSocketAddrs migrations hub).step s a =
        some { s with main := .joining parts, cancelled := true } →
        ∀ server, s.Ended (.server server) := by
      intro hafter server
      obtain rfl := Option.some.inj (hstep.symm.trans hafter)
      have hmem : Part.server server ∈ parts := by
        cases server with
        | grpc => exact List.mem_cons_self ..
        | rest => exact List.mem_cons_of_mem _ (List.mem_cons_self ..)
      have hended := ended_of_canComplete (hcan rfl parts rfl (.server server) hmem)
      exact hended
    cases a with
    | signal =>
      intro hmain
      apply hleaves
      simp only [hubMachine, hmain]
      exact if_pos trivial
    | cancelSeen =>
      intro hmain
      simp only [hubMachine, Option.ite_none_right_eq_some] at hstep
      obtain ⟨hseen, -⟩ := hstep
      exact hleaves (if_pos hseen)
    | spawnGrpc | spawnRest | spawnRetention | wait | join | finish | bind | fail | tick | pruned
    | retentionCancelled => exact trivial
  · intro server hwaits hserves more u hnone hmore
    obtain ⟨⟨parts, hmain, -⟩, -⟩ := joining_of_run hwaits hserves hnone hmore
    exact ⟨parts, hmain⟩

end Shutdown

instance (s : State) : ∀ a, Decidable (ServersEndFirst s a)
  | .signal | .cancelSeen =>
    decidable_of_iff (s.main = .waiting → s.Ended (.server .grpc) ∧ s.Ended (.server .rest))
      ⟨fun h hmain server => by cases server <;> simp [h hmain],
        fun h hmain => ⟨h hmain .grpc, h hmain .rest⟩⟩
  | .spawnGrpc | .spawnRest | .spawnRetention | .wait | .join | .finish | .bind _ _ | .fail _ _
  | .tick | .pruned | .retentionCancelled => .isTrue trivial

/-- The hub of the default configuration, on a machine that knows `localhost`. -/
def defaultHub : Machine State Label :=
  hubMachine hostsFile (.ok ()) { enabled := true }

/-- A start, up to the wait. -/
def start : List Label := [.spawnGrpc, .spawnRest, .spawnRetention, .wait]

/-- Both ports are taken: both servers fail before the signal. -/
def portsTaken : List Label := start ++
  [.bind .grpc (some "Address already in use (os error 98)"),
    .bind .rest (some "Address already in use (os error 98)"), .signal]

/-- This hub can end. -/
theorem canEnd_portsTaken : ∃ s, defaultHub.Run {} portsTaken s ∧ s.cancelled = true ∧
    CanEnd hostsFile (.ok ()) { enabled := true } s := by
  have hexec : (defaultHub.exec {} portsTaken).any State.cancelled = true := by decide +kernel
  obtain ⟨s, hrun, hcancelled⟩ := Machine.exists_run_any hexec
  have hall := (canEnd_iff hrun).1.mpr (by decide +kernel)
  exact ⟨s, hrun, hcancelled, hall.last hrun⟩

/-- A signal that finds both servers serving. -/
def stopped : List Label := start ++ [.bind .grpc none, .bind .rest none, .signal]

/-- `run` waits for the gRPC server, which goes on serving. -/
theorem not_canEnd_stopped : ∃ s, defaultHub.Run {} stopped s ∧ s.main = .joining parts ∧
    s.cancelled = true ∧ ¬ CanEnd hostsFile (.ok ()) { enabled := true } s := by
  have hexec : (defaultHub.exec {} stopped).any (fun s =>
      s.main = .joining parts ∧ s.cancelled = true ∧ s.servers .grpc = some .serving) = true := by
    decide +kernel
  obtain ⟨s, hrun, h⟩ := Machine.exists_run_any hexec
  obtain ⟨hmain, hcancelled, hserving⟩ := of_decide_eq_true h
  refine ⟨s, hrun, hmain, hcancelled, ?_⟩
  intro hcan
  exact not_ended_of_eq hserving id
    (ended_of_canComplete (hcan hcancelled parts hmain (.server .grpc) (List.mem_cons_self ..)))

/-! ## A server that has ended -/

section Failures

variable (toSocketAddrs : ToSocketAddrs) (migrations : Except SentinelError Unit)
  (hub : RunHub.HubConfig)

/-- While `run` waits and a server has ended, `run` can return an error without a signal. -/
def LeavesWithError (s : State) : Prop :=
  s.main = .waiting → (∃ server, s.Ended (.server server)) →
    ∃ labels t e, (∀ a ∈ labels, a ≠ .signal) ∧
      (hubMachine toSocketAddrs migrations hub).Run s labels t ∧ t.main = .returned (.error e)

/-- No server has ended when `run` begins to wait, and none ends while it waits. -/
def ServersUp (s : State) : Label → Prop
  | .wait => ∀ server, ¬ s.Ended (.server server)
  | .bind _ (some _) | .fail _ _ => s.main ≠ .waiting
  | _ => True

/-- `run` has come to its wait. -/
def Waited (s : State) : Prop :=
  s.main = .waiting ∨ (∃ parts, s.main = .joining parts) ∨ s.main = .returned (.ok ())

variable {toSocketAddrs migrations hub} {s t : State}

/-- From its wait on, `run` comes to no error. -/
theorem Waited.step (h : Waited s) {a : Label}
    (hstep : (hubMachine toSocketAddrs migrations hub).step s a = some t) : Waited t := by
  cases effect_of_step hstep with
  | setup halive _ hbefore hjoining _ _ _ =>
    rcases h with hmain | ⟨parts, hmain⟩ | hmain
    · exact absurd hmain hbefore
    · exact absurd hmain (hjoining parts)
    · rw [hmain] at halive
      exact halive.elim
  | wait _ => exact Or.inl rfl
  | shutdown _ _ => exact Or.inr (Or.inl ⟨_, rfl⟩)
  | ignored _ _ => exact h
  | join _ rest _ _ => exact Or.inr (Or.inl ⟨rest, rfl⟩)
  | finish _ => exact Or.inr (Or.inr rfl)
  | server _ _ _ _ _ => exact h
  | retention _ _ _ _ => exact h

theorem Waited.ne_error (h : Waited s) (e : SentinelError) : s.main ≠ .returned (.error e) := by
  intro hmain
  rcases h with hwaiting | ⟨parts, hjoining⟩ | hok
  · rw [hmain] at hwaiting
    cases hwaiting
  · rw [hmain] at hjoining
    cases hjoining
  · rw [hmain] at hok
    cases hok

theorem Waited.run (h : Waited s) {more : List Label}
    (hrun : (hubMachine toSocketAddrs migrations hub).Run s more t) : Waited t :=
  hrun.invariant h fun _ _ _ hwaited hstep => hwaited.step hstep

/-- What does not end a server, or does so before the wait, keeps the servers up. -/
theorem serversUp_of_endsServer {a : Label} (h : a.EndsServer → s.main ≠ .waiting)
    (hwait : a = .wait → ∀ server, ¬ s.Ended (.server server)) : ServersUp s a := by
  cases a with
  | wait => exact hwait rfl
  | bind server failure =>
    cases failure with
    | none => exact trivial
    | some e => exact h trivial
  | fail server error => exact h trivial
  | spawnGrpc | spawnRest | spawnRetention | signal | cancelSeen | join | finish | tick | pruned
  | retentionCancelled => exact trivial

theorem ServersUp.ne_waiting {a : Label} (h : ServersUp s a) (hend : a.EndsServer) :
    s.main ≠ .waiting := by
  cases a with
  | bind server failure =>
    cases failure with
    | none => exact hend.elim
    | some e => exact h
  | fail server error => exact h
  | wait | spawnGrpc | spawnRest | spawnRetention | signal | cancelSeen | join | finish | tick
  | pruned | retentionCancelled => exact hend.elim

/-- While `run` waits, no server has ended. -/
theorem serversUp_keeps {a : Label} (hup : ServersUp s a)
    (h : s.main = .waiting → ∀ server, ¬ s.Ended (.server server))
    (hstep : (hubMachine toSocketAddrs migrations hub).step s a = some t) :
    t.main = .waiting → ∀ server, ¬ t.Ended (.server server) := by
  intro hmain
  cases effect_of_step hstep with
  | setup _ _ _ _ hafter _ _ => exact absurd hmain hafter
  | wait _ => exact hup
  | shutdown _ _ => cases hmain
  | ignored _ _ => exact h hmain
  | join _ _ _ _ => cases hmain
  | finish _ => cases hmain
  | server server task _ _ hend =>
    intro other hended
    rcases hended.of_setServer with htask | hother
    · exact hup.ne_waiting (hend.mpr htask) hmain
    · exact h hmain other hother
  | retention _ _ _ _ => exact h hmain

/-- **A server that ends is noticed** only when none ends: `run` waits for the signal whatever the
servers do, and from its wait it never comes to an error. -/
theorem leavesWithError_iff {labels : List Label}
    (hrun : (hubMachine toSocketAddrs migrations hub).Run {} labels s) :
    ((hubMachine toSocketAddrs migrations hub).Always
        (LeavesWithError toSocketAddrs migrations hub) {} labels ↔
      (hubMachine toSocketAddrs migrations hub).Along ServersUp {} labels) ∧
    (s.main = .waiting → ∀ more u e, (hubMachine toSocketAddrs migrations hub).Run s more u →
      u.main ≠ .returned (.error e)) := by
  refine ⟨hrun.always_iff_along_of_keep
    (J := fun s => s.main = .waiting → ∀ server, ¬ s.Ended (.server server)) nofun ?_ ?_ ?_, ?_⟩
  · intro labels s a t _ h hup hstep
    exact serversUp_keeps hup h hstep
  · rintro s hup hmain ⟨server, hended⟩
    exact absurd hended (hup hmain server)
  · intro labels s a t _ hstep hgood
    have hnone : t.main = .waiting → ∀ server, ¬ t.Ended (.server server) := by
      intro hmain server hended
      obtain ⟨more, u, e, -, hmore, herror⟩ := hgood hmain ⟨server, hended⟩
      exact Waited.ne_error (Waited.run (Or.inl hmain) hmore) e herror
    apply serversUp_of_endsServer
    · intro hend hmain
      obtain ⟨server, task, rfl, hended⟩ : ∃ server task, t = s.setServer server task ∧
          task.Ended := by
        cases effect_of_step hstep with
        | setup _ hnot _ _ _ _ _ => exact absurd hend hnot
        | wait _ => exact hend.elim
        | shutdown _ hlabel => rcases hlabel with rfl | rfl <;> exact hend.elim
        | ignored _ _ => exact hend.elim
        | join _ _ _ _ => exact hend.elim
        | finish _ => exact hend.elim
        | server server task _ _ hiff => exact ⟨server, task, rfl, hiff.mp hend⟩
        | retention _ _ hnot _ => exact absurd hend hnot
      refine hnone hmain server ⟨task, ?_, hended⟩
      exact Function.update_self ..
    · rintro rfl
      simp only [hubMachine, Option.ite_none_right_eq_some] at hstep
      obtain ⟨-, hstep⟩ := hstep
      obtain rfl := Option.some.inj hstep
      exact hnone rfl
  · intro hmain more u e hmore
    exact Waited.ne_error (Waited.run (Or.inl hmain) hmore) e

end Failures

instance (s : State) : ∀ a, Decidable (ServersUp s a)
  | .wait =>
    decidable_of_iff (¬ s.Ended (.server .grpc) ∧ ¬ s.Ended (.server .rest))
      ⟨fun h server => by cases server <;> simp [h], fun h => ⟨h .grpc, h .rest⟩⟩
  | .bind _ (some _) | .fail _ _ => inferInstanceAs (Decidable (_ ≠ _))
  | .bind _ none | .spawnGrpc | .spawnRest | .spawnRetention | .signal | .cancelSeen | .join
  | .finish | .tick | .pruned | .retentionCancelled => .isTrue trivial

/-- A hub that is stopped while its servers serve has left no error unnoticed. -/
theorem leavesWithError_stopped : ∃ s, defaultHub.Run {} stopped s ∧
    defaultHub.Always (LeavesWithError hostsFile (.ok ()) { enabled := true }) {} stopped := by
  obtain ⟨s, hrun⟩ := Machine.exists_run (M := defaultHub) (s := {}) (l := stopped)
    (by decide +kernel)
  exact ⟨s, hrun, (leavesWithError_iff hrun).1.mpr (by decide +kernel)⟩

/-- The gRPC port is taken. -/
def grpcPortTaken : List Label := start ++
  [.bind .grpc (some "Address already in use (os error 98)"), .bind .rest none]

/-- `run` waits on, without the gRPC server. -/
theorem not_leavesWithError_grpcPortTaken : ∃ s, defaultHub.Run {} grpcPortTaken s ∧
    s.main = .waiting ∧ s.Ended (.server .grpc) ∧
      ¬ LeavesWithError hostsFile (.ok ()) { enabled := true } s := by
  have hexec : (defaultHub.exec {} grpcPortTaken).any (fun s => s.main = .waiting ∧
      s.servers .grpc = some (.ended "Address already in use (os error 98)")) = true := by
    decide +kernel
  obtain ⟨s, hrun, h⟩ := Machine.exists_run_any hexec
  obtain ⟨hmain, hgrpc⟩ := of_decide_eq_true h
  have hended : s.Ended (.server .grpc) := ⟨_, hgrpc, trivial⟩
  refine ⟨s, hrun, hmain, hended, ?_⟩
  intro hleaves
  obtain ⟨more, u, e, -, hmore, herror⟩ := hleaves hmain ⟨.grpc, hended⟩
  exact Waited.ne_error (Waited.run (Or.inl hmain) hmore) e herror

end Sentinalysis.Hub.Serving
