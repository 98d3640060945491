/-
# Sentinalysis.Daemon.Process — the PID file, and who starts a daemon.

A daemon writes its number into the PID file when it starts and removes the file when it ends.  The
TUI looks at the file before it spawns a daemon: a file that holds the number of a process, of
whatever kind, says that a daemon runs.  The file is no lock: between the look and the spawn, and
between the spawn and the write, others may look as well, and a daemon that is run directly does not
look at all.
-/
import Mathlib.Logic.Function.Basic
import Sentinalysis.Error
import Sentinalysis.Lib.Transition

namespace Sentinalysis.Daemon

open Lib

namespace Process

/-- The number of a process. -/
abbrev Pid := ℕ

/-- How far a daemon has come: before `write_pid_file`, then until `remove_pid_file`, and after. -/
inductive Stage
  | starting
  | running
  | leaving
  deriving DecidableEq, Repr

/-- A call of `ensure_daemon_running`: it has found no daemon, it has spawned one and sleeps, or it
is done. -/
inductive Ensure
  | absent
  | spawned
  | returned (result : Except SentinelError Unit)
  deriving DecidableEq, Repr

/-- The number in the PID file, if there is one that can be read; the daemons; the other processes;
and the calls of `ensure_daemon_running`. -/
structure State where
  pidFile : Option Pid
  others : Pid → Bool
  daemons : Pid → Option Stage := fun _ => none
  calls : ℕ → Option Ensure := fun _ => none

/-- A process of that number exists. -/
def State.processExists (s : State) (pid : Pid) : Bool := (s.daemons pid).isSome || s.others pid

/-- `is_daemon_running_at`; `ps` says whether that program could be run. -/
def State.isDaemonRunning (s : State) (ps : Bool) : Bool :=
  s.pidFile.any fun pid => ps && s.processExists pid

/-- Why no daemon could be spawned. -/
inductive SpawnFailure
  | currentExe (e : IoError)
  | spawn (e : IoError)
  deriving DecidableEq, Repr

def SpawnFailure.error : SpawnFailure → SentinelError
  | .currentExe e => .Io e
  | .spawn e => .ServiceError ("Failed to start daemon: " ++ e.display)

/-- What can happen: a call of `ensure_daemon_running` goes on, a daemon is run directly, a daemon
goes on or is killed, or another process begins or ends. -/
inductive Label
  | check (call : ℕ) (ps : Bool)
  | spawn (call : ℕ) (pid : Pid)
  | spawnFails (call : ℕ) (failure : SpawnFailure)
  | recheck (call : ℕ) (ps : Bool)
  | launch (pid : Pid)
  | writePidFile (pid : Pid)
  | writeFails (pid : Pid)
  | removePidFile (pid : Pid)
  | exit (pid : Pid)
  | kill (pid : Pid)
  | otherBegins (pid : Pid)
  | otherEnds (pid : Pid)
  deriving DecidableEq, Repr

def State.setCall (s : State) (call : ℕ) (ensure : Ensure) : State :=
  { s with calls := Function.update s.calls call (some ensure) }

def State.setDaemon (s : State) (pid : Pid) (stage : Option Stage) : State :=
  { s with daemons := Function.update s.daemons pid stage }

/-- Any number of processes at one PID file. -/
def supervision : Machine State Label where
  step s
    | .check call ps => match s.calls call with
      | none => some (s.setCall call (if s.isDaemonRunning ps then .returned (.ok ()) else .absent))
      | some _ => none
    | .spawn call pid => match s.calls call with
      | some .absent =>
        if s.processExists pid then none
        else some ((s.setCall call .spawned).setDaemon pid (some .starting))
      | _ => none
    | .spawnFails call failure => match s.calls call with
      | some .absent => some (s.setCall call (.returned (.error failure.error)))
      | _ => none
    | .recheck call ps => match s.calls call with
      | some .spawned => some (s.setCall call (.returned (
          if s.isDaemonRunning ps then .ok ()
          else .error (.ServiceError "Daemon failed to start"))))
      | _ => none
    -- `--daemon`, or no mode at all: `run_daemon` without `ensure_daemon_running`
    | .launch pid => if s.processExists pid then none else some (s.setDaemon pid (some .starting))
    | .writePidFile pid => match s.daemons pid with
      | some .starting => some { s.setDaemon pid (some .running) with pidFile := some pid }
      | _ => none
    | .writeFails pid => match s.daemons pid with
      | some .starting => some (s.setDaemon pid (some .leaving))
      | _ => none
    | .removePidFile pid => match s.daemons pid with
      | some .running => some { s.setDaemon pid (some .leaving) with pidFile := none }
      | _ => none
    | .exit pid => match s.daemons pid with
      | some .leaving => some (s.setDaemon pid none)
      | _ => none
    | .kill pid => match s.daemons pid with
      | some _ => some (s.setDaemon pid none)
      | none => none
    | .otherBegins pid =>
      if s.processExists pid then none
      else some { s with others := Function.update s.others pid true }
    | .otherEnds pid => some { s with others := Function.update s.others pid false }

/-- A daemon is alive until it has removed the file, as the last thing it does. -/
def State.Live (s : State) (pid : Pid) : Prop :=
  s.daemons pid = some .starting ∨ s.daemons pid = some .running

instance (s : State) (pid : Pid) : Decidable (s.Live pid) := inferInstanceAs (Decidable (_ ∨ _))

/-- What the PID file is for. -/
structure Supervised (s : State) : Prop where
  atMostOne : ∀ p q, s.Live p → s.Live q → p = q
  /-- While a daemon runs that has written the file, the file names a daemon that is alive. -/
  named : ∀ p, s.daemons p = some .running → ∃ q, s.pidFile = some q ∧ s.Live q

/-- A daemon is started only while none is alive. -/
def StartsAlone (s : State) : Label → Prop
  | .spawn _ _ | .launch _ => ∀ pid, ¬ s.Live pid
  | _ => True

section Steps

variable {s t : State}

/-- What a step can do to the daemons and the file. -/
inductive Effect (s : State) : Label → State → Prop
  | quiet {a : Label} {t : State} (hother : StartsAlone s a) (hdaemons : t.daemons = s.daemons)
      (hfile : t.pidFile = s.pidFile) : Effect s a t
  | start {a : Label} {t : State} (pid : Pid) (hnone : s.daemons pid = none)
      (hlabel : StartsAlone s a ↔ ∀ pid, ¬ s.Live pid)
      (hdaemons : t.daemons = Function.update s.daemons pid (some .starting))
      (hfile : t.pidFile = s.pidFile) : Effect s a t
  | write {a : Label} {t : State} (pid : Pid) (hother : StartsAlone s a)
      (hstage : s.daemons pid = some .starting)
      (hdaemons : t.daemons = Function.update s.daemons pid (some .running))
      (hfile : t.pidFile = some pid) : Effect s a t
  | remove {a : Label} {t : State} (pid : Pid) (hother : StartsAlone s a)
      (hstage : s.daemons pid = some .running)
      (hdaemons : t.daemons = Function.update s.daemons pid (some .leaving))
      (hfile : t.pidFile = none) : Effect s a t
  | gone {a : Label} {t : State} (pid : Pid) (stage : Option Stage) (hother : StartsAlone s a)
      (hstage : stage = none ∨ stage = some .leaving)
      (hdaemons : t.daemons = Function.update s.daemons pid stage)
      (hfile : t.pidFile = s.pidFile) : Effect s a t

theorem daemons_of_not_processExists {pid : Pid} (h : ¬ s.processExists pid = true) :
    s.daemons pid = none := by
  unfold State.processExists at h
  cases hstage : s.daemons pid with
  | none => rfl
  | some stage =>
    rw [hstage] at h
    exact absurd rfl h

/-- Every step is one of these. -/
theorem effect_of_step {a : Label} (h : supervision.step s a = some t) : Effect s a t := by
  cases a with
  | check call ps =>
    simp only [supervision] at h
    split at h
    · obtain rfl := Option.some.inj h
      exact Effect.quiet trivial rfl rfl
    · cases h
  | spawn call pid =>
    simp only [supervision] at h
    split at h
    · rw [Option.ite_none_left_eq_some] at h
      obtain ⟨hnot, h⟩ := h
      obtain rfl := Option.some.inj h
      exact Effect.start pid (daemons_of_not_processExists hnot) Iff.rfl rfl rfl
    · cases h
  | spawnFails call failure =>
    simp only [supervision] at h
    split at h
    · obtain rfl := Option.some.inj h
      exact Effect.quiet trivial rfl rfl
    · cases h
  | recheck call ps =>
    simp only [supervision] at h
    split at h
    · obtain rfl := Option.some.inj h
      exact Effect.quiet trivial rfl rfl
    · cases h
  | launch pid =>
    simp only [supervision, Option.ite_none_left_eq_some] at h
    obtain ⟨hnot, h⟩ := h
    obtain rfl := Option.some.inj h
    exact Effect.start pid (daemons_of_not_processExists hnot) Iff.rfl rfl rfl
  | writePidFile pid =>
    simp only [supervision] at h
    split at h
    · next hstage =>
      obtain rfl := Option.some.inj h
      exact Effect.write pid trivial hstage rfl rfl
    · cases h
  | writeFails pid =>
    simp only [supervision] at h
    split at h
    · obtain rfl := Option.some.inj h
      exact Effect.gone pid _ trivial (Or.inr rfl) rfl rfl
    · cases h
  | removePidFile pid =>
    simp only [supervision] at h
    split at h
    · next hstage =>
      obtain rfl := Option.some.inj h
      exact Effect.remove pid trivial hstage rfl rfl
    · cases h
  | exit pid =>
    simp only [supervision] at h
    split at h
    · obtain rfl := Option.some.inj h
      exact Effect.gone pid _ trivial (Or.inl rfl) rfl rfl
    · cases h
  | kill pid =>
    simp only [supervision] at h
    split at h
    · obtain rfl := Option.some.inj h
      exact Effect.gone pid _ trivial (Or.inl rfl) rfl rfl
    · cases h
  | otherBegins pid =>
    simp only [supervision, Option.ite_none_left_eq_some] at h
    obtain ⟨-, h⟩ := h
    obtain rfl := Option.some.inj h
    exact Effect.quiet trivial rfl rfl
  | otherEnds pid =>
    obtain rfl := Option.some.inj h
    exact Effect.quiet trivial rfl rfl

/-- At most one daemon is alive, and the file has the number of one that has written it. -/
structure Named (s : State) : Prop where
  atMostOne : ∀ p q, s.Live p → s.Live q → p = q
  file : ∀ p, s.daemons p = some .running → s.pidFile = some p

theorem Named.supervised (h : Named s) : Supervised s :=
  ⟨h.atMostOne, fun p hrunning => ⟨p, h.file p hrunning, Or.inr hrunning⟩⟩

/-- The daemons after one of them has gone on. -/
theorem live_of_update {pid p : Pid} {stage : Option Stage}
    (hdaemons : t.daemons = Function.update s.daemons pid stage) (h : t.Live p) :
    (p = pid ∧ (stage = some .starting ∨ stage = some .running)) ∨ (p ≠ pid ∧ s.Live p) := by
  unfold State.Live at h
  rw [hdaemons] at h
  by_cases hsame : p = pid
  · rw [hsame, Function.update_self] at h
    exact Or.inl ⟨hsame, h⟩
  · rw [Function.update_of_ne hsame] at h
    exact Or.inr ⟨hsame, h⟩

theorem running_of_update {pid p : Pid} {stage : Option Stage}
    (hdaemons : t.daemons = Function.update s.daemons pid stage)
    (h : t.daemons p = some .running) :
    (p = pid ∧ stage = some .running) ∨ (p ≠ pid ∧ s.daemons p = some .running) := by
  rw [hdaemons] at h
  by_cases hsame : p = pid
  · rw [hsame, Function.update_self] at h
    exact Or.inl ⟨hsame, h⟩
  · rw [Function.update_of_ne hsame] at h
    exact Or.inr ⟨hsame, h⟩

/-- A daemon that is gone leaves the others as they were. -/
theorem live_of_gone {pid : Pid} (hdaemons : t.daemons = Function.update s.daemons pid none)
    (p : Pid) (hp : t.Live p) : ∃ p, s.Live p := by
  rcases live_of_update hdaemons hp with ⟨-, hstage | hstage⟩ | ⟨-, hbefore⟩
  · cases hstage
  · cases hstage
  · exact ⟨p, hbefore⟩

/-- When the one daemon that is alive goes on, no other is alive afterwards. -/
theorem atMostOne_of_update {pid : Pid} {stage : Option Stage}
    (hdaemons : t.daemons = Function.update s.daemons pid stage)
    (hpid : ∀ p, s.Live p → p = pid) :
    ∀ p q, t.Live p → t.Live q → p = q := by
  intro p q hp hq
  rcases live_of_update hdaemons hp with ⟨rfl, -⟩ | ⟨hne, hp⟩
  · rcases live_of_update hdaemons hq with ⟨rfl, -⟩ | ⟨hne, hq⟩
    · rfl
    · exact absurd (hpid q hq) hne
  · exact absurd (hpid p hp) hne

/-- Every step that starts no second daemon keeps this. -/
theorem Named.step (h : Named s) {a : Label} (halone : StartsAlone s a)
    (hstep : supervision.step s a = some t) : Named t := by
  cases effect_of_step hstep with
  | quiet _ hdaemons hfile =>
    refine ⟨?_, ?_⟩
    · intro p q hp hq
      unfold State.Live at hp hq
      rw [hdaemons] at hp hq
      exact h.atMostOne p q hp hq
    · intro p hrunning
      rw [hfile]
      exact h.file p (hdaemons ▸ hrunning)
  | start pid _ hlabel hdaemons hfile =>
    have hnone := hlabel.mp halone
    refine ⟨?_, ?_⟩
    · exact atMostOne_of_update hdaemons fun p hp => absurd hp (hnone p)
    · intro p hrunning
      rcases running_of_update hdaemons hrunning with ⟨-, hstage⟩ | ⟨-, hbefore⟩
      · cases hstage
      · exact absurd (Or.inr hbefore) (hnone p)
  | write pid _ hstage hdaemons hfile =>
    have hpid : ∀ p, s.Live p → p = pid := fun p hp => h.atMostOne p pid hp (Or.inl hstage)
    refine ⟨atMostOne_of_update hdaemons hpid, ?_⟩
    intro p hrunning
    rcases running_of_update hdaemons hrunning with ⟨rfl, -⟩ | ⟨hne, hbefore⟩
    · exact hfile
    · exact absurd (hpid p (Or.inr hbefore)) hne
  | remove pid _ hstage hdaemons hfile =>
    have hpid : ∀ p, s.Live p → p = pid := fun p hp => h.atMostOne p pid hp (Or.inr hstage)
    refine ⟨atMostOne_of_update hdaemons hpid, ?_⟩
    intro p hrunning
    rcases running_of_update hdaemons hrunning with ⟨-, hstage'⟩ | ⟨hne, hbefore⟩
    · cases hstage'
    · exact absurd (hpid p (Or.inr hbefore)) hne
  | gone pid stage _ hstage hdaemons hfile =>
    -- a daemon that is gone is not alive, and the others are as they were
    have hbefore : ∀ p, t.Live p → s.Live p := by
      intro p hp
      rcases live_of_update hdaemons hp with ⟨-, hlive⟩ | ⟨-, hlive⟩
      · rcases hstage with rfl | rfl
        · rcases hlive with hlive | hlive <;> cases hlive
        · rcases hlive with hlive | hlive <;> cases hlive
      · exact hlive
    refine ⟨fun p q hp hq => h.atMostOne p q (hbefore p hp) (hbefore q hq), ?_⟩
    intro p hrunning
    rcases running_of_update hdaemons hrunning with ⟨-, hafter⟩ | ⟨-, hrunning⟩
    · rcases hstage with rfl | rfl <;> cases hafter
    · rw [hfile]
      exact h.file p hrunning

/-- A daemon that is started beside another makes two. -/
theorem startsAlone_of_supervised {a : Label} (hstep : supervision.step s a = some t)
    (h : Supervised t) : StartsAlone s a := by
  cases effect_of_step hstep with
  | start pid hnone hlabel hdaemons _ =>
    rw [hlabel]
    intro p hp
    have hne : p ≠ pid := by
      rintro rfl
      rcases hp with hp | hp
      · rw [hnone] at hp
        cases hp
      · rw [hnone] at hp
        cases hp
    have hp' : t.Live p := by
      unfold State.Live
      rw [hdaemons, Function.update_of_ne hne]
      exact hp
    have hpid : t.Live pid := by
      unfold State.Live
      rw [hdaemons, Function.update_self]
      exact Or.inl rfl
    exact hne (h.atMostOne p pid hp' hpid)
  | quiet hother _ _ => exact hother
  | write _ hother _ _ _ => exact hother
  | remove _ hother _ _ _ => exact hother
  | gone _ _ hother _ _ _ => exact hother

end Steps

/-- Nobody has started a daemon yet; the file may be left from earlier. -/
def start (pidFile : Option Pid) (others : Pid → Bool) : State where
  pidFile := pidFile
  others := others

theorem named_start (pidFile : Option Pid) (others : Pid → Bool) :
    Named (start pidFile others) := by
  refine ⟨?_, ?_⟩
  · rintro p q (hp | hp)
    · cases hp
    · cases hp
  · intro p hp
    cases hp

/-- **The PID file supervises the daemons** exactly when a daemon is only ever started, by
`ensure_daemon_running` or directly, while none is alive. -/
theorem supervised_iff (pidFile : Option Pid) (others : Pid → Bool) {labels : List Label}
    {t : State} (hrun : supervision.Run (start pidFile others) labels t) :
    supervision.Always Supervised (start pidFile others) labels ↔
      supervision.Along StartsAlone (start pidFile others) labels := by
  refine hrun.always_iff_along_of_keep (J := Named) (named_start pidFile others) ?_
    (fun _ => Named.supervised) ?_
  · intro labels s a t _ hnamed halone hstep
    exact hnamed.step halone hstep
  · intro labels s a t _ hstep hsupervised
    exact startsAlone_of_supervised hstep hsupervised

/-! ## Starts in turn -/

/-- Daemons are started through `ensure_daemon_running` alone, and a call looks at the file only
when no other call is about to spawn and no daemon is about to write. -/
def InTurn (s : State) : Label → Prop
  | .check _ ps => ps = true ∧ (∀ call, s.calls call ≠ some .absent) ∧
      ∀ pid, s.daemons pid ≠ some .starting
  | .launch _ => False
  | _ => True

/-- While a call is about to spawn, it is the only one, and no daemon is alive. -/
def CheckHolds (s : State) : Prop :=
  ∀ call, s.calls call = some .absent →
    (∀ pid, ¬ s.Live pid) ∧ ∀ other, s.calls other = some .absent → other = call

section InTurn

variable {s t : State}

/-- A daemon that has written the file is seen by a call that looks at it. -/
theorem isDaemonRunning_of_running (h : Named s) {pid : Pid}
    (hrunning : s.daemons pid = some .running) : s.isDaemonRunning true = true := by
  have hexists : s.processExists pid = true := by
    unfold State.processExists
    rw [hrunning]
    rfl
  unfold State.isDaemonRunning
  rw [h.file pid hrunning]
  exact hexists

/-- What was checked still holds when no call is made and no daemon started. -/
theorem CheckHolds.of_live (h : CheckHolds s) (hcalls : ∀ call, t.calls call = some .absent →
    s.calls call = some .absent) (hlive : ∀ pid, t.Live pid → ∃ pid, s.Live pid) :
    CheckHolds t := by
  intro call habsent
  obtain ⟨hnone, hone⟩ := h call (hcalls call habsent)
  refine ⟨?_, fun other hother => hone other (hcalls other hother)⟩
  intro pid hpid
  obtain ⟨before, hbefore⟩ := hlive pid hpid
  exact hnone before hbefore

/-- The calls after one of them has gone on past its check. -/
theorem absent_of_setCall {s : State} {call : ℕ} {ensure : Ensure} (hensure : ensure ≠ .absent)
    {other : ℕ} (h : (s.setCall call ensure).calls other = some .absent) :
    other ≠ call ∧ s.calls other = some .absent := by
  unfold State.setCall at h
  by_cases hsame : other = call
  · simp only [hsame, Function.update_self, Option.some.injEq] at h
    exact absurd h hensure
  · simp only [Function.update_of_ne hsame] at h
    exact ⟨hsame, h⟩

/-- A call that looks at the file in its turn is right about what it does not see. -/
theorem CheckHolds.check (hnamed : Named s) {call : ℕ} {ps : Bool}
    (hturn : InTurn s (.check call ps)) :
    CheckHolds (s.setCall call (if s.isDaemonRunning ps then .returned (.ok ()) else .absent)) := by
  obtain ⟨rfl, hnone, hwriting⟩ := hturn
  by_cases hseen : s.isDaemonRunning true = true
  · rw [if_pos hseen]
    intro other habsent
    exact absurd (absent_of_setCall (fun heq => by cases heq) habsent).2 (hnone other)
  · rw [if_neg hseen]
    have hcall : ∀ other, (s.setCall call .absent).calls other = some .absent → other = call := by
      intro other habsent
      by_contra hne
      simp only [State.setCall, Function.update_of_ne hne] at habsent
      exact hnone other habsent
    intro other habsent
    obtain rfl := hcall other habsent
    refine ⟨?_, hcall⟩
    rintro pid (hstarting | hrunning)
    · exact hwriting pid hstarting
    · exact hseen (isDaemonRunning_of_running hnamed hrunning)

/-- Every step in turn keeps this. -/
theorem CheckHolds.step (h : CheckHolds s) (hnamed : Named s) {a : Label} (hturn : InTurn s a)
    (hstep : supervision.step s a = some t) : CheckHolds t := by
  have hsame : ∀ pid, s.Live pid → ∃ pid, s.Live pid := fun pid hpid => ⟨pid, hpid⟩
  cases a with
  | check call ps =>
    simp only [supervision] at hstep
    split at hstep
    · obtain rfl := Option.some.inj hstep
      exact CheckHolds.check hnamed hturn
    · cases hstep
  | spawn call pid =>
    simp only [supervision] at hstep
    split at hstep
    · next habsent =>
      rw [Option.ite_none_left_eq_some] at hstep
      obtain ⟨-, hstep⟩ := hstep
      obtain rfl := Option.some.inj hstep
      intro other hother
      -- the call that spawns was the only one
      obtain ⟨hne, hbefore⟩ := absent_of_setCall (s := s) (fun heq => by cases heq) hother
      exact absurd ((h call habsent).2 other hbefore) hne
    · cases hstep
  | spawnFails call failure =>
    simp only [supervision] at hstep
    split at hstep
    · obtain rfl := Option.some.inj hstep
      exact h.of_live (fun _ hother => (absent_of_setCall (fun heq => by cases heq) hother).2) hsame
    · cases hstep
  | recheck call ps =>
    simp only [supervision] at hstep
    split at hstep
    · obtain rfl := Option.some.inj hstep
      exact h.of_live (fun _ hother => (absent_of_setCall (fun heq => by cases heq) hother).2) hsame
    · cases hstep
  | launch pid => exact absurd hturn id
  | otherBegins pid =>
    simp only [supervision, Option.ite_none_left_eq_some] at hstep
    obtain ⟨-, hstep⟩ := hstep
    obtain rfl := Option.some.inj hstep
    exact h.of_live (fun _ => id) hsame
  | otherEnds pid =>
    obtain rfl := Option.some.inj hstep
    exact h.of_live (fun _ => id) hsame
  | writePidFile pid =>
    simp only [supervision] at hstep
    split at hstep
    · next hstage =>
      obtain rfl := Option.some.inj hstep
      exact h.of_live (fun _ => id) fun _ _ => ⟨pid, Or.inl hstage⟩
    · cases hstep
  | removePidFile pid =>
    simp only [supervision] at hstep
    split at hstep
    · next hstage =>
      obtain rfl := Option.some.inj hstep
      exact h.of_live (fun _ => id) fun _ _ => ⟨pid, Or.inr hstage⟩
    · cases hstep
  | writeFails pid =>
    simp only [supervision] at hstep
    split at hstep
    · next hstage =>
      obtain rfl := Option.some.inj hstep
      exact h.of_live (fun _ => id) fun _ _ => ⟨pid, Or.inl hstage⟩
    · cases hstep
  | exit pid =>
    simp only [supervision] at hstep
    split at hstep
    · obtain rfl := Option.some.inj hstep
      exact h.of_live (fun _ => id) (live_of_gone rfl)
    · cases hstep
  | kill pid =>
    simp only [supervision] at hstep
    split at hstep
    · obtain rfl := Option.some.inj hstep
      exact h.of_live (fun _ => id) (live_of_gone rfl)
    · cases hstep

/-- **Starts in turn are supervised.** -/
theorem supervised_of_inTurn (pidFile : Option Pid) (others : Pid → Bool) {labels : List Label}
    {t : State} (hrun : supervision.Run (start pidFile others) labels t)
    (halong : supervision.Along InTurn (start pidFile others) labels) : Supervised t := by
  have hboth : Named t ∧ CheckHolds t := by
    refine hrun.invariant_along (I := fun _ t => Named t ∧ CheckHolds t) halong ?_ ?_
    · refine ⟨named_start pidFile others, ?_⟩
      intro call hcall
      cases hcall
    · rintro _ s a t ⟨hnamed, hholds⟩ hturn hstep
      refine ⟨hnamed.step ?_ hstep, hholds.step hnamed hturn hstep⟩
      cases a with
      | spawn call pid =>
        simp only [supervision] at hstep
        split at hstep
        · next habsent => exact (hholds call habsent).1
        · cases hstep
      | launch pid => exact absurd hturn id
      | _ => exact trivial
  exact hboth.1.supervised

end InTurn

/-! ## Two calls at once -/

/-- A daemon is started, and a second call sees it; it ends, and the next is run directly. -/
def oneAfterAnother : List Label :=
  [.check 0 true, .spawn 0 100, .writePidFile 100, .recheck 0 true, .check 1 true,
    .removePidFile 100, .exit 100, .launch 101, .writePidFile 101]

theorem supervised_oneAfterAnother : ∃ t,
    supervision.Run (start none fun _ => false) oneAfterAnother t ∧
      supervision.Always Supervised (start none fun _ => false) oneAfterAnother := by
  obtain ⟨t, hrun⟩ := Machine.exists_run
    (show (supervision.exec (start none fun _ => false) oneAfterAnother).isSome = true by decide)
  refine ⟨t, hrun, (supervised_iff none _ hrun).mpr ?_⟩
  simp [oneAfterAnother, Machine.Along, supervision, start, State.setCall, State.setDaemon,
    State.isDaemonRunning, State.processExists, StartsAlone, State.Live]

/-- Two calls look before either has spawned. -/
def twoAtOnce : List Label :=
  [.check 0 true, .check 1 true, .spawn 0 100, .spawn 1 101, .writePidFile 100, .writePidFile 101]

/-- Both daemons are alive; when one ends, the other has no file any more. -/
theorem not_supervised_twoAtOnce :
    (∃ t, supervision.Run (start none fun _ => false) twoAtOnce t ∧ t.Live 100 ∧ t.Live 101 ∧
      ¬ Supervised t) ∧
    ∃ t, supervision.Run (start none fun _ => false)
      (twoAtOnce ++ [.removePidFile 101, .exit 101]) t ∧ t.daemons 100 = some .running ∧
      t.pidFile = none ∧ ¬ Supervised t := by
  constructor
  · have hexec : (supervision.exec (start none fun _ => false) twoAtOnce).any
        (fun t => t.Live 100 ∧ t.Live 101) = true := by
      decide
    obtain ⟨t, hrun, h⟩ := Machine.exists_run_any hexec
    obtain ⟨hone, hother⟩ := of_decide_eq_true h
    refine ⟨t, hrun, hone, hother, fun hsupervised => ?_⟩
    exact absurd (hsupervised.atMostOne 100 101 hone hother) (by decide)
  · have hexec : (supervision.exec (start none fun _ => false)
        (twoAtOnce ++ [.removePidFile 101, .exit 101])).any
        (fun t => t.daemons 100 = some .running ∧ t.pidFile = none) = true := by
      decide
    obtain ⟨t, hrun, h⟩ := Machine.exists_run_any hexec
    obtain ⟨hrunning, hfile⟩ := of_decide_eq_true h
    refine ⟨t, hrun, hrunning, hfile, fun hsupervised => ?_⟩
    obtain ⟨q, hq, -⟩ := hsupervised.named 100 hrunning
    rw [hfile] at hq
    cases hq

end Process

end Sentinalysis.Daemon
