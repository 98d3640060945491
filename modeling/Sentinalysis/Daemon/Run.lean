/-
# Sentinalysis.Daemon.Run — the daemon: tail the configured logs and scan them until a shutdown
signal.

`daemon_loop` builds and starts its tailer in one expression and binds only the receiver, so the
tailer is a temporary of that statement.  `spawn_log_forwarding` of the agent runs the same body
with the tailer in a variable.
-/
import Sentinalysis.LogScanner.FileTailer

namespace Sentinalysis.Daemon

open Lib LogScanner LogScanner.Tailing

/-- `daemon_loop`: `let rx = build_tailer(&config)?.start().await?`, then the scanner. -/
def daemonLoop (glob : Glob) (config : LogWatchingConfig) : Machine State Label :=
  tailAndScan glob config .temporary

/-- The task of `spawn_log_forwarding`: `tailer` is a variable of the task. -/
def spawnLogForwarding (glob : Glob) (config : LogWatchingConfig) : Machine State Label :=
  tailAndScan glob config .variable

/-- From the moment the scanner runs until the daemon's token fires, the logs are tailed. -/
def KeepsTailing (s : State) : Prop := s.Scanning → Tails s

/-- The scanner is started only after the daemon's token has fired. -/
def ScansAfterCancel (s : State) (a : Label) : Prop :=
  match a with
  | .scan => s.cancelled = true
  | _ => True

instance decidableScansAfterCancel (s : State) : ∀ a, Decidable (ScansAfterCancel s a)
  | .scan => inferInstanceAs (Decidable (s.cancelled = true))
  | .build | .start _ | .endStatement | .stop | .cancel | .deliver _ | .take | .forward | .read _
  | .handle _ | .tokenSeen | .closed => .isTrue trivial

/-- The agent's tailer is alive as long as its scanner runs. -/
theorem spawnLogForwarding_keptAlive {glob : Glob} {config : LogWatchingConfig}
    {labels : List Label} {t : State} (hrun : (spawnLogForwarding glob config).Run {} labels t) :
    t.Scanning → KeptAlive t :=
  fun hscanning => keptAlive_of_variable hrun hscanning.1

/-- With the token fired first, the scanner never runs before it fires. -/
theorem cancelled_of_scanning {glob : Glob} {config : LogWatchingConfig} {labels : List Label}
    {t : State} (hrun : (daemonLoop glob config).Run {} labels t)
    (halong : (daemonLoop glob config).Along ScansAfterCancel {} labels) :
    t.phase = .scanning → t.cancelled = true := by
  apply hrun.invariant_along (I := fun _ t => t.phase = .scanning → t.cancelled = true) halong
  · intro hphase
    cases hphase
  · intro labels s a t ih hcancelled hstep hphase
    cases move_of_step hstep with
    | background hsame _ _ hkept => exact hkept (ih (hsame ▸ hphase))
    | build tailer _ => cases hphase
    | start tailer started _ _ _ => cases hphase
    | endStatement _ => cases hphase
    | scan _ => exact hcancelled
    | leave result hreturned _ =>
      rw [hreturned] at hphase
      cases hphase

/-- **The daemon keeps tailing** only in runs that have nothing to tail: exactly those in which the
scanner never starts before the daemon's token has fired. -/
theorem keepsTailing_iff (glob : Glob) (config : LogWatchingConfig) {labels : List Label}
    {t : State} (hrun : (daemonLoop glob config).Run {} labels t) :
    (daemonLoop glob config).Always KeepsTailing {} labels ↔
      (daemonLoop glob config).Along ScansAfterCancel {} labels := by
  apply hrun.always_iff_along
  · intro labels s hreached halong hscanning
    have hcancelled := cancelled_of_scanning hreached halong hscanning.1
    rw [hscanning.2] at hcancelled
    cases hcancelled
  · intro labels s a t hbefore hstep hkeeps
    cases a with
    | scan =>
      by_contra hnot
      have hcancelled : s.cancelled = false := by
        simpa [ScansAfterCancel] using hnot
      have hscan : t.phase = .scanning ∧ t.cancelled = s.cancelled := by
        simp only [daemonLoop, tailAndScan, Option.ite_none_right_eq_some] at hstep
        rw [← Option.some.inj hstep.2]
        exact ⟨rfl, rfl⟩
      have htails := hkeeps ⟨hscan.1, hscan.2.trans hcancelled⟩
      have hgone := not_keptAlive_of_temporary (hbefore.snoc hstep) hscan.1
      rw [htails.token] at hgone
      cases hgone.2
    | _ => exact trivial

/-- The glob of the default configuration. -/
def logGlob : Glob := fun pattern =>
  if pattern = "*.log" then .ok fun name => Text.endsWith name ".log" else .error "not known"

/-- The token fires before the tailer is built. -/
def stoppedEarly : List Label := [.cancel, .build, .start none, .endStatement, .scan, .stop]

theorem keepsTailing_stoppedEarly : ∃ t, (daemonLoop logGlob .default).Run {} stoppedEarly t ∧
    (daemonLoop logGlob .default).Always KeepsTailing {} stoppedEarly := by
  obtain ⟨t, hrun⟩ := Machine.exists_run
    (show ((daemonLoop logGlob .default).exec {} stoppedEarly).isSome = true by decide)
  exact ⟨t, hrun, (keepsTailing_iff logGlob .default hrun).mpr (by decide)⟩

/-- An ordinary run: when the scanner starts, the tailer is gone. -/
theorem tailer_dropped : ∃ t, (daemonLoop logGlob .default).Run {}
      [.build, .start none, .endStatement, .scan] t ∧ t.Scanning ∧ t.tailerCancelled = true ∧
      ¬ KeepsTailing t := by
  have hexec : ((daemonLoop logGlob .default).exec {}
      [.build, .start none, .endStatement, .scan]).any (·.Scanning) = true := by
    decide
  obtain ⟨t, hrun, h⟩ := Machine.exists_run_any hexec
  have hscanning := of_decide_eq_true h
  obtain ⟨hwatched, htoken⟩ := not_keptAlive_of_temporary hrun hscanning.1
  refine ⟨t, hrun, hscanning, htoken, ?_⟩
  intro hkeeps
  have hwatched' := (hkeeps hscanning).watched
  rw [hwatched] at hwatched'
  cases hwatched'

end Sentinalysis.Daemon
