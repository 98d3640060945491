/-
# Sentinalysis.LogScanner.TailErrors — what an error of the watcher does to the tailing loop.

The watcher reports events and errors, and the bridge passes both on.  The loop is meant to end when
it is cancelled or when its channel is closed.  Its pattern for an event asks for more than that the
channel is open: a result that is an error is taken for the end of the channel.
-/
import Sentinalysis.LogScanner.FileTailer

namespace Sentinalysis.LogScanner.Tailing

open Lib

/-- The watcher is gone, and nothing that it reported is left. -/
def Closed (s : State) : Prop :=
  s.watched = false ∧ s.notifyChannel = [] ∧ s.bridge = .idle ∧ s.eventChannel = []

/-- The event that is next in the loop's channel is handled by steps of the loop, whatever the files
are like. -/
def Handled (glob : Glob) (config : LogWatchingConfig) (binding : Binding) (s : State)
    (event : Event) (events : List NotifyEvent) : Prop :=
  ∀ fs, ∃ labels t watchConfigs state tx, (∀ a ∈ labels, a = .read fs ∨ a = .handle fs) ∧
    (tailAndScan glob config binding).Run s labels t ∧ t.eventChannel = events ∧
    t.task = some (handle fs watchConfigs state tx (.ok event))

/-- The loop ends only when it is cancelled or its channel is closed, and handles the event that is
next in its channel until it is cancelled. -/
structure GoesOn (glob : Glob) (config : LogWatchingConfig) (binding : Binding) (s : State) :
    Prop where
  ended : s.task = some .ended → s.tailerCancelled = true ∨ Closed s
  next : s.task ≠ none → s.tailerCancelled = false → ∀ event events,
    s.eventChannel = .ok event :: events → Handled glob config binding s event events

/-- What the loop takes from its channel before it is cancelled is not an error. -/
def TakesNoError (s : State) (a : Label) : Prop :=
  match a with
  | .handle _ => s.tailerCancelled = true ∨ ∀ error events, s.eventChannel ≠ .error error :: events
  | _ => True

instance decidableTakesNoError (s : State) : ∀ a, Decidable (TakesNoError s a)
  | .handle _ =>
    match h : s.eventChannel with
    | .error error :: events => decidable_of_iff (s.tailerCancelled = true) (by
        show _ ↔ _ ∨ _
        rw [h]
        exact ⟨Or.inl, fun hor => hor.resolve_right fun hne => hne error events rfl⟩)
    | .ok event :: events => .isTrue (Or.inr (by rw [h]; exact fun _ _ heq => by cases heq))
    | [] => .isTrue (Or.inr (by rw [h]; exact fun _ _ heq => by cases heq))
  | .build | .start _ | .endStatement | .scan | .stop | .cancel | .deliver _ | .take | .forward
  | .read _ | .tokenSeen | .closed => .isTrue trivial

section Steps

variable {glob : Glob} {config : LogWatchingConfig} {binding : Binding} {s t : State} {a : Label}

/-- The tailer has not been started yet. -/
def Phase.BeforeStart : Phase → Prop
  | .building | .starting => True
  | _ => False

/-- What a step does to the task and to the tailer that it belongs to. -/
inductive Effect (s : State) : Label → State → Prop
  /-- Nothing. -/
  | quiet {a : Label} {t : State} (htask : t.task = s.task) (hscope : t.scope = s.scope)
      (htoken : t.tailerCancelled = s.tailerCancelled)
      (hphase : t.phase = s.phase ∨ t.phase = .scanning) : Effect s a t
  /-- The tailer is built, or cannot be. -/
  | build {t : State} (hphase : s.phase.BeforeStart) (htask : t.task = s.task)
      (htoken : t.tailerCancelled = s.tailerCancelled) : Effect s .build t
  /-- The tailer is started, and its task is spawned. -/
  | start {failure : Option SentinelError} {t : State} (hwatched : t.watched = true)
      (hphase : ¬ t.phase.BeforeStart) (htask : t.task ≠ some .ended) : Effect s (.start failure) t
  /-- Some of what the body owns is dropped. -/
  | drop {a : Label} (phase : Phase) (dropped : List FileTailer × Scope FileTailer)
      (hphase : ¬ phase.BeforeStart)
      (howned : ∀ tailer ∈ s.scope.owned, tailer ∈ dropped.1 ∨ tailer ∈ dropped.2.owned) :
      Effect s a (Tailing.drop { s with phase := phase } dropped)
  /-- The task goes on, after the initial read or an event, or ends at an error. -/
  | task {a : Label} (task : TailTask) (events : List NotifyEvent) (hbefore : s.task ≠ none)
      (hafter : task = .ended → ∃ fs error, a = .handle fs ∧
        s.eventChannel = .error error :: events) :
      Effect s a { s with eventChannel := events, task := some task }
  /-- The task ends as it is meant to. -/
  | ends {a : Label} (hbefore : s.task ≠ none) (hcause : s.tailerCancelled = true ∨ Closed s) :
      Effect s a { s with task := some .ended }

theorem owned_endBlock (scope : Scope FileTailer) : ∀ tailer ∈ scope.owned,
    tailer ∈ scope.endBlock.1 ∨ tailer ∈ scope.endBlock.2.owned := by
  intro tailer h
  left
  simpa [Scope.endBlock, Scope.owned] using h

theorem owned_endStatement (scope : Scope FileTailer) : ∀ tailer ∈ scope.owned,
    tailer ∈ scope.endStatement.1 ∨ tailer ∈ scope.endStatement.2.owned := by
  intro tailer h
  simpa [Scope.endStatement, Scope.owned] using h

theorem deliver_task (s : State) (event : NotifyEvent) : (deliver s event).task = s.task := by
  unfold deliver
  split
  · rfl
  · split
    · rfl
    · rfl

theorem forward_task {event : NotifyEvent} (h : forward s event = some t) : t.task = s.task := by
  unfold forward at h
  split at h
  · cases h
    rfl
  · split at h
    · cases h
      rfl
    · cases h

/-- Every step is one of these. -/
theorem effect_of_step (h : (tailAndScan glob config binding).step s a = some t) :
    Effect s a t := by
  cases a with
  | build =>
    simp only [tailAndScan, Option.ite_none_right_eq_some] at h
    obtain ⟨hphase, h⟩ := h
    split at h
    · exact Option.some.inj h ▸ Effect.build (hphase ▸ trivial) rfl rfl
    · exact Option.some.inj h ▸ Effect.build (hphase ▸ trivial) rfl rfl
  | start failure =>
    simp only [tailAndScan, Option.ite_none_right_eq_some] at h
    obtain ⟨-, h⟩ := h
    split at h
    · next tailer howned =>
      split at h
      · next started hstart =>
        obtain rfl := Option.some.inj h
        refine Effect.start ?_ id (fun heq => by cases heq)
        show (s.scope.modify fun _ => started).owned.any FileTailer.watching = true
        rw [Scope.owned_modify, howned]
        simp [watching_of_start hstart]
      · next e _ =>
        exact Option.some.inj h ▸ Effect.drop (.returned (.error e)) s.scope.endBlock
          id (owned_endBlock s.scope)
    · cases h
  | endStatement =>
    simp only [tailAndScan, Option.ite_none_right_eq_some] at h
    exact Option.some.inj h.2 ▸ Effect.drop .ready s.scope.endStatement
      id (owned_endStatement s.scope)
  | scan =>
    simp only [tailAndScan, Option.ite_none_right_eq_some] at h
    exact Option.some.inj h.2 ▸ Effect.quiet rfl rfl rfl (Or.inr rfl)
  | stop =>
    simp only [tailAndScan, Option.ite_none_right_eq_some] at h
    exact Option.some.inj h.2 ▸ Effect.drop (.returned (.ok ())) s.scope.endBlock
      id (owned_endBlock s.scope)
  | cancel => exact Option.some.inj h ▸ Effect.quiet rfl rfl rfl (Or.inl rfl)
  | deliver event =>
    simp only [tailAndScan, Option.ite_none_right_eq_some] at h
    obtain ⟨hphase, hscope, htoken, -⟩ := deliver_background s event
    exact Option.some.inj h.2 ▸
      Effect.quiet (deliver_task s event) hscope htoken (Or.inl hphase)
  | take =>
    simp only [tailAndScan] at h
    split at h
    · exact Option.some.inj h ▸ Effect.quiet rfl rfl rfl (Or.inl rfl)
    · cases h
  | forward =>
    simp only [tailAndScan] at h
    split at h
    · obtain ⟨hphase, hscope, htoken, -⟩ := forward_background h
      exact Effect.quiet (forward_task h) hscope htoken (Or.inl hphase)
    · cases h
  | read fs =>
    simp only [tailAndScan] at h
    split at h
    · next files watchConfigs htask =>
      exact Option.some.inj h ▸ Effect.task _ s.eventChannel
        (Option.ne_none_iff_exists'.mpr ⟨_, htask⟩) (fun heq => by cases heq)
    · cases h
  | handle fs =>
    simp only [tailAndScan] at h
    split at h
    · next watchConfigs state tx event events htask hchannel =>
      refine Option.some.inj h ▸ Effect.task _ events
        (Option.ne_none_iff_exists'.mpr ⟨_, htask⟩) ?_
      intro hended
      cases event with
      | ok event => cases hended
      | error error => exact ⟨fs, error, rfl, hchannel⟩
    · cases h
  | tokenSeen =>
    simp only [tailAndScan] at h
    split at h
    · next htask =>
      simp only [Option.ite_none_right_eq_some] at h
      exact Option.some.inj h.2 ▸ Effect.ends
        (Option.ne_none_iff_exists'.mpr ⟨_, htask⟩) (Or.inl h.1)
    · cases h
  | closed =>
    simp only [tailAndScan] at h
    split at h
    · next htask =>
      simp only [Option.ite_none_right_eq_some] at h
      exact Option.some.inj h.2 ▸ Effect.ends
        (Option.ne_none_iff_exists'.mpr ⟨_, htask⟩) (Or.inr h.1)
    · cases h

/-! ## A task that has ended was cancelled -/

/-- A tailer whose task was spawned is alive, or its token is cancelled; before its start it has no
task. -/
structure Spawned (s : State) : Prop where
  before : s.phase.BeforeStart → s.task = none
  after : s.task ≠ none → s.watched = true ∨ s.tailerCancelled = true

/-- A tailer that is let go of is cancelled. -/
theorem watched_or_cancelled_drop {phase : Phase} {dropped : List FileTailer × Scope FileTailer}
    (howned : ∀ tailer ∈ s.scope.owned, tailer ∈ dropped.1 ∨ tailer ∈ dropped.2.owned)
    (h : s.watched = true ∨ s.tailerCancelled = true) :
    (drop { s with phase := phase } dropped).watched = true ∨
      (drop { s with phase := phase } dropped).tailerCancelled = true := by
  show dropped.2.owned.any FileTailer.watching = true ∨
    (s.tailerCancelled || !dropped.1.isEmpty) = true
  rcases h with hwatched | hcancelled
  · obtain ⟨tailer, hmem, hwatching⟩ := List.any_eq_true.mp hwatched
    rcases howned tailer hmem with hgone | hkept
    · have hne : dropped.1 ≠ [] := List.ne_nil_of_mem hgone
      exact Or.inr (by simp [hne])
    · exact Or.inl (List.any_eq_true.mpr ⟨tailer, hkept, hwatching⟩)
  · exact Or.inr (by simp [hcancelled])

theorem Spawned.step (h : Spawned s) (hstep : (tailAndScan glob config binding).step s a = some t) :
    Spawned t := by
  cases effect_of_step hstep with
  | quiet htask hscope htoken hphase =>
    refine ⟨?_, ?_⟩
    · intro hbefore
      rcases hphase with hsame | hscanning
      · exact htask.trans (h.before (hsame ▸ hbefore))
      · rw [hscanning] at hbefore
        exact hbefore.elim
    · intro hsome
      unfold State.watched
      rw [hscope, htoken]
      exact h.after (htask ▸ hsome)
  | build hphase htask htoken =>
    have hnone := htask.trans (h.before hphase)
    exact ⟨fun _ => hnone, fun hsome => absurd hnone hsome⟩
  | start hwatched hphase htask =>
    exact ⟨fun hbefore => absurd hbefore hphase, fun _ => Or.inl hwatched⟩
  | drop phase dropped hphase howned =>
    refine ⟨fun hbefore => absurd hbefore hphase, ?_⟩
    intro hsome
    exact watched_or_cancelled_drop howned (h.after hsome)
  | task task events hbefore hafter =>
    exact ⟨fun hphase => absurd (h.before hphase) hbefore, fun _ => h.after hbefore⟩
  | ends hbefore hcause =>
    exact ⟨fun hphase => absurd (h.before hphase) hbefore, fun _ => h.after hbefore⟩

theorem spawned_of_run {labels : List Label}
    (hrun : (tailAndScan glob config binding).Run {} labels s) : Spawned s := by
  apply hrun.invariant
  · exact ⟨fun _ => rfl, fun hsome => absurd rfl hsome⟩
  · intro s a t h hstep
    exact h.step hstep

/-- Where the loop takes no error before it is cancelled, it ends only after it was. -/
theorem cancelled_of_ended {labels : List Label}
    (hrun : (tailAndScan glob config binding).Run {} labels s)
    (halong : (tailAndScan glob config binding).Along TakesNoError {} labels) :
    s.task = some .ended → s.tailerCancelled = true := by
  have hboth : Spawned s ∧ (s.task = some .ended → s.tailerCancelled = true) := by
    apply hrun.invariant_along
      (I := fun _ s => Spawned s ∧ (s.task = some .ended → s.tailerCancelled = true)) halong
    · exact ⟨⟨fun _ => rfl, fun hsome => absurd rfl hsome⟩, fun hended => by cases hended⟩
    · rintro labels s a t ⟨hspawned, hcancelled⟩ hnoError hstep
      refine ⟨hspawned.step hstep, fun hended => ?_⟩
      cases effect_of_step hstep with
      | quiet htask hscope htoken hphase => exact htoken.trans (hcancelled (htask ▸ hended))
      | build hphase htask htoken => exact htoken.trans (hcancelled (htask ▸ hended))
      | start hwatched hphase htask => exact absurd hended htask
      | drop phase dropped hphase howned =>
        show (s.tailerCancelled || !dropped.1.isEmpty) = true
        rw [hcancelled hended]
        rfl
      | task task events hbefore hafter =>
        obtain ⟨fs, error, rfl, hchannel⟩ := hafter (Option.some.inj hended)
        exact hnoError.resolve_right fun hnot => hnot error events hchannel
      | ends hbefore hcause =>
        rcases hcause with htoken | hclosed
        · exact htoken
        · refine (hspawned.after hbefore).resolve_left fun hwatched => ?_
          rw [hclosed.1] at hwatched
          cases hwatched
  exact hboth.2

/-! ## The loop goes on -/

/-- A loop that has not ended handles the event that is next. -/
theorem handled_of_not_ended (hsome : s.task ≠ none) (hended : s.task ≠ some .ended) {event : Event}
    {events : List NotifyEvent} (hchannel : s.eventChannel = .ok event :: events) :
    Handled glob config binding s event events := by
  intro fs
  have hhandle : ∀ (u : State) (watchConfigs : List LogWatchConfig) (state : TailerState)
      (tx : Sender), u.task = some (.tailing watchConfigs state tx) →
      u.eventChannel = .ok event :: events →
      (tailAndScan glob config binding).step u (.handle fs) = some { u with
        eventChannel := events
        task := some (handle fs watchConfigs state tx (.ok event)) } := by
    intro u watchConfigs state tx htask hchannel
    simp only [tailAndScan, htask, hchannel]
  cases htask : s.task with
  | none => exact absurd htask hsome
  | some task =>
    cases task with
    | ended => exact absurd htask hended
    | tailing watchConfigs state tx =>
      refine ⟨[.handle fs], _, watchConfigs, state, tx, ?_,
        Machine.Run.nil.snoc (hhandle s watchConfigs state tx htask hchannel), rfl, rfl⟩
      intro a ha
      exact Or.inr (List.mem_singleton.mp ha)
    | reading files watchConfigs =>
      -- the initial read comes first
      have hread : (tailAndScan glob config binding).step s (.read fs) = some { s with
          task := some (.tailing watchConfigs
            (TailerState.initialRead fs files watchConfigs {}).1
            (TailerState.initialRead fs files watchConfigs {}).2) } := by
        simp only [tailAndScan, htask]
      have hthen := hhandle { s with
        task := some (.tailing watchConfigs
          (TailerState.initialRead fs files watchConfigs {}).1
          (TailerState.initialRead fs files watchConfigs {}).2) } watchConfigs _ _ rfl hchannel
      refine ⟨[.read fs, .handle fs], _, watchConfigs, _, _, ?_,
        Machine.Run.cons hread (Machine.Run.cons hthen Machine.Run.nil), rfl, rfl⟩
      intro a ha
      rcases List.mem_cons.mp ha with rfl | ha
      · exact Or.inl rfl
      · exact Or.inr (List.mem_singleton.mp ha)

end Steps

/-- **The loop goes on until it is cancelled or its channel is closed**, exactly when it takes no
error of the watcher before it is cancelled. -/
theorem goesOn_iff (glob : Glob) (config : LogWatchingConfig) (binding : Binding)
    {labels : List Label} {t : State} (hrun : (tailAndScan glob config binding).Run {} labels t) :
    (tailAndScan glob config binding).Always (GoesOn glob config binding) {} labels ↔
      (tailAndScan glob config binding).Along TakesNoError {} labels := by
  apply hrun.always_iff_along
  · intro labels s hreached halong
    have hcancelled := cancelled_of_ended hreached halong
    refine ⟨fun hended => Or.inl (hcancelled hended), ?_⟩
    intro hsome htoken event events hchannel
    refine handled_of_not_ended hsome (fun hended => ?_) hchannel
    rw [hcancelled hended] at htoken
    cases htoken
  · intro labels s a t hbefore hstep hgoesOn
    cases a with
    | handle fs =>
      by_contra hnot
      obtain ⟨htoken, herror⟩ := not_or.mp hnot
      push Not at herror
      obtain ⟨error, events, hchannel⟩ := herror
      -- the error ends the loop, with the tailer alive and its token as it was
      simp only [tailAndScan] at hstep
      split at hstep
      · next watchConfigs state tx event events' htask hchannel' =>
        obtain ⟨rfl, rfl⟩ := List.cons.inj (hchannel.symm.trans hchannel')
        obtain rfl := Option.some.inj hstep
        have hsome : s.task ≠ none := Option.ne_none_iff_exists'.mpr ⟨_, htask⟩
        have hwatched := ((spawned_of_run hbefore).after hsome).resolve_right htoken
        rcases hgoesOn.ended rfl with hcancelled | hclosed
        · exact htoken hcancelled
        · have hgone : s.watched = false := hclosed.1
          rw [hwatched] at hgone
          cases hgone
      · cases hstep
    | _ => exact trivial

/-- The glob of the examples. -/
def anyGlob : Glob := fun _ => .ok fun _ => true

/-- No files at all. -/
def noFiles : FileSystem where
  file := fun _ => none
  dir := fun _ => none

/-- The tailer is started, and the initial read is done. -/
def tailingStarted : List Label :=
  [.build, .start none, .endStatement, .scan, .read noFiles]

/-- The watcher reports a result, and the loop takes it. -/
def passOn (event : NotifyEvent) : List Label := [.deliver event, .take, .forward, .handle noFiles]

def isEnded : TailTask → Bool
  | .ended => true
  | _ => false

/-- The task has ended, and the tailer was neither cancelled nor dropped. -/
def State.EndedEarly (s : State) : Bool :=
  s.task.any isEnded && !s.tailerCancelled && s.watched

theorem not_goesOn_of_endedEarly {glob : Glob} {config : LogWatchingConfig} {binding : Binding}
    {s : State} (h : s.EndedEarly = true) : ¬ GoesOn glob config binding s := by
  unfold State.EndedEarly at h
  rw [Bool.and_eq_true, Bool.and_eq_true, Bool.not_eq_true'] at h
  obtain ⟨⟨htask, htoken⟩, hwatched⟩ := h
  obtain ⟨task, hsome, hended⟩ := (Option.any_eq_true _ _).mp htask
  intro hgoesOn
  cases task with
  | ended =>
    rcases hgoesOn.ended hsome with hcancelled | hclosed
    · rw [htoken] at hcancelled
      cases hcancelled
    · rw [hclosed.1] at hwatched
      cases hwatched
  | reading files watchConfigs => cases hended
  | tailing watchConfigs state tx => cases hended

/-- Something was written. -/
def written : Event := ⟨.modifyData, [[.text "app.log"]]⟩

theorem goesOn_written :
    ∃ t, (tailAndScan anyGlob .default .variable).Run {}
        (tailingStarted ++ passOn (.ok written)) t ∧
      (tailAndScan anyGlob .default .variable).Always (GoesOn anyGlob .default .variable) {}
        (tailingStarted ++ passOn (.ok written)) := by
  obtain ⟨t, hrun⟩ := Machine.exists_run
    (show ((tailAndScan anyGlob .default .variable).exec {}
      (tailingStarted ++ passOn (.ok written))).isSome = true by decide)
  exact ⟨t, hrun, (goesOn_iff anyGlob .default .variable hrun).mpr (by decide)⟩

/-- **One error ends the tail**: nobody has cancelled it, and its watcher goes on reporting. -/
theorem error_endsTail :
    ∃ t, (tailAndScan anyGlob .default .variable).Run {}
        (tailingStarted ++ passOn (.error "inotify queue overflow")) t ∧
      t.EndedEarly = true ∧ ¬ GoesOn anyGlob .default .variable t := by
  have hexec : ((tailAndScan anyGlob .default .variable).exec {}
      (tailingStarted ++ passOn (.error "inotify queue overflow"))).any State.EndedEarly
        = true := by
    decide
  obtain ⟨t, hrun, hended⟩ := Machine.exists_run_any hexec
  exact ⟨t, hrun, hended, not_goesOn_of_endedEarly hended⟩

end Sentinalysis.LogScanner.Tailing
