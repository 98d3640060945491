/-
# Sentinalysis.LogScanner.ScanEnd — how a run of the scanner ends, and what its result says.

`run` leaves its loop in one branch only, the one of the token, after a flush whose failure is logged
and not returned: what it returns is always a success.  The branch of the channel is disabled when
the channel is closed and empty, and the loop goes on without it.
-/
import Sentinalysis.LogScanner.Scanner

namespace Sentinalysis.LogScanner.Scanner

open Lib Db

variable {η ρ : Type}

/-! ## What the result says -/

/-- What `run` has returned: `flush_batch` ends in `Ok` in both arms, so that no `?` leaves the
loop. -/
def State.result (s : State η ρ) : Option (Except SentinelError Unit) :=
  match s.phase with
  | .returned => some (.ok ())
  | .selecting | .inserting _ _ => none

section Result

variable (crates : Externals) (p : Pipeline η ρ)

/-- When `run` has returned a success, the sink has stored every entry that the events yielded. -/
def Truthful (st : ρ) (s : State η ρ) : Prop :=
  s.result = some (.ok ()) → s.stored.flatten.Perm (p.processEvents crates st s.consumed).1

/-- The sink does not fail on the final flush. -/
def FinalFlushAccepted (s : State η ρ) : Label η → Prop
  | .insertFailed => match s.phase with
    | .inserting _ final => final = false
    | .selecting | .returned => True
  | _ => True

/-- The events that were sent: those that were consumed, and those in the channel. -/
def State.seen (s : State η ρ) : List TailEvent := s.consumed.map (fun c => c.2.2) ++ s.queue

/-- The loop is behind its last `select!`. -/
def Phase.Leaving : Phase → Prop
  | .selecting | .inserting _ false => False
  | .inserting _ true | .returned => True

variable {crates p} {policy : Batching} {s t : State η ρ}

theorem result_eq_ok_iff : s.result = some (.ok ()) ↔ s.phase = .returned := by
  unfold State.result
  constructor
  · intro h
    split at h
    · assumption
    · cases h
    · cases h
  · intro h
    rw [h]

/-- What a step does: `Effect` with what the surroundings do spelled out, and with what a branch of
`select!` asks for. -/
inductive Move (crates : Externals) (p : Pipeline η ρ) (policy : Batching) (s : State η ρ) :
    Label η → State η ρ → Prop
  | send (event : TailEvent) (hopen : s.closed = false) :
      Move crates p policy s (.send event) { s with queue := s.queue ++ [event] }
  | hangUp : Move crates p policy s .hangUp { s with closed := true }
  | cancel : Move crates p policy s .cancel { s with cancelled := true }
  | recv (now : DateTime) (env : η) (event : TailEvent) (queue : List TailEvent)
      (hphase : s.phase = .selecting) (hqueue : s.queue = event :: queue) :
      Move crates p policy s (.recv now env) (consume crates p policy s now env event queue)
  | cancelled (hphase : s.phase = .selecting) (hqueue : s.queue = [])
      (hcancelled : s.cancelled = true) : Move crates p policy s .cancelled (flushBatch s true)
  | tick (hphase : s.phase = .selecting) (hqueue : s.queue = []) (hcancelled : s.cancelled = false)
      (htimer : policy.timer = true) : Move crates p policy s .tick (flushBatch s false)
  | inserted (entries : List InsertLogEntry) (final : Bool)
      (hphase : s.phase = .inserting entries final) : Move crates p policy s .inserted
        { s with
          phase := if final then .returned else .selecting
          stored := s.stored ++ [entries] }
  | insertFailed (entries : List InsertLogEntry) (final : Bool)
      (hphase : s.phase = .inserting entries final) : Move crates p policy s .insertFailed
        { s with phase := if final then .returned else .selecting, batch := entries }

theorem move_of_step {a : Label η} (h : (run crates p policy).step s a = some t) :
    Move crates p policy s a t := by
  cases a with
  | send event =>
    simp only [run, Option.ite_none_left_eq_some, Bool.not_eq_true] at h
    obtain ⟨hopen, h⟩ := h
    obtain rfl := Option.some.inj h
    exact Move.send event hopen
  | hangUp =>
    obtain rfl := Option.some.inj h
    exact Move.hangUp
  | cancel =>
    obtain rfl := Option.some.inj h
    exact Move.cancel
  | recv now env =>
    obtain ⟨event, queue, hphase, hqueue, rfl⟩ := step_recv h
    exact Move.recv now env event queue hphase hqueue
  | cancelled =>
    simp only [run, Option.ite_none_right_eq_some] at h
    obtain ⟨⟨hphase, hqueue, hcancelled⟩, h⟩ := h
    obtain rfl := Option.some.inj h
    exact Move.cancelled hphase hqueue hcancelled
  | tick =>
    simp only [run, Option.ite_none_right_eq_some] at h
    obtain ⟨⟨hphase, hqueue, hcancelled, htimer⟩, h⟩ := h
    obtain rfl := Option.some.inj h
    exact Move.tick hphase hqueue hcancelled htimer
  | inserted | insertFailed =>
    simp only [run] at h
    split at h
    · next entries final hphase =>
      obtain rfl := Option.some.inj h
      constructor
      exact hphase
    · cases h

/-- What a flush leaves: the channel and the token, what was consumed, and where the loop goes on. -/
theorem flushBatch_frame (s : State η ρ) (final : Bool) :
    (flushBatch s final).queue = s.queue ∧ (flushBatch s final).closed = s.closed ∧
    (flushBatch s final).cancelled = s.cancelled ∧
    (flushBatch s final).consumed = s.consumed ∧
    (Phase.Leaving (flushBatch s final).phase ↔ final = true) ∧
    ((flushBatch s final).phase = .returned → (flushBatch s final).batch = []) := by
  rcases flushBatch_cases s final with ⟨hempty, heq⟩ | ⟨-, heq⟩
  · rw [heq]
    cases final <;> simp [Phase.Leaving, hempty]
  · rw [heq]
    cases final <;> simp [Phase.Leaving]

variable (crates p policy) in
/-- What the event branch leaves. -/
theorem consume_frame (now : DateTime) (env : η) (event : TailEvent) (queue : List TailEvent)
    (hphase : s.phase = .selecting) :
    (consume crates p policy s now env event queue).queue = queue ∧
    (consume crates p policy s now env event queue).closed = s.closed ∧
    (consume crates p policy s now env event queue).cancelled = s.cancelled ∧
    (consume crates p policy s now env event queue).consumed =
      s.consumed ++ [(now, env, event)] ∧
    ¬ Phase.Leaving (consume crates p policy s now env event queue).phase := by
  unfold consume
  simp only
  split
  · obtain ⟨hqueue, hclosed, hcancelled, hconsumed, hleaving, -⟩ :=
      flushBatch_frame (join crates p s now env event queue) false
    refine ⟨hqueue, hclosed, hcancelled, hconsumed, ?_⟩
    rw [hleaving]
    exact Bool.false_ne_true
  · refine ⟨rfl, rfl, rfl, rfl, ?_⟩
    show ¬ Phase.Leaving s.phase
    rw [hphase]
    exact id

/-- What a step does to the channel, the token, and the place of the loop. -/
structure Frame (s : State η ρ) (a : Label η) (t : State η ρ) : Prop where
  seen : s.seen <+: t.seen
  token : s.cancelled = true → t.cancelled = true
  uncancelled : a ≠ .cancel → t.cancelled = s.cancelled
  leaving : t.phase.Leaving → t.consumed = s.consumed ∧
    (s.phase.Leaving ∨ (s.queue = [] ∧ s.cancelled = true))

theorem Move.frame {a : Label η} (h : Move crates p policy s a t) : Frame s a t := by
  cases h with
  | send event _ =>
    refine ⟨?_, id, fun _ => rfl, fun hleaving => ⟨rfl, Or.inl hleaving⟩⟩
    show s.seen <+: s.consumed.map _ ++ (s.queue ++ [event])
    rw [← List.append_assoc]
    exact List.prefix_append _ _
  | hangUp =>
    exact ⟨List.prefix_rfl, id, fun _ => rfl, fun hleaving => ⟨rfl, Or.inl hleaving⟩⟩
  | cancel =>
    exact ⟨List.prefix_rfl, fun _ => rfl, fun hno => absurd rfl hno,
      fun hleaving => ⟨rfl, Or.inl hleaving⟩⟩
  | recv now env event queue hphase hqueue =>
    obtain ⟨hqueue', -, hcancelled, hconsumed, hnot⟩ :=
      consume_frame crates p policy now env event queue hphase
    refine ⟨?_, fun hs => hcancelled.trans hs, fun _ => hcancelled,
      fun hleaving => absurd hleaving hnot⟩
    unfold State.seen
    rw [hqueue', hconsumed, hqueue, List.map_append, List.append_assoc]
    exact List.prefix_rfl
  | cancelled hphase hqueue hcancelled =>
    obtain ⟨hqueue', -, hcancelled', hconsumed, -, -⟩ := flushBatch_frame s true
    refine ⟨?_, fun hs => hcancelled'.trans hs, fun _ => hcancelled',
      fun _ => ⟨hconsumed, Or.inr ⟨hqueue, hcancelled⟩⟩⟩
    unfold State.seen
    rw [hqueue', hconsumed]
  | tick hphase hqueue hcancelled _ =>
    obtain ⟨hqueue', -, hcancelled', hconsumed, hleaving, -⟩ := flushBatch_frame s false
    refine ⟨?_, fun hs => hcancelled'.trans hs, fun _ => hcancelled', ?_⟩
    · unfold State.seen
      rw [hqueue', hconsumed]
    · rw [hleaving]
      exact fun h => (Bool.false_ne_true h).elim
  | inserted entries final hphase | insertFailed entries final hphase =>
    refine ⟨List.prefix_rfl, id, fun _ => rfl, ?_⟩
    intro hleaving
    refine ⟨rfl, Or.inl ?_⟩
    rw [hphase]
    cases final with
    | false => exact hleaving.elim
    | true => exact trivial

/-- Without the token, the loop does not leave. -/
theorem leaving_of_run {st : ρ} {labels : List (Label η)}
    (hrun : (run crates p policy).Run { resolver := st } labels s) (hleaving : s.phase.Leaving) :
    s.cancelled = true := by
  refine hrun.invariant (I := fun s => s.phase.Leaving → s.cancelled = true) False.elim ?_ hleaving
  intro s a t h hstep hleaving
  have hframe := (move_of_step hstep).frame
  apply hframe.token
  rcases (hframe.leaving hleaving).2 with hbefore | ⟨-, hcancelled⟩
  · exact h hbefore
  · exact hcancelled

/-- What is in the channel when the token fires is consumed before the loop leaves. -/
theorem seen_consumed {st : ρ} {before after : List (Label η)}
    (hrun : (run crates p policy).Run { resolver := st } before s) (hfires : s.cancelled = false)
    (hrest : (run crates p policy).Run s after t) (hleaving : t.phase.Leaving) :
    s.seen <+: t.consumed.map fun c => c.2.2 := by
  have hnot : ¬ s.phase.Leaving := by
    intro h
    rw [leaving_of_run hrun h] at hfires
    cases hfires
  have hboth : s.seen <+: t.seen ∧ (t.phase.Leaving → s.seen <+: t.consumed.map fun c => c.2.2) := by
    refine hrest.invariant (I := fun u => s.seen <+: u.seen ∧
      (u.phase.Leaving → s.seen <+: u.consumed.map fun c => c.2.2))
      ⟨List.prefix_rfl, fun h => absurd h hnot⟩ ?_
    rintro u a v ⟨hseen, hconsumed⟩ hstep
    have hframe := (move_of_step hstep).frame
    refine ⟨hseen.trans hframe.seen, ?_⟩
    intro hleaving
    obtain ⟨hsame, hbefore | ⟨hempty, -⟩⟩ := hframe.leaving hleaving
    · rw [hsame]
      exact hconsumed hbefore
    · -- the branch of the token is taken when the channel is empty
      rw [hsame]
      rw [State.seen, State.seen, hempty, List.append_nil] at hseen
      exact hseen
  exact hboth.2 hleaving

/-- When `run` has returned and the final flush was accepted, nothing is pending. -/
theorem batch_nil_of_move {a : Label η} (h : s.phase = .returned → s.batch = [])
    (hexclusive : s.Exclusive) (haccepted : FinalFlushAccepted s a)
    (hmove : Move crates p policy s a t) : t.phase = .returned → t.batch = [] := by
  cases hmove with
  | send _ _ => exact h
  | hangUp => exact h
  | cancel => exact h
  | recv now env event queue hphase _ =>
    have hnot := (consume_frame crates p policy now env event queue hphase).2.2.2.2
    intro hreturned
    rw [hreturned] at hnot
    exact absurd trivial hnot
  | cancelled _ _ _ => exact (flushBatch_frame s true).2.2.2.2.2
  | tick _ _ _ _ => exact (flushBatch_frame s false).2.2.2.2.2
  | inserted entries final hphase => exact fun _ => (hexclusive entries final hphase).1
  | insertFailed entries final hphase =>
    simp only [FinalFlushAccepted, hphase] at haccepted
    rw [haccepted]
    exact nofun

/-- A returned run that has left something unstored says that all is well. -/
theorem Truthful.finalFlushAccepted {st : ρ} {a : Label η} (hs : Conserved crates p st s)
    (hstep : (run crates p policy).step s a = some t) (h : Truthful crates p st t) :
    FinalFlushAccepted s a := by
  have ht := (hs.step hstep).entries
  cases move_of_step hstep with
  | insertFailed entries final hphase =>
    simp only [FinalFlushAccepted, hphase]
    cases final with
    | false => rfl
    | true =>
      exfalso
      obtain ⟨-, hne⟩ := hs.exclusive entries true hphase
      have hperm := h rfl
      rw [← ht] at hperm
      have hlength := hperm.length_eq
      simp only [List.length_append] at hlength
      apply hne
      apply List.length_eq_zero_iff.mp
      have hpending : ∀ u : State η ρ, u.pending.length = u.phase.inFlight.length + u.batch.length :=
        fun u => List.length_append
      rw [hpending] at hlength
      simp only [Phase.inFlight] at hlength
      omega
  | send _ _ | hangUp | cancel | recv _ _ _ _ _ _ | cancelled _ _ _ | tick _ _ _ _ =>
    exact trivial
  | inserted _ _ _ => exact trivial

/-- **A success tells the truth** exactly when the sink does not fail on the final flush; what was in
the channel when the token fired is consumed in any case. -/
theorem truthful_iff (crates : Externals) (p : Pipeline η ρ) (policy : Batching) (st : ρ)
    {labels : List (Label η)} (hrun : (run crates p policy).Run { resolver := st } labels t) :
    ((run crates p policy).Always (Truthful crates p st) { resolver := st } labels ↔
      (run crates p policy).Along FinalFlushAccepted { resolver := st } labels) ∧
    ∀ before after s, labels = before ++ .cancel :: after →
      (run crates p policy).Run { resolver := st } before s → s.cancelled = false →
      t.result = some (.ok ()) → s.seen <+: t.consumed.map fun c => c.2.2 := by
  have hconserved : ∀ {labels : List (Label η)} {s : State η ρ},
      (run crates p policy).Run { resolver := st } labels s → Conserved crates p st s := by
    intro labels s hrun
    refine hrun.invariant ⟨rfl, rfl, ?_⟩ fun _ _ _ h hstep => h.step hstep
    intro entries final h
    cases h
  refine ⟨hrun.always_iff_along_of_keep
    (J := fun s => Conserved crates p st s ∧ (s.phase = .returned → s.batch = []))
    ⟨hconserved Machine.Run.nil, nofun⟩ ?_ ?_ ?_, ?_⟩
  · rintro labels s a t - ⟨hs, hbatch⟩ haccepted hstep
    exact ⟨hs.step hstep, batch_nil_of_move hbatch hs.exclusive haccepted (move_of_step hstep)⟩
  · rintro s ⟨hs, hbatch⟩ hresult
    have hphase := result_eq_ok_iff.mp hresult
    rw [← hs.entries, State.pending, hphase, hbatch hphase]
    simp [Phase.inFlight]
  · intro labels s a t hrun hstep h
    exact h.finalFlushAccepted (hconserved hrun) hstep
  · rintro before after s rfl hbefore hfires hresult
    obtain ⟨u, hbefore', hrest⟩ := hrun.of_append
    obtain rfl := hbefore.unique hbefore'
    refine seen_consumed hbefore hfires hrest ?_
    rw [result_eq_ok_iff.mp hresult]
    exact trivial

end Result

instance (s : State η ρ) : DecidablePred (FinalFlushAccepted s)
  | .insertFailed => match h : s.phase with
    | .inserting _ final => decidable_of_iff (final = false) (by simp only [FinalFlushAccepted, h])
    | .selecting | .returned => .isTrue (by simp only [FinalFlushAccepted, h])
  | .send _ | .hangUp | .cancel | .recv _ _ | .cancelled | .tick | .inserted => .isTrue trivial

/-- The pipeline of the runs below. -/
def newYearPipeline : Pipeline (Option Uuid) Unit := Pipeline.build newYearCrates .default givenIds

/-- A flush that fails is made up for by the final one. -/
theorem truthful_failThenStop : ∃ t, (run newYearCrates newYearPipeline ⟨100, true⟩).Run
      { resolver := () } failThenStop t ∧
    (run newYearCrates newYearPipeline ⟨100, true⟩).Always
      (Truthful newYearCrates newYearPipeline ()) { resolver := () } failThenStop := by
  obtain ⟨t, hrun⟩ := Machine.exists_run (M := run newYearCrates newYearPipeline ⟨100, true⟩)
    (s := { resolver := () }) (l := failThenStop) (by decide +kernel)
  exact ⟨t, hrun, (truthful_iff newYearCrates newYearPipeline ⟨100, true⟩ () hrun).1.mpr
    (by decide +kernel)⟩

/-- One line, a cancellation, and a final flush that fails. -/
def failAtStop : List (Label (Option Uuid)) :=
  [.send (.ok shopLine), .recv newYear (some 7), .cancel, .cancelled, .insertFailed]

/-- **A success is returned, and the entry is not stored.** -/
theorem not_truthful_failAtStop : ∃ t, (run newYearCrates newYearPipeline ⟨100, true⟩).Run
      { resolver := () } failAtStop t ∧ t.result = some (.ok ()) ∧ t.stored = [] ∧
    ¬ Truthful newYearCrates newYearPipeline () t := by
  have hexec : ((run newYearCrates newYearPipeline ⟨100, true⟩).exec { resolver := () }
      failAtStop).any (fun t => t.phase = .returned ∧ t.stored = [] ∧
        (newYearPipeline.processEvents newYearCrates () t.consumed).1.length = 1) = true := by
    decide +kernel
  obtain ⟨t, hrun, h⟩ := Machine.exists_run_any hexec
  obtain ⟨hphase, hstored, hone⟩ := of_decide_eq_true h
  refine ⟨t, hrun, result_eq_ok_iff.mpr hphase, hstored, ?_⟩
  intro htruthful
  have hlength := (htruthful (result_eq_ok_iff.mpr hphase)).length_eq
  rw [hstored, hone] at hlength
  cases hlength

/-! ## The end of the stream -/

/-- The steps that are the scanner's own, with the answers of the sink. -/
def Label.Own : Label η → Prop
  | .recv _ _ | .cancelled | .tick | .inserted | .insertFailed => True
  | .send _ | .hangUp | .cancel => False

section Ending

variable {crates : Externals} {p : Pipeline η ρ} {policy : Batching} {s t : State η ρ}

theorem cancelled_of_run {labels : List (Label η)} (hrun : (run crates p policy).Run s labels t)
    (hno : .cancel ∉ labels) : t.cancelled = s.cancelled := by
  induction hrun with
  | nil => rfl
  | @snoc labels u a t _ hstep ih =>
    have hne : a ≠ .cancel := by
      rintro rfl
      exact hno (List.mem_append_right _ (List.mem_singleton_self _))
    rw [(move_of_step hstep).frame.uncancelled hne]
    exact ih fun hmem => hno (List.mem_append_left _ hmem)

theorem not_leaving_of_run {st : ρ} {labels : List (Label η)}
    (hrun : (run crates p policy).Run { resolver := st } labels s) (hno : .cancel ∉ labels) :
    ¬ s.phase.Leaving := by
  intro hleaving
  have htoken := leaving_of_run hrun hleaving
  rw [cancelled_of_run hrun hno] at htoken
  cases htoken

/-- The channel is empty, the token has not fired, and the loop goes on. -/
structure Idle (s : State η ρ) : Prop where
  queue : s.queue = []
  cancelled : s.cancelled = false
  goesOn : ¬ s.phase.Leaving

/-- With a timer, an idle loop has a next step, to an idle one. -/
theorem Idle.next (h : Idle s) (htimer : policy.timer = true) :
    ∃ t, Idle t ∧ ∃ a : Label η, a.Own ∧ (run crates p policy).step s a = some t := by
  cases hphase : s.phase with
  | selecting =>
    obtain ⟨hqueue, -, hcancelled, -, hleaving, -⟩ := flushBatch_frame s false
    refine ⟨flushBatch s false, ⟨hqueue.trans h.queue, hcancelled.trans h.cancelled, ?_⟩, .tick,
      trivial, if_pos ⟨hphase, h.queue, h.cancelled, htimer⟩⟩
    rw [hleaving]
    exact Bool.false_ne_true
  | inserting entries final =>
    have hgoesOn := h.goesOn
    rw [hphase] at hgoesOn
    cases final with
    | true => exact absurd trivial hgoesOn
    | false =>
      refine ⟨{ s with phase := .selecting, stored := s.stored ++ [entries] },
        ⟨h.queue, h.cancelled, id⟩, .inserted, trivial, ?_⟩
      simp only [run, hphase]
      rfl
  | returned =>
    have hgoesOn := h.goesOn
    rw [hphase] at hgoesOn
    exact absurd trivial hgoesOn

/-- **The scanner does not end without the token.**  When the stream has ended, it polls for ever if
it has a timer, and waits for ever if it has none. -/
theorem not_ends (crates : Externals) (p : Pipeline η ρ) (policy : Batching) (st : ρ)
    {labels : List (Label η)} (hrun : (run crates p policy).Run { resolver := st } labels t)
    (hno : .cancel ∉ labels) :
    t.result = none ∧
    (t.closed = true → t.queue = [] →
      (policy.timer = true → ∃ states : ℕ → State η ρ, states 0 = t ∧
        ∀ n, ∃ a : Label η, a.Own ∧
          (run crates p policy).step (states n) a = some (states (n + 1))) ∧
      (policy.timer = false → t.phase = .selecting →
        ∀ a : Label η, a.Own → (run crates p policy).step t a = none)) := by
  have hgoesOn := not_leaving_of_run hrun hno
  have hcancelled : t.cancelled = false := cancelled_of_run hrun hno
  refine ⟨?_, fun _ hqueue => ⟨?_, ?_⟩⟩
  · unfold State.result
    split
    · next hphase =>
      rw [hphase] at hgoesOn
      exact absurd trivial hgoesOn
    · rfl
    · rfl
  · intro htimer
    have hnext : ∀ u : { u : State η ρ // Idle u }, ∃ v : { v : State η ρ // Idle v },
        ∃ a : Label η, a.Own ∧ (run crates p policy).step u.1 a = some v.1 := by
      rintro ⟨u, hu⟩
      obtain ⟨v, hv, hstep⟩ := hu.next htimer
      exact ⟨⟨v, hv⟩, hstep⟩
    choose next hnext using hnext
    refine ⟨fun n => (next^[n] ⟨t, hqueue, hcancelled, hgoesOn⟩).1, rfl, ?_⟩
    intro n
    simp only [Function.iterate_succ_apply']
    exact hnext _
  · intro htimer hphase a hown
    cases a with
    | recv now env => simp only [run, hphase, hqueue]
    | cancelled =>
      simp only [run, hcancelled, Bool.false_eq_true, and_false, if_false]
    | tick => simp only [run, htimer, Bool.false_eq_true, and_false, if_false]
    | inserted => simp only [run, hphase]
    | insertFailed => simp only [run, hphase]
    | send _ | hangUp | cancel => exact hown.elim

end Ending

/-- One line, and the end of the stream. -/
def streamEnded : List (Label (Option Uuid)) :=
  [.send (.ok shopLine), .hangUp, .recv newYear (some 7), .tick, .inserted]

theorem not_ends_streamEnded : ∃ t, (run newYearCrates newYearPipeline ⟨100, true⟩).Run
      { resolver := () } streamEnded t ∧ t.result = none := by
  obtain ⟨t, hrun⟩ := Machine.exists_run (M := run newYearCrates newYearPipeline ⟨100, true⟩)
    (s := { resolver := () }) (l := streamEnded) (by decide +kernel)
  exact ⟨t, hrun,
    (not_ends newYearCrates newYearPipeline ⟨100, true⟩ () hrun (by simp [streamEnded])).1⟩

/-- **The stream has ended and is drained, and no way leads to the exit** as long as the token does
not fire. -/
theorem streamEnded_goesOn : ∃ t, (run newYearCrates newYearPipeline ⟨100, true⟩).Run
      { resolver := () } streamEnded t ∧ t.closed = true ∧ t.queue = [] ∧
    ∀ more u, .cancel ∉ more → (run newYearCrates newYearPipeline ⟨100, true⟩).Run t more u →
      u.result = none := by
  have hexec : ((run newYearCrates newYearPipeline ⟨100, true⟩).exec { resolver := () }
      streamEnded).any (fun t => t.closed = true ∧ t.queue = []) = true := by
    decide +kernel
  obtain ⟨t, hrun, h⟩ := Machine.exists_run_any hexec
  obtain ⟨hclosed, hqueue⟩ := of_decide_eq_true h
  refine ⟨t, hrun, hclosed, hqueue, ?_⟩
  intro more u hno hmore
  have hnot := not_leaving_of_run (hrun.append hmore) (by
    rw [List.mem_append, not_or]
    exact ⟨by simp [streamEnded], hno⟩)
  unfold State.result
  split
  · next hphase =>
    rw [hphase] at hnot
    exact absurd trivial hnot
  · rfl
  · rfl

end Sentinalysis.LogScanner.Scanner
