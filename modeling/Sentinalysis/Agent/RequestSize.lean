/-
# Sentinalysis.Agent.RequestSize — how many lines a request of the agent's loop carries.

The hub takes requests of one line up to a limit of its own.  How many lines a flush drains is
decided by the configuration and by how far the buffer has filled; the forwarder of host logs clamps
its batch size to what the hub takes, and the loop does not.
-/
import Sentinalysis.Agent.Loop
import Sentinalysis.Hub.Grpc

namespace Sentinalysis.Agent

open Lib

/-- The size of a request that the hub takes and that carries something. -/
structure LegalSize (req : Hub.LogsRequest) : Prop where
  pos : 1 ≤ req.lines.length
  le : req.lines.length ≤ Hub.Validate.maxLinesPerRequest
  accepted : req.oversized = false

theorem legalSize_dockerRequest_iff {lines : List PendingLine} :
    LegalSize (dockerRequest lines) ↔
      1 ≤ lines.length ∧ lines.length ≤ Hub.Validate.maxLinesPerRequest := by
  have hlength : (dockerRequest lines).lines.length = lines.length := List.length_map _
  constructor
  · rintro ⟨hpos, hle, -⟩
    rw [hlength] at hpos hle
    exact ⟨hpos, hle⟩
  · rintro ⟨hpos, hle⟩
    refine ⟨hlength ▸ hpos, hlength ▸ hle, ?_⟩
    unfold Hub.LogsRequest.oversized
    rw [decide_eq_false_iff_not, hlength]
    show ¬ _ < lines.length + 0
    omega

namespace BoundedBatcher

theorem len_push_le (batcher : BoundedBatcher) (line : PendingLine) :
    (batcher.push line).len ≤ batcher.len + 1 := by
  show ((makeRoom batcher.max batcher.buf).1 ++ [line]).length ≤ batcher.buf.length + 1
  rw [makeRoom_fst, List.length_append, List.length_drop, List.length_singleton]
  omega

theorem length_drain (batcher : BoundedBatcher) (n : ℕ) :
    (batcher.drain n).1.length = min n batcher.len ∧
      (batcher.drain n).2.len = batcher.len - min n batcher.len := by
  have hmin : Nat.min n batcher.buf.length = min n batcher.buf.length := rfl
  refine ⟨?_, ?_⟩
  · show (batcher.buf.take _).length = _
    rw [List.length_take, hmin]
    show _ = min n batcher.buf.length
    omega
  · show (batcher.buf.drop _).length = _
    rw [List.length_drop, hmin]
    rfl

end BoundedBatcher

namespace Loop

/-- The request of the call under way. -/
def Phase.request : Phase → Option Hub.LogsRequest
  | .sendingLogs lines => some (dockerRequest lines)
  | .stopping lines => some (dockerRequest lines)
  | _ => none

/-- The requests that were built so far. -/
def State.requests (s : State) : List Hub.LogsRequest :=
  s.acknowledged ++ s.failed ++ s.phase.request.toList

/-- Every request so far has a legal size, and a flush of a buffer that is not empty would empty it
further. -/
structure Legal (logBatchSize : ℕ) (s : State) : Prop where
  requests : ∀ req ∈ s.requests, LegalSize req
  flush : s.batcher.buf ≠ [] → (flush s logBatchSize false).batcher.len < s.batcher.len
  shutdown : s.batcher.buf ≠ [] → (Loop.flush s usizeMax true).batcher.len < s.batcher.len

/-! ## Below the batch size -/

/-- What the loop keeps: the buffer is below the batch size and its own size, and so were the
requests, none of which was empty. -/
structure Filled (logBatchSize max : ℕ) (s : State) : Prop where
  max_eq : s.batcher.max = max
  below : s.batcher.len < logBatchSize
  sizes : ∀ req ∈ s.requests, ∃ lines, req = dockerRequest lines ∧ 1 ≤ lines.length ∧
    lines.length ≤ min logBatchSize max

section Steps

variable {logBatchSize max : ℕ} {s t : State}

theorem requests_of_request_eq (hbefore : s.phase.request = none) (hafter : t.phase.request = none)
    (hack : t.acknowledged = s.acknowledged) (hfailed : t.failed = s.failed) :
    t.requests = s.requests := by
  unfold State.requests
  rw [hbefore, hafter, hack, hfailed]

/-- A flush of a buffer that has just reached the batch size, or of any below. -/
theorem filled_flush {n : ℕ} {final : Bool} (hn : 1 ≤ n) (hpos : 1 ≤ logBatchSize)
    (hmax : s.batcher.max = max) (hlen : s.batcher.len ≤ logBatchSize)
    (hphase : s.phase = .selecting)
    (hsizes : ∀ req ∈ s.requests, ∃ lines, req = dockerRequest lines ∧ 1 ≤ lines.length ∧
      lines.length ≤ min logBatchSize max) :
    Filled logBatchSize max (flush s n final) := by
  have hidle : s.phase.request = none := by rw [hphase]; rfl
  rcases flush_cases s n final with ⟨hempty, heq⟩ | ⟨hnonempty, heq⟩
  · have hzero : s.batcher.len = 0 := by rw [BoundedBatcher.len, hempty]; rfl
    have hbelow : s.batcher.len < logBatchSize := by omega
    rw [heq]
    cases final with
    | true =>
      have hrequests : ({ s with batcher := s.batcher.takeDropped.2, phase := .returned } :
          State).requests = s.requests := requests_of_request_eq hidle rfl rfl rfl
      exact ⟨hmax, hbelow, hrequests ▸ hsizes⟩
    | false => exact ⟨hmax, hbelow, hsizes⟩
  · have hsome : 0 < s.batcher.len := List.length_pos_iff.mpr hnonempty
    have hbound : s.batcher.len ≤ max := hmax ▸ s.batcher.bounded
    obtain ⟨hdrained, hleft⟩ := s.batcher.length_drain n
    rw [heq]
    refine ⟨hmax, ?_, ?_⟩
    · show (s.batcher.drain n).2.len < logBatchSize
      omega
    · have hrequests : State.requests { s with
          batcher := (s.batcher.drain n).2
          phase := if final then .stopping (s.batcher.drain n).1
            else .sendingLogs (s.batcher.drain n).1 }
          = s.requests ++ [dockerRequest (s.batcher.drain n).1] := by
        unfold State.requests
        rw [hidle]
        cases final <;> simp [Phase.request]
      rw [hrequests]
      intro req hreq
      rcases List.mem_append.mp hreq with hold | hnew
      · exact hsizes req hold
      · refine ⟨_, List.mem_singleton.mp hnew, ?_, ?_⟩
        · omega
        · omega

/-- What was under way is done with. -/
theorem filled_finish {lines : List PendingLine} {ok : Bool} {phase : Phase}
    (h : Filled logBatchSize max s) (hrequest : s.phase.request = some (dockerRequest lines))
    (hafter : phase.request = none) : Filled logBatchSize max (finish s lines ok phase) := by
  refine ⟨h.max_eq, h.below, ?_⟩
  intro req hreq
  apply h.sizes
  unfold State.requests finish at *
  rw [hrequest]
  simp only [hafter, Option.toList_none, List.append_nil, Option.toList_some] at hreq ⊢
  cases ok with
  | true =>
    simp only [if_true, List.mem_append, List.mem_singleton] at hreq ⊢
    tauto
  | false =>
    simp only [Bool.false_eq_true, if_false, List.mem_append, List.mem_singleton] at hreq ⊢
    tauto

theorem Filled.step {a : Label} (h : Filled logBatchSize max s) (hpos : 1 ≤ logBatchSize)
    (hstep : (run logBatchSize).step s a = some t) : Filled logBatchSize max t := by
  cases a with
  | arrive line =>
    simp only [run, Option.ite_none_left_eq_some] at hstep
    exact Option.some.inj hstep.2 ▸ ⟨h.max_eq, h.below, h.sizes⟩
  | close => exact Option.some.inj hstep ▸ ⟨h.max_eq, h.below, h.sizes⟩
  | cancel => exact Option.some.inj hstep ▸ ⟨h.max_eq, h.below, h.sizes⟩
  | cancelled =>
    simp only [run, Option.ite_none_right_eq_some] at hstep
    have husize : 1 ≤ usizeMax := by decide
    exact Option.some.inj hstep.2 ▸
      filled_flush husize hpos h.max_eq h.below.le hstep.1.1 h.sizes
  | metricsTick =>
    simp only [run, Option.ite_none_right_eq_some] at hstep
    have hrequests : ({ s with phase := .sendingMetrics } : State).requests = s.requests :=
      requests_of_request_eq (by rw [hstep.1]; rfl) rfl rfl rfl
    exact Option.some.inj hstep.2 ▸ ⟨h.max_eq, h.below, hrequests ▸ h.sizes⟩
  | flushTick =>
    simp only [run, Option.ite_none_right_eq_some] at hstep
    exact Option.some.inj hstep.2 ▸
      filled_flush hpos hpos h.max_eq h.below.le hstep.1 h.sizes
  | recv =>
    simp only [run, Option.ite_none_right_eq_some] at hstep
    obtain ⟨hphase, hstep⟩ := hstep
    split at hstep
    · next line channel hchannel =>
      obtain rfl := Option.some.inj hstep
      have hlen : (s.batcher.push line.toPending).len ≤ s.batcher.len + 1 :=
        s.batcher.len_push_le line.toPending
      have hbelow := h.below
      unfold receive
      split
      · exact filled_flush hpos hpos h.max_eq (by show (s.batcher.push _).len ≤ _; omega) hphase
          h.sizes
      · next hlt => exact ⟨h.max_eq, Nat.not_le.mp hlt, h.sizes⟩
    · simp only [Option.ite_none_right_eq_some] at hstep
      have hrequests : ({ s with phase := .pending } : State).requests = s.requests :=
        requests_of_request_eq (by rw [hphase]; rfl) rfl rfl rfl
      exact Option.some.inj hstep.2 ▸ ⟨h.max_eq, h.below, hrequests ▸ h.sizes⟩
  | metricsSent ok =>
    simp only [run, Option.ite_none_right_eq_some] at hstep
    have hrequests : ({ s with phase := .selecting } : State).requests = s.requests :=
      requests_of_request_eq (by rw [hstep.1]; rfl) rfl rfl rfl
    exact Option.some.inj hstep.2 ▸ ⟨h.max_eq, h.below, hrequests ▸ h.sizes⟩
  | logsSent ok =>
    simp only [run] at hstep
    split at hstep
    · next lines hphase =>
      exact Option.some.inj hstep ▸ filled_finish h (by rw [hphase]; rfl) rfl
    · next lines hphase =>
      exact Option.some.inj hstep ▸ filled_finish h (by rw [hphase]; rfl) rfl
    · cases hstep
  | deadline =>
    simp only [run] at hstep
    split at hstep
    · next lines hphase =>
      exact Option.some.inj hstep ▸ filled_finish h (by rw [hphase]; rfl) rfl
    · cases hstep

theorem filled_of_run {logBufferMax : ℕ} {labels : List Label} (hpos : 1 ≤ logBatchSize)
    (hrun : (run logBatchSize).Run (start logBufferMax) labels s) :
    Filled logBatchSize (Nat.max logBufferMax 1) s := by
  apply hrun.invariant
  · exact ⟨rfl, hpos, fun _ h => by cases h⟩
  · intro s a t h hstep
    exact h.step hpos hstep

/-- Draining at least one line leaves fewer. -/
theorem len_flush_lt {n : ℕ} (hn : 1 ≤ n) (final : Bool) (hsome : s.batcher.buf ≠ []) :
    (flush s n final).batcher.len < s.batcher.len := by
  rcases flush_cases s n final with ⟨hempty, -⟩ | ⟨-, heq⟩
  · exact absurd hempty hsome
  · have hlen : 0 < s.batcher.len := List.length_pos_iff.mpr hsome
    have hleft := (s.batcher.length_drain n).2
    rw [heq]
    show (s.batcher.drain n).2.len < _
    omega

/-! ## Filling the buffer -/

/-- Any line. -/
def someLine : DockerLogLine := ⟨0, "app", "stdout", "ready"⟩

variable (logBatchSize) in
/-- A line comes and is taken. -/
theorem run_arrive_recv (hphase : s.phase = .selecting) (hclosed : s.closed = false)
    (hchannel : s.channel = []) (line : DockerLogLine) :
    (run logBatchSize).Run s [.arrive line, .recv] (receive logBatchSize s line []) := by
  have harrive : (run logBatchSize).step s (.arrive line)
      = some { s with channel := [line] } := by
    show (if s.closed then none else some { s with channel := s.channel ++ [line] }) = _
    rw [hclosed, hchannel]
    rfl
  have hrecv : (run logBatchSize).step { s with channel := [line] } .recv
      = some (receive logBatchSize s line []) := if_pos hphase
  exact Machine.Run.cons harrive (Machine.Run.cons hrecv Machine.Run.nil)

/-- The loop waits, with a buffer of `n` lines and room for more. -/
structure Waiting (logBufferMax n : ℕ) (s : State) : Prop where
  phase : s.phase = .selecting
  closed : s.closed = false
  channel : s.channel = []
  max_eq : s.batcher.max = Nat.max logBufferMax 1
  length : s.batcher.buf.length = n

theorem Waiting.enqueue {logBufferMax n : ℕ} (h : Waiting logBufferMax n s)
    (hroom : n < Nat.max logBufferMax 1) :
    Waiting logBufferMax (n + 1) (Loop.enqueue s someLine []) := by
  refine ⟨h.phase, h.closed, rfl, h.max_eq, ?_⟩
  show (s.batcher.push someLine.toPending).buf.length = n + 1
  rw [(BoundedBatcher.push_of_lt (by rw [h.max_eq, h.length]; exact hroom) _).1, List.length_append,
    h.length]
  rfl

/-- The buffer can fill up to any number of lines below the batch size. -/
theorem exists_waiting (logBatchSize logBufferMax : ℕ) {n : ℕ} (hbatch : n < logBatchSize)
    (hmax : n ≤ Nat.max logBufferMax 1) : ∃ labels s,
    (run logBatchSize).Run (start logBufferMax) labels s ∧ Waiting logBufferMax n s := by
  induction n with
  | zero => exact ⟨[], _, Machine.Run.nil, rfl, rfl, rfl, rfl, rfl⟩
  | succ n ih =>
    obtain ⟨labels, s, hrun, hwaiting⟩ := ih (by omega) (by omega)
    have hnext := hwaiting.enqueue (by omega)
    have hreceive : receive logBatchSize s someLine [] = Loop.enqueue s someLine [] := by
      apply if_neg
      rw [BoundedBatcher.len, hnext.length]
      omega
    have hlast := run_arrive_recv logBatchSize hwaiting.phase hwaiting.closed
      hwaiting.channel someLine
    exact ⟨_, _, hrun.append (hreceive ▸ hlast), hnext⟩

/-- A request of any number of lines can be built, up to the batch size and the size of the
buffer. -/
theorem exists_request (logBatchSize logBufferMax : ℕ) {n : ℕ} (hbatch : n < logBatchSize)
    (hmax : n < Nat.max logBufferMax 1) : ∃ labels s,
    (run logBatchSize).Run (start logBufferMax) labels s ∧
      ∃ req ∈ s.requests, req.lines.length = n + 1 := by
  obtain ⟨labels, s, hrun, hwaiting⟩ := exists_waiting logBatchSize logBufferMax hbatch hmax.le
  have hfull := hwaiting.enqueue hmax
  have hlast := run_arrive_recv logBatchSize hwaiting.phase hwaiting.closed
    hwaiting.channel someLine
  have hlen : (Loop.enqueue s someLine []).batcher.len = n + 1 := hfull.length
  -- the line that reaches the batch size is flushed with the others, or the timer does it
  have hflushed : ∃ labels, (run logBatchSize).Run (start logBufferMax) labels
      (Loop.flush (Loop.enqueue s someLine []) logBatchSize false) := by
    by_cases hreached : logBatchSize ≤ n + 1
    · have hreceive : receive logBatchSize s someLine []
          = Loop.flush (Loop.enqueue s someLine []) logBatchSize false :=
        if_pos (hlen ▸ hreached)
      exact ⟨_, hrun.append (hreceive ▸ hlast)⟩
    · have hreceive : receive logBatchSize s someLine [] = Loop.enqueue s someLine [] :=
        if_neg (hlen ▸ hreached)
      have htick : (run logBatchSize).step (Loop.enqueue s someLine []) .flushTick
          = some (Loop.flush (Loop.enqueue s someLine []) logBatchSize false) :=
        if_pos hfull.phase
      exact ⟨_, (hrun.append (hreceive ▸ hlast)).snoc htick⟩
  obtain ⟨labels, hrun⟩ := hflushed
  refine ⟨labels, _, hrun, ?_⟩
  rcases flush_cases (Loop.enqueue s someLine []) logBatchSize false with
    ⟨hempty, -⟩ | ⟨-, heq⟩
  · rw [BoundedBatcher.len, hempty] at hlen
    cases hlen
  · refine ⟨dockerRequest ((Loop.enqueue s someLine []).batcher.drain logBatchSize).1, ?_, ?_⟩
    · rw [heq]
      simp [State.requests, Phase.request]
    · have hdrained := ((Loop.enqueue s someLine []).batcher.length_drain logBatchSize).1
      show (List.map _ _).length = _
      rw [List.length_map, hdrained, hlen]
      omega

/-- With a batch size of zero the first line is flushed in a request without it. -/
theorem exists_emptyRequest (logBufferMax : ℕ) : ∃ labels s,
    (run 0).Run (start logBufferMax) labels s ∧ dockerRequest [] ∈ s.requests := by
  have hstart : Waiting logBufferMax 0 (start logBufferMax) := ⟨rfl, rfl, rfl, rfl, rfl⟩
  have hrun := run_arrive_recv 0 hstart.phase hstart.closed hstart.channel someLine
  refine ⟨_, _, hrun, ?_⟩
  have hreceive : receive 0 (start logBufferMax) someLine []
      = Loop.flush (Loop.enqueue (start logBufferMax) someLine []) 0 false :=
    if_pos (Nat.zero_le _)
  have hnonempty : (Loop.enqueue (start logBufferMax) someLine []).batcher.buf ≠ [] := by
    have hlength := (hstart.enqueue (Nat.le_max_right logBufferMax 1)).length
    intro hnil
    rw [hnil] at hlength
    cases hlength
  rcases flush_cases (Loop.enqueue (start logBufferMax) someLine []) 0 false with
    ⟨hempty, -⟩ | ⟨-, heq⟩
  · exact absurd hempty hnonempty
  · rw [hreceive, heq]
    have hnone : ((Loop.enqueue (start logBufferMax) someLine []).batcher.drain 0).1 = [] := by
      rw [← List.length_eq_zero_iff, (BoundedBatcher.length_drain _ _).1]
      exact Nat.zero_min _
    simp [State.requests, Phase.request, hnone]

end Steps

/-- **Every request of the loop has a legal size exactly when the batch size does**, or the buffer
never holds more lines than a request may carry. -/
theorem requests_legal_iff (logBatchSize logBufferMax : ℕ) :
    (∀ labels s, (run logBatchSize).Run (start logBufferMax) labels s → Legal logBatchSize s) ↔
      1 ≤ logBatchSize ∧ (logBatchSize ≤ Hub.Validate.maxLinesPerRequest ∨
        Nat.max logBufferMax 1 ≤ Hub.Validate.maxLinesPerRequest) := by
  constructor
  · intro h
    have hpos : 1 ≤ logBatchSize := by
      by_contra hzero
      obtain rfl : logBatchSize = 0 := by omega
      obtain ⟨labels, s, hrun, hreq⟩ := exists_emptyRequest logBufferMax
      exact absurd ((h labels s hrun).requests _ hreq).pos (by decide)
    refine ⟨hpos, ?_⟩
    by_contra hlarge
    rw [not_or, Nat.not_le, Nat.not_le] at hlarge
    obtain ⟨labels, s, hrun, req, hreq, hlength⟩ :=
      exists_request logBatchSize logBufferMax hlarge.1 hlarge.2
    have hle := ((h labels s hrun).requests req hreq).le
    omega
  · rintro ⟨hpos, hsize⟩ labels s hrun
    have hfilled := filled_of_run hpos hrun
    have husize : 1 ≤ usizeMax := by decide
    refine ⟨?_, len_flush_lt hpos false, len_flush_lt husize true⟩
    intro req hreq
    obtain ⟨lines, rfl, hone, hbound⟩ := hfilled.sizes req hreq
    rw [legalSize_dockerRequest_iff]
    omega

/-- A batch of 2000 lines, as a buffer of the default size lets it grow. -/
theorem oversized_twoThousand : ¬ ∀ (logBatchSize logBufferMax : ℕ) (labels : List Label)
    (s : State), (run logBatchSize).Run (start logBufferMax) labels s → Legal logBatchSize s := by
  intro h
  obtain ⟨labels, s, hrun, req, hreq, hlength⟩ :=
    exists_request 2000 10000 (n := 1999) (by omega) (by decide)
  have hle := ((h 2000 10000 labels s hrun).requests req hreq).le
  rw [hlength] at hle
  exact absurd hle (by decide)

end Loop

end Sentinalysis.Agent
