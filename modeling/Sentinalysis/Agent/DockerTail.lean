/-
# Sentinalysis.Agent.DockerTail — a container's log grows while it is read.

A call to `read_new_lines` opens the file, takes its size, seeks, reads to the end and only then
stores an offset: the size it took at first.  The container appends between any two of these steps,
and stops anywhere in a line.  Whether every envelope is delivered once depends on one thing: the
next call starts at the stored size, so no envelope begun before it may be missing from what was
read, and none after it may have been read in full.
-/
import Sentinalysis.Agent.DockerLogs
import Sentinalysis.Lib.Framing
import Sentinalysis.Lib.Transition

namespace Sentinalysis.Agent.DockerTail

open Lib Framing

/-- Where the reader is: between two calls, or after a step of one. -/
inductive Phase
  | idle
  | opened
  | sized (size : ℕ)
  | seeked (size : ℕ)
  | read (size : ℕ) (buf : String)
  deriving DecidableEq, Repr

/-- The file, as it was when the container was discovered and what was written since; the reader;
and the lines it has returned. -/
structure State where
  before : List UInt8
  written : List UInt8 := []
  tailed : Tailed
  phase : Phase := .idle
  returned : List DockerLogLine := []
  deriving DecidableEq, Repr

def State.content (s : State) : List UInt8 := s.before ++ s.written

inductive Label
  | append (piece : List UInt8)
  | openFile
  | metadata
  | seek
  | read
  | store (now : ℤ)
  /-- A step of the call fails: nothing is returned. -/
  | fail
  deriving DecidableEq, Repr

/-- A file without anything new is not read. -/
def afterMetadata (size offset : ℕ) : Phase := if size = offset then .idle else .sized size

/-- The container writes the given envelopes, one on each line, in pieces of any size; the reader
takes its steps. -/
def tailing (reader : EnvelopeReader) (envelopes : List String) : Machine State Label where
  step s
    | .append piece =>
      if s.written ++ piece <+: encode envelopes then some { s with written := s.written ++ piece }
      else none
    | .openFile => if s.phase = .idle then some { s with phase := .opened } else none
    | .metadata =>
      if s.phase = .opened then
        some { s with
          tailed := s.tailed.reset s.content.length
          phase := afterMetadata s.content.length (s.tailed.reset s.content.length).offset }
      else none
    | .seek => match s.phase with
      | .sized size => some { s with phase := .seeked size }
      | _ => none
    | .read => match s.phase with
      | .seeked size => match s.tailed.readToString s.content with
        | none => some { s with phase := .idle }
        | some buf => some { s with phase := .read size buf }
      | _ => none
    | .store now => match s.phase with
      | .read size buf => some { s with
          tailed := { s.tailed with offset := size }
          phase := .idle
          returned := s.returned ++ parseLines reader now buf }
      | _ => none
    | .fail => match s.phase with
      | .idle | .read _ _ => none
      | _ => some { s with phase := .idle }

/-- The container when it is discovered: it is read from the end of its log on. -/
def discovered (name : String) (logPath : Path) (before : List UInt8) : State where
  before := before
  tailed := { name := name, logPath := logPath, offset := before.length }

/-- One more call, in which nothing fails and nothing is written. -/
def lastCall (reader : EnvelopeReader) (now : ℤ) (s : State) : List DockerLogLine :=
  (readNewLines reader now s.tailed (some s.content.length) (some s.content)).1

/-- **The steps of a call with nothing in between are `read_new_lines`.** -/
theorem readNewLines_of_steps (reader : EnvelopeReader) (envelopes : List String) (now : ℤ)
    {s : State} (hidle : s.phase = .idle) : ∃ labels, (tailing reader envelopes).Run s labels
      { s with
        tailed := (readNewLines reader now s.tailed (some s.content.length) (some s.content)).2
        returned := s.returned ++ lastCall reader now s } := by
  obtain ⟨before, written, tailed, phase, returned⟩ := s
  obtain rfl : phase = .idle := hidle
  have hopen : (tailing reader envelopes).Run ⟨before, written, tailed, .idle, returned⟩
      [.openFile] ⟨before, written, tailed, .opened, returned⟩ := Machine.Run.nil.snoc rfl
  simp only [lastCall, State.content]
  -- The call goes on for as long as `read_new_lines` does not return.
  by_cases hsize : (before ++ written).length = (tailed.reset (before ++ written).length).offset
  · have hdone : (tailing reader envelopes).step ⟨before, written, tailed, .opened, returned⟩
        .metadata = some ⟨before, written, tailed.reset (before ++ written).length, .idle,
          returned⟩ := by
      simp only [tailing, State.content, if_true]
      rw [afterMetadata, if_pos hsize]
    rw [readNewLines_of_eq hsize, List.append_nil]
    exact ⟨_, hopen.snoc hdone⟩
  · have hsized : (tailing reader envelopes).step ⟨before, written, tailed, .opened, returned⟩
        .metadata = some ⟨before, written, tailed.reset (before ++ written).length,
          .sized (before ++ written).length, returned⟩ := by
      simp only [tailing, State.content, if_true]
      rw [afterMetadata, if_neg hsize]
    have hseeked := (hopen.snoc hsized).snoc (a := .seek) rfl
    cases hread : (tailed.reset (before ++ written).length).readToString (before ++ written) with
    | none =>
      rw [readNewLines_of_none hsize hread, List.append_nil]
      refine ⟨_, hseeked.snoc (a := .read) ?_⟩
      simp only [tailing, State.content, hread]
    | some buf =>
      rw [readNewLines_of_some hsize hread]
      have hbuf : (tailing reader envelopes).step ⟨before, written,
          tailed.reset (before ++ written).length, .seeked (before ++ written).length, returned⟩
          .read = some ⟨before, written, tailed.reset (before ++ written).length,
            .read (before ++ written).length buf, returned⟩ := by
        simp only [tailing, State.content, hread]
      exact ⟨_, (hseeked.snoc hbuf).snoc (a := .store now) rfl⟩

/-! ## Envelopes -/

/-- A well-formed envelope: one JSON object, with nothing around it, that has text. -/
structure WellFormed (reader : EnvelopeReader) (raw : String) : Prop where
  frame : Frame reader.fromStr raw
  envelope : ∃ envelope, reader.fromStr raw = some envelope ∧ envelope.log ≠ ""

/-- The line is what the envelope is parsed to; the clock gives the time of one that has none. -/
def Parsed (reader : EnvelopeReader) (raw : String) (line : DockerLogLine) : Prop :=
  ∃ now, parseEnvelope reader now raw = some line

/-- The lines are the parsed envelopes in order, each once. -/
def Delivered (reader : EnvelopeReader) (envelopes : List String) (lines : List DockerLogLine) :
    Prop :=
  List.Forall₂ (Parsed reader) envelopes lines

section Envelopes

variable {reader : EnvelopeReader}

theorem WellFormed.frame_parseEnvelope {raw : String} (h : WellFormed reader raw) (now : ℤ) :
    Frame (parseEnvelope reader now) raw := by
  refine h.frame.of_stricter fun s hs => ?_
  rw [parseEnvelope, hs]
  rfl

theorem WellFormed.exists_line {raw : String} (h : WellFormed reader raw) (now : ℤ) :
    ∃ line, parseEnvelope reader now raw = some line := by
  obtain ⟨envelope, hread, hlog⟩ := h.envelope
  exact ⟨_, parseEnvelope_eq_some_iff.mpr ⟨envelope, hread, hlog, rfl⟩⟩

/-- Every well-formed envelope has its line. -/
theorem delivered_filterMap {envelopes : List String}
    (h : ∀ raw ∈ envelopes, WellFormed reader raw) (now : ℤ) :
    Delivered reader envelopes (envelopes.filterMap (parseEnvelope reader now)) := by
  induction envelopes with
  | nil => exact List.Forall₂.nil
  | cons raw envelopes ih =>
    obtain ⟨line, hline⟩ := (h raw (List.mem_cons_self ..)).exists_line now
    rw [List.filterMap_cons_some hline]
    exact List.Forall₂.cons ⟨now, hline⟩ (ih fun raw hraw => h raw (List.mem_cons_of_mem _ hraw))

theorem Delivered.append {a b : List String} {la lb : List DockerLogLine}
    (ha : Delivered reader a la) (hb : Delivered reader b lb) :
    Delivered reader (a ++ b) (la ++ lb) :=
  List.rel_append ha hb

end Envelopes

/-! ## Reading whole envelopes -/

/-- How much of a position is in what was written since the container was discovered. -/
def State.since (s : State) (position : ℕ) : ℕ := position - s.before.length

/-- The text that a call reads has all the envelopes that begin before the size it stores, and no
other that is complete; and that size is not inside a character. -/
def ReadsWhole (envelopes : List String) (s : State) : Label → Prop
  | .read => match s.phase with
    | .seeked size => (s.tailed.readToString s.content).isSome = true →
        (Text.fromUtf8 (s.written.take (s.since size))).isSome = true ∧
          begun envelopes (s.since size) = complete envelopes s.written.length
    | _ => True
  | _ => True

instance (envelopes : List String) (s : State) : DecidablePred (ReadsWhole envelopes s)
  | .read =>
    match h : s.phase with
    | .seeked size => decidable_of_iff ((s.tailed.readToString s.content).isSome = true →
        (Text.fromUtf8 (s.written.take (s.since size))).isSome = true ∧
          begun envelopes (s.since size) = complete envelopes s.written.length)
        (by simp only [ReadsWhole, h])
    | .idle | .opened | .sized _ | .read _ _ => .isTrue (by simp only [ReadsWhole, h])
  | .append _ | .openFile | .metadata | .seek | .store _ | .fail => .isTrue trivial

/-- A position of a file, up to which everything that is begun is complete. -/
structure Consumed (envelopes : List String) (before written : List UInt8) (position : ℕ) :
    Prop where
  ge : before.length ≤ position
  le : position ≤ before.length + written.length
  boundary : (Text.fromUtf8 (written.take (position - before.length))).isSome = true
  complete : begun envelopes (position - before.length) ≤ complete envelopes written.length

/-- What the phases of a call know. -/
def PhaseInvariant (reader : EnvelopeReader) (envelopes : List String) (s : State) : Phase → Prop
  | .idle | .opened => True
  | .sized size | .seeked size => s.tailed.offset ≤ size ∧ size ≤ s.content.length
  | .read size buf => Consumed envelopes s.before s.written size ∧
      begun envelopes (s.since s.tailed.offset) ≤ begun envelopes (s.since size) ∧
      ∀ now, Delivered reader ((envelopes.take (begun envelopes (s.since size))).drop
        (begun envelopes (s.since s.tailed.offset))) (parseLines reader now buf)

/-- The lines returned are those of the envelopes begun before the offset. -/
structure Invariant (reader : EnvelopeReader) (envelopes : List String) (s : State) : Prop where
  written : s.written <+: encode envelopes
  consumed : Consumed envelopes s.before s.written s.tailed.offset
  returned :
    Delivered reader (envelopes.take (begun envelopes (s.since s.tailed.offset))) s.returned
  phase : PhaseInvariant reader envelopes s s.phase

section Steps

variable {reader : EnvelopeReader} {envelopes : List String} {s t : State}

theorem Consumed.append {before written : List UInt8} {position : ℕ}
    (h : Consumed envelopes before written position) (piece : List UInt8) :
    Consumed envelopes before (written ++ piece) position where
  ge := h.ge
  le := by
    have hle := h.le
    rw [List.length_append]
    omega
  boundary := by
    have hle := h.le
    rw [List.take_append_of_le_length (by omega)]
    exact h.boundary
  complete := by
    refine h.complete.trans (complete_mono envelopes ?_)
    rw [List.length_append]
    omega

/-- A call that reads a text sees the envelopes from the offset on that are complete. -/
theorem parseLines_of_readToString (hwf : ∀ raw ∈ envelopes, WellFormed reader raw)
    (hs : Invariant reader envelopes s) {buf : String}
    (hread : s.tailed.readToString s.content = some buf) (now : ℤ) :
    Delivered reader ((envelopes.take (complete envelopes s.written.length)).drop
      (begun envelopes (s.since s.tailed.offset))) (parseLines reader now buf) := by
  have hge := hs.consumed.ge
  have hle := hs.consumed.le
  have hbytes : Text.bytes buf = s.written.drop (s.since s.tailed.offset) := by
    rw [Text.bytes_of_fromUtf8 hread, State.content, State.since, List.drop_append,
      List.drop_eq_nil_of_le hge, List.nil_append]
  have hsince : s.since s.tailed.offset ≤ s.written.length := by
    unfold State.since
    omega
  unfold parseLines
  rw [filterMap_lines_between (fun raw hraw => (hwf raw hraw).frame_parseEnvelope now) hs.written
    hsince hs.consumed.complete hs.consumed.boundary hbytes]
  refine delivered_filterMap (fun raw hraw => hwf raw ?_) now
  exact List.mem_of_mem_take (List.mem_of_mem_drop hraw)

theorem Invariant.append (hs : Invariant reader envelopes s) {piece : List UInt8}
    (hpiece : s.written ++ piece <+: encode envelopes) :
    Invariant reader envelopes { s with written := s.written ++ piece } where
  written := hpiece
  consumed := hs.consumed.append piece
  returned := hs.returned
  phase := by
    have hphase := hs.phase
    have hgrow : s.content.length ≤ (s.before ++ (s.written ++ piece)).length := by
      simp only [State.content, List.length_append]
      omega
    show PhaseInvariant reader envelopes { s with written := s.written ++ piece } s.phase
    cases hcase : s.phase with
    | idle => exact trivial
    | opened => exact trivial
    | sized size =>
      rw [hcase] at hphase
      exact ⟨hphase.1, hphase.2.trans hgrow⟩
    | seeked size =>
      rw [hcase] at hphase
      exact ⟨hphase.1, hphase.2.trans hgrow⟩
    | read size buf =>
      rw [hcase] at hphase
      obtain ⟨hconsumed, hle, hlines⟩ := hphase
      exact ⟨hconsumed.append piece, hle, hlines⟩

/-- The file does not shrink, so that the offset is not reset. -/
theorem Invariant.reset_eq (hs : Invariant reader envelopes s) :
    s.tailed.reset s.content.length = s.tailed := by
  have hle := hs.consumed.le
  rw [State.content, List.length_append, Tailed.reset, if_neg (not_lt.mpr hle)]

/-- Only the phase changes. -/
theorem Invariant.withPhase (hs : Invariant reader envelopes s) {phase : Phase}
    (hphase : PhaseInvariant reader envelopes s phase) :
    Invariant reader envelopes { s with phase := phase } :=
  ⟨hs.written, hs.consumed, hs.returned, hphase⟩

theorem Invariant.metadata (hs : Invariant reader envelopes s)
    (hstep : (tailing reader envelopes).step s .metadata = some t) :
    Invariant reader envelopes t := by
  simp only [tailing, Option.ite_none_right_eq_some] at hstep
  obtain ⟨-, hstep⟩ := hstep
  rw [hs.reset_eq] at hstep
  obtain rfl := Option.some.inj hstep
  refine hs.withPhase ?_
  unfold afterMetadata
  split
  · exact trivial
  · have hle := hs.consumed.le
    rw [← List.length_append] at hle
    exact ⟨hle, Nat.le_refl _⟩

/-- A read that meets the condition hands on the envelopes up to the size. -/
theorem Invariant.read (hwf : ∀ raw ∈ envelopes, WellFormed reader raw)
    (hs : Invariant reader envelopes s) (hwhole : ReadsWhole envelopes s .read)
    (hstep : (tailing reader envelopes).step s .read = some t) : Invariant reader envelopes t := by
  have hphase := hs.phase
  cases hcase : s.phase with
  | seeked size =>
    simp only [tailing, hcase] at hstep
    simp only [ReadsWhole, hcase] at hwhole
    rw [hcase] at hphase
    cases hread : s.tailed.readToString s.content with
    | none =>
      -- the call returns nothing, and the offset stays
      simp only [hread] at hstep
      obtain rfl := Option.some.inj hstep
      exact hs.withPhase trivial
    | some buf =>
      simp only [hread] at hstep
      obtain rfl := Option.some.inj hstep
      rw [hread] at hwhole
      obtain ⟨hboundary, hcount⟩ := hwhole rfl
      have hbegun := hs.consumed.complete
      refine hs.withPhase ⟨⟨?_, ?_, hboundary, hcount.le⟩, ?_, ?_⟩
      · exact hs.consumed.ge.trans hphase.1
      · rw [← List.length_append]
        exact hphase.2
      · rw [hcount]
        exact hbegun
      · intro now
        rw [hcount]
        exact parseLines_of_readToString hwf hs hread now
  | _ => simp only [tailing, hcase] at hstep; cases hstep

/-- Storing the size makes the lines of the read part of what was returned. -/
theorem Invariant.store {now : ℤ} (hs : Invariant reader envelopes s)
    (hstep : (tailing reader envelopes).step s (.store now) = some t) :
    Invariant reader envelopes t := by
  have hphase := hs.phase
  cases hcase : s.phase with
  | read size buf =>
    simp only [tailing, hcase] at hstep
    obtain rfl := Option.some.inj hstep
    rw [hcase] at hphase
    obtain ⟨hconsumed, hle, hlines⟩ := hphase
    refine ⟨hs.written, hconsumed, ?_, trivial⟩
    show Delivered reader (envelopes.take (begun envelopes (s.since size)))
      (s.returned ++ parseLines reader now buf)
    -- those begun before the old offset were returned, those between are in the buffer
    have hsplit := List.take_append_drop (begun envelopes (s.since s.tailed.offset))
      (envelopes.take (begun envelopes (s.since size)))
    rw [List.take_take, Nat.min_eq_left hle] at hsplit
    rw [← hsplit]
    exact hs.returned.append (hlines now)
  | _ => simp only [tailing, hcase] at hstep; cases hstep

/-- Every step that meets the condition keeps the invariant. -/
theorem Invariant.step (hwf : ∀ raw ∈ envelopes, WellFormed reader raw)
    (hs : Invariant reader envelopes s) {label : Label} (hwhole : ReadsWhole envelopes s label)
    (hstep : (tailing reader envelopes).step s label = some t) : Invariant reader envelopes t := by
  cases label with
  | append piece =>
    simp only [tailing, Option.ite_none_right_eq_some] at hstep
    obtain ⟨hpiece, hstep⟩ := hstep
    obtain rfl := Option.some.inj hstep
    exact hs.append hpiece
  | openFile =>
    simp only [tailing, Option.ite_none_right_eq_some] at hstep
    obtain ⟨-, hstep⟩ := hstep
    obtain rfl := Option.some.inj hstep
    exact hs.withPhase trivial
  | metadata => exact hs.metadata hstep
  | seek =>
    have hphase := hs.phase
    cases hcase : s.phase with
    | sized size =>
      simp only [tailing, hcase] at hstep
      obtain rfl := Option.some.inj hstep
      rw [hcase] at hphase
      exact hs.withPhase hphase
    | _ => simp only [tailing, hcase] at hstep; cases hstep
  | read => exact hs.read hwf hwhole hstep
  | store now => exact hs.store hstep
  | fail =>
    simp only [tailing] at hstep
    split at hstep
    · cases hstep
    · cases hstep
    · obtain rfl := Option.some.inj hstep
      exact hs.withPhase trivial

/-- What follows a position that is not inside a character is a text. -/
theorem Invariant.exists_readToString (hs : Invariant reader envelopes s)
    (hwritten : s.written = encode envelopes) :
    ∃ buf, s.tailed.readToString s.content = some buf := by
  obtain ⟨text, htext⟩ := exists_bytes_eq_encode envelopes
  obtain ⟨p, hp⟩ := Option.isSome_iff_exists.mp hs.consumed.boundary
  have hsplit : Text.bytes p ++ s.written.drop (s.since s.tailed.offset) = Text.bytes text := by
    rw [Text.bytes_of_fromUtf8 hp, State.since, List.take_append_drop, htext, hwritten]
  obtain ⟨buf, -, hbuf⟩ := Text.exists_of_bytes_append hsplit
  refine ⟨buf, Text.fromUtf8_eq_some_iff.mpr ?_⟩
  rw [hbuf, State.content, List.drop_append, List.drop_eq_nil_of_le hs.consumed.ge,
    List.nil_append, State.since]

/-- When everything is written, one more call returns what is left. -/
theorem delivered_lastCall (hwf : ∀ raw ∈ envelopes, WellFormed reader raw)
    (hs : Invariant reader envelopes s) (hwritten : s.written = encode envelopes) (now : ℤ) :
    Delivered reader (envelopes.drop (begun envelopes (s.since s.tailed.offset)))
      (lastCall reader now s) := by
  unfold lastCall
  by_cases hsize : s.content.length = (s.tailed.reset s.content.length).offset
  · -- the offset is at the end of the file, where every envelope is begun
    rw [readNewLines_of_eq hsize]
    rw [hs.reset_eq] at hsize
    have hend : s.since s.tailed.offset = (encode envelopes).length := by
      rw [State.since, ← hsize, State.content, List.length_append, Nat.add_sub_cancel_left,
        hwritten]
    rw [hend, begun_length, List.drop_length]
    exact List.Forall₂.nil
  · obtain ⟨buf, hbuf⟩ := hs.exists_readToString hwritten
    have hread : (s.tailed.reset s.content.length).readToString s.content = some buf := by
      rw [hs.reset_eq]
      exact hbuf
    rw [readNewLines_of_some hsize hread]
    have hlines := parseLines_of_readToString hwf hs hbuf now
    rw [hwritten, complete_length, List.take_length] at hlines
    exact hlines

end Steps

/-- **Every envelope is delivered once**, and in order, when every read of a call ends with the
envelopes that begin before the size the call stores: after one more call, the lines returned are
those of the envelopes written. -/
theorem delivered_of_readsWhole {reader : EnvelopeReader} {envelopes : List String}
    (hwf : ∀ raw ∈ envelopes, WellFormed reader raw) {name : String} {logPath : Path}
    {before : List UInt8} {labels : List Label} {t : State}
    (hrun : (tailing reader envelopes).Run (discovered name logPath before) labels t)
    (hwhole : (tailing reader envelopes).Along (ReadsWhole envelopes)
      (discovered name logPath before) labels)
    (hwritten : t.written = encode envelopes) (now : ℤ) :
    Delivered reader envelopes (t.returned ++ lastCall reader now t) := by
  -- by induction over the run, then what the last call adds
  have hinv : Invariant reader envelopes t := by
    refine hrun.invariant_along (I := fun _ t => Invariant reader envelopes t) hwhole ?_ ?_
    · refine ⟨List.nil_prefix, ⟨Nat.le_refl _, Nat.le_add_right _ _, ?_, ?_⟩, ?_, trivial⟩
      · show (Text.fromUtf8 (([] : List UInt8).take _)).isSome = true
        rw [List.take_nil]
        rfl
      · simp [discovered, begun_zero]
      · simp [discovered, State.since, begun_zero, Delivered]
    · intro _ s label u hs hcond hstep
      exact hs.step hwf hcond hstep
  have hall := hinv.returned.append (delivered_lastCall hwf hinv hwritten now)
  rw [List.take_append_drop] at hall
  exact hall

/-! ## A line written in two pieces -/

/-- The line of one envelope. -/
def upLine : String :=
  "\x7b\"log\":\"up\\n\",\"stream\":\"stdout\",\"time\":\"2026-01-01T00:00:00Z\"\x7d"

/-- What the libraries say about that line. -/
def upReader : EnvelopeReader where
  fromStr raw :=
    if raw = upLine then some ⟨"up\n", "stdout", some "2026-01-01T00:00:00Z"⟩ else none
  chrono := {
    parseFromStr := fun _ _ => none
    parseFromRfc3339 := fun text =>
      if text = "2026-01-01T00:00:00Z" then DateTime.fromTimestampMillis 1767225600000 else none
    naiveParseFromStr := fun _ _ => none
    year := fun _ => 2026 }

theorem wellFormed_upLine : ∀ raw ∈ [upLine], WellFormed upReader raw := by
  intro raw hraw
  obtain rfl := List.mem_singleton.mp hraw
  -- no part of the line is as long as the line
  have hshorter : ∀ p, p.length ≠ upLine.length → upReader.fromStr p = none := by
    intro p hp
    exact if_neg fun h => hp (congrArg String.length h)
  have hread : upReader.fromStr upLine =
      some ⟨"up\n", "stdout", some "2026-01-01T00:00:00Z"⟩ := by
    simp only [upReader, if_true]
  refine ⟨⟨by decide, by decide, by decide, ?_, ?_⟩, _, hread, by decide⟩
  · intro p q hsplit hq
    apply hshorter
    have hlength := congrArg String.length hsplit
    rw [String.length_append] at hlength
    have hpos : q.length ≠ 0 := fun h => hq (String.length_eq_zero_iff.mp h)
    omega
  · intro p q hsplit hp
    apply hshorter
    have hlength := congrArg String.length hsplit
    rw [String.length_append] at hlength
    have hpos : p.length ≠ 0 := fun h => hp (String.length_eq_zero_iff.mp h)
    omega

/-- A call in which the file has grown and nothing fails. -/
def wholeCall : List Label := [.openFile, .metadata, .seek, .read, .store 0]

/-- The line is written in two pieces; the call in between cannot ask for the size. -/
def delayed : List Label :=
  [.append ((encode [upLine]).take 10), .openFile, .fail, .append ((encode [upLine]).drop 10)] ++
    wholeCall

/-- The line is written in two pieces, with a call in between. -/
def torn : List Label :=
  [.append ((encode [upLine]).take 10)] ++ wholeCall ++ [.append ((encode [upLine]).drop 10)]

/-- A container that has not written yet. -/
def quiet : State := discovered "web" [.text "c1-json.log"] []

/-- Nothing is lost in the first run. -/
theorem delivered_delayed : ∃ t, (tailing upReader [upLine]).Run quiet delayed t ∧
    Delivered upReader [upLine] (t.returned ++ lastCall upReader 0 t) := by
  have hwritten : ((tailing upReader [upLine]).exec quiet delayed).any
      (fun t => t.written = encode [upLine]) = true := by decide +kernel
  obtain ⟨t, hrun, ht⟩ := Machine.exists_run_any hwritten
  exact ⟨t, hrun, delivered_of_readsWhole wellFormed_upLine hrun (by decide +kernel)
    (of_decide_eq_true ht) 0⟩

/-- **An envelope is lost** in the second: each of the two calls reads one piece of it. -/
theorem tornEnvelope_lost : ∃ t, (tailing upReader [upLine]).Run quiet torn t ∧
    (∀ raw ∈ [upLine], WellFormed upReader raw) ∧ t.written = encode [upLine] ∧
    ¬ Delivered upReader [upLine] (t.returned ++ lastCall upReader 0 t) := by
  have hlost : ((tailing upReader [upLine]).exec quiet torn).any (fun t =>
      t.written = encode [upLine] ∧ t.returned ++ lastCall upReader 0 t = []) = true := by
    decide +kernel
  obtain ⟨t, hrun, ht⟩ := Machine.exists_run_any hlost
  obtain ⟨hwritten, hnothing⟩ := of_decide_eq_true ht
  refine ⟨t, hrun, wellFormed_upLine, hwritten, ?_⟩
  intro hdelivered
  rw [hnothing] at hdelivered
  cases hdelivered

end Sentinalysis.Agent.DockerTail
