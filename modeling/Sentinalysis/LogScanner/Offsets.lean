/-
# Sentinalysis.LogScanner.Offsets — whether the byte offset of an emitted line is where it starts.

An offset is summed up from lines that have lost their terminators, one byte for each.  A line that
ended in a carriage return and a newline makes every later offset of its read one byte too small; a
read that stopped inside a line, or right after such a terminator, does it for the next read.
-/
import Sentinalysis.LogScanner.Delivery

namespace Sentinalysis.LogScanner.Offsets

open Lib TailerState Delivery

/-- A line of the content starts at the offset, and the content goes on there with this text. -/
def StartsAt (content : List UInt8) (line : TailLine) : Prop :=
  line.byteOffset < content.length ∧ Lines.Closed 10 (content.take line.byteOffset) ∧
    Text.bytes line.line <+: content.drop line.byteOffset

instance (content : List UInt8) (line : TailLine) : Decidable (StartsAt content line) :=
  inferInstanceAs (Decidable (_ ∧ _ ∧ _))

/-- What a sender takes of a sequence before the receiver is gone. -/
def taken {α : Type} (room : Option ℕ) (l : List α) : List α :=
  match room with
  | none => l
  | some n => l.take n

/-- A piece that ends in a carriage return and a newline. -/
def EndsInCrlf (piece : List Char) : Prop := ['\r', '\n'] <:+ piece

instance (piece : List Char) : Decidable (EndsInCrlf piece) :=
  inferInstanceAs (Decidable (_ <:+ _))

/-- No line that another one follows ends in a carriage return and a newline. -/
def LfBetween (pieces : List (List Char)) : Prop := ∀ piece ∈ pieces.dropLast, ¬ EndsInCrlf piece

instance (pieces : List (List Char)) : Decidable (LfBetween pieces) :=
  inferInstanceAs (Decidable (∀ _ ∈ _, _))

section Machine

variable (path : Path) (watchConfigs : List LogWatchConfig) (watchedDirs : List Path)

/-- The state after a file is opened, when the receiver stays for so many sends. -/
def openedFor (room : Option ℕ) (fs : FileSystem) (content : String) : Tailing :=
  let fs := fs.write path ⟨Text.bytes content, true⟩
  let (st, tx) := report (readExistingLines fs (new [path]) path { room := room })
  ⟨fs, st, tx⟩

/-- Every line emitted starts at its offset. -/
def OffsetsReal (s : Tailing) : Prop :=
  ∀ line, Except.ok line ∈ s.tx.sent → StartsAt (onDisk path s) line

/-- The condition on one step, on the state before it: the lines that an event reads begin at the
start of a line, and none of those that are sent, but the last one, ends in a carriage return and a
newline. -/
def ReadsWhole (s : Tailing) : FileOp → Prop
  | .append _ => True
  | .modified => path.fileName.isSome = true →
      ∀ text ∈ Text.fromUtf8 ((onDisk path s).drop (resumesAt path s)),
        taken s.tx.room (Lines.pieces '\n' text.toList) = [] ∨
        Lines.Closed 10 ((onDisk path s).take (resumesAt path s)) ∧
          LfBetween (taken s.tx.room (Lines.pieces '\n' text.toList))

instance (s : Tailing) : ∀ op, Decidable (ReadsWhole path s op)
  | .append _ => inferInstanceAs (Decidable True)
  | .modified => inferInstanceAs (Decidable (_ → ∀ _ ∈ _, _))

end Machine

/-! ## One read -/

section Read

variable {path : Path}

/-- Bytes that are appended do not move a line. -/
theorem StartsAt.append {content : List UInt8} {line : TailLine} (h : StartsAt content line)
    (b : List UInt8) : StartsAt (content ++ b) line := by
  obtain ⟨hlt, hclosed, hprefix⟩ := h
  refine ⟨?_, ?_, ?_⟩
  · rw [List.length_append]
    omega
  · rw [List.take_append_of_le_length hlt.le]
    exact hclosed
  · rw [List.drop_append_of_le_length hlt.le]
    exact hprefix.trans (List.prefix_append _ b)

/-- The line of a piece. -/
def lineOf (piece : List Char) : String := String.ofList (Lines.stripEnd '\n' '\r' piece)

theorem bytes_lineOf_begins (piece : List Char) :
    Text.bytes (lineOf piece) <+: Text.bytes (String.ofList piece) := by
  have hbegins : Lines.stripEnd '\n' '\r' piece <+: piece := Lines.stripEnd_prefix piece
  obtain ⟨rest, hrest⟩ := hbegins
  refine ⟨Text.bytes (String.ofList rest), ?_⟩
  rw [lineOf, ← Text.bytes_append, ← String.ofList_append, hrest]

theorem bytes_ne_nil {piece : List Char} (h : piece ≠ []) :
    Text.bytes (String.ofList piece) ≠ [] := by
  intro hnil
  have hempty : String.ofList piece = "" := Text.bytes_injective hnil
  exact h (by simpa using congrArg String.toList hempty)

/-- The line of a piece starts where the piece does, if that is the start of a line. -/
theorem startsAt_lineOf {piece : List Char} (hne : piece ≠ []) (front rest : List UInt8) :
    StartsAt (front ++ (Text.bytes (String.ofList piece) ++ rest))
        ⟨path, lineOf piece, front.length⟩ ↔ Lines.Closed 10 front := by
  have hpos := List.length_pos_of_ne_nil (bytes_ne_nil hne)
  unfold StartsAt
  dsimp only
  rw [List.take_left, List.drop_left, List.length_append, List.length_append]
  constructor
  · exact fun h => h.2.1
  · intro hclosed
    exact ⟨by omega, hclosed, (bytes_lineOf_begins piece).trans (List.prefix_append _ rest)⟩

/-- A whole piece is one byte longer than its line, two if it ends in a carriage return and a
newline. -/
theorem len_lineOf {piece : List Char} (hclosed : piece.getLast? = some '\n') :
    Text.len (lineOf piece) + 1 + (if EndsInCrlf piece then 1 else 0)
      = (Text.bytes (String.ofList piece)).length := by
  have hlaw := Lines.weight_stripEnd (show Char.utf8Size '\n' = 1 from rfl)
    (show Char.utf8Size '\r' = 1 from rfl) piece
  rw [if_pos hclosed, ← Text.len_ofList, ← Text.len_ofList] at hlaw
  exact hlaw

/-- After a piece that ends in a newline a line starts. -/
theorem closed_bytes {piece : List Char} (hclosed : piece.getLast? = some '\n')
    (front : List UInt8) : Lines.Closed 10 (front ++ Text.bytes (String.ofList piece)) := by
  obtain ⟨before, rfl⟩ := List.getLast?_eq_some_iff.mp hclosed
  refine Or.inr ?_
  rw [String.ofList_append, Text.bytes_append, ← List.append_assoc]
  exact List.getLast?_append_of_ne_nil _ (by decide)

/-- One byte before its end no line starts, if it ends in a carriage return and a newline. -/
theorem not_closed_take {piece : List Char} (hcrlf : EndsInCrlf piece) (front rest : List UInt8) :
    ¬ Lines.Closed 10 ((front ++ (Text.bytes (String.ofList piece) ++ rest)).take
      (front.length + (Text.bytes (String.ofList piece)).length - 1)) := by
  obtain ⟨before, rfl⟩ := hcrlf
  have hbytes : Text.bytes (String.ofList (before ++ ['\r', '\n']))
      = Text.bytes (String.ofList before) ++ [13] ++ [10] := by
    rw [String.ofList_append, Text.bytes_append, List.append_assoc]
    rfl
  have htake : (front ++ (Text.bytes (String.ofList (before ++ ['\r', '\n'])) ++ rest)).take
      (front.length + (Text.bytes (String.ofList (before ++ ['\r', '\n']))).length - 1)
      = front ++ Text.bytes (String.ofList before) ++ [13] := by
    rw [hbytes]
    simp only [← List.append_assoc]
    rw [List.append_assoc _ [10] rest]
    refine List.take_left' ?_
    simp only [List.length_append, List.length_singleton]
    omega
  rw [htake]
  rintro (hnil | hlast)
  · simp at hnil
  · rw [List.getLast?_append_of_ne_nil _ (by simp)] at hlast
    simp at hlast

/-- **The lines of a read start at their offsets exactly when** the read begins at the start of a
line and none but the last line ends in a carriage return and a newline. -/
theorem startsAt_tailLines_iff {pieces : List (List Char)} (front back : List UInt8)
    (hne : ∀ piece ∈ pieces, piece ≠ [])
    (hclosed : ∀ piece ∈ pieces.dropLast, piece.getLast? = some '\n') :
    (∀ line, Except.ok line ∈ tailLines path (pieces.map lineOf) front.length →
        StartsAt (front ++ (Text.bytes (String.ofList pieces.flatten) ++ back)) line) ↔
      pieces = [] ∨ Lines.Closed 10 front ∧ LfBetween pieces := by
  induction pieces generalizing front with
  | nil => simp [tailLines]
  | cons piece pieces ih =>
    have hsplit : front ++ (Text.bytes (String.ofList (piece :: pieces).flatten) ++ back)
        = front ++ (Text.bytes (String.ofList piece)
          ++ (Text.bytes (String.ofList pieces.flatten) ++ back)) := by
      rw [List.flatten_cons, String.ofList_append, Text.bytes_append, List.append_assoc]
    have hpiece := hne piece (List.mem_cons_self ..)
    rw [List.map_cons, tailLines, hsplit]
    simp only [List.mem_cons, Except.ok.injEq, or_imp, forall_and, forall_eq,
      startsAt_lineOf hpiece, List.cons_ne_nil, false_or]
    refine and_congr_right fun hfront => ?_
    cases pieces with
    | nil => simp [tailLines, LfBetween]
    | cons next pieces =>
      rw [List.dropLast_cons_cons, List.forall_mem_cons] at hclosed
      have hlen := len_lineOf hclosed.1
      rw [LfBetween, List.dropLast_cons_cons, List.forall_mem_cons]
      by_cases hcrlf : EndsInCrlf piece
      · -- the next line is looked for one byte before it starts
        refine iff_of_false (fun hall => ?_) fun h => h.1 hcrlf
        rw [if_pos hcrlf] at hlen
        have hstart := hall ⟨path, lineOf next, front.length + (Text.len (lineOf piece) + 1)⟩
          (List.mem_cons_self ..)
        have hinside := not_closed_take hcrlf front
          (Text.bytes (String.ofList (next :: pieces).flatten) ++ back)
        rw [show front.length + (Text.bytes (String.ofList piece)).length - 1
          = front.length + (Text.len (lineOf piece) + 1) by omega] at hinside
        exact hinside hstart.2.1
      · -- the next line is looked for where it starts, and the rest of the read goes on from there
        rw [if_neg hcrlf] at hlen
        have hnext : front.length + (Text.len (lineOf piece) + 1)
            = (front ++ Text.bytes (String.ofList piece)).length := by
          rw [List.length_append]
          omega
        have hrest := ih (front ++ Text.bytes (String.ofList piece))
          (fun p hp => hne p (List.mem_cons_of_mem _ hp)) hclosed.2
        rw [List.append_assoc] at hrest
        rw [hnext, hrest]
        simp [hcrlf, closed_bytes hclosed.1, LfBetween]

/-! ### With a receiver that leaves -/

section Taken

variable {α β : Type} (room : Option ℕ)

theorem taken_begins (l : List α) : taken room l <+: l := by
  unfold taken
  split
  · exact List.prefix_refl l
  · exact List.take_prefix _ l

theorem dropLast_taken_subset (l : List α) : (taken room l).dropLast ⊆ l.dropLast := by
  unfold taken
  split
  · exact List.Subset.refl _
  · rw [List.dropLast_take_eq_take_dropLast]
    exact List.take_subset _ _

theorem taken_map (f : α → β) (l : List α) : taken room (l.map f) = (taken room l).map f := by
  unfold taken
  split
  · rfl
  · exact (List.map_take ..).symm

theorem tailLines_taken (lines : List String) (offset : ℕ) :
    tailLines path (taken room lines) offset = taken room (tailLines path lines offset) := by
  cases room with
  | none => rfl
  | some n =>
    induction lines generalizing n offset with
    | nil => simp [taken, tailLines]
    | cons line lines ih =>
      cases n with
      | zero => rfl
      | succ n => simpa [taken, tailLines] using ih _ n

/-- A read sends what the receiver takes of its lines. -/
theorem sent_emitLines (path : Path) (lines : List String) (offset : ℕ) (tx : Sender) :
    (emitLines path lines offset tx).1.sent
      = tx.sent ++ tailLines path (taken tx.room lines) offset := by
  rw [tailLines_taken]
  induction lines generalizing offset tx with
  | nil => cases hroom : tx.room <;> simp [emitLines, tailLines, taken]
  | cons line lines ih =>
    obtain ⟨sent, room⟩ := tx
    -- the receiver stays, is gone, or is gone after `n` more lines
    rcases room with _ | _ | n
    · simp [emitLines, Sender.send, ih, tailLines, taken]
    · simp [emitLines, Sender.send, tailLines, taken]
    · simp [emitLines, Sender.send, ih, tailLines, taken]

end Taken

/-- The lines that are sent of a text start at their offsets under the same condition. -/
theorem startsAt_taken_iff (path : Path) (room : Option ℕ) (front : List UInt8) (text : String) :
    (∀ line, Except.ok line ∈ tailLines path (taken room (Text.lines text)) front.length →
        StartsAt (front ++ Text.bytes text) line) ↔
      taken room (Lines.pieces '\n' text.toList) = [] ∨
        Lines.Closed 10 front ∧ LfBetween (taken room (Lines.pieces '\n' text.toList)) := by
  obtain ⟨rest, hrest⟩ := taken_begins room (Lines.pieces '\n' text.toList)
  have htext : Text.bytes text
      = Text.bytes (String.ofList (taken room (Lines.pieces '\n' text.toList)).flatten)
        ++ Text.bytes (String.ofList rest.flatten) := by
    rw [← Text.bytes_append, ← String.ofList_append, ← List.flatten_append, hrest,
      Lines.pieces_flatten, String.ofList_toList]
  have hlines : taken room (Text.lines text)
      = (taken room (Lines.pieces '\n' text.toList)).map lineOf := by
    rw [← taken_map, Text.lines, Lines.lines, List.map_map]
    rfl
  rw [htext, hlines]
  refine startsAt_tailLines_iff _ _ (fun piece hpiece hnil => ?_) fun piece hpiece => ?_
  · rw [hnil] at hpiece
    exact Lines.nil_notMem_pieces _ ((taken_begins room _).subset hpiece)
  · exact Lines.closed_of_mem_dropLast_pieces text.toList piece
      (dropLast_taken_subset room _ hpiece)

end Read

/-! ## One event -/

section Events

variable {path : Path} {watchConfigs : List LogWatchConfig} {watchedDirs : List Path}
  {content : List UInt8} {s t : Tailing}

/-- The file holds `content` and is tailed from some position. -/
structure Held (path : Path) (content : List UInt8) (s : Tailing) : Prop where
  file : s.fs.file path = some ⟨content, true⟩
  tailed : s.st.tailedFiles path = true
  position : ∃ pos, s.st.positions path = some pos

/-- The lines that an event sends. -/
def newLines (path : Path) (s : Tailing) : List TailEvent :=
  if path.fileName.isSome then
    match Text.fromUtf8 ((onDisk path s).drop (resumesAt path s)) with
    | some text => tailLines path (taken s.tx.room (Text.lines text)) (resumesAt path s)
    | none => []
  else []

theorem Held.onDisk_eq (h : Held path content s) : onDisk path s = content := by
  simp [onDisk, h.file]

theorem mem_sent_send_error {tx : Sender} {e : SentinelError} {line : TailLine} :
    Except.ok line ∈ (tx.send (.error e)).1.sent ↔ Except.ok line ∈ tx.sent := by
  obtain ⟨sent, room⟩ := tx
  rcases room with _ | _ | n <;> simp [Sender.send]

/-- **What an event does**: the file is held as before, and the new lines are sent. -/
theorem Held.modified (h : Held path content s)
    (hstep : (tailing path watchConfigs watchedDirs).step s .modified = some t) :
    Held path content t ∧ ∀ line, Except.ok line ∈ t.tx.sent ↔
      Except.ok line ∈ s.tx.sent ∨ Except.ok line ∈ newLines path s := by
  obtain ⟨pos, hposition⟩ := h.position
  have hresumes : resumesAt path s = pos := by simp [resumesAt, hposition]
  have hfile := FileSystem.isFile_of_file h.file
  have ht : ∀ st tx,
      onEvent s.fs s.st ⟨.modifyData, [path]⟩ watchConfigs watchedDirs s.tx = (st, tx) →
        t = ⟨s.fs, st, tx⟩ := by
    intro st tx hevent
    simp only [tailing, hevent, Option.some.injEq] at hstep
    exact hstep.symm
  unfold newLines
  rw [h.onDisk_eq, hresumes]
  cases hname : path.fileName with
  | none =>
    obtain rfl := ht s.st s.tx (onEvent_data_skipped (Or.inr (Or.inl hname)) _ _ _)
    exact ⟨h, by simp⟩
  | some name =>
    have hread := FileSystem.readToStringFrom_eq h.file pos
    have hevent := onEvent_data hfile hname h.tailed hposition watchConfigs watchedDirs s.tx
    cases htext : Text.fromUtf8 (content.drop pos) with
    | none =>
      rw [hread, htext] at hevent
      obtain rfl := ht _ _ hevent
      exact ⟨⟨h.file, h.tailed, h.position⟩, by simp [mem_sent_send_error]⟩
    | some text =>
      rw [hread, htext] at hevent
      have hsent := sent_emitLines path (Text.lines text) pos s.tx
      rcases hemit : emitLines path (Text.lines text) pos s.tx with ⟨tx, offset, flag⟩
      simp only [hemit] at hsent hevent
      cases flag with
      | true =>
        obtain rfl := ht _ _ hevent
        exact ⟨⟨h.file, h.tailed, offset, by simp [setPosition]⟩, by simp [hsent]⟩
      | false =>
        -- the receiver left: what it took is sent, and the position stays where it was
        obtain rfl := ht _ _ hevent
        exact ⟨⟨h.file, h.tailed, h.position⟩, by simp [hsent]⟩

/-- The new lines start at their offsets under the condition on the step. -/
theorem newLines_startsAt_iff (s : Tailing) :
    (∀ line, Except.ok line ∈ newLines path s → StartsAt (onDisk path s) line) ↔
      ReadsWhole path s .modified := by
  unfold newLines ReadsWhole
  split
  · next hname =>
    simp only [hname, forall_const]
    cases htext : Text.fromUtf8 ((onDisk path s).drop (resumesAt path s)) with
    | none => simp
    | some text =>
      simp only [Option.mem_def, Option.some.injEq, forall_eq']
      by_cases hpast : resumesAt path s ≤ (onDisk path s).length
      · -- the content is what lies before the position and the text that is read
        have hfront : ((onDisk path s).take (resumesAt path s)).length = resumesAt path s :=
          List.length_take_of_le hpast
        have hread := startsAt_taken_iff path s.tx.room
          ((onDisk path s).take (resumesAt path s)) text
        rw [Text.bytes_of_fromUtf8 htext, List.take_append_drop, hfront] at hread
        exact hread
      · -- there is nothing past the end
        obtain rfl : text = "" := by
          rw [List.drop_eq_nil_of_le (by omega)] at htext
          exact (Option.some.inj htext).symm
        have hnil : ∀ {α : Type}, taken s.tx.room ([] : List α) = [] := fun {α} =>
          List.prefix_nil.mp (taken_begins s.tx.room [])
        simp [hnil, tailLines]
  · next hname => simp [hname]

/-- **What one step does to the offsets.** -/
theorem Held.step (h : Held path content s) {op : FileOp}
    (hstep : (tailing path watchConfigs watchedDirs).step s op = some t) :
    (∃ content', Held path content' t) ∧
      (OffsetsReal path s → ReadsWhole path s op → OffsetsReal path t) ∧
      (OffsetsReal path t → ReadsWhole path s op) := by
  cases op with
  | append b =>
    obtain rfl := Option.some.inj hstep
    have hheld : Held path (content ++ b) { s with fs := s.fs.append path b } :=
      ⟨FileSystem.file_append h.file b, h.tailed, h.position⟩
    refine ⟨⟨_, hheld⟩, fun hreal _ line hline => ?_, fun _ => trivial⟩
    rw [hheld.onDisk_eq]
    have hbefore := hreal line hline
    rw [h.onDisk_eq] at hbefore
    exact hbefore.append b
  | modified =>
    obtain ⟨hheld, hsent⟩ := h.modified hstep
    have hdisk : onDisk path t = onDisk path s := hheld.onDisk_eq.trans h.onDisk_eq.symm
    refine ⟨⟨_, hheld⟩, fun hreal hwhole line hline => ?_, fun hreal => ?_⟩
    · rw [hdisk]
      rcases (hsent line).mp hline with hold | hnew
      · exact hreal line hold
      · exact (newLines_startsAt_iff s).mpr hwhole line hnew
    · refine (newLines_startsAt_iff s).mp fun line hline => ?_
      rw [← hdisk]
      exact hreal line ((hsent line).mpr (Or.inr hline))

/-- An opened file is held, and the lines read at first start at their offsets exactly when none
that another one follows ends in a carriage return and a newline. -/
theorem held_openedFor (path : Path) (room : Option ℕ) (fs : FileSystem) (text : String) :
    Held path (Text.bytes text) (openedFor path room fs text) ∧
      (OffsetsReal path (openedFor path room fs text) ↔
        LfBetween (taken room (Lines.pieces '\n' text.toList))) := by
  have hread : (fs.write path ⟨Text.bytes text, true⟩).readToString path = .ok text := by
    rw [FileSystem.readToString, FileSystem.readToStringFrom_eq (FileSystem.file_write path _)]
    simp
  have hsent := sent_emitLines path (Text.lines text) 0 { room := room }
  rcases hemit : emitLines path (Text.lines text) 0 { room := room } with ⟨tx, offset, flag⟩
  simp only [hemit, List.nil_append] at hsent
  have hopened : openedFor path room fs text
      = ⟨fs.write path ⟨Text.bytes text, true⟩, (new [path]).setPosition path offset, tx⟩ := by
    simp [openedFor, report, readExistingLines, hread, hemit]
  have hheld : Held path (Text.bytes text) (openedFor path room fs text) := by
    rw [hopened]
    exact ⟨FileSystem.file_write path _, by simp [new, setPosition], offset, by simp [setPosition]⟩
  refine ⟨hheld, ?_⟩
  -- the first read begins at the start of the file, where a line starts
  have hlines := startsAt_taken_iff path room [] text
  rw [OffsetsReal, hheld.onDisk_eq, hopened]
  simp only [hsent]
  rw [show (0 : ℕ) = ([] : List UInt8).length from rfl, show Text.bytes text = [] ++ Text.bytes text
    from rfl, hlines]
  simp only [Lines.closed_nil, true_and, or_iff_right_iff_imp]
  intro hnone
  rw [hnone]
  exact List.forall_mem_nil _

end Events

/-! ## Whole runs -/

/-- **Every emitted line starts at its offset, in every state of a run, exactly when** the first
read has no carriage return and newline between two lines, and every later read begins at the start
of a line and has none either. -/
theorem always_offsetsReal_iff {path : Path} {watchConfigs : List LogWatchConfig}
    {watchedDirs : List Path} {room : Option ℕ} {fs : FileSystem} {content : String}
    {ops : List FileOp} {t : Tailing}
    (hrun : (tailing path watchConfigs watchedDirs).Run (openedFor path room fs content) ops t) :
    (tailing path watchConfigs watchedDirs).Always (OffsetsReal path)
        (openedFor path room fs content) ops ↔
      LfBetween (taken room (Lines.pieces '\n' content.toList)) ∧
        (tailing path watchConfigs watchedDirs).Along (ReadsWhole path)
          (openedFor path room fs content) ops := by
  obtain ⟨hopened, hfirst⟩ := held_openedFor path room fs content
  rw [← hfirst]
  have hheld : ∀ l u, (tailing path watchConfigs watchedDirs).Run (openedFor path room fs content)
      l u → ∃ content', Held path content' u := by
    intro l u hreached
    refine hreached.invariant (I := fun u => ∃ content', Held path content' u) ⟨_, hopened⟩
      fun v op w hv hstep => ?_
    obtain ⟨content', hv⟩ := hv
    exact (hv.step hstep).1
  have hexact : OffsetsReal path (openedFor path room fs content) →
      ((tailing path watchConfigs watchedDirs).Always (OffsetsReal path)
          (openedFor path room fs content) ops ↔
        (tailing path watchConfigs watchedDirs).Along (ReadsWhole path)
          (openedFor path room fs content) ops) := by
    intro hstart
    refine hrun.always_iff_along_of_keep hstart ?_ (fun _ => id) ?_
    · intro l u op v hreached hreal hwhole hstep
      obtain ⟨content', hu⟩ := hheld l u hreached
      exact (hu.step hstep).2.1 hreal hwhole
    · intro l u op v hreached hstep hv
      obtain ⟨content', hu⟩ := hheld l u hreached
      exact (hu.step hstep).2.2 hv
  constructor
  · intro halways
    have hstart := halways [] ops _ rfl .nil
    exact ⟨hstart, (hexact hstart).mp halways⟩
  · rintro ⟨hstart, halong⟩
    exact (hexact hstart).mpr halong

/-- A line whose newline is written after the rest of it was read, and another one. -/
theorem always_offsetsReal_app_log :
    (tailing accessLog [] []).Always (OffsetsReal accessLog)
      (openedFor accessLog none ⟨fun _ => none, fun _ => none⟩ "a\n")
      [.append (Text.bytes "bc"), .modified, .append (Text.bytes "\nd\ne\r\n"), .modified] := by
  obtain ⟨t, hrun⟩ := Machine.exists_run (M := tailing accessLog [] [])
    (s := openedFor accessLog none ⟨fun _ => none, fun _ => none⟩ "a\n")
    (l := [.append (Text.bytes "bc"), .modified, .append (Text.bytes "\nd\ne\r\n"), .modified])
    (by decide)
  exact (always_offsetsReal_iff hrun).mpr (by decide)

/-- **A line after a carriage return and a newline** is emitted with the offset of that newline. -/
theorem not_always_offsetsReal_crlf :
    ¬ (tailing accessLog [] []).Always (OffsetsReal accessLog)
      (openedFor accessLog none ⟨fun _ => none, fun _ => none⟩ "a\r\nb\n") [] := by
  intro halways
  have hstart := halways [] [] _ rfl .nil ⟨accessLog, "b", 2⟩ (by decide)
  exact absurd hstart (by decide)

end Sentinalysis.LogScanner.Offsets
