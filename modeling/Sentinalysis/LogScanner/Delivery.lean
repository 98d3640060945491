/-
# Sentinalysis.LogScanner.Delivery — which lines of an appended file the tailer emits.

A run is the life of one tailed file: it is opened with `read_existing_lines`, then its writer
appends bytes and `Modify(Data)` events are handled, in any order.  The tailer resumes from a
position it computes from lines whose terminators are already stripped, so the position is only
right under a condition on the run (`KeepsPosition`): no read sees a carriage return before a
newline, and a read that stops inside a line is followed by that line's newline.  On such runs the
emitted lines are those of the file (`lines_delivered`); a line written in two parts is enough to
leave them (`split_line_not_delivered`).
-/
import Sentinalysis.LogScanner.Tailer

namespace Sentinalysis.LogScanner.Delivery

open Lib TailerState

/-- What happens to a tailed file: its writer appends bytes, or the tailer handles a `Modify(Data)`
event on it. -/
inductive FileOp
  | append (b : List UInt8)
  | modified
  deriving DecidableEq, Repr

/-- The file system, the tailer's state and its sender. -/
structure Tailing where
  fs : FileSystem
  st : TailerState
  tx : Sender

/-- The file holds `content`, is tailed, and is read next from `pos`; the receiver stays. -/
structure Tails (path : Path) (content : List UInt8) (pos : ℕ) (s : Tailing) : Prop where
  file : s.fs.file path = some ⟨content, true⟩
  tailed : s.st.tailedFiles path = true
  position : s.st.positions path = some pos
  receiver : s.tx.room = none

section Machine

variable (path : Path) (watchConfigs : List LogWatchConfig) (watchedDirs : List Path)

/-- The state after a file with the given content is opened. -/
def opened (fs : FileSystem) (content : String) : Tailing :=
  let fs := fs.write path ⟨Text.bytes content, true⟩
  let (st, tx) := report (readExistingLines fs (new [path]) path {})
  ⟨fs, st, tx⟩

/-- The writer and the tailer of one file. -/
def tailing : Machine Tailing FileOp where
  step s
    | .append b => some { s with fs := s.fs.append path b }
    | .modified =>
      let (st, tx) := onEvent s.fs s.st ⟨.modifyData, [path]⟩ watchConfigs watchedDirs s.tx
      some { s with st := st, tx := tx }

/-- What the file holds. -/
def onDisk (s : Tailing) : List UInt8 := ((s.fs.file path).map RegularFile.content).getD []

/-- Where the next read of the file starts. -/
def resumesAt (s : Tailing) : ℕ := (s.st.positions path).getD 0

/-- The condition on one step, on the state before it.  When the position is past the end of the
file, because the last read stopped inside a line, whatever is appended next begins with the
newline of that line, and the line does not end in a carriage return.  The text that an event
reads has no carriage return before a newline. -/
def KeepsPosition (s : Tailing) : FileOp → Prop
  | .append b => (onDisk path s).length < resumesAt path s →
      b = [] ∨ (b.head? = some 10 ∧ (onDisk path s).getLast? ≠ some 13)
  | .modified => ∀ text ∈ Text.fromUtf8 ((onDisk path s).drop (resumesAt path s)),
      ¬ Text.HasCrlf text

instance (s : Tailing) : ∀ op, Decidable (KeepsPosition path s op)
  | .append _ => inferInstanceAs (Decidable (_ → _))
  | .modified => inferInstanceAs (Decidable (∀ _ ∈ _, _))

/-- Once one more event is handled, the emitted lines are the lines of the file. -/
def DeliversLines (fs : FileSystem) (content : String) (ops : List FileOp) : Prop :=
  ∀ t final, (tailing path watchConfigs watchedDirs).Run (opened path fs content)
      (ops ++ [.modified]) t →
    onDisk path t = Text.bytes final → Text.EndsAtLine final →
    t.tx.texts = Text.lines final

end Machine

section Invariant

variable {path : Path} {watchConfigs : List LogWatchConfig} {watchedDirs : List Path}

namespace Tails

variable {content : List UInt8} {pos : ℕ} {s : Tailing}

theorem onDisk_eq (h : Tails path content pos s) : onDisk path s = content := by
  simp [onDisk, h.file]

theorem resumesAt_eq (h : Tails path content pos s) : resumesAt path s = pos := by
  simp [resumesAt, h.position]

/-- An append changes the content and nothing else. -/
theorem append (h : Tails path content pos s) (b : List UInt8) :
    Tails path (content ++ b) pos { s with fs := s.fs.append path b } where
  file := FileSystem.file_append h.file b
  tailed := h.tailed
  position := h.position
  receiver := h.receiver

end Tails

/-- The resume position agrees with the lines emitted so far: either both stop at the same line
boundary of the file, or the whole file is read, stops inside a line, and the position is one past
its end. -/
def Aligned (path : Path) (s : Tailing) : Prop :=
  ∃ done : String, s.tx.texts = Text.lines done ∧
    ((∃ rest, Text.EndsAtLine done ∧
        Tails path (Text.bytes done ++ rest) (Text.len done) s) ∨
      (¬ Text.EndsAtLine done ∧ Tails path (Text.bytes done) (Text.len done + 1) s))

/-- What handling the event does, when the new bytes are a text. -/
theorem step_of_text {content : List UInt8} {pos : ℕ} {s : Tailing} {text : String}
    (hname : path.fileName.isSome) (h : Tails path content pos s)
    (htext : Text.fromUtf8 (content.drop pos) = some text) :
    (tailing path watchConfigs watchedDirs).step s .modified
      = some { s with
          st := s.st.setPosition path (pos + Text.resume text)
          tx := { s.tx with sent := s.tx.sent ++ tailLines path (Text.lines text) pos } } := by
  obtain ⟨name, hname⟩ := Option.isSome_iff_exists.mp hname
  have hread : s.fs.readToStringFrom path pos = .ok text := by
    rw [FileSystem.readToStringFrom_eq h.file, htext]
  have hevent := onEvent_data (FileSystem.isFile_of_file h.file) hname h.tailed h.position
    watchConfigs watchedDirs s.tx
  simp only [hread, emitLines_of_room_none _ _ _ h.receiver] at hevent
  simp only [tailing, hevent, Text.resume]

/-- When the new bytes are no text, no line is emitted and the position stays. -/
theorem step_of_not_text {content : List UInt8} {pos : ℕ} {s : Tailing}
    (hname : path.fileName.isSome) (h : Tails path content pos s)
    (htext : Text.fromUtf8 (content.drop pos) = none) :
    (tailing path watchConfigs watchedDirs).step s .modified
      = some { s with tx := { s.tx with sent := s.tx.sent ++ [.error (.Io .invalidData)] } } := by
  obtain ⟨name, hname⟩ := Option.isSome_iff_exists.mp hname
  have hread : s.fs.readToStringFrom path pos = .error .invalidData := by
    rw [FileSystem.readToStringFrom_eq h.file, htext]
  have hevent := onEvent_data (FileSystem.isFile_of_file h.file) hname h.tailed h.position
    watchConfigs watchedDirs s.tx
  simp only [hread, Sender.send_of_room_none h.receiver] at hevent
  simp only [tailing, hevent]

/-- A text read at a line boundary moves the position past it, one byte too far when it stops
inside a line. -/
theorem Tails.read {done text : String} {s : Tailing}
    (h : Tails path (Text.bytes done ++ Text.bytes text) (Text.len done) s)
    (hdone : Text.EndsAtLine done) (hcrlf : ¬ Text.HasCrlf text)
    (htexts : s.tx.texts = Text.lines done) (sent : List TailEvent)
    (hsent : ({ s.tx with sent := sent } : Sender).texts = s.tx.texts ++ Text.lines text) :
    Aligned path
      { s with
        st := s.st.setPosition path (Text.len done + Text.resume text)
        tx := { s.tx with sent := sent } } := by
  refine ⟨done ++ text, ?_, ?_⟩
  · rw [Text.lines_append hdone, ← htexts]
    exact hsent
  · rw [Text.resume_of_not_hasCrlf hcrlf, Text.endsAtLine_append hdone, Text.bytes_append,
      Text.len_append]
    by_cases hend : Text.EndsAtLine text
    · refine Or.inl ⟨[], hend, ?_⟩
      exact ⟨by simpa using h.file, h.tailed, by simp [setPosition, hend], h.receiver⟩
    · refine Or.inr ⟨hend, ?_⟩
      exact ⟨h.file, h.tailed, by simp [setPosition, hend, Nat.add_assoc], h.receiver⟩

theorem aligned_opened (fs : FileSystem) {content : String} (hcrlf : ¬ Text.HasCrlf content) :
    Aligned path (opened path fs content) := by
  have hread : (fs.write path ⟨Text.bytes content, true⟩).readToString path = .ok content := by
    rw [FileSystem.readToString, FileSystem.readToStringFrom_eq (FileSystem.file_write path _)]
    simp
  have hfresh : Tails path (Text.bytes "" ++ Text.bytes content) (Text.len "")
      ⟨fs.write path ⟨Text.bytes content, true⟩, (new [path]).setPosition path 0, {}⟩ :=
    ⟨by simp, by simp [new, setPosition], by simp [setPosition, Text.len], rfl⟩
  have := hfresh.read Text.endsAtLine_empty hcrlf rfl
    (tailLines path (Text.lines content) 0) (by
      simpa using texts_tailLines path (Text.lines content) 0 {})
  simpa [opened, report, readExistingLines, hread, emitLines_of_room_none, setPosition,
    Text.resume, Text.len] using this

/-- Appending keeps the position right as long as an open line is first completed. -/
theorem Aligned.append {s : Tailing} {b : List UInt8} (h : Aligned path s)
    (hkeeps : KeepsPosition path s (.append b)) :
    Aligned path { s with fs := s.fs.append path b } := by
  obtain ⟨done, htexts, ⟨rest, hend, htails⟩ | ⟨hopen, htails⟩⟩ := h
  · refine ⟨done, htexts, Or.inl ⟨rest ++ b, hend, ?_⟩⟩
    rw [← List.append_assoc]
    exact htails.append b
  · have hpast : (onDisk path s).length < resumesAt path s := by
      rw [htails.onDisk_eq, htails.resumesAt_eq]
      exact Nat.lt_succ_self _
    rcases hkeeps hpast with rfl | ⟨hhead, hcr⟩
    · refine ⟨done, htexts, Or.inr ⟨hopen, ?_⟩⟩
      simpa using htails.append []
    · obtain ⟨b, rfl⟩ : ∃ b', b = 10 :: b' := List.head?_eq_some_iff.mp hhead
      rw [htails.onDisk_eq] at hcr
      -- the newline completes the line that was emitted early
      refine ⟨done ++ "\n", ?_, Or.inl ⟨b, Text.endsAtLine_newline done, ?_⟩⟩
      · rw [Text.lines_newline hopen hcr]
        exact htexts
      · rw [Text.len_append, Text.bytes_append, List.append_assoc]
        exact htails.append (10 :: b)

/-- Handling the event keeps the position right as long as no carriage return and newline are
read. -/
theorem Aligned.modified {s : Tailing} (hname : path.fileName.isSome) (h : Aligned path s)
    (hkeeps : KeepsPosition path s .modified) {t : Tailing}
    (hstep : (tailing path watchConfigs watchedDirs).step s .modified = some t) :
    Aligned path t := by
  obtain ⟨done, htexts, ⟨rest, hend, htails⟩ | ⟨hopen, htails⟩⟩ := h
  · have hnew := Text.drop_len_bytes done rest
    rw [KeepsPosition, htails.onDisk_eq, htails.resumesAt_eq, hnew] at hkeeps
    cases htext : Text.fromUtf8 rest with
    | none =>
      rw [← hnew] at htext
      rw [step_of_not_text hname htails htext] at hstep
      obtain rfl := Option.some.inj hstep
      refine ⟨done, ?_, Or.inl ⟨rest, hend, htails.file, htails.tailed, htails.position,
        htails.receiver⟩⟩
      rw [← htexts]
      simp [Sender.texts, List.filterMap_append]
    | some text =>
      obtain rfl := Text.bytes_of_fromUtf8 htext
      rw [← hnew] at htext
      rw [step_of_text hname htails htext] at hstep
      obtain rfl := Option.some.inj hstep
      exact htails.read hend (hkeeps text (Text.fromUtf8_bytes text)) htexts _
        (texts_tailLines path _ _ s.tx)
  · -- the position is past the end, so nothing is read
    rw [step_of_text hname htails (Text.fromUtf8_drop_past done)] at hstep
    obtain rfl := Option.some.inj hstep
    refine ⟨done, ?_, Or.inr ⟨hopen, ?_⟩⟩
    · rw [← htexts]
      simp [tailLines]
    · exact ⟨htails.file, htails.tailed, by simp [setPosition], htails.receiver⟩

/-- Every step that meets the condition keeps the position right. -/
theorem Aligned.step (hname : path.fileName.isSome) {s t : Tailing} {op : FileOp}
    (h : Aligned path s) (hkeeps : KeepsPosition path s op)
    (hstep : (tailing path watchConfigs watchedDirs).step s op = some t) : Aligned path t := by
  cases op with
  | append b =>
    obtain rfl := Option.some.inj hstep
    exact h.append hkeeps
  | modified => exact h.modified hname hkeeps hstep

/-- On a run that meets the condition the position is right throughout. -/
theorem aligned_of_run (hname : path.fileName.isSome) {fs : FileSystem} {content : String}
    {ops : List FileOp} {t : Tailing} (hcrlf : ¬ Text.HasCrlf content)
    (hrun : (tailing path watchConfigs watchedDirs).Run (opened path fs content) ops t)
    (hkeeps : (tailing path watchConfigs watchedDirs).Along (KeepsPosition path)
      (opened path fs content) ops) :
    Aligned path t :=
  hrun.invariant_along (I := fun _ t => Aligned path t) hkeeps (aligned_opened fs hcrlf)
    fun _ _ _ _ h hk hs => h.step hname hk hs

/-- A read of a whole text file from an aligned state emits what is still missing. -/
theorem Aligned.texts_of_modified (hname : path.fileName.isSome) {s t : Tailing} {final : String}
    (h : Aligned path s)
    (hstep : (tailing path watchConfigs watchedDirs).step s .modified = some t)
    (hfinal : onDisk path t = Text.bytes final) : t.tx.texts = Text.lines final := by
  have hdisk : onDisk path s = onDisk path t := by
    simp only [tailing, Option.some.injEq] at hstep
    rw [← hstep]; rfl
  rw [← hdisk] at hfinal
  obtain ⟨done, htexts, ⟨rest, hend, htails⟩ | ⟨hopen, htails⟩⟩ := h
  · rw [htails.onDisk_eq] at hfinal
    obtain ⟨text, rfl, rfl⟩ := Text.exists_of_bytes_append hfinal
    have htext := Text.fromUtf8_bytes text
    rw [← Text.drop_len_bytes done (Text.bytes text)] at htext
    rw [step_of_text hname htails htext] at hstep
    obtain rfl := Option.some.inj hstep
    rw [Text.lines_append hend, ← htexts]
    exact texts_tailLines path _ _ s.tx
  · rw [htails.onDisk_eq] at hfinal
    obtain rfl := Text.bytes_injective hfinal
    rw [step_of_text hname htails (Text.fromUtf8_drop_past done)] at hstep
    obtain rfl := Option.some.inj hstep
    rw [← htexts]
    simp [tailLines]

end Invariant

/-- **Delivery.**  When the file has a UTF-8 name, its first content has no carriage return before
a newline and every step before the last event meets the condition, the emitted lines are the
lines of the file: none is lost, split, repeated or shortened. -/
theorem lines_delivered {path : Path} (watchConfigs : List LogWatchConfig)
    (watchedDirs : List Path) {fs : FileSystem} {content : String} {ops : List FileOp}
    (hname : path.fileName.isSome) (hcrlf : ¬ Text.HasCrlf content)
    (hkeeps : (tailing path watchConfigs watchedDirs).Along (KeepsPosition path)
      (opened path fs content) ops) :
    DeliversLines path watchConfigs watchedDirs fs content ops := by
  intro t final hrun hfinal _
  obtain ⟨s, hbefore, hlast⟩ := hrun.of_snoc
  exact (aligned_of_run hname hcrlf hbefore hkeeps).texts_of_modified hname hlast hfinal

/-- A log file for concrete runs. -/
def accessLog : Path := Path.join [.text "var", .text "log"] "app.log"

/-- A run that meets the condition: a whole line, then a line whose newline is written after the
rest of it was read, then two lines at once. -/
theorem lines_delivered_app_log :
    DeliversLines accessLog [] [] ⟨fun _ => none, fun _ => none⟩ "a\n"
      [.append (Text.bytes "bc"), .modified, .append (Text.bytes "\nd\ne\n")] :=
  lines_delivered [] [] (by decide) (by decide) (by decide)

/-- **A line written in two parts is torn.**  After `ab` the position is one past the end of the
file; the rest of the line is then read without its first byte. -/
theorem split_line_not_delivered :
    ¬ DeliversLines accessLog [] [] ⟨fun _ => none, fun _ => none⟩ ""
      [.append (Text.bytes "ab"), .modified, .append (Text.bytes "c\n")] := by
  intro h
  have htexts := h _ "abc\n" (Machine.run_of_exec rfl) (by decide) (by decide)
  exact absurd htexts (by decide)

end Sentinalysis.LogScanner.Delivery
