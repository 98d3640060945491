/-
# Sentinalysis.LogScanner.Truncation — a tailed file is appended to, and emptied now and then.

The tailer reads on from its position, and a truncation leaves the position where it was.  What is
appended next is read from the middle, or not at all, until the file has grown past the position.
The bytes that were written and not emitted never become fewer, so that what is lost once stays
lost.
-/
import Sentinalysis.LogScanner.Delivery
import Sentinalysis.Lib.Utf8

namespace Sentinalysis.LogScanner.Truncation

open Lib TailerState Delivery

/-! ## The writer and the tailer -/

/-- The tailed file, and all that was written to it. -/
structure State extends Tailing where
  written : String

/-- What the writer does to the file: it appends whole lines, or empties the file. -/
inductive Label
  | append (text : String)
  | truncate
  deriving DecidableEq, Repr

/-- A truncation to length 0. -/
def truncate (fs : FileSystem) (path : Path) : FileSystem :=
  match fs.file path with
  | some file => fs.write path { file with content := [] }
  | none => fs

section Machine

variable (path : Path) (watchConfigs : List LogWatchConfig) (watchedDirs : List Path)

/-- A `Modify(Data)` event is handled after each change. -/
def changing : Machine State Label where
  step s
    | .append text =>
      if Text.LfLines text then
        ((tailing path watchConfigs watchedDirs).step
            { s.toTailing with fs := s.fs.append path (Text.bytes text) } .modified).map
          fun t => { toTailing := t, written := s.written ++ text }
      else none
    | .truncate =>
      ((tailing path watchConfigs watchedDirs).step
          { s.toTailing with fs := truncate s.fs path } .modified).map
        fun t => { toTailing := t, written := s.written }

/-- The file is opened with what is in it. -/
def start (fs : FileSystem) (content : String) : State where
  toTailing := opened path fs content
  written := content

/-- Every line that was written is emitted, whole and once. -/
def AllEmitted (s : State) : Prop := s.tx.texts.Perm (Text.lines s.written)

/-- Nothing is appended to a file that is shorter than the position. -/
def WithinFile (s : State) : Label → Prop
  | .append text => text ≠ "" → resumesAt path s.toTailing ≤ (onDisk path s.toTailing).length
  | .truncate => True

instance (s : State) : ∀ a, Decidable (WithinFile path s a)
  | .append _ => inferInstanceAs (Decidable (_ → _))
  | .truncate => .isTrue trivial

end Machine

/-! ## What one event reads -/

section Steps

variable {path : Path} {watchConfigs : List LogWatchConfig} {watchedDirs : List Path}
  {text : String} {pos : ℕ} {s t : Tailing}

/-- The bytes that the emitted lines stand for, each with its newline. -/
def emittedBytes (s : Tailing) : ℕ := (s.tx.texts.map fun line => Text.len line + 1).sum

/-- What an event does to a file of whole lines: it reads the rest, or it fails on a position inside
a character. -/
inductive Reads (path : Path) (text : String) (pos : ℕ) (s t : Tailing) : Prop
  | text (rest : String) (hrest : Text.bytes rest = (Text.bytes text).drop pos)
      (htails : Tails path (Text.bytes text) (pos + Text.resume rest) t)
      (htexts : t.tx.texts = s.tx.texts ++ Text.lines rest)
  | failed (hrest : Text.fromUtf8 ((Text.bytes text).drop pos) = none)
      (htails : Tails path (Text.bytes text) pos t) (htexts : t.tx.texts = s.tx.texts)

theorem reads_of_step (hname : path.fileName.isSome) (h : Tails path (Text.bytes text) pos s)
    (hstep : (tailing path watchConfigs watchedDirs).step s .modified = some t) :
    Reads path text pos s t := by
  cases hrest : Text.fromUtf8 ((Text.bytes text).drop pos) with
  | some rest =>
    rw [step_of_text hname h hrest] at hstep
    obtain rfl := Option.some.inj hstep
    refine Reads.text rest (Text.bytes_of_fromUtf8 hrest) ?_ (texts_tailLines path _ _ s.tx)
    exact ⟨h.file, h.tailed, by simp [setPosition], h.receiver⟩
  | none =>
    rw [step_of_not_text hname h hrest] at hstep
    obtain rfl := Option.some.inj hstep
    refine Reads.failed hrest ⟨h.file, h.tailed, h.position, h.receiver⟩ ?_
    simp [Sender.texts, List.filterMap_append]

/-- The rest of a file of whole lines, from anywhere on, is whole lines but for its beginning. -/
theorem lfLines_of_drop {rest : String} (h : Text.LfLines text)
    (hrest : Text.bytes rest = (Text.bytes text).drop pos) : Text.LfLines rest := by
  cases hbytes : Text.bytes rest with
  | nil =>
    obtain rfl : rest = "" := Text.bytes_injective hbytes
    exact Text.lfLines_empty
  | cons x more =>
    -- a text begins with a character, so that the position is between two
    have hhead : (Text.bytes text)[pos]? = some x := by
      rw [← List.head?_drop, ← hrest, hbytes]
      rfl
    have hlead : ¬ Text.IsContinuation x := by
      apply Text.not_isContinuation_of_head (s := rest)
      rw [hbytes]
      rfl
    obtain ⟨before, after, rfl, hlen⟩ := (Text.isBoundary_iff hhead).mpr hlead
    obtain rfl : rest = after := by
      apply Text.bytes_injective
      rw [hrest, Text.bytes_append, ← hlen, Text.drop_len_bytes]
    exact h.of_append

/-- An event emits no more than there is between the position and the end of the file. -/
theorem Reads.bytes (h : Reads path text pos s t) (htext : Text.LfLines text) :
    ∃ pos', Tails path (Text.bytes text) pos' t ∧
      emittedBytes t + (Text.len text - pos') = emittedBytes s + (Text.len text - pos) := by
  cases h with
  | text rest hrest htails htexts =>
    have hresume : Text.resume rest = Text.len text - pos := by
      rw [(lfLines_of_drop htext hrest).resume_eq, Text.len, hrest, List.length_drop]
      rfl
    have hemitted : emittedBytes t = emittedBytes s + Text.resume rest := by
      unfold emittedBytes
      rw [htexts, List.map_append, List.sum_append]
      rfl
    refine ⟨_, htails, ?_⟩
    omega
  | failed _ htails htexts =>
    refine ⟨pos, htails, ?_⟩
    unfold emittedBytes
    rw [htexts]

end Steps

/-! ## What one change does -/

/-- The file after a change. -/
def Label.after : Label → String → String
  | .append text, content => content ++ text
  | .truncate, _ => ""

/-- What a change adds to what was written. -/
def Label.adds : Label → String
  | .append text => text
  | .truncate => ""

section Changes

variable {path : Path} {watchConfigs : List LogWatchConfig} {watchedDirs : List Path}
  {content : String} {pos : ℕ} {s t : State} {a : Label}

/-- A change, and the event of it. -/
structure Changes (path : Path) (content : String) (pos : ℕ) (s : State) (a : Label) (t : State) :
    Prop where
  reads : Reads path (a.after content) pos s.toTailing t.toTailing
  written : t.written = s.written ++ a.adds
  adds : Text.LfLines a.adds

theorem file_truncate {fs : FileSystem} {file : RegularFile} (h : fs.file path = some file) :
    (truncate fs path).file path = some { file with content := [] } := by
  rw [truncate, h]
  exact FileSystem.file_write path _

theorem changes_of_step (hname : path.fileName.isSome)
    (h : Tails path (Text.bytes content) pos s.toTailing)
    (hstep : (changing path watchConfigs watchedDirs).step s a = some t) :
    Changes path content pos s a t := by
  cases a with
  | append text =>
    simp only [changing, Option.ite_none_right_eq_some] at hstep
    obtain ⟨htext, hstep⟩ := hstep
    obtain ⟨u, hevent, rfl⟩ := Option.map_eq_some_iff.mp hstep
    have happended := h.append (Text.bytes text)
    rw [← Text.bytes_append] at happended
    refine ⟨?_, rfl, htext⟩
    cases reads_of_step hname happended hevent with
    | text rest hrest htails htexts => exact Reads.text rest hrest htails htexts
    | failed hrest htails htexts => exact Reads.failed hrest htails htexts
  | truncate =>
    simp only [changing, Option.map_eq_some_iff] at hstep
    obtain ⟨u, hevent, rfl⟩ := hstep
    have hemptied : Tails path (Text.bytes "") pos
        { s.toTailing with fs := truncate s.fs path } :=
      ⟨file_truncate h.file, h.tailed, h.position, h.receiver⟩
    refine ⟨?_, (String.append_empty ..).symm, Text.lfLines_empty⟩
    cases reads_of_step hname hemptied hevent with
    | text rest hrest htails htexts => exact Reads.text rest hrest htails htexts
    | failed hrest htails htexts => exact Reads.failed hrest htails htexts

theorem lfLines_after (h : Text.LfLines content) (hadds : Text.LfLines a.adds) :
    Text.LfLines (a.after content) := by
  cases a with
  | append text => exact h.append hadds
  | truncate => exact Text.lfLines_empty

/-! ## Runs -/

/-- Nothing is emitted, or left to be read, that was not written. -/
structure Bounded (path : Path) (s : State) : Prop where
  written : Text.LfLines s.written
  file : ∃ content pos, Tails path (Text.bytes content) pos s.toTailing ∧ Text.LfLines content ∧
    emittedBytes s.toTailing + (Text.len content - pos) ≤ Text.len s.written

/-- Everything that was written is emitted, and the position is at the end of the file, or the file
was emptied. -/
structure Level (path : Path) (s : State) : Prop where
  written : Text.LfLines s.written
  texts : s.tx.texts = Text.lines s.written
  file : ∃ content pos, Tails path (Text.bytes content) pos s.toTailing ∧ Text.LfLines content ∧
    (pos = Text.len content ∨ content = "")

theorem Bounded.step (hname : path.fileName.isSome) (h : Bounded path s)
    (hstep : (changing path watchConfigs watchedDirs).step s a = some t) : Bounded path t := by
  obtain ⟨content, pos, htails, hcontent, hle⟩ := h.file
  have hchange := changes_of_step hname htails hstep
  have hafter := lfLines_after hcontent hchange.adds
  obtain ⟨pos', htails', hbytes⟩ := hchange.reads.bytes hafter
  refine ⟨?_, _, pos', htails', hafter, ?_⟩
  · rw [hchange.written]
    exact h.written.append hchange.adds
  · rw [hbytes, hchange.written, Text.len_append]
    cases a with
    | append text =>
      show _ + (Text.len (content ++ text) - pos) ≤ _ + Text.len text
      rw [Text.len_append]
      omega
    | truncate =>
      show _ + (Text.len "" - pos) ≤ _ + Text.len ""
      rw [show Text.len "" = 0 from rfl]
      omega

/-- As many bytes are emitted as were written. -/
theorem AllEmitted.bytes (h : AllEmitted s) (hwritten : Text.LfLines s.written) :
    emittedBytes s.toTailing = Text.len s.written := by
  rw [← hwritten.resume_eq]
  exact (h.map _).sum_eq

/-- What is appended beyond the end of the file is lost. -/
theorem Bounded.withinFile (hname : path.fileName.isSome) (h : Bounded path s)
    (hstep : (changing path watchConfigs watchedDirs).step s a = some t) (hall : AllEmitted t) :
    WithinFile path s a := by
  obtain ⟨content, pos, htails, hcontent, hle⟩ := h.file
  have hchange := changes_of_step hname htails hstep
  have hafter := lfLines_after hcontent hchange.adds
  obtain ⟨pos', -, hbytes⟩ := hchange.reads.bytes hafter
  have hequal := hall.bytes (h.step hname hstep).written
  rw [hchange.written, Text.len_append] at hequal
  cases a with
  | append text =>
    intro hne
    rw [htails.resumesAt_eq, htails.onDisk_eq]
    by_contra hpast
    have hpast : Text.len content < pos := not_le.mp hpast
    have hpos : 0 < Text.len text := by
      apply Nat.pos_of_ne_zero
      intro hzero
      exact hne (Text.bytes_injective (List.length_eq_zero_iff.mp hzero))
    have hbytes' : emittedBytes t.toTailing + (Text.len (content ++ text) - pos') =
        emittedBytes s.toTailing + (Text.len (content ++ text) - pos) := hbytes
    have hequal' : emittedBytes t.toTailing = Text.len s.written + Text.len text := hequal
    rw [Text.len_append] at hbytes'
    omega
  | truncate => exact trivial

theorem Level.step (hname : path.fileName.isSome) (h : Level path s)
    (hwithin : WithinFile path s a)
    (hstep : (changing path watchConfigs watchedDirs).step s a = some t) : Level path t := by
  obtain ⟨content, pos, htails, hcontent, hlevel⟩ := h.file
  have hchange := changes_of_step hname htails hstep
  have hafter := lfLines_after hcontent hchange.adds
  -- what is left to be read is what the change added
  have hrest : (Text.bytes (a.after content)).drop pos = Text.bytes a.adds ∧
      (pos + Text.len a.adds = Text.len (a.after content) ∨ a.after content = "") := by
    cases a with
    | append text =>
      show (Text.bytes (content ++ text)).drop pos = Text.bytes text ∧
        (pos + Text.len text = Text.len (content ++ text) ∨ content ++ text = "")
      rcases hlevel with rfl | rfl
      · rw [Text.bytes_append, Text.drop_len_bytes, Text.len_append]
        exact ⟨rfl, Or.inl rfl⟩
      · by_cases hne : text = ""
        · subst hne
          exact ⟨List.drop_nil, Or.inr rfl⟩
        · have hzero := hwithin hne
          rw [htails.resumesAt_eq, htails.onDisk_eq] at hzero
          obtain rfl : pos = 0 := Nat.le_zero.mp hzero
          rw [Text.bytes_append, Text.len_append]
          exact ⟨rfl, Or.inl rfl⟩
    | truncate => exact ⟨List.drop_nil, Or.inr rfl⟩
  cases hchange.reads with
  | text rest hbytes htails' htexts =>
    obtain rfl : rest = a.adds := Text.bytes_injective (hbytes.trans hrest.1)
    refine ⟨?_, ?_, _, _, htails', hafter, ?_⟩
    · rw [hchange.written]
      exact h.written.append hchange.adds
    · rw [htexts, h.texts, hchange.written, Text.lines_append h.written.1]
    · rw [hchange.adds.resume_eq]
      exact hrest.2
  | failed hnone _ _ =>
    rw [hrest.1, Text.fromUtf8_bytes] at hnone
    cases hnone

/-- A file that is opened is level. -/
theorem level_start (fs : FileSystem) {content : String} (hcontent : Text.LfLines content) :
    Level path (start path fs content) := by
  have hread : (fs.write path ⟨Text.bytes content, true⟩).readToString path = .ok content := by
    rw [FileSystem.readToString, FileSystem.readToStringFrom_eq (FileSystem.file_write path _)]
    simp
  have hopened : opened path fs content = ⟨fs.write path ⟨Text.bytes content, true⟩,
      (new [path]).setPosition path (Text.resume content),
      { sent := tailLines path (Text.lines content) 0 }⟩ := by
    simp [opened, report, readExistingLines, hread, emitLines_of_room_none, Text.resume]
  refine ⟨hcontent, ?_, content, Text.len content, ?_, hcontent, Or.inl rfl⟩
  · show (opened path fs content).tx.texts = _
    rw [hopened]
    exact texts_tailLines path (Text.lines content) 0 {}
  · show Tails path _ _ (opened path fs content)
    rw [hopened, hcontent.resume_eq]
    exact ⟨by simp, by simp [new, setPosition], by simp [setPosition], rfl⟩

theorem Level.bounded (h : Level path s) : Bounded path s := by
  obtain ⟨content, pos, htails, hcontent, hlevel⟩ := h.file
  refine ⟨h.written, content, pos, htails, hcontent, ?_⟩
  have hall : AllEmitted s := by
    unfold AllEmitted
    rw [h.texts]
  rw [hall.bytes h.written]
  rcases hlevel with rfl | rfl
  · omega
  · rw [show Text.len "" = 0 from rfl]
    omega

/-- **Truncations are survived exactly when nothing is appended to a file that is shorter than the
position.** -/
theorem allEmitted_iff (hname : path.fileName.isSome) {fs : FileSystem}
    (hcontent : Text.LfLines content) {labels : List Label}
    (hrun : (changing path watchConfigs watchedDirs).Run (start path fs content) labels s) :
    (changing path watchConfigs watchedDirs).Always AllEmitted (start path fs content) labels ↔
      (changing path watchConfigs watchedDirs).Along (WithinFile path) (start path fs content)
        labels := by
  have hstart : Level path (start path fs content) := level_start fs hcontent
  refine hrun.always_iff_along_of_keep hstart ?_ ?_ ?_
  · intro labels s a t _ hlevel hwithin hstep
    exact hlevel.step hname hwithin hstep
  · intro s hlevel
    unfold AllEmitted
    rw [hlevel.texts]
  · intro labels s a t hrun hstep hall
    have hbounded : Bounded path s := by
      refine hrun.invariant hstart.bounded ?_
      intro s a t h hstep
      exact h.step hname hstep
    exact hbounded.withinFile hname hstep hall

end Changes

/-! ## A file that is rotated by copying -/

/-- The machine of the runs below. -/
def accessLogChanges : Machine State Label := changing accessLog [] []

/-- The file with one line. -/
def oneLine : State := start accessLog ⟨fun _ => none, fun _ => none⟩ "first\n"

/-- Lines are appended, and the file is emptied at last. -/
def emptiedAtLast : List Label := [.append "second\n", .append "third\nfourth\n", .truncate]

theorem allEmitted_emptiedAtLast : ∃ s, accessLogChanges.Run oneLine emptiedAtLast s ∧
    s.tx.texts = ["first", "second", "third", "fourth"] ∧
    accessLogChanges.Always AllEmitted oneLine emptiedAtLast := by
  have hexec : (accessLogChanges.exec oneLine emptiedAtLast).any (fun s =>
      s.tx.texts = ["first", "second", "third", "fourth"]) = true := by
    decide +kernel
  obtain ⟨s, hrun, h⟩ := Machine.exists_run_any hexec
  exact ⟨s, hrun, of_decide_eq_true h,
    (allEmitted_iff (by decide) (by decide) hrun).mpr (by decide +kernel)⟩

/-- The file is emptied, and a shorter line is appended. -/
def emptiedBetween : List Label := [.truncate, .append "next\n"]

/-- **What is appended after a truncation is lost.** -/
theorem not_allEmitted_emptiedBetween : ∃ s, accessLogChanges.Run oneLine emptiedBetween s ∧
    s.tx.texts = ["first"] ∧ Text.lines s.written = ["first", "next"] ∧ ¬ AllEmitted s := by
  have hexec : (accessLogChanges.exec oneLine emptiedBetween).any (fun s =>
      s.tx.texts = ["first"] ∧ Text.lines s.written = ["first", "next"]) = true := by
    decide +kernel
  obtain ⟨s, hrun, h⟩ := Machine.exists_run_any hexec
  obtain ⟨htexts, hlines⟩ := of_decide_eq_true h
  refine ⟨s, hrun, htexts, hlines, ?_⟩
  intro hall
  have hlength := hall.length_eq
  rw [htexts, hlines] at hlength
  cases hlength

end Sentinalysis.LogScanner.Truncation
