/-
# Sentinalysis.LogScanner.Stalls — whether an event brings a tailed file forward.

The tailer has two maps, and a file it tails may be in the first one only: its position is stored by
a read that did not fail.  A read is all or nothing, so that one byte that is not UTF-8 keeps back
all that stands behind the position.  Where an event does not bring the file forward, it leaves the
state as it was, and the next one finds the same.
-/
import Sentinalysis.LogScanner.Delivery
import Sentinalysis.LogScanner.Effects
import Sentinalysis.LogScanner.Startup

namespace Sentinalysis.LogScanner.Stalls

open Lib TailerState Startup Delivery

/-! ## Events after the initial read -/

/-- An event, and the files as they are when it is handled. -/
abbrev Label := FileSystem × Event

section Machine

variable (watchConfigs : List LogWatchConfig)

/-- The event arm of the tailing loop, which watches every configured directory. -/
def following : Machine (TailerState × Sender) Label where
  step s a := some (onEvent a.1 s.1 a.2 watchConfigs (watchConfigs.map LogWatchConfig.directory) s.2)

/-- The bytes of a tailed file after the last line that was emitted have a whole line. -/
def Due (fs : FileSystem) (st : TailerState) (path : Path) : Prop :=
  st.tailedFiles path = true ∧ ∃ content, fs.file path = some ⟨content, true⟩ ∧
    10 ∈ content.drop ((st.positions path).getD 0)

/-- A line of the file is emitted, or its position is stored or grows. -/
def Forward (path : Path) (s t : TailerState × Sender) : Prop :=
  (linesFrom path s.2.sent).length < (linesFrom path t.2.sent).length ∨
    ∃ pos, t.1.positions path = some pos ∧ ∀ before, s.1.positions path = some before → before < pos

/-- An event of a modification brings the file forward if a line is due. -/
def Progresses (s : TailerState × Sender) (a : Label) : Prop :=
  ∀ path, a.2 = ⟨.modifyData, [path]⟩ → Due a.1 s.1 path →
    ∀ t, (following watchConfigs).step s a = some t → Forward path s t

/-- The name is a text, a position is stored, what stands behind it is a text, and the receiver of
lines is there. -/
structure CanRead (fs : FileSystem) (s : TailerState × Sender) (path : Path) : Prop where
  name : path.fileName.isSome = true
  position : ∃ pos, s.1.positions path = some pos ∧ ∃ text, fs.readToStringFrom path pos = .ok text
  receiver : s.2.room ≠ some 0

/-- Where a line is due, the file can be read. -/
def Readable (s : TailerState × Sender) (a : Label) : Prop :=
  ∀ path, a.2 = ⟨.modifyData, [path]⟩ → Due a.1 s.1 path → CanRead a.1 s path

end Machine

/-! ## One event -/

section Events

variable {fs : FileSystem} {st : TailerState} {path : Path} {tx : Sender}
  {watchConfigs : List LogWatchConfig} {watchedDirs : List Path}

/-- With a receiver, the first line of a read goes through. -/
theorem emitLines_cons (path : Path) (hroom : tx.room ≠ some 0) (line : String) (lines : List String)
    (offset : ℕ) : ∃ tx', tx'.sent = tx.sent ++ [.ok ⟨path, line, offset⟩] ∧
      emitLines path (line :: lines) offset tx =
        emitLines path lines (offset + (Text.len line + 1)) tx' := by
  obtain ⟨sent, room⟩ := tx
  rcases room with _ | _ | n
  · exact ⟨_, rfl, rfl⟩
  · exact absurd rfl hroom
  · exact ⟨_, rfl, rfl⟩

/-- Without one, nothing goes through. -/
theorem emitLines_gone (hroom : tx.room = some 0) (line : String) (lines : List String)
    (offset : ℕ) : emitLines path (line :: lines) offset tx = (tx, offset, false) := by
  obtain ⟨sent, room⟩ := tx
  obtain rfl : room = some 0 := hroom
  rfl

/-- What was sent stays sent. -/
theorem emitLines_sent (path : Path) (lines : List String) (offset : ℕ) (tx : Sender) :
    ∃ more, (emitLines path lines offset tx).1.sent = tx.sent ++ more := by
  induction lines generalizing offset tx with
  | nil => exact ⟨[], (List.append_nil _).symm⟩
  | cons line lines ih =>
    by_cases hroom : tx.room = some 0
    · rw [emitLines_gone hroom]
      exact ⟨[], (List.append_nil _).symm⟩
    · obtain ⟨tx', hsent, heq⟩ := emitLines_cons path hroom line lines offset
      obtain ⟨more, hmore⟩ := ih (offset + (Text.len line + 1)) tx'
      rw [heq, hmore, hsent, List.append_assoc]
      exact ⟨_, rfl⟩

/-- The first line goes through, whatever becomes of the others. -/
theorem length_linesFrom_emitLines (path : Path) (hroom : tx.room ≠ some 0) (line : String)
    (lines : List String) (offset : ℕ) : (linesFrom path tx.sent).length <
      (linesFrom path (emitLines path (line :: lines) offset tx).1.sent).length := by
  obtain ⟨tx', hsent, heq⟩ := emitLines_cons path hroom line lines offset
  obtain ⟨more, hmore⟩ := emitLines_sent path lines (offset + (Text.len line + 1)) tx'
  have hone : linesFrom path [.ok ⟨path, line, offset⟩] = [⟨path, line, offset⟩] :=
    linesFrom_cons path line [] offset
  rw [heq, hmore, hsent, linesFrom_append, linesFrom_append, hone, List.length_append,
    List.length_append, List.length_singleton]
  omega

/-- A text with a newline has a line. -/
theorem lines_ne_nil {text : String} (h : 10 ∈ Text.bytes text) : Text.lines text ≠ [] := by
  intro hnil
  have hempty : Lines.lines '\n' '\r' text.toList = [] := List.map_eq_nil_iff.mp hnil
  have hpieces : Lines.pieces '\n' text.toList = [] := List.map_eq_nil_iff.mp hempty
  have htext : text.toList = [] := by
    by_contra hne
    exact Lines.pieces_ne_nil hne hpieces
  rw [← String.ofList_toList (s := text), htext] at h
  cases h

/-- An error on the channel is no line, whether it goes through or not. -/
theorem linesFrom_report_error (path : Path) (st : TailerState) (e : SentinelError) (tx : Sender) :
    linesFrom path (report (.error e, st, tx)).2.sent = linesFrom path tx.sent := by
  obtain ⟨sent, room⟩ := tx
  have hmore : linesFrom path (sent ++ [.error e]) = linesFrom path sent := by
    rw [linesFrom_append]
    exact List.append_nil _
  rcases room with _ | _ | n
  · exact hmore
  · rfl
  · exact hmore

/-- A text that is read from a file has the bytes of the file from the position on. -/
theorem bytes_of_readToStringFrom {content : List UInt8} {pos : ℕ} {text : String}
    (hfile : fs.file path = some ⟨content, true⟩)
    (hread : fs.readToStringFrom path pos = .ok text) : Text.bytes text = content.drop pos := by
  rw [FileSystem.readToStringFrom_eq hfile] at hread
  split at hread
  · next text' htext =>
    obtain rfl := Except.ok.inj hread
    exact Text.bytes_of_fromUtf8 htext
  · cases hread

/-- An event of a modification where a line is due: it emits one if the file can be read, and
otherwise leaves the state as it was. -/
theorem onEvent_of_due (tx : Sender) (watchConfigs : List LogWatchConfig)
    (watchedDirs : List Path) (hdue : Due fs st path) :
    (CanRead fs (st, tx) path ∧ Forward path (st, tx)
      (onEvent fs st ⟨.modifyData, [path]⟩ watchConfigs watchedDirs tx)) ∨
    (¬ CanRead fs (st, tx) path ∧
      (onEvent fs st ⟨.modifyData, [path]⟩ watchConfigs watchedDirs tx).1 = st ∧
      linesFrom path (onEvent fs st ⟨.modifyData, [path]⟩ watchConfigs watchedDirs tx).2.sent =
        linesFrom path tx.sent) := by
  obtain ⟨htailed, content, hfile, hline⟩ := hdue
  have hisFile := FileSystem.isFile_of_file hfile
  cases hname : path.fileName with
  | none =>
    rw [onEvent_data_skipped (Or.inr (Or.inl hname))]
    refine Or.inr ⟨?_, rfl, rfl⟩
    intro hcan
    have hsome := hcan.name
    rw [hname] at hsome
    cases hsome
  | some name =>
    cases hposition : st.positions path with
    | none =>
      rw [onEvent_data_skipped (Or.inr (Or.inr (Or.inr hposition)))]
      refine Or.inr ⟨?_, rfl, rfl⟩
      rintro ⟨-, ⟨pos, hpos, -⟩, -⟩
      rw [show st.positions path = some pos from hpos] at hposition
      cases hposition
    | some pos =>
      rw [onEvent_data hisFile hname htailed hposition]
      cases hread : fs.readToStringFrom path pos with
      | error e =>
        refine Or.inr ⟨?_, rfl, ?_⟩
        · rintro ⟨-, ⟨pos', hpos, text, htext⟩, -⟩
          obtain rfl : pos = pos' := Option.some.inj (hposition.symm.trans hpos)
          rw [hread] at htext
          cases htext
        · exact linesFrom_report_error path st (.Io e) tx
      | ok text =>
        have hbytes := bytes_of_readToStringFrom hfile hread
        rw [hposition, Option.getD_some, ← hbytes] at hline
        obtain ⟨line, lines, hlines⟩ := List.exists_cons_of_ne_nil (lines_ne_nil hline)
        dsimp only
        rw [hlines]
        by_cases hroom : tx.room = some 0
        · rw [emitLines_gone hroom]
          exact Or.inr ⟨fun hcan => hcan.receiver hroom, rfl, rfl⟩
        · have hlonger := length_linesFrom_emitLines path hroom line lines pos
          refine Or.inl ⟨⟨by rw [hname]; rfl, ⟨pos, hposition, text, hread⟩, hroom⟩, Or.inl ?_⟩
          rcases hsent : emitLines path (line :: lines) pos tx with ⟨tx', offset, _ | _⟩
          · rw [hsent] at hlonger
            exact hlonger
          · rw [hsent] at hlonger
            exact hlonger

theorem Forward.changes {s t : TailerState × Sender} (h : Forward path s t) (hstate : t.1 = s.1)
    (hlines : linesFrom path t.2.sent = linesFrom path s.2.sent) : False := by
  rcases h with hlonger | ⟨pos, hpos, hgrows⟩
  · rw [hlines] at hlonger
    exact Nat.lt_irrefl _ hlonger
  · rw [hstate] at hpos
    exact Nat.lt_irrefl _ (hgrows pos hpos)

theorem progresses_iff_readable {s : TailerState × Sender} {a : Label} :
    Progresses watchConfigs s a ↔ Readable s a := by
  obtain ⟨fs, event⟩ := a
  obtain ⟨st, tx⟩ := s
  constructor
  · rintro hforward path rfl hdue
    have hstep := hforward path rfl hdue _ rfl
    rcases onEvent_of_due tx watchConfigs (watchConfigs.map LogWatchConfig.directory) hdue with
      ⟨hcan, -⟩ | ⟨-, hstate, hlines⟩
    · exact hcan
    · exact (hstep.changes hstate hlines).elim
  · rintro hreadable path rfl hdue t hstep
    obtain rfl := Option.some.inj hstep
    rcases onEvent_of_due tx watchConfigs (watchConfigs.map LogWatchConfig.directory) hdue with
      ⟨-, hforward⟩ | ⟨hcannot, -, -⟩
    · exact hforward
    · exact absurd (hreadable path rfl hdue) hcannot

/-- A file without a position gets none, unless it is created anew. -/
theorem position_none_of_run {s t : TailerState × Sender} {more : List Label}
    (hnone : s.1.positions path = none)
    (hcreate : ∀ a ∈ more, a.2.kind = .create → path ∉ a.2.paths)
    (hrun : (following watchConfigs).Run s more t) : t.1.positions path = none := by
  induction hrun with
  | nil => exact hnone
  | @snoc more u a t _ hstep ih =>
    have hbefore := ih fun b hb => hcreate b (List.mem_append_left _ hb)
    have hlast := hcreate a (List.mem_append_right _ (List.mem_singleton_self a))
    obtain rfl := Option.some.inj hstep
    refine onEvent_induction (I := fun st => st.positions path = none) hbefore ?_ watchConfigs
      (watchConfigs.map LogWatchConfig.directory) u.2
    intro other hother st₁ st₂ hst heffect
    by_cases hne : path = other
    · subst hne
      cases heffect with
      | unchanged => exact hst
      | read _ _ _ hposition _ =>
        rw [hst] at hposition
        cases hposition
      | adopted _ hkind _ => exact absurd hother (hlast hkind)
      | forgotten _ _ => exact Function.update_self _ _ _
    · rw [(heffect.of_ne hne).2]
      exact hst

/-- **A tailed file in which a line is due is brought forward exactly when it can be read.**  Where
it cannot, the state stays as it was, so that the next event finds the same; and a file without a
position never gets one by being written to. -/
theorem progresses_iff (fs : FileSystem) (files : List Path) (watchConfigs : List LogWatchConfig)
    (tx : Sender) (labels : List Label) :
    ((following watchConfigs).Along (Progresses watchConfigs)
        (initialRead fs files watchConfigs tx) labels ↔
      (following watchConfigs).Along Readable (initialRead fs files watchConfigs tx) labels) ∧
    (∀ fs st tx path, Due fs st path → ¬ CanRead fs (st, tx) path →
      (onEvent fs st ⟨.modifyData, [path]⟩ watchConfigs
        (watchConfigs.map LogWatchConfig.directory) tx).1 = st) ∧
    ∀ s t path more, s.1.positions path = none →
      (∀ a ∈ more, a.2.kind = .create → path ∉ a.2.paths) →
      (following watchConfigs).Run s more t → t.1.positions path = none := by
  refine ⟨Machine.along_congr fun s a => progresses_iff_readable, ?_, ?_⟩
  · intro fs st tx path hdue hcannot
    rcases onEvent_of_due tx watchConfigs (watchConfigs.map LogWatchConfig.directory) hdue with
      ⟨hcan, -⟩ | ⟨-, hstate, -⟩
    · exact absurd hcan hcannot
    · exact hstate
  · intro s t path more hnone hcreate hrun
    exact position_none_of_run hnone hcreate hrun

end Events

/-! ## A file that begins with a byte that is not UTF-8 -/

/-- One log file with the given bytes. -/
def oneLog (content : List UInt8) : FileSystem where
  file := fun path => if path = accessLog then some ⟨content, true⟩ else none
  dir := fun _ => none

/-- The initial read of the file fails, and a line that is appended later is never emitted. -/
theorem not_progresses_invalidByte :
    ¬ (following []).Along (Progresses []) (initialRead (oneLog [0xFF, 10]) [accessLog] [] {})
      [(oneLog [0xFF, 10, 98, 10], ⟨.modifyData, [accessLog]⟩)] := by
  rw [Machine.along_cons, progresses_iff_readable]
  rintro ⟨hreadable, -⟩
  have hnone : (initialRead (oneLog [0xFF, 10]) [accessLog] [] {}).1.positions
      accessLog = none := by
    decide +kernel
  have hdue : Due (oneLog [0xFF, 10, 98, 10])
      (initialRead (oneLog [0xFF, 10]) [accessLog] [] {}).1 accessLog := by
    refine ⟨by decide +kernel, [0xFF, 10, 98, 10], by decide, ?_⟩
    rw [hnone]
    decide
  obtain ⟨pos, hpos, -⟩ := (hreadable _ rfl hdue).position
  rw [hnone] at hpos
  cases hpos

end Sentinalysis.LogScanner.Stalls
