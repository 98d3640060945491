/-
# Sentinalysis.LogScanner.Startup — a tailer starts while files are created and written.

The tailer registers its watches first, then reads what is there, and only then handles the events
that have queued up since.  A file that is created in between is read twice over: once as an
existing file, and once more when the event of its creation is handled, which puts its position back
to the start.  As long as no event does that to a file from which something was read, the lines sent
for a file are its first lines, each once.
-/
import Sentinalysis.LogScanner.Adoption

namespace Sentinalysis.LogScanner.Startup

open Lib TailerState

/-! ## The tailer and its surroundings -/

/-- The steps of the tailer: what is still to be watched, read or listed, or handling events. -/
inductive Phase
  | registering (targets : List Path)
  | reading (files : List Path)
  | discovering (watchConfigs : List LogWatchConfig)
  | listing (cfg : LogWatchConfig) (entries : List Path) (watchConfigs : List LogWatchConfig)
  | handling

/-- The files, the watches and the queue of events; the tailer and the channel of lines. -/
structure State where
  fs : FileSystem
  watched : List Path := []
  queue : List Event := []
  phase : Phase
  st : TailerState
  tx : Sender := {}

inductive Label
  /-- An empty file appears in a directory. -/
  | create (dir : Path) (component : OsString) (readable : Bool) (events : ℕ)
  /-- Whole lines are appended to a file. -/
  | append (path : Path) (text : String) (events : ℕ)
  /-- The tailer registers the next watch. -/
  | watch
  /-- It reads the next configured file. -/
  | readFile
  /-- It lists the next directory. -/
  | list
  /-- It looks at the next entry of the listing. -/
  | readEntry
  /-- It handles the next event. -/
  | handle
  deriving DecidableEq, Repr

/-- A new file, in the listing of its directory. -/
def createFile (fs : FileSystem) (dir : Path) (component : OsString) (readable : Bool)
    (entries : List Path) : FileSystem where
  file := Function.update fs.file (dir ++ [component]) (some ⟨[], readable⟩)
  dir := Function.update fs.dir dir (some (entries ++ [dir ++ [component]]))

/-- Events about a path in a directory, if one of the two is watched; the queue may drop them, and
two watches report twice. -/
def State.notify (s : State) (dir path : Path) (kind : EventKind) (events : ℕ) : List Event :=
  if dir ∈ s.watched ∨ path ∈ s.watched then
    s.queue ++ List.replicate events ⟨kind, [path]⟩
  else s.queue

/-- The writer and the tailer, which starts with configured files and directories. -/
def starting (files : List Path) (watchConfigs : List LogWatchConfig) : Machine State Label where
  step s
    | .create dir component readable events =>
      match s.fs.file (dir ++ [component]), s.fs.dir dir with
      | none, some entries => some { s with
          fs := createFile s.fs dir component readable entries
          queue := s.notify dir (dir ++ [component]) .create events }
      | _, _ => none
    | .append path text events =>
      if (s.fs.file path).isSome ∧ Text.LfLines text then
        some { s with
          fs := s.fs.append path (Text.bytes text)
          queue := s.notify path.dropLast path .modifyData events }
      else none
    | .watch => match s.phase with
      | .registering (target :: targets) =>
        if s.fs.isFile target ∨ (s.fs.dir target).isSome then
          some { s with watched := target :: s.watched, phase := .registering targets }
        else some { s with phase := .registering targets }
      | .registering [] => some { s with phase := .reading files }
      | _ => none
    | .readFile => match s.phase with
      | .reading (file :: files) =>
        let (st, tx) := report (readExistingLines s.fs s.st file s.tx)
        some { s with st := st, tx := tx, phase := .reading files }
      | .reading [] => some { s with phase := .discovering watchConfigs }
      | _ => none
    | .list => match s.phase with
      | .discovering (cfg :: watchConfigs) => match s.fs.readDir cfg.directory with
        | .ok entries => some { s with phase := .listing cfg entries watchConfigs }
        | .error e =>
          some { s with tx := (s.tx.send (.error (.Io e))).1, phase := .discovering watchConfigs }
      | .discovering [] => some { s with phase := .handling }
      | _ => none
    | .readEntry => match s.phase with
      | .listing cfg (entry :: entries) watchConfigs =>
        let (st, tx) := discoverEntry s.fs cfg (s.st, s.tx) entry
        some { s with st := st, tx := tx, phase := .listing cfg entries watchConfigs }
      | .listing _ [] watchConfigs => some { s with phase := .discovering watchConfigs }
      | _ => none
    | .handle => match s.phase, s.queue with
      | .handling, event :: queue =>
        let (st, tx) := onEvent s.fs s.st event watchConfigs
          (watchConfigs.map LogWatchConfig.directory) s.tx
        some { s with st := st, tx := tx, queue := queue }
      | _, _ => none

/-- A tailer that has not taken a step, and directories without files. -/
def initial (dirs files : List Path) (watchConfigs : List LogWatchConfig) : State where
  fs := { file := fun _ => none, dir := fun path => if path ∈ dirs then some [] else none }
  phase := .registering (files ++ watchConfigs.map LogWatchConfig.directory)
  st := TailerState.new files

/-! ## What was sent -/

/-- A line of the file. -/
def lineFrom (path : Path) : TailEvent → Option TailLine
  | .ok line => if line.filePath = path then some line else none
  | .error _ => none

/-- The lines sent for a file. -/
def linesFrom (path : Path) (sent : List TailEvent) : List TailLine :=
  sent.filterMap (lineFrom path)

/-- No place of a file was sent twice: a line stands at its byte offset. -/
def SentOnce (s : State) : Prop :=
  ∀ path, ((linesFrom path s.tx.sent).map TailLine.byteOffset).Nodup

/-- Nothing was read from the file yet. -/
def Unread (st : TailerState) (path : Path) : Prop := (st.positions path).getD 0 = 0

/-- A file from which something was read is not read from its start: no event of a creation adopts
it, and it is not configured a second time. -/
def ReadsFresh (watchConfigs : List LogWatchConfig) (s : State) : Label → Prop
  | .readFile => match s.phase with
    | .reading (file :: _) => Unread s.st file
    | _ => True
  | .handle => match s.queue with
    | event :: _ => event.kind = .create →
        ∀ path ∈ event.paths, AdoptsCreated watchConfigs path → Unread s.st path
    | [] => True
  | _ => True

section Lines

variable {path other : Path}

@[simp] theorem linesFrom_nil : linesFrom path [] = [] := rfl

theorem linesFrom_append (a b : List TailEvent) :
    linesFrom path (a ++ b) = linesFrom path a ++ linesFrom path b := List.filterMap_append

theorem linesFrom_tailLines_of_ne (h : other ≠ path) (lines : List String) (offset : ℕ) :
    linesFrom path (tailLines other lines offset) = [] := by
  induction lines generalizing offset with
  | nil => rfl
  | cons line lines ih =>
    have hline : lineFrom path (.ok ⟨other, line, offset⟩) = none := if_neg h
    rw [tailLines, linesFrom, List.filterMap_cons_none hline]
    exact ih _

theorem linesFrom_cons (path : Path) (line : String) (lines : List String) (offset : ℕ) :
    linesFrom path (tailLines path (line :: lines) offset) =
      ⟨path, line, offset⟩ ::
        linesFrom path (tailLines path lines (offset + (Text.len line + 1))) := by
  have hline : lineFrom path (.ok ⟨path, line, offset⟩) = some ⟨path, line, offset⟩ := if_pos rfl
  rw [tailLines, linesFrom, List.filterMap_cons_some hline]
  rfl

/-- The lines of a read are lines of its file. -/
theorem map_line_linesFrom (path : Path) (lines : List String) (offset : ℕ) :
    (linesFrom path (tailLines path lines offset)).map TailLine.line = lines := by
  induction lines generalizing offset with
  | nil => rfl
  | cons line lines ih => rw [linesFrom_cons, List.map_cons, ih]

/-- Lines after other lines start where those end. -/
theorem linesFrom_tailLines_append (path : Path) (a b : List String) (offset : ℕ) :
    linesFrom path (tailLines path (a ++ b) offset) = linesFrom path (tailLines path a offset) ++
      linesFrom path (tailLines path b (offset + (a.map fun line => Text.len line + 1).sum)) := by
  induction a generalizing offset with
  | nil => rfl
  | cons line a ih =>
    rw [List.cons_append, linesFrom_cons, linesFrom_cons, ih, List.map_cons, List.sum_cons,
      List.cons_append, Nat.add_assoc]

/-- Each line of a read stands after the one before it. -/
theorem nodup_offsets (path : Path) (lines : List String) (offset : ℕ) :
    ((linesFrom path (tailLines path lines offset)).map TailLine.byteOffset).Nodup := by
  suffices h : ∀ offset, ((linesFrom path (tailLines path lines offset)).map
      TailLine.byteOffset).Pairwise (· < ·) ∧
      ∀ o ∈ (linesFrom path (tailLines path lines offset)).map TailLine.byteOffset, offset ≤ o by
    exact (h offset).1.imp Nat.ne_of_lt
  induction lines with
  | nil => exact fun _ => ⟨List.Pairwise.nil, fun _ h => (by cases h)⟩
  | cons line lines ih =>
    intro offset
    obtain ⟨hpairwise, hbound⟩ := ih (offset + (Text.len line + 1))
    rw [linesFrom_cons, List.map_cons]
    refine ⟨List.pairwise_cons.mpr ⟨?_, hpairwise⟩, ?_⟩
    · intro o ho
      have hlater := hbound o ho
      show offset < o
      omega
    · intro o ho
      rcases List.mem_cons.mp ho with rfl | ho
      · exact Nat.le_refl _
      · have hlater := hbound o ho
        omega

end Lines

/-! ## The first lines of a file, each once -/

/-- Every file is a text of whole lines. -/
def WholeLines (fs : FileSystem) : Prop :=
  ∀ path file, fs.file path = some file → ∃ text, Text.bytes text = file.content ∧ Text.LfLines text

/-- What a file holds; nothing, if it is not there. -/
def onDisk (fs : FileSystem) (path : Path) : List UInt8 :=
  ((fs.file path).map RegularFile.content).getD []

/-- A beginning of the file is done: its lines were sent, and the position is at its end. -/
structure Done (fs : FileSystem) (st : TailerState) (sent : List TailEvent) (path : Path)
    (text : String) : Prop where
  lines : Text.LfLines text
  content : Text.bytes text <+: onDisk fs path
  sent : linesFrom path sent = linesFrom path (tailLines path (Text.lines text) 0)
  position : (st.positions path).getD 0 = Text.len text
  tailed : st.tailedFiles path = false → text = ""

/-- Of every file, some beginning is done. -/
def AllDone (fs : FileSystem) (st : TailerState) (sent : List TailEvent) : Prop :=
  ∀ path, ∃ text, Done fs st sent path text

section Reading

variable {fs : FileSystem} {st st' : TailerState} {sent more : List TailEvent} {path : Path}
  {tx : Sender}

/-- What does not touch a file keeps what is done of it. -/
theorem Done.frame {fs' : FileSystem} {text : String} (h : Done fs st sent path text)
    (hcontent : onDisk fs path <+: onDisk fs' path)
    (hposition : st'.positions path = st.positions path)
    (htailed : st.tailedFiles path = true → st'.tailedFiles path = true)
    (hmore : linesFrom path more = []) : Done fs' st' (sent ++ more) path text where
  lines := h.lines
  content := h.content.trans hcontent
  sent := by rw [linesFrom_append, hmore, List.append_nil, h.sent]
  position := by rw [hposition, h.position]
  tailed := by
    intro huntailed
    apply h.tailed
    cases hbefore : st.tailedFiles path with
    | false => rfl
    | true =>
      rw [htailed hbefore] at huntailed
      cases huntailed

/-- An unread file has nothing done. -/
theorem Done.eq_empty {text : String} (h : Done fs st sent path text) (hunread : Unread st path) :
    text = "" := by
  have hlen : Text.len text = 0 := by
    rw [← h.position]
    exact hunread
  exact Text.bytes_injective (List.length_eq_zero_iff.mp hlen)

/-- The rest of a file, read from the position on. -/
theorem Done.read {text rest : String} {pos : ℕ} (h : Done fs st sent path text)
    (hfile : ∃ file, fs.file path = some file ∧ Text.bytes text ++ Text.bytes rest = file.content)
    (hrest : Text.LfLines rest) (hpos : pos = Text.len text)
    (hposition : st'.positions path = some (pos + Text.resume rest))
    (htailed : st'.tailedFiles path = true) :
    Done fs st' (sent ++ tailLines path (Text.lines rest) pos) path (text ++ rest) where
  lines := h.lines.append hrest
  content := by
    obtain ⟨file, hfile, hcontent⟩ := hfile
    rw [Text.bytes_append, hcontent, onDisk, hfile]
    exact List.prefix_rfl
  sent := by
    rw [linesFrom_append, h.sent, Text.lines_append h.lines.1, linesFrom_tailLines_append, hpos,
      Nat.zero_add]
    rw [show ((Text.lines text).map fun line => Text.len line + 1).sum = Text.len text from
      h.lines.resume_eq]
  position := by
    rw [hposition, Option.getD_some, hpos, hrest.resume_eq, Text.len_append]
  tailed := by
    intro huntailed
    rw [htailed] at huntailed
    cases huntailed

/-- A file that can be read has a text of whole lines. -/
theorem WholeLines.of_readToString (h : WholeLines fs) {content : String}
    (hread : fs.readToString path = .ok content) :
    Text.LfLines content ∧
      ∃ file, fs.file path = some file ∧ Text.bytes content = file.content := by
  unfold FileSystem.readToString FileSystem.readToStringFrom at hread
  cases hfile : fs.file path with
  | none =>
    rw [hfile] at hread
    cases hread
  | some file =>
    obtain ⟨text, htext, hlines⟩ := h path file hfile
    simp only [hfile, List.drop_zero, ← htext, Text.fromUtf8_bytes] at hread
    split at hread
    · obtain rfl := Except.ok.inj hread
      exact ⟨hlines, file, rfl, htext⟩
    · cases hread

/-- **An unread file is read from its start.** -/
theorem AllDone.readFromStart (h : AllDone fs st tx.sent) (hwhole : WholeLines fs)
    (hroom : tx.room = none) (hunread : Unread st path) (hunread' : Unread st' path)
    (hpositions : ∀ other, other ≠ path → st'.positions other = st.positions other)
    (htailed : ∀ other, st.tailedFiles other = true → st'.tailedFiles other = true)
    (htracked : st'.tailedFiles path = true) :
    AllDone fs (readExistingLines fs st' path tx).2.1
      (readExistingLines fs st' path tx).2.2.sent := by
  obtain ⟨text, hdone⟩ := h path
  obtain rfl := hdone.eq_empty hunread
  rcases readExistingLines_cases fs st' path hroom with ⟨e, -, heq⟩ | ⟨content, hread, heq⟩
  · -- the read fails: the file is as unread as before, and the channel has nothing new of it
    rw [heq]
    intro other
    by_cases hother : other = path
    · subst hother
      refine ⟨"", Text.lfLines_empty, List.nil_prefix, hdone.sent, hunread', fun _ => rfl⟩
    · obtain ⟨text', hdone'⟩ := h other
      have hsame := hdone'.frame List.prefix_rfl (hpositions other hother) (htailed other)
        linesFrom_nil
      rw [List.append_nil] at hsame
      exact ⟨text', hsame⟩
  · -- all of the file is done now; the other files are where they were
    obtain ⟨hlines, file, hfile, hcontent⟩ := hwhole.of_readToString hread
    rw [heq]
    intro other
    by_cases hother : other = path
    · subst hother
      refine ⟨"" ++ content, hdone.read ⟨file, hfile, ?_⟩ hlines rfl ?_ htracked⟩
      · rw [← hcontent]
        rfl
      · simp [setPosition]
    · obtain ⟨text', hdone'⟩ := h other
      refine ⟨text', hdone'.frame List.prefix_rfl ?_ (htailed other)
        (linesFrom_tailLines_of_ne (Ne.symm hother) _ _)⟩
      simp only [setPosition, Function.update_of_ne hother]
      exact hpositions other hother

end Reading

/-! ## The steps of the tailer -/

/-- What a step of the tailer keeps: the receiver, the tailed files, and what is done. -/
structure Keeps (fs : FileSystem) (st : TailerState) (s : TailerState × Sender) : Prop where
  receiver : s.2.room = none
  tailed : ∀ path, st.tailedFiles path = true → s.1.tailedFiles path = true
  done : AllDone fs s.1 s.2.sent

section Steps

variable {fs : FileSystem} {st : TailerState} {path : Path} {tx : Sender}

theorem keeps_refl (h : AllDone fs st tx.sent) (hroom : tx.room = none) : Keeps fs st (st, tx) :=
  ⟨hroom, fun _ => id, h⟩

/-- An error on the channel is no line of a file. -/
theorem Keeps.error {s : TailerState × Sender} (h : Keeps fs st s) (e : SentinelError) :
    Keeps fs st (s.1, (s.2.send (.error e)).1) := by
  rw [Sender.send_of_room_none h.receiver]
  refine ⟨h.receiver, h.tailed, fun other => ?_⟩
  obtain ⟨text, hdone⟩ := h.done other
  exact ⟨text, hdone.frame List.prefix_rfl rfl id rfl⟩

theorem Keeps.report {result : Except SentinelError Unit × TailerState × Sender}
    (h : Keeps fs st result.2) : Keeps fs st (TailerState.report result) := by
  obtain ⟨outcome, st', tx'⟩ := result
  cases outcome with
  | ok _ => exact h
  | error e => exact h.error e

/-- Reading an unread file that is tailed, or is tailed from now on. -/
theorem keeps_readExistingLines (h : AllDone fs st tx.sent) (hwhole : WholeLines fs)
    (hroom : tx.room = none) {st' : TailerState} (hunread : Unread st path)
    (hunread' : Unread st' path)
    (hpositions : ∀ other, other ≠ path → st'.positions other = st.positions other)
    (htailed : ∀ other, st.tailedFiles other = true → st'.tailedFiles other = true)
    (htracked : st'.tailedFiles path = true) :
    Keeps fs st (readExistingLines fs st' path tx).2 := by
  have hreads := reads_readExistingLines fs st' path hroom
  refine ⟨hreads.receiver, ?_, h.readFromStart hwhole hroom hunread hunread' hpositions htailed
    htracked⟩
  intro other hother
  rw [hreads.tailed]
  exact htailed other hother

theorem tailedFiles_track {other : Path} (h : st.tailedFiles other = true) :
    (st.track path).tailedFiles other = true := by
  show Function.update st.tailedFiles path true other = true
  by_cases hother : other = path
  · subst hother
    exact Function.update_self _ _ _
  · rw [Function.update_of_ne hother]
    exact h

/-- A directory entry is read only if it is not tailed, and then it is unread. -/
theorem keeps_discoverEntry (h : AllDone fs st tx.sent) (hwhole : WholeLines fs)
    (hroom : tx.room = none) (cfg : LogWatchConfig) (entry : Path) :
    Keeps fs st (discoverEntry fs cfg (st, tx) entry) := by
  rcases matching_cases fs cfg entry _ _
    (show _ = discoverEntry fs cfg (st, tx) entry from rfl) with
    ⟨-, heq⟩ | ⟨name, -, -, heq⟩
  · rw [← heq]
    exact keeps_refl h hroom
  rw [← heq]
  split
  · exact keeps_refl h hroom
  · next huntailed =>
    -- what is not tailed has nothing done
    obtain ⟨text, hdone⟩ := h entry
    obtain rfl := hdone.tailed (Bool.not_eq_true _ ▸ huntailed)
    have hunread : Unread st entry := hdone.position
    exact keeps_readExistingLines h hwhole hroom hunread hunread (fun _ _ => rfl)
      (fun _ => tailedFiles_track) (Function.update_self _ _ _)

/-- The event of a creation reads a file from its start; the file has to be unread. -/
theorem keeps_create (h : AllDone fs st tx.sent) (hwhole : WholeLines fs) (hroom : tx.room = none)
    {watchConfigs : List LogWatchConfig}
    (hfresh : AdoptsCreated watchConfigs path → Unread st path) :
    Keeps fs st (onEvent fs st ⟨.create, [path]⟩ watchConfigs
      (watchConfigs.map LogWatchConfig.directory) tx) := by
  rcases onEvent_create fs st path watchConfigs tx with ⟨-, heq⟩ | ⟨-, hadopts, heq⟩
  · rw [heq]
    exact keeps_refl h hroom
  · rw [heq]
    refine keeps_readExistingLines h hwhole hroom (hfresh hadopts) ?_ ?_
      (fun _ => tailedFiles_track)
      (Function.update_self _ _ _)
    · simp [Unread, setPosition]
    · intro other hother
      exact Function.update_of_ne hother _ _

/-- The event of a modification: nothing happens, or a read fails, or the rest of the file is
read. -/
theorem onEvent_modifyData (fs : FileSystem) (st : TailerState) (path : Path)
    (hroom : tx.room = none) (watchConfigs : List LogWatchConfig) (watchedDirs : List Path) :
    onEvent fs st ⟨.modifyData, [path]⟩ watchConfigs watchedDirs tx = (st, tx) ∨
    (∃ e, onEvent fs st ⟨.modifyData, [path]⟩ watchConfigs watchedDirs tx =
      (st, (tx.send (.error e)).1)) ∨
    ∃ pos rest, st.tailedFiles path = true ∧ st.positions path = some pos ∧
      fs.readToStringFrom path pos = .ok rest ∧
      onEvent fs st ⟨.modifyData, [path]⟩ watchConfigs watchedDirs tx =
        (st.setPosition path (pos + Text.resume rest),
          { tx with sent := tx.sent ++ tailLines path (Text.lines rest) pos }) := by
  cases hfile : fs.isFile path with
  | false => exact Or.inl (onEvent_data_skipped (Or.inl hfile) _ _ _)
  | true =>
    cases hname : path.fileName with
    | none => exact Or.inl (onEvent_data_skipped (Or.inr (Or.inl hname)) _ _ _)
    | some name =>
      cases htailed : st.tailedFiles path with
      | false => exact Or.inl (onEvent_data_skipped (Or.inr (Or.inr (Or.inl htailed))) _ _ _)
      | true =>
        cases hpos : st.positions path with
        | none => exact Or.inl (onEvent_data_skipped (Or.inr (Or.inr (Or.inr hpos))) _ _ _)
        | some pos =>
          rw [onEvent_data hfile hname htailed hpos]
          cases hread : fs.readToStringFrom path pos with
          | error e => exact Or.inr (Or.inl ⟨.Io e, rfl⟩)
          | ok rest =>
            refine Or.inr (Or.inr ⟨pos, rest, rfl, rfl, hread, ?_⟩)
            simp only [emitLines_of_room_none _ _ _ hroom, Text.resume]

/-- What is read from the end of a beginning is whole lines again. -/
theorem WholeLines.of_readToStringFrom (hwhole : WholeLines fs) {sent : List TailEvent}
    {text rest : String} (hdone : Done fs st sent path text)
    (hread : fs.readToStringFrom path (Text.len text) = .ok rest) :
    Text.LfLines rest ∧
      ∃ file, fs.file path = some file ∧ Text.bytes text ++ Text.bytes rest = file.content := by
  unfold FileSystem.readToStringFrom at hread
  cases hfile : fs.file path with
  | none =>
    rw [hfile] at hread
    cases hread
  | some file =>
    obtain ⟨content, hcontent, hlines⟩ := hwhole path file hfile
    obtain ⟨tail, htail⟩ := hdone.content
    simp only [onDisk, hfile, Option.map_some, Option.getD_some, ← hcontent] at htail
    obtain ⟨rest', rfl, rfl⟩ := Text.exists_of_bytes_append htail
    simp only [hfile, ← hcontent, ← htail, Text.drop_len_bytes, Text.fromUtf8_bytes] at hread
    split at hread
    · obtain rfl := Except.ok.inj hread
      exact ⟨hlines.of_append, file, rfl, htail.trans hcontent⟩
    · cases hread

theorem keeps_modifyData (h : AllDone fs st tx.sent) (hwhole : WholeLines fs)
    (hroom : tx.room = none) (watchConfigs : List LogWatchConfig) (watchedDirs : List Path) :
    Keeps fs st (onEvent fs st ⟨.modifyData, [path]⟩ watchConfigs watchedDirs tx) := by
  rcases onEvent_modifyData fs st path hroom watchConfigs watchedDirs with
    heq | ⟨e, heq⟩ | ⟨pos, rest, htailed, hpos, hread, heq⟩
  · rw [heq]
    exact keeps_refl h hroom
  · rw [heq]
    exact (keeps_refl h hroom).error e
  · rw [heq]
    obtain ⟨text, hdone⟩ := h path
    -- the read goes on where what is done ends
    have hlen : pos = Text.len text := by
      rw [← hdone.position, hpos]
      rfl
    rw [hlen] at hread
    obtain ⟨hlines, hfile⟩ := hwhole.of_readToStringFrom hdone hread
    refine ⟨hroom, fun _ => id, fun other => ?_⟩
    by_cases hother : other = path
    · subst hother
      exact ⟨text ++ rest, hdone.read hfile hlines hlen (by simp [setPosition]) htailed⟩
    · obtain ⟨text', hdone'⟩ := h other
      refine ⟨text', hdone'.frame List.prefix_rfl ?_ id
        (linesFrom_tailLines_of_ne (Ne.symm hother) _ _)⟩
      exact Function.update_of_ne hother _ _

end Steps

/-! ## Runs -/

/-- What holds of a run in which nothing is read twice. -/
structure Invariant (files : List Path) (s : State) : Prop where
  receiver : s.tx.room = none
  whole : WholeLines s.fs
  done : AllDone s.fs s.st s.tx.sent
  configured : ∀ file ∈ files, s.st.tailedFiles file = true
  queue : ∀ event ∈ s.queue, ∃ path, event = ⟨.create, [path]⟩ ∨ event = ⟨.modifyData, [path]⟩
  phase : ∀ rest, s.phase = .reading rest → ∀ file ∈ rest, file ∈ files

section Runs

variable {files : List Path} {watchConfigs : List LogWatchConfig} {s t : State}

/-- A step of the tailer on its state and the channel. -/
theorem Invariant.tailer (hs : Invariant files s) {result : TailerState × Sender}
    (hkeeps : Keeps s.fs s.st result) {queue : List Event} {phase : Phase}
    (hqueue : ∀ event ∈ queue, event ∈ s.queue)
    (hphase : ∀ rest, phase = .reading rest → ∀ file ∈ rest, file ∈ files) :
    Invariant files { s with st := result.1, tx := result.2, queue := queue, phase := phase } where
  receiver := hkeeps.receiver
  whole := hs.whole
  done := hkeeps.done
  configured file hfile := hkeeps.tailed file (hs.configured file hfile)
  queue event hevent := hs.queue event (hqueue event hevent)
  phase := hphase

/-- Only the phase and the watches change. -/
theorem Invariant.withPhase (hs : Invariant files s) (watched : List Path) {phase : Phase}
    (hphase : ∀ rest, phase = .reading rest → ∀ file ∈ rest, file ∈ files) :
    Invariant files { s with watched := watched, phase := phase } :=
  ⟨hs.receiver, hs.whole, hs.done, hs.configured, hs.queue, hphase⟩

/-- The writer changes files by what their contents go on with, and tells the watcher. -/
theorem Invariant.writer (hs : Invariant files s) {fs' : FileSystem} (hwhole : WholeLines fs')
    (hgrow : ∀ path, onDisk s.fs path <+: onDisk fs' path) {dir path : Path} {kind : EventKind}
    (hkind : kind = .create ∨ kind = .modifyData) (events : ℕ) :
    Invariant files { s with fs := fs', queue := s.notify dir path kind events } where
  receiver := hs.receiver
  whole := hwhole
  done other := by
    obtain ⟨text, hdone⟩ := hs.done other
    have hsame := hdone.frame (hgrow other) rfl id linesFrom_nil
    rw [List.append_nil] at hsame
    exact ⟨text, hsame⟩
  configured := hs.configured
  queue := by
    intro event hevent
    simp only [State.notify] at hevent
    split at hevent
    · rcases List.mem_append.mp hevent with hold | hnew
      · exact hs.queue event hold
      · obtain rfl := List.eq_of_mem_replicate hnew
        exact ⟨path, hkind.imp (by rintro rfl; rfl) (by rintro rfl; rfl)⟩
    · exact hs.queue event hevent
  phase := hs.phase

theorem Invariant.create (hs : Invariant files s) {dir : Path} {component : OsString}
    (hnew : s.fs.file (dir ++ [component]) = none) (readable : Bool) (entries : List Path)
    (events : ℕ) : Invariant files { s with
      fs := createFile s.fs dir component readable entries
      queue := s.notify dir (dir ++ [component]) .create events } := by
  refine hs.writer ?_ ?_ (Or.inl rfl) events
  · intro path file hfile
    simp only [createFile] at hfile
    by_cases hpath : path = dir ++ [component]
    · subst hpath
      rw [Function.update_self] at hfile
      obtain rfl := Option.some.inj hfile
      exact ⟨"", rfl, Text.lfLines_empty⟩
    · rw [Function.update_of_ne hpath] at hfile
      exact hs.whole path file hfile
  · intro path
    simp only [onDisk, createFile]
    by_cases hpath : path = dir ++ [component]
    · subst hpath
      rw [hnew]
      exact List.nil_prefix
    · rw [Function.update_of_ne hpath]

theorem Invariant.append (hs : Invariant files s) {path : Path} {text : String}
    (htext : Text.LfLines text) (events : ℕ) : Invariant files { s with
      fs := s.fs.append path (Text.bytes text)
      queue := s.notify path.dropLast path .modifyData events } := by
  cases hfile : s.fs.file path with
  | none =>
    have hsame : s.fs.append path (Text.bytes text) = s.fs := by rw [FileSystem.append, hfile]
    rw [hsame]
    exact hs.writer hs.whole (fun _ => List.prefix_rfl) (Or.inr rfl) events
  | some file =>
    have hgrown := FileSystem.file_append hfile (Text.bytes text)
    have hother : ∀ other, other ≠ path →
        (s.fs.append path (Text.bytes text)).file other = s.fs.file other := by
      intro other hother
      rw [FileSystem.append, hfile]
      exact Function.update_of_ne hother _ _
    obtain ⟨content, hcontent, hlines⟩ := hs.whole path file hfile
    refine hs.writer ?_ ?_ (Or.inr rfl) events
    · intro other file' hfile'
      by_cases heq : other = path
      · subst heq
        rw [hgrown] at hfile'
        obtain rfl := Option.some.inj hfile'
        refine ⟨content ++ text, ?_, hlines.append htext⟩
        rw [Text.bytes_append, hcontent]
      · rw [hother other heq] at hfile'
        exact hs.whole other file' hfile'
    · intro other
      by_cases heq : other = path
      · subst heq
        simp only [onDisk, hfile, hgrown, Option.map_some, Option.getD_some]
        exact List.prefix_append _ _
      · rw [onDisk, onDisk, hother other heq]

/-- Every step that reads nothing twice keeps the invariant. -/
theorem Invariant.step (hs : Invariant files s) {label : Label}
    (hfresh : ReadsFresh watchConfigs s label)
    (hstep : (starting files watchConfigs).step s label = some t) : Invariant files t := by
  cases label with
  -- the writer
  | create dir component readable events =>
    simp only [starting] at hstep
    split at hstep
    · next entries hnew _ =>
      obtain rfl := Option.some.inj hstep
      exact hs.create hnew readable entries events
    · cases hstep
  | append path text events =>
    simp only [starting, Option.ite_none_right_eq_some] at hstep
    obtain ⟨⟨-, htext⟩, hstep⟩ := hstep
    obtain rfl := Option.some.inj hstep
    exact hs.append htext events
  -- the tailer, up to its loop
  | watch =>
    simp only [starting] at hstep
    split at hstep
    · split at hstep
      all_goals
        obtain rfl := Option.some.inj hstep
        exact hs.withPhase _ fun _ h => (by cases h)
    · obtain rfl := Option.some.inj hstep
      refine hs.withPhase s.watched ?_
      intro rest h file hfile
      cases h
      exact hfile
    · cases hstep
  | readFile =>
    simp only [starting] at hstep
    split at hstep
    · next file rest hphase =>
      obtain rfl := Option.some.inj hstep
      have hconfigured := hs.phase _ hphase
      -- an event may not have read the file before; this is what the condition says
      have hunread : Unread s.st file := by
        simp only [ReadsFresh, hphase] at hfresh
        exact hfresh
      refine hs.tailer (Keeps.report ?_) (fun _ => id) ?_
      · exact keeps_readExistingLines hs.done hs.whole hs.receiver hunread hunread
          (fun _ _ => rfl) (fun _ => id)
          (hs.configured file (hconfigured file (List.mem_cons_self ..)))
      · intro rest' h other hother
        cases h
        exact hconfigured other (List.mem_cons_of_mem _ hother)
    · obtain rfl := Option.some.inj hstep
      exact hs.withPhase s.watched fun _ h => (by cases h)
    · cases hstep
  | list =>
    simp only [starting] at hstep
    split at hstep
    · split at hstep
      · obtain rfl := Option.some.inj hstep
        exact hs.withPhase s.watched fun _ h => (by cases h)
      · next e _ =>
        obtain rfl := Option.some.inj hstep
        exact hs.tailer ((keeps_refl hs.done hs.receiver).error (.Io e)) (fun _ => id)
          fun _ h => (by cases h)
    · obtain rfl := Option.some.inj hstep
      exact hs.withPhase s.watched fun _ h => (by cases h)
    · cases hstep
  | readEntry =>
    simp only [starting] at hstep
    split at hstep
    · next cfg entry entries rest hphase =>
      obtain rfl := Option.some.inj hstep
      exact hs.tailer (keeps_discoverEntry hs.done hs.whole hs.receiver cfg entry) (fun _ => id)
        fun _ h => (by cases h)
    · obtain rfl := Option.some.inj hstep
      exact hs.withPhase s.watched fun _ h => (by cases h)
    · cases hstep
  -- the loop: only creations and modifications are ever in the queue
  | handle =>
    simp only [starting] at hstep
    split at hstep
    · next event queue hphase hqueue =>
      obtain rfl := Option.some.inj hstep
      simp only [ReadsFresh, hqueue] at hfresh
      have hevent : event ∈ s.queue := by
        rw [hqueue]
        exact List.mem_cons_self ..
      have hrest : ∀ other ∈ queue, other ∈ s.queue := by
        rw [hqueue]
        exact fun other => List.mem_cons_of_mem _
      refine hs.tailer ?_ hrest fun _ h => (by rw [hphase] at h; cases h)
      obtain ⟨path, rfl | rfl⟩ := hs.queue event hevent
      · exact keeps_create hs.done hs.whole hs.receiver
          (hfresh rfl path (List.mem_singleton_self _))
      · exact keeps_modifyData hs.done hs.whole hs.receiver _ _
    · cases hstep

theorem invariant_initial (dirs files : List Path) (watchConfigs : List LogWatchConfig) :
    Invariant files (initial dirs files watchConfigs) where
  receiver := rfl
  whole path file hfile := by cases hfile
  done path := ⟨"", Text.lfLines_empty, List.nil_prefix, rfl, rfl, fun _ => rfl⟩
  configured file hfile := decide_eq_true hfile
  queue event hevent := by cases hevent
  phase rest h := by cases h

/-- **On a run that reads nothing twice, the lines sent for a file are its first lines.** -/
theorem lines_of_readsFresh {dirs : List Path} {labels : List Label}
    (hrun : (starting files watchConfigs).Run (initial dirs files watchConfigs) labels t)
    (hfresh : (starting files watchConfigs).Along (ReadsFresh watchConfigs)
      (initial dirs files watchConfigs) labels) : AllDone t.fs t.st t.tx.sent := by
  have hinv : Invariant files t := by
    refine hrun.invariant_along (I := fun _ t => Invariant files t) hfresh
      (invariant_initial dirs files watchConfigs) ?_
    intro _ s label u hs hcond hstep
    exact hs.step hcond hstep
  exact hinv.done

/-- **No line is sent twice** in a run in which no event of a creation adopts a file that something
was read from, and no such file is configured again. -/
theorem sentOnce_of_readsFresh {dirs : List Path} {labels : List Label}
    (hrun : (starting files watchConfigs).Run (initial dirs files watchConfigs) labels t)
    (hfresh : (starting files watchConfigs).Along (ReadsFresh watchConfigs)
      (initial dirs files watchConfigs) labels) : SentOnce t := by
  intro path
  obtain ⟨text, hdone⟩ := lines_of_readsFresh hrun hfresh path
  rw [hdone.sent]
  exact nodup_offsets path _ 0

end Runs

/-! ## A file created before it is read -/

/-- One directory, watched for every name. -/
def everyName : List LogWatchConfig := [⟨[.text "logs"], fun _ => true⟩]

/-- A file is created and written before the watch is there; it is written again when it was
read. -/
def early : List Label :=
  [.create [.text "logs"] (.text "a.log") true 1, .append [.text "logs", .text "a.log"] "x\n" 1,
    .watch, .watch, .readFile, .list, .readEntry, .readEntry, .list,
    .append [.text "logs", .text "a.log"] "y\n" 1, .handle]

/-- A file is created and written after the watch is there, and before the directory is read. -/
def between : List Label :=
  [.watch, .watch, .create [.text "logs"] (.text "a.log") true 1,
    .append [.text "logs", .text "a.log"] "x\n" 1, .readFile, .list, .readEntry, .readEntry, .list,
    .handle]

instance (watchConfigs : List LogWatchConfig) (s : State) :
    DecidablePred (ReadsFresh watchConfigs s)
  | .readFile => match h : s.phase with
    | .reading (file :: _) => decidable_of_iff ((s.st.positions file).getD 0 = 0)
        (by simp only [ReadsFresh, h, Unread])
    | .reading [] | .registering _ | .discovering _ | .listing _ _ _ | .handling =>
      .isTrue (by simp only [ReadsFresh, h])
  | .handle => match h : s.queue with
    | event :: _ => decidable_of_iff (event.kind = .create → ∀ path ∈ event.paths,
          AdoptsCreated watchConfigs path → (s.st.positions path).getD 0 = 0)
        (by simp only [ReadsFresh, h, Unread])
    | [] => .isTrue (by simp only [ReadsFresh, h])
  | .create _ _ _ _ | .append _ _ _ | .watch | .list | .readEntry => .isTrue trivial

/-- In the first run both lines are sent, each once. -/
theorem sentOnce_early : ∃ t, (starting [] everyName).Run
      (initial [[.text "logs"]] [] everyName) early t ∧
    (linesFrom [.text "logs", .text "a.log"] t.tx.sent).map TailLine.line = ["x", "y"] ∧
      SentOnce t := by
  have hsent : ((starting [] everyName).exec (initial [[.text "logs"]] [] everyName) early).any
      (fun t =>
        (linesFrom [.text "logs", .text "a.log"] t.tx.sent).map TailLine.line = ["x", "y"]) =
        true := by
    decide +kernel
  obtain ⟨t, hrun, ht⟩ := Machine.exists_run_any hsent
  exact ⟨t, hrun, of_decide_eq_true ht, sentOnce_of_readsFresh hrun (by decide +kernel)⟩

/-- **A line is sent twice** in the second: once when the directory is read, and once when the event
of the creation is handled. -/
theorem line_sentTwice : ∃ t, (starting [] everyName).Run
      (initial [[.text "logs"]] [] everyName) between t ∧ ¬ SentOnce t := by
  have htwice : ((starting [] everyName).exec (initial [[.text "logs"]] [] everyName) between).any
      (fun t =>
        (linesFrom [.text "logs", .text "a.log"] t.tx.sent).map TailLine.byteOffset = [0, 0]) =
        true := by
    decide +kernel
  obtain ⟨t, hrun, ht⟩ := Machine.exists_run_any htwice
  refine ⟨t, hrun, ?_⟩
  intro honce
  have hnodup := honce [.text "logs", .text "a.log"]
  rw [of_decide_eq_true ht] at hnodup
  exact absurd hnodup (by decide)

end Sentinalysis.LogScanner.Startup
