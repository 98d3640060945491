/-
# Sentinalysis.LogScanner.Rotation — a tailed log is appended to, renamed and created anew, while its
events wait to be handled.

An event names a path and a position belongs to a file that stood at it.  A modification that is
handled while the event of a creation still waits reads the new file from the old position; what was
not read when the log is renamed is never read at all.  A rotation that keeps out of this, step by
step, loses nothing.
-/
import Sentinalysis.LogScanner.Delivery
import Sentinalysis.LogScanner.Effects
import Sentinalysis.LogScanner.Startup

namespace Sentinalysis.LogScanner.Rotation

open Lib TailerState Startup

/-! ## The writer, the events and the tailer -/

/-- The files, the events that wait, the tailer, and all that was written to the log under its
name. -/
structure State where
  fs : FileSystem
  queue : List Event := []
  st : TailerState
  tx : Sender := {}
  written : String

inductive Label
  /-- Whole lines are appended to the log. -/
  | append (text : String)
  /-- The log is renamed; each of the events names some of the two paths. -/
  | rename (events : List (List Path))
  /-- A new log is created. -/
  | create
  /-- The next event is handled. -/
  | handle
  deriving DecidableEq, Repr

section Machine

variable (watchConfigs : List LogWatchConfig) (dir : Path) (name : String)

/-- The path of the log. -/
def log : Path := Path.join dir name

/-- The path of the rotated log. -/
def rotated : Path := Path.join dir (name ++ ".1")

def modification : Event := ⟨.modifyData, [log dir name]⟩

def creation : Event := ⟨.create, [log dir name]⟩

/-- A renaming of the log; what an event looks at are files and not listings. -/
def renameLog (fs : FileSystem) : FileSystem where
  file := Function.update (Function.update fs.file (rotated dir name) (fs.file (log dir name)))
    (log dir name) none
  dir := fs.dir

/-- The writer of the log, its rotation, and the tailer. -/
def rotating : Machine State Label where
  step s
    | .append text =>
      if (s.fs.file (log dir name)).isSome ∧ Text.LfLines text then
        some { s with
          fs := s.fs.append (log dir name) (Text.bytes text)
          queue := s.queue ++ [modification dir name]
          written := s.written ++ text }
      else none
    | .rename events =>
      if (s.fs.file (log dir name)).isSome ∧
          ∀ paths ∈ events, ∀ path ∈ paths, path = log dir name ∨ path = rotated dir name then
        some { s with
          fs := renameLog dir name s.fs
          queue := s.queue ++ events.map (⟨.modifyName, ·⟩) }
      else none
    | .create =>
      if s.fs.file (log dir name) = none then
        some { s with
          fs := s.fs.write (log dir name) ⟨[], true⟩
          queue := s.queue ++ [creation dir name] }
      else none
    | .handle => match s.queue with
      | event :: queue =>
        let (st, tx) := onEvent s.fs s.st event watchConfigs
          (watchConfigs.map LogWatchConfig.directory) s.tx
        some { s with st := st, tx := tx, queue := queue }
      | [] => none

/-- The texts of the lines that were emitted for the log. -/
def emitted (s : State) : List String :=
  (linesFrom (log dir name) s.tx.sent).map TailLine.line

/-- The log is tailed, and what it holds was read. -/
structure Started (s : State) : Prop where
  file : s.fs.file (log dir name) = some ⟨Text.bytes s.written, true⟩
  lines : Text.LfLines s.written
  tailed : s.st.tailedFiles (log dir name) = true
  position : s.st.positions (log dir name) = some (Text.len s.written)
  sent : emitted dir name s = Text.lines s.written
  queue : s.queue = []
  receiver : s.tx.room = none

/-- When all events are handled, every line that was written to the log is emitted once. -/
def AllEmitted (s : State) : Prop :=
  s.queue = [] → (emitted dir name s).Perm (Text.lines s.written)

/-- Where the next read of the log starts. -/
def State.position (s : State) : ℕ := (s.st.positions (log dir name)).getD 0

/-- A creation waits that the tailer will adopt. -/
def Waits (queue : List Event) : Prop :=
  AdoptsCreated watchConfigs (log dir name) ∧ creation dir name ∈ queue

/-- The log is renamed when it was read to its end, or is empty.  While a creation waits, no
modification finds more in the log than was read of the one before it, and no other creation finds
anything in it.  A log whose creations are not adopted is not appended to when it is shorter than the
position, and is not forgotten when it is there again. -/
def HandledInTime (s : State) : Label → Prop
  | .append text => ¬ AdoptsCreated watchConfigs (log dir name) → text ≠ "" →
      s.position dir name ≤ (onDisk s.fs (log dir name)).length
  | .rename _ => onDisk s.fs (log dir name) = [] ∨
      (¬ Waits watchConfigs dir name s.queue ∧
        s.position dir name = (onDisk s.fs (log dir name)).length)
  | .create => True
  | .handle => match s.queue with
    | event :: queue =>
      (event = modification dir name → Waits watchConfigs dir name queue →
        (onDisk s.fs (log dir name)).length ≤ s.position dir name) ∧
      (event = creation dir name → Waits watchConfigs dir name queue →
        onDisk s.fs (log dir name) = []) ∧
      (event.kind = .modifyName → log dir name ∈ event.paths →
        s.fs.isFile (log dir name) = true → isRotatedLog name = false)
    | [] => True

end Machine

/-! ## What is left to be read -/

section Steps

variable {watchConfigs : List LogWatchConfig} {dir : Path} {name : String} {s t : State}

/-- Where the rest that is not emitted stands: there is no log, or all of it waits for its creation,
or it follows on what was read.  A log whose creation is not adopted may have an old position, as
long as it is empty. -/
inductive Place (watchConfigs : List LogWatchConfig) (dir : Path) (name : String) (s : State)
    (rest : String) : Prop
  | absent (hfile : s.fs.file (log dir name) = none) (hrest : rest = "")
  | fresh (hfile : s.fs.file (log dir name) = some ⟨Text.bytes rest, true⟩)
      (hwaits : Waits watchConfigs dir name s.queue)
  | read (done : String) (pos : ℕ) (hdone : Text.LfLines done)
      (hfile : s.fs.file (log dir name) = some ⟨Text.bytes (done ++ rest), true⟩)
      (hposition : s.st.positions (log dir name) = some pos)
      (hpos : pos = Text.len done ∨
        (¬ AdoptsCreated watchConfigs (log dir name) ∧ done ++ rest = ""))
      (hnone : ¬ Waits watchConfigs dir name s.queue)
      (hpending : rest ≠ "" → modification dir name ∈ s.queue)

/-- What holds of a run whose events are handled in time. -/
structure Invariant (watchConfigs : List LogWatchConfig) (dir : Path) (name : String) (s : State) :
    Prop where
  receiver : s.tx.room = none
  tailed : s.st.tailedFiles (log dir name) = true
  position : ∃ pos, s.st.positions (log dir name) = some pos
  queue : ∀ event ∈ s.queue, event = modification dir name ∨ event = creation dir name ∨
    event.kind = .modifyName
  rest : ∃ before rest, s.written = before ++ rest ∧ Text.LfLines before ∧ Text.LfLines rest ∧
    emitted dir name s = Text.lines before ∧ Place watchConfigs dir name s rest

theorem creation_ne_modification : creation dir name ≠ modification dir name := by
  intro h
  cases congrArg Event.kind h

theorem fileName_log : (log dir name).fileName = some name := Path.fileName_join _ _

theorem Started.invariant (h : Started dir name s) : Invariant watchConfigs dir name s where
  receiver := h.receiver
  tailed := h.tailed
  position := ⟨_, h.position⟩
  queue := by
    rw [h.queue]
    exact List.forall_mem_nil _
  rest := by
    refine ⟨s.written, "", (String.append_empty ..).symm, h.lines, Text.lfLines_empty, h.sent, ?_⟩
    refine Place.read s.written _ h.lines ?_ h.position (Or.inl rfl) ?_ fun hne => absurd rfl hne
    · rw [String.append_empty]
      exact h.file
    · rw [h.queue]
      rintro ⟨-, hmem⟩
      cases hmem

/-- When no event waits, nothing is left. -/
theorem Invariant.allEmitted (h : Invariant watchConfigs dir name s) : AllEmitted dir name s := by
  intro hqueue
  obtain ⟨before, rest, hwritten, -, -, hemitted, hplace⟩ := h.rest
  have hrest : rest = "" := by
    cases hplace with
    | absent _ hrest => exact hrest
    | fresh _ hwaits =>
      rw [hqueue] at hwaits
      cases hwaits.2
    | read _ _ _ _ _ _ _ hpending =>
      by_contra hne
      have hmem := hpending hne
      rw [hqueue] at hmem
      cases hmem
  rw [hemitted, hwritten, hrest, String.append_empty]

/-! ## The writer -/

theorem onDisk_eq {fs : FileSystem} {path : Path} {content : List UInt8}
    (h : fs.file path = some ⟨content, true⟩) : onDisk fs path = content := by
  rw [onDisk, h]
  rfl

/-- Nothing is read from the end of a file on. -/
theorem eq_empty_of_readToStringFrom {fs : FileSystem} {path : Path} {pos : ℕ} {text : String}
    (hread : fs.readToStringFrom path pos = .ok text) (hle : (onDisk fs path).length ≤ pos) :
    text = "" := by
  unfold FileSystem.readToStringFrom at hread
  cases hfile : fs.file path with
  | none =>
    rw [hfile] at hread
    cases hread
  | some file =>
    rw [onDisk, hfile] at hle
    have hnil : file.content.drop pos = [] := List.drop_eq_nil_of_le hle
    simp only [hfile, hnil] at hread
    split at hread
    · exact (Except.ok.inj hread).symm
    · cases hread

theorem eq_empty_of_bytes {text : String} (h : Text.bytes text = []) : text = "" :=
  Text.bytes_injective h

theorem Invariant.append (h : Invariant watchConfigs dir name s) {text : String}
    (hsome : (s.fs.file (log dir name)).isSome = true) (htext : Text.LfLines text)
    (htime : HandledInTime watchConfigs dir name s (.append text)) :
    Invariant watchConfigs dir name { s with
      fs := s.fs.append (log dir name) (Text.bytes text)
      queue := s.queue ++ [modification dir name]
      written := s.written ++ text } := by
  obtain ⟨before, rest, hwritten, hbefore, hrest, hemitted, hplace⟩ := h.rest
  refine ⟨h.receiver, h.tailed, h.position, ?_, before, rest ++ text, ?_, hbefore,
    hrest.append htext, hemitted, ?_⟩
  · intro event hevent
    rcases List.mem_append.mp hevent with hold | hnew
    · exact h.queue event hold
    · exact Or.inl (List.mem_singleton.mp hnew)
  · rw [hwritten, String.append_assoc]
  · cases hplace with
    | absent hfile _ =>
      rw [hfile] at hsome
      cases hsome
    | fresh hfile hwaits =>
      refine Place.fresh ?_ ⟨hwaits.1, List.mem_append_left _ hwaits.2⟩
      rw [Text.bytes_append]
      exact FileSystem.file_append hfile (Text.bytes text)
    | read done pos hdone hfile hposition hpos hnone _ =>
      refine Place.read done pos hdone ?_ hposition ?_ ?_ ?_
      · rw [← String.append_assoc, Text.bytes_append]
        exact FileSystem.file_append hfile (Text.bytes text)
      · rcases hpos with hpos | ⟨hadopts, hempty⟩
        · exact Or.inl hpos
        · by_cases hne : text = ""
          · subst hne
            exact Or.inr ⟨hadopts, by rw [← String.append_assoc, hempty]; rfl⟩
          · -- the position is not past the end of the empty log
            have hle := htime hadopts hne
            rw [State.position, hposition, onDisk_eq hfile, hempty] at hle
            obtain ⟨rfl, -⟩ := String.append_eq_empty_iff.mp hempty
            exact Or.inl (Nat.le_zero.mp hle)
      · rintro ⟨hadopts, hmem⟩
        rcases List.mem_append.mp hmem with hold | hnew
        · exact hnone ⟨hadopts, hold⟩
        · exact creation_ne_modification (List.mem_singleton.mp hnew)
      · intro _
        exact List.mem_append_right _ (List.mem_singleton_self _)

theorem Invariant.rename (h : Invariant watchConfigs dir name s) {events : List (List Path)}
    (htime : HandledInTime watchConfigs dir name s (.rename events)) :
    Invariant watchConfigs dir name { s with
      fs := renameLog dir name s.fs
      queue := s.queue ++ events.map (⟨.modifyName, ·⟩) } := by
  obtain ⟨before, rest, hwritten, hbefore, hrest, hemitted, hplace⟩ := h.rest
  have hgone : (renameLog dir name s.fs).file (log dir name) = none := Function.update_self ..
  refine ⟨h.receiver, h.tailed, h.position, ?_, before, rest, hwritten, hbefore, hrest, hemitted,
    Place.absent hgone ?_⟩
  · intro event hevent
    rcases List.mem_append.mp hevent with hold | hnew
    · exact h.queue event hold
    · obtain ⟨paths, -, rfl⟩ := List.mem_map.mp hnew
      exact Or.inr (Or.inr rfl)
  · -- what is renamed was read to its end
    cases hplace with
    | absent _ hrest => exact hrest
    | fresh hfile hwaits =>
      rcases htime with hempty | ⟨hnone, -⟩
      · rw [onDisk_eq hfile] at hempty
        exact eq_empty_of_bytes hempty
      · exact absurd hwaits hnone
    | read done pos hdone hfile hposition hpos _ _ =>
      have hlen : Text.len rest = 0 := by
        rcases htime with hempty | ⟨-, hend⟩
        · rw [onDisk_eq hfile, Text.bytes_append] at hempty
          rw [Text.len, (List.append_eq_nil_iff.mp hempty).2]
          rfl
        · rcases hpos with rfl | ⟨-, hempty⟩
          · rw [State.position, hposition, onDisk_eq hfile] at hend
            have hend : Text.len done = Text.len (done ++ rest) := hend
            rw [Text.len_append] at hend
            omega
          · rw [(String.append_eq_empty_iff.mp hempty).2]
            rfl
      exact eq_empty_of_bytes (List.length_eq_zero_iff.mp hlen)

theorem Invariant.create (h : Invariant watchConfigs dir name s)
    (hgone : s.fs.file (log dir name) = none) :
    Invariant watchConfigs dir name { s with
      fs := s.fs.write (log dir name) ⟨[], true⟩
      queue := s.queue ++ [creation dir name] } := by
  obtain ⟨before, rest, hwritten, hbefore, hrest, hemitted, hplace⟩ := h.rest
  refine ⟨h.receiver, h.tailed, h.position, ?_, before, rest, hwritten, hbefore, hrest, hemitted, ?_⟩
  · intro event hevent
    rcases List.mem_append.mp hevent with hold | hnew
    · exact h.queue event hold
    · exact Or.inr (Or.inl (List.mem_singleton.mp hnew))
  · have hempty : rest = "" := by
      cases hplace with
      | absent _ hrest => exact hrest
      | fresh hfile _ =>
        rw [hgone] at hfile
        cases hfile
      | read _ _ _ hfile _ _ _ _ =>
        rw [hgone] at hfile
        cases hfile
    subst hempty
    by_cases hadopts : AdoptsCreated watchConfigs (log dir name)
    · exact Place.fresh (FileSystem.file_write _ _)
        ⟨hadopts, List.mem_append_right _ (List.mem_singleton_self _)⟩
    · obtain ⟨pos, hposition⟩ := h.position
      exact Place.read "" pos Text.lfLines_empty (FileSystem.file_write _ _) hposition
        (Or.inr ⟨hadopts, rfl⟩) (fun hwaits => hadopts hwaits.1) fun hne => absurd rfl hne

/-! ## The tailer -/

/-- The state behind an event. -/
def State.handled (watchConfigs : List LogWatchConfig) (s : State) (event : Event)
    (queue : List Event) : State :=
  let result := onEvent s.fs s.st event watchConfigs (watchConfigs.map LogWatchConfig.directory) s.tx
  { s with st := result.1, tx := result.2, queue := queue }

/-- What an event leaves behind: the receiver, the log as a tailed file with a position, and what is
emitted and left to be read. -/
theorem Invariant.handle (h : Invariant watchConfigs dir name s) {event : Event}
    {queue : List Event} (hqueue : s.queue = event :: queue) {st : TailerState} {tx : Sender}
    (hreceiver : tx.room = none) (htailed : st.tailedFiles (log dir name) = true)
    (hposition : ∃ pos, st.positions (log dir name) = some pos)
    (hrest : ∃ before rest, s.written = before ++ rest ∧ Text.LfLines before ∧ Text.LfLines rest ∧
      emitted dir name { s with st := st, tx := tx, queue := queue } = Text.lines before ∧
      Place watchConfigs dir name { s with st := st, tx := tx, queue := queue } rest) :
    Invariant watchConfigs dir name { s with st := st, tx := tx, queue := queue } := by
  refine ⟨hreceiver, htailed, hposition, ?_, hrest⟩
  intro other hother
  apply h.queue other
  rw [hqueue]
  exact List.mem_cons_of_mem _ hother

/-- An event that reads what is left, so that nothing is. -/
theorem Invariant.handle_read (h : Invariant watchConfigs dir name s) {event : Event}
    {queue : List Event} (hqueue : s.queue = event :: queue) {st : TailerState} {before rest : String}
    {start pos : ℕ} (hwritten : s.written = before ++ rest) (hbefore : Text.LfLines before)
    (hrest : Text.LfLines rest) (hemitted : emitted dir name s = Text.lines before)
    (htailed : st.tailedFiles (log dir name) = true)
    (hposition : st.positions (log dir name) = some pos)
    (hplace : ∀ tx, Place watchConfigs dir name { s with st := st, tx := tx, queue := queue } "") :
    Invariant watchConfigs dir name { s with
      st := st
      tx := { s.tx with sent := s.tx.sent ++ tailLines (log dir name) (Text.lines rest) start }
      queue := queue } := by
  refine h.handle hqueue h.receiver htailed ⟨pos, hposition⟩ ?_
  refine ⟨before ++ rest, "", ?_, hbefore.append hrest, Text.lfLines_empty, ?_, hplace _⟩
  · rw [hwritten, String.append_empty]
  · rw [Text.lines_append hbefore.1, ← hemitted, emitted, linesFrom_append, List.map_append,
      map_line_linesFrom]
    rfl

/-- An event that leaves the position of the log alone, and does not read what waits or is left. -/
theorem Place.keep {rest : String} (h : Place watchConfigs dir name s rest) {event : Event}
    {queue : List Event} (hqueue : s.queue = event :: queue) {st : TailerState} {tx : Sender}
    (hposition : st.positions (log dir name) = s.st.positions (log dir name))
    (hcreation : event = creation dir name → s.fs.file (log dir name) = none ∨
      ¬ AdoptsCreated watchConfigs (log dir name))
    (hmodification : event = modification dir name → s.fs.file (log dir name) = none ∨
      Waits watchConfigs dir name queue) :
    Place watchConfigs dir name { s with st := st, tx := tx, queue := queue } rest := by
  cases h with
  | absent hfile hrest => exact Place.absent hfile hrest
  | fresh hfile hwaits =>
    obtain ⟨hadopts, hmem⟩ := hwaits
    rw [hqueue] at hmem
    rcases List.mem_cons.mp hmem with heq | hmem
    · rcases hcreation heq.symm with hgone | hno
      · rw [hfile] at hgone
        cases hgone
      · exact absurd hadopts hno
    · exact Place.fresh hfile ⟨hadopts, hmem⟩
  | read done pos hdone hfile hposition' hpos hnone hpending =>
    have hnone' : ¬ Waits watchConfigs dir name queue := by
      rintro ⟨hadopts, hmem⟩
      apply hnone
      rw [hqueue]
      exact ⟨hadopts, List.mem_cons_of_mem _ hmem⟩
    refine Place.read done pos hdone hfile (hposition.trans hposition') hpos hnone' ?_
    intro hne
    have hmem := hpending hne
    rw [hqueue] at hmem
    rcases List.mem_cons.mp hmem with heq | hmem
    · rcases hmodification heq.symm with hgone | hwaits
      · rw [hfile] at hgone
        cases hgone
      · exact absurd hwaits hnone'
    · exact hmem

/-- The event of a renaming does not touch the log. -/
theorem Invariant.handle_renaming (h : Invariant watchConfigs dir name s) {event : Event}
    {queue : List Event} (hqueue : s.queue = event :: queue) (hkind : event.kind = .modifyName)
    (hname : log dir name ∈ event.paths → s.fs.isFile (log dir name) = true →
      isRotatedLog name = false) :
    Invariant watchConfigs dir name (s.handled watchConfigs event queue) := by
  have htx : (s.handled watchConfigs event queue).tx = s.tx := by
    apply onEvent_quiet
    · rw [hkind]
      nofun
    · rw [hkind]
      nofun
  have hsame : (s.handled watchConfigs event queue).st.tailedFiles (log dir name) =
        s.st.tailedFiles (log dir name) ∧
      (s.handled watchConfigs event queue).st.positions (log dir name) =
        s.st.positions (log dir name) := by
    refine onEvent_induction (I := fun st => st.tailedFiles (log dir name) =
        s.st.tailedFiles (log dir name) ∧ st.positions (log dir name) =
        s.st.positions (log dir name)) ⟨rfl, rfl⟩ ?_ _ _ _
    intro path hpath st₁ st₂ ih heffect
    by_cases hne : log dir name = path
    · subst hne
      cases heffect with
      | unchanged => exact ih
      | read _ hdata _ _ _ =>
        rw [hkind] at hdata
        cases hdata
      | adopted _ hcreate _ =>
        rw [hkind] at hcreate
        cases hcreate
      | forgotten hfile hforgets =>
        -- a log that is there has no rotated name
        exfalso
        obtain ⟨name', hname', hremove | ⟨-, hrotated⟩⟩ := hforgets
        · rw [hkind] at hremove
          cases hremove
        · obtain rfl : name = name' := Option.some.inj (fileName_log.symm.trans hname')
          rw [hname hpath hfile] at hrotated
          cases hrotated
    · obtain ⟨htailed, hposition⟩ := heffect.of_ne hne
      exact ⟨htailed.trans ih.1, hposition.trans ih.2⟩
  obtain ⟨before, rest, hwritten, hbefore, hrest, hemitted, hplace⟩ := h.rest
  obtain ⟨pos, hposition⟩ := h.position
  have hroom : (s.handled watchConfigs event queue).tx.room = none :=
    (congrArg Sender.room htx).trans h.receiver
  refine h.handle hqueue hroom (hsame.1.trans h.tailed) ⟨pos, hsame.2.trans hposition⟩ ?_
  refine ⟨before, rest, hwritten, hbefore, hrest, ?_, hplace.keep hqueue hsame.2 ?_ ?_⟩
  · rw [← hemitted]
    exact congrArg (fun tx : Sender => (linesFrom (log dir name) tx.sent).map TailLine.line) htx
  · rintro rfl
    cases hkind
  · rintro rfl
    cases hkind

/-- The event of a creation reads the log from its start, if it is adopted. -/
theorem Invariant.handle_creation (h : Invariant watchConfigs dir name s) {queue : List Event}
    (hqueue : s.queue = creation dir name :: queue)
    (htime : Waits watchConfigs dir name queue → onDisk s.fs (log dir name) = []) :
    Invariant watchConfigs dir name (s.handled watchConfigs (creation dir name) queue) := by
  obtain ⟨before, rest, hwritten, hbefore, hrest, hemitted, hplace⟩ := h.rest
  rcases onEvent_create s.fs s.st (log dir name) watchConfigs s.tx with
    ⟨hno, heq⟩ | ⟨hfile, hadopts, heq⟩
  · -- there is no log, or its creation is not adopted
    have hnone : s.fs.file (log dir name) = none ∨
        ¬ AdoptsCreated watchConfigs (log dir name) := by
      by_contra hboth
      obtain ⟨hsome, hadopts⟩ := not_or.mp hboth
      exact hno ⟨Option.isSome_iff_ne_none.mpr hsome, not_not.mp hadopts⟩
    rw [State.handled, creation, heq]
    refine h.handle hqueue h.receiver h.tailed h.position ?_
    exact ⟨before, rest, hwritten, hbefore, hrest, hemitted,
      hplace.keep hqueue rfl (fun _ => hnone) fun heq => absurd heq creation_ne_modification⟩
  · cases hplace with
    | absent hnone _ =>
      rw [FileSystem.isFile, hnone] at hfile
      cases hfile
    | read _ _ _ _ _ _ hnone _ =>
      rw [hqueue] at hnone
      exact absurd ⟨hadopts, List.mem_cons_self ..⟩ hnone
    | fresh hcontent _ =>
      have hread : s.fs.readToString (log dir name) = .ok rest := by
        rw [FileSystem.readToString, FileSystem.readToStringFrom_eq hcontent, List.drop_zero,
          Text.fromUtf8_bytes]
      rcases readExistingLines_cases s.fs ((s.st.track (log dir name)).setPosition (log dir name) 0)
        (log dir name) h.receiver with ⟨e, herror, -⟩ | ⟨content, hok, hreads⟩
      · rw [hread] at herror
        cases herror
      · obtain rfl : rest = content := Except.ok.inj (hread.symm.trans hok)
        rw [State.handled, creation, heq, hreads]
        have hposition : (((s.st.track (log dir name)).setPosition (log dir name) 0).setPosition
            (log dir name) (Text.resume rest)).positions (log dir name) =
              some (Text.len rest) := by
          rw [← hrest.resume_eq]
          exact Function.update_self _ _ _
        refine h.handle_read hqueue hwritten hbefore hrest hemitted (Function.update_self _ _ _)
          hposition fun tx => ?_
        by_cases hmore : Waits watchConfigs dir name queue
        · have hempty := htime hmore
          rw [onDisk_eq hcontent] at hempty
          obtain rfl := eq_empty_of_bytes hempty
          exact Place.fresh hcontent hmore
        · refine Place.read rest _ hrest ?_ hposition (Or.inl rfl) hmore fun hne => absurd rfl hne
          rw [String.append_empty]
          exact hcontent

/-- The event of a modification that finds nothing new, or no log. -/
theorem Invariant.handle_nothingNew (h : Invariant watchConfigs dir name s) {queue : List Event}
    (hqueue : s.queue = modification dir name :: queue)
    (hread : s.fs.file (log dir name) = none ∨ Waits watchConfigs dir name queue)
    (htime : Waits watchConfigs dir name queue →
      (onDisk s.fs (log dir name)).length ≤ s.position dir name) :
    Invariant watchConfigs dir name (s.handled watchConfigs (modification dir name) queue) := by
  obtain ⟨before, rest, hwritten, hbefore, hrest, hemitted, hplace⟩ := h.rest
  have hkeep : ∀ {st : TailerState} {tx : Sender}, tx.room = none →
      st.tailedFiles (log dir name) = true →
      st.positions (log dir name) = s.st.positions (log dir name) →
      linesFrom (log dir name) tx.sent = linesFrom (log dir name) s.tx.sent →
      Invariant watchConfigs dir name { s with st := st, tx := tx, queue := queue } := by
    intro st tx hroom htailed hposition hlines
    obtain ⟨pos, hsome⟩ := h.position
    refine h.handle hqueue hroom htailed ⟨pos, hposition.trans hsome⟩ ?_
    refine ⟨before, rest, hwritten, hbefore, hrest, ?_,
      hplace.keep hqueue hposition (fun heq => absurd heq.symm creation_ne_modification)
        fun _ => hread⟩
    rw [← hemitted, emitted, emitted, hlines]
  unfold State.handled
  rcases onEvent_modifyData s.fs s.st (log dir name) h.receiver watchConfigs
    (watchConfigs.map LogWatchConfig.directory) with
    heq | ⟨e, heq⟩ | ⟨pos, text, -, hpos, htext, heq⟩
  · rw [modification, heq]
    exact hkeep h.receiver h.tailed rfl rfl
  · rw [modification, heq, Sender.send_of_room_none h.receiver]
    refine hkeep h.receiver h.tailed rfl ?_
    rw [linesFrom_append]
    exact List.append_nil _
  · -- what is read is the end of the file
    have hend : (onDisk s.fs (log dir name)).length ≤ pos := by
      rcases hread with hnone | hmore
      · rw [onDisk, hnone]
        exact Nat.zero_le _
      · have hle := htime hmore
        rw [State.position, hpos] at hle
        exact hle
    obtain rfl := eq_empty_of_readToStringFrom htext hend
    rw [modification, heq]
    refine hkeep h.receiver h.tailed ?_ ?_
    · rw [hpos]
      exact Function.update_self _ _ _
    · rw [linesFrom_append]
      exact List.append_nil _

/-- The event of a modification, when what is left follows on what was read. -/
theorem handled_modification {done rest : String} {pos : ℕ} (h : Invariant watchConfigs dir name s)
    (hfile : s.fs.file (log dir name) = some ⟨Text.bytes (done ++ rest), true⟩)
    (hposition : s.st.positions (log dir name) = some pos)
    (hpos : pos = Text.len done ∨
      (¬ AdoptsCreated watchConfigs (log dir name) ∧ done ++ rest = ""))
    (queue : List Event) :
    s.handled watchConfigs (modification dir name) queue = { s with
      st := s.st.setPosition (log dir name) (pos + Text.resume rest)
      tx := { s.tx with sent := s.tx.sent ++ tailLines (log dir name) (Text.lines rest) pos }
      queue := queue } := by
  have htails : Delivery.Tails (log dir name) (Text.bytes (done ++ rest)) pos
      ⟨s.fs, s.st, s.tx⟩ := ⟨hfile, h.tailed, hposition, h.receiver⟩
  have htext : Text.fromUtf8 ((Text.bytes (done ++ rest)).drop pos) = some rest := by
    rcases hpos with rfl | ⟨-, hempty⟩
    · rw [Text.bytes_append, Text.drop_len_bytes, Text.fromUtf8_bytes]
    · obtain ⟨rfl, rfl⟩ := String.append_eq_empty_iff.mp hempty
      rw [Text.bytes_append, Text.bytes_empty, List.append_nil, List.drop_nil]
      rfl
  have hstep : (Delivery.tailing (log dir name) watchConfigs
      (watchConfigs.map LogWatchConfig.directory)).step ⟨s.fs, s.st, s.tx⟩ .modified = some _ :=
    Delivery.step_of_text (by rw [fileName_log]; rfl) htails htext
  exact congrArg (fun tailing : Delivery.Tailing =>
    ({ s with st := tailing.st, tx := tailing.tx, queue := queue } : State)) (Option.some.inj hstep)

/-- The event of a modification reads what follows on what was read. -/
theorem Invariant.handle_modification (h : Invariant watchConfigs dir name s) {queue : List Event}
    (hqueue : s.queue = modification dir name :: queue)
    (htime : Waits watchConfigs dir name queue →
      (onDisk s.fs (log dir name)).length ≤ s.position dir name) :
    Invariant watchConfigs dir name (s.handled watchConfigs (modification dir name) queue) := by
  by_cases hread : s.fs.file (log dir name) = none ∨ Waits watchConfigs dir name queue
  · exact h.handle_nothingNew hqueue hread htime
  · obtain ⟨hsome, hnone⟩ := not_or.mp hread
    obtain ⟨before, rest, hwritten, hbefore, hrest, hemitted, hplace⟩ := h.rest
    cases hplace with
    | absent hfile _ => exact absurd hfile hsome
    | fresh _ hwaits =>
      obtain ⟨hadopts, hmem⟩ := hwaits
      rw [hqueue] at hmem
      rcases List.mem_cons.mp hmem with heq | hmem
      · exact absurd heq creation_ne_modification
      · exact absurd ⟨hadopts, hmem⟩ hnone
    | read done pos hdone hfile hposition hpos _ _ =>
      have hposition' : (s.st.setPosition (log dir name) (pos + Text.resume rest)).positions
          (log dir name) = some (pos + Text.len rest) := by
        rw [← hrest.resume_eq]
        exact Function.update_self _ _ _
      rw [handled_modification h hfile hposition hpos]
      refine h.handle_read hqueue hwritten hbefore hrest hemitted h.tailed hposition' fun tx => ?_
      refine Place.read (done ++ rest) _ (hdone.append hrest) ?_ hposition' ?_ hnone
        fun hne => absurd rfl hne
      · rw [String.append_empty]
        exact hfile
      · rw [Text.len_append, String.append_empty]
        rcases hpos with rfl | hpos
        · exact Or.inl rfl
        · exact Or.inr hpos

/-! ## Runs -/

/-- Every step that is handled in time keeps the invariant. -/
theorem Invariant.step (h : Invariant watchConfigs dir name s) {label : Label}
    (htime : HandledInTime watchConfigs dir name s label)
    (hstep : (rotating watchConfigs dir name).step s label = some t) :
    Invariant watchConfigs dir name t := by
  cases label with
  | append text =>
    simp only [rotating, Option.ite_none_right_eq_some] at hstep
    obtain ⟨⟨hsome, htext⟩, hstep⟩ := hstep
    obtain rfl := Option.some.inj hstep
    exact h.append hsome htext htime
  | rename events =>
    simp only [rotating, Option.ite_none_right_eq_some] at hstep
    obtain ⟨-, hstep⟩ := hstep
    obtain rfl := Option.some.inj hstep
    exact h.rename htime
  | create =>
    simp only [rotating, Option.ite_none_right_eq_some] at hstep
    obtain ⟨hnone, hstep⟩ := hstep
    obtain rfl := Option.some.inj hstep
    exact h.create hnone
  | handle =>
    simp only [rotating] at hstep
    split at hstep
    · next event queue hqueue =>
      obtain rfl := Option.some.inj hstep
      simp only [HandledInTime, hqueue] at htime
      have hevent := h.queue event (by rw [hqueue]; exact List.mem_cons_self ..)
      rcases hevent with rfl | rfl | hkind
      · exact h.handle_modification hqueue (htime.1 rfl)
      · exact h.handle_creation hqueue (htime.2.1 rfl)
      · exact h.handle_renaming hqueue hkind (htime.2.2 hkind)
    · cases hstep

/-- **A rotation loses nothing** when every step of it is handled in time: when all events are
handled, every line that was written to the log is emitted once. -/
theorem allEmitted_of_handledInTime {labels : List Label} (hstart : Started dir name s)
    (htime : (rotating watchConfigs dir name).Along (HandledInTime watchConfigs dir name) s labels) :
    (rotating watchConfigs dir name).Always (AllEmitted dir name) s labels := by
  intro before after u hlabels hreached
  subst hlabels
  have hinv : Invariant watchConfigs dir name u := by
    refine hreached.invariant_along (I := fun _ s => Invariant watchConfigs dir name s)
      htime.of_append hstart.invariant ?_
    intro _ s label t h hcond hstep
    exact h.step hcond hstep
  exact hinv.allEmitted

end Steps

/-! ## Two rotations -/

instance (watchConfigs : List LogWatchConfig) (dir : Path) (name : String) (queue : List Event) :
    Decidable (Waits watchConfigs dir name queue) := inferInstanceAs (Decidable (_ ∧ _))

instance (watchConfigs : List LogWatchConfig) (dir : Path) (name : String) (s : State) :
    DecidablePred (HandledInTime watchConfigs dir name s)
  | .append _ => inferInstanceAs (Decidable (_ → _ → _))
  | .rename _ => inferInstanceAs (Decidable (_ ∨ _))
  | .create => .isTrue trivial
  | .handle => match h : s.queue with
    | event :: queue => decidable_of_iff
        ((event = modification dir name → Waits watchConfigs dir name queue →
          (onDisk s.fs (log dir name)).length ≤ s.position dir name) ∧
        (event = creation dir name → Waits watchConfigs dir name queue →
          onDisk s.fs (log dir name) = []) ∧
        (event.kind = .modifyName → log dir name ∈ event.paths →
          s.fs.isFile (log dir name) = true → isRotatedLog name = false))
        (by simp only [HandledInTime, h])
    | [] => .isTrue (by simp only [HandledInTime, h])

/-- A directory with one log of one line. -/
def oneLog : FileSystem where
  file := fun path =>
    if path = log [.text "logs"] "app.log" then some ⟨Text.bytes "old\n", true⟩ else none
  dir := fun path =>
    if path = [.text "logs"] then some [log [.text "logs"] "app.log"] else none

/-- The tailer has discovered and read it. -/
def discovered : State where
  fs := oneLog
  st := (initialRead oneLog [] everyName {}).1
  tx := (initialRead oneLog [] everyName {}).2
  written := "old\n"

theorem started_discovered : Started [.text "logs"] "app.log" discovered where
  file := by decide +kernel
  lines := by decide +kernel
  tailed := by decide +kernel
  position := by decide +kernel
  sent := by decide +kernel
  queue := rfl
  receiver := by decide +kernel

/-- The machine of the runs below. -/
def rotatingLogs : Machine State Label := rotating everyName [.text "logs"] "app.log"

/-- The renaming with an event for each name and one for both. -/
def renameBoth : Label :=
  .rename [[log [.text "logs"] "app.log"], [rotated [.text "logs"] "app.log"],
    [log [.text "logs"] "app.log", rotated [.text "logs"] "app.log"]]

/-- A line is read before the log is renamed; the rest is handled when all of it has happened. -/
def afterRead : List Label :=
  [.append "a\n", .handle, renameBoth, .create, .append "b\n", .handle, .handle, .handle, .handle,
    .handle]

theorem allEmitted_afterRead : ∃ s, rotatingLogs.Run discovered afterRead s ∧ s.queue = [] ∧
    emitted [.text "logs"] "app.log" s = ["old", "a", "b"] ∧
    rotatingLogs.Always (AllEmitted [.text "logs"] "app.log") discovered afterRead := by
  have hexec : (rotatingLogs.exec discovered afterRead).any (fun s =>
      s.queue = [] ∧ emitted [.text "logs"] "app.log" s = ["old", "a", "b"]) = true := by
    decide +kernel
  obtain ⟨s, hrun, h⟩ := Machine.exists_run_any hexec
  obtain ⟨hqueue, hlines⟩ := of_decide_eq_true h
  exact ⟨s, hrun, hqueue, hlines,
    allEmitted_of_handledInTime started_discovered (by decide +kernel)⟩

/-- The same writes, but no event is handled before the last of them. -/
def beforeRead : List Label :=
  [.append "a\n", renameBoth, .create, .append "b\n", .handle, .handle, .handle, .handle, .handle,
    .handle]

/-- **The line that was not read when the log was renamed is lost.** -/
theorem not_allEmitted_beforeRead : Started [.text "logs"] "app.log" discovered ∧
    ∃ s, rotatingLogs.Run discovered beforeRead s ∧ s.queue = [] ∧
      Text.lines s.written = ["old", "a", "b"] ∧
      emitted [.text "logs"] "app.log" s = ["old", "b"] ∧
      ¬ AllEmitted [.text "logs"] "app.log" s := by
  have hexec : (rotatingLogs.exec discovered beforeRead).any (fun s =>
      s.queue = [] ∧ Text.lines s.written = ["old", "a", "b"] ∧
        emitted [.text "logs"] "app.log" s = ["old", "b"]) = true := by
    decide +kernel
  obtain ⟨s, hrun, h⟩ := Machine.exists_run_any hexec
  obtain ⟨hqueue, hwritten, hlines⟩ := of_decide_eq_true h
  refine ⟨started_discovered, s, hrun, hqueue, hwritten, hlines, ?_⟩
  intro hall
  have hlength := (hall hqueue).length_eq
  rw [hwritten, hlines] at hlength
  cases hlength

end Sentinalysis.LogScanner.Rotation
