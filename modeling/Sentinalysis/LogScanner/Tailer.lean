/-
# Sentinalysis.LogScanner.Tailer — the tailer's state machine: `TailerState` and its reaction to
one file-system event.

`TailerState` owns what survives between events: the byte position to resume reading from, per
file, and the set of files being tailed.  Every function takes the snapshot of the file system it
reads and the sender it emits on, and returns the sender and the state it leaves behind.  Waiting
for a new file to settle only passes time, so it leaves no trace in the model.
-/
import Sentinalysis.Error
import Sentinalysis.LogScanner.Source
import Sentinalysis.Lib.Transition

namespace Sentinalysis.LogScanner

open Lib

/-! ## What the tailer emits and watches -/

/-- One tailed line: the file, the text, and the byte offset the tailer gives for its start. -/
structure TailLine where
  filePath : Path
  line : String
  byteOffset : ℕ
  deriving DecidableEq, Repr

/-- A tailed line or the error that stopped production. -/
abbrev TailEvent := Except SentinelError TailLine

/-- The sending half of the line channel: what went through, and after how many more sends the
receiver is found to be gone (`none`: it stays). -/
structure Sender where
  sent : List TailEvent := []
  room : Option ℕ := none

/-- `Sender::send`; `false` when the receiver is gone. -/
def Sender.send (tx : Sender) (event : TailEvent) : Sender × Bool :=
  match tx.room with
  | none => ({ tx with sent := tx.sent ++ [event] }, true)
  | some 0 => (tx, false)
  | some (n + 1) => ({ sent := tx.sent ++ [event], room := some n }, true)

/-- With a receiver that stays, an event goes through. -/
theorem Sender.send_of_room_none {tx : Sender} (h : tx.room = none) (event : TailEvent) :
    tx.send event = ({ tx with sent := tx.sent ++ [event] }, true) := by
  unfold Sender.send
  split
  · rfl
  · simp_all
  · simp_all

/-- The line texts that went through, in order. -/
def Sender.texts (tx : Sender) : List String :=
  tx.sent.filterMap fun
    | .ok line => some line.line
    | .error _ => none

/-- A watched directory and the file-name glob to tail in it; a compiled glob is the set of names it
matches. -/
structure LogWatchConfig where
  directory : Path
  pattern : String → Bool

/-- `notify::EventKind`, as far as the tailer tells kinds apart. -/
inductive EventKind
  | modifyData
  | modifyName
  | modifyOther
  | create
  | remove
  | other
  deriving DecidableEq, Repr

/-- A `notify` event: its kind and the paths it names. -/
structure Event where
  kind : EventKind
  paths : List Path
  deriving DecidableEq, Repr

/-- Resumable reading state for the files and directories being tailed. -/
structure TailerState where
  positions : Path → Option ℕ
  tailedFiles : Path → Bool

namespace TailerState

/-- `TailerState::new`. -/
def new (initialFiles : List Path) : TailerState where
  positions := fun _ => none
  tailedFiles := fun p => p ∈ initialFiles

def setPosition (st : TailerState) (p : Path) (pos : ℕ) : TailerState :=
  { st with positions := Function.update st.positions p (some pos) }

def track (st : TailerState) (p : Path) : TailerState :=
  { st with tailedFiles := Function.update st.tailedFiles p true }

def forget (st : TailerState) (p : Path) : TailerState where
  positions := Function.update st.positions p none
  tailedFiles := Function.update st.tailedFiles p false

/-- The loop both readers share: sends one `TailLine` for each line, the offset growing by the
line's length and one.  The flag says whether every send went through. -/
def emitLines (file : Path) : List String → ℕ → Sender → Sender × ℕ × Bool
  | [], offset, tx => (tx, offset, true)
  | line :: lines, offset, tx =>
    match tx.send (.ok { filePath := file, line := line, byteOffset := offset }) with
    | (tx, true) => emitLines file lines (offset + (Text.len line + 1)) tx
    | (tx, false) => (tx, offset, false)

/-- `read_existing_lines`: emits everything already in `file` and records where it stopped. -/
def readExistingLines (fs : FileSystem) (st : TailerState) (file : Path) (tx : Sender) :
    Except SentinelError Unit × TailerState × Sender :=
  match fs.readToString file with
  | .error e => (.error (.Io e), st, tx)
  | .ok content =>
    let (tx, offset, _) := emitLines file (Text.lines content) 0 tx
    (.ok (), st.setPosition file offset, tx)

/-- One directory entry of `discover_existing_logs`. -/
def discoverEntry (fs : FileSystem) (cfg : LogWatchConfig) (st : TailerState × Sender)
    (path : Path) : TailerState × Sender :=
  let (st, tx) := st
  if !fs.isFile path then (st, tx)
  else match path.fileName with
    | none => (st, tx)
    | some fileName =>
      if !cfg.pattern fileName || isRotatedLog fileName then (st, tx)
      else if st.tailedFiles path then (st, tx)
      else
        let (_, st, tx) := readExistingLines fs (st.track path) path tx
        (st, tx)

/-- `discover_existing_logs`: adopts and reads every matching, non-rotated file of the directory
that is not tailed yet. -/
def discoverExistingLogs (fs : FileSystem) (st : TailerState) (cfg : LogWatchConfig)
    (tx : Sender) : Except SentinelError Unit × TailerState × Sender :=
  match fs.readDir cfg.directory with
  | .error e => (.error (.Io e), st, tx)
  | .ok entries =>
    let (st, tx) := entries.foldl (discoverEntry fs cfg) (st, tx)
    (.ok (), st, tx)

/-- `find_matching_config`: the first configuration whose directory is watched and contains the
path, at any depth. -/
def findMatchingConfig (path : Path) (watchConfigs : List LogWatchConfig)
    (watchedDirs : List Path) : Option LogWatchConfig :=
  watchConfigs.find? fun cfg =>
    decide (cfg.directory ∈ watchedDirs) && path.startsWith cfg.directory

/-- How the loop over an event's paths goes on: to the next path, or out of `handle_event` because
the receiver is gone. -/
inductive PathOutcome
  | next
  | receiverGone
  deriving DecidableEq, Repr

/-- The data branch of `handle_event`: reads the new bytes of a tailed file from its position. -/
def handleData (fs : FileSystem) (st : TailerState) (path : Path) (tx : Sender) :
    Except SentinelError PathOutcome × TailerState × Sender :=
  match st.positions path with
  | none => (.ok .next, st, tx)
  | some pos =>
    match fs.readToStringFrom path pos with
    | .error e => (.error (.Io e), st, tx)
    | .ok newContent =>
      match emitLines path (Text.lines newContent) pos tx with
      | (tx, offset, true) => (.ok .next, st.setPosition path offset, tx)
      | (tx, _, false) => (.ok .receiverGone, st, tx)

/-- The create branch of `handle_event`: adopts a matching file and reads it from the start. A
failed read is only logged. -/
def handleCreate (fs : FileSystem) (st : TailerState) (path : Path) (fileName : String)
    (watchConfigs : List LogWatchConfig) (watchedDirs : List Path) (tx : Sender) :
    TailerState × Sender :=
  match findMatchingConfig path watchConfigs watchedDirs with
  | none => (st, tx)
  | some cfg =>
    if cfg.pattern fileName then
      let (_, st, tx) := readExistingLines fs ((st.track path).setPosition path 0) path tx
      (st, tx)
    else (st, tx)

/-- One path of an event. -/
def handlePath (fs : FileSystem) (st : TailerState) (kind : EventKind) (path : Path)
    (watchConfigs : List LogWatchConfig) (watchedDirs : List Path) (tx : Sender) :
    Except SentinelError PathOutcome × TailerState × Sender :=
  if !fs.isFile path then (.ok .next, st, tx)
  else match path.fileName with
    | none => (.ok .next, st, tx)
    | some fileName =>
      if kind = .modifyData ∧ st.tailedFiles path = true then handleData fs st path tx
      else if kind = .create ∧ isRotatedLog fileName = false then
        let (st, tx) := handleCreate fs st path fileName watchConfigs watchedDirs tx
        (.ok .next, st, tx)
      else if kind = .remove ∨ (kind = .modifyName ∧ isRotatedLog fileName = true) then
        (.ok .next, st.forget path, tx)
      else (.ok .next, st, tx)

/-- The loop of `handle_event` over the paths of an event. -/
def handlePaths (fs : FileSystem) (kind : EventKind) (watchConfigs : List LogWatchConfig)
    (watchedDirs : List Path) :
    List Path → TailerState → Sender → Except SentinelError Unit × TailerState × Sender
  | [], st, tx => (.ok (), st, tx)
  | path :: paths, st, tx =>
    match handlePath fs st kind path watchConfigs watchedDirs tx with
    | (.error e, st, tx) => (.error e, st, tx)
    | (.ok .receiverGone, st, tx) => (.ok (), st, tx)
    | (.ok .next, st, tx) => handlePaths fs kind watchConfigs watchedDirs paths st tx

/-- `handle_event`: the paths of the event in order, until one of them fails or the receiver is
found to be gone. -/
def handleEvent (fs : FileSystem) (st : TailerState) (event : Event)
    (watchConfigs : List LogWatchConfig) (watchedDirs : List Path) (tx : Sender) :
    Except SentinelError Unit × TailerState × Sender :=
  handlePaths fs event.kind watchConfigs watchedDirs event.paths st tx

/-- `let _ = tx.send(Err(e)).await`: a failure goes out on the line channel. -/
def report : Except SentinelError Unit × TailerState × Sender → TailerState × Sender
  | (.ok _, st, tx) => (st, tx)
  | (.error e, st, tx) => (st, (tx.send (.error e)).1)

/-- The initial read of the tailing loop: the explicit files, then the watched directories. -/
def initialRead (fs : FileSystem) (files : List Path) (watchConfigs : List LogWatchConfig)
    (tx : Sender) : TailerState × Sender :=
  let read := files.foldl (fun (st, tx) file => report (readExistingLines fs st file tx))
    (new files, tx)
  watchConfigs.foldl (fun (st, tx) cfg => report (discoverExistingLogs fs st cfg tx)) read

/-- The event arm of the tailing loop. -/
def onEvent (fs : FileSystem) (st : TailerState) (event : Event)
    (watchConfigs : List LogWatchConfig) (watchedDirs : List Path) (tx : Sender) :
    TailerState × Sender :=
  report (handleEvent fs st event watchConfigs watchedDirs tx)

/-! ## What one read emits -/

/-- The lines of a text as `TailLine`s from a given offset on. -/
def tailLines (file : Path) : List String → ℕ → List TailEvent
  | [], _ => []
  | line :: lines, offset =>
    .ok { filePath := file, line := line, byteOffset := offset }
      :: tailLines file lines (offset + (Text.len line + 1))

theorem texts_tailLines (file : Path) (lines : List String) (offset : ℕ) (tx : Sender) :
    ({ tx with sent := tx.sent ++ tailLines file lines offset } : Sender).texts
      = tx.texts ++ lines := by
  suffices h : ∀ offset, (tailLines file lines offset).filterMap
      (fun | .ok line => some line.line | .error _ => none) = lines by
    simp [Sender.texts, List.filterMap_append, h]
  induction lines with
  | nil => intro _; rfl
  | cons line lines ih => intro offset; simp [tailLines, ih]

/-- With a receiver that stays, every line goes through and the offset ends past all of them. -/
theorem emitLines_of_room_none (file : Path) (lines : List String) (offset : ℕ) {tx : Sender}
    (h : tx.room = none) :
    emitLines file lines offset tx
      = ({ tx with sent := tx.sent ++ tailLines file lines offset },
          offset + (lines.map fun line => Text.len line + 1).sum, true) := by
  induction lines generalizing offset tx with
  | nil => simp [emitLines, tailLines]
  | cons line lines ih =>
    have hroom : ({ tx with sent := tx.sent ++ [.ok ⟨file, line, offset⟩] } : Sender).room = none := h
    have hrest := ih (offset + (Text.len line + 1)) hroom
    simp only [emitLines, Sender.send_of_room_none h, hrest]
    simp [tailLines, Nat.add_assoc]

/-- **The event of a modification** of a file that is tailed from a position. -/
theorem onEvent_data {fs : FileSystem} {st : TailerState} {path : Path} {name : String} {pos : ℕ}
    (hfile : fs.isFile path = true) (hname : path.fileName = some name)
    (htailed : st.tailedFiles path = true) (hposition : st.positions path = some pos)
    (watchConfigs : List LogWatchConfig) (watchedDirs : List Path) (tx : Sender) :
    onEvent fs st ⟨.modifyData, [path]⟩ watchConfigs watchedDirs tx =
      match fs.readToStringFrom path pos with
      | .error e => (st, (tx.send (.error (.Io e))).1)
      | .ok text => match emitLines path (Text.lines text) pos tx with
        | (tx, offset, true) => (st.setPosition path offset, tx)
        | (tx, _, false) => (st, tx) := by
  unfold onEvent handleEvent handlePaths handlePath handleData
  simp only [hfile, hname, htailed, hposition, Bool.not_true, Bool.false_eq_true, if_false,
    and_self, if_true]
  cases fs.readToStringFrom path pos with
  | error e => rfl
  | ok text =>
    dsimp only
    rcases emitLines path (Text.lines text) pos tx with ⟨tx, offset, _ | _⟩
    · rfl
    · rfl

/-- A path that has no UTF-8 name, or is not a file that is tailed from a position, is passed
over. -/
theorem onEvent_data_skipped {fs : FileSystem} {st : TailerState} {path : Path}
    (h : fs.isFile path = false ∨ path.fileName = none ∨ st.tailedFiles path = false ∨
      st.positions path = none)
    (watchConfigs : List LogWatchConfig) (watchedDirs : List Path) (tx : Sender) :
    onEvent fs st ⟨.modifyData, [path]⟩ watchConfigs watchedDirs tx = (st, tx) := by
  unfold onEvent handleEvent handlePaths handlePath
  rcases h with hfile | hname | htailed | hposition
  · simp [hfile, handlePaths, report]
  · cases fs.isFile path <;> simp [hname, handlePaths, report]
  · cases fs.isFile path <;> cases path.fileName <;> simp [htailed, handlePaths, report]
  · cases fs.isFile path <;> cases path.fileName <;> cases st.tailedFiles path <;>
      simp [handleData, hposition, handlePaths, report]

end TailerState

end Sentinalysis.LogScanner
