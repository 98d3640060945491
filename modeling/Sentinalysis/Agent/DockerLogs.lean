/-
# Sentinalysis.Agent.DockerLogs — reading the log file of a container.

A container's log file holds one JSON object a line, the envelope of a log line.  The reader keeps
the offset up to which it has read; when the watcher reports a change it takes the size of the file,
reads from its offset to the end, and keeps the size as its next offset.  Reading JSON and dates is
left to their libraries.
-/
import Sentinalysis.Agent.Loop
import Sentinalysis.Lib.Chrono
import Sentinalysis.Lib.FileSystem

namespace Sentinalysis.Agent

open Lib

/-- `Envelope`, with the defaults for absent fields. -/
structure Envelope where
  log : String := ""
  stream : String := ""
  time : Option String := none
  deriving DecidableEq, Repr

/-- What the libraries read: `serde_json::from_str` for an `Envelope`, and dates. -/
structure EnvelopeReader where
  fromStr : String → Option Envelope
  chrono : Chrono

/-- `Tailed`: a container whose log is being tailed. -/
structure Tailed where
  name : String
  logPath : Path
  offset : ℕ
  deriving DecidableEq, Repr

/-- The envelope as a log line; `now` is the clock, for an envelope without a time. -/
def Envelope.toLine (chrono : Chrono) (now : ℤ) (envelope : Envelope) : DockerLogLine where
  timestampMs :=
    ((envelope.time.bind chrono.parseFromRfc3339).map DateTime.timestampMillis).getD now
  -- to be filled by the caller
  container := ""
  stream := if envelope.stream = "" then "stdout" else envelope.stream
  message := Text.trimEndMatches (Text.trimEndMatches envelope.log "\n") "\r"

/-- `parse_envelope`: an envelope without text is skipped like a malformed line. -/
def parseEnvelope (reader : EnvelopeReader) (now : ℤ) (raw : String) : Option DockerLogLine :=
  ((reader.fromStr raw).filter fun envelope => envelope.log ≠ "").map
    (Envelope.toLine reader.chrono now)

/-- The offset after the size of the file is known: a truncated file is read from its start. -/
def Tailed.reset (tailed : Tailed) (size : ℕ) : Tailed :=
  if size < tailed.offset then { tailed with offset := 0 } else tailed

/-- `seek` and `read_to_string`, on what the file holds. -/
def Tailed.readToString (tailed : Tailed) (content : List UInt8) : Option String :=
  Text.fromUtf8 (content.drop tailed.offset)

/-- The lines of a buffer, after it was read. -/
def parseLines (reader : EnvelopeReader) (now : ℤ) (buf : String) : List DockerLogLine :=
  (Text.lines buf).filterMap (parseEnvelope reader now)

/-- `read_new_lines`; `size` is the size of the file when it was opened, `content` what it holds
when it is read, each if there is no failure. -/
def readNewLines (reader : EnvelopeReader) (now : ℤ) (tailed : Tailed) (size : Option ℕ)
    (content : Option (List UInt8)) : List DockerLogLine × Tailed :=
  match size with
  | none => ([], tailed)
  | some size =>
    if size = (tailed.reset size).offset then ([], tailed.reset size)
    else match content.bind (tailed.reset size).readToString with
      | none => ([], tailed.reset size)
      | some buf => (parseLines reader now buf, { tailed.reset size with offset := size })

section ReadNewLines

variable {reader : EnvelopeReader} {now : ℤ} {tailed : Tailed} {size : ℕ} {content : List UInt8}

/-- Nothing is new. -/
theorem readNewLines_of_eq (h : size = (tailed.reset size).offset)
    (content : Option (List UInt8)) :
    readNewLines reader now tailed (some size) content = ([], tailed.reset size) := by
  simp only [readNewLines, if_pos h]

/-- What is new is no text. -/
theorem readNewLines_of_none (h : size ≠ (tailed.reset size).offset)
    (hread : (tailed.reset size).readToString content = none) :
    readNewLines reader now tailed (some size) (some content) = ([], tailed.reset size) := by
  simp only [readNewLines, if_neg h, Option.bind_some, hread]

theorem readNewLines_of_some {buf : String} (h : size ≠ (tailed.reset size).offset)
    (hread : (tailed.reset size).readToString content = some buf) :
    readNewLines reader now tailed (some size) (some content) =
      (parseLines reader now buf, { tailed.reset size with offset := size }) := by
  simp only [readNewLines, if_neg h, Option.bind_some, hread]

end ReadNewLines

/-- An envelope that is parsed has text, and its line has no container yet. -/
theorem parseEnvelope_eq_some_iff {reader : EnvelopeReader} {now : ℤ} {raw : String}
    {line : DockerLogLine} : parseEnvelope reader now raw = some line ↔
      ∃ envelope, reader.fromStr raw = some envelope ∧ envelope.log ≠ "" ∧
        envelope.toLine reader.chrono now = line := by
  simp only [parseEnvelope, Option.map_eq_some_iff, Option.filter_eq_some_iff, decide_eq_true_eq,
    and_assoc]

end Sentinalysis.Agent
