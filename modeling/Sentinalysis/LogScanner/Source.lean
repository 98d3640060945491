/-
# Sentinalysis.LogScanner.Source — log sources and the file-name conventions that define them.

A source is an nginx virtual host (from `<vhost>-access.log`) or a plain system log file.  The
scanner pipeline, the tailer and the viewer share the three functions of this file.
-/
import Sentinalysis.Lib.FileSystem

namespace Sentinalysis.LogScanner

open Lib

/-- The kind of a source: a vhost is matched on `services.virtual_host`, a system log on
`services.name` with no virtual host set. -/
inductive SourceKind
  | Vhost
  | SystemLog
  deriving DecidableEq, Repr

/-- One discoverable log source. -/
structure Source where
  name : String
  kind : SourceKind
  deriving DecidableEq, Repr

def Source.vhost (name : String) : Source := ⟨name, .Vhost⟩

def Source.systemLog (name : String) : Source := ⟨name, .SystemLog⟩

/-- The suffix of a vhost access log. -/
def accessLogSuffix : String := "-access.log"

/-- `vhost_from_file_path`: the virtual host of a `<vhost>-access.log` file. -/
def vhostFromFilePath (filePath : Path) : Option String :=
  match filePath.fileName with
  | some name =>
    if Text.endsWith name accessLogSuffix then some (Text.trimEndMatches name accessLogSuffix)
    else none
  | none => none

/-- `is_rotated_log`: the text after the last dot is a non-empty run of ASCII digits. -/
def isRotatedLog (fileName : String) : Bool :=
  match Text.afterLast fileName '.' with
  | some suffix => !suffix.isEmpty && suffix.all Char.isDigit
  | none => false

example : isRotatedLog "access.log.1" = true := by decide

example : vhostFromFilePath (Path.join [] "api.example.com-access.log") = some "api.example.com" := by
  decide

end Sentinalysis.LogScanner
