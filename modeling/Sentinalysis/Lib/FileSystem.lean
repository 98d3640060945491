/-
# Sentinalysis.Lib.FileSystem — paths, regular files and the reads a log reader makes.

A path is its list of normal components; a component is text or, as the operating system allows, a
byte string that is not UTF-8.  A regular file is its bytes and whether it may be opened.  Reads
are functions of one snapshot: a caller that reads twice passes two snapshots.
-/
import Sentinalysis.Lib.Text

namespace Sentinalysis.Lib

/-- One component of a path. -/
inductive OsString
  | text (s : String)
  | raw (b : List UInt8)
  deriving DecidableEq, Repr

/-- `OsStr::to_str`. -/
def OsString.toStr : OsString → Option String
  | .text s => some s
  | .raw _ => none

/-- The components of a path from the root; `Path` and `PathBuf` are not distinguished. -/
abbrev Path := List OsString

instance : LawfulBEq Path := inferInstanceAs (LawfulBEq (List OsString))

namespace Path

/-- `Path::file_name` followed by `OsStr::to_str`. -/
def fileName (p : Path) : Option String := p.getLast?.bind OsString.toStr

/-- `Path::starts_with`: whole components. -/
def startsWith (p base : Path) : Bool := base.isPrefixOf p

/-- `Path::join` with a file name. -/
def join (dir : Path) (name : String) : Path := dir ++ [.text name]

@[simp] theorem fileName_join (dir : Path) (name : String) : (join dir name).fileName = some name := by
  simp [fileName, join, OsString.toStr]

end Path

/-- The kinds of I/O failure a reader meets. -/
inductive IoError
  | notFound
  | permissionDenied
  | invalidData
  deriving DecidableEq, Repr

/-- A regular file: what it holds and whether it may be opened for reading. -/
structure RegularFile where
  content : List UInt8
  readable : Bool := true
  deriving DecidableEq, Repr

/-- A snapshot of the file system: the regular files and the directory listings. -/
structure FileSystem where
  file : Path → Option RegularFile
  dir : Path → Option (List Path)

namespace FileSystem

variable (fs : FileSystem)

/-- `Path::is_file`. -/
def isFile (p : Path) : Bool := (fs.file p).isSome

/-- `File::open`, `seek` to `pos` and `read_to_string`: the text from byte `pos` on. A seek past the
end is allowed and reads nothing. -/
def readToStringFrom (p : Path) (pos : ℕ) : Except IoError String :=
  match fs.file p with
  | none => .error .notFound
  | some f =>
    if f.readable then
      match Text.fromUtf8 (f.content.drop pos) with
      | some s => .ok s
      | none => .error .invalidData
    else .error .permissionDenied

/-- `fs::read_to_string`. -/
def readToString (p : Path) : Except IoError String := fs.readToStringFrom p 0

/-- `fs::read_dir`. -/
def readDir (p : Path) : Except IoError (List Path) :=
  match fs.dir p with
  | some entries => .ok entries
  | none => .error .notFound

/-- Puts a regular file at `p`. -/
def write (p : Path) (f : RegularFile) : FileSystem :=
  { fs with file := Function.update fs.file p (some f) }

/-- Appends bytes to the regular file at `p`, if there is one. -/
def append (p : Path) (b : List UInt8) : FileSystem :=
  match fs.file p with
  | some f => fs.write p { f with content := f.content ++ b }
  | none => fs

variable {fs}

@[simp] theorem file_write (p : Path) (f : RegularFile) : (fs.write p f).file p = some f := by
  simp [write]

theorem file_append {p : Path} {f : RegularFile} (h : fs.file p = some f) (b : List UInt8) :
    (fs.append p b).file p = some { f with content := f.content ++ b } := by
  simp [append, h]

theorem isFile_of_file {p : Path} {f : RegularFile} (h : fs.file p = some f) :
    fs.isFile p = true := by
  rw [isFile, h]
  rfl

theorem readToStringFrom_eq {p : Path} {content : List UInt8} (h : fs.file p = some ⟨content, true⟩)
    (pos : ℕ) :
    fs.readToStringFrom p pos = match Text.fromUtf8 (content.drop pos) with
      | some s => .ok s
      | none => .error .invalidData := by
  simp [readToStringFrom, h]

end FileSystem

end Sentinalysis.Lib
