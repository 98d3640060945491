/-
# Sentinalysis.Error — the error type of the whole program.

Errors of external libraries are carried as their message; I/O errors as their kind.
-/
import Sentinalysis.Lib.FileSystem

namespace Sentinalysis

/-- `SentinelError`. -/
inductive SentinelError
  | ParseError (msg : String)
  | Io (err : Lib.IoError)
  | DatabaseError (msg : String)
  | ConfigError (msg : String)
  | AuthError (msg : String)
  | FileTailingError (msg : String)
  | ServiceError (msg : String)
  | Internal (msg : String)
  deriving DecidableEq, Repr

/-- The texts of `std::io::Error`. -/
def Lib.IoError.display : Lib.IoError → String
  | .notFound => "No such file or directory (os error 2)"
  | .permissionDenied => "Permission denied (os error 13)"
  | .invalidData => "stream did not contain valid UTF-8"

def SentinelError.display : SentinelError → String
  | .ParseError msg => "parse error: " ++ msg
  | .Io err => "IO error: " ++ err.display
  | .DatabaseError msg => "database error: " ++ msg
  | .ConfigError msg => "config error: " ++ msg
  | .AuthError msg => "auth error: " ++ msg
  | .FileTailingError msg => "file tailing error: " ++ msg
  | .ServiceError msg => "service error: " ++ msg
  | .Internal msg => "internal error: " ++ msg

/-- A step of a `do` block that ends well, and what follows it. -/
theorem Lib.bind_eq_ok_iff {ε α β : Type} {x : Except ε α} {f : α → Except ε β} {b : β} :
    (x >>= f) = .ok b ↔ ∃ a, x = .ok a ∧ f a = .ok b := by
  cases x <;> simp [bind, Except.bind]

end Sentinalysis
