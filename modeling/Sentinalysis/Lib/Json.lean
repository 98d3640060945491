/-
# Sentinalysis.Lib.Json — JSON values, and the text that `serde_json` writes for them.
-/
import Mathlib.Init
import Sentinalysis.Lib.Text

namespace Sentinalysis.Lib

/-- A JSON value; a number is known by its printed form, an object has its members in order. -/
inductive Json
  | null
  | bool (value : Bool)
  | number (printed : String)
  | string (value : String)
  | array (values : List Json)
  | object (members : List (String × Json))
  deriving Repr

namespace Json

def isObject : Json → Bool
  | object _ => true
  | _ => false

/-! ## The texts in a value -/

mutual

/-- The strings of a value, the names of its members among them. -/
def texts : Json → List String
  | string value => [value]
  | array values => textsOfValues values
  | object members => textsOfMembers members
  | _ => []

def textsOfValues : List Json → List String
  | [] => []
  | value :: values => value.texts ++ textsOfValues values

def textsOfMembers : List (String × Json) → List String
  | [] => []
  | (name, value) :: members => name :: value.texts ++ textsOfMembers members

end

/-! ## Writing -/

/-- A character of a string: quotes, backslashes and controls are escaped. -/
def escapeChar (c : Char) : List Char :=
  if c = '"' then ['\\', '"']
  else if c = '\\' then ['\\', '\\']
  else if c = '\x08' then ['\\', 'b']
  else if c = '\t' then ['\\', 't']
  else if c = '\n' then ['\\', 'n']
  else if c = '\x0c' then ['\\', 'f']
  else if c = '\r' then ['\\', 'r']
  else if c.toNat < 0x20 then
    "\\u00".toList ++ [Nat.digitChar (c.toNat / 16), Nat.digitChar (c.toNat % 16)]
  else [c]

def writeString (value : String) : List Char := '"' :: value.toList.flatMap escapeChar ++ ['"']

mutual

/-- `serde_json::to_vec`, as text. -/
def write : Json → List Char
  | null => "null".toList
  | bool value => (if value then "true" else "false").toList
  | number printed => printed.toList
  | string value => writeString value
  | array values => '[' :: writeValues values ++ [']']
  | object members => '\x7b' :: writeMembers members ++ ['\x7d']

/-- Values with commas between them. -/
def writeValues : List Json → List Char
  | [] => []
  | [value] => value.write
  | value :: values => value.write ++ ',' :: writeValues values

def writeMembers : List (String × Json) → List Char
  | [] => []
  | [(name, value)] => writeString name ++ ':' :: value.write
  | (name, value) :: members =>
    writeString name ++ ':' :: value.write ++ ',' :: writeMembers members

end

/-- The size of a value in bytes. -/
def size (value : Json) : ℕ := Text.len (String.ofList value.write)

example : size (object [("a\x00", array [null, number "12"])]) = 21 := by decide +kernel

end Json

end Sentinalysis.Lib
