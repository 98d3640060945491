/-
# Sentinalysis.Lib.Sql — what a multi-row `INSERT` with placeholders says.

The statement names a table and its columns, and has a tuple of placeholders for each row.  A
placeholder `$n` stands for the n-th of the values that are bound, counted from one.  The tuples are
read by an automaton, one character at a time, so that a statement that is built piece by piece is
read piece by piece.
-/
import Sentinalysis.Lib.IpAddr

namespace Sentinalysis.Lib.Sql

variable {β : Type}

/-! ## Tuples -/

/-- Where the reader of the tuples is: before a tuple, after one, before a placeholder, or in one,
with the number so far. -/
inductive Mode
  | before
  | after
  | inside
  | placeholder (n : Option ℕ)
  deriving DecidableEq, Repr

/-- The tuples that were read, and the values of the one that is not over. -/
structure Reader (β : Type) where
  tuples : List (List β) := []
  tuple : List β := []
  mode : Mode := .before

/-- The value of a placeholder. -/
def value (args : List β) (n : ℕ) : Option β := if n = 0 then none else args[n - 1]?

/-- One character. -/
def Reader.read (args : List β) (r : Reader β) (c : Char) : Option (Reader β) :=
  match r.mode with
  | .before =>
    if c = ' ' then some r else if c = '(' then some { r with mode := .inside } else none
  | .after => if c = ' ' then some r else if c = ',' then some { r with mode := .before } else none
  | .inside =>
    if c = ' ' then some r else if c = '$' then some { r with mode := .placeholder none } else none
  | .placeholder n =>
    if c.isDigit then
      some { r with mode := .placeholder (some (n.getD 0 * 10 + (c.toNat - '0'.toNat))) }
    else do
      let value ← value args (← n)
      if c = ',' then some { r with tuple := r.tuple ++ [value], mode := .inside }
      else if c = ')' then
        some { tuples := r.tuples ++ [r.tuple ++ [value]], tuple := [], mode := .after }
      else none

/-- A text, from a reader on. -/
def Reader.readText (args : List β) (r : Reader β) (text : List Char) : Option (Reader β) :=
  text.foldlM (Reader.read args) r

/-- The tuples of a text. -/
def readTuples (args : List β) (text : List Char) : Option (List (List β)) := do
  let r ← Reader.readText args {} text
  if r.mode = .after then some r.tuples else none

/-! ## Statements -/

/-- A table, and the rows that are put into it: each value under its column. -/
structure Insert (β : Type) where
  table : String
  rows : List (List (String × β))

/-- The names between the parentheses. -/
def columnNames (text : List Char) : List String :=
  (text.splitOn ',').map fun column => String.ofList (column.filter (· ≠ ' '))

/-- `INSERT INTO table (columns)VALUES (tuples)`; a tuple that is not as long as the list of columns
is refused. -/
def readInsert (sql : String) (args : List β) : Option (Insert β) := do
  let rest := (sql.toList.dropWhile (· ≠ '(')).drop 1
  let table ← "INSERT INTO ".toList.isPrefixOf? (sql.toList.takeWhile (· ≠ '('))
  let columns := columnNames (rest.takeWhile (· ≠ ')'))
  let text ← "VALUES ".toList.isPrefixOf? ((rest.dropWhile (· ≠ ')')).drop 1)
  let tuples ← readTuples args text
  if ∀ tuple ∈ tuples, tuple.length = columns.length then
    some
      { table := String.ofList (table.filter (· ≠ ' '))
        rows := tuples.map (columns.zip ·) }
  else none

/-- A statement is read by its parts. -/
theorem readInsert_eq {sql : String} {args : List β} {table columns text : List Char}
    {tuples : List (List β)} (hsql : sql.toList = "INSERT INTO ".toList ++ table ++
      '(' :: (columns ++ ')' :: ("VALUES ".toList ++ text)))
    (htable : '(' ∉ table) (hcolumns : ')' ∉ columns) (htuples : readTuples args text = some tuples)
    (hlength : ∀ tuple ∈ tuples, tuple.length = (columnNames columns).length) :
    readInsert sql args = some
      { table := String.ofList (table.filter (· ≠ ' '))
        rows := tuples.map ((columnNames columns).zip ·) } := by
  have hprefix : ∀ pre rest : List Char, pre.isPrefixOf? (pre ++ rest) = some rest :=
    fun pre rest => List.isPrefixOf?_eq_some_iff_append_eq.mpr rfl
  have hhead : ∀ c ∈ "INSERT INTO ".toList ++ table, decide (c ≠ '(') = true := by
    intro c hc
    rw [decide_eq_true_eq]
    rintro rfl
    rcases List.mem_append.mp hc with hc | hc
    · exact absurd hc (by decide)
    · exact htable hc
  have hnames : ∀ c ∈ columns, decide (c ≠ ')') = true := by
    intro c hc
    rw [decide_eq_true_eq]
    rintro rfl
    exact hcolumns hc
  unfold readInsert
  rw [hsql, List.takeWhile_append_of_pos hhead, List.dropWhile_append_of_pos hhead,
    List.takeWhile_cons_of_neg (by decide), List.dropWhile_cons_of_neg (by decide),
    List.append_nil, hprefix]
  simp only [Option.bind_eq_bind, Option.bind_some, List.drop_one, List.tail_cons]
  rw [List.takeWhile_append_of_pos hnames, List.dropWhile_append_of_pos hnames,
    List.takeWhile_cons_of_neg (by decide), List.dropWhile_cons_of_neg (by decide),
    List.append_nil, List.tail_cons, hprefix]
  simp only [Option.bind_some, htuples]
  exact if_pos hlength

/-! ## Reading piece by piece -/

section Pieces

variable {args : List β} {r r' : Reader β}

theorem Reader.readText_append (text more : List Char) : r.readText args (text ++ more) =
    (r.readText args text).bind fun r' => r'.readText args more := by
  simp [Reader.readText, List.foldlM_append]

/-- The digits of a number. -/
theorem Reader.readText_toDigits (hmode : r.mode = .placeholder none) (n : ℕ) :
    r.readText args (Nat.toDigits 10 n) = some { r with mode := .placeholder (some n) } := by
  have hdigit : ∀ d < 10, (Nat.digitChar d).isDigit = true ∧
      (Nat.digitChar d).toNat - 48 = d := by decide
  -- the last digit is read after those of the rest
  refine IpAddr.toDigits_induction (by omega) (P := fun n ds => r.readText args ds =
    some { r with mode := .placeholder (some n) }) (fun d hd => ?_) (fun n ds hn ih => ?_) n
  · obtain ⟨hisDigit, hvalue⟩ := hdigit d hd
    simp [Reader.readText, Reader.read, hmode, hisDigit, hvalue]
  · obtain ⟨hisDigit, hvalue⟩ := hdigit (n % 10) (Nat.mod_lt _ (by omega))
    have hnumber : n / 10 * 10 + n % 10 = n := Nat.div_add_mod' n 10
    rw [Reader.readText_append, ih]
    simp [Reader.readText, Reader.read, hisDigit, hvalue, hnumber]

/-- A placeholder. -/
theorem Reader.readText_placeholder (hmode : r.mode = .inside) (n : ℕ) :
    r.readText args ("$".toList ++ (toString n).toList) =
      some { r with mode := .placeholder (some n) } := by
  have hdollar : r.readText args "$".toList = some { r with mode := .placeholder none } := by
    simp [Reader.readText, Reader.read, hmode]
  rw [Reader.readText_append, hdollar, Nat.toString_eq_repr, Nat.toList_repr]
  exact Reader.readText_toDigits rfl n

/-- The end of a placeholder, and of its tuple. -/
theorem Reader.readText_next {n : ℕ} {v : β} (hmode : r.mode = .placeholder (some n))
    (hvalue : value args n = some v) : r.readText args ", ".toList =
      some { r with tuple := r.tuple ++ [v], mode := .inside } := by
  simp [Reader.readText, Reader.read, hmode, hvalue]

theorem Reader.readText_close {n : ℕ} {v : β} (hmode : r.mode = .placeholder (some n))
    (hvalue : value args n = some v) : r.readText args ")".toList =
      some { tuples := r.tuples ++ [r.tuple ++ [v]], tuple := [], mode := .after } := by
  simp [Reader.readText, Reader.read, hmode, hvalue]

end Pieces

end Sentinalysis.Lib.Sql
