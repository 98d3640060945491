/-
# Sentinalysis.Lib.Regex — regular expressions with captures, matched leftmost-first.

An expression is run from a cursor in a text and yields every way to match there, in order of
preference; the first one is the match.  Alternatives are tried left to right and repetitions
longest first (or shortest first when lazy), which is the preference order of a backtracking
engine.  A repetition does not go round without consuming a character.

The classes `\d` and `\w` are Unicode properties whose tables are outside this development; they
are the fields of `Unicode`, of which only the ASCII part is fixed.
-/
import Mathlib.Data.List.Basic

namespace Sentinalysis.Lib

/-- The character tables of the text libraries, fixed on ASCII. -/
structure Unicode where
  /-- General category `Nd`. -/
  decimalNumber : Char → Bool
  /-- What `\w` matches. -/
  word : Char → Bool
  /-- `char::to_lowercase`. -/
  lowercase : Char → List Char
  /-- Whether a capital sigma between these texts ends a word. -/
  finalSigma : List Char → List Char → Bool
  decimalNumber_ascii : ∀ c : Char, c.toNat < 128 → decimalNumber c = c.isDigit
  word_ascii : ∀ c : Char, c.toNat < 128 → word c = (c.isAlphanum || c == '_')
  lowercase_ascii : ∀ c : Char, c.toNat < 128 → lowercase c = [c.toLower]

/-- The tables of a text library that knows ASCII only. -/
def Unicode.ascii : Unicode where
  decimalNumber c := c.isDigit
  word c := c.isAlphanum || c == '_'
  lowercase c := [c.toLower]
  finalSigma _ _ := false
  decimalNumber_ascii _ _ := rfl
  word_ascii _ _ := rfl
  lowercase_ascii _ _ := rfl

/-- An expression whose groups are named by `γ`. -/
inductive Regex (γ : Type)
  | empty
  | bos
  | eos
  | cls (p : Char → Bool)
  | seq (r s : Regex γ)
  | alt (r s : Regex γ)
  | star (greedy : Bool) (r : Regex γ)
  | cap (name : γ) (r : Regex γ)

namespace Regex

variable {γ : Type}

/-! ## Building expressions -/

/-- The concatenation of a list of expressions. -/
def concat : List (Regex γ) → Regex γ
  | [] => empty
  | [r] => r
  | r :: rs => seq r (concat rs)

/-- The first of a list of expressions that matches; no expression never matches. -/
def oneOf : List (Regex γ) → Regex γ
  | [] => cls fun _ => false
  | [r] => r
  | r :: rs => alt r (oneOf rs)

/-- A text taken literally: `regex::escape`. -/
def lit (s : String) : Regex γ := concat (s.toList.map fun c => cls (· == c))

/-- `r*`. -/
def many (r : Regex γ) : Regex γ := star true r

/-- `r+`. -/
def many1 (r : Regex γ) : Regex γ := seq r (star true r)

/-- `r+?`. -/
def many1Lazy (r : Regex γ) : Regex γ := seq r (star false r)

/-- `r?`. -/
def opt (r : Regex γ) : Regex γ := alt r empty

/-- `r{n}`. -/
def times (n : ℕ) (r : Regex γ) : Regex γ := concat (List.replicate n r)

/-- `r{1,n+1}`. -/
def upTo : ℕ → Regex γ → Regex γ
  | 0, r => r
  | n + 1, r => seq r (opt (upTo n r))

/-- The characters of the property `White_Space`: `char::is_whitespace` and the class `\s`. -/
def isWhitespace (c : Char) : Bool :=
  let n := c.toNat
  (9 ≤ n && n ≤ 13) || n == 32 || n == 0x85 || n == 0xA0 || n == 0x1680
    || (0x2000 ≤ n && n ≤ 0x200A) || n == 0x2028 || n == 0x2029 || n == 0x202F || n == 0x205F
    || n == 0x3000

/-- `\s`. -/
def space : Regex γ := cls isWhitespace

/-- `\S`. -/
def nonSpace : Regex γ := cls fun c => !isWhitespace c

/-- `.`: anything but a newline. -/
def any : Regex γ := cls (· != '\n')

/-- `[^c]`. -/
def except (c : Char) : Regex γ := cls (· != c)

/-- `\d`. -/
def digit (u : Unicode) : Regex γ := cls u.decimalNumber

/-- `\w`. -/
def wordChar (u : Unicode) : Regex γ := cls u.word

/-! ## Matching -/

/-- A position in a text: what is before it (nearest character first), how much that is, what is
after it, and the groups captured on the way (latest first). -/
structure Cursor (γ : Type) where
  before : List Char := []
  pos : ℕ := 0
  rest : List Char
  caps : List (γ × List Char) := []

/-- The cursor behind the next character. -/
def Cursor.advance (c : Cursor γ) (x : Char) (rest : List Char) : Cursor γ :=
  { c with before := x :: c.before, pos := c.pos + 1, rest := rest }

/-- Repeats a matcher, each round consuming something, so many times at most. -/
def repeatRun (run : Cursor γ → List (Cursor γ)) (greedy : Bool) :
    ℕ → Cursor γ → List (Cursor γ)
  | 0, c => [c]
  | fuel + 1, c =>
    let more := ((run c).filter fun d => c.pos < d.pos).flatMap (repeatRun run greedy fuel)
    if greedy then more ++ [c] else c :: more

/-- The text between two cursors. -/
def between (c d : Cursor γ) : List Char := (d.before.take (d.pos - c.pos)).reverse

/-- All the ways to match from a cursor, in order of preference. -/
def run : Regex γ → Cursor γ → List (Cursor γ)
  | empty, c => [c]
  | bos, c => if c.before = [] then [c] else []
  | eos, c => if c.rest = [] then [c] else []
  | cls p, c => match c.rest with
    | [] => []
    | x :: rest => if p x then [c.advance x rest] else []
  | seq r s, c => (run r c).flatMap (run s)
  | alt r s, c => run r c ++ run s c
  | star greedy r, c => repeatRun (run r) greedy c.rest.length c
  | cap name r, c => (run r c).map fun d => { d with caps := (name, between c d) :: d.caps }

/-- The leftmost match at or behind a position that has so many characters before it. -/
def searchFrom (r : Regex γ) (before : List Char) (pos : ℕ) : List Char → Option (Cursor γ)
  | [] => (run r { before := before, pos := pos, rest := [] }).head?
  | x :: rest =>
    match (run r { before := before, pos := pos, rest := x :: rest }).head? with
    | some d => some d
    | none => searchFrom r (x :: before) (pos + 1) rest

/-- The leftmost match. -/
def search (r : Regex γ) (text : List Char) : Option (Cursor γ) := searchFrom r [] 0 text

/-- The groups of a match. -/
abbrev Captures (γ : Type) := List (γ × List Char)

/-- `Captures::name`. -/
def Captures.name [DecidableEq γ] (caps : Captures γ) (name : γ) : Option String :=
  (caps.lookup name).map String.ofList

/-- `Captures::name` of a group that takes part in every match. -/
def Captures.nameUnwrap [DecidableEq γ] (caps : Captures γ) (name : γ) : String :=
  (caps.name name).getD ""

/-- `Regex::captures`. -/
def captures (r : Regex γ) (text : List Char) : Option (Captures γ) :=
  (r.search text).map Cursor.caps

/-- `Regex::is_match`. -/
def isMatch (r : Regex γ) (s : String) : Bool := (r.search s.toList).isSome

/-! ## What a match is made of -/

/-- Every class of the expression has the property. -/
def Classes (Q : (Char → Bool) → Prop) : Regex γ → Prop
  | empty | bos | eos => True
  | cls p => Q p
  | seq r s | alt r s => Classes Q r ∧ Classes Q s
  | star _ r | cap _ r => Classes Q r

theorem classes_of_forall {Q : (Char → Bool) → Prop} (hQ : ∀ p, Q p) (r : Regex γ) :
    Classes Q r := by
  induction r with
  | empty | bos | eos => trivial
  | cls p => exact hQ p
  | seq r s ihr ihs | alt r s ihr ihs => exact ⟨ihr, ihs⟩
  | star _ r ih | cap _ r ih => exact ih

theorem classes_upTo {Q : (Char → Bool) → Prop} {r : Regex γ} (hr : Classes Q r) (n : ℕ) :
    Classes Q (upTo n r) := by
  induction n with
  | zero => exact hr
  | succ n ih => exact ⟨hr, ih, trivial⟩

section Preserves

variable {I : Cursor γ → Prop}

theorem repeatRun_preserves {run : Cursor γ → List (Cursor γ)}
    (hrun : ∀ {c d}, d ∈ run c → I c → I d) (greedy : Bool) (fuel : ℕ) {c d : Cursor γ}
    (h : d ∈ repeatRun run greedy fuel c) (hc : I c) : I d := by
  induction fuel generalizing c d with
  | zero => rwa [List.mem_singleton.mp h]
  | succ fuel ih =>
    -- a round and then more, or none
    have hround : ∀ e ∈ ((run c).filter fun e => c.pos < e.pos).flatMap (repeatRun run greedy fuel),
        I e := by
      intro e he
      obtain ⟨e', he', hmore⟩ := List.mem_flatMap.mp he
      exact ih hmore (hrun (List.mem_filter.mp he').1 hc)
    rw [repeatRun] at h
    cases greedy with
    | true =>
      rcases List.mem_append.mp h with h | h
      · exact hround d h
      · rwa [List.mem_singleton.mp h]
    | false =>
      rcases List.mem_cons.mp h with rfl | h
      · exact hc
      · exact hround d h

/-- **What taking a character and closing a group preserve, a run preserves.** -/
theorem run_preserves {Q : (Char → Bool) → Prop}
    (hadvance : ∀ {p c x rest}, Q p → c.rest = x :: rest → p x = true → I c →
      I (c.advance x rest))
    (hcap : ∀ {name c d}, I d → I { d with caps := (name, between c d) :: d.caps })
    {r : Regex γ} (hr : Classes Q r) {c d : Cursor γ} (h : d ∈ run r c) (hc : I c) : I d := by
  induction r generalizing c d with
  | empty => rwa [List.mem_singleton.mp h]
  -- an anchor lets a cursor through as it is
  | bos | eos =>
    rw [run] at h
    split at h
    · rwa [List.mem_singleton.mp h]
    · cases h
  | cls p =>
    rw [run] at h
    split at h
    · cases h
    · next x rest hrest =>
      split at h
      · next hx =>
        rw [List.mem_singleton.mp h]
        exact hadvance hr hrest hx hc
      · cases h
  | seq r s ihr ihs =>
    obtain ⟨e, he, hd⟩ := List.mem_flatMap.mp h
    exact ihs hr.2 hd (ihr hr.1 he hc)
  | alt r s ihr ihs =>
    rcases List.mem_append.mp h with h | h
    · exact ihr hr.1 h hc
    · exact ihs hr.2 h hc
  | star greedy r ih => exact repeatRun_preserves (fun h hc => ih hr h hc) greedy _ h hc
  | cap name r ih =>
    obtain ⟨e, he, rfl⟩ := List.mem_map.mp h
    exact hcap (ih hr he hc)

end Preserves

/-- A match was found at a position of the text. -/
theorem searchFrom_eq_some {r : Regex γ} {before text : List Char} {pos : ℕ} {d : Cursor γ}
    (h : searchFrom r before pos text = some d) :
    ∃ front back, text = front ++ back ∧
      d ∈ run r { before := front.reverse ++ before, pos := pos + front.length, rest := back } := by
  induction text generalizing before pos with
  | nil => exact ⟨[], [], rfl, List.mem_of_mem_head? h⟩
  | cons x text ih =>
    rw [searchFrom] at h
    split at h
    · next d' hhead =>
      obtain rfl := Option.some.inj h
      exact ⟨[], x :: text, rfl, List.mem_of_mem_head? hhead⟩
    · obtain ⟨front, back, rfl, hrun⟩ := ih h
      refine ⟨x :: front, back, rfl, ?_⟩
      rw [List.reverse_cons, List.append_assoc, List.length_cons]
      rwa [show pos + (front.length + 1) = pos + 1 + front.length by omega]

/-- **A text that matches from its start to its end** is made of the characters of the classes. -/
theorem forall_of_isMatch {P : Char → Prop} {r : Regex γ}
    (hr : Classes (fun p => ∀ x, p x = true → P x) r) {s : String}
    (h : (concat [bos, r, eos]).isMatch s = true) : ∀ x ∈ s.toList, P x := by
  obtain ⟨d, hd⟩ := Option.isSome_iff_exists.mp h
  obtain ⟨front, back, hsplit, hrun⟩ := searchFrom_eq_some hd
  obtain ⟨c, hc, hmore⟩ := List.mem_flatMap.mp hrun
  obtain ⟨e, he, hlast⟩ := List.mem_flatMap.mp hmore
  have hstart : front = [] ∧ c = { rest := back } := by
    rw [run] at hc
    split at hc
    · next hbefore =>
      obtain rfl : front = [] := by simpa using hbefore
      exact ⟨rfl, List.mem_singleton.mp hc⟩
    · cases hc
  obtain ⟨rfl, rfl⟩ := hstart
  -- what was taken is behind the cursor, and it is of the classes
  have hinv : e.before.reverse ++ e.rest = s.toList ∧ ∀ x ∈ e.before, P x := by
    refine run_preserves (I := fun c => c.before.reverse ++ c.rest = s.toList ∧
      ∀ x ∈ c.before, P x) ?_ id hr he ⟨hsplit.symm, List.forall_mem_nil _⟩
    rintro p c x rest hp hrest hx ⟨hwhole, hall⟩
    refine ⟨?_, List.forall_mem_cons.mpr ⟨hp x hx, hall⟩⟩
    rw [← hwhole, hrest]
    simp [Cursor.advance]
  have hend : e.rest = [] := by
    have hlast : d ∈ run eos e := hlast
    rw [run] at hlast
    split at hlast
    · assumption
    · cases hlast
  intro x hx
  rw [← hinv.1, hend, List.append_nil, List.mem_reverse] at hx
  exact hinv.2 x hx

/-- **A group captures characters of the text.** -/
theorem subset_of_captures {r : Regex γ} {text : List Char} {caps : Captures γ}
    (h : r.captures text = some caps) : ∀ entry ∈ caps, entry.2 ⊆ text := by
  obtain ⟨d, hd, rfl⟩ := Option.map_eq_some_iff.mp h
  obtain ⟨front, back, rfl, hrun⟩ := searchFrom_eq_some hd
  have hinv : d.before ⊆ front ++ back ∧ d.rest ⊆ front ++ back ∧
      ∀ entry ∈ d.caps, entry.2 ⊆ front ++ back := by
    refine run_preserves (I := fun c => c.before ⊆ front ++ back ∧ c.rest ⊆ front ++ back ∧
      ∀ entry ∈ c.caps, entry.2 ⊆ front ++ back) ?_ ?_
      (classes_of_forall (Q := fun _ => True) (fun _ => trivial) r) hrun ⟨?_, ?_, ?_⟩
    · rintro p c x rest - hrest - ⟨hbefore, hafter, hcaps⟩
      rw [hrest] at hafter
      exact ⟨List.cons_subset.mpr ⟨hafter List.mem_cons_self, hbefore⟩,
        fun y hy => hafter (List.mem_cons_of_mem _ hy), hcaps⟩
    · rintro name c d ⟨hbefore, hafter, hcaps⟩
      refine ⟨hbefore, hafter, List.forall_mem_cons.mpr ⟨?_, hcaps⟩⟩
      intro y hy
      exact hbefore (List.mem_of_mem_take (List.mem_reverse.mp hy))
    · intro y hy
      simpa using Or.inl (by simpa using hy)
    · exact List.subset_append_right _ _
    · exact List.forall_mem_nil _
  exact hinv.2.2

/-- So what it is named by is one. -/
theorem Captures.nameUnwrap_subset [DecidableEq γ] {caps : Captures γ} {text : List Char}
    (h : ∀ entry ∈ caps, entry.2 ⊆ text) (name : γ) : (caps.nameUnwrap name).toList ⊆ text := by
  unfold Captures.nameUnwrap Captures.name
  cases hlookup : caps.lookup name with
  | none => exact List.nil_subset _
  | some l =>
    rw [Option.map_some, Option.getD_some, String.toList_ofList]
    obtain ⟨front, back, hsplit, -⟩ := List.lookup_eq_some_iff.mp hlookup
    exact h (name, l) (by rw [hsplit]; simp)

example : let r : Regex Bool := seq (cap false (many1Lazy any)) (cap true (many (lit "x")))
    (captures r "yxx".toList).map (fun caps => (caps.name false, caps.name true))
      = some (some "y", some "xx") := by decide

end Regex

end Sentinalysis.Lib
