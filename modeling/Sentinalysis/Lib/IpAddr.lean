/-
# Sentinalysis.Lib.IpAddr — IP addresses, their text form, and the parser that inverts it.

The parser is the recursive-descent parser of the standard library: every reader takes the rest of
the text and returns what it read and what is left, and a reader that fails consumes nothing.  The
text form of an IPv6 address shortens its longest run of zero groups and writes an IPv4-mapped
address with its last two groups as an IPv4 address.

The main result is the round trip `parse_display`.
-/
import Mathlib.Data.List.Basic
import Mathlib.Tactic.IntervalCases

namespace Sentinalysis.Lib

structure Ipv4Addr where
  a : Fin 256
  b : Fin 256
  c : Fin 256
  d : Fin 256
  deriving DecidableEq, Repr

/-- `Ipv4Addr::new`. -/
def Ipv4Addr.new (a b c d : UInt8) : Ipv4Addr := ⟨a.toFin, b.toFin, c.toFin, d.toFin⟩

structure Ipv6Addr where
  segments : List (Fin 65536)
  length_eq : segments.length = 8
  deriving DecidableEq, Repr

inductive IpAddr
  | V4 (addr : Ipv4Addr)
  | V6 (addr : Ipv6Addr)
  deriving DecidableEq, Repr

/-- `Ipv4Addr::LOCALHOST`. -/
def Ipv4Addr.localhost : Ipv4Addr := .new 127 0 0 1

namespace IpAddr

/-- `is_loopback`: `127.0.0.0/8`, or `::1`. -/
def isLoopback : IpAddr → Bool
  | .V4 addr => addr.a = 127
  | .V6 addr => addr.segments = [0, 0, 0, 0, 0, 0, 0, 1]

/-! ## The parser -/

/-- `char::to_digit`. -/
def toDigit (radix : ℕ) (c : Char) : Option ℕ :=
  let value :=
    if '0' ≤ c ∧ c ≤ '9' then some (c.toNat - '0'.toNat)
    else if 'a' ≤ c ∧ c ≤ 'z' then some (c.toNat - 'a'.toNat + 10)
    else if 'A' ≤ c ∧ c ≤ 'Z' then some (c.toNat - 'A'.toNat + 10)
    else none
  value.filter (· < radix)

def isDigit (radix : ℕ) (c : Char) : Bool := (toDigit radix c).isSome

/-- The number that digits denote. -/
def ofDigits (radix : ℕ) (ds : List Char) : ℕ :=
  ds.foldl (fun n c => n * radix + (toDigit radix c).getD 0) 0

/-- `read_number`: all the digits that follow, at most `maxDigits` of them, as a number below
`bound`. -/
def readNumber (radix maxDigits : ℕ) (allowZeroPrefix : Bool) (bound : ℕ) (s : List Char) :
    Option (Fin bound × List Char) :=
  let ds := s.takeWhile (isDigit radix)
  if maxDigits < ds.length then none
  else if ds = [] then none
  else if allowZeroPrefix = false ∧ s.head? = some '0' ∧ 1 < ds.length then none
  else if h : ofDigits radix ds < bound then
    some (⟨ofDigits radix ds, h⟩, s.dropWhile (isDigit radix))
  else none

/-- `read_given_char`. -/
def readGivenChar (target : Char) : List Char → Option (List Char)
  | [] => none
  | c :: s => if c = target then some s else none

/-- `read_separator`: the first item has no separator before it. -/
def readSeparator {α : Type} (sep : Char) (first : Bool) (inner : List Char → Option (α × List Char))
    (s : List Char) : Option (α × List Char) :=
  if first then inner s else (readGivenChar sep s).bind inner

/-- `read_ipv4_addr`. -/
def readIpv4Addr (s : List Char) : Option (Ipv4Addr × List Char) := do
  let (a, s) ← readSeparator '.' true (readNumber 10 3 false 256) s
  let (b, s) ← readSeparator '.' false (readNumber 10 3 false 256) s
  let (c, s) ← readSeparator '.' false (readNumber 10 3 false 256) s
  let (d, s) ← readSeparator '.' false (readNumber 10 3 false 256) s
  some (⟨a, b, c, d⟩, s)

/-- Two octets as one group, high byte first. -/
def joinOctets (hi lo : Fin 256) : Fin 65536 := ⟨hi.val * 256 + lo.val, by omega⟩

/-- `read_groups`, with so many slots left: the groups read, whether the last two are an embedded
IPv4 address, and what is left. -/
def readGroups : ℕ → Bool → List Char → List (Fin 65536) × Bool × List Char
  | 0, _, s => ([], false, s)
  | n + 1, first, s =>
    match (if 1 ≤ n then readSeparator ':' first readIpv4Addr s else none) with
    | some (v4, s) => ([joinOctets v4.a v4.b, joinOctets v4.c v4.d], true, s)
    | none =>
      match readSeparator ':' first (readNumber 16 4 true 65536) s with
      | some (g, s) =>
        let (gs, v4, s) := readGroups n false s
        (g :: gs, v4, s)
      | none => ([], false, s)

theorem length_readGroups_le (n : ℕ) (first : Bool) (s : List Char) :
    (readGroups n first s).1.length ≤ n := by
  induction n generalizing first s with
  | zero => simp [readGroups]
  | succ n ih =>
    unfold readGroups
    split
    · split at * <;> simp_all
    · split
      · simpa using ih _ _
      · simp

/-- `read_ipv6_addr`. -/
def readIpv6Addr (s : List Char) : Option (Ipv6Addr × List Char) :=
  let head := readGroups 8 true s
  if h : head.1.length = 8 then some (⟨head.1, h⟩, head.2.2)
  else if head.2.1 then none
  else
    match (readGivenChar ':' head.2.2).bind (readGivenChar ':') with
    | none => none
    | some s =>
      let tail := readGroups (8 - (head.1.length + 1)) true s
      let zeroes := List.replicate (8 - head.1.length - tail.1.length) 0
      some (⟨head.1 ++ zeroes ++ tail.1, by
        have htail : tail.1.length ≤ 8 - (head.1.length + 1) := length_readGroups_le _ _ _
        have hlt : head.1.length ≤ 8 := length_readGroups_le _ _ _
        simp only [List.length_append, zeroes, List.length_replicate]
        omega⟩, tail.2.2)

/-- `IpAddr::from_str`: an IPv4 address, else an IPv6 address, and nothing after it. -/
def parse (s : String) : Option IpAddr :=
  let addr := match readIpv4Addr s.toList with
    | some (v4, rest) => some (V4 v4, rest)
    | none => (readIpv6Addr s.toList).map fun (v6, rest) => (V6 v6, rest)
  match addr with
  | some (addr, []) => some addr
  | _ => none

/-! ## The text form -/

/-- `Display for Ipv4Addr`. -/
def displayIpv4 (addr : Ipv4Addr) : List Char :=
  Nat.toDigits 10 addr.a ++ '.' :: Nat.toDigits 10 addr.b ++ '.' :: Nat.toDigits 10 addr.c
    ++ '.' :: Nat.toDigits 10 addr.d

/-- `to_ipv4_mapped`: the IPv4 address in `::ffff:a.b.c.d`. -/
def toIpv4Mapped (addr : Ipv6Addr) : Option Ipv4Addr :=
  match addr.segments with
  | [0, 0, 0, 0, 0, 0xffff, ab, cd] => some
      { a := ⟨ab.val / 256, by omega⟩, b := ⟨ab.val % 256, by omega⟩
        c := ⟨cd.val / 256, by omega⟩, d := ⟨cd.val % 256, by omega⟩ }
  | _ => none

/-- A run of groups. -/
structure Span where
  start : ℕ := 0
  len : ℕ := 0
  deriving DecidableEq, Repr

/-- One step of the search for the longest run of zero groups: the longest run so far and the
current one. -/
def spanStep (longest current : Span) (i : ℕ) (segment : Fin 65536) : Span × Span :=
  if segment = 0 then
    let current : Span := ⟨if current.len = 0 then i else current.start, current.len + 1⟩
    (if longest.len < current.len then current else longest, current)
  else (longest, {})

/-- The search over the groups from index `i` on. -/
def zeroSpan : List (Fin 65536) → ℕ → Span → Span → Span
  | [], _, longest, _ => longest
  | segment :: segments, i, longest, current =>
    let (longest, current) := spanStep longest current i segment
    zeroSpan segments (i + 1) longest current

/-- `fmt_subslice`: groups in hexadecimal, separated by colons. -/
def fmtSubslice : List (Fin 65536) → List Char
  | [] => []
  | [g] => Nat.toDigits 16 g
  | g :: gs => Nat.toDigits 16 g ++ ':' :: fmtSubslice gs

/-- `Display for Ipv6Addr`. -/
def displayIpv6 (addr : Ipv6Addr) : List Char :=
  match toIpv4Mapped addr with
  | some v4 => "::ffff:".toList ++ displayIpv4 v4
  | none =>
    let zeroes := zeroSpan addr.segments 0 {} {}
    if 1 < zeroes.len then
      fmtSubslice (addr.segments.take zeroes.start) ++ "::".toList
        ++ fmtSubslice (addr.segments.drop (zeroes.start + zeroes.len))
    else fmtSubslice addr.segments

/-- `IpAddr::to_string`. -/
def display : IpAddr → String
  | V4 addr => String.ofList (displayIpv4 addr)
  | V6 addr => String.ofList (displayIpv6 addr)

/-! ## Numbers -/

section Numbers

variable {radix : ℕ}

theorem toDigit_digitChar {d : ℕ} (hd : d < radix) (hradix : radix ≤ 16) :
    toDigit radix (Nat.digitChar d) = some d := by
  have htable : ∀ d < 16, toDigit 16 (Nat.digitChar d) = some d := by decide
  have hvalue := htable d (by omega)
  simp only [toDigit, Option.filter_eq_some_iff, decide_eq_true_eq] at hvalue ⊢
  exact ⟨hvalue.1, hd⟩

/-- Digits are written most significant first: the last one, after the digits of the rest. -/
theorem toDigits_induction (hradix : 1 < radix) {P : ℕ → List Char → Prop}
    (last : ∀ d < radix, P d [Nat.digitChar d])
    (more : ∀ n ds, radix ≤ n → P (n / radix) ds → P n (ds ++ [Nat.digitChar (n % radix)]))
    (n : ℕ) : P n (Nat.toDigits radix n) := by
  induction n using Nat.strong_induction_on with
  | _ n ih =>
    rw [Nat.toDigits_eq_if hradix]
    split
    · exact last n ‹_›
    · have hle : radix ≤ n := Nat.le_of_not_lt ‹_›
      exact more n _ hle (ih _ (Nat.div_lt_self (by omega) hradix))

theorem isDigit_of_mem_toDigits (hradix : 1 < radix) (hle : radix ≤ 16) {n : ℕ} {c : Char}
    (hc : c ∈ Nat.toDigits radix n) : isDigit radix c = true := by
  have hdigit : ∀ d < radix, isDigit radix (Nat.digitChar d) = true := fun d hd => by
    simp [isDigit, toDigit_digitChar hd hle]
  refine toDigits_induction hradix (P := fun _ ds => ∀ c ∈ ds, isDigit radix c = true)
    ?_ ?_ n c hc
  · intro d hd c hc
    rw [List.mem_singleton.mp hc]
    exact hdigit d hd
  · intro n ds _ ih c hc
    rcases List.mem_append.mp hc with hc | hc
    · exact ih c hc
    · rw [List.mem_singleton.mp hc]
      exact hdigit _ (Nat.mod_lt _ (by omega))

theorem ofDigits_toDigits (hradix : 1 < radix) (hle : radix ≤ 16) (n : ℕ) :
    ofDigits radix (Nat.toDigits radix n) = n := by
  refine toDigits_induction hradix (P := fun n ds => ofDigits radix ds = n) ?_ ?_ n
  · intro d hd
    simp [ofDigits, toDigit_digitChar hd hle]
  · intro n ds _ ih
    have hmod := toDigit_digitChar (Nat.mod_lt n (by omega : radix > 0)) hle
    rw [ofDigits, List.foldl_append, ← ofDigits, ih]
    simp only [List.foldl_cons, List.foldl_nil, hmod, Option.getD_some]
    rw [Nat.mul_comm]
    exact Nat.div_add_mod n radix

/-- Only zero is written with a leading zero. -/
theorem head_toDigits (hradix : 1 < radix) (hle : radix ≤ 16) (n : ℕ) :
    (Nat.toDigits radix n).head? = some '0' → (Nat.toDigits radix n).length = 1 := by
  suffices h : ((Nat.toDigits radix n).head? = some '0' → n = 0) by
    intro hhead
    rw [h hhead]
    simp
  refine toDigits_induction hradix
    (P := fun n ds => ds ≠ [] ∧ (ds.head? = some '0' → n = 0)) ?_ ?_ n |>.2
  · intro d hd
    have htable : ∀ d < 16, Nat.digitChar d = '0' → d = 0 := by decide
    exact ⟨by simp, fun h => htable d (by omega) (by simpa using h)⟩
  · rintro n ds hn ⟨hne, ih⟩
    refine ⟨by simp, fun h => ?_⟩
    rw [List.head?_append_of_ne_nil _ hne] at h
    have hzero := ih h
    rw [Nat.div_eq_zero_iff] at hzero
    omega

/-- A text does not begin with a digit. -/
def NoDigit (radix : ℕ) (s : List Char) : Prop := s.takeWhile (isDigit radix) = []

theorem NoDigit.dropWhile {s : List Char} (h : NoDigit radix s) :
    s.dropWhile (isDigit radix) = s := by
  have := List.takeWhile_append_dropWhile (p := isDigit radix) (l := s)
  rwa [h, List.nil_append] at this

theorem noDigit_nil : NoDigit radix [] := rfl

theorem noDigit_cons {c : Char} {s : List Char} (h : isDigit radix c = false) :
    NoDigit radix (c :: s) := by simp [NoDigit, h]

/-- Reading a number back. -/
theorem readNumber_toDigits (hradix : 1 < radix) (hle : radix ≤ 16) {maxDigits bound : ℕ}
    (hpos : 0 < maxDigits) (hbound : bound ≤ radix ^ maxDigits) (allowZeroPrefix : Bool)
    (n : Fin bound) {s : List Char} (hs : NoDigit radix s) :
    readNumber radix maxDigits allowZeroPrefix bound (Nat.toDigits radix n ++ s) = some (n, s) := by
  have hall : ∀ c ∈ Nat.toDigits radix n, isDigit radix c = true :=
    fun _ => isDigit_of_mem_toDigits hradix hle
  have htake : (Nat.toDigits radix n ++ s).takeWhile (isDigit radix) = Nat.toDigits radix n := by
    rw [List.takeWhile_append_of_pos hall, hs, List.append_nil]
  have hdrop : (Nat.toDigits radix n ++ s).dropWhile (isDigit radix) = s := by
    rw [List.dropWhile_append_of_pos hall, hs.dropWhile]
  have hlength : (Nat.toDigits radix n).length ≤ maxDigits :=
    (Nat.length_toDigits_le_iff hradix hpos).mpr (n.isLt.trans_le hbound)
  have hzero : ¬ (allowZeroPrefix = false ∧ (Nat.toDigits radix n ++ s).head? = some '0' ∧
      1 < (Nat.toDigits radix n).length) := by
    rintro ⟨-, hhead, hlt⟩
    rw [List.head?_append_of_ne_nil _ Nat.toDigits_ne_nil] at hhead
    exact absurd (head_toDigits hradix hle _ hhead) (by omega)
  simp only [readNumber, htake, hdrop, ofDigits_toDigits hradix hle]
  rw [if_neg (by omega), if_neg Nat.toDigits_ne_nil, if_neg hzero, dif_pos n.isLt]

end Numbers

/-! ## Round trips -/

theorem readNumber_of_noDigit {radix maxDigits bound : ℕ} {allow : Bool} {s : List Char}
    (h : NoDigit radix s) : readNumber radix maxDigits allow bound s = none := by
  have h : s.takeWhile (isDigit radix) = [] := h
  simp [readNumber, h]

/-- Reading an IPv4 address back. -/
theorem readIpv4Addr_displayIpv4 (addr : Ipv4Addr) {s : List Char} (hs : NoDigit 10 s) :
    readIpv4Addr (displayIpv4 addr ++ s) = some (addr, s) := by
  have hread : ∀ (n : Fin 256) {s : List Char}, NoDigit 10 s →
      readNumber 10 3 false 256 (Nat.toDigits 10 n ++ s) = some (n, s) :=
    fun n _ => readNumber_toDigits (by decide) (by decide) (by decide) (by decide) false n
  have hdot : ∀ s, NoDigit 10 ('.' :: s) := fun s => noDigit_cons rfl
  simp only [readIpv4Addr, displayIpv4, readSeparator, List.append_assoc, List.cons_append,
    readGivenChar, hread _ (hdot _), hread _ hs, Option.bind_eq_bind, Option.bind_some, if_true,
    if_false, Bool.false_eq_true]

/-- What stops an IPv4 address at its first octet: no dot follows the digits. -/
theorem readIpv4Addr_of_no_dot {s : List Char}
    (h : (s.dropWhile (isDigit 10)).head? ≠ some '.') : readIpv4Addr s = none := by
  simp only [readIpv4Addr, readSeparator, if_true, if_false, Bool.false_eq_true]
  cases hnumber : readNumber 10 3 false 256 s with
  | none => rfl
  | some r =>
    have hrest : r.2 = s.dropWhile (isDigit 10) := by
      simp only [readNumber] at hnumber
      split at hnumber
      · simp at hnumber
      · split at hnumber
        · simp at hnumber
        · split at hnumber
          · simp at hnumber
          · split at hnumber
            · rw [← Option.some.inj hnumber]
            · simp at hnumber
    have hdot : readGivenChar '.' r.2 = none := by
      rw [hrest]
      cases hs : s.dropWhile (isDigit 10) with
      | nil => rfl
      | cons c s =>
        rw [hs] at h
        have hc : c ≠ '.' := by simpa using h
        simp [readGivenChar, hc]
    simp [hdot]

/-- What may follow a group of an IPv6 address: the end, a colon, or anything but a hexadecimal
digit and a dot. -/
def EndsGroup (s : List Char) : Prop := NoDigit 16 s ∧ s.head? ≠ some '.'

theorem endsGroup_nil : EndsGroup [] := ⟨noDigit_nil, by simp⟩

theorem endsGroup_colon (s : List Char) : EndsGroup (':' :: s) := ⟨noDigit_cons rfl, by simp⟩

/-- A group is not taken for the first octet of an IPv4 address. -/
theorem readIpv4Addr_group (g : Fin 65536) {s : List Char} (hs : EndsGroup s) :
    readIpv4Addr (Nat.toDigits 16 g ++ s) = none := by
  apply readIpv4Addr_of_no_dot
  have hdec : ∀ c, isDigit 10 c = true → isDigit 16 c = true := by
    intro c hc
    simp only [isDigit, toDigit, Option.isSome_iff_exists, Option.filter_eq_some_iff,
      decide_eq_true_eq] at hc ⊢
    obtain ⟨d, hd, hlt⟩ := hc
    exact ⟨d, hd, by omega⟩
  have hstop : (s.dropWhile (isDigit 10)).head? ≠ some '.' := by
    cases s with
    | nil => simp
    | cons c s =>
      have hc : isDigit 10 c = false := by
        by_contra h
        have hc16 := hdec c (by simpa using h)
        have hno : NoDigit 16 (c :: s) := hs.1
        simp [NoDigit, hc16] at hno
      rw [List.dropWhile_cons_of_neg (by simp [hc])]
      exact hs.2
  have hhex : ∀ ds : List Char, (∀ c ∈ ds, isDigit 16 c = true) →
      ((ds ++ s).dropWhile (isDigit 10)).head? ≠ some '.' := by
    intro ds hds
    induction ds with
    | nil => exact hstop
    | cons c ds ih =>
      by_cases hc : isDigit 10 c = true
      · rw [List.cons_append, List.dropWhile_cons_of_pos hc]
        exact ih fun c' hc' => hds c' (List.mem_cons_of_mem _ hc')
      · rw [List.cons_append, List.dropWhile_cons_of_neg (by simpa using hc)]
        have hcdot : c ≠ '.' := by
          rintro rfl
          exact absurd (hds '.' List.mem_cons_self) (by decide)
        simpa using hcdot
  exact hhex _ fun _ => isDigit_of_mem_toDigits (by decide) (by decide)

/-- Reading one group back. -/
theorem readNumber_group (g : Fin 65536) {s : List Char} (hs : EndsGroup s) :
    readNumber 16 4 true 65536 (Nat.toDigits 16 g ++ s) = some (g, s) :=
  readNumber_toDigits (by decide) (by decide) (by decide) (by decide) true g hs.1

/-- Groups with a separator before each, and before the first too unless it opens the address. -/
def renderGroups (first : Bool) : List (Fin 65536) → List Char
  | [] => []
  | g :: gs => (if first then [] else [':']) ++ Nat.toDigits 16 g ++ renderGroups false gs

theorem fmtSubslice_eq (gs : List (Fin 65536)) : fmtSubslice gs = renderGroups true gs := by
  induction gs with
  | nil => rfl
  | cons g gs ih =>
    cases gs with
    | nil => simp [fmtSubslice, renderGroups]
    | cons g' gs => rw [fmtSubslice, ih] <;> simp [renderGroups]

theorem endsGroup_renderGroups (gs : List (Fin 65536)) {s : List Char} (hs : EndsGroup s) :
    EndsGroup (renderGroups false gs ++ s) := by
  cases gs with
  | nil => exact hs
  | cons g gs => exact endsGroup_colon _

/-- One group is read, and the reader goes on behind it. -/
theorem readGroups_group (n : ℕ) (first : Bool) (g : Fin 65536) {s : List Char}
    (hs : EndsGroup s) :
    readGroups (n + 1) first ((if first then [] else [':']) ++ Nat.toDigits 16 g ++ s)
      = (g :: (readGroups n false s).1, (readGroups n false s).2) := by
  have hv4 : readSeparator ':' first readIpv4Addr
      ((if first then [] else [':']) ++ Nat.toDigits 16 g ++ s) = none := by
    cases first <;> simp [readSeparator, readGivenChar, readIpv4Addr_group g hs]
  have hgroup : readSeparator ':' first (readNumber 16 4 true 65536)
      ((if first then [] else [':']) ++ Nat.toDigits 16 g ++ s) = some (g, s) := by
    cases first <;> simp [readSeparator, readGivenChar, readNumber_group g hs]
  rw [readGroups, hv4, hgroup]
  simp

/-- No group can be read here. -/
def NoGroup (s : List Char) : Prop := ∀ n first, readGroups n first s = ([], false, s)

theorem readIpv4Addr_of_noDigit {s : List Char} (h : NoDigit 10 s) : readIpv4Addr s = none := by
  simp [readIpv4Addr, readSeparator, readNumber_of_noDigit h]

theorem noGroup_nil : NoGroup [] := by
  intro n first
  cases n with
  | zero => rfl
  | succ n =>
    have hnumber : readNumber 16 4 true 65536 [] = none := readNumber_of_noDigit noDigit_nil
    cases first <;>
      simp [readGroups, readSeparator, readGivenChar, readIpv4Addr_of_noDigit noDigit_nil, hnumber]

theorem noGroup_colons (s : List Char) : NoGroup (':' :: ':' :: s) := by
  intro n first
  cases n with
  | zero => rfl
  | succ n =>
    have hv4 : ∀ s, readIpv4Addr (':' :: s) = none :=
      fun s => readIpv4Addr_of_noDigit (noDigit_cons rfl)
    have hnumber : ∀ s, readNumber 16 4 true 65536 (':' :: s) = none :=
      fun s => readNumber_of_noDigit (noDigit_cons rfl)
    cases first <;> simp [readGroups, readSeparator, readGivenChar, hv4, hnumber]

/-- Reading groups back, up to where no group follows. -/
theorem readGroups_renderGroups {n : ℕ} (first : Bool) {gs : List (Fin 65536)} {s : List Char}
    (hs : EndsGroup s) (hstop : NoGroup s) (hlen : gs.length ≤ n) :
    readGroups n first (renderGroups first gs ++ s) = (gs, false, s) := by
  induction gs generalizing n first with
  | nil => exact hstop n first
  | cons g gs ih =>
    obtain ⟨n, rfl⟩ : ∃ m, n = m + 1 := ⟨n - 1, by simp at hlen; omega⟩
    rw [renderGroups, List.append_assoc,
      readGroups_group n first g (endsGroup_renderGroups gs hs),
      ih false (by simpa using hlen)]

/-! ### The longest run of zero groups -/

/-- The run consists of groups of `segments` that are zero. -/
def Span.Zeroes (segments : List (Fin 65536)) (span : Span) : Prop :=
  ∃ pre post, segments = pre ++ List.replicate span.len 0 ++ post ∧
    (0 < span.len → pre.length = span.start)

/-- Of the groups searched, the longest run is a run of zeros, and the current one is the run at
their end. -/
theorem zeroSpan_zeroes (rest : List (Fin 65536)) {done : List (Fin 65536)} {longest current : Span}
    (hlongest : longest.Zeroes done)
    (hcurrent : ∃ pre, done = pre ++ List.replicate current.len 0 ∧
      (0 < current.len → pre.length = current.start)) :
    (zeroSpan rest done.length longest current).Zeroes (done ++ rest) := by
  induction rest generalizing done longest current with
  | nil => simpa [zeroSpan] using hlongest
  | cons g rest ih =>
    have hmore : longest.Zeroes (done ++ [g]) := by
      obtain ⟨pre, post, hdone, hstart⟩ := hlongest
      exact ⟨pre, post ++ [g], by simp [hdone], hstart⟩
    rw [zeroSpan, ← List.singleton_append, ← List.append_assoc,
      show done.length + 1 = (done ++ [g]).length by simp]
    by_cases hg : g = 0
    · subst hg
      obtain ⟨pre, hdone, hstart⟩ := hcurrent
      have hrun : ∃ pre', done ++ [0] = pre' ++ List.replicate (current.len + 1) 0 ∧
          (0 < current.len + 1 → pre'.length
            = if current.len = 0 then done.length else current.start) := by
        refine ⟨pre, by rw [hdone, List.replicate_succ', List.append_assoc], fun _ => ?_⟩
        split
        · rw [hdone]; simp [*]
        · exact hstart (by omega)
      simp only [spanStep, if_true]
      apply ih
      · split
        · obtain ⟨pre', hdone', hstart'⟩ := hrun
          exact ⟨pre', [], by simpa using hdone', hstart'⟩
        · exact hmore
      · exact hrun
    · simp only [spanStep, hg, if_false]
      exact ih hmore ⟨done ++ [g], by simp, by simp⟩

/-! ### Addresses -/

/-- Eight groups make an address. -/
theorem readIpv6Addr_full {s s' : List Char} {gs : List (Fin 65536)} (hlen : gs.length = 8)
    (h : readGroups 8 true s = (gs, false, s')) :
    readIpv6Addr s = some (⟨gs, hlen⟩, s') := by
  simp [readIpv6Addr, h, hlen]

/-- Fewer groups, two colons and the rest make an address with zeros between. -/
theorem readIpv6Addr_compressed {s t s' : List Char} {pre post : List (Fin 65536)} {v4 : Bool}
    {addr : Ipv6Addr} (hpre : pre.length < 8)
    (hhead : readGroups 8 true s = (pre, false, ':' :: ':' :: t))
    (htail : readGroups (8 - (pre.length + 1)) true t = (post, v4, s'))
    (haddr : addr.segments
      = pre ++ List.replicate (8 - pre.length - post.length) 0 ++ post) :
    readIpv6Addr s = some (addr, s') := by
  obtain ⟨segments, hsegments⟩ := addr
  obtain rfl : segments = _ := haddr
  simp only [readIpv6Addr, hhead, hpre.ne, dif_neg, not_false_eq_true, Bool.false_eq_true, if_false,
    readGivenChar, if_true, Option.bind_some, htail]

/-- An IPv4-mapped address is written back from its last two groups. -/
theorem segments_of_toIpv4Mapped {addr : Ipv6Addr} {v4 : Ipv4Addr}
    (h : toIpv4Mapped addr = some v4) :
    addr.segments = [0, 0, 0, 0, 0, 0xffff, joinOctets v4.a v4.b, joinOctets v4.c v4.d] := by
  unfold toIpv4Mapped at h
  split at h
  · rename_i ab cd hsegments
    obtain rfl := Option.some.inj h
    have hjoin : ∀ g : Fin 65536, joinOctets ⟨g.val / 256, by omega⟩ ⟨g.val % 256, by omega⟩ = g :=
      fun g => Fin.ext (by simp only [joinOctets]; omega)
    rw [hsegments, hjoin, hjoin]
  · simp at h

theorem readGroups_mapped (v4 : Ipv4Addr) :
    readGroups 7 true ("ffff:".toList ++ displayIpv4 v4)
      = ([0xffff, joinOctets v4.a v4.b, joinOctets v4.c v4.d], true, []) := by
  have hgroup := readGroups_group 6 true 0xffff (endsGroup_colon (displayIpv4 v4))
  have hread : readIpv4Addr (displayIpv4 v4) = some (v4, []) := by
    simpa using readIpv4Addr_displayIpv4 v4 noDigit_nil
  have hlast : readGroups 6 false (':' :: displayIpv4 v4)
      = ([joinOctets v4.a v4.b, joinOctets v4.c v4.d], true, []) := by
    simp [readGroups, readSeparator, readGivenChar, hread]
  rw [hlast] at hgroup
  exact hgroup

/-- Reading an IPv6 address back. -/
theorem readIpv6Addr_displayIpv6 (addr : Ipv6Addr) :
    readIpv6Addr (displayIpv6 addr) = some (addr, []) := by
  unfold displayIpv6
  split
  · rename_i v4 hmapped
    have hnone : ([] : List (Fin 65536)).length < 8 := by decide
    refine readIpv6Addr_compressed hnone (noGroup_colons _ 8 true) (readGroups_mapped v4) ?_
    rw [segments_of_toIpv4Mapped hmapped]
    rfl
  · simp only
    split
    · rename_i hzeroes
      obtain ⟨pre, post, hsegments, hstart⟩ :
          (zeroSpan addr.segments 0 {} {}).Zeroes addr.segments := by
        have hstart : Span.Zeroes [] {} := ⟨[], [], by simp, by simp⟩
        simpa using zeroSpan_zeroes addr.segments hstart ⟨[], by simp, by simp⟩
      generalize zeroSpan addr.segments 0 {} {} = span at *
      have hstart := hstart (by omega)
      have hlen : pre.length + span.len + post.length = 8 := by
        have := addr.length_eq
        rw [hsegments] at this
        simpa [Nat.add_assoc] using this
      have htake : addr.segments.take span.start = pre := by
        rw [hsegments, ← hstart, List.append_assoc, List.take_left]
      have hdrop : addr.segments.drop (span.start + span.len) = post := by
        rw [hsegments, ← hstart]
        exact List.drop_left' (by simp)
      rw [htake, hdrop, fmtSubslice_eq, fmtSubslice_eq, List.append_assoc]
      have hhead : readGroups 8 true (renderGroups true pre ++ ':' :: ':' :: renderGroups true post)
          = (pre, false, ':' :: ':' :: renderGroups true post) :=
        readGroups_renderGroups true (endsGroup_colon _) (noGroup_colons _) (by omega)
      have htail : readGroups (8 - (pre.length + 1)) true (renderGroups true post)
          = (post, false, []) := by
        have hpost : post.length ≤ 8 - (pre.length + 1) := by omega
        rw [← List.append_nil (renderGroups true post)]
        exact readGroups_renderGroups true endsGroup_nil noGroup_nil hpost
      refine readIpv6Addr_compressed (by omega) hhead htail ?_
      rw [hsegments]
      congr 3
      omega
    · rw [fmtSubslice_eq]
      have hread := readGroups_renderGroups true endsGroup_nil noGroup_nil addr.length_eq.le
      rw [List.append_nil] at hread
      exact readIpv6Addr_full addr.length_eq hread

/-- An IPv6 address is never taken for an IPv4 address. -/
theorem readIpv4Addr_displayIpv6 (addr : Ipv6Addr) : readIpv4Addr (displayIpv6 addr) = none := by
  have hcolon : ∀ s, readIpv4Addr (':' :: s) = none :=
    fun s => readIpv4Addr_of_noDigit (noDigit_cons rfl)
  have hgroups : ∀ (gs : List (Fin 65536)) {s : List Char}, EndsGroup s →
      readIpv4Addr s = none → readIpv4Addr (renderGroups true gs ++ s) = none := by
    intro gs s hs hnone
    cases gs with
    | nil => exact hnone
    | cons g gs =>
      rw [renderGroups, if_pos rfl, List.nil_append, List.append_assoc]
      exact readIpv4Addr_group g (endsGroup_renderGroups gs hs)
  unfold displayIpv6
  split
  · exact hcolon _
  · simp only
    split
    · rw [fmtSubslice_eq, List.append_assoc]
      exact hgroups _ (endsGroup_colon _) (hcolon _)
    · rw [fmtSubslice_eq, ← List.append_nil (renderGroups _ _)]
      exact hgroups _ endsGroup_nil (readIpv4Addr_of_noDigit noDigit_nil)

/-- **The text form of an address parses back to it.** -/
theorem parse_display (addr : IpAddr) : parse (display addr) = some addr := by
  cases addr with
  | V4 addr =>
    have := readIpv4Addr_displayIpv4 addr noDigit_nil
    rw [List.append_nil] at this
    simp [parse, display, this]
  | V6 addr =>
    simp [parse, display, readIpv4Addr_displayIpv6, readIpv6Addr_displayIpv6]

/-! ## What an address is written with -/

/-- A hexadecimal digit, a dot or a colon. -/
def IsAddrChar (c : Char) : Prop := isDigit 16 c = true ∨ c = '.' ∨ c = ':'

/-- The rest of the text comes after characters of an address only. -/
def Reads (s rest : List Char) : Prop := ∃ front, s = front ++ rest ∧ ∀ c ∈ front, IsAddrChar c

theorem Reads.refl (s : List Char) : Reads s s := ⟨[], rfl, List.forall_mem_nil _⟩

theorem Reads.trans {s t u : List Char} (h : Reads s t) (h' : Reads t u) : Reads s u := by
  obtain ⟨front, rfl, hfront⟩ := h
  obtain ⟨front', rfl, hfront'⟩ := h'
  refine ⟨front ++ front', (List.append_assoc _ _ _).symm, ?_⟩
  intro c hc
  exact (List.mem_append.mp hc).elim (hfront c) (hfront' c)

theorem isAddrChar_of_isDigit {radix : ℕ} (hle : radix ≤ 16) {c : Char}
    (h : isDigit radix c = true) : IsAddrChar c := by
  left
  simp only [isDigit, toDigit, Option.isSome_filter, Option.any_eq_true, decide_eq_true_eq] at h ⊢
  obtain ⟨d, hd, hlt⟩ := h
  exact ⟨d, hd, by omega⟩

theorem readNumber_reads {radix maxDigits bound : ℕ} (hle : radix ≤ 16) {allowZeroPrefix : Bool}
    {s rest : List Char} {n : Fin bound}
    (h : readNumber radix maxDigits allowZeroPrefix bound s = some (n, rest)) : Reads s rest := by
  have hrest : s.dropWhile (isDigit radix) = rest := by
    simp only [readNumber] at h
    split at h
    · cases h
    · split at h
      · cases h
      · split at h
        · cases h
        · split at h
          · exact (Prod.mk.inj (Option.some.inj h)).2
          · cases h
  refine ⟨s.takeWhile (isDigit radix), ?_, ?_⟩
  · rw [← hrest, List.takeWhile_append_dropWhile]
  · intro c hc
    exact isAddrChar_of_isDigit hle (List.all_eq_true.mp List.all_takeWhile c hc)

theorem readGivenChar_reads {target : Char} (ht : IsAddrChar target) {s rest : List Char}
    (h : readGivenChar target s = some rest) : Reads s rest := by
  cases s with
  | nil => cases h
  | cons c s =>
    rw [readGivenChar] at h
    split at h
    · next hc =>
      obtain rfl := Option.some.inj h
      refine ⟨[c], rfl, ?_⟩
      rw [List.forall_mem_singleton, hc]
      exact ht
    · cases h

theorem readSeparator_reads {α : Type} {sep : Char} (hsep : IsAddrChar sep) {first : Bool}
    {inner : List Char → Option (α × List Char)}
    (hinner : ∀ {s a rest}, inner s = some (a, rest) → Reads s rest) {s rest : List Char} {a : α}
    (h : readSeparator sep first inner s = some (a, rest)) : Reads s rest := by
  unfold readSeparator at h
  split at h
  · exact hinner h
  · obtain ⟨t, ht, hread⟩ := Option.bind_eq_some_iff.mp h
    exact (readGivenChar_reads hsep ht).trans (hinner hread)

theorem readIpv4Addr_reads {s rest : List Char} {addr : Ipv4Addr}
    (h : readIpv4Addr s = some (addr, rest)) : Reads s rest := by
  have hoctet : ∀ {first s n rest},
      readSeparator '.' first (readNumber 10 3 false 256) s = some (n, rest) → Reads s rest :=
    fun h => readSeparator_reads (Or.inr (Or.inl rfl)) (readNumber_reads (by omega)) h
  simp only [readIpv4Addr, Option.bind_eq_bind, Option.bind_eq_some_iff, Prod.exists] at h
  -- four octets, one behind the other
  obtain ⟨a, s₁, ha, b, s₂, hb, c, s₃, hc, d, s₄, hd, heq⟩ := h
  obtain rfl : s₄ = rest := (Prod.mk.inj (Option.some.inj heq)).2
  exact (((hoctet ha).trans (hoctet hb)).trans (hoctet hc)).trans (hoctet hd)

theorem readGroups_reads (n : ℕ) (first : Bool) (s : List Char) :
    Reads s (readGroups n first s).2.2 := by
  have hcolon : IsAddrChar ':' := Or.inr (Or.inr rfl)
  induction n generalizing first s with
  | zero => exact Reads.refl s
  | succ n ih =>
    unfold readGroups
    split
    · next v4 t hv4 =>
      split at hv4
      · exact readSeparator_reads hcolon readIpv4Addr_reads hv4
      · cases hv4
    · split
      · next g t hgroup =>
        exact (readSeparator_reads hcolon (readNumber_reads (by omega)) hgroup).trans (ih false t)
      · exact Reads.refl s

theorem readIpv6Addr_reads {s rest : List Char} {addr : Ipv6Addr}
    (h : readIpv6Addr s = some (addr, rest)) : Reads s rest := by
  have hcolon : IsAddrChar ':' := Or.inr (Or.inr rfl)
  have hhead := readGroups_reads 8 true s
  unfold readIpv6Addr at h
  simp only at h
  split at h
  · rwa [← (Prod.mk.inj (Option.some.inj h)).2]
  · split at h
    · cases h
    · split at h
      · cases h
      · -- groups, two colons and more groups
        next t ht =>
        obtain ⟨u, hu, hread⟩ := Option.bind_eq_some_iff.mp ht
        rw [← (Prod.mk.inj (Option.some.inj h)).2]
        exact ((hhead.trans (readGivenChar_reads hcolon hu)).trans
          (readGivenChar_reads hcolon hread)).trans (readGroups_reads _ true t)

/-- **An address is written with digits, dots and colons.** -/
theorem forall_isAddrChar_of_parse {s : String} {addr : IpAddr} (h : parse s = some addr) :
    ∀ c ∈ s.toList, IsAddrChar c := by
  have hreads : Reads s.toList [] := by
    unfold parse at h
    cases hv4 : readIpv4Addr s.toList with
    | some read =>
      obtain ⟨v4, rest⟩ := read
      cases rest with
      | nil => exact readIpv4Addr_reads hv4
      | cons c rest => simp [hv4] at h
    | none =>
      cases hv6 : readIpv6Addr s.toList with
      | some read =>
        obtain ⟨v6, rest⟩ := read
        cases rest with
        | nil => exact readIpv6Addr_reads hv6
        | cons c rest => simp [hv4, hv6] at h
      | none => simp [hv4, hv6] at h
  obtain ⟨front, hfront, hall⟩ := hreads
  rwa [hfront, List.append_nil]

example : parse "2001:db8::ffff:0:1" = parse "2001:0db8:0:0:0:FFFF:0:1" := by decide

example : (parse "::ffff:102:304").map display = some "::ffff:1.2.3.4" := by decide

/-- The characters of an address are graphic. -/
theorem graphic_of_isAddrChar {c : Char} (h : IsAddrChar c) :
    33 ≤ c.toNat ∧ c.toNat < 127 := by
  have hbounds : ∀ {a b : Char}, a ≤ c ∧ c ≤ b → a.toNat ≤ c.toNat ∧ c.toNat ≤ b.toNat := id
  rcases h with h | rfl | rfl
  · unfold isDigit toDigit at h
    split at h
    · next hdigit =>
      have := hbounds hdigit
      simp at this
      omega
    · split at h
      · next hlower =>
        have := hbounds hlower
        simp at this
        omega
      · split at h
        · next hupper =>
          have := hbounds hupper
          simp at this
          omega
        · cases h
  · decide
  · decide

/-- An address is written with graphic characters, one at least. -/
theorem graphic_of_parse {s : String} {addr : IpAddr} (h : parse s = some addr) :
    s.toList ≠ [] ∧ ∀ c ∈ s.toList, 33 ≤ c.toNat ∧ c.toNat < 127 := by
  refine ⟨fun hnil => ?_, fun c hc => graphic_of_isAddrChar (forall_isAddrChar_of_parse h c hc)⟩
  obtain rfl := String.toList_eq_nil_iff.mp hnil
  cases h

end IpAddr

end Sentinalysis.Lib
