/-
# Sentinalysis.Lib.Text — UTF-8 text as Rust's `str` has it, over Lean's `String`.

A `String` is a sequence of Unicode scalar values stored as UTF-8; lengths and positions are in
bytes.  This module fixes the vocabulary for both views: `bytes` and `fromUtf8` go between a text
and its encoding, and the rest are the library functions of `str` and `char` on the sequence of
characters, under their own names.
-/
import Sentinalysis.Lib.Lines
import Mathlib.Data.List.Infix
import Mathlib.Data.Rat.Defs
import Mathlib.Algebra.Order.Ring.Unbundled.Rat

namespace Sentinalysis.Lib.Text

/-! ## Bytes -/

/-- `str::as_bytes`. -/
def bytes (s : String) : List UInt8 := s.toByteArray.data.toList

/-- `str::from_utf8`: the text that the bytes encode, if they are valid UTF-8. -/
def fromUtf8 (b : List UInt8) : Option String := String.fromUTF8? ⟨b.toArray⟩

/-- `str::len`, in bytes. -/
def len (s : String) : ℕ := (bytes s).length

@[simp] theorem bytes_append (s t : String) : bytes (s ++ t) = bytes s ++ bytes t := by
  simp [bytes, ByteArray.data_append]

@[simp] theorem bytes_empty : bytes "" = [] := rfl

theorem bytes_injective : Function.Injective bytes := by
  intro s t h
  apply String.toByteArray_inj.mp
  apply ByteArray.ext
  exact Array.toList_inj.mp h

@[simp] theorem fromUtf8_bytes (s : String) : fromUtf8 (bytes s) = some s := by
  simp [fromUtf8, bytes, String.fromUTF8?, s.isValidUTF8, String.fromUTF8]

theorem bytes_of_fromUtf8 {b : List UInt8} {s : String} (h : fromUtf8 b = some s) :
    bytes s = b := by
  unfold fromUtf8 String.fromUTF8? at h
  split at h
  · obtain rfl := Option.some.inj h
    simp [bytes, String.fromUTF8]
  · simp at h

/-- A byte sequence decodes to `s` exactly when it is the encoding of `s`. -/
theorem fromUtf8_eq_some_iff {b : List UInt8} {s : String} : fromUtf8 b = some s ↔ bytes s = b :=
  ⟨bytes_of_fromUtf8, by rintro rfl; exact fromUtf8_bytes s⟩

theorem len_append (s t : String) : len (s ++ t) = len s + len t := by simp [len]

/-- A text is encoded character by character. -/
theorem bytes_ofList (l : List Char) :
    bytes (String.ofList l) = l.flatMap String.utf8EncodeChar := by
  induction l with
  | nil => rfl
  | cons c l ih =>
    rw [← List.singleton_append, String.ofList_append, bytes_append, ih, List.flatMap_append]
    simp [bytes, List.utf8Encode_singleton]

theorem len_ofList (l : List Char) : len (String.ofList l) = Lines.weight Char.utf8Size l := by
  rw [len, bytes_ofList, List.length_flatMap, Lines.weight]
  simp

theorem len_eq_weight (s : String) : len s = Lines.weight Char.utf8Size s.toList := by
  rw [← len_ofList, String.ofList_toList]

/-- No text has more characters than bytes. -/
theorem length_le_len (s : String) : s.length ≤ len s := by
  rw [len_eq_weight, Lines.weight, ← String.length_toList]
  generalize s.toList = l
  induction l with
  | nil => exact le_refl _
  | cons c l ih =>
    have hpos := c.utf8Size_pos
    rw [List.length_cons, List.map_cons, List.sum_cons]
    omega

/-- What follows a character in an encoded text is itself an encoded text. -/
theorem exists_of_encodeChar_append {c : Char} {r : List UInt8} {t : String}
    (h : String.utf8EncodeChar c ++ r = bytes t) : ∃ u, bytes u = r := by
  have hvalid : ByteArray.IsValidUTF8 ([c].utf8Encode ++ ⟨r.toArray⟩) := by
    have hbytes : [c].utf8Encode ++ ⟨r.toArray⟩ = t.toByteArray := by
      apply ByteArray.ext
      apply Array.toList_inj.mp
      simpa [List.utf8Encode_singleton, ByteArray.data_append, bytes] using h
    rw [hbytes]
    exact t.isValidUTF8
  have hrest := ByteArray.isValidUTF8_utf8Encode_singleton_append_iff.mp hvalid
  exact ⟨String.fromUTF8 ⟨r.toArray⟩ hrest, rfl⟩

/-- **Encodings cancel.**  What follows a text inside an encoded text is itself an encoded text. -/
theorem exists_of_bytes_append {s t : String} {r : List UInt8} (h : bytes s ++ r = bytes t) :
    ∃ u, t = s ++ u ∧ bytes u = r := by
  suffices hu : ∃ u, bytes u = r by
    obtain ⟨u, rfl⟩ := hu
    exact ⟨u, bytes_injective (by rw [← h, bytes_append]), rfl⟩
  rw [← String.ofList_toList (s := s), bytes_ofList] at h
  generalize s.toList = l at h
  induction l generalizing t with
  | nil => exact ⟨t, h.symm⟩
  | cons c l ih =>
    rw [List.flatMap_cons, List.append_assoc] at h
    obtain ⟨v, hv⟩ := exists_of_encodeChar_append h
    exact ih hv.symm
@[simp] theorem drop_len_bytes (s : String) (r : List UInt8) : (bytes s ++ r).drop (len s) = r :=
  List.drop_left

/-- Nothing is read past the end of a text. -/
theorem fromUtf8_drop_past (s : String) : fromUtf8 ((bytes s).drop (len s + 1)) = some "" := by
  rw [List.drop_eq_nil_of_le (by rw [len]; omega)]
  rfl

/-! ## Functions of `str` -/

/-- `str::ends_with`. -/
def endsWith (s suffix : String) : Bool := suffix.toList.isSuffixOf s.toList

/-- `str::starts_with`. -/
def startsWith (s pre : String) : Bool := pre.toList.isPrefixOf s.toList

/-- `str::contains`. -/
def contains (s pattern : String) : Bool := decide (pattern.toList <:+: s.toList)

/-- Removes `suffix` from the end of `l`, at most `fuel` times. -/
def trimEndMatchesList (suffix : List Char) : ℕ → List Char → List Char
  | 0, l => l
  | fuel + 1, l =>
    if suffix.isSuffixOf l then trimEndMatchesList suffix fuel (l.take (l.length - suffix.length))
    else l

/-- `str::trim_end_matches` with a non-empty text: the suffix is removed as often as it occurs. -/
def trimEndMatches (s suffix : String) : String :=
  String.ofList (trimEndMatchesList suffix.toList s.toList.length s.toList)

/-- What follows the last `c` in `s`: `str::rfind` and a slice from the position after it. -/
def afterLast (s : String) (c : Char) : Option (List Char) :=
  if c ∈ s.toList then some (s.toList.reverse.takeWhile (· ≠ c)).reverse else none

/-- `str::strip_suffix` with a newline, or the text itself. -/
def stripNewline (s : String) : String :=
  if s.toList.getLast? = some '\n' then String.ofList s.toList.dropLast else s

theorem stripNewline_cases (s : String) : stripNewline s = s ∨ s = stripNewline s ++ "\n" := by
  unfold stripNewline
  split
  · next hlast =>
    right
    have hsplit := List.dropLast_append_getLast? '\n' hlast
    rw [← String.toList_inj, String.toList_append, String.toList_ofList]
    exact hsplit.symm
  · exact Or.inl rfl

/-- Removes what satisfies `p` from both ends of a sequence. -/
def trimList (p : Char → Bool) (l : List Char) : List Char :=
  ((l.dropWhile p).reverse.dropWhile p).reverse

/-- `str::splitn` on a character: at most `n` parts, the last one with what is left. -/
def splitn (c : Char) : ℕ → List Char → List String
  | 0, _ => []
  | 1, l => [String.ofList l]
  | n + 2, l => match l.dropWhile (· != c) with
    | [] => [String.ofList l]
    | _ :: rest => String.ofList (l.takeWhile (· != c)) :: splitn c (n + 1) rest

/-- The parts are parts. -/
theorem splitn_subset (c : Char) (n : ℕ) (l : List Char) :
    ∀ part ∈ splitn c n l, part.toList ⊆ l := by
  fun_induction splitn c n l with
  | case1 l => exact List.forall_mem_nil _
  | case2 l =>
    rw [List.forall_mem_singleton, String.toList_ofList]
    exact List.Subset.refl l
  | case3 n l hnone =>
    rw [List.forall_mem_singleton, String.toList_ofList]
    exact List.Subset.refl l
  | case4 n l x rest hrest ih =>
    rw [List.forall_mem_cons, String.toList_ofList]
    have hback : rest ⊆ l := by
      have hdrop := (List.dropWhile_suffix (fun a => a != c) (l := l)).subset
      rw [hrest] at hdrop
      exact fun a ha => hdrop (List.mem_cons_of_mem _ ha)
    refine ⟨(List.takeWhile_prefix _).subset, ?_⟩
    intro part hpart
    exact List.Subset.trans (ih part hpart) hback

theorem mem_trimList {p : Char → Bool} {l : List Char} {c : Char} (hc : p c = false) :
    c ∈ trimList p l ↔ c ∈ l := by
  have hdrop : ∀ l : List Char, c ∈ l.dropWhile p ↔ c ∈ l := by
    intro l
    conv_rhs => rw [← List.takeWhile_append_dropWhile (p := p) (l := l), List.mem_append]
    rw [or_iff_right]
    intro htake
    have hall := List.all_eq_true.mp (List.all_takeWhile (p := p) (l := l)) c htake
    rw [hc] at hall
    cases hall
  rw [trimList, List.mem_reverse, hdrop, List.mem_reverse, hdrop]

/-- The value of a non-empty sequence of ASCII digits. -/
def parseDigits (l : List Char) : Option ℕ :=
  if l ≠ [] ∧ l.all Char.isDigit then some (Nat.ofDigitChars 10 l 0) else none

/-- `str::parse` into an unsigned integer below `bound`: a plus sign is allowed. -/
def parseUnsigned (bound : ℕ) (s : String) : Option ℕ :=
  let digits := match s.toList with
    | '+' :: l => l
    | l => l
  (parseDigits digits).filter (· < bound)

/-- `str::parse` into a floating-point number, on texts without a sign or an exponent, with the
exact value that the digits denote. -/
def parseDecimal (s : String) : Option ℚ :=
  let whole := s.toList.takeWhile (· != '.')
  let fraction := (s.toList.dropWhile (· != '.')).drop 1
  (parseDigits (whole ++ fraction)).map fun n => n / 10 ^ fraction.length

/-- `str::lines`. -/
def lines (s : String) : List String :=
  (Lines.lines '\n' '\r' s.toList).map String.ofList

/-! ## Suffixes -/

theorem endsWith_iff {s suffix : String} :
    endsWith s suffix = true ↔ ∃ t, s = t ++ suffix := by
  rw [endsWith, List.isSuffixOf_iff_suffix]
  constructor
  · rintro ⟨front, hfront⟩
    refine ⟨String.ofList front, ?_⟩
    rw [← String.toList_inj, String.toList_append, String.toList_ofList, hfront]
  · rintro ⟨t, rfl⟩
    rw [String.toList_append]
    exact List.suffix_append _ _

section TrimEnd

variable {suffix : List Char}

/-- The suffix can be removed no more often than the text has characters. -/
theorem trimEndMatchesList_fuel (hne : suffix ≠ []) {fuel fuel' : ℕ} {l : List Char}
    (h : l.length ≤ fuel) (h' : l.length ≤ fuel') :
    trimEndMatchesList suffix fuel l = trimEndMatchesList suffix fuel' l := by
  have hnil : ∀ n, trimEndMatchesList suffix n [] = [] := by
    intro n
    cases n with
    | zero => rfl
    | succ n =>
      refine if_neg fun hsuffix => hne ?_
      exact List.suffix_nil.mp (List.isSuffixOf_iff_suffix.mp hsuffix)
  have hpos := List.length_pos_of_ne_nil hne
  induction fuel generalizing fuel' l with
  | zero =>
    obtain rfl := List.length_eq_zero_iff.mp (Nat.le_zero.mp h)
    rw [hnil, hnil]
  | succ fuel ih =>
    cases fuel' with
    | zero =>
      obtain rfl := List.length_eq_zero_iff.mp (Nat.le_zero.mp h')
      rw [hnil, hnil]
    | succ fuel' =>
      have hshorter := List.length_take_le (l.length - suffix.length) l
      have hrest : trimEndMatchesList suffix fuel (l.take (l.length - suffix.length))
          = trimEndMatchesList suffix fuel' (l.take (l.length - suffix.length)) :=
        ih (by omega) (by omega)
      rw [trimEndMatchesList, trimEndMatchesList, hrest]

/-- One more suffix is one more to remove. -/
theorem trimEndMatches_append_self (s : String) {suffix : String} (hne : suffix ≠ "") :
    trimEndMatches (s ++ suffix) suffix = trimEndMatches s suffix := by
  have hlist : suffix.toList ≠ [] := fun hnil => hne (String.toList_eq_nil_iff.mp hnil)
  have hpos := List.length_pos_of_ne_nil hlist
  obtain ⟨fuel, hfuel⟩ : ∃ fuel, (s ++ suffix).toList.length = fuel + 1 := by
    refine Nat.exists_eq_succ_of_ne_zero ?_
    rw [String.toList_append, List.length_append]
    omega
  have hends : suffix.toList.isSuffixOf (s ++ suffix).toList = true :=
    endsWith_iff.mpr ⟨s, rfl⟩
  unfold trimEndMatches
  rw [hfuel, trimEndMatchesList, if_pos hends]
  rw [String.toList_append, List.length_append] at hfuel ⊢
  rw [Nat.add_sub_cancel, List.take_left]
  rw [trimEndMatchesList_fuel hlist (by omega) (le_refl _)]

/-- A text that does not end in the suffix is left alone. -/
theorem trimEndMatches_of_not_endsWith {s suffix : String} (h : ¬ endsWith s suffix = true) :
    trimEndMatches s suffix = s := by
  unfold trimEndMatches
  cases s.toList.length with
  | zero => rw [trimEndMatchesList, String.ofList_toList]
  | succ n =>
    have hlist : ¬ suffix.toList.isSuffixOf s.toList = true := h
    rw [trimEndMatchesList, if_neg hlist, String.ofList_toList]

/-- **All repetitions of the suffix are removed, and nothing else.** -/
theorem trimEndMatches_spec (s : String) {suffix : String} (hne : suffix ≠ "") :
    ¬ endsWith (trimEndMatches s suffix) suffix = true ∧ ∃ n, s.toList =
      (trimEndMatches s suffix).toList ++ (List.replicate n suffix.toList).flatten := by
  induction hlength : s.toList.length using Nat.strong_induction_on generalizing s with
  | _ length ih =>
    by_cases hends : endsWith s suffix = true
    · obtain ⟨t, rfl⟩ := endsWith_iff.mp hends
      have hpos : 0 < suffix.toList.length :=
        List.length_pos_of_ne_nil fun hnil => hne (String.toList_eq_nil_iff.mp hnil)
      rw [String.toList_append, List.length_append] at hlength
      obtain ⟨hnot, n, hn⟩ := ih t.toList.length (by omega) t rfl
      rw [trimEndMatches_append_self t hne]
      refine ⟨hnot, n + 1, ?_⟩
      rw [String.toList_append, List.replicate_succ', List.flatten_append, List.flatten_singleton,
        ← List.append_assoc, ← hn]
    · rw [trimEndMatches_of_not_endsWith hends]
      exact ⟨hends, 0, (List.append_nil _).symm⟩

theorem trimEndMatches_eq_iff {s v suffix : String} (hne : suffix ≠ "") :
    trimEndMatches s suffix = v ↔ ¬ endsWith v suffix = true ∧
      ∃ n, s.toList = v.toList ++ (List.replicate n suffix.toList).flatten := by
  constructor
  · rintro rfl
    exact trimEndMatches_spec s hne
  · rintro ⟨hnot, n, hn⟩
    induction n generalizing s with
    | zero =>
      obtain rfl : s = v := String.toList_inj.mp (by simpa using hn)
      exact trimEndMatches_of_not_endsWith hnot
    | succ n ih =>
      have hsplit : s = String.ofList (v.toList ++ (List.replicate n suffix.toList).flatten)
          ++ suffix := by
        rw [← String.toList_inj, hn, String.toList_append, String.toList_ofList,
          List.replicate_succ', List.flatten_append, List.flatten_singleton, List.append_assoc]
      rw [hsplit, trimEndMatches_append_self _ hne]
      exact ih (String.toList_ofList ..)

end TrimEnd

/-! ## Lines of a text -/

/-- The text is empty or ends in a newline. -/
def EndsAtLine (s : String) : Prop := Lines.Closed '\n' s.toList

instance (s : String) : Decidable (EndsAtLine s) := inferInstanceAs (Decidable (Lines.Closed _ _))

/-- A carriage return stands before a newline somewhere in the text. -/
def HasCrlf (s : String) : Prop := ['\r', '\n'] <:+: s.toList

instance (s : String) : Decidable (HasCrlf s) := inferInstanceAs (Decidable (_ <:+: _))

/-- The position that the lines of a text add up to, with one byte for each terminator. -/
def resume (s : String) : ℕ := ((lines s).map fun line => len line + 1).sum

@[simp] theorem lines_empty : lines "" = [] := rfl

@[simp] theorem resume_empty : resume "" = 0 := rfl

theorem endsAtLine_empty : EndsAtLine "" := Lines.closed_nil

theorem endsAtLine_newline (s : String) : EndsAtLine (s ++ "\n") := by
  simpa [EndsAtLine] using Lines.closed_snoc s.toList

theorem endsAtLine_append {s t : String} (hs : EndsAtLine s) :
    EndsAtLine (s ++ t) ↔ EndsAtLine t := by
  unfold EndsAtLine at *
  rw [String.toList_append]
  by_cases ht : t.toList = []
  · simpa [ht] using hs
  · exact ⟨fun h => h.of_append ht, hs.append⟩

theorem lines_append {s : String} (hs : EndsAtLine s) (t : String) :
    lines (s ++ t) = lines s ++ lines t := by
  simp [lines, Lines.lines_append hs]

/-- Terminating an open last line does not change it, unless a carriage return ends it. -/
theorem lines_newline {s : String} (hopen : ¬ EndsAtLine s) (hcr : (bytes s).getLast? ≠ some 13) :
    lines (s ++ "\n") = lines s := by
  obtain ⟨l, c, hs, hlf⟩ := Lines.exists_last_of_not_closed hopen
  have hc : c ≠ '\r' := by
    rintro rfl
    apply hcr
    rw [← String.ofList_toList (s := s), hs, bytes_ofList, List.flatMap_append,
      List.getLast?_append]
    rfl
  rw [lines, lines, String.toList_append, hs, show "\n".toList = ['\n'] from rfl,
    Lines.lines_terminate hlf hc]

/-- The position is one over when the text stops inside a line, and exact otherwise, as long as no
line ends in a carriage return and a newline. -/
theorem resume_of_not_hasCrlf {s : String} (h : ¬ HasCrlf s) :
    resume s = len s + if EndsAtLine s then 0 else 1 := by
  have hlaw : Lines.resume '\n' '\r' Char.utf8Size s.toList + Lines.crlfs '\n' '\r' s.toList
      = Lines.weight Char.utf8Size s.toList + if Lines.Closed '\n' s.toList then 0 else 1 :=
    Lines.resume_add_crlfs (show Char.utf8Size '\n' = 1 from rfl) (show Char.utf8Size '\r' = 1 from rfl)
      s.toList
  rw [Lines.crlfs_eq_zero h, ← len_eq_weight] at hlaw
  have hresume : resume s = Lines.resume '\n' '\r' Char.utf8Size s.toList := by
    simp [resume, lines, Lines.resume, Function.comp_def, len_ofList]
  rw [hresume, ← Nat.add_zero (Lines.resume _ _ _ _), hlaw]
  rfl

/-! ## Whole lines -/

/-- Whole lines, each ended by a newline alone. -/
def LfLines (s : String) : Prop := EndsAtLine s ∧ ¬ HasCrlf s

instance (s : String) : Decidable (LfLines s) := inferInstanceAs (Decidable (_ ∧ _))

theorem lfLines_empty : LfLines "" := by decide

theorem LfLines.append {s t : String} (hs : LfLines s) (ht : LfLines t) : LfLines (s ++ t) := by
  refine ⟨(endsAtLine_append hs.1).mpr ht.1, ?_⟩
  intro hcrlf
  unfold HasCrlf at hcrlf
  rw [String.toList_append, List.infix_append_iff] at hcrlf
  rcases hcrlf with hcrlf | hcrlf | ⟨a, b, hsplit, ha, hb⟩
  · exact hs.2 hcrlf
  · exact ht.2 hcrlf
  · -- the first text does not end in a carriage return
    rcases List.cons_eq_append_iff.mp hsplit with ⟨rfl, rfl⟩ | ⟨a', rfl, hrest⟩
    · exact ht.2 hb.isInfix
    · rcases List.cons_eq_append_iff.mp hrest with ⟨rfl, rfl⟩ | ⟨a'', rfl, hnil⟩
      · obtain ⟨front, hfront⟩ := ha
        rcases hs.1 with hempty | hlast
        · rw [hempty] at hfront
          simp at hfront
        · rw [← hfront] at hlast
          simp at hlast
      · rw [(List.append_eq_nil_iff.mp hnil.symm).1] at ha
        exact hs.2 ha.isInfix

theorem LfLines.of_append {s t : String} (h : LfLines (s ++ t)) : LfLines t := by
  unfold LfLines EndsAtLine HasCrlf at h ⊢
  rw [String.toList_append] at h
  refine ⟨?_, fun hcrlf => h.2 (hcrlf.trans (List.suffix_append _ _).isInfix)⟩
  by_cases ht : t.toList = []
  · exact Or.inl ht
  · exact h.1.of_append ht

/-- Their lines add up to their length. -/
theorem LfLines.resume_eq {s : String} (h : LfLines s) : resume s = len s := by
  rw [resume_of_not_hasCrlf h.2, if_pos h.1]
  exact Nat.add_zero _

end Sentinalysis.Lib.Text
