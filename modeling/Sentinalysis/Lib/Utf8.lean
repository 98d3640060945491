/-
# Sentinalysis.Lib.Utf8 — the bytes of a character, and where characters begin in an encoded text.

The byte that begins a character tells itself from those that continue one, so that the positions
between characters can be seen in the bytes alone.
-/
import Sentinalysis.Lib.Text

namespace Sentinalysis.Lib.Text

/-! ## The bytes of a character -/

/-- A byte that continues a character. -/
def IsContinuation (x : UInt8) : Prop := 0x80 ≤ x.toNat ∧ x.toNat < 0xC0

instance (x : UInt8) : Decidable (IsContinuation x) := inferInstanceAs (Decidable (_ ∧ _))

theorem isContinuation_ofNat (n : ℕ) : IsContinuation (UInt8.ofNat (n % 0x40 + 0x80)) := by
  have hlt := Nat.mod_lt n (show 0 < 0x40 by omega)
  unfold IsContinuation
  rw [UInt8.toNat_ofNat_of_lt' (by show _ < 2 ^ 8; omega)]
  omega

/-- The byte that begins a character of more than one byte. -/
theorem not_isContinuation_ofNat {n : ℕ} (h : 0xC0 ≤ n) (hlt : n < 2 ^ 8) :
    ¬ IsContinuation (UInt8.ofNat n) := by
  unfold IsContinuation
  rw [UInt8.toNat_ofNat_of_lt' hlt]
  omega

/-- A character is encoded by a byte that begins it and bytes that continue it. -/
theorem exists_utf8EncodeChar (c : Char) :
    ∃ x rest, String.utf8EncodeChar c = x :: rest ∧ ¬ IsContinuation x ∧
      ∀ y ∈ rest, IsContinuation y := by
  unfold String.utf8EncodeChar
  simp only
  split
  · next hone =>
    refine ⟨_, _, rfl, ?_, List.forall_mem_nil _⟩
    unfold IsContinuation
    rw [UInt8.toNat_ofNat_of_lt' (by show _ < 2 ^ 8; omega)]
    omega
  · have hnil : ∀ y ∈ ([] : List UInt8), IsContinuation y := List.forall_mem_nil _
    split
    · refine ⟨_, _, rfl, not_isContinuation_ofNat (by omega) (by omega), ?_⟩
      exact List.forall_mem_cons.mpr ⟨isContinuation_ofNat _, hnil⟩
    · split
      · refine ⟨_, _, rfl, not_isContinuation_ofNat (by omega) (by omega), ?_⟩
        exact List.forall_mem_cons.mpr ⟨isContinuation_ofNat _,
          List.forall_mem_cons.mpr ⟨isContinuation_ofNat _, hnil⟩⟩
      · refine ⟨_, _, rfl, not_isContinuation_ofNat (by omega) (by omega), ?_⟩
        exact List.forall_mem_cons.mpr ⟨isContinuation_ofNat _, List.forall_mem_cons.mpr
          ⟨isContinuation_ofNat _, List.forall_mem_cons.mpr ⟨isContinuation_ofNat _, hnil⟩⟩⟩

/-- Only U+0000 has a zero among its bytes. -/
theorem zero_mem_utf8EncodeChar {c : Char} : 0 ∈ String.utf8EncodeChar c ↔ c = '\x00' := by
  constructor
  · intro hzero
    have hsmall : ∀ n : ℕ, n < 2 ^ 8 → (0 : UInt8) = UInt8.ofNat n → n = 0 := by
      intro n hn heq
      have hval := congrArg UInt8.toNat heq
      rw [UInt8.toNat_ofNat_of_lt' hn] at hval
      exact hval.symm
    -- only the one byte of an ASCII character can be zero
    have hval : c.val.toNat = 0 := by
      unfold String.utf8EncodeChar at hzero
      simp only at hzero
      split at hzero
      · exact hsmall _ (by omega) (List.mem_singleton.mp hzero)
      · exfalso
        split at hzero
        · simp only [List.mem_cons, List.not_mem_nil, or_false] at hzero
          rcases hzero with h | h <;> have := hsmall _ (by omega) h <;> omega
        · split at hzero
          · simp only [List.mem_cons, List.not_mem_nil, or_false] at hzero
            rcases hzero with h | h | h <;> have := hsmall _ (by omega) h <;> omega
          · simp only [List.mem_cons, List.not_mem_nil, or_false] at hzero
            rcases hzero with h | h | h | h <;> have := hsmall _ (by omega) h <;> omega
    apply Char.ext
    apply UInt32.toNat_inj.mp
    rw [hval]
    rfl
  · rintro rfl
    decide

/-- A text has U+0000 in it exactly when its encoding has a zero. -/
theorem nul_mem_toList {s : String} : '\x00' ∈ s.toList ↔ 0 ∈ bytes s := by
  rw [← String.ofList_toList (s := s), bytes_ofList, List.mem_flatMap, String.ofList_toList]
  constructor
  · intro hmem
    exact ⟨_, hmem, zero_mem_utf8EncodeChar.mpr rfl⟩
  · rintro ⟨c, hmem, hzero⟩
    rwa [zero_mem_utf8EncodeChar.mp hzero] at hmem

/-! ## Where characters begin -/

/-- The text has a character boundary after so many bytes. -/
def IsBoundary (s : String) (n : ℕ) : Prop := ∃ t u, s = t ++ u ∧ len t = n

theorem isBoundary_zero (s : String) : IsBoundary s 0 := ⟨"", s, by simp, rfl⟩

theorem isBoundary_len (s : String) : IsBoundary s (len s) := ⟨s, "", by simp, rfl⟩

theorem len_singleton (c : Char) : len (String.ofList [c]) = c.utf8Size := by
  rw [len_ofList]
  exact Nat.add_zero _

/-- An ASCII text has as many bytes as characters. -/
theorem len_of_ascii {s : String} (h : ∀ c ∈ s.toList, c.toNat < 128) : len s = s.toList.length := by
  have hone : ∀ c ∈ s.toList, c.utf8Size = 1 := by
    intro c hc
    exact Char.utf8Size_eq_one_iff.mpr (UInt32.le_iff_toNat_le.mpr (Nat.le_of_lt_succ (h c hc)))
  rw [len_eq_weight, Lines.weight, List.map_congr_left hone, List.map_const',
    List.sum_replicate_nat, Nat.mul_one]

/-- The first byte of a text begins a character. -/
theorem not_isContinuation_of_head {s : String} {x : UInt8} (h : (bytes s)[0]? = some x) :
    ¬ IsContinuation x := by
  rw [← String.ofList_toList (s := s), bytes_ofList] at h
  cases hs : s.toList with
  | nil => simp [hs] at h
  | cons c l =>
    obtain ⟨y, rest, hencode, hlead, -⟩ := exists_utf8EncodeChar c
    rw [hs, List.flatMap_cons, hencode, List.cons_append, List.getElem?_cons_zero,
      Option.some_inj] at h
    exact h ▸ hlead

/-- **A position in a text is a boundary exactly when the byte behind it begins a character.** -/
theorem isBoundary_iff {s : String} {n : ℕ} {x : UInt8} (h : (bytes s)[n]? = some x) :
    IsBoundary s n ↔ ¬ IsContinuation x := by
  constructor
  · rintro ⟨t, u, rfl, rfl⟩
    apply not_isContinuation_of_head (s := u)
    rw [bytes_append, len, List.getElem?_append_right (le_refl _), Nat.sub_self] at h
    exact h
  · intro hlead
    rw [← String.ofList_toList (s := s)] at h ⊢
    generalize s.toList = l at h ⊢
    rw [bytes_ofList] at h
    -- along the characters: the position is at one of them, inside it or behind it
    induction l generalizing n with
    | nil => simp at h
    | cons c l ih =>
      obtain ⟨y, rest, hencode, -, hcont⟩ := exists_utf8EncodeChar c
      have hsize : c.utf8Size = rest.length + 1 := by
        rw [← String.length_utf8EncodeChar, hencode, List.length_cons]
      rw [List.flatMap_cons] at h
      by_cases hn : n < (String.utf8EncodeChar c).length
      · rw [List.getElem?_append_left hn, hencode] at h
        cases n with
        | zero => exact isBoundary_zero _
        | succ n =>
          rw [List.getElem?_cons_succ] at h
          exact absurd (hcont x (List.mem_of_getElem? h)) hlead
      · rw [List.getElem?_append_right (not_lt.mp hn)] at h
        obtain ⟨t, u, hsplit, hlen⟩ := ih h
        refine ⟨String.ofList [c] ++ t, u, ?_, ?_⟩
        · rw [String.append_assoc, ← hsplit, ← String.ofList_append, List.singleton_append]
        · rw [len_append, hlen, len_singleton]
          rw [String.length_utf8EncodeChar] at hn ⊢
          omega

/-- Splits a text after so many bytes, if that is a boundary. -/
def splitAtByte : ℕ → List Char → Option (List Char × List Char)
  | 0, l => some ([], l)
  | _ + 1, [] => none
  | n + 1, c :: l =>
    if c.utf8Size ≤ n + 1 then
      (splitAtByte (n + 1 - c.utf8Size) l).map fun halves => (c :: halves.1, halves.2)
    else none

/-- `str::get` of a range of bytes: nothing unless both of its ends are boundaries. -/
def get (s : String) (start stop : ℕ) : Option String :=
  if start ≤ stop then
    (splitAtByte start s.toList).bind fun halves =>
      (splitAtByte (stop - start) halves.2).map fun parts => String.ofList parts.1
  else none

theorem splitAtByte_append (l back : List Char) :
    splitAtByte (len (String.ofList l)) (l ++ back) = some (l, back) := by
  induction l with
  | nil =>
    rw [List.nil_append, splitAtByte.eq_def]
    rfl
  | cons c l ih =>
    have hlen : len (String.ofList (c :: l)) = len (String.ofList l) + c.utf8Size := by
      rw [← List.singleton_append, String.ofList_append, len_append, len_singleton, Nat.add_comm]
    have hpos := c.utf8Size_pos
    obtain ⟨n, hn⟩ : ∃ n, len (String.ofList l) + c.utf8Size = n + 1 :=
      Nat.exists_eq_succ_of_ne_zero (by omega)
    rw [hlen, List.cons_append, hn, splitAtByte, if_pos (by omega), ← hn, Nat.add_sub_cancel, ih,
      Option.map_some]

/-- A range between boundaries has the text between them. -/
theorem get_append (t u v : String) : get (t ++ u ++ v) (len t) (len t + len u) = some u := by
  have hsplit : (t ++ u ++ v).toList = t.toList ++ (u.toList ++ v.toList) := by
    rw [String.toList_append, String.toList_append, List.append_assoc]
  have hfirst := splitAtByte_append t.toList (u.toList ++ v.toList)
  have hsecond := splitAtByte_append u.toList v.toList
  rw [String.ofList_toList] at hfirst hsecond
  rw [get, if_pos (Nat.le_add_right _ _), hsplit, hfirst, Option.bind_some, Nat.add_sub_cancel_left,
    hsecond, Option.map_some, String.ofList_toList]

/-- **Of a text cut inside a character, the whole characters have the zeros.** -/
theorem zero_mem_take_iff {t u : String} {n : ℕ} (hle : len t ≤ n)
    (hcut : ∀ i, len t < i → i ≤ n → ¬ IsBoundary (t ++ u) i) :
    0 ∈ (bytes (t ++ u)).take n ↔ 0 ∈ bytes t := by
  have htake : (bytes (t ++ u)).take n = bytes t ++ (bytes u).take (n - len t) := by
    rw [bytes_append, List.take_append, List.take_of_length_le hle]
    rfl
  rw [htake, List.mem_append, or_iff_left]
  -- no zero comes after the whole characters
  intro hzero
  cases hu : u.toList with
  | nil =>
    rw [← String.ofList_toList (s := u), bytes_ofList, hu] at hzero
    simp at hzero
  | cons c l =>
    -- the cut is inside this character
    have hsplit : u = String.ofList [c] ++ String.ofList l := by
      rw [← String.ofList_append, List.singleton_append, ← hu, String.ofList_toList]
    have hinside : n < len t + c.utf8Size := by
      by_contra hn
      have hpos := c.utf8Size_pos
      refine hcut (len t + c.utf8Size) (by omega) (not_lt.mp hn) ⟨t ++ String.ofList [c],
        String.ofList l, ?_, ?_⟩
      · rw [hsplit, String.append_assoc]
      · rw [len_append, len_singleton]
    have hbytes : bytes u = String.utf8EncodeChar c ++ bytes (String.ofList l) := by
      rw [hsplit, bytes_append, bytes_ofList, List.flatMap_singleton]
    rw [hbytes, List.take_append_of_le_length (by rw [String.length_utf8EncodeChar]; omega)]
      at hzero
    obtain rfl := zero_mem_utf8EncodeChar.mp (List.mem_of_mem_take hzero)
    have hone : Char.utf8Size '\x00' = 1 := rfl
    rw [show n - len t = 0 by omega, List.take_zero] at hzero
    exact List.not_mem_nil hzero

/-! ## The longest beginning within so many bytes -/

/-- `p` is the longest beginning of `t` that has no more than `n` bytes. -/
structure IsLongest (n : ℕ) (t p : String) : Prop where
  begins : ∃ rest, t = p ++ rest
  len_le : len p ≤ n
  longest : ∀ q rest, t = q ++ rest → len q ≤ n → len q ≤ len p

/-- No beginning ends behind it when no boundary is behind it. -/
theorem isLongest_of_cut {n : ℕ} {p rest : String} (hle : len p ≤ n)
    (hcut : ∀ i, len p < i → i ≤ n → ¬ IsBoundary (p ++ rest) i) : IsLongest n (p ++ rest) p where
  begins := ⟨rest, rfl⟩
  len_le := hle
  longest q rest' hsplit hq := by
    by_contra hlonger
    exact hcut (len q) (not_le.mp hlonger) hq ⟨q, rest', hsplit, rfl⟩

/-- Beginnings of one length are one. -/
theorem eq_of_append_eq_of_len_eq {p q rest rest' : String} (h : p ++ rest = q ++ rest')
    (hlen : len p = len q) : p = q := by
  have hbytes := congrArg bytes h
  rw [bytes_append, bytes_append] at hbytes
  exact bytes_injective (List.append_inj_left hbytes hlen)

theorem IsLongest.unique {n : ℕ} {t p q : String} (hp : IsLongest n t p) (hq : IsLongest n t q) :
    p = q := by
  obtain ⟨rest, hrest⟩ := hp.begins
  obtain ⟨rest', hrest'⟩ := hq.begins
  refine eq_of_append_eq_of_len_eq (hrest.symm.trans hrest') (le_antisymm ?_ ?_)
  · exact hq.longest p rest hrest hp.len_le
  · exact hp.longest q rest' hrest' hq.len_le

/-- Of a longer text no more than three bytes are given up: the next character has at most four. -/
theorem IsLongest.lt_len_add {n : ℕ} {t p : String} (h : IsLongest n t p) (hlong : n < len t) :
    n < len p + 4 := by
  obtain ⟨rest, rfl⟩ := h.begins
  cases hrest : rest.toList with
  | nil =>
    obtain rfl : rest = "" := String.toList_eq_nil_iff.mp hrest
    rw [String.append_empty] at hlong
    exact absurd h.len_le (not_le.mpr hlong)
  | cons c l =>
    have hsplit : p ++ rest = (p ++ String.ofList [c]) ++ String.ofList l := by
      rw [String.append_assoc, ← String.ofList_append, List.singleton_append, ← hrest,
        String.ofList_toList]
    have hsize := c.utf8Size_le_four
    have hpos := c.utf8Size_pos
    by_contra hfar
    have hlonger := h.longest _ _ hsplit (by rw [len_append, len_singleton]; omega)
    rw [len_append, len_singleton] at hlonger
    omega

/-- A text that is one character too long loses this character. -/
theorem isLongest_snoc {n : ℕ} {p : String} {c : Char} (hle : len p ≤ n)
    (hlong : n < len (p ++ String.ofList [c])) : IsLongest n (p ++ String.ofList [c]) p where
  begins := ⟨_, rfl⟩
  len_le := hle
  longest q rest hsplit hq := by
    have hlists : p.toList ++ [c] = q.toList ++ rest.toList := by
      simpa using congrArg String.toList hsplit
    rcases List.append_eq_append_iff.mp hlists with ⟨more, hmore, hback⟩ | ⟨more, hmore, -⟩
    · rcases List.cons_eq_append_iff.mp hback with ⟨rfl, -⟩ | ⟨more', rfl, hnil⟩
      · rw [List.append_nil] at hmore
        rw [String.toList_inj.mp hmore]
      · -- the whole text is too long
        obtain rfl : more' = [] := (List.append_eq_nil_iff.mp hnil.symm).1
        have hwhole : q = p ++ String.ofList [c] := by
          rw [← String.toList_inj, hmore, String.toList_append, String.toList_ofList]
        rw [hwhole] at hq
        exact absurd hq (not_le.mpr hlong)
    · have hp : p = q ++ String.ofList more := by
        rw [← String.toList_inj, hmore, String.toList_append, String.toList_ofList]
      rw [hp, len_append]
      omega

end Sentinalysis.Lib.Text
