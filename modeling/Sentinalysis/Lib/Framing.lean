/-
# Sentinalysis.Lib.Framing — reading newline-terminated frames from a file that grows.

A writer appends frames, one on each line, in pieces of any size.  A reader looks at the file from
some byte on and keeps what a parser accepts of the lines it sees.  Two counts say which frames
these are: the frames begun before a byte, and the frames that are complete when the file has a
given size.  A reader that starts at byte `o` of a file of size `n` sees the frames that are not
begun before `o` and are complete at `n`; for two reads to fit together the second has to start
where no frame is begun that was not complete at the first.
-/
import Sentinalysis.Lib.Text

namespace Sentinalysis.Lib.Framing

/-- The bytes of some frames, one on each line. -/
def encode (frames : List String) : List UInt8 :=
  frames.flatMap fun frame => Text.bytes frame ++ [10]

/-- How many frames begin before byte `p`. -/
def begun : List String → ℕ → ℕ
  | [], _ => 0
  | frame :: frames, p => if p = 0 then 0 else begun frames (p - (Text.len frame + 1)) + 1

/-- How many frames are complete in the first `n` bytes; the last newline may be missing. -/
def complete : List String → ℕ → ℕ
  | [], _ => 0
  | frame :: frames, n =>
    if n < Text.len frame then 0 else complete frames (n - (Text.len frame + 1)) + 1

/-- A frame of a parser: one line, of which the parser accepts neither a beginning nor an end. -/
structure Frame {β : Type} (parse : String → Option β) (frame : String) : Prop where
  nonempty : frame ≠ ""
  oneLine : '\n' ∉ frame.toList
  noReturn : '\r' ∉ frame.toList
  beginnings : ∀ p q, frame = p ++ q → q ≠ "" → parse p = none
  ends : ∀ p q, frame = p ++ q → p ≠ "" → parse q = none

/-- A stricter parser has the same frames. -/
theorem Frame.of_stricter {β γ : Type} {parse : String → Option β} {parse' : String → Option γ}
    {frame : String} (h : Frame parse frame) (hstrict : ∀ s, parse s = none → parse' s = none) :
    Frame parse' frame where
  nonempty := h.nonempty
  oneLine := h.oneLine
  noReturn := h.noReturn
  beginnings p q hframe hq := hstrict p (h.beginnings p q hframe hq)
  ends p q hframe hp := hstrict q (h.ends p q hframe hp)

/-! ## Counting frames -/

@[simp] theorem encode_nil : encode [] = [] := rfl

theorem encode_cons (frame : String) (frames : List String) :
    encode (frame :: frames) = Text.bytes frame ++ 10 :: encode frames := by
  simp [encode]

theorem length_encode_cons (frame : String) (frames : List String) :
    (encode (frame :: frames)).length = Text.len frame + 1 + (encode frames).length := by
  rw [encode_cons, List.length_append, List.length_cons, Text.len]
  omega

/-- The bytes of frames are a text. -/
theorem exists_bytes_eq_encode (frames : List String) :
    ∃ text, Text.bytes text = encode frames := by
  induction frames with
  | nil => exact ⟨"", rfl⟩
  | cons frame frames ih =>
    obtain ⟨text, htext⟩ := ih
    refine ⟨frame ++ ("\n" ++ text), ?_⟩
    rw [encode_cons, Text.bytes_append, Text.bytes_append, htext]
    rfl

theorem begun_zero (frames : List String) : begun frames 0 = 0 := by
  cases frames <;> rfl

theorem complete_zero {frames : List String} (h : ∀ frame ∈ frames, frame ≠ "") :
    complete frames 0 = 0 := by
  cases frames with
  | nil => rfl
  | cons frame frames =>
    have hlen : Text.len frame ≠ 0 := by
      intro hzero
      apply h frame (List.mem_cons_self ..)
      apply Text.bytes_injective
      exact List.length_eq_zero_iff.mp hzero
    unfold complete
    rw [if_pos (by omega)]

theorem complete_mono (frames : List String) {m n : ℕ} (h : m ≤ n) :
    complete frames m ≤ complete frames n := by
  induction frames generalizing m n with
  | nil => exact Nat.le_refl _
  | cons frame frames ih =>
    unfold complete
    split
    · exact Nat.zero_le _
    · next hm =>
      rw [if_neg (by omega)]
      have hrest := ih (show m - (Text.len frame + 1) ≤ n - (Text.len frame + 1) by omega)
      omega

/-- All frames are begun at the end of the file. -/
theorem begun_length (frames : List String) :
    begun frames (encode frames).length = frames.length := by
  induction frames with
  | nil => rfl
  | cons frame frames ih =>
    rw [length_encode_cons, begun, if_neg (by omega), Nat.add_sub_cancel_left, ih]
    rfl

/-- All frames are complete there. -/
theorem complete_length (frames : List String) :
    complete frames (encode frames).length = frames.length := by
  induction frames with
  | nil => rfl
  | cons frame frames ih =>
    rw [length_encode_cons, complete, if_neg (by omega), Nat.add_sub_cancel_left, ih]
    rfl

/-! ## The frames a reader sees -/

/-- A line in front of a text. -/
theorem lines_cons {line : String} (hline : '\n' ∉ line.toList) (hreturn : '\r' ∉ line.toList)
    (text : String) : Text.lines (line ++ "\n" ++ text) = line :: Text.lines text := by
  rw [Text.lines_append (Text.endsAtLine_newline line)]
  have hone : Lines.lines '\n' '\r' (line.toList ++ ['\n']) = [line.toList] :=
    Lines.lines_of_terminated hline hreturn
  simp [Text.lines, hone]

variable {β : Type} {parse : String → Option β}

/-- What is not accepted as a whole line yields nothing. -/
theorem filterMap_lines_of_oneLine {line : String} (hline : '\n' ∉ line.toList)
    (h : parse line = none) : (Text.lines line).filterMap parse = [] := by
  by_cases hempty : line.toList = []
  · rw [Text.lines, hempty]
    rfl
  · rw [Text.lines, Lines.lines_of_notMem hline hempty]
    simp [h]

/-- A beginning of `a ++ 10 :: b` ends inside `a`, after it, or in `b`. -/
theorem prefix_append_cons_iff {a b n : List UInt8} :
    n <+: a ++ 10 :: b ↔
      (n.length < a.length ∧ n <+: a) ∨ n = a ∨ ∃ m, n = a ++ 10 :: m ∧ m <+: b := by
  constructor
  · intro h
    rcases Nat.lt_trichotomy n.length a.length with hlt | heq | hgt
    · exact Or.inl ⟨hlt, List.prefix_of_prefix_length_le h (List.prefix_append _ _) hlt.le⟩
    · have ha := List.prefix_of_prefix_length_le h (List.prefix_append a (10 :: b)) heq.le
      exact Or.inr (Or.inl (ha.eq_of_length heq))
    · obtain ⟨m, rfl⟩ := List.prefix_of_prefix_length_le (List.prefix_append a (10 :: b)) h hgt.le
      have hm := (List.prefix_append_right_inj a).mp h
      cases m with
      | nil => rw [List.append_nil] at hgt; exact absurd hgt (Nat.lt_irrefl _)
      | cons x m =>
        obtain ⟨rfl, hrest⟩ := List.cons_prefix_cons.mp hm
        exact Or.inr (Or.inr ⟨m, rfl, hrest⟩)
  · rintro (⟨-, h⟩ | rfl | ⟨m, rfl, h⟩)
    · exact h.trans (List.prefix_append _ _)
    · exact List.prefix_append _ _
    · exact (List.prefix_append_right_inj a).mpr (List.cons_prefix_cons.mpr ⟨rfl, h⟩)

/-- A text after a terminated line. -/
theorem exists_of_bytes_line {line text : String} {m : List UInt8}
    (h : Text.bytes text = Text.bytes line ++ 10 :: m) :
    ∃ rest, text = line ++ "\n" ++ rest ∧ Text.bytes rest = m := by
  have hline : Text.bytes (line ++ "\n") ++ m = Text.bytes text := by
    rw [h, Text.bytes_append, List.append_assoc]
    rfl
  exact Text.exists_of_bytes_append hline

/-- **A reader from the start** sees the complete frames. -/
theorem filterMap_lines_of_prefix {frames : List String}
    (hframes : ∀ frame ∈ frames, Frame parse frame) {text : String}
    (h : Text.bytes text <+: encode frames) : (Text.lines text).filterMap parse =
      (frames.take (complete frames (Text.len text))).filterMap parse := by
  induction frames generalizing text with
  | nil =>
    obtain rfl : text = "" := Text.bytes_injective (List.prefix_nil.mp h)
    rfl
  | cons frame frames ih =>
    have hframe := hframes frame (List.mem_cons_self ..)
    have hrest := fun other hmem => hframes other (List.mem_cons_of_mem frame hmem)
    rw [encode_cons, prefix_append_cons_iff] at h
    rcases h with ⟨hlt, r, hr⟩ | heq | ⟨m, hm, hprefix⟩
    · -- the text ends inside the first frame
      obtain ⟨q, rfl, rfl⟩ := Text.exists_of_bytes_append hr
      have hq : q ≠ "" := by
        rintro rfl
        simp at hlt
      have hline : '\n' ∉ text.toList := by
        intro hmem
        apply hframe.oneLine
        rw [String.toList_append]
        exact List.mem_append_left _ hmem
      rw [filterMap_lines_of_oneLine hline (hframe.beginnings text q rfl hq), complete,
        if_pos (show Text.len text < Text.len (text ++ q) from hlt)]
      rfl
    · obtain rfl : text = frame := Text.bytes_injective heq
      have hempty : text.toList ≠ [] := fun h => hframe.nonempty (String.toList_inj.mp h)
      rw [complete, if_neg (Nat.lt_irrefl _), Nat.sub_eq_zero_of_le (Nat.le_succ _),
        complete_zero fun other hmem => (hrest other hmem).nonempty, Text.lines,
        Lines.lines_of_notMem hframe.oneLine hempty]
      simp
    · obtain ⟨rest, rfl, rfl⟩ := exists_of_bytes_line hm
      have hlen : Text.len (frame ++ "\n" ++ rest) = Text.len frame + 1 + Text.len rest := by
        rw [Text.len_append, Text.len_append]
        rfl
      rw [lines_cons hframe.oneLine hframe.noReturn, hlen, complete, if_neg (by omega),
        Nat.add_sub_cancel_left, List.filterMap_cons, ih hrest hprefix, List.take_succ_cons,
        List.filterMap_cons]

/-- What is left of a frame from a byte on that is not its first: one line that the parser does not
accept. -/
theorem Frame.exists_end {frame : String} (h : Frame parse frame) {o : ℕ} (hpos : o ≠ 0)
    (ho : o ≤ Text.len frame)
    (hboundary : (Text.fromUtf8 ((Text.bytes frame).take o)).isSome = true) :
    ∃ q, Text.bytes q = (Text.bytes frame).drop o ∧ '\n' ∉ q.toList ∧ '\r' ∉ q.toList ∧
      parse q = none := by
  obtain ⟨p, hp⟩ := Option.isSome_iff_exists.mp hboundary
  have hbytes := Text.bytes_of_fromUtf8 hp
  have hsplit : Text.bytes p ++ (Text.bytes frame).drop o = Text.bytes frame := by
    rw [hbytes, List.take_append_drop]
  obtain ⟨q, rfl, hq⟩ := Text.exists_of_bytes_append hsplit
  have hne : p ≠ "" := by
    rintro rfl
    have hlen : ((Text.bytes ("" ++ q)).take o).length = 0 := by rw [← hbytes]; rfl
    rw [List.length_take, ← Text.len] at hlen
    omega
  have hsub : ∀ c, c ∉ (p ++ q).toList → c ∉ q.toList := by
    intro c hc hmem
    apply hc
    rw [String.toList_append]
    exact List.mem_append_right _ hmem
  exact ⟨q, hq, hsub _ h.oneLine, hsub _ h.noReturn, h.ends p q rfl hne⟩

/-- Positions after a line are positions in what follows it. -/
theorem drop_line (line : String) (m : List UInt8) (o : ℕ) :
    (Text.bytes line ++ 10 :: m).drop (Text.len line + 1 + o) = m.drop o := by
  rw [List.drop_append, Text.len, List.drop_eq_nil_of_le (by omega), List.nil_append]
  rw [show (Text.bytes line).length + 1 + o - (Text.bytes line).length = o + 1 by omega]
  rfl

theorem isSome_of_take_line {line : String} {m : List UInt8} {o : ℕ}
    (h : (Text.fromUtf8
      ((Text.bytes line ++ 10 :: m).take (Text.len line + 1 + o))).isSome = true) :
    (Text.fromUtf8 (m.take o)).isSome = true := by
  obtain ⟨text, htext⟩ := Option.isSome_iff_exists.mp h
  have hbytes : Text.bytes text = Text.bytes line ++ 10 :: m.take o := by
    rw [Text.bytes_of_fromUtf8 htext, List.take_append, Text.len, List.take_of_length_le (by omega)]
    rw [show (Text.bytes line).length + 1 + o - (Text.bytes line).length = o + 1 by omega]
    rfl
  obtain ⟨rest, -, hrest⟩ := exists_of_bytes_line hbytes
  rw [← hrest, Text.fromUtf8_bytes]
  rfl

/-- **A reader from byte `o` on** sees the frames that are not begun before `o` and are complete,
if nothing it skips is still incomplete. -/
theorem filterMap_lines_between {frames : List String}
    (hframes : ∀ frame ∈ frames, Frame parse frame) {file : List UInt8} {o : ℕ} {text : String}
    (hfile : file <+: encode frames) (ho : o ≤ file.length)
    (hskipped : begun frames o ≤ complete frames file.length)
    (hboundary : (Text.fromUtf8 (file.take o)).isSome = true)
    (htext : Text.bytes text = file.drop o) : (Text.lines text).filterMap parse =
      ((frames.take (complete frames file.length)).drop (begun frames o)).filterMap parse := by
  induction frames generalizing file o with
  | nil =>
    obtain rfl : file = [] := List.prefix_nil.mp hfile
    rw [List.drop_nil] at htext
    obtain rfl : text = "" := Text.bytes_injective htext
    rfl
  | cons frame frames ih =>
    have hframe := hframes frame (List.mem_cons_self ..)
    have hrest := fun other hmem => hframes other (List.mem_cons_of_mem frame hmem)
    by_cases hzero : o = 0
    · subst hzero
      rw [List.drop_zero] at htext
      rw [begun_zero, List.drop_zero, ← htext]
      exact filterMap_lines_of_prefix hframes (htext ▸ hfile)
    · -- the first frame is begun, so it is complete
      rw [begun, if_neg hzero] at hskipped ⊢
      have hcomplete : Text.len frame ≤ file.length := by
        by_contra hlt
        rw [complete, if_pos (not_le.mp hlt)] at hskipped
        omega
      rw [complete, if_neg (not_lt.mpr hcomplete)] at hskipped ⊢
      rw [encode_cons, prefix_append_cons_iff] at hfile
      rcases hfile with ⟨hlt, -⟩ | rfl | ⟨m, rfl, hm⟩
      · exact absurd hcomplete (not_le.mpr hlt)
      · -- the file ends with the first frame, without its newline
        obtain ⟨q, hq, hline, -, hnone⟩ := hframe.exists_end hzero ho hboundary
        obtain rfl : text = q := Text.bytes_injective (htext.trans hq.symm)
        have hlast : (Text.bytes frame).length - (Text.len frame + 1) = 0 :=
          Nat.sub_eq_zero_of_le (Nat.le_succ _)
        rw [filterMap_lines_of_oneLine hline hnone, hlast,
          complete_zero fun other hmem => (hrest other hmem).nonempty]
        simp
      · have hlength : (Text.bytes frame ++ 10 :: m).length - (Text.len frame + 1) = m.length := by
          rw [List.length_append, List.length_cons, Text.len]
          omega
        rw [hlength] at hskipped ⊢
        rw [List.take_succ_cons, List.drop_succ_cons]
        by_cases hinside : o ≤ Text.len frame
        · -- the reader starts inside the first frame, and skips the rest of it
          rw [List.take_append_of_le_length hinside] at hboundary
          rw [List.drop_append_of_le_length hinside] at htext
          obtain ⟨q, hq, hline, hreturn, hnone⟩ := hframe.exists_end hzero hinside hboundary
          rw [← hq] at htext
          obtain ⟨rest, rfl, rfl⟩ := exists_of_bytes_line htext
          rw [lines_cons hline hreturn, List.filterMap_cons_none hnone,
            filterMap_lines_of_prefix hrest hm, Nat.sub_eq_zero_of_le (by omega), begun_zero]
          rfl
        · obtain ⟨o', rfl⟩ : ∃ o', o = Text.len frame + 1 + o' :=
            ⟨o - (Text.len frame + 1), by omega⟩
          rw [Nat.add_sub_cancel_left] at hskipped ⊢
          rw [List.length_append, List.length_cons, ← Text.len] at ho
          rw [drop_line] at htext
          exact ih hrest hm (by omega) (by omega) (isSome_of_take_line hboundary) htext

end Sentinalysis.Lib.Framing
