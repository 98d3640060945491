/-
# Sentinalysis.Lib.Lines — cutting a sequence into lines, over any alphabet.

`lines lf cr l` is the line iterator of a text `l`: the text is cut after every `lf`, and each
piece loses one final `lf` and one `cr` before it.  A piece without an `lf` (only the last one can
be that) is a line too and is kept as it is.

A reader that resumes later has to know where in the text it stopped.  The one quantity such a
reader can compute from the lines alone is the sum of their sizes plus one for each terminator
(`resume`); the law `resume_add_crlfs` says exactly how far that is from the size of the text:
one short for every `cr lf`, one over when the text ends inside a line.
-/
import Mathlib.Data.List.Induction
import Mathlib.Algebra.BigOperators.Group.List.Basic
import Mathlib.Tactic.Ring

namespace Sentinalysis.Lib.Lines

universe u

variable {α : Type u} (lf cr : α)

/-- `l` stops at a line boundary: it is empty or its last element is `lf`. -/
def Closed (l : List α) : Prop := l = [] ∨ l.getLast? = some lf

/-- The size of a text whose elements have the given sizes. -/
def weight (size : α → ℕ) (l : List α) : ℕ := (l.map size).sum

variable [DecidableEq α]

instance (l : List α) : Decidable (Closed lf l) := inferInstanceAs (Decidable (_ ∨ _))

/-- Cuts `l` after every `lf`; what follows the last `lf`, if anything, is the last piece. -/
def pieces : List α → List (List α)
  | [] => []
  | a :: l =>
    if a = lf then [a] :: pieces l
    else match pieces l with
      | [] => [[a]]
      | p :: ps => (a :: p) :: ps

/-- Removes one final `lf`, and then one final `cr`; a piece without a final `lf` is kept. -/
def stripEnd (p : List α) : List α :=
  if p.getLast? = some lf then
    if p.dropLast.getLast? = some cr then p.dropLast.dropLast else p.dropLast
  else p

/-- The lines of `l`. -/
def lines (l : List α) : List (List α) := (pieces lf l).map (stripEnd lf cr)

/-- What a reader that saw only the lines takes for the size of the text: every line and one
terminator each. -/
def resume (size : α → ℕ) (l : List α) : ℕ :=
  ((lines lf cr l).map fun line => weight size line + 1).sum

/-- The number of lines that end in `cr lf`. -/
def crlfs (l : List α) : ℕ := (pieces lf l).countP fun p => [cr, lf] <:+ p

/-! ## Line boundaries -/

section Closed

omit [DecidableEq α]
variable {lf}

@[simp] theorem closed_nil : Closed lf ([] : List α) := Or.inl rfl

theorem closed_snoc (l : List α) : Closed lf (l ++ [lf]) := Or.inr (by simp)

theorem closed_cons_cons {a b : α} {l : List α} :
    Closed lf (a :: b :: l) ↔ Closed lf (b :: l) := by
  simp [Closed, List.getLast?_cons_cons]

theorem closed_singleton {a : α} : Closed lf [a] ↔ a = lf := by simp [Closed]

theorem Closed.append {a b : List α} (ha : Closed lf a) (hb : Closed lf b) :
    Closed lf (a ++ b) := by
  rcases hb with rfl | hb
  · simpa using ha
  · exact Or.inr (by simp [List.getLast?_append, hb])

theorem Closed.of_append {a b : List α} (h : Closed lf (a ++ b)) (hb : b ≠ []) : Closed lf b := by
  rcases h with h | h
  · exact absurd (List.append_eq_nil_iff.mp h).2 hb
  · rw [List.getLast?_append_of_ne_nil _ hb] at h
    exact Or.inr h

/-- A text that does not stop at a line boundary has a last element other than `lf`. -/
theorem exists_last_of_not_closed {l : List α} (h : ¬ Closed lf l) :
    ∃ b a, l = b ++ [a] ∧ a ≠ lf := by
  induction l using List.reverseRecOn with
  | nil => exact absurd closed_nil h
  | append_singleton b a _ => exact ⟨b, a, rfl, by rintro rfl; exact h (closed_snoc b)⟩

end Closed

variable {lf cr}

/-! ## Pieces -/

@[simp] theorem pieces_nil : pieces lf ([] : List α) = [] := rfl

theorem pieces_cons_lf (l : List α) : pieces lf (lf :: l) = [lf] :: pieces lf l := by
  simp [pieces]

theorem pieces_cons_ne {a : α} {l : List α} {p : List α} {ps : List (List α)} (ha : a ≠ lf)
    (hl : pieces lf l = p :: ps) : pieces lf (a :: l) = (a :: p) :: ps := by
  simp [pieces, ha, hl]

theorem pieces_singleton_ne {a : α} (ha : a ≠ lf) : pieces lf [a] = [[a]] := by
  simp [pieces, ha]

theorem pieces_ne_nil {l : List α} (h : l ≠ []) : pieces lf l ≠ [] := by
  cases l with
  | nil => exact absurd rfl h
  | cons a l =>
    unfold pieces
    split
    · simp
    · split <;> simp

theorem nil_notMem_pieces (l : List α) : ([] : List α) ∉ pieces lf l := by
  induction l with
  | nil => simp
  | cons a l ih =>
    unfold pieces
    split
    · simpa using ih
    · split
      · simp
      · rename_i hps
        rw [hps] at ih
        simpa using (List.mem_cons.not.mp ih ∘ Or.inr)

/-- Every piece but the last ends in an `lf`. -/
theorem closed_of_mem_dropLast_pieces (l : List α) :
    ∀ p ∈ (pieces lf l).dropLast, p.getLast? = some lf := by
  induction l with
  | nil => simp
  | cons a l ih =>
    by_cases ha : a = lf
    · subst ha
      rw [pieces_cons_lf]
      cases hl : pieces a l with
      | nil => simp
      | cons p ps =>
        rw [hl] at ih
        rw [List.dropLast_cons_cons, List.forall_mem_cons]
        exact ⟨rfl, ih⟩
    · cases hl : pieces lf l with
      | nil => simp [pieces, ha, hl]
      | cons p ps =>
        rw [hl] at ih
        rw [pieces_cons_ne ha hl]
        cases ps with
        | nil => simp
        | cons q ps =>
          rw [List.dropLast_cons_cons, List.forall_mem_cons] at ih ⊢
          refine ⟨?_, ih.2⟩
          have hne : p ≠ [] := by
            rintro rfl
            exact absurd ih.1 (by simp)
          obtain ⟨c, p', rfl⟩ := List.exists_cons_of_ne_nil hne
          rw [List.getLast?_cons_cons]
          exact ih.1

theorem pieces_flatten (l : List α) : (pieces lf l).flatten = l := by
  induction l with
  | nil => rfl
  | cons a l ih =>
    by_cases ha : a = lf
    · subst ha
      rw [pieces_cons_lf, List.flatten_cons, ih, List.singleton_append]
    · cases hl : pieces lf l with
      | nil =>
        rw [hl] at ih
        obtain rfl : l = [] := by simpa using ih.symm
        rw [pieces_singleton_ne ha]; rfl
      | cons p ps =>
        rw [hl] at ih
        rw [pieces_cons_ne ha hl, List.flatten_cons, List.cons_append, ← List.flatten_cons, ih]

/-- Cutting after a line boundary cuts the two sides apart. -/
theorem pieces_append {a : List α} (h : Closed lf a) (b : List α) :
    pieces lf (a ++ b) = pieces lf a ++ pieces lf b := by
  induction a with
  | nil => rfl
  | cons x a ih =>
    cases a with
    | nil =>
      obtain rfl : x = lf := closed_singleton.mp h
      simp [pieces]
    | cons y a =>
      have hrest := ih (closed_cons_cons.mp h)
      by_cases hx : x = lf
      · subst hx
        rw [List.cons_append, pieces_cons_lf, pieces_cons_lf, hrest, List.cons_append]
      · have hne : pieces lf (y :: a) ≠ [] := pieces_ne_nil (List.cons_ne_nil y a)
        obtain ⟨p, ps, hp⟩ := List.exists_cons_of_ne_nil hne
        have hrest : pieces lf (y :: a ++ b) = p :: (ps ++ pieces lf b) := by rw [hrest, hp]; rfl
        rw [List.cons_append, pieces_cons_ne hx hrest, pieces_cons_ne hx hp, List.cons_append]

/-! ## Lines -/

/-- A line is the beginning of its piece. -/
theorem stripEnd_prefix (p : List α) : stripEnd lf cr p <+: p := by
  unfold stripEnd
  split
  · split
    · exact (List.dropLast_prefix _).trans (List.dropLast_prefix p)
    · exact List.dropLast_prefix p
  · exact List.prefix_refl p

@[simp] theorem lines_nil : lines lf cr ([] : List α) = [] := rfl

/-- The lines of two texts joined at a line boundary are the lines of the one and then those of the
other. -/
theorem lines_append {a : List α} (h : Closed lf a) (b : List α) :
    lines lf cr (a ++ b) = lines lf cr a ++ lines lf cr b := by
  simp [lines, pieces_append h]

/-- Terminating an open last line does not change it, unless it ends in `cr`. -/
theorem lines_terminate {l : List α} {a : α} (hlf : a ≠ lf) (hcr : a ≠ cr) :
    lines lf cr (l ++ [a] ++ [lf]) = lines lf cr (l ++ [a]) := by
  suffices h : ∃ ps p, pieces lf (l ++ [a]) = ps ++ [p ++ [a]] ∧
      pieces lf (l ++ [a] ++ [lf]) = ps ++ [p ++ [a] ++ [lf]] by
    obtain ⟨ps, p, hopen, hclosed⟩ := h
    rw [lines, lines, hopen, hclosed]
    simp [stripEnd, hlf, hcr]
  induction l with
  | nil =>
    refine ⟨[], [], ?_, ?_⟩
    · simpa using pieces_singleton_ne hlf
    · have hlast : pieces lf [lf] = [lf] :: [] := pieces_cons_lf []
      simpa using pieces_cons_ne hlf hlast
  | cons x l ih =>
    obtain ⟨ps, p, hopen, hclosed⟩ := ih
    by_cases hx : x = lf
    · subst hx
      exact ⟨[x] :: ps, p, by rw [List.cons_append, pieces_cons_lf, hopen, List.cons_append],
        by rw [List.cons_append, List.cons_append, pieces_cons_lf, hclosed, List.cons_append]⟩
    · cases ps with
      | nil =>
        exact ⟨[], x :: p, by rw [List.cons_append, pieces_cons_ne hx hopen]; rfl,
          by rw [List.cons_append, List.cons_append, pieces_cons_ne hx hclosed]; rfl⟩
      | cons q ps =>
        exact ⟨(x :: q) :: ps, p, by rw [List.cons_append, pieces_cons_ne hx hopen]; rfl,
          by rw [List.cons_append, List.cons_append, pieces_cons_ne hx hclosed]; rfl⟩

/-- A text without an `lf` is one line. -/
theorem lines_of_notMem {l : List α} (hlf : lf ∉ l) (hne : l ≠ []) : lines lf cr l = [l] := by
  have hpieces : pieces lf l = [l] := by
    induction l with
    | nil => exact absurd rfl hne
    | cons a l ih =>
      have ha : a ≠ lf := fun h => hlf (h ▸ List.mem_cons_self ..)
      by_cases hl : l = []
      · rw [hl, pieces_singleton_ne ha]
      · exact pieces_cons_ne ha (ih (fun h => hlf (List.mem_cons_of_mem _ h)) hl)
  have hlast : l.getLast? ≠ some lf := fun h => hlf (List.mem_of_getLast? h)
  simp [lines, hpieces, stripEnd, hlast]

/-- A terminated text without another `lf` is one line, too. -/
theorem lines_of_terminated {l : List α} (hlf : lf ∉ l) (hcr : cr ∉ l) :
    lines lf cr (l ++ [lf]) = [l] := by
  have hpieces : pieces lf (l ++ [lf]) = [l ++ [lf]] := by
    induction l with
    | nil => exact pieces_cons_lf []
    | cons a l ih =>
      have ha : a ≠ lf := fun h => hlf (h ▸ List.mem_cons_self ..)
      exact pieces_cons_ne ha (ih (fun h => hlf (List.mem_cons_of_mem _ h))
        (fun h => hcr (List.mem_cons_of_mem _ h)))
  have hlast : l.getLast? ≠ some cr := fun h => hcr (List.mem_of_getLast? h)
  simp [lines, hpieces, stripEnd, hlast]

/-! ## The position a line reader can compute -/

section Weight

omit [DecidableEq α]
variable {size : α → ℕ}

@[simp] theorem weight_nil : weight size ([] : List α) = 0 := rfl

@[simp] theorem weight_cons (a : α) (l : List α) :
    weight size (a :: l) = size a + weight size l := by simp [weight]

@[simp] theorem weight_append (a b : List α) :
    weight size (a ++ b) = weight size a + weight size b := by simp [weight]

theorem weight_flatten (ps : List (List α)) :
    weight size ps.flatten = (ps.map (weight size)).sum := by
  induction ps with
  | nil => rfl
  | cons p ps ih => rw [List.flatten_cons, weight_append, ih, List.map_cons, List.sum_cons]

end Weight

variable {size : α → ℕ}

omit [DecidableEq α] in
theorem pair_suffix_iff {x y a b : α} {r : List α} :
    [x, y] <:+ r ++ [b, a] ↔ x = b ∧ y = a := by
  constructor
  · rintro ⟨t, ht⟩
    have := (List.append_inj' ht rfl).2
    simpa using this
  · rintro ⟨rfl, rfl⟩
    exact List.suffix_append r _

/-- The law for one piece: its line is one terminator shorter, two for a `cr lf`. -/
theorem weight_stripEnd (hlf : size lf = 1) (hcr : size cr = 1) (p : List α) :
    weight size (stripEnd lf cr p) + 1 + (if [cr, lf] <:+ p then 1 else 0)
      = weight size p + (if p.getLast? = some lf then 0 else 1) := by
  induction p using List.reverseRecOn with
  | nil => simp [stripEnd]
  | append_singleton q a _ =>
    by_cases ha : a = lf
    · subst ha
      induction q using List.reverseRecOn with
      | nil => simp [stripEnd, hlf, List.suffix_cons_iff]
      | append_singleton r b _ =>
        rw [List.append_assoc, List.singleton_append, if_congr pair_suffix_iff rfl rfl]
        by_cases hb : b = cr
        · subst hb
          simp [stripEnd, hlf, hcr]
        · simp [stripEnd, hlf, hb, Ne.symm hb]
          omega
    · have hsuffix : ¬ [cr, lf] <:+ q ++ [a] := by
        intro h
        have := h.getLast (by simp)
        simp at this
        exact ha this.symm
      simp [stripEnd, ha, hsuffix]

/-- At most the last piece is open, and it is exactly when the text does not stop at a line
boundary. -/
theorem open_pieces (l : List α) :
    ((pieces lf l).map fun p => if p.getLast? = some lf then 0 else 1).sum
      = if Closed lf l then 0 else 1 := by
  induction l with
  | nil => simp
  | cons a l ih =>
    cases l with
    | nil =>
      by_cases ha : a = lf
      · subst ha; simp [pieces, Closed]
      · simp [pieces, ha, Closed]
    | cons b l =>
      have hne : pieces lf (b :: l) ≠ [] := pieces_ne_nil (List.cons_ne_nil b l)
      obtain ⟨p, ps, hp⟩ := List.exists_cons_of_ne_nil hne
      rw [if_congr closed_cons_cons rfl rfl, ← ih]
      by_cases ha : a = lf
      · subst ha
        simp [pieces_cons_lf]
      · have hne : p ≠ [] := by
          rintro rfl
          have hmem : ([] : List α) ∈ pieces lf (b :: l) := by rw [hp]; exact List.mem_cons_self ..
          exact nil_notMem_pieces _ hmem
        obtain ⟨c, p', rfl⟩ := List.exists_cons_of_ne_nil hne
        rw [pieces_cons_ne ha hp, hp]
        simp [List.getLast?_cons_cons]

/-- **The resume law.**  Lines and terminators add up to the size of the text, less one for every
`cr lf` and plus one when the text stops inside a line. -/
theorem resume_add_crlfs (hlf : size lf = 1) (hcr : size cr = 1) (l : List α) :
    resume lf cr size l + crlfs lf cr l
      = weight size l + (if Closed lf l then 0 else 1) := by
  have hsum : ∀ ps : List (List α),
      ((ps.map (stripEnd lf cr)).map fun line => weight size line + 1).sum
          + ps.countP (fun p => [cr, lf] <:+ p)
        = (ps.map (weight size)).sum
          + (ps.map fun p => if p.getLast? = some lf then 0 else 1).sum := by
    intro ps
    induction ps with
    | nil => rfl
    | cons p ps ih =>
      have hp := weight_stripEnd hlf hcr p
      simp only [List.map_cons, List.sum_cons, List.countP_cons, decide_eq_true_eq]
      omega
  rw [← open_pieces, resume, lines, crlfs, hsum, ← weight_flatten, pieces_flatten]

/-- A text without a `cr lf` anywhere has no line that ends in one. -/
theorem crlfs_eq_zero {l : List α} (h : ¬ [cr, lf] <:+: l) : crlfs lf cr l = 0 := by
  rw [crlfs, List.countP_eq_zero]
  intro p hp hsuffix
  have hpl : p <:+: l := by
    have := List.infix_of_mem_flatten hp
    rwa [pieces_flatten] at this
  exact h ((of_decide_eq_true hsuffix).isInfix.trans hpl)

end Sentinalysis.Lib.Lines
