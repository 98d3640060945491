/-
# Sentinalysis.Lib.RegexTakes — what an expression takes, and what its groups hold.

The relation `Takes` says which texts an expression takes between what is before and what is behind,
and which groups that leaves.  Runs yield exactly what it says, whatever their order of preference.
Where an expression is made of classes and literals, taking is an equation between texts, and where
a delimiter is not in the class before it the equation has one solution.
-/
import Sentinalysis.Lib.Regex
import Sentinalysis.Lib.Text
import Mathlib.Data.List.TakeWhile

namespace Sentinalysis.Lib

namespace Regex

variable {γ : Type}

/-! ## Taking a text -/

/-- Rounds of something that is taken, none of them empty; the groups of the last one come first. -/
inductive Rounds (P : List Char → List Char → List Char → Captures γ → Prop) :
    List Char → List Char → List Char → Captures γ → Prop
  | nil (before back : List Char) : Rounds P before [] back []
  | cons {before first w back : List Char} {groups more : Captures γ}
      (hfirst : P before first (w ++ back) groups) (hne : first ≠ [])
      (hmore : Rounds P (first.reverse ++ before) w back more) :
      Rounds P before (first ++ w) back (more ++ groups)

/-- The expression takes a text that stands between what is before (nearest character first) and
what is behind, and leaves these groups (latest first). -/
def Takes : Regex γ → List Char → List Char → List Char → Captures γ → Prop
  | empty => fun _ w _ groups => w = [] ∧ groups = []
  | bos => fun before w _ groups => before = [] ∧ w = [] ∧ groups = []
  | eos => fun _ w back groups => back = [] ∧ w = [] ∧ groups = []
  | cls p => fun _ w _ groups => (∃ x, p x = true ∧ w = [x]) ∧ groups = []
  | seq r s => fun before w back groups => ∃ w₁ w₂ groups₁ groups₂,
      Takes r before w₁ (w₂ ++ back) groups₁ ∧ Takes s (w₁.reverse ++ before) w₂ back groups₂ ∧
        w = w₁ ++ w₂ ∧ groups = groups₂ ++ groups₁
  | alt r s => fun before w back groups =>
      Takes r before w back groups ∨ Takes s before w back groups
  | star _ r => Rounds (Takes r)
  | cap name r => fun before w back groups => ∃ inner,
      Takes r before w back inner ∧ groups = (name, w) :: inner

/-- The cursor behind a text that was taken. -/
def Cursor.past (c : Cursor γ) (w back : List Char) (groups : Captures γ) : Cursor γ where
  before := w.reverse ++ c.before
  pos := c.pos + w.length
  rest := back
  caps := groups ++ c.caps

@[simp] theorem Cursor.past_rest (c : Cursor γ) (w back : List Char) (groups : Captures γ) :
    (c.past w back groups).rest = back := rfl

@[simp] theorem Cursor.past_before (c : Cursor γ) (w back : List Char) (groups : Captures γ) :
    (c.past w back groups).before = w.reverse ++ c.before := rfl

@[simp] theorem Cursor.past_caps (c : Cursor γ) (w back : List Char) (groups : Captures γ) :
    (c.past w back groups).caps = groups ++ c.caps := rfl

theorem Cursor.past_past (c : Cursor γ) (w₁ w₂ middle back : List Char)
    (groups₁ groups₂ : Captures γ) :
    (c.past w₁ middle groups₁).past w₂ back groups₂
      = c.past (w₁ ++ w₂) back (groups₂ ++ groups₁) := by
  simp [past, Nat.add_assoc]

/-- Nothing was taken. -/
theorem Cursor.past_nil (c : Cursor γ) : c.past [] c.rest [] = c := by
  simp [past]

/-- The text between a cursor and the one behind it is what was taken. -/
theorem between_past (c : Cursor γ) (w back : List Char) (groups : Captures γ) :
    between c (c.past w back groups) = w := by
  simp [between, Cursor.past]

/-! ## Runs yield what is taken -/

/-- Without a text there was no round. -/
theorem rounds_nil_iff {P : List Char → List Char → List Char → Captures γ → Prop}
    {before w back : List Char} {groups : Captures γ} (hw : w = []) :
    Rounds P before w back groups ↔ groups = [] := by
  constructor
  · rintro (_ | ⟨-, hne, -⟩)
    · rfl
    · exact absurd (List.append_eq_nil_iff.mp hw).1 hne
  · rintro rfl
    exact hw ▸ .nil before back

/-- One round more, or none. -/
theorem mem_repeatRun_succ {run : Cursor γ → List (Cursor γ)} {greedy : Bool} {fuel : ℕ}
    {c d : Cursor γ} : d ∈ repeatRun run greedy (fuel + 1) c ↔
      d = c ∨ ∃ e ∈ run c, c.pos < e.pos ∧ d ∈ repeatRun run greedy fuel e := by
  rw [repeatRun]
  cases greedy <;> simp [and_assoc, or_comm]

/-- Rounds of a run take rounds of what the run takes. -/
theorem mem_repeatRun_iff {r : Regex γ} (greedy : Bool)
    (hround : ∀ {c d : Cursor γ}, d ∈ run r c ↔ ∃ w back groups, Takes r c.before w back groups ∧
      c.rest = w ++ back ∧ d = c.past w back groups)
    {fuel : ℕ} {c d : Cursor γ} (hfuel : c.rest.length ≤ fuel) :
    d ∈ repeatRun (run r) greedy fuel c ↔ ∃ w back groups,
      Rounds (Takes r) c.before w back groups ∧ c.rest = w ++ back ∧
        d = c.past w back groups := by
  induction fuel generalizing c with
  | zero =>
    -- nothing is left to take
    obtain hrest : c.rest = [] := List.eq_nil_of_length_eq_zero (by omega)
    constructor
    · intro hd
      rw [List.mem_singleton.mp hd]
      exact ⟨[], c.rest, [], .nil _ _, rfl, c.past_nil.symm⟩
    · rintro ⟨w, back, groups, hrounds, hsplit, rfl⟩
      rw [hrest] at hsplit
      obtain ⟨rfl, rfl⟩ := List.append_eq_nil_iff.mp hsplit.symm
      rw [(rounds_nil_iff rfl).mp hrounds]
      exact List.mem_singleton.mpr (hrest ▸ c.past_nil)
  | succ fuel ih =>
    rw [mem_repeatRun_succ]
    constructor
    · rintro (rfl | ⟨e, he, hlt, hd⟩)
      · exact ⟨[], d.rest, [], .nil _ _, rfl, d.past_nil.symm⟩
      · obtain ⟨first, middle, groups, hfirst, hsplit, rfl⟩ := hround.mp he
        have hne : first ≠ [] := by
          rintro rfl
          simp [Cursor.past] at hlt
        have hpos := List.length_pos_of_ne_nil hne
        have hlength : c.rest.length = first.length + middle.length := by
          rw [hsplit, List.length_append]
        obtain ⟨w, back, more, hmore, hmiddle, rfl⟩ := (ih (by rw [Cursor.past_rest]; omega)).mp hd
        rw [Cursor.past_rest] at hmiddle
        subst hmiddle
        exact ⟨first ++ w, back, more ++ groups, .cons hfirst hne hmore,
          by rw [hsplit, List.append_assoc], Cursor.past_past ..⟩
    · rintro ⟨w, back, groups, hrounds, hsplit, rfl⟩
      cases hrounds with
      | nil =>
        rw [List.nil_append] at hsplit
        exact Or.inl (hsplit ▸ c.past_nil)
      | @cons _ first w _ groups more hfirst hne hmore =>
        have hpos := List.length_pos_of_ne_nil hne
        rw [List.append_assoc] at hsplit
        have hlength : c.rest.length = first.length + (w ++ back).length := by
          rw [hsplit, List.length_append]
        refine Or.inr ⟨c.past first (w ++ back) groups,
          hround.mpr ⟨first, w ++ back, groups, hfirst, hsplit, rfl⟩, ?_, ?_⟩
        · simp only [Cursor.past]
          omega
        · rw [ih (by rw [Cursor.past_rest]; omega)]
          exact ⟨w, back, more, hmore, rfl, (Cursor.past_past ..).symm⟩

/-- **A run yields what the expression takes**, with the groups it leaves. -/
theorem mem_run_iff {r : Regex γ} {c d : Cursor γ} : d ∈ run r c ↔ ∃ w back groups,
    Takes r c.before w back groups ∧ c.rest = w ++ back ∧ d = c.past w back groups := by
  have hstay : ∀ {c d : Cursor γ}, d = c ↔ ∃ w back groups, (w = [] ∧ groups = []) ∧
      c.rest = w ++ back ∧ d = c.past w back groups := by
    intro c d
    constructor
    · rintro rfl
      exact ⟨[], d.rest, [], ⟨rfl, rfl⟩, rfl, d.past_nil.symm⟩
    · rintro ⟨w, back, groups, ⟨rfl, rfl⟩, hrest, rfl⟩
      rw [List.nil_append] at hrest
      exact hrest ▸ c.past_nil
  induction r generalizing c d with
  | empty => rw [run, List.mem_singleton, hstay, Takes]
  | bos =>
    by_cases hbefore : c.before = []
    · rw [run, if_pos hbefore, List.mem_singleton, hstay]
      simp only [Takes, hbefore, true_and]
    · simp [run, Takes, hbefore]
  | eos =>
    by_cases hrest : c.rest = []
    · rw [run, if_pos hrest, List.mem_singleton]
      constructor
      · rintro rfl
        exact ⟨[], [], [], ⟨rfl, rfl, rfl⟩, hrest, (hrest ▸ d.past_nil).symm⟩
      · rintro ⟨w, back, groups, ⟨rfl, rfl, rfl⟩, -, rfl⟩
        exact hrest ▸ c.past_nil
    · rw [run, if_neg hrest]
      constructor
      · intro hd
        cases hd
      · rintro ⟨w, back, groups, ⟨rfl, rfl, -⟩, hnil, -⟩
        exact absurd hnil hrest
  | cls p =>
    rw [run]
    constructor
    · intro hd
      split at hd
      · cases hd
      · next x rest hrest =>
        split at hd
        · next hx =>
          rw [List.mem_singleton.mp hd]
          exact ⟨[x], rest, [], ⟨⟨x, hx, rfl⟩, rfl⟩, hrest, rfl⟩
        · cases hd
    · rintro ⟨w, back, groups, ⟨⟨x, hx, rfl⟩, rfl⟩, hrest, rfl⟩
      rw [List.singleton_append] at hrest
      simp [hrest, hx, Cursor.advance, Cursor.past]
  | seq r s ihr ihs =>
    rw [run, List.mem_flatMap]
    constructor
    · rintro ⟨e, he, hd⟩
      obtain ⟨w₁, middle, groups₁, hr, hsplit, rfl⟩ := ihr.mp he
      obtain ⟨w₂, back, groups₂, hs, hmiddle, rfl⟩ := ihs.mp hd
      rw [Cursor.past_rest] at hmiddle
      subst hmiddle
      exact ⟨w₁ ++ w₂, back, groups₂ ++ groups₁, ⟨w₁, w₂, groups₁, groups₂, hr, hs, rfl, rfl⟩,
        by rw [hsplit, List.append_assoc], Cursor.past_past ..⟩
    · rintro ⟨_, back, _, ⟨w₁, w₂, groups₁, groups₂, hr, hs, rfl, rfl⟩, hsplit, rfl⟩
      rw [List.append_assoc] at hsplit
      refine ⟨c.past w₁ (w₂ ++ back) groups₁,
        ihr.mpr ⟨w₁, w₂ ++ back, groups₁, hr, hsplit, rfl⟩, ?_⟩
      exact ihs.mpr ⟨w₂, back, groups₂, hs, rfl, (Cursor.past_past ..).symm⟩
  | alt r s ihr ihs =>
    simp only [run, List.mem_append, ihr, ihs, Takes, or_and_right, exists_or]
  | star greedy r ih => exact mem_repeatRun_iff greedy ih le_rfl
  | cap name r ih =>
    rw [run, List.mem_map]
    constructor
    · rintro ⟨e, he, rfl⟩
      obtain ⟨w, back, inner, hr, hsplit, rfl⟩ := ih.mp he
      refine ⟨w, back, (name, w) :: inner, ⟨inner, hr, rfl⟩, hsplit, ?_⟩
      rw [between_past]
      rfl
    · rintro ⟨w, back, _, ⟨inner, hr, rfl⟩, hsplit, rfl⟩
      refine ⟨c.past w back inner, ih.mpr ⟨w, back, inner, hr, hsplit, rfl⟩, ?_⟩
      rw [between_past]
      rfl

/-! ## Taking, part by part -/

section Parts

variable {r s : Regex γ} {rs : List (Regex γ)} {before w back : List Char} {groups : Captures γ}
  {p : Char → Bool} {L : List Char → Prop} {name : γ} {text : String} {n : ℕ}

theorem takes_cls :
    Takes (cls p) before w back groups ↔ (∃ x, p x = true ∧ w = [x]) ∧ groups = [] := Iff.rfl

theorem takes_seq : Takes (seq r s) before w back groups ↔ ∃ w₁ w₂ groups₁ groups₂,
    Takes r before w₁ (w₂ ++ back) groups₁ ∧ Takes s (w₁.reverse ++ before) w₂ back groups₂ ∧
      w = w₁ ++ w₂ ∧ groups = groups₂ ++ groups₁ := Iff.rfl

/-- A concatenation takes one text after the other. -/
theorem takes_concat_cons : Takes (concat (r :: rs)) before w back groups ↔
    ∃ w₁ w₂ groups₁ groups₂, Takes r before w₁ (w₂ ++ back) groups₁ ∧
      Takes (concat rs) (w₁.reverse ++ before) w₂ back groups₂ ∧
      w = w₁ ++ w₂ ∧ groups = groups₂ ++ groups₁ := by
  cases rs with
  | cons s rs => exact takes_seq
  | nil =>
    rw [concat, concat]
    constructor
    · intro h
      exact ⟨w, [], groups, [], by rwa [List.nil_append], ⟨rfl, rfl⟩, by simp, rfl⟩
    · rintro ⟨w₁, w₂, groups₁, groups₂, hr, ⟨rfl, rfl⟩, rfl, rfl⟩
      simpa using hr

@[simp] theorem takes_nil :
    Takes (concat [] : Regex γ) before w back groups ↔ w = [] ∧ groups = [] := Iff.rfl

/-- An end anchor takes nothing, where nothing is behind. -/
@[simp] theorem takes_eos : Takes (concat [eos] : Regex γ) before w back groups ↔
    back = [] ∧ w = [] ∧ groups = [] := Iff.rfl

/-- What may be left out comes first or is left out. -/
@[simp] theorem takes_opt : Takes (concat (opt r :: rs)) before w back groups ↔
    Takes (concat (r :: rs)) before w back groups ∨ Takes (concat rs) before w back groups := by
  have hopt : ∀ {before w back : List Char} {groups : Captures γ},
      Takes (opt r) before w back groups ↔ Takes r before w back groups ∨ w = [] ∧ groups = [] :=
    Iff.rfl
  simp only [takes_concat_cons, hopt, or_and_right, exists_or]
  refine or_congr_right ⟨?_, fun h => ?_⟩
  · rintro ⟨_, _, _, _, ⟨rfl, rfl⟩, h, rfl, rfl⟩
    simpa using h
  · exact ⟨[], w, [], groups, ⟨rfl, rfl⟩, h, rfl, by simp⟩

/-- A concatenation within a concatenation makes no difference. -/
theorem takes_concat_concat {ss : List (Regex γ)} :
    Takes (concat (concat rs :: ss)) before w back groups ↔
      Takes (concat (rs ++ ss)) before w back groups := by
  induction rs generalizing before w groups with
  | nil =>
    rw [takes_concat_cons]
    constructor
    · rintro ⟨_, _, _, _, ⟨rfl, rfl⟩, h, rfl, rfl⟩
      simpa using h
    · intro h
      exact ⟨[], w, [], groups, ⟨rfl, rfl⟩, h, rfl, (List.append_nil groups).symm⟩
  | cons r rs ih =>
    rw [List.cons_append, takes_concat_cons, takes_concat_cons]
    constructor
    · rintro ⟨_, w₃, _, groups₃, hinner, hss, rfl, rfl⟩
      obtain ⟨w₁, w₂, groups₁, groups₂, hr, hrs, rfl, rfl⟩ := takes_concat_cons.mp hinner
      refine ⟨w₁, w₂ ++ w₃, groups₁, groups₃ ++ groups₂, by rwa [List.append_assoc],
        ih.mp (takes_concat_cons.mpr ⟨w₂, w₃, groups₂, groups₃, hrs, ?_, rfl, rfl⟩),
        List.append_assoc .., (List.append_assoc ..).symm⟩
      rwa [List.reverse_append, List.append_assoc] at hss
    · rintro ⟨w₁, _, groups₁, _, hr, hrest, rfl, rfl⟩
      obtain ⟨w₂, w₃, groups₂, groups₃, hrs, hss, rfl, rfl⟩ := takes_concat_cons.mp (ih.mpr hrest)
      refine ⟨w₁ ++ w₂, w₃, groups₂ ++ groups₁, groups₃,
        takes_concat_cons.mpr ⟨w₁, w₂, groups₁, groups₂, by rwa [List.append_assoc] at hr, hrs, rfl,
          rfl⟩, ?_, (List.append_assoc ..).symm, List.append_assoc ..⟩
      rwa [List.reverse_append, List.append_assoc]

/-- The expression takes these texts, wherever they stand, and has no groups. -/
def Plain (r : Regex γ) (L : List Char → Prop) : Prop :=
  ∀ before w back groups, Takes r before w back groups ↔ L w ∧ groups = []

/-- A plain expression takes one of its texts first. -/
theorem Plain.takes_cons (h : Plain r L) : Takes (concat (r :: rs)) before w back groups ↔
    ∃ v rest, L v ∧ w = v ++ rest ∧ Takes (concat rs) (v.reverse ++ before) rest back groups := by
  rw [takes_concat_cons]
  constructor
  · rintro ⟨v, rest, _, more, htakes, hrest, rfl, rfl⟩
    obtain ⟨hv, rfl⟩ := (h _ _ _ _).mp htakes
    exact ⟨v, rest, hv, rfl, by rwa [List.append_nil]⟩
  · rintro ⟨v, rest, hv, rfl, hrest⟩
    exact ⟨v, rest, [], groups, (h _ _ _ _).mpr ⟨hv, rfl⟩, hrest, rfl, by rw [List.append_nil]⟩

/-- A group around a plain expression holds the text that it takes first. -/
theorem Plain.takes_cap_cons (h : Plain r L) :
    Takes (concat (cap name r :: rs)) before w back groups ↔ ∃ v rest more, L v ∧ w = v ++ rest ∧
      groups = more ++ [(name, v)] ∧
      Takes (concat rs) (v.reverse ++ before) rest back more := by
  rw [takes_concat_cons]
  constructor
  · rintro ⟨v, rest, _, more, ⟨inner, htakes, rfl⟩, hrest, rfl, rfl⟩
    obtain ⟨hv, rfl⟩ := (h _ _ _ _).mp htakes
    exact ⟨v, rest, more, hv, rfl, rfl, hrest⟩
  · rintro ⟨v, rest, more, hv, rfl, rfl, hrest⟩
    exact ⟨v, rest, _, more, ⟨[], (h _ _ _ _).mpr ⟨hv, rfl⟩, rfl⟩, hrest, rfl, rfl⟩

/-- So many characters of a class. -/
theorem plain_times : Plain (times n (cls p) : Regex γ)
    fun w => w.length = n ∧ ∀ x ∈ w, p x = true := by
  unfold times
  intro before w back groups
  induction n generalizing before w groups with
  | zero =>
    rw [List.replicate_zero, takes_nil]
    refine and_congr_left fun _ => ⟨?_, fun hw => List.length_eq_zero_iff.mp hw.1⟩
    rintro rfl
    exact ⟨rfl, List.forall_mem_nil _⟩
  | succ n ih =>
    rw [List.replicate_succ, takes_concat_cons]
    simp only [ih, takes_cls]
    constructor
    · rintro ⟨_, w, _, _, ⟨⟨x, hx, rfl⟩, rfl⟩, ⟨⟨rfl, hw⟩, rfl⟩, rfl, rfl⟩
      exact ⟨⟨rfl, List.forall_mem_cons.mpr ⟨hx, hw⟩⟩, rfl⟩
    · rintro ⟨⟨hlength, hw⟩, rfl⟩
      cases w with
      | nil => cases hlength
      | cons x w =>
        obtain ⟨hx, hw⟩ := List.forall_mem_cons.mp hw
        exact ⟨[x], w, [], [], ⟨⟨x, hx, rfl⟩, rfl⟩, ⟨⟨Nat.succ.inj hlength, hw⟩, rfl⟩, rfl, rfl⟩

/-- One character of a class and so many more at most. -/
theorem plain_upTo : Plain (upTo n (cls p) : Regex γ)
    fun w => w ≠ [] ∧ w.length ≤ n + 1 ∧ ∀ x ∈ w, p x = true := by
  intro before w back groups
  have hone : ∀ {x : Char}, p x = true → ∀ y ∈ [x], p y = true := fun hx y hy =>
    List.mem_singleton.mp hy ▸ hx
  induction n generalizing before w groups with
  | zero =>
    rw [upTo, takes_cls]
    constructor
    · rintro ⟨⟨x, hx, rfl⟩, rfl⟩
      exact ⟨⟨List.cons_ne_nil x [], le_rfl, hone hx⟩, rfl⟩
    · rintro ⟨⟨hne, hlength, hw⟩, rfl⟩
      obtain ⟨x, rfl⟩ := List.length_eq_one_iff.mp
        (Nat.le_antisymm hlength (List.length_pos_of_ne_nil hne))
      exact ⟨⟨x, hw x List.mem_cons_self, rfl⟩, rfl⟩
  | succ n ih =>
    rw [upTo, takes_seq]
    simp only [takes_cls]
    constructor
    · rintro ⟨_, more, _, _, ⟨⟨x, hx, rfl⟩, rfl⟩, hmore, rfl, rfl⟩
      rcases hmore with hmore | ⟨rfl, rfl⟩
      · obtain ⟨⟨-, hlength, hw⟩, rfl⟩ := (ih _ _ _).mp hmore
        exact ⟨⟨List.cons_ne_nil x more, Nat.succ_le_succ hlength,
          List.forall_mem_cons.mpr ⟨hx, hw⟩⟩, rfl⟩
      · exact ⟨⟨List.cons_ne_nil x [], Nat.le_add_left 1 _, hone hx⟩, rfl⟩
    · rintro ⟨⟨hne, hlength, hw⟩, rfl⟩
      obtain ⟨x, more, rfl⟩ := List.exists_cons_of_ne_nil hne
      obtain ⟨hx, hw⟩ := List.forall_mem_cons.mp hw
      refine ⟨[x], more, [], [], ⟨⟨x, hx, rfl⟩, rfl⟩, ?_, rfl, rfl⟩
      by_cases hmore : more = []
      · exact Or.inr ⟨hmore, rfl⟩
      · exact Or.inl ((ih _ _ _).mpr ⟨⟨hmore, Nat.le_of_succ_le_succ hlength, hw⟩, rfl⟩)

/-- A literal takes its own text. -/
theorem plain_lit : Plain (lit text : Regex γ) (· = text.toList) := by
  unfold lit
  intro before w back groups
  induction text.toList generalizing before w groups with
  | nil => exact Iff.rfl
  | cons c l ih =>
    rw [List.map_cons, takes_concat_cons]
    simp only [ih, takes_cls, beq_iff_eq, exists_eq_left]
    constructor
    · rintro ⟨_, _, _, _, ⟨rfl, rfl⟩, ⟨rfl, rfl⟩, rfl, rfl⟩
      exact ⟨rfl, rfl⟩
    · rintro ⟨rfl, rfl⟩
      exact ⟨[c], l, [], [], ⟨rfl, rfl⟩, ⟨rfl, rfl⟩, rfl, rfl⟩

/-- Any number of characters of a class. -/
theorem plain_star {greedy : Bool} :
    Plain (star greedy (cls p) : Regex γ) fun w => ∀ x ∈ w, p x = true := by
  intro before w back groups
  constructor
  · intro h
    induction h with
    | nil => exact ⟨List.forall_mem_nil _, rfl⟩
    | cons hfirst _ _ ih =>
      obtain ⟨⟨x, hx, rfl⟩, rfl⟩ := hfirst
      obtain ⟨hw, rfl⟩ := ih
      exact ⟨List.forall_mem_cons.mpr ⟨hx, hw⟩, rfl⟩
  · rintro ⟨hw, rfl⟩
    induction w generalizing before with
    | nil => exact .nil _ _
    | cons x w ih =>
      obtain ⟨hx, hw⟩ := List.forall_mem_cons.mp hw
      have hfirst : Takes (cls p : Regex γ) before [x] (w ++ back) [] := ⟨⟨x, hx, rfl⟩, rfl⟩
      exact .cons hfirst (List.cons_ne_nil x []) (ih _ hw)

/-- One character of a class and any number more. -/
theorem plain_cls_star {greedy : Bool} :
    Plain (seq (cls p) (star greedy (cls p)) : Regex γ)
      fun w => w ≠ [] ∧ ∀ x ∈ w, p x = true := by
  intro before w back groups
  simp only [takes_seq, plain_star _ _ _ _, takes_cls]
  constructor
  · rintro ⟨_, w, _, _, ⟨⟨x, hx, rfl⟩, rfl⟩, ⟨hw, rfl⟩, rfl, rfl⟩
    exact ⟨⟨List.cons_ne_nil x w, List.forall_mem_cons.mpr ⟨hx, hw⟩⟩, rfl⟩
  · rintro ⟨⟨hne, hw⟩, rfl⟩
    obtain ⟨x, w, rfl⟩ := List.exists_cons_of_ne_nil hne
    obtain ⟨hx, hw⟩ := List.forall_mem_cons.mp hw
    exact ⟨[x], w, [], [], ⟨⟨x, hx, rfl⟩, rfl⟩, ⟨hw, rfl⟩, rfl, rfl⟩

/-! The parts that expressions are made of, each with what follows it. -/

@[simp] theorem takes_lit : Takes (concat (lit text :: rs)) before w back groups ↔ ∃ rest,
    w = text.toList ++ rest ∧
      Takes (concat rs) (text.toList.reverse ++ before) rest back groups := by
  simp only [plain_lit.takes_cons, exists_and_left, exists_eq_left]

/-- A literal or nothing comes first. -/
theorem takes_opt_lit : Takes (concat (opt (lit text) :: rs)) before w back groups ↔
    ∃ part ∈ ["", text], ∃ rest, w = part.toList ++ rest ∧
      Takes (concat rs) (part.toList.reverse ++ before) rest back groups := by
  rw [takes_opt, takes_lit, or_comm]
  simp only [List.exists_mem_cons_iff, List.not_mem_nil, false_and, exists_false, or_false]
  exact or_congr_left ⟨fun h => ⟨w, rfl, h⟩, fun ⟨_, hw, h⟩ => hw ▸ h⟩

@[simp] theorem takes_many1 : Takes (concat (many1 (cls p) :: rs)) before w back groups ↔
    ∃ v rest, (v ≠ [] ∧ ∀ x ∈ v, p x = true) ∧ w = v ++ rest ∧
      Takes (concat rs) (v.reverse ++ before) rest back groups := plain_cls_star.takes_cons

@[simp] theorem takes_times : Takes (concat (times n (cls p) :: rs)) before w back groups ↔
    ∃ v rest, (v.length = n ∧ ∀ x ∈ v, p x = true) ∧ w = v ++ rest ∧
      Takes (concat rs) (v.reverse ++ before) rest back groups := plain_times.takes_cons

@[simp] theorem takes_cap_times :
    Takes (concat (cap name (times n (cls p)) :: rs)) before w back groups ↔ ∃ v rest more,
      (v.length = n ∧ ∀ x ∈ v, p x = true) ∧ w = v ++ rest ∧ groups = more ++ [(name, v)] ∧
      Takes (concat rs) (v.reverse ++ before) rest back more := plain_times.takes_cap_cons

@[simp] theorem takes_cap_upTo :
    Takes (concat (cap name (upTo n (cls p)) :: rs)) before w back groups ↔ ∃ v rest more,
      (v ≠ [] ∧ v.length ≤ n + 1 ∧ ∀ x ∈ v, p x = true) ∧ w = v ++ rest ∧
      groups = more ++ [(name, v)] ∧
      Takes (concat rs) (v.reverse ++ before) rest back more := plain_upTo.takes_cap_cons

@[simp] theorem takes_cap_many :
    Takes (concat (cap name (many (cls p)) :: rs)) before w back groups ↔ ∃ v rest more,
      (∀ x ∈ v, p x = true) ∧ w = v ++ rest ∧ groups = more ++ [(name, v)] ∧
      Takes (concat rs) (v.reverse ++ before) rest back more := plain_star.takes_cap_cons

@[simp] theorem takes_cap_many1 :
    Takes (concat (cap name (many1 (cls p)) :: rs)) before w back groups ↔ ∃ v rest more,
      (v ≠ [] ∧ ∀ x ∈ v, p x = true) ∧ w = v ++ rest ∧ groups = more ++ [(name, v)] ∧
      Takes (concat rs) (v.reverse ++ before) rest back more := plain_cls_star.takes_cap_cons

@[simp] theorem takes_cap_many1Lazy :
    Takes (concat (cap name (many1Lazy (cls p)) :: rs)) before w back groups ↔ ∃ v rest more,
      (v ≠ [] ∧ ∀ x ∈ v, p x = true) ∧ w = v ++ rest ∧ groups = more ++ [(name, v)] ∧
      Takes (concat rs) (v.reverse ++ before) rest back more := plain_cls_star.takes_cap_cons

end Parts

/-! ## The groups of a search -/

/-- The expression takes a part of the text that stands behind the front, and leaves these
groups. -/
def MatchesAt (r : Regex γ) (text front : List Char) (groups : Captures γ) : Prop :=
  ∃ w back, text = front ++ (w ++ back) ∧ Takes r front.reverse w back groups

theorem matchesAt_of_mem_run {r : Regex γ} {front back : List Char} {d : Cursor γ}
    (h : d ∈ run r { before := front.reverse, pos := front.length, rest := back }) :
    MatchesAt r (front ++ back) front d.caps := by
  obtain ⟨w, rest, groups, htakes, hsplit, rfl⟩ := mem_run_iff.mp h
  refine ⟨w, rest, congrArg (front ++ ·) hsplit, ?_⟩
  rwa [Cursor.past_caps, List.append_nil]

theorem run_start_ne_nil_iff {r : Regex γ} {front back : List Char} :
    run r { before := front.reverse, pos := front.length, rest := back } ≠ [] ↔
      ∃ groups, MatchesAt r (front ++ back) front groups := by
  constructor
  · intro h
    obtain ⟨d, hd⟩ := List.exists_mem_of_ne_nil _ h
    exact ⟨d.caps, matchesAt_of_mem_run hd⟩
  · rintro ⟨groups, w, rest, hsplit, htakes⟩
    exact List.ne_nil_of_mem (mem_run_iff.mpr
      ⟨w, rest, groups, htakes, List.append_cancel_left hsplit, rfl⟩)

/-- A search finds a place with a match if there is one. -/
theorem isSome_searchFrom_iff {r : Regex γ} {before text : List Char} {pos : ℕ} :
    (searchFrom r before pos text).isSome = true ↔ ∃ front back, front ++ back = text ∧
      run r { before := front.reverse ++ before, pos := pos + front.length, rest := back }
        ≠ [] := by
  constructor
  · intro h
    obtain ⟨d, hd⟩ := Option.isSome_iff_exists.mp h
    obtain ⟨front, back, hsplit, hrun⟩ := searchFrom_eq_some hd
    exact ⟨front, back, hsplit.symm, List.ne_nil_of_mem hrun⟩
  · rintro ⟨front, back, rfl, hrun⟩
    induction front generalizing before pos with
    | nil =>
      have hhead := List.isSome_head?.mpr hrun
      cases back with
      | nil => exact hhead
      | cons x back =>
        obtain ⟨d, hd⟩ := Option.isSome_iff_exists.mp hhead
        simp only [List.reverse_nil, List.nil_append, List.length_nil, Nat.add_zero] at hd
        rw [List.nil_append, searchFrom, hd]
        rfl
    | cons x front ih =>
      rw [List.cons_append, searchFrom]
      split
      · rfl
      · -- a match further on is found from the next character
        apply ih
        rw [List.reverse_cons, List.append_assoc, List.length_cons] at hrun
        rwa [show pos + 1 + front.length = pos + (front.length + 1) by omega]

/-- A search stops at the first place with a match. -/
theorem searchFrom_first {r : Regex γ} {before text : List Char} {pos : ℕ} {d : Cursor γ}
    (h : searchFrom r before pos text = some d) : ∃ front back, text = front ++ back ∧
      d ∈ run r { before := front.reverse ++ before, pos := pos + front.length, rest := back } ∧
      ∀ front' back', text = front' ++ back' → front'.length < front.length →
        run r { before := front'.reverse ++ before, pos := pos + front'.length, rest := back' }
          = [] := by
  induction text generalizing before pos with
  | nil =>
    refine ⟨[], [], rfl, List.mem_of_mem_head? h, fun front' back' _ hlt => ?_⟩
    exact absurd hlt (Nat.not_lt_zero _)
  | cons x text ih =>
    rw [searchFrom] at h
    split at h
    · next d' hhead =>
      obtain rfl := Option.some.inj h
      refine ⟨[], x :: text, rfl, List.mem_of_mem_head? hhead, fun front' back' _ hlt => ?_⟩
      exact absurd hlt (Nat.not_lt_zero _)
    · next hhead =>
      obtain ⟨front, back, rfl, hrun, hfirst⟩ := ih h
      refine ⟨x :: front, back, rfl, ?_, fun front' back' hsplit hlt => ?_⟩
      · rw [List.reverse_cons, List.append_assoc, List.length_cons]
        rwa [show pos + (front.length + 1) = pos + 1 + front.length by omega]
      · cases front' with
        | nil =>
          obtain rfl : x :: (front ++ back) = back' := hsplit
          exact List.head?_eq_none_iff.mp hhead
        | cons y front' =>
          obtain ⟨rfl, htail⟩ := List.cons.inj hsplit
          have hnone := hfirst front' back' htail (Nat.lt_of_succ_lt_succ hlt)
          rw [List.reverse_cons, List.append_assoc, List.length_cons]
          rwa [show pos + (front'.length + 1) = pos + 1 + front'.length by omega]

/-- **The groups of a search** are those of a match at the first place where there is one. -/
theorem matchesAt_of_captures {r : Regex γ} {text : List Char} {groups : Captures γ}
    (h : r.captures text = some groups) : ∃ front, MatchesAt r text front groups ∧
      ∀ front' groups', MatchesAt r text front' groups' → front.length ≤ front'.length := by
  obtain ⟨d, hd, rfl⟩ := Option.map_eq_some_iff.mp h
  obtain ⟨front, back, rfl, hrun, hfirst⟩ := searchFrom_first hd
  rw [List.append_nil, Nat.zero_add] at hrun
  refine ⟨front, matchesAt_of_mem_run hrun, fun front' groups' hmatch => ?_⟩
  obtain ⟨w, rest, hsplit, htakes⟩ := hmatch
  by_contra hlt
  have hnone := hfirst front' (w ++ rest) hsplit (Nat.lt_of_not_le hlt)
  rw [List.append_nil, Nat.zero_add] at hnone
  exact run_start_ne_nil_iff.mpr ⟨groups', w, rest, rfl, htakes⟩ hnone

/-- Without a match there are no groups. -/
theorem captures_eq_none_iff {r : Regex γ} {text : List Char} :
    r.captures text = none ↔ ∀ front groups, ¬ MatchesAt r text front groups := by
  rw [captures, Option.map_eq_none_iff, ← Option.not_isSome_iff_eq_none, search,
    isSome_searchFrom_iff]
  constructor
  · rintro hnone front groups ⟨w, back, rfl, htakes⟩
    refine hnone ⟨front, w ++ back, rfl, ?_⟩
    rw [List.append_nil, Nat.zero_add]
    exact run_start_ne_nil_iff.mpr ⟨groups, w, back, rfl, htakes⟩
  · rintro hnone ⟨front, back, rfl, hrun⟩
    rw [List.append_nil, Nat.zero_add] at hrun
    obtain ⟨groups, hmatch⟩ := run_start_ne_nil_iff.mp hrun
    exact hnone front groups hmatch

/-- A text matches when there is a place with a match. -/
theorem isMatch_iff_matchesAt {r : Regex γ} {s : String} :
    r.isMatch s = true ↔ ∃ front groups, MatchesAt r s.toList front groups := by
  have hcaptures : r.isMatch s = true ↔ ¬ r.captures s.toList = none := by
    rw [captures, Option.map_eq_none_iff, ← ne_eq, ← Option.isSome_iff_ne_none, isMatch]
  rw [hcaptures, captures_eq_none_iff]
  push Not
  rfl

/-- Where every match leaves the same groups, a search finds them. -/
theorem captures_eq_some {r : Regex γ} {text front : List Char} {groups : Captures γ}
    (hmatch : MatchesAt r text front groups)
    (hunique : ∀ front' groups', MatchesAt r text front' groups' → groups' = groups) :
    r.captures text = some groups := by
  cases h : r.captures text with
  | none => exact absurd hmatch (captures_eq_none_iff.mp h front groups)
  | some groups' =>
    obtain ⟨front', hmatch', -⟩ := matchesAt_of_captures h
    rw [hunique front' groups' hmatch']

/-- An expression that begins at the beginning of the text. -/
theorem matchesAt_bos_iff {rs : List (Regex γ)} {text front : List Char} {groups : Captures γ} :
    MatchesAt (concat (bos :: rs)) text front groups ↔
      front = [] ∧ MatchesAt (concat rs) text [] groups := by
  have hbos : ∀ {before w back : List Char} {groups : Captures γ},
      Takes bos before w back groups ↔ before = [] ∧ w = [] ∧ groups = [] := Iff.rfl
  unfold MatchesAt
  simp only [takes_concat_cons (r := bos), hbos]
  constructor
  · rintro ⟨w, back, rfl, _, _, _, _, ⟨hfront, rfl, rfl⟩, htakes, rfl, rfl⟩
    obtain rfl := List.reverse_eq_nil_iff.mp hfront
    exact ⟨rfl, _, back, rfl, by simpa using htakes⟩
  · rintro ⟨rfl, w, back, rfl, htakes⟩
    exact ⟨w, back, rfl, [], w, [], groups, ⟨rfl, rfl, rfl⟩, htakes, rfl, by simp⟩

/-- Groups of other names do not count. -/
theorem Captures.nameUnwrap_append [DecidableEq γ] {more groups : Captures γ} {name : γ}
    (h : ∀ entry ∈ more, entry.1 ≠ name) :
    Captures.nameUnwrap (more ++ groups) name = groups.nameUnwrap name := by
  have hmore : more.lookup name = none := by
    rw [List.lookup_eq_none_iff]
    intro entry hentry
    rw [bne_iff_ne]
    exact (h entry hentry).symm
  unfold Captures.nameUnwrap Captures.name
  rw [List.lookup_append, hmore, Option.none_or]

/-! ## Delimiters -/

/-- A character that is not in the texts before it splits a text in one way. -/
theorem append_cons_inj {x : Char} {w₁ w₂ back₁ back₂ : List Char} (h₁ : x ∉ w₁) (h₂ : x ∉ w₂) :
    w₁ ++ x :: back₁ = w₂ ++ x :: back₂ ↔ w₁ = w₂ ∧ back₁ = back₂ := by
  constructor
  · intro h
    induction w₁ generalizing w₂ with
    | nil =>
      cases w₂ with
      | nil => exact ⟨rfl, List.tail_eq_of_cons_eq h⟩
      | cons y w₂ =>
        obtain ⟨rfl, -⟩ := List.cons.inj h
        exact absurd List.mem_cons_self h₂
    | cons y w₁ ih =>
      cases w₂ with
      | nil =>
        obtain ⟨rfl, -⟩ := List.cons.inj h
        exact absurd List.mem_cons_self h₁
      | cons z w₂ =>
        obtain ⟨rfl, htail⟩ := List.cons.inj h
        obtain ⟨rfl, rfl⟩ := ih (fun hmem => h₁ (List.mem_cons_of_mem _ hmem))
          (fun hmem => h₂ (List.mem_cons_of_mem _ hmem)) htail
        exact ⟨rfl, rfl⟩
  · rintro ⟨rfl, rfl⟩
    rfl

/-- So does a character that is not in the texts behind it. -/
theorem append_cons_inj_right {x : Char} {front₁ front₂ w₁ w₂ : List Char} (h₁ : x ∉ w₁)
    (h₂ : x ∉ w₂) : front₁ ++ x :: w₁ = front₂ ++ x :: w₂ ↔ front₁ = front₂ ∧ w₁ = w₂ := by
  have hreverse : ∀ front w : List Char,
      (front ++ x :: w).reverse = w.reverse ++ x :: front.reverse := by simp
  rw [← List.reverse_inj, hreverse, hreverse,
    append_cons_inj (by simpa using h₁) (by simpa using h₂), List.reverse_inj, List.reverse_inj,
    and_comm]

/-- Two places of a character: the first one, or one behind it. -/
theorem append_cons_cases {x : Char} {w₁ w₂ back₁ back₂ : List Char} (h₁ : x ∉ w₁)
    (h : w₁ ++ x :: back₁ = w₂ ++ x :: back₂) :
    (w₂ = w₁ ∧ back₁ = back₂) ∨ ∃ w, w₂ = w₁ ++ x :: w ∧ back₁ = w ++ x :: back₂ := by
  rcases List.append_eq_append_iff.mp h with ⟨w, rfl, hback⟩ | ⟨w, rfl, hback⟩ <;>
    rcases List.cons_eq_append_iff.mp hback with ⟨rfl, hback⟩ | ⟨w, rfl, rfl⟩
  · exact Or.inl ⟨List.append_nil w₁, List.tail_eq_of_cons_eq hback⟩
  · exact Or.inr ⟨w, rfl, rfl⟩
  · have hsame : x :: back₂ = x :: back₁ := hback
    exact Or.inl ⟨(List.append_nil w₂).symm, (List.tail_eq_of_cons_eq hsame).symm⟩
  · exact absurd (List.mem_append_right _ List.mem_cons_self) h₁

/-- No graphic ASCII character is whitespace. -/
theorem isWhitespace_of_graphic {c : Char} (hlow : 33 ≤ c.toNat) (hhigh : c.toNat < 127) :
    isWhitespace c = false := by
  simp only [isWhitespace, Bool.or_eq_false_iff, Bool.and_eq_false_iff, decide_eq_false_iff_not,
    beq_eq_false_iff_ne]
  omega

/-- Where one class ends and another begins splits a text in one way. -/
theorem append_inj_of_class {p q : Char → Bool} {w₁ w₂ back₁ back₂ : List Char}
    (h₁ : ∀ x ∈ w₁, p x = true) (hback₁ : ∀ x ∈ back₁.head?, q x = true)
    (h₂ : ∀ x ∈ w₂, q x = false) (hback₂ : ∀ x ∈ back₂.head?, p x = false)
    (h : w₁ ++ back₁ = w₂ ++ back₂) : w₁ = w₂ ∧ back₁ = back₂ := by
  induction w₁ generalizing w₂ with
  | nil =>
    cases w₂ with
    | nil => exact ⟨rfl, h⟩
    | cons y w₂ =>
      have hq := hback₁ y (by rw [show back₁ = y :: (w₂ ++ back₂) from h]; rfl)
      rw [h₂ y List.mem_cons_self] at hq
      cases hq
  | cons x w₁ ih =>
    obtain ⟨hx, hw₁⟩ := List.forall_mem_cons.mp h₁
    cases w₂ with
    | nil =>
      have hp := hback₂ x (by rw [show back₂ = x :: (w₁ ++ back₁) from h.symm]; rfl)
      rw [hx] at hp
      cases hp
    | cons y w₂ =>
      obtain ⟨rfl, htail⟩ := List.cons.inj h
      obtain ⟨rfl, rfl⟩ := ih hw₁ (fun z hz => h₂ z (List.mem_cons_of_mem _ hz)) htail
      exact ⟨rfl, rfl⟩

/-- One word. -/
def Token (w : List Char) : Prop := w ≠ [] ∧ ∀ x ∈ w, isWhitespace x = false

theorem Token.not_mem {w : List Char} (h : Token w) {x : Char} (hx : isWhitespace x = true) :
    x ∉ w := by
  intro hmem
  rw [h.2 x hmem] at hx
  cases hx

theorem Token.space {w : List Char} (h : Token w) : ' ' ∉ w := h.not_mem (by decide)

theorem token_of_all {w : List Char} (hne : w ≠ []) (h : (w.all fun x => !isWhitespace x) = true) :
    Token w :=
  ⟨hne, fun x hx => by simpa using List.all_eq_true.mp h x hx⟩

theorem token_of_graphic {w : List Char} (hne : w ≠ [])
    (h : ∀ x ∈ w, 33 ≤ x.toNat ∧ x.toNat < 127) : Token w :=
  ⟨hne, fun x hx => isWhitespace_of_graphic (h x hx).1 (h x hx).2⟩

theorem bounds_of_isDigit {c : Char} (h : c.isDigit = true) : 48 ≤ c.toNat ∧ c.toNat ≤ 57 := by
  simpa [Char.isDigit, UInt32.le_iff_toNat_le] using h

/-- ASCII digits are decimal numbers. -/
theorem decimalNumber_of_isDigit (u : Unicode) {c : Char} (h : c.isDigit = true) :
    u.decimalNumber c = true := by
  have hbounds := bounds_of_isDigit h
  rw [u.decimalNumber_ascii c (by omega)]
  exact h

theorem isWhitespace_of_isDigit {c : Char} (h : c.isDigit = true) : isWhitespace c = false := by
  have hbounds := bounds_of_isDigit h
  exact isWhitespace_of_graphic (by omega) (by omega)

/-- Trimming stops at the first character of the text and at what is not whitespace behind it. -/
theorem trimList_append {p : Char → Bool} {x : Char} (front : List Char) {back : List Char}
    (hx : p x = false) (hback : ∃ y ∈ back, p y = false) :
    ∃ kept blank, back = kept ++ blank ∧ kept ≠ [] ∧
      Text.trimList p (x :: front ++ back) = x :: front ++ kept := by
  have hsplit : (back.reverse.dropWhile p).reverse ++ (back.reverse.takeWhile p).reverse
      = back := by
    rw [← List.reverse_append, List.takeWhile_append_dropWhile, List.reverse_reverse]
  have hne : back.reverse.dropWhile p ≠ [] := by
    obtain ⟨y, hy, hpy⟩ := hback
    intro hnil
    have hall := List.dropWhile_eq_nil_iff.mp hnil y (List.mem_reverse.mpr hy)
    rw [hpy] at hall
    cases hall
  refine ⟨_, _, hsplit.symm, fun h => hne (List.reverse_eq_nil_iff.mp h), ?_⟩
  unfold Text.trimList
  rw [List.cons_append, List.dropWhile_cons_of_neg (by simp [hx]), ← List.cons_append,
    List.reverse_append, List.dropWhile_append, if_neg (by simpa using hne), List.reverse_append,
    List.reverse_reverse]

/-- Between two characters that stay, everything stays. -/
theorem trimList_eq_self {p : Char → Bool} {x y : Char} (front : List Char) (hx : p x = false)
    (hy : p y = false) : Text.trimList p (x :: front ++ [y]) = x :: front ++ [y] := by
  obtain ⟨kept, blank, hsplit, hne, htrim⟩ :=
    trimList_append front hx ⟨y, List.mem_singleton_self y, hy⟩
  rcases List.singleton_eq_append_iff.mp hsplit with ⟨hnil, -⟩ | ⟨rfl, -⟩
  · exact absurd hnil hne
  · exact htrim

/-- A character outside a class is not in a text of the class. -/
theorem not_mem_of_class {p : Char → Bool} {x : Char} {w : List Char} (h : ∀ y ∈ w, p y = true)
    (hx : p x = false) : x ∉ w := by
  intro hmem
  rw [h x hmem] at hx
  cases hx

end Regex

end Sentinalysis.Lib
