/-
# Sentinalysis.Lib.RegexLanguage — the language of an expression, and what a search finds of it.

An expression without anchors takes the words of a language, whatever stands around them.  A search
finds one anywhere in a text; an anchor at the end of the expression leaves the suffixes.  The order
of preference decides which word a search finds, never whether it finds one.
-/
import Sentinalysis.Lib.RegexTakes
import Mathlib.Computability.Language

namespace Sentinalysis.Lib

namespace Regex

open Computability

variable {γ : Type}

/-- There is no anchor in the expression. -/
def AnchorFree : Regex γ → Prop
  | empty | cls _ => True
  | bos | eos => False
  | seq r s | alt r s => AnchorFree r ∧ AnchorFree s
  | star _ r | cap _ r => AnchorFree r

/-- The words an expression takes; an anchor takes none of its own. -/
def language : Regex γ → Language Char
  | empty | bos | eos => 1
  | cls p => {w | ∃ x, p x = true ∧ w = [x]}
  | seq r s => language r * language s
  | alt r s => language r + language s
  | star _ r => (language r)∗
  | cap _ r => language r

/-! ## Runs -/

/-- Rounds of an expression that takes the words of `L` take the words of its star. -/
theorem exists_rounds_iff {r : Regex γ} {L : Language Char}
    (hround : ∀ {before w back : List Char}, (∃ groups, Takes r before w back groups) ↔ w ∈ L)
    {before w back : List Char} : (∃ groups, Rounds (Takes r) before w back groups) ↔ w ∈ L∗ := by
  constructor
  · rintro ⟨groups, hrounds⟩
    induction hrounds with
    | nil => exact Language.nil_mem_kstar L
    | cons hfirst _ _ ih =>
      rw [← Language.one_add_self_mul_kstar_eq_kstar]
      exact Or.inr (Language.append_mem_mul (hround.mp ⟨_, hfirst⟩) ih)
  · intro hw
    -- none of the words has to be empty, so that every round counts
    obtain ⟨words, rfl, hwords⟩ := Language.mem_kstar_iff_exists_nonempty.mp hw
    clear hw
    induction words generalizing before with
    | nil => exact ⟨[], .nil before back⟩
    | cons first words ih =>
      obtain ⟨⟨hfirst, hne⟩, hwords⟩ := List.forall_mem_cons.mp hwords
      obtain ⟨groups, hgroups⟩ := hround.mpr hfirst
      obtain ⟨more, hmore⟩ := ih hwords
      exact ⟨more ++ groups, .cons hgroups hne hmore⟩

/-- An expression without anchors takes the words of its language, wherever they stand. -/
theorem exists_takes_iff {r : Regex γ} (hr : r.AnchorFree) {before w back : List Char} :
    (∃ groups, Takes r before w back groups) ↔ w ∈ language r := by
  induction r generalizing before w back with
  | empty => simp [Takes, language, Language.mem_one]
  | bos | eos => exact hr.elim
  | cls p =>
    constructor
    · rintro ⟨_, hw, -⟩
      exact hw
    · intro hw
      exact ⟨[], hw, rfl⟩
  | seq r s ihr ihs =>
    constructor
    · rintro ⟨_, w₁, w₂, groups₁, groups₂, h₁, h₂, rfl, rfl⟩
      exact Language.append_mem_mul ((ihr hr.1).mp ⟨groups₁, h₁⟩) ((ihs hr.2).mp ⟨groups₂, h₂⟩)
    · rintro ⟨w₁, hw₁, w₂, hw₂, rfl⟩
      obtain ⟨groups₁, h₁⟩ := (ihr hr.1).mpr hw₁
      obtain ⟨groups₂, h₂⟩ := (ihs hr.2).mpr hw₂
      exact ⟨groups₂ ++ groups₁, w₁, w₂, groups₁, groups₂, h₁, h₂, rfl, rfl⟩
  | alt r s ihr ihs =>
    simp only [Takes, language, Language.mem_add, exists_or, ihr hr.1, ihs hr.2]
  | star greedy r ih => exact exists_rounds_iff (ih hr)
  | cap name r ih =>
    constructor
    · rintro ⟨_, inner, htakes, -⟩
      exact (ih hr).mp ⟨inner, htakes⟩
    · intro hw
      obtain ⟨inner, htakes⟩ := (ih hr).mpr hw
      exact ⟨(name, w) :: inner, inner, htakes, rfl⟩

/-- **An expression without anchors takes the words of its language.** -/
theorem exists_mem_run_iff {r : Regex γ} (hr : r.AnchorFree) {c : Cursor γ} {back : List Char} :
    (∃ d ∈ run r c, d.rest = back) ↔ ∃ w ∈ language r, c.rest = w ++ back := by
  constructor
  · rintro ⟨d, hd, rfl⟩
    obtain ⟨w, back, groups, htakes, hsplit, rfl⟩ := mem_run_iff.mp hd
    exact ⟨w, (exists_takes_iff hr).mp ⟨groups, htakes⟩, hsplit⟩
  · rintro ⟨w, hw, hsplit⟩
    obtain ⟨groups, htakes⟩ := (exists_takes_iff hr).mpr hw
    exact ⟨_, mem_run_iff.mpr ⟨w, back, groups, htakes, hsplit, rfl⟩, rfl⟩

/-- There is a match at a cursor when a word of the language comes next. -/
theorem run_ne_nil_iff {r : Regex γ} (hr : r.AnchorFree) {c : Cursor γ} :
    run r c ≠ [] ↔ ∃ w ∈ language r, w <+: c.rest := by
  constructor
  · intro h
    obtain ⟨d, hd⟩ := List.exists_mem_of_ne_nil _ h
    obtain ⟨w, hw, hc⟩ := (exists_mem_run_iff hr).mp ⟨d, hd, rfl⟩
    exact ⟨w, hw, d.rest, hc.symm⟩
  · rintro ⟨w, hw, back, hc⟩
    obtain ⟨d, hd, -⟩ := (exists_mem_run_iff hr).mpr ⟨w, hw, hc.symm⟩
    exact List.ne_nil_of_mem hd

/-- With an anchor at its end, the word is all that is left. -/
theorem run_seq_eos_ne_nil_iff {r : Regex γ} (hr : r.AnchorFree) {c : Cursor γ} :
    run (seq r eos) c ≠ [] ↔ c.rest ∈ language r := by
  have hlast : ∀ e : Cursor γ, run eos e ≠ [] ↔ e.rest = [] := by simp [run]
  constructor
  · intro h
    obtain ⟨d, hd⟩ := List.exists_mem_of_ne_nil _ h
    obtain ⟨e, he, hd⟩ := List.mem_flatMap.mp hd
    have hend := (hlast e).mp (List.ne_nil_of_mem hd)
    obtain ⟨w, hw, hc⟩ := (exists_mem_run_iff hr).mp ⟨e, he, hend⟩
    rwa [hc, List.append_nil]
  · intro h
    obtain ⟨e, he, hend⟩ := (exists_mem_run_iff hr).mpr ⟨c.rest, h, (List.append_nil _).symm⟩
    obtain ⟨d, hd⟩ := List.exists_mem_of_ne_nil _ ((hlast e).mpr hend)
    exact List.ne_nil_of_mem (List.mem_flatMap.mpr ⟨e, he, hd⟩)

/-! ## Searches -/

/-- **A search without anchors** finds a word of the language anywhere in the text. -/
theorem isMatch_iff {r : Regex γ} (hr : r.AnchorFree) {s : String} :
    r.isMatch s = true ↔ ∃ w ∈ language r, w <:+: s.toList := by
  rw [isMatch, search, isSome_searchFrom_iff]
  constructor
  · rintro ⟨front, back, hsplit, hrun⟩
    obtain ⟨w, hw, hprefix⟩ := (run_ne_nil_iff hr).mp hrun
    exact ⟨w, hw, hprefix.isInfix.trans ⟨front, [], by rw [List.append_nil, hsplit]⟩⟩
  · rintro ⟨w, hw, front, back, hsplit⟩
    refine ⟨front, w ++ back, by rw [← hsplit, List.append_assoc], ?_⟩
    exact (run_ne_nil_iff hr).mpr ⟨w, hw, List.prefix_append w back⟩

/-- **A search anchored at the end** finds a word of the language there. -/
theorem isMatch_seq_eos_iff {r : Regex γ} (hr : r.AnchorFree) {s : String} :
    (seq r eos).isMatch s = true ↔ ∃ w ∈ language r, w <:+ s.toList := by
  rw [isMatch, search, isSome_searchFrom_iff]
  constructor
  · rintro ⟨front, back, hsplit, hrun⟩
    exact ⟨back, (run_seq_eos_ne_nil_iff hr).mp hrun, front, hsplit⟩
  · rintro ⟨w, hw, front, hsplit⟩
    exact ⟨front, w, hsplit, (run_seq_eos_ne_nil_iff hr).mpr hw⟩

/-- The two anchors the wrong way round meet in the empty text only. -/
theorem isMatch_seq_eos_bos_iff {s : String} :
    (seq eos bos : Regex γ).isMatch s = true ↔ s = "" := by
  have hrun : ∀ c : Cursor γ, run (seq eos bos) c ≠ [] ↔ c.rest = [] ∧ c.before = [] := by
    intro c
    by_cases hrest : c.rest = [] <;> simp [run, hrest]
  rw [isMatch, search, isSome_searchFrom_iff, ← String.toList_eq_nil_iff]
  simp only [hrun, List.append_nil, List.reverse_eq_nil_iff]
  constructor
  · rintro ⟨_, _, hsplit, rfl, rfl⟩
    exact hsplit.symm
  · intro h
    exact ⟨[], [], h.symm, rfl, rfl⟩

/-! ## Texts taken literally -/

theorem anchorFree_concat {rs : List (Regex γ)} (h : ∀ r ∈ rs, r.AnchorFree) :
    (concat rs).AnchorFree := by
  induction rs with
  | nil => trivial
  | cons r rs ih =>
    obtain ⟨hr, hrs⟩ := List.forall_mem_cons.mp h
    cases rs with
    | nil => exact hr
    | cons s rs => exact ⟨hr, ih hrs⟩

theorem anchorFree_lit (s : String) : (lit s : Regex γ).AnchorFree :=
  anchorFree_concat (by simp [AnchorFree])

theorem anchorFree_oneOf {rs : List (Regex γ)} (h : ∀ r ∈ rs, r.AnchorFree) :
    (oneOf rs).AnchorFree := by
  induction rs with
  | nil => trivial
  | cons r rs ih =>
    obtain ⟨hr, hrs⟩ := List.forall_mem_cons.mp h
    cases rs with
    | nil => exact hr
    | cons s rs => exact ⟨hr, ih hrs⟩

/-- A literal takes its own text. -/
@[simp] theorem mem_language_lit {s : String} {w : List Char} :
    w ∈ language (lit s : Regex γ) ↔ w = s.toList := by
  unfold lit
  induction s.toList generalizing w with
  | nil => exact Language.mem_one w
  | cons c l ih =>
    have hsingle : ∀ v, v ∈ language (cls (· == c) : Regex γ) ↔ v = [c] := by
      intro v
      simp only [language, beq_iff_eq, exists_eq_left]
      rfl
    cases l with
    | nil => exact hsingle w
    | cons c' l =>
      rw [List.map_cons, List.map_cons, concat, language, Language.mem_mul]
      · constructor
        · rintro ⟨v, hv, w, hw, rfl⟩
          rw [(hsingle v).mp hv, ih.mp hw]
          rfl
        · rintro rfl
          exact ⟨[c], (hsingle _).mpr rfl, c' :: l, ih.mpr rfl, rfl⟩
      · exact fun h => by cases h

/-- A literal is found where the text contains it. -/
theorem isMatch_lit_iff {s t : String} :
    (lit s : Regex γ).isMatch t = true ↔ s.toList <:+: t.toList := by
  simp [isMatch_iff (anchorFree_lit s)]

/-- An alternative takes what one of its branches takes. -/
theorem mem_language_oneOf {rs : List (Regex γ)} {w : List Char} :
    w ∈ language (oneOf rs) ↔ ∃ r ∈ rs, w ∈ language r := by
  induction rs with
  | nil =>
    constructor
    · rintro ⟨x, hx, -⟩
      cases hx
    · rintro ⟨r, hr, -⟩
      cases hr
  | cons r rs ih =>
    cases rs with
    | nil => simp [oneOf]
    | cons s rs =>
      have hcons : oneOf (r :: s :: rs) = alt r (oneOf (s :: rs)) := rfl
      rw [hcons, language, Language.mem_add, ih, List.exists_mem_cons_iff (a := r)]

end Regex

end Sentinalysis.Lib
