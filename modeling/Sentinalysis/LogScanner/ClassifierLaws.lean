/-
# Sentinalysis.LogScanner.ClassifierLaws — what the outcome of a classification depends on.

A category is found when a rule of it or its heuristic matches, and level and confidence look at
nothing but which categories were found.  So neither the order of the rules matters nor text that
comes behind the text of an entry.
-/
import Mathlib.Data.List.Forall2
import Mathlib.Tactic.Linarith
import Sentinalysis.LogScanner.Classifier

namespace Sentinalysis.LogScanner

open Lib

/-! ## Level and confidence grow with the categories -/

theorem ThreatLevel.le_trans {a b c : ThreatLevel} (hab : a ≤ b) (hbc : b ≤ c) : a ≤ c :=
  Nat.le_trans (n := a.rank) hab hbc

theorem ThreatLevel.le_antisymm {a b : ThreatLevel} (hab : a ≤ b) (hba : b ≤ a) : a = b := by
  have hrank : a.rank = b.rank := Nat.le_antisymm hab hba
  cases a <;> cases b <;> first | rfl | cases hrank

namespace ThreatResult

variable {result more : ThreatResult} {category : ThreatCategory}

/-- Why the level is what it is: a category asks for it, or there are two of them. -/
theorem calculateThreatLevel_cases (result : ThreatResult) :
    (∃ category ∈ result.categories, result.calculateThreatLevel ≤ category.severity) ∨
      (result.calculateThreatLevel = .Critical ∧ 2 ≤ result.categories.length ∧
        ∃ category ∈ result.categories, ThreatLevel.High ≤ category.severity) ∨
      (result.calculateThreatLevel = .Medium ∧ 2 ≤ result.categories.length) ∨
      (result.calculateThreatLevel = .Low ∧ result.categories ≠ []) ∨
      result.calculateThreatLevel = .None := by
  have hany : ∀ level, (result.categories.map ThreatCategory.severity).any
      (fun l => decide (level ≤ l)) = true ↔ ∃ category ∈ result.categories,
        level ≤ category.severity := by
    intro level
    simp
  unfold calculateThreatLevel
  simp only [Bool.or_eq_true, Bool.and_eq_true, hany, decide_eq_true_eq]
  split_ifs with hcritical hhigh hmedium hsome
  · rcases hcritical with hcritical | ⟨hhigh, htwo⟩
    · obtain ⟨category, hmem, hseverity⟩ := List.mem_map.mp hcritical
      exact Or.inl ⟨category, hmem, Nat.le_of_eq (congrArg ThreatLevel.rank hseverity.symm)⟩
    · exact Or.inr (Or.inl ⟨rfl, htwo, hhigh⟩)
  · exact Or.inl hhigh
  · rcases hmedium with hmedium | htwo
    · exact Or.inl hmedium
    · exact Or.inr (Or.inr (Or.inl ⟨rfl, htwo⟩))
  · exact Or.inr (Or.inr (Or.inr (Or.inl ⟨rfl, hsome⟩)))
  · exact Or.inr (Or.inr (Or.inr (Or.inr rfl)))

/-- A high category with another one is critical. -/
theorem critical_le_calculateThreatLevel (htwo : 2 ≤ result.categories.length)
    (hmem : category ∈ result.categories) (hhigh : ThreatLevel.High ≤ category.severity) :
    ThreatLevel.Critical ≤ result.calculateThreatLevel := by
  have hany : (result.categories.map ThreatCategory.severity).any
      (fun l => decide (ThreatLevel.High ≤ l)) = true :=
    List.any_eq_true.mpr ⟨_, List.mem_map_of_mem hmem, decide_eq_true hhigh⟩
  unfold calculateThreatLevel
  simp only [hany, htwo, decide_true, Bool.and_self, Bool.or_true, if_true]
  exact Nat.le_refl _

theorem medium_le_calculateThreatLevel (htwo : 2 ≤ result.categories.length) :
    ThreatLevel.Medium ≤ result.calculateThreatLevel := by
  unfold calculateThreatLevel
  simp only [htwo, decide_true, Bool.or_true, if_true]
  split_ifs <;> decide

theorem low_le_calculateThreatLevel (hsome : result.categories ≠ []) :
    ThreatLevel.Low ≤ result.calculateThreatLevel := by
  unfold calculateThreatLevel
  simp only [if_pos hsome]
  split_ifs <;> decide

/-- **More categories, no lower level.** -/
theorem calculateThreatLevel_mono (hnodup : result.categories.Nodup)
    (hsub : result.categories ⊆ more.categories) :
    result.calculateThreatLevel ≤ more.calculateThreatLevel := by
  have hlength : result.categories.length ≤ more.categories.length :=
    (List.subperm_of_subset hnodup hsub).length_le
  -- each reason for the level of the fewer categories is one for the more
  rcases result.calculateThreatLevel_cases with
    ⟨category, hmem, hle⟩ | ⟨hlevel, htwo, category, hmem, hhigh⟩ | ⟨hlevel, htwo⟩ |
    ⟨hlevel, hsome⟩ | hlevel
  · exact ThreatLevel.le_trans hle (severity_le_calculateThreatLevel (hsub hmem))
  · rw [hlevel]
    exact critical_le_calculateThreatLevel (htwo.trans hlength) (hsub hmem) hhigh
  · rw [hlevel]
    exact medium_le_calculateThreatLevel (htwo.trans hlength)
  · rw [hlevel]
    obtain ⟨category, hmem⟩ := List.exists_mem_of_ne_nil _ hsome
    exact low_le_calculateThreatLevel (List.ne_nil_of_mem (hsub hmem))
  · rw [hlevel]
    exact Nat.zero_le _

/-- The confidence for so many categories. -/
def confidenceBase : ℕ → ℚ
  | 1 => 7 / 10
  | 2 => 85 / 100
  | 3 | 4 => 95 / 100
  | _ => 1

theorem calculateConfidence_eq (result : ThreatResult) : result.calculateConfidence =
    if result.categories.any ThreatCategory.isStrong then
      min (confidenceBase result.categories.length + 1 / 10) 1
    else confidenceBase result.categories.length := rfl

theorem confidenceBase_le_one (n : ℕ) : confidenceBase n ≤ 1 := by
  unfold confidenceBase
  split <;> norm_num

theorem confidenceBase_mono {n m : ℕ} (hn : 1 ≤ n) (hnm : n ≤ m) :
    confidenceBase n ≤ confidenceBase m := by
  -- up to four the values are compared one by one; from five on the confidence is whole
  by_cases hm : m < 5
  · interval_cases m <;> interval_cases n <;> norm_num [confidenceBase]
  · obtain ⟨k, rfl⟩ := Nat.exists_eq_add_of_le' (not_lt.mp hm)
    exact confidenceBase_le_one n

/-- **More categories, no lower confidence**, once there is one. -/
theorem calculateConfidence_mono (hnodup : result.categories.Nodup)
    (hsome : result.categories ≠ []) (hsub : result.categories ⊆ more.categories) :
    result.calculateConfidence ≤ more.calculateConfidence := by
  have hlength : result.categories.length ≤ more.categories.length :=
    (List.subperm_of_subset hnodup hsub).length_le
  have hbase := confidenceBase_mono (List.length_pos_of_ne_nil hsome) hlength
  have hone := confidenceBase_le_one more.categories.length
  rw [calculateConfidence_eq, calculateConfidence_eq]
  split_ifs with hstrong hmore hmore
  · exact min_le_min_right 1 (by linarith)
  · -- a strong category of the fewer is one of the more
    obtain ⟨category, hmem, hcategory⟩ := List.any_eq_true.mp hstrong
    exact absurd (List.any_eq_true.mpr ⟨category, hsub hmem, hcategory⟩) hmore
  · exact le_min (by linarith) (by linarith)
  · exact hbase

theorem calculateConfidence_nonneg (result : ThreatResult) : 0 ≤ result.calculateConfidence := by
  have hbase : 0 ≤ confidenceBase result.categories.length := by
    unfold confidenceBase
    split <;> norm_num
  rw [calculateConfidence_eq]
  split
  · exact le_min (by linarith) (by norm_num)
  · exact hbase

/-- Categories are added before there is a score. -/
def Unscored (result : ThreatResult) : Prop := result.threatLevel = .None ∧ result.confidence = 0

theorem Unscored.addCategory (h : result.Unscored) (category : ThreatCategory) :
    (result.addCategory category).Unscored := by
  unfold ThreatResult.addCategory
  split <;> exact h

theorem mem_addCategory_iff {other : ThreatCategory} :
    category ∈ (result.addCategory other).categories ↔
      category ∈ result.categories ∨ category = other := by
  unfold addCategory
  split
  · next hin =>
    exact ⟨Or.inl, fun h => h.elim id fun heq => heq ▸ hin⟩
  · simp

end ThreatResult

/-! ## What is found -/

namespace Classifier

/-- The lowercased parts of an entry that rules look at. -/
def textOf (u : Unicode) (entry : ParsedLogEntry) : String :=
  toLowercase u (entry.message ++ " " ++ entry.raw)

def pathOf (u : Unicode) (entry : ParsedLogEntry) : String :=
  (entry.metadata.requestPath.map (toLowercase u)).getD ""

def userAgentOf (u : Unicode) (entry : ParsedLogEntry) : Option String :=
  entry.metadata.userAgent.map (toLowercase u)

/-- Two categories have a heuristic. -/
def Heuristic (u : Unicode) (entry : ParsedLogEntry) (category : ThreatCategory) : Prop :=
  (category = .BruteForce ∧ entry.level = .Error ∧
    Text.contains (textOf u entry) "password" = true) ∨
  (category = .SuspiciousPattern ∧
    ∃ status ∈ entry.metadata.statusCode, (status = 403 ∨ status = 404) ∧
      ∃ suspicious ∈ suspiciousPaths, Text.contains (pathOf u entry) suspicious = true)

/-- A rule of the category matches, or its heuristic does. -/
def Found (u : Unicode) (rules : List PatternRule) (entry : ParsedLogEntry)
    (category : ThreatCategory) : Prop :=
  (∃ rule ∈ rules, rule.category = category ∧
    rule.matches (textOf u entry) (pathOf u entry) (userAgentOf u entry) = true) ∨
    Heuristic u entry category

variable {u : Unicode} {rules : List PatternRule} {entry : ParsedLogEntry}
  {category : ThreatCategory} {result : ThreatResult}

/-- The loop over the rules adds the categories of those that match. -/
theorem mem_foldl_iff {text path : String} {userAgent : Option String} :
    category ∈ (rules.foldl (fun result rule =>
      if rule.matches text path userAgent then result.addCategory rule.category else result)
        result).categories ↔
      category ∈ result.categories ∨
        ∃ rule ∈ rules, rule.category = category ∧ rule.matches text path userAgent = true := by
  induction rules generalizing result with
  | nil => simp
  | cons rule rules ih =>
    rw [List.foldl_cons, ih, List.exists_mem_cons_iff]
    by_cases hmatch : rule.matches text path userAgent = true
    · rw [if_pos hmatch, ThreatResult.mem_addCategory_iff, or_assoc, and_iff_left hmatch,
        eq_comm (a := category)]
    · rw [if_neg hmatch]
      simp only [hmatch, Bool.false_eq_true, and_false, false_or]

theorem mem_checkBruteForceHeuristic_iff {text : String} :
    category ∈ (checkBruteForceHeuristic result text entry).categories ↔
      category ∈ result.categories ∨ (category = .BruteForce ∧ entry.level = .Error ∧
        Text.contains text "password" = true) := by
  unfold checkBruteForceHeuristic
  split
  · next h => rw [ThreatResult.mem_addCategory_iff, and_iff_left h]
  · next h => simp only [h, and_false, or_false]

theorem mem_checkErrorResponses_iff {metadata : LogMetadata} {path : String} :
    category ∈ (checkErrorResponses result metadata path).categories ↔
      category ∈ result.categories ∨ (category = .SuspiciousPattern ∧
        ∃ status ∈ metadata.statusCode, (status = 403 ∨ status = 404) ∧
          ∃ suspicious ∈ suspiciousPaths, Text.contains path suspicious = true) := by
  unfold checkErrorResponses
  cases hstatus : metadata.statusCode with
  | none => simp
  | some status =>
    simp only [Option.mem_def, Option.some_inj, exists_eq_left', ← List.any_eq_true]
    split
    · next h => rw [ThreatResult.mem_addCategory_iff, and_iff_left h]
    · next h => simp only [h, and_false, or_false]

/-- **A category is there exactly when it was found.** -/
theorem mem_categorize_iff :
    category ∈ (categorize u rules entry).categories ↔ Found u rules entry category := by
  unfold categorize
  simp only
  rw [mem_checkErrorResponses_iff, mem_checkBruteForceHeuristic_iff, mem_foldl_iff, or_assoc]
  exact or_congr_left (or_iff_right List.not_mem_nil)

theorem unscored_categorize : (categorize u rules entry).Unscored :=
  categorize_induction (P := ThreatResult.Unscored) u rules entry ⟨rfl, rfl⟩ fun _ category h => h.addCategory category

/-- `classify` over a table of rules. -/
def classifyWith (u : Unicode) (rules : List PatternRule) (entry : ParsedLogEntry) :
    ThreatResult :=
  let result := categorize u rules entry
  if result.categories = [] then result
  else
    { result with
      confidence := result.calculateConfidence
      threatLevel := result.calculateThreatLevel }

theorem classify_eq_classifyWith (u : Unicode) (entry : ParsedLogEntry) :
    classify u entry = classifyWith u patternRules entry := rfl

theorem categories_classifyWith :
    (classifyWith u rules entry).categories = (categorize u rules entry).categories := by
  unfold classifyWith
  simp only
  split <;> rfl

theorem mem_classifyWith_iff :
    category ∈ (classifyWith u rules entry).categories ↔ Found u rules entry category := by
  rw [categories_classifyWith, mem_categorize_iff]

theorem nodup_classifyWith : (classifyWith u rules entry).categories.Nodup :=
  categories_classifyWith ▸ nodup_categorize u rules entry

theorem classifyWith_of_nil (h : (categorize u rules entry).categories = []) :
    (classifyWith u rules entry).Unscored := by
  rw [classifyWith, if_pos h]
  exact unscored_categorize

theorem classifyWith_of_ne_nil (h : (categorize u rules entry).categories ≠ []) :
    (classifyWith u rules entry).threatLevel
        = (categorize u rules entry).calculateThreatLevel ∧
      (classifyWith u rules entry).confidence
        = (categorize u rules entry).calculateConfidence := by
  rw [classifyWith, if_neg h]
  exact ⟨rfl, rfl⟩

/-- No more was found, and what it comes to is no higher. -/
structure AtMost (result more : ThreatResult) : Prop where
  categories : result.categories ⊆ more.categories
  threatLevel : result.threatLevel ≤ more.threatLevel
  confidence : result.confidence ≤ more.confidence

/-- **What is found decides**: where more is found, nothing is lower. -/
theorem atMost_of_found {rules' : List PatternRule} {entry' : ParsedLogEntry}
    (h : ∀ category, Found u rules entry category → Found u rules' entry' category) :
    AtMost (classifyWith u rules entry) (classifyWith u rules' entry') := by
  have hsub : (categorize u rules entry).categories ⊆ (categorize u rules' entry').categories :=
    fun category hmem => mem_categorize_iff.mpr (h category (mem_categorize_iff.mp hmem))
  have hnodup := nodup_categorize u rules entry
  have hcategories : (classifyWith u rules entry).categories
      ⊆ (classifyWith u rules' entry').categories := by
    rwa [categories_classifyWith, categories_classifyWith]
  by_cases hnil : (categorize u rules entry).categories = []
  · -- nothing was found, and the scores are the lowest there are
    obtain ⟨hlevel, hconfidence⟩ := classifyWith_of_nil hnil
    refine ⟨hcategories, ?_, ?_⟩
    · rw [hlevel]
      exact Nat.zero_le _
    · rw [hconfidence]
      by_cases hmore : (categorize u rules' entry').categories = []
      · exact (classifyWith_of_nil hmore).2.ge
      · rw [(classifyWith_of_ne_nil hmore).2]
        exact ThreatResult.calculateConfidence_nonneg _
  · obtain ⟨category, hmem⟩ := List.exists_mem_of_ne_nil _ hnil
    obtain ⟨hlevel, hconfidence⟩ := classifyWith_of_ne_nil hnil
    obtain ⟨hlevel', hconfidence'⟩ := classifyWith_of_ne_nil (List.ne_nil_of_mem (hsub hmem))
    refine ⟨hcategories, ?_, ?_⟩
    · rw [hlevel, hlevel']
      exact ThreatResult.calculateThreatLevel_mono hnodup hsub
    · rw [hconfidence, hconfidence']
      exact ThreatResult.calculateConfidence_mono hnodup hnil hsub

/-! ## The order of the rules -/

theorem found_of_perm {permuted : List PatternRule} (h : permuted.Perm rules)
    (hfound : Found u permuted entry category) : Found u rules entry category := by
  rcases hfound with ⟨rule, hrule, hmatch⟩ | hheuristic
  · exact Or.inl ⟨rule, h.mem_iff.mp hrule, hmatch⟩
  · exact Or.inr hheuristic

/-- **The order of the rules is irrelevant.**  However a table is permuted, the same categories are
found, each listed once, and level and confidence are the same; a category is there exactly when a
rule of it or its heuristic matches. -/
theorem classify_permutedRules (u : Unicode) {rules permuted : List PatternRule}
    (h : permuted.Perm rules) (entry : ParsedLogEntry) :
    (∀ category, category ∈ (classifyWith u permuted entry).categories ↔
      category ∈ (classifyWith u rules entry).categories) ∧
      (classifyWith u permuted entry).threatLevel = (classifyWith u rules entry).threatLevel ∧
      (classifyWith u permuted entry).confidence = (classifyWith u rules entry).confidence ∧
      (classifyWith u rules entry).categories.Nodup ∧
      ∀ category, category ∈ (classifyWith u rules entry).categories ↔
        Found u rules entry category := by
  have hle : AtMost (classifyWith u permuted entry) (classifyWith u rules entry) :=
    atMost_of_found fun _ => found_of_perm h
  have hge : AtMost (classifyWith u rules entry) (classifyWith u permuted entry) :=
    atMost_of_found fun _ => found_of_perm h.symm
  refine ⟨fun category => ?_, ?_, ?_, nodup_classifyWith, fun category => mem_classifyWith_iff⟩
  · exact ⟨fun hmem => hle.categories hmem, fun hmem => hge.categories hmem⟩
  · exact ThreatLevel.le_antisymm hle.threatLevel hge.threatLevel
  · exact le_antisymm hle.confidence hge.confidence

private def probe : ParsedLogEntry where
  timestamp := .epoch
  sourceName := "nginx-access"
  level := .Info
  message := "union select"
  raw := ""
  metadata := {}

/-- The table the other way round. -/
theorem classify_permutedRules_reverse :
    (classifyWith .ascii patternRules.reverse probe).threatLevel
        = (classifyWith .ascii patternRules probe).threatLevel ∧
      .SqlInjection ∈ (classifyWith .ascii patternRules probe).categories := by
  obtain ⟨-, hlevel, -, -, hfound⟩ :=
    classify_permutedRules .ascii (List.reverse_perm patternRules) probe
  have hrule : ⟨.SqlInjection, .TextAndPath, "union select"⟩ ∈ patternRules := by decide
  exact ⟨hlevel, (hfound _).mpr (Or.inl ⟨_, hrule, rfl, by decide⟩)⟩

end Classifier

/-! ## More text -/

/-- More text behind the raw line, and behind path and user agent if there are any. -/
def ParsedLogEntry.extended (entry : ParsedLogEntry) (raw path userAgent : String) : ParsedLogEntry :=
  { entry with
    raw := entry.raw ++ raw
    metadata := { entry.metadata with
      requestPath := entry.metadata.requestPath.map (· ++ path)
      userAgent := entry.metadata.userAgent.map (· ++ userAgent) } }

namespace Classifier

variable {u : Unicode} {entry : ParsedLogEntry} {category : ThreatCategory}

/-- Two characters that no ASCII pattern tells apart. -/
def SameAscii (a b : Char) : Prop := a.toNat < 128 ∨ b.toNat < 128 → a = b

/-- The text begins like another one, as far as ASCII patterns can tell. -/
def Continues (t s : String) : Prop :=
  ∃ front back, t.toList = front ++ back ∧ List.Forall₂ SameAscii front s.toList

theorem Continues.refl (s : String) : Continues s s :=
  ⟨s.toList, [], (List.append_nil _).symm, List.forall₂_same.mpr fun _ _ _ => rfl⟩

theorem eq_of_sameAscii {l pattern : List Char} (h : List.Forall₂ SameAscii l pattern)
    (hascii : ∀ c ∈ pattern, c.toNat < 128) : l = pattern := by
  induction h with
  | nil => rfl
  | cons hsame _ ih =>
    obtain ⟨hc, hrest⟩ := List.forall_mem_cons.mp hascii
    rw [hsame (Or.inr hc), ih hrest]

/-- An occurrence of a pattern stays one. -/
theorem contains_of_continues {s t pattern : String} (hascii : ∀ c ∈ pattern.toList, c.toNat < 128)
    (ht : Continues t s) (h : Text.contains s pattern = true) :
    Text.contains t pattern = true := by
  obtain ⟨front, back, hfront, hsame⟩ := ht
  obtain ⟨left, right, hsplit⟩ := of_decide_eq_true h
  rw [← hsplit, List.append_assoc] at hsame
  have hbehind := List.forall₂_drop_append _ _ _ hsame
  have hpattern := eq_of_sameAscii (List.forall₂_take_append _ _ _ hbehind) hascii
  refine decide_eq_true ?_
  rw [hfront, ← hpattern]
  exact (List.take_prefix _ _).isInfix.trans
    ((List.drop_suffix _ _).isInfix.trans (List.prefix_append _ _).isInfix)

theorem startsWith_of_continues {s t pattern : String}
    (hascii : ∀ c ∈ pattern.toList, c.toNat < 128) (ht : Continues t s)
    (h : Text.startsWith s pattern = true) : Text.startsWith t pattern = true := by
  obtain ⟨front, back, hfront, hsame⟩ := ht
  obtain ⟨right, hsplit⟩ := List.isPrefixOf_iff_prefix.mp h
  rw [← hsplit] at hsame
  have hpattern := eq_of_sameAscii (List.forall₂_take_append _ _ _ hsame) hascii
  refine List.isPrefixOf_iff_prefix.mpr ?_
  rw [hfront, ← hpattern]
  exact (List.take_prefix _ _).trans (List.prefix_append _ _)

/-- What comes behind a character decides at most which small sigma it becomes. -/
theorem forall₂_lowercaseList (u : Unicode) (before l more : List Char) : ∃ front back,
    lowercaseList u before (l ++ more) = front ++ back ∧
      List.Forall₂ SameAscii front (lowercaseList u before l) := by
  induction l generalizing before with
  | nil => exact ⟨[], _, rfl, .nil⟩
  | cons c l ih =>
    obtain ⟨front, back, hsplit, hsame⟩ := ih (c :: before)
    -- neither of the two is in ASCII, so that no pattern tells them apart
    have hsigma : ∀ b b' : Bool, SameAscii (if b then 'ς' else 'σ') (if b' then 'ς' else 'σ') := by
      unfold SameAscii
      decide
    have hfirst : ∃ w, List.Forall₂ SameAscii w
        (if c = 'Σ' then [if u.finalSigma before.reverse l then 'ς' else 'σ'] else u.lowercase c) ∧
        lowercaseList u before (c :: l ++ more)
          = w ++ lowercaseList u (c :: before) (l ++ more) := by
      rw [List.cons_append, lowercaseList]
      refine ⟨_, ?_, rfl⟩
      split
      · exact .cons (hsigma _ _) .nil
      · exact List.forall₂_same.mpr fun _ _ _ => rfl
    obtain ⟨w, hw, hlower⟩ := hfirst
    refine ⟨w ++ front, back, ?_, ?_⟩
    · rw [hlower, hsplit, List.append_assoc]
    · rw [lowercaseList]
      exact List.rel_append hw hsame

theorem continues_toLowercase (u : Unicode) (s more : String) :
    Continues (toLowercase u (s ++ more)) (toLowercase u s) := by
  unfold Continues toLowercase
  rw [String.toList_ofList, String.toList_ofList, String.toList_append]
  exact forall₂_lowercaseList u [] s.toList more.toList

theorem ascii_of_all {s : String} (h : (s.toList.all fun c => decide (c.toNat < 128)) = true) :
    ∀ c ∈ s.toList, c.toNat < 128 :=
  fun c hc => of_decide_eq_true (List.all_eq_true.mp h c hc)

/-- Patterns and heuristics are in ASCII. -/
theorem ascii_patternRules : ∀ rule ∈ patternRules, ∀ c ∈ rule.pattern.toList, c.toNat < 128 := by
  have hall : (patternRules.all fun rule =>
      rule.pattern.toList.all fun c => decide (c.toNat < 128)) = true := by decide +kernel
  intro rule hrule
  exact ascii_of_all (List.all_eq_true.mp hall rule hrule)

theorem ascii_suspiciousPaths :
    ∀ suspicious ∈ suspiciousPaths, ∀ c ∈ suspicious.toList, c.toNat < 128 := by
  have hall : (suspiciousPaths.all fun suspicious =>
      suspicious.toList.all fun c => decide (c.toNat < 128)) = true := by decide
  intro suspicious hmem
  exact ascii_of_all (List.all_eq_true.mp hall suspicious hmem)

section Extended

variable {raw path userAgent : String}

theorem continues_textOf :
    Continues (textOf u (entry.extended raw path userAgent)) (textOf u entry) := by
  have htext : entry.message ++ " " ++ (entry.raw ++ raw) = entry.message ++ " " ++ entry.raw ++ raw :=
    String.append_assoc.symm
  unfold textOf ParsedLogEntry.extended
  simp only [htext]
  exact continues_toLowercase u _ raw

theorem continues_pathOf :
    Continues (pathOf u (entry.extended raw path userAgent)) (pathOf u entry) := by
  unfold pathOf ParsedLogEntry.extended
  cases entry.metadata.requestPath with
  | none => exact Continues.refl _
  | some requested => exact continues_toLowercase u requested path

theorem continues_userAgentOf : ∀ ua ∈ userAgentOf u entry,
    ∃ ua' ∈ userAgentOf u (entry.extended raw path userAgent), Continues ua' ua := by
  unfold userAgentOf ParsedLogEntry.extended
  cases entry.metadata.userAgent with
  | none => exact fun _ h => (Option.not_mem_none _ h).elim
  | some agent =>
    intro ua hua
    obtain rfl := Option.some.inj hua
    exact ⟨_, rfl, continues_toLowercase u agent userAgent⟩

/-- A rule that matches still does. -/
theorem matches_extended {rule : PatternRule} (hascii : ∀ c ∈ rule.pattern.toList, c.toNat < 128)
    (h : rule.matches (textOf u entry) (pathOf u entry) (userAgentOf u entry) = true) :
    rule.matches (textOf u (entry.extended raw path userAgent))
      (pathOf u (entry.extended raw path userAgent))
      (userAgentOf u (entry.extended raw path userAgent)) = true := by
  have htext : Text.contains (textOf u entry) rule.pattern = true →
      Text.contains (textOf u (entry.extended raw path userAgent)) rule.pattern = true :=
    contains_of_continues hascii continues_textOf
  have hpath : Text.contains (pathOf u entry) rule.pattern = true →
      Text.contains (pathOf u (entry.extended raw path userAgent)) rule.pattern = true :=
    contains_of_continues hascii continues_pathOf
  unfold PatternRule.matches at h ⊢
  cases hscope : rule.scope with
  | Text =>
    rw [hscope] at h
    exact htext h
  | Path =>
    rw [hscope] at h
    exact hpath h
  | TextAndPath =>
    simp only [hscope, Bool.or_eq_true] at h ⊢
    exact h.imp htext hpath
  | UserAgent =>
    simp only [hscope, Option.any_eq_true] at h ⊢
    obtain ⟨ua, hua, hcontains⟩ := h
    obtain ⟨ua', hua', hcontinues⟩ := continues_userAgentOf ua hua
    exact ⟨ua', hua', contains_of_continues hascii hcontinues hcontains⟩
  | PathPrefix =>
    simp only [hscope, Bool.or_eq_true, beq_iff_eq] at h ⊢
    -- a path that was the pattern itself goes on behind it
    have hstart : Text.startsWith (pathOf u entry) rule.pattern = true := by
      rcases h with h | h
      · rw [h]
        exact List.isPrefixOf_iff_prefix.mpr (List.prefix_refl _)
      · exact h
    exact Or.inr (startsWith_of_continues hascii continues_pathOf hstart)

theorem found_extended (h : Found u patternRules entry category) :
    Found u patternRules (entry.extended raw path userAgent) category := by
  rcases h with ⟨rule, hrule, hcategory, hmatch⟩ | ⟨hcategory, hlevel, hpassword⟩ |
    ⟨hcategory, status, hstatus, hcode, suspicious, hmem, hcontains⟩
  · exact Or.inl ⟨rule, hrule, hcategory, matches_extended (ascii_patternRules rule hrule) hmatch⟩
  · have hascii : ∀ c ∈ "password".toList, c.toNat < 128 := ascii_of_all (by decide)
    exact Or.inr (Or.inl ⟨hcategory, hlevel,
      contains_of_continues hascii continues_textOf hpassword⟩)
  · exact Or.inr (Or.inr ⟨hcategory, status, hstatus, hcode, suspicious, hmem,
      contains_of_continues (ascii_suspiciousPaths suspicious hmem) continues_pathOf hcontains⟩)

end Extended

/-- **More text hides nothing.**  Whatever is appended to the raw line, to the path and to the user
agent, everything that was found is found, and neither level nor confidence is lower. -/
theorem classify_extended (u : Unicode) (entry : ParsedLogEntry) (raw path userAgent : String) :
    (classify u entry).categories ⊆
        (classify u (entry.extended raw path userAgent)).categories ∧
      (classify u entry).threatLevel ≤
        (classify u (entry.extended raw path userAgent)).threatLevel ∧
      (classify u entry).confidence ≤
        (classify u (entry.extended raw path userAgent)).confidence := by
  have h : AtMost (classify u entry) (classify u (entry.extended raw path userAgent)) :=
    atMost_of_found fun _ => found_extended
  exact ⟨h.categories, h.threatLevel, h.confidence⟩

end Classifier

end Sentinalysis.LogScanner
