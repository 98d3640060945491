/-
# Sentinalysis.Lib.GroupBy — rows by a key: groups, their sizes, and maps collected from them.

`groups` is `GROUP BY`: each key that occurs has one group, and every row is in the group of its
key.  `counts` is `COUNT(*)` over it.  The order of groups is not part of a result unless it is
asked for (`sorted`); a map that is collected from pairs (`collect`) does not depend on it.
-/
import Mathlib.Algebra.BigOperators.Group.List.Basic
import Mathlib.Algebra.GroupWithZero.Nat
import Mathlib.Data.Finset.Card
import Mathlib.Data.List.Dedup
import Mathlib.Data.List.Sort

namespace Sentinalysis.Lib.GroupBy

universe u v w

variable {α : Type u} {κ : Type v} {ν : Type w} [DecidableEq κ] (key : α → κ)

/-- The groups of a list, each with its key; the members are in their order. -/
def groups (l : List α) : List (κ × List α) :=
  (l.map key).dedup.map fun k => (k, l.filter (key · = k))

/-- How many there are of each key. -/
def counts (l : List α) : List (κ × ℕ) := (groups key l).map fun group => (group.1, group.2.length)

variable {key} {l : List α} {k : κ}

theorem keys_groups (key : α → κ) (l : List α) :
    (groups key l).map Prod.fst = (l.map key).dedup := by
  rw [groups, List.map_map]
  exact List.map_id _

/-- No key has two groups. -/
theorem nodup_keys (key : α → κ) (l : List α) : ((groups key l).map Prod.fst).Nodup :=
  keys_groups key l ▸ List.nodup_dedup _

theorem mem_groups_iff {members : List α} :
    (k, members) ∈ groups key l ↔ members = l.filter (key · = k) ∧ members ≠ [] := by
  rw [groups, List.mem_map]
  constructor
  · rintro ⟨k', hk', heq⟩
    obtain ⟨rfl, rfl⟩ := Prod.mk.inj heq
    obtain ⟨a, ha, rfl⟩ := List.mem_map.mp (List.mem_dedup.mp hk')
    exact ⟨rfl, List.ne_nil_of_mem (List.mem_filter.mpr ⟨ha, decide_eq_true rfl⟩)⟩
  · rintro ⟨rfl, hne⟩
    obtain ⟨a, hmember⟩ := List.exists_mem_of_ne_nil _ hne
    obtain ⟨ha, hkey⟩ := List.mem_filter.mp hmember
    obtain rfl := of_decide_eq_true hkey
    exact ⟨key a, List.mem_dedup.mpr (List.mem_map_of_mem ha), rfl⟩

/-- Everything is in the group of its key. -/
theorem mem_group_of_mem (key : α → κ) {a : α} (h : a ∈ l) :
    ∃ members, (key a, members) ∈ groups key l ∧ a ∈ members := by
  have ha : a ∈ l.filter (key · = key a) := List.mem_filter.mpr ⟨h, decide_eq_true rfl⟩
  exact ⟨_, mem_groups_iff.mpr ⟨rfl, List.ne_nil_of_mem ha⟩, ha⟩

/-- The parts of a list by keys that cover it are the list. The induction is on the keys: what the
first one leaves is covered by the others. -/
theorem perm_flatMap_filter {keys : List κ} (hkeys : keys.Nodup) (hcover : ∀ a ∈ l, key a ∈ keys) :
    (keys.flatMap fun k => l.filter (key · = k)).Perm l := by
  induction keys generalizing l with
  | nil =>
    obtain rfl : l = [] := List.eq_nil_iff_forall_not_mem.mpr fun a ha => by cases hcover a ha
    exact List.Perm.refl _
  | cons k keys ih =>
    obtain ⟨hnew, hkeys⟩ := List.nodup_cons.mp hkeys
    have hrest : ∀ a ∈ l.filter (key · ≠ k), key a ∈ keys := by
      intro a ha
      obtain ⟨ha, hne⟩ := List.mem_filter.mp ha
      exact List.mem_of_ne_of_mem (of_decide_eq_true hne) (hcover a ha)
    have hsame : keys.flatMap (fun k' => l.filter (key · = k'))
        = keys.flatMap fun k' => (l.filter (key · ≠ k)).filter (key · = k') := by
      refine List.flatMap_congr fun k' hk' => ?_
      rw [List.filter_filter]
      refine List.filter_congr fun a _ => ?_
      by_cases heq : key a = k'
      · have hne : key a ≠ k := fun h => hnew (h ▸ heq ▸ hk')
        simp [heq, heq ▸ hne]
      · simp [heq]
    rw [List.flatMap_cons, hsame]
    have hsplit := List.filter_append_perm (fun a => decide (key a = k)) l
    simp only [← decide_not] at hsplit
    exact ((ih hkeys hrest).append_left _).trans hsplit

theorem nodup_keys_counts (key : α → κ) (l : List α) : ((counts key l).map Prod.fst).Nodup := by
  rw [counts, List.map_map]
  exact nodup_keys key l

theorem mem_counts_iff {n : ℕ} :
    (k, n) ∈ counts key l ↔ n = l.countP (key · = k) ∧ n ≠ 0 := by
  rw [List.countP_eq_length_filter]
  constructor
  · intro h
    obtain ⟨⟨k', members⟩, hmembers, heq⟩ := List.mem_map.mp h
    obtain ⟨rfl, rfl⟩ := Prod.mk.inj heq
    obtain ⟨rfl, hne⟩ := mem_groups_iff.mp hmembers
    exact ⟨rfl, fun hzero => hne (List.length_eq_zero_iff.mp hzero)⟩
  · rintro ⟨rfl, hne⟩
    refine List.mem_map.mpr ⟨_, mem_groups_iff.mpr ⟨rfl, fun hnil => hne ?_⟩, rfl⟩
    rw [hnil, List.length_nil]

/-! ## In order -/

section Sorted

variable {α : Type u} {κ : Type v} [LinearOrder κ] {key : α → κ} {l : List α}

/-- The groups in the order of their keys. -/
def sorted (key : α → κ) (l : List α) : List (κ × List α) :=
  (groups key l).insertionSort fun a b => a.1 ≤ b.1

theorem perm_sorted (key : α → κ) (l : List α) : (sorted key l).Perm (groups key l) :=
  List.perm_insertionSort _ _

theorem pairwise_sorted (key : α → κ) (l : List α) :
    (sorted key l).Pairwise fun a b => a.1 < b.1 := by
  have htotal : Std.Total fun a b : κ × List α => a.1 ≤ b.1 := ⟨fun a b => le_total a.1 b.1⟩
  have htrans : IsTrans (κ × List α) fun a b => a.1 ≤ b.1 := ⟨fun _ _ _ h₁ h₂ => h₁.trans h₂⟩
  have hsorted := List.pairwise_insertionSort (fun a b : κ × List α => a.1 ≤ b.1) (groups key l)
  have hnodup : ((sorted key l).map Prod.fst).Nodup :=
    ((perm_sorted key l).map Prod.fst).nodup_iff.mpr (nodup_keys key l)
  exact (hsorted.and (List.pairwise_map.mp hnodup)).imp fun ⟨hle, hne⟩ => lt_of_le_of_ne hle hne

end Sorted

/-! ## Maps from pairs -/

/-- A map that is collected from pairs: a later value takes the place of an earlier one. -/
def collect (pairs : List (κ × ν)) (k : κ) : Option ν :=
  (pairs.reverse.find? (·.1 = k)).map Prod.snd

theorem collect_eq_some_iff {pairs : List (κ × ν)} (h : (pairs.map Prod.fst).Nodup) {v : ν} :
    collect pairs k = some v ↔ (k, v) ∈ pairs := by
  constructor
  · intro hcollect
    obtain ⟨pair, hfind, rfl⟩ := Option.map_eq_some_iff.mp hcollect
    have hkey : pair.1 = k := by simpa using List.find?_some hfind
    have hmem := List.mem_reverse.mp (List.mem_of_find?_eq_some hfind)
    rwa [← hkey]
  · intro hmem
    cases hfind : pairs.reverse.find? (·.1 = k) with
    | none =>
      have hnone := List.find?_eq_none.mp hfind (k, v) (List.mem_reverse.mpr hmem)
      simp at hnone
    | some pair =>
      have hkey : pair.1 = k := by simpa using List.find?_some hfind
      have hpair := List.mem_reverse.mp (List.mem_of_find?_eq_some hfind)
      obtain rfl := List.inj_on_of_nodup_map h hpair hmem hkey
      rw [collect, hfind]
      rfl

/-- The order of pairs with distinct keys makes no difference. -/
theorem collect_perm {pairs pairs' : List (κ × ν)} (h : (pairs.map Prod.fst).Nodup)
    (hperm : pairs.Perm pairs') : collect pairs k = collect pairs' k := by
  have h' : (pairs'.map Prod.fst).Nodup := (hperm.map Prod.fst).nodup_iff.mp h
  refine Option.ext fun v => ?_
  rw [collect_eq_some_iff h, collect_eq_some_iff h', hperm.mem_iff]

/-- What a map of counts has for a key. -/
theorem collect_counts (key : α → κ) (l : List α) (k : κ) :
    (collect (counts key l) k).getD 0 = l.countP (key · = k) := by
  cases hcollect : collect (counts key l) k with
  | some n =>
    have hmem := (collect_eq_some_iff (nodup_keys_counts key l)).mp hcollect
    exact (mem_counts_iff.mp hmem).1
  | none =>
    by_contra hne
    have hmem : (k, l.countP (key · = k)) ∈ counts key l :=
      mem_counts_iff.mpr ⟨rfl, fun hzero => hne hzero.symm⟩
    rw [(collect_eq_some_iff (nodup_keys_counts key l)).mpr hmem] at hcollect
    cases hcollect

/-- A key has a count when it occurs. -/
theorem isSome_collect_counts (key : α → κ) (l : List α) (k : κ) :
    (collect (counts key l) k).isSome = true ↔ l.countP (key · = k) ≠ 0 := by
  rw [Option.isSome_iff_exists]
  simp only [collect_eq_some_iff (nodup_keys_counts key l), mem_counts_iff]
  exact ⟨fun ⟨_, hn, hne⟩ => hn ▸ hne, fun hne => ⟨_, rfl, hne⟩⟩

/-- The counts of a map add up to everything, in whatever order the map is walked. -/
theorem sum_collect_counts (key : α → κ) (l : List α) {keys : List κ} (hkeys : keys.Nodup)
    (hall : ∀ k, k ∈ keys ↔ (collect (counts key l) k).isSome = true) :
    (keys.map fun k => (collect (counts key l) k).getD 0).sum = l.length := by
  have hcover : ∀ a ∈ l, key a ∈ keys := by
    intro a ha
    rw [hall, isSome_collect_counts, List.countP_eq_length_filter]
    exact (List.length_pos_of_mem (List.mem_filter.mpr ⟨ha, decide_eq_true rfl⟩)).ne'
  have hlength := (perm_flatMap_filter hkeys hcover).length_eq
  rw [List.length_flatMap] at hlength
  simp only [collect_counts, List.countP_eq_length_filter]
  exact hlength

/-! ## Conditions that exclude each other -/

section Disjoint

variable {α : Type u} {κ : Type v}

theorem countP_or_of_disjoint {p q : α → Bool} (h : ∀ a, p a = true → q a = false) (l : List α) :
    l.countP p + l.countP q = l.countP fun a => p a || q a := by
  induction l with
  | nil => rfl
  | cons a l ih =>
    rw [List.countP_cons, List.countP_cons, List.countP_cons, ← ih]
    cases hp : p a with
    | true => simp [h a hp, Nat.add_right_comm]
    | false => simp [Nat.add_assoc]

/-- Counts by several conditions add up to one count when no two conditions meet. -/
theorem sum_countP_of_unique {keys : List κ} (p : κ → α → Bool) (hkeys : keys.Nodup)
    (hunique : ∀ a k k', p k a = true → p k' a = true → k = k') (l : List α) :
    (keys.map fun k => l.countP (p k)).sum = l.countP fun a => keys.any (p · a) := by
  induction keys with
  | nil => simp
  | cons k keys ih =>
    obtain ⟨hk, hkeys⟩ := List.nodup_cons.mp hkeys
    rw [List.map_cons, List.sum_cons, ih hkeys]
    refine countP_or_of_disjoint (fun a hpk => ?_) l
    rw [List.any_eq_false]
    exact fun k' hk' hpk' => hk (hunique a k k' hpk hpk' ▸ hk')

end Disjoint

end Sentinalysis.Lib.GroupBy
