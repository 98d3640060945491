/-
# Sentinalysis.Lib.Window — the newest entries of a growing collection, and a cache that follows it.

Entries are ordered by a key; no two share one.  `newest n l` are the `n` with the greatest keys,
greatest first.  A cache that holds some entries catches up by asking for those above its first one,
at most `limit` of them, and keeping `cap` of what it then has (`catchUp`).  When that gives the
newest `cap` entries is a question about what the cache cannot see: entries above the cursor beyond
the limit, and entries below it that it never had (`catchUp_eq_newest_iff`).
-/
import Mathlib.Data.List.Sort

namespace Sentinalysis.Lib.Window

universe u v

variable {α : Type u} {κ : Type v} [LinearOrder κ] (key : α → κ)

/-! ## Descending lists -/

/-- Greatest key first, no key twice. -/
def Descending (l : List α) : Prop := l.Pairwise fun a b => key b < key a

/-- The entries, greatest key first. -/
def newestFirst (l : List α) : List α := l.insertionSort fun a b => key b ≤ key a

/-- The first `n` of them. -/
def newest (n : ℕ) (l : List α) : List α := (newestFirst key l).take n

/-- The entries above a key. -/
def above (k : κ) (l : List α) : List α := l.filter fun a => k < key a

/-- How many entries are above one. -/
def rank (a : α) (l : List α) : ℕ := (above key (key a) l).length

variable {key} {l m : List α} {a : α}

theorem perm_newestFirst (l : List α) : (newestFirst key l).Perm l := List.perm_insertionSort _ l

@[simp] theorem mem_newestFirst : a ∈ newestFirst key l ↔ a ∈ l := (perm_newestFirst l).mem_iff

theorem rank_newestFirst (a : α) (l : List α) : rank key a (newestFirst key l) = rank key a l :=
  ((perm_newestFirst l).filter _).length_eq

theorem descending_newestFirst (h : (l.map key).Nodup) : Descending key (newestFirst key l) := by
  have htotal : Std.Total fun a b : α => key b ≤ key a := ⟨fun a b => le_total (key b) (key a)⟩
  have htrans : IsTrans α fun a b : α => key b ≤ key a := ⟨fun _ _ _ h₁ h₂ => h₂.trans h₁⟩
  have hsorted := List.pairwise_insertionSort (fun a b : α => key b ≤ key a) l
  have hnodup : ((newestFirst key l).map key).Nodup := ((perm_newestFirst l).map key).nodup_iff.mpr h
  have hne := List.pairwise_map.mp hnodup
  exact (hsorted.and hne).imp fun ⟨hle, hne⟩ => lt_of_le_of_ne hle (Ne.symm hne)

namespace Descending

theorem sublist (h : Descending key l) (hsub : m.Sublist l) : Descending key m :=
  List.Pairwise.sublist hsub h

/-- A descending list is determined by its entries. -/
theorem eq_of_mem_iff (h₁ : Descending key l) (h₂ : Descending key m)
    (hmem : ∀ a, a ∈ l ↔ a ∈ m) : l = m := by
  have hanti : Std.Antisymm fun a b : α => key b < key a :=
    ⟨fun _ _ h₁ h₂ => absurd h₁ (lt_asymm h₂)⟩
  have hirrefl : Std.Irrefl fun a b : α => key b < key a := ⟨fun _ => lt_irrefl _⟩
  exact List.Pairwise.eq_of_mem_iff h₁ h₂ hmem

/-- Descending lists are nested as their entries are. -/
theorem sublist_of_subset (h₁ : Descending key m) (h₂ : Descending key l) (hsub : m ⊆ l) :
    m.Sublist l := by
  classical
  have heq : m = l.filter (· ∈ m) := by
    apply h₁.eq_of_mem_iff (h₂.sublist List.filter_sublist)
    intro a
    rw [List.mem_filter, decide_eq_true_eq]
    exact ⟨fun h => ⟨hsub h, h⟩, fun h => h.2⟩
  rw [heq]
  exact List.filter_sublist

theorem nodup (h : Descending key l) : l.Nodup := by
  refine List.Pairwise.imp ?_ h
  intro a b hlt heq
  rw [heq] at hlt
  exact lt_irrefl _ hlt

/-- The first entry is above all others. -/
theorem lt_of_mem {b : α} (h : Descending key (b :: l)) (ha : a ∈ l) : key a < key b :=
  (List.pairwise_cons.mp h).1 a ha

theorem tail {b : α} (h : Descending key (b :: l)) : Descending key l :=
  (List.pairwise_cons.mp h).2

/-- Entries above the first one come before it. -/
theorem append {b : α} (h₁ : Descending key m) (h₂ : Descending key (b :: l))
    (habove : ∀ a ∈ m, key b < key a) : Descending key (m ++ b :: l) := by
  refine List.pairwise_append.mpr ⟨h₁, h₂, fun a ha c hc => ?_⟩
  rcases List.mem_cons.mp hc with rfl | hc
  · exact habove a ha
  · exact (h₂.lt_of_mem hc).trans (habove a ha)

theorem rank_head {b : α} (h : Descending key (b :: l)) : rank key b (b :: l) = 0 := by
  rw [rank, above, List.length_eq_zero_iff, List.filter_eq_nil_iff]
  intro a ha
  simp only [decide_eq_true_eq, not_lt]
  rcases List.mem_cons.mp ha with rfl | ha
  · exact le_rfl
  · exact (h.lt_of_mem ha).le

theorem rank_tail {b : α} (h : Descending key (b :: l)) (ha : a ∈ l) :
    rank key a (b :: l) = rank key a l + 1 := by
  have hlt := h.lt_of_mem ha
  simp [rank, above, hlt]

/-- The first `n` are those with fewer than `n` above them. -/
theorem rank_lt_of_mem_take (h : Descending key l) {n : ℕ} (ha : a ∈ l.take n) :
    rank key a l < n := by
  induction l generalizing n with
  | nil => simp at ha
  | cons b l ih =>
    cases n with
    | zero => simp at ha
    | succ n =>
      rw [List.take_succ_cons, List.mem_cons] at ha
      rcases ha with rfl | ha
      · rw [h.rank_head]
        exact Nat.succ_pos n
      · rw [h.rank_tail (List.mem_of_mem_take ha)]
        exact Nat.succ_lt_succ (ih h.tail ha)

/-- A part has the same beginning exactly when all that is missing comes later. The induction is on
how the part lies in the whole. -/
theorem take_eq_take_iff (h : Descending key l) (hsub : m.Sublist l) (cap : ℕ) :
    m.take cap = l.take cap ↔ ∀ a ∈ l, a ∉ m → cap ≤ rank key a l := by
  induction hsub generalizing cap with
  | slnil => simp
  | @cons m l b hsub ih =>
    cases cap with
    | zero => simp
    | succ n =>
      -- the whole begins with `b`, which is above the part
      have hb : b ∉ m := fun hmem => lt_irrefl _ (h.lt_of_mem (hsub.subset hmem))
      constructor
      · intro heq
        have hmem : b ∈ m.take (n + 1) := by
          rw [heq, List.take_succ_cons]
          exact List.mem_cons_self
        exact absurd (List.mem_of_mem_take hmem) hb
      · intro hlate
        have hrank := hlate b List.mem_cons_self hb
        rw [h.rank_head] at hrank
        omega
  | @cons_cons m l b hsub ih =>
    cases cap with
    | zero => simp
    | succ n =>
      rw [List.take_succ_cons, List.take_succ_cons, List.cons_eq_cons, ih h.tail n]
      constructor
      · rintro ⟨-, hlate⟩ a ha hnot
        rw [List.mem_cons, not_or] at hnot
        have ha := List.mem_of_ne_of_mem hnot.1 ha
        rw [h.rank_tail ha]
        exact Nat.succ_le_succ (hlate a ha hnot.2)
      · intro hlate
        refine ⟨rfl, fun a ha hnot => ?_⟩
        have hne : a ≠ b := fun heq => lt_irrefl (key b) (heq ▸ h.lt_of_mem ha)
        have hrank := hlate a (List.mem_cons_of_mem b ha) (by simp [hne, hnot])
        rw [h.rank_tail ha] at hrank
        exact Nat.le_of_succ_le_succ hrank

end Descending

theorem newestFirst_of_descending (h : Descending key l) : newestFirst key l = l :=
  List.Pairwise.insertionSort_eq (h.imp fun hlt => hlt.le)

/-- Sorting and selecting commute. -/
theorem newestFirst_filter (h : (l.map key).Nodup) (p : α → Bool) :
    newestFirst key (l.filter p) = (newestFirst key l).filter p := by
  have hsub : ((l.filter p).map key).Nodup := h.sublist (List.filter_sublist.map key)
  apply (descending_newestFirst hsub).eq_of_mem_iff
    ((descending_newestFirst h).sublist List.filter_sublist)
  intro a
  simp only [mem_newestFirst, List.mem_filter]

section Map

variable {β : Type*} {key' : β → κ} {f : α → β}

/-- Sorting by a key commutes with a function that keeps the key. -/
theorem newest_map (hkey : ∀ a, key' (f a) = key a) (n : ℕ) (l : List α) :
    newest key' n (l.map f) = (newest key n l).map f := by
  have hsort : newestFirst key' (l.map f) = (newestFirst key l).map f :=
    (List.map_insertionSort (fun a b : α => key b ≤ key a) (fun a b : β => key' b ≤ key' a) f l
      fun a _ b _ => by rw [hkey, hkey]).symm
  rw [newest, hsort, newest, List.map_take]

theorem above_map (hkey : ∀ a, key' (f a) = key a) (k : κ) (l : List α) :
    above key' k (l.map f) = (above key k l).map f := by
  rw [above, above, List.filter_map]
  congr 1
  apply List.filter_congr
  intro a _
  simp only [Function.comp_apply, hkey]

end Map

/-! ## Catching up -/

variable (key)

/-- What a cache becomes that asks for the entries above its first one. -/
def catchUp (cap limit : ℕ) (l : List α) : List α → List α
  | [] => []
  | x :: cache => (newest key limit (above key (key x) l) ++ x :: cache).take cap

/-- What the cache cannot see does not matter: there are at most `limit` entries above its first
one, and those below it that it never had are not among the newest. A cache without a first entry
sees nothing. -/
def Covers (cap limit : ℕ) (l : List α) : List α → Prop
  | [] => l = []
  | x :: cache => (above key (key x) l).length ≤ limit ∧
      ∀ a ∈ l, ¬ key x < key a → a ∉ x :: cache → cap ≤ rank key a l

instance decidableCovers [DecidableEq α] (cap limit : ℕ) (l : List α) :
    ∀ cache, Decidable (Covers key cap limit l cache)
  | [] => inferInstanceAs (Decidable (l = []))
  | _ :: _ => inferInstanceAs (Decidable (_ ∧ _))

/-- A cache of at most `cap` entries, in order. -/
structure Held (cap : ℕ) (l cache : List α) : Prop where
  descending : Descending key cache
  subset : cache ⊆ l
  length_le : cache.length ≤ cap

variable {key} {cap limit : ℕ} {cache : List α}

theorem mem_above {k : κ} : a ∈ above key k l ↔ a ∈ l ∧ k < key a := by
  simp [above]

theorem length_newest_le (n : ℕ) (l : List α) : (newest key n l).length ≤ n :=
  List.length_take_le n _

theorem newest_subset (n : ℕ) (l : List α) : newest key n l ⊆ l :=
  fun _ ha => mem_newestFirst.mp (List.mem_of_mem_take ha)

/-- The newest entries make a cache. -/
theorem Held.newest (h : (l.map key).Nodup) : Held key cap l (newest key cap l) :=
  ⟨(descending_newestFirst h).sublist (List.take_sublist _ _), newest_subset cap l,
    length_newest_le cap l⟩

/-- A cache stays one while the collection grows. -/
theorem Held.mono (h : Held key cap l cache) (hsub : l ⊆ m) : Held key cap m cache :=
  ⟨h.descending, List.Subset.trans h.subset hsub, h.length_le⟩

theorem Held.nil : Held key cap l [] := ⟨List.Pairwise.nil, List.nil_subset _, Nat.zero_le _⟩

section CatchUp

variable {x : α}

/-- What was fetched and what was there are one descending part of the collection. -/
theorem Held.fetched_sublist (h : Held key cap l (x :: cache)) (hkeys : (l.map key).Nodup) :
    (Window.newest key limit (above key (key x) l) ++ x :: cache).Sublist (newestFirst key l) := by
  have hall := descending_newestFirst hkeys
  have hfetched : Descending key (Window.newest key limit (above key (key x) l)) := by
    rw [Window.newest, above, newestFirst_filter hkeys]
    exact hall.sublist ((List.take_sublist _ _).trans List.filter_sublist)
  apply Descending.sublist_of_subset _ hall
  · intro a ha
    rw [mem_newestFirst]
    rcases List.mem_append.mp ha with ha | ha
    · exact (mem_above.mp (newest_subset _ _ ha)).1
    · exact h.subset ha
  · refine List.pairwise_append.mpr ⟨hfetched, h.descending, ?_⟩
    intro a ha b hb
    have habove := (mem_above.mp (newest_subset _ _ ha)).2
    rcases List.mem_cons.mp hb with rfl | hb
    · exact habove
    · exact (h.descending.lt_of_mem hb).trans habove

/-- Catching up makes a cache of a cache. -/
theorem Held.catchUp (h : Held key cap l cache) (hkeys : (l.map key).Nodup) :
    Held key cap l (catchUp key cap limit l cache) := by
  cases cache with
  | nil => exact Held.nil
  | cons x cache =>
    have hfetched : (Window.newest key limit (above key (key x) l) ++ x :: cache).Sublist
        (newestFirst key l) := h.fetched_sublist hkeys
    have hsub := (List.take_sublist cap _).trans hfetched
    exact ⟨(descending_newestFirst hkeys).sublist hsub,
      fun _ ha => mem_newestFirst.mp (hsub.subset ha), List.length_take_le cap _⟩

/-- When more than `limit` entries are above the cursor, one of the first is not fetched. -/
theorem exists_not_fetched (hkeys : (l.map key).Nodup)
    (hlong : limit < (above key (key x) l).length) :
    ∃ a ∈ l, key x < key a ∧ a ∉ newest key limit (above key (key x) l) ∧ rank key a l ≤ limit := by
  have habove : ((above key (key x) l).map key).Nodup := hkeys.sublist (List.filter_sublist.map key)
  have hdesc := descending_newestFirst habove
  have hlen : limit < (newestFirst key (above key (key x) l)).length := by
    rw [(perm_newestFirst _).length_eq]
    exact hlong
  let a := (newestFirst key (above key (key x) l))[limit]
  have ha : a ∈ above key (key x) l := mem_newestFirst.mp (List.getElem_mem hlen)
  have hfirst : a ∈ (newestFirst key (above key (key x) l)).take (limit + 1) := by
    rw [List.take_succ_eq_append_getElem hlen]
    exact List.mem_append_right _ (List.mem_singleton.mpr rfl)
  have hnodup := (hdesc.sublist (List.take_sublist (limit + 1) _)).nodup
  refine ⟨a, (mem_above.mp ha).1, (mem_above.mp ha).2, ?_, ?_⟩
  · intro hmem
    rw [List.take_succ_eq_append_getElem hlen] at hnodup
    exact (List.nodup_append.mp hnodup).2.2 a hmem a (List.mem_singleton.mpr rfl) rfl
  · have hrank := hdesc.rank_lt_of_mem_take hfirst
    have hsame : rank key a (above key (key x) l) = rank key a l := by
      have hx := (mem_above.mp ha).2
      rw [rank, rank, above, above, List.filter_filter]
      congr 1
      apply List.filter_congr
      intro b _
      by_cases hb : key a < key b
      · simp [hb, hx.trans hb]
      · simp [hb]
    rw [rank_newestFirst, hsame] at hrank
    exact Nat.le_of_lt_succ hrank

/-- **When catching up is enough**: exactly when what the cache cannot see does not matter. -/
theorem catchUp_eq_newest_iff (h : Held key cap l cache) (hkeys : (l.map key).Nodup)
    (hlimit : limit < cap) :
    catchUp key cap limit l cache = newest key cap l ↔ Covers key cap limit l cache := by
  cases cache with
  | nil =>
    have hempty : newest key cap l = [] ↔ l = [] := by
      rw [newest, List.take_eq_nil_iff]
      constructor
      · rintro (hzero | hnil)
        · omega
        · have hperm : (newestFirst key l).Perm l := perm_newestFirst l
          have hlen := hperm.length_eq
          rw [hnil] at hlen
          exact List.eq_nil_of_length_eq_zero hlen.symm
      · rintro rfl
        exact Or.inr rfl
    rw [catchUp, Covers, ← hempty]
    exact eq_comm
  | cons x cache =>
    have hall := descending_newestFirst hkeys
    rw [catchUp, show newest key cap l = (newestFirst key l).take cap from rfl,
      hall.take_eq_take_iff (h.fetched_sublist hkeys)]
    simp only [mem_newestFirst, rank_newestFirst]
    constructor
    · intro hlate
      constructor
      · by_contra hlong
        obtain ⟨a, ha, hx, hnot, hrank⟩ := exists_not_fetched hkeys (not_le.mp hlong)
        have hcached : a ∉ x :: cache := by
          intro hmem
          rcases List.mem_cons.mp hmem with rfl | hmem
          · exact lt_irrefl _ hx
          · exact lt_asymm hx (h.descending.lt_of_mem hmem)
        have hcap := hlate a ha (by simp [hnot, hcached] at *)
        omega
      · intro a ha hx hcached
        apply hlate a ha
        rw [List.mem_append, not_or]
        exact ⟨fun hmem => hx (mem_above.mp (newest_subset _ _ hmem)).2, hcached⟩
    · rintro ⟨hfew, hlate⟩ a ha hnot
      rw [List.mem_append, not_or] at hnot
      refine hlate a ha ?_ hnot.2
      intro hx
      have hfetched : a ∈ newest key limit (above key (key x) l) := by
        rw [newest, List.take_of_length_le (by rw [(perm_newestFirst _).length_eq]; exact hfew)]
        exact mem_newestFirst.mpr (mem_above.mpr ⟨ha, hx⟩)
      exact hnot.1 hfetched

end CatchUp

end Sentinalysis.Lib.Window
