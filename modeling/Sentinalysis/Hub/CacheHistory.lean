/-
# Sentinalysis.Hub.CacheHistory — the cache of verified keys, over all histories.

The cache keeps a map and a list of its keys side by side.  Every operation keeps them in step, and
what the map holds for a key was put there by the last insertion of it.
-/
import Sentinalysis.Hub.Auth
import Sentinalysis.Lib.Transition

namespace Sentinalysis.Hub

open Lib

namespace VerifiedCache

/-- The list has the keys of the map, each once. -/
structure Coherent (cache : VerifiedCache) : Prop where
  nodup : cache.order.Nodup
  mem_iff : ∀ k, k ∈ cache.order ↔ (cache.map k).isSome = true

variable {cache : VerifiedCache} {map : String → Option CacheEntry} {order : List String}
  {k keyId : String} {now : Instant} {principal : Principal}

/-! ## Purging and evicting -/

theorem Coherent.purge (h : Coherent cache) (clock : String → Instant) :
    Coherent (cache.purge clock) where
  nodup := h.nodup.filter _
  mem_iff k := by
    by_cases hmem : k ∈ cache.order
    · by_cases hkeep : ((cache.map k).any fun entry =>
          entry.insertedAt.elapsed (clock k) ≤ cacheTtl) = true
      · simp [VerifiedCache.purge, hmem, hkeep, (h.mem_iff k).mp hmem]
      · simp [VerifiedCache.purge, hmem, hkeep]
    · have hnone : ¬ (cache.map k).isSome = true := fun hsome => hmem ((h.mem_iff k).mpr hsome)
      simp [VerifiedCache.purge, hmem, hnone]

/-- An entry that has not expired is kept. -/
theorem map_purge_of_fresh (clock : String → Instant) {entry : CacheEntry}
    (h : cache.map k = some entry) (hfresh : entry.insertedAt.elapsed (clock k) ≤ cacheTtl) :
    (cache.purge clock).map k = some entry := by
  simp [VerifiedCache.purge, h, hfresh]

/-- The oldest key leaves the list and the map together. -/
theorem Coherent.tail {oldest : String} (h : Coherent { map := map, order := oldest :: order }) :
    Coherent { map := Function.update map oldest none, order := order } where
  nodup := h.nodup.of_cons
  mem_iff k := by
    have hmem := h.mem_iff k
    by_cases hk : k = oldest
    · have hnot : k ∉ order := hk ▸ (List.nodup_cons.mp h.nodup).1
      simp [hk ▸ hnot, hk]
    · simpa [hk] using hmem

/-- Evicting keeps the two in step. The induction is on the keys in their order. -/
theorem Coherent.evict (h : Coherent { map := map, order := order }) :
    Coherent (VerifiedCache.evict map order) := by
  induction order generalizing map with
  | nil => exact h
  | cons oldest order ih =>
    unfold VerifiedCache.evict
    split
    · exact ih h.tail
    · exact h

theorem length_evict_le (map : String → Option CacheEntry) (order : List String) :
    (evict map order).order.length ≤ cacheMaxEntries := by
  induction order generalizing map with
  | nil => exact Nat.zero_le _
  | cons oldest order ih =>
    unfold evict
    split
    · exact ih _
    · exact Nat.not_lt.mp ‹_›

/-- A cache within its size is left alone. -/
theorem evict_of_le (h : order.length ≤ cacheMaxEntries) :
    evict map order = { map := map, order := order } := by
  cases order with
  | nil => rfl
  | cons oldest order => rw [evict, if_neg (Nat.not_lt.mpr h)]

/-- The newest key is not evicted. -/
theorem map_evict_newest (hnew : k ∉ order) : (evict map (order ++ [k])).map k = map k := by
  induction order generalizing map with
  | nil =>
    have hone : [k].length ≤ cacheMaxEntries := Nat.le_of_ble_eq_true rfl
    rw [List.nil_append, evict_of_le hone]
  | cons oldest order ih =>
    obtain ⟨hne, hrest⟩ := not_or.mp (mt List.mem_cons.mpr hnew)
    rw [List.cons_append]
    unfold evict
    split
    · -- another key leaves, and with it no entry but its own
      rw [ih hrest, Function.update_of_ne hne]
    · rfl

/-! ## The operations -/

/-- What an insertion leaves to purge and evict. -/
def stamped (cache : VerifiedCache) (now : Instant) (keyId : String) (principal : Principal) :
    VerifiedCache where
  map := Function.update cache.map keyId (some { principal := principal, insertedAt := now })
  order := if keyId ∈ cache.order then cache.order else cache.order ++ [keyId]

theorem insert_eq (cache : VerifiedCache) (now : Instant) (clock : String → Instant)
    (keyId : String) (principal : Principal) :
    cache.insert now clock keyId principal =
      evict ((cache.stamped now keyId principal).purge clock).map
        ((cache.stamped now keyId principal).purge clock).order := rfl

theorem Coherent.stamped (h : Coherent cache) (now : Instant) (keyId : String)
    (principal : Principal) : Coherent (cache.stamped now keyId principal) where
  nodup := by
    unfold VerifiedCache.stamped
    split
    · exact h.nodup
    · exact List.nodup_append.mpr ⟨h.nodup, List.nodup_singleton _, by grind⟩
  mem_iff k := by
    have hmem := h.mem_iff k
    by_cases hk : k = keyId
    · subst hk
      by_cases hin : k ∈ cache.order <;> simp [VerifiedCache.stamped, hin]
    · by_cases hin : keyId ∈ cache.order <;> simp [VerifiedCache.stamped, hin, hk, hmem]

theorem Coherent.insert (h : Coherent cache) (now : Instant) (clock : String → Instant)
    (keyId : String) (principal : Principal) :
    Coherent (cache.insert now clock keyId principal) :=
  ((h.stamped now keyId principal).purge clock).evict

theorem Coherent.invalidate (h : Coherent cache) (keyId : String) :
    Coherent (cache.invalidate keyId) where
  nodup := h.nodup.filter _
  mem_iff k := by
    have hmem := h.mem_iff k
    by_cases hk : k = keyId
    · simp [VerifiedCache.invalidate, hk]
    · simp [VerifiedCache.invalidate, hk, hmem]

/-- **What was just inserted is there**, as long as the purge does not find it expired: a key that
was in the list does not lengthen it, and another one is its newest. -/
theorem map_insert_self (hsize : cache.order.length ≤ cacheMaxEntries) {clock : String → Instant}
    (hfresh : now.elapsed (clock keyId) ≤ cacheTtl) :
    (cache.insert now clock keyId principal).map keyId
      = some { principal := principal, insertedAt := now } := by
  have hstamped : (cache.stamped now keyId principal).map keyId
      = some { principal := principal, insertedAt := now } := Function.update_self ..
  have hpurged := map_purge_of_fresh clock hstamped hfresh
  rw [insert_eq]
  by_cases hin : keyId ∈ cache.order
  · -- the list is no longer than before, so that nothing is evicted, old as the key may be
    have horder : (cache.stamped now keyId principal).order = cache.order := if_pos hin
    have hlength : ((cache.stamped now keyId principal).purge clock).order.length
        ≤ cacheMaxEntries :=
      (List.length_filter_le _ _).trans (horder.symm ▸ hsize)
    rw [evict_of_le hlength]
    exact hpurged
  · -- the new key is kept by the purge, and so it stays behind the others
    let keep k := ((cache.stamped now keyId principal).map k).any fun entry =>
      entry.insertedAt.elapsed (clock k) ≤ cacheTtl
    have hkeep : keep keyId = true := by simp [keep, hstamped, hfresh]
    have horder : ((cache.stamped now keyId principal).purge clock).order
        = cache.order.filter keep ++ [keyId] := by
      show ((if keyId ∈ cache.order then cache.order else cache.order ++ [keyId]).filter keep) = _
      rw [if_neg hin, List.filter_append, List.filter_singleton, hkeep, cond_true]
    have hnew : keyId ∉ cache.order.filter keep := fun h => hin (List.mem_filter.mp h).1
    rw [horder, map_evict_newest hnew]
    exact hpurged

end VerifiedCache

/-! ## Histories -/

namespace CacheHistory

/-- An operation on the cache, with what the clock shows: an insertion reads it for the stamp, then
once for each key while it purges, and is done at `done`. -/
inductive Op
  | insert (now : Instant) (purgeAt : String → Instant) (done : Instant) (keyId : String)
      (principal : Principal)
  | invalidate (keyId : String)
  | get (now : Instant) (keyId : String)

/-- The key whose entry the operation writes. -/
def Op.writes : Op → Option String
  | .insert _ _ _ keyId _ => some keyId
  | .invalidate keyId => some keyId
  | .get _ _ => none

structure State where
  cache : VerifiedCache := {}
  /-- The last reading of the clock. -/
  clock : Instant := 0

/-- The operations under a clock that does not go back. -/
def operations : Machine State Op where
  step s
    | .insert now purgeAt done keyId principal =>
      if s.clock ≤ now ∧ ∀ k ∈ keyId :: s.cache.order, now ≤ purgeAt k ∧ purgeAt k ≤ done then
        some { cache := s.cache.insert now purgeAt keyId principal, clock := done }
      else none
    | .invalidate keyId => some { s with cache := s.cache.invalidate keyId }
    | .get now _ => if s.clock ≤ now then some { s with clock := now } else none

/-- The last operation that wrote the entry of a key inserted it. -/
def LastInserted (ops : List Op) (keyId : String) (principal : Principal) (since : Instant) : Prop :=
  ∃ before purgeAt done after,
    ops = before ++ .insert since purgeAt done keyId principal :: after ∧
      ∀ op ∈ after, op.writes ≠ some keyId

variable {ops : List Op} {op : Op} {keyId : String} {principal : Principal} {since : Instant}
  {s t : State}

theorem LastInserted.snoc (h : LastInserted ops keyId principal since)
    (hop : op.writes ≠ some keyId) : LastInserted (ops ++ [op]) keyId principal since := by
  obtain ⟨before, purgeAt, done, after, rfl, hafter⟩ := h
  refine ⟨before, purgeAt, done, after ++ [op], by simp, ?_⟩
  intro other hother
  rcases List.mem_append.mp hother with hother | hother
  · exact hafter other hother
  · exact List.mem_singleton.mp hother ▸ hop

/-- What the cache is after the operations `ops`. -/
structure Invariant (ops : List Op) (s : State) : Prop where
  coherent : s.cache.Coherent
  length_le : s.cache.order.length ≤ cacheMaxEntries
  last : ∀ keyId entry, s.cache.map keyId = some entry →
    LastInserted ops keyId entry.principal entry.insertedAt

theorem Invariant.insert (h : Invariant ops s) (now : Instant) (purgeAt : String → Instant)
    (done : Instant) (keyId : String) (principal : Principal) :
    Invariant (ops ++ [.insert now purgeAt done keyId principal])
      { cache := s.cache.insert now purgeAt keyId principal, clock := done } where
  coherent := h.coherent.insert now purgeAt keyId principal
  length_le := VerifiedCache.length_evict_le _ _
  last k entry hmap := by
    rcases VerifiedCache.map_of_insert hmap with ⟨rfl, rfl⟩ | ⟨hne, hmap⟩
    · exact ⟨ops, purgeAt, done, [], rfl, fun _ hop => (List.not_mem_nil hop).elim⟩
    · exact (h.last k entry hmap).snoc fun heq => hne (Option.some.inj heq).symm

theorem Invariant.invalidate (h : Invariant ops s) (keyId : String) :
    Invariant (ops ++ [.invalidate keyId]) { s with cache := s.cache.invalidate keyId } where
  coherent := h.coherent.invalidate keyId
  length_le := (List.length_filter_le _ _).trans h.length_le
  last k entry hmap := by
    obtain ⟨hne, hmap⟩ := VerifiedCache.map_of_invalidate hmap
    exact (h.last k entry hmap).snoc fun heq => hne (Option.some.inj heq).symm

theorem Invariant.get (h : Invariant ops s) (now : Instant) (keyId : String) :
    Invariant (ops ++ [.get now keyId]) { s with clock := now } where
  coherent := h.coherent
  length_le := h.length_le
  last k entry hmap := (h.last k entry hmap).snoc (by simp [Op.writes])

theorem invariant_of_run (hrun : operations.Run {} ops s) : Invariant ops s := by
  refine hrun.invariant_history ?_ ?_
  · refine ⟨⟨List.nodup_nil, fun k => ?_⟩, Nat.zero_le _, fun k entry hmap => ?_⟩
    · simp
    · cases hmap
  · intro ops s op t h hstep
    cases op with
    | insert now purgeAt done keyId principal =>
      simp only [operations, Option.ite_none_right_eq_some, Option.some.injEq] at hstep
      obtain ⟨-, rfl⟩ := hstep
      exact h.insert now purgeAt done keyId principal
    | invalidate keyId =>
      obtain rfl := Option.some.inj hstep
      exact h.invalidate keyId
    | get now keyId =>
      simp only [operations, Option.ite_none_right_eq_some, Option.some.injEq] at hstep
      obtain ⟨-, rfl⟩ := hstep
      exact h.get now keyId

/-- **The cache is well formed and never stale.**  After every history it lists the keys it holds,
each once and no more than a thousand; a hit is the caller of the last insertion, which was not
invalidated since and is no older than the time to live, whatever was read in between; and what is
inserted next is hit until that time is over, even if the cache was full. -/
theorem verifiedCache_neverStale (hrun : operations.Run {} ops s) :
    s.cache.Coherent ∧
      s.cache.order.length ≤ 1000 ∧
      (∀ keyId now principal, s.clock ≤ now → s.cache.get now keyId = some principal →
        ∃ since, LastInserted ops keyId principal since ∧ now ≤ since + cacheTtl) ∧
      ∀ now purgeAt done keyId principal t,
        operations.step s (.insert now purgeAt done keyId principal) = some t →
          ∀ readAt, t.clock ≤ readAt → readAt ≤ now + cacheTtl →
            t.cache.get readAt keyId = some principal := by
  have h := invariant_of_run hrun
  refine ⟨h.coherent, h.length_le, ?_, ?_⟩
  · intro keyId now principal _ hget
    obtain ⟨entry, hmap, hfresh, rfl⟩ := VerifiedCache.get_eq_some_iff.mp hget
    exact ⟨entry.insertedAt, h.last keyId entry hmap, Nat.sub_le_iff_le_add'.mp hfresh⟩
  · intro now purgeAt done keyId principal t hstep readAt hread hage
    simp only [operations, Option.ite_none_right_eq_some, Option.some.injEq] at hstep
    obtain ⟨⟨-, hclock⟩, rfl⟩ := hstep
    obtain ⟨hstart, hend⟩ := hclock keyId List.mem_cons_self
    -- the purge sees the key no older than the hit does
    have hpurge : now.elapsed (purgeAt keyId) ≤ cacheTtl :=
      Nat.sub_le_iff_le_add'.mpr ((hend.trans hread).trans hage)
    refine VerifiedCache.get_eq_some_iff.mpr
      ⟨_, VerifiedCache.map_insert_self h.length_le hpurge, ?_, rfl⟩
    exact Nat.sub_le_iff_le_add'.mpr hage

private def dashboard : Principal :=
  { keyId := "12ab34cd", permissions := [.ReadDashboard], agentId := none, hostname := none,
    appName := none }

/-- Sixty seconds after its insertion a key is still hit, although it was read in between. -/
theorem verifiedCache_neverStale_lastMoment :
    ∃ s, operations.Run {}
        [.insert 0 (fun _ => 0) 0 "12ab34cd" dashboard, .get 7 "12ab34cd"] s ∧
      s.cache.get cacheTtl "12ab34cd" = some dashboard ∧
      ∃ since, LastInserted [.insert 0 (fun _ => 0) 0 "12ab34cd" dashboard, .get 7 "12ab34cd"]
        "12ab34cd" dashboard since ∧ cacheTtl ≤ since + cacheTtl := by
  have hexec : (operations.exec {}
      [.insert 0 (fun _ => 0) 0 "12ab34cd" dashboard, .get 7 "12ab34cd"]).any
        (fun s => s.clock ≤ cacheTtl ∧
          s.cache.get cacheTtl "12ab34cd" = some dashboard) = true := by decide
  obtain ⟨s, hrun, hend⟩ := Machine.exists_run_any hexec
  obtain ⟨hclock, hget⟩ := of_decide_eq_true hend
  exact ⟨s, hrun, hget, (verifiedCache_neverStale hrun).2.2.1 _ _ _ hclock hget⟩

end CacheHistory

end Sentinalysis.Hub
