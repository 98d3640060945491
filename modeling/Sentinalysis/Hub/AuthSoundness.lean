/-
# Sentinalysis.Hub.AuthSoundness — who vouches for an accepted key, over all histories of calls.

An accepted key was verified by the call itself, or the cache answered for it.  The cache knows a
key by its `key_id`: what it vouches for is that some key with this `key_id` was verified not long
ago, not that it was this one.
-/
import Sentinalysis.Hub.Auth
import Sentinalysis.Lib.Transition

namespace Sentinalysis.Hub.AuthService

open Lib Db

/-- One call: the key, what it met and what it returned. -/
structure Call where
  rawKey : String
  env : Surroundings
  result : Except AuthError Principal

/-- What happens to the service, oldest first in a history. -/
inductive Event
  | authenticated (call : Call)
  | invalidated (keyId : String)

structure State where
  cache : VerifiedCache := {}
  history : List Event := []

inductive Label
  | authenticate (rawKey : String) (env : Surroundings)
  | invalidate (keyId : String)

/-- The service: calls to `authenticate` and `invalidate`, in any order. -/
def run (argon2 : Argon2) : Machine State Label where
  step s
    | .authenticate rawKey env =>
      let (result, cache) := authenticate argon2 env s.cache rawKey
      some { cache := cache
             history := s.history ++ [.authenticated { rawKey := rawKey, env := env, result := result }] }
    | .invalidate keyId =>
      some { cache := s.cache.invalidate keyId, history := s.history ++ [.invalidated keyId] }

/-- The call verified its own key. -/
def Call.Verified (argon2 : Argon2) (call : Call) (principal : Principal) : Prop :=
  Hub.Verified argon2 call.env call.rawKey principal

/-- A caller is vouched for from an instant on: a call accepted a key that it verified, was cached
at that instant, and its `key_id` was not invalidated since. -/
def Vouched (argon2 : Argon2) (history : List Event) (principal : Principal) (since : Instant) :
    Prop :=
  ∃ before call between, history = before ++ .authenticated call :: between ∧
    call.result = .ok principal ∧ call.Verified argon2 principal ∧ call.env.insertAt = since ∧
    .invalidated principal.keyId ∉ between

/-- An accepted key has the `key_id` of the caller; it was verified by the call, or the caller was
vouched for within the last minute. -/
def Accepted (argon2 : Argon2) (history : List Event) : Prop :=
  ∀ before call after principal, history = before ++ .authenticated call :: after →
    call.result = .ok principal → parseKeyId call.rawKey = some principal.keyId ∧
      (call.Verified argon2 principal ∨
        ∃ since, Vouched argon2 before principal since ∧ call.env.readAt ≤ since + cacheTtl)

/-- Soundness of authentication. -/
structure Sound (argon2 : Argon2) (history : List Event) : Prop where
  accepted : Accepted argon2 history
  /-- As long as the table is the same, one key at most is verified for a `key_id`. -/
  oneKey : ∀ call call' principal principal', .authenticated call ∈ history →
    .authenticated call' ∈ history → call.env.keys = call'.env.keys →
    call.Verified argon2 principal → call'.Verified argon2 principal' →
    principal.keyId = principal'.keyId → call.rawKey = call'.rawKey

variable {argon2 : Argon2} {history : List Event} {principal : Principal} {since : Instant}

theorem Vouched.snoc {event : Event} (h : Vouched argon2 history principal since)
    (hevent : event ≠ .invalidated principal.keyId) :
    Vouched argon2 (history ++ [event]) principal since := by
  obtain ⟨before, call, between, rfl, hresult, hverified, hsince, hnone⟩ := h
  refine ⟨before, call, between ++ [event], by simp, hresult, hverified, hsince, ?_⟩
  rw [List.mem_append, List.mem_singleton, not_or]
  exact ⟨hnone, fun heq => hevent heq.symm⟩

/-- Two rows of one table with the same `key_id` are one row, and its hash is verified by one
key. -/
theorem rawKey_eq_of_verified (hone : argon2.OneKey) {call call' : Call} {principal' : Principal}
    (hkeys : call.env.keys = call'.env.keys) (h : call.Verified argon2 principal)
    (h' : call'.Verified argon2 principal') (hid : principal.keyId = principal'.keyId) :
    call.rawKey = call'.rawKey := by
  obtain ⟨keys, row, htable, hrow, hrowId, -, hpassword, -⟩ := h.row
  obtain ⟨keys', row', htable', hrow', hrowId', -, hpassword', -⟩ := h'.row
  have hsame : keys' = keys := Except.ok.inj (htable'.symm.trans (hkeys.symm.trans htable))
  subst hsame
  have hrows : row = row' := keys'.eq_of_name_eq hrow hrow' (by rw [hrowId, hid, hrowId'])
  subst hrows
  exact hone _ _ _ hpassword hpassword'

/-- Every cached caller is vouched for, under the `key_id` it is cached by. -/
structure Invariant (argon2 : Argon2) (s : State) : Prop where
  cached : ∀ keyId entry, s.cache.map keyId = some entry →
    entry.principal.keyId = keyId ∧ Vouched argon2 s.history entry.principal entry.insertedAt
  accepted : Accepted argon2 s.history

/-- The last event of a history, or one before it. -/
theorem of_snoc_eq {before after : List Event} {last event : Event}
    (h : history ++ [last] = before ++ event :: after) :
    (before = history ∧ event = last) ∨ ∃ after', history = before ++ event :: after' := by
  cases after using List.reverseRecOn with
  | nil =>
    obtain ⟨hbefore, hlast⟩ := List.append_inj' h rfl
    exact Or.inl ⟨hbefore.symm, (List.singleton_inj.mp hlast).symm⟩
  | append_singleton after a =>
    rw [← List.cons_append, ← List.append_assoc] at h
    exact Or.inr ⟨after, (List.append_inj' h rfl).1⟩

/-- A call keeps the invariant. -/
theorem Invariant.authenticate {s : State} (h : Invariant argon2 s) (rawKey : String)
    (env : Surroundings) {t : State} (hstep : (run argon2).step s (.authenticate rawKey env) = some t) :
    Invariant argon2 t := by
  have hkept : ∀ keyId entry event, s.cache.map keyId = some entry →
      event ≠ .invalidated entry.principal.keyId → entry.principal.keyId = keyId ∧
        Vouched argon2 (s.history ++ [event]) entry.principal entry.insertedAt := by
    intro keyId entry event hmap hevent
    obtain ⟨hid, hvouched⟩ := h.cached keyId entry hmap
    exact ⟨hid, hvouched.snoc hevent⟩
  simp only [run, Option.some.injEq] at hstep
  subst hstep
  rcases authenticate_cases argon2 env s.cache rawKey with
    ⟨e, hcall⟩ | ⟨keyId, principal, hparse, hget, hcall⟩ | ⟨principal, hverified, hcall⟩
  · -- the call fails
    rw [hcall]
    refine ⟨fun keyId entry hmap => hkept keyId entry _ hmap (by simp), ?_⟩
    intro before call after principal heq hresult
    rcases of_snoc_eq heq with ⟨-, hlast⟩ | ⟨after', hbefore⟩
    · obtain rfl := Event.authenticated.inj hlast
      cases hresult
    · exact h.accepted _ _ _ _ hbefore hresult
  · -- the cache answers
    rw [hcall]
    refine ⟨fun keyId entry hmap => hkept keyId entry _ hmap (by simp), ?_⟩
    intro before call after accepted heq hresult
    rcases of_snoc_eq heq with ⟨hbefore, hlast⟩ | ⟨after', hbefore⟩
    · obtain rfl := Event.authenticated.inj hlast
      obtain rfl : principal = accepted := Except.ok.inj hresult
      obtain ⟨entry, hmap, hfresh, rfl⟩ := VerifiedCache.get_eq_some_iff.mp hget
      obtain ⟨hid, hvouched⟩ := h.cached keyId entry hmap
      refine ⟨hparse.trans (congrArg some hid.symm), Or.inr ⟨entry.insertedAt, ?_, ?_⟩⟩
      · rw [hbefore]
        exact hvouched
      · exact Nat.sub_le_iff_le_add'.mp hfresh
    · exact h.accepted _ _ _ _ hbefore hresult
  · -- the key is verified and the caller cached
    rw [hcall]
    refine ⟨?_, ?_⟩
    · intro keyId entry hmap
      rcases VerifiedCache.map_of_insert hmap with ⟨rfl, rfl⟩ | ⟨-, hmap⟩
      · refine ⟨rfl, s.history, _, [], rfl, rfl, hverified, rfl, List.not_mem_nil⟩
      · exact hkept keyId entry _ hmap (by simp)
    · intro before call after accepted heq hresult
      rcases of_snoc_eq heq with ⟨-, hlast⟩ | ⟨after', hbefore⟩
      · obtain rfl := Event.authenticated.inj hlast
        obtain rfl : principal = accepted := Except.ok.inj hresult
        exact ⟨hverified.wellformed, Or.inl hverified⟩
      · exact h.accepted _ _ _ _ hbefore hresult

/-- An invalidation keeps the invariant. -/
theorem Invariant.invalidate {s : State} (h : Invariant argon2 s) (keyId : String) {t : State}
    (hstep : (run argon2).step s (.invalidate keyId) = some t) : Invariant argon2 t := by
  simp only [run, Option.some.injEq] at hstep
  subst hstep
  refine ⟨?_, ?_⟩
  · intro k entry hmap
    obtain ⟨hne, hmap⟩ := VerifiedCache.map_of_invalidate hmap
    obtain ⟨hid, hvouched⟩ := h.cached k entry hmap
    refine ⟨hid, hvouched.snoc ?_⟩
    intro heq
    exact hne (hid.symm.trans (Event.invalidated.inj heq).symm)
  · intro before call after principal heq hresult
    rcases of_snoc_eq heq with ⟨-, hlast⟩ | ⟨after', hbefore⟩
    · cases hlast
    · exact h.accepted _ _ _ _ hbefore hresult

/-- **Every accepted key is vouched for**, in every history of calls and invalidations, whatever
the table holds at each call. -/
theorem authenticate_sound (hone : argon2.OneKey) {labels : List Label} {t : State}
    (hrun : (run argon2).Run {} labels t) : Sound argon2 t.history := by
  have hinv : Invariant argon2 t := by
    refine hrun.invariant ⟨fun _ _ h => (by cases h), fun before _ _ _ h => ?_⟩ ?_
    · cases before <;> cases h
    · intro s label u hs hstep
      cases label with
      | authenticate rawKey env => exact hs.authenticate rawKey env hstep
      | invalidate keyId => exact hs.invalidate keyId hstep
  refine ⟨hinv.accepted, ?_⟩
  intro call call' principal principal' _ _ hkeys hverified hverified' hid
  exact rawKey_eq_of_verified hone hkeys hverified hverified' hid

/-! ## Two keys with one `key_id` -/

/-- A hash that shows the key it was made from. -/
def plainHash : Argon2 where
  parseError _ := none
  verifyPassword rawKey hash := hash == "$argon2id$" ++ rawKey

theorem plainHash_oneKey : plainHash.OneKey := by
  intro hash raw raw' h h'
  have heq : "$argon2id$" ++ raw = "$argon2id$" ++ raw' :=
    (eq_of_beq h).symm.trans (eq_of_beq h')
  have hlist := congrArg String.toList heq
  rw [String.toList_append, String.toList_append] at hlist
  exact String.toList_inj.mp (List.append_cancel_left hlist)

/-- The key of an agent. -/
def agentKey : String := "snt_a1b2c3d4_0123456789abcdefghijklmnopqrstuvwxyzABCDEFG"

/-- The same `key_id` with another secret. -/
def forgedKey : String := "snt_a1b2c3d4_gfedcbaZYXWVUTSRQPONMLKJIHGFEDCBA9876543210"

def agentRow : ApiKeyRow where
  id := 1
  name := "agent vps1"
  hash := "$argon2id$" ++ agentKey
  permissions := ["ingest:logs"]
  keyId := "a1b2c3d4"
  agentId := some "agent-1"
  hostname := some "vps1"
  appName := none
  revokedAt := none

/-- The table with the agent's row, at an instant. -/
def atInstant (now : Instant) : Surroundings where
  readAt := now
  keys := .ok { rows := [agentRow], ids := List.nodup_singleton _, names := List.nodup_singleton _ }
  insertAt := now
  purgeAt := fun _ => now

/-- Both keys are used, one second apart. -/
def bothKeys : List Label :=
  [.authenticate agentKey (atInstant 0), .authenticate forgedKey (atInstant 1000000000)]

/-- The agent's key is verified and the other one vouched for. -/
theorem authenticate_sound_bothKeys :
    ∃ t, (run plainHash).Run {} bothKeys t ∧ Sound plainHash t.history :=
  have hrun : (run plainHash).Run {} bothKeys _ := Machine.Run.cons rfl (Machine.Run.cons rfl .nil)
  ⟨_, hrun, authenticate_sound plainHash_oneKey hrun⟩

/-- The key with the other secret is accepted, although it does not pass against the hash of the
row with its `key_id`. -/
theorem forgedKey_accepted : plainHash.OneKey ∧
    ∃ t call principal, (run plainHash).Run {} bothKeys t ∧ .authenticated call ∈ t.history ∧
      call.rawKey = forgedKey ∧ parseKeyId agentKey = parseKeyId forgedKey ∧
      call.result = .ok principal ∧ ∃ keys, call.env.keys = .ok keys ∧
        ∀ row ∈ keys.rows, row.keyId = principal.keyId →
          plainHash.verifyPassword call.rawKey row.hash = false := by
  let first := authenticate plainHash (atInstant 0) {} agentKey
  have hresult : (authenticate plainHash (atInstant 1000000000) first.2 forgedKey).1
      = .ok (principalFromRow agentRow) := by decide +kernel
  refine ⟨plainHash_oneKey, _, _, _, Machine.Run.cons rfl (Machine.Run.cons rfl .nil),
    List.mem_append_right _ (List.mem_singleton.mpr rfl), rfl, by decide +kernel, hresult, _, rfl,
    ?_⟩
  intro row hrow _
  rw [List.mem_singleton.mp hrow]
  decide

end Sentinalysis.Hub.AuthService
