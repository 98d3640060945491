/-
# Sentinalysis.Hub.Revocation — a key is revoked while calls that carry it are on their way.

A call to `authenticate` is not one step: it reads the cache, waits for the table, hashes, and only
then writes the cache.  Here every one of these is a step of its own, calls are taken in any number
and in any order, and `revoke` and `invalidate` fall between any two of their steps.  A call that
found its row before the key was revoked still writes the cache after the key was invalidated.
-/
import Sentinalysis.Hub.AuthSoundness

namespace Sentinalysis.Hub.Revocation

open Lib Db
open AuthService (plainHash agentKey agentRow)

/-! ## Calls on their way -/

/-- Where a call is. -/
inductive Phase
  /-- The key has its format. -/
  | called (keyId : String)
  /-- The cache does not know the `key_id`. -/
  | missed (keyId : String)
  /-- The table has a row for it. -/
  | found (row : ApiKeyRow)
  /-- The key passed against the hash of the row. -/
  | verified (row : ApiKeyRow)
  | returned (result : Except AuthError Principal)

/-- What a call does next, and what it meets. -/
inductive Act
  | readCache
  | find (failure : Option SentinelError)
  | verify
  | insert (purgeAt : String → Instant)

/-- One step of `authenticate`: the phase after it, and the cache. -/
def advance (argon2 : Argon2) (keys : ApiKeys) (now : Instant) (cache : VerifiedCache)
    (rawKey : String) : Phase → Act → Option (Phase × VerifiedCache)
  | .called keyId, .readCache => match cache.get now keyId with
    | some principal => some (.returned (.ok principal), cache)
    | none => some (.missed keyId, cache)
  | .missed keyId, .find failure => match failure with
    | some e => some (.returned (.error (.Storage e.display)), cache)
    | none => match ApiKeyRepository.findActiveByKeyId keys keyId with
      | none => some (.returned (.error .UnknownKey), cache)
      | some row => some (.found row, cache)
  | .found row, .verify => match verifyHash argon2 row.hash rawKey with
    | .error _ => some (.returned (.error .BadSignature), cache)
    | .ok () => some (.verified row, cache)
  | .verified row, .insert purgeAt =>
    let principal := principalFromRow row
    some (.returned (.ok principal), cache.insert now purgeAt row.keyId principal)
  | _, _ => none

/-- A call; it is late when its key was revoked and then invalidated before the call started. -/
structure Call where
  rawKey : String
  late : Bool
  phase : Phase

/-- The service, its table, and the calls in the order they started.  `revoked` are the keys for
which `revoke` has returned, `told` those for which `invalidate` has returned after that. -/
structure State where
  keys : ApiKeys
  cache : VerifiedCache := {}
  now : Instant := 0
  revoked : List String := []
  told : List String := []
  calls : List Call := []

inductive Label
  | tick (nanos : ℕ)
  | start (rawKey : String)
  | act (id : ℕ) (act : Act)
  | revoke (keyId : String) (result : Except SentinelError DateTime)
  | invalidate (keyId : String)

/-- A call that starts: a key without the format is refused at once. -/
def Call.start (told : List String) (rawKey : String) : Call where
  rawKey := rawKey
  late := (parseKeyId rawKey).any (· ∈ told)
  phase := match parseKeyId rawKey with
    | none => .returned (.error .Malformed)
    | some keyId => .called keyId

/-- All the interleavings of calls with `revoke` and `invalidate`. -/
def interleaving (argon2 : Argon2) : Machine State Label where
  step s
    | .tick nanos => some { s with now := s.now + nanos }
    | .start rawKey => some { s with calls := s.calls ++ [Call.start s.told rawKey] }
    | .act id act =>
      match s.calls[id]? with
      | none => none
      | some call =>
        match advance argon2 s.keys s.now s.cache call.rawKey call.phase act with
        | none => none
        | some (phase, cache) =>
          some { s with cache := cache, calls := s.calls.set id { call with phase := phase } }
    | .revoke keyId result =>
      match result with
      | .error _ => some s
      | .ok now =>
        some { s with
          keys := (ApiKeyRepository.revoke s.keys keyId now).2
          revoked := keyId :: s.revoked }
    | .invalidate keyId =>
      some { s with
        cache := s.cache.invalidate keyId
        told := if keyId ∈ s.revoked then keyId :: s.told else s.told }

/-- A step of a call is a step of its phase. -/
theorem step_act_eq_some_iff {argon2 : Argon2} {s t : State} {id : ℕ} {act : Act} :
    (interleaving argon2).step s (.act id act) = some t ↔ ∃ call phase cache,
      s.calls[id]? = some call ∧
      advance argon2 s.keys s.now s.cache call.rawKey call.phase act = some (phase, cache) ∧
      t = { s with cache := cache, calls := s.calls.set id { call with phase := phase } } := by
  simp only [interleaving]
  cases hget : s.calls[id]? with
  | none => simp
  | some call =>
    cases hnext : advance argon2 s.keys s.now s.cache call.rawKey call.phase act with
    | none => simp [hnext]
    | some next =>
      obtain ⟨phase, cache⟩ := next
      simp [hnext, eq_comm]

/-! ## A call that nothing interrupts -/

section Alone

variable {argon2 : Argon2} {s : State} {labels : List Label} {call : Call} {phase : Phase}
  {cache : VerifiedCache}

/-- The service with one more call, in a phase. -/
def State.withCall (s : State) (call : Call) (phase : Phase) (cache : VerifiedCache) : State :=
  { s with cache := cache, calls := s.calls ++ [{ call with phase := phase }] }

theorem run_withCall_snoc {s₀ : State} {phase' : Phase} {cache' : VerifiedCache}
    (hrun : (interleaving argon2).Run s₀ labels (s.withCall call phase cache)) (act : Act)
    (h : advance argon2 s.keys s.now cache call.rawKey phase act = some (phase', cache')) :
    ∃ labels, (interleaving argon2).Run s₀ labels (s.withCall call phase' cache') := by
  have hget : (s.withCall call phase cache).calls[s.calls.length]?
      = some { call with phase := phase } := List.getElem?_concat_length
  have hstep : (interleaving argon2).step (s.withCall call phase cache)
      (.act s.calls.length act) = some (s.withCall call phase' cache') := by
    refine step_act_eq_some_iff.mpr ⟨_, _, _, hget, h, ?_⟩
    simp [State.withCall]
  exact ⟨_, hrun.snoc hstep⟩

/-- **The steps of a call with nothing in between are `authenticate`.** -/
theorem authenticate_of_steps (argon2 : Argon2) (s : State) (rawKey : String)
    (purgeAt : String → Instant) :
    ∃ labels, (interleaving argon2).Run s labels
      (s.withCall (Call.start s.told rawKey)
        (.returned (authenticate argon2 ⟨s.now, .ok s.keys, s.now, purgeAt⟩ s.cache rawKey).1)
        (authenticate argon2 ⟨s.now, .ok s.keys, s.now, purgeAt⟩ s.cache rawKey).2) := by
  have hstart : (interleaving argon2).Run s [.start rawKey]
      (s.withCall (Call.start s.told rawKey) (Call.start s.told rawKey).phase s.cache) :=
    Machine.Run.nil.snoc rfl
  -- The call goes on for as long as `authenticate` does not return.
  unfold authenticate
  cases hparse : parseKeyId rawKey with
  | none =>
    simp only [Call.start, hparse] at hstart ⊢
    exact ⟨_, hstart⟩
  | some keyId =>
    have hcalled : (Call.start s.told rawKey).phase = .called keyId := by
      simp only [Call.start, hparse]
    rw [hcalled] at hstart
    cases hget : s.cache.get s.now keyId with
    | some principal =>
      refine run_withCall_snoc hstart .readCache ?_
      simp only [advance, hget]
    | none =>
      obtain ⟨_, hmissed⟩ := run_withCall_snoc hstart .readCache
        (show _ = some (.missed keyId, s.cache) by simp only [advance, hget])
      cases hfind : ApiKeyRepository.findActiveByKeyId s.keys keyId with
      | none =>
        refine run_withCall_snoc hmissed (.find none) ?_
        simp only [advance, hget, hfind]
      | some row =>
        obtain ⟨_, hfound⟩ := run_withCall_snoc hmissed (.find none)
          (show _ = some (.found row, s.cache) by simp only [advance, hfind])
        cases hverify : verifyHash argon2 row.hash rawKey with
        | error e =>
          refine run_withCall_snoc hfound .verify ?_
          simp only [advance, Call.start, hget, hfind, hverify]
        | ok _ =>
          obtain ⟨_, hverified⟩ := run_withCall_snoc hfound .verify
            (show _ = some (.verified row, s.cache) by simp only [advance, Call.start, hverify])
          refine run_withCall_snoc hverified (.insert purgeAt) ?_
          simp only [advance, hget, hfind, hverify]

end Alone

/-! ## Calls that start after the key was revoked and invalidated -/

/-- A call that cannot be accepted any more: it has not come further than the cache, or it was
refused. -/
def Phase.Refused (told : List String) : Phase → Prop
  | .called keyId | .missed keyId => keyId ∈ told
  | .found _ | .verified _ => False
  | .returned result => ∃ e, result = .error e

/-- The call has returned, and its key is accepted. -/
def Phase.accepted : Phase → Bool
  | .returned (.ok _) => true
  | _ => false

theorem Phase.Refused.accepted_eq_false {told : List String} {phase : Phase}
    (h : phase.Refused told) : phase.accepted = false := by
  cases phase with
  | returned result => obtain ⟨e, rfl⟩ := h; rfl
  | _ => rfl

/-- The late calls fail. -/
def LateCallsFail (s : State) : Prop :=
  ∀ call ∈ s.calls, call.late = true → call.phase.accepted = false

/-- The key that the next step of a call writes into the cache. -/
def Phase.writes : Phase → Option String
  | .verified row => some row.keyId
  | _ => none

/-- No call writes the cache with a key that was revoked and invalidated while the call was on its
way. -/
def NoStaleInsert (s : State) : Label → Prop
  | .act id (.insert _) => ∀ call ∈ s.calls[id]?, ∀ keyId ∈ call.phase.writes, keyId ∉ s.told
  | _ => True

instance (s : State) : ∀ label, Decidable (NoStaleInsert s label)
  | .act id (.insert _) =>
    inferInstanceAs (Decidable (∀ call ∈ s.calls[id]?, ∀ keyId ∈ call.phase.writes, keyId ∉ s.told))
  | .act _ .readCache | .act _ (.find _) | .act _ .verify => inferInstanceAs (Decidable True)
  | .tick _ | .start _ | .revoke _ _ | .invalidate _ => inferInstanceAs (Decidable True)

/-- What holds as long as no call writes such a key. -/
structure Invariant (s : State) : Prop where
  inactive : ∀ k ∈ s.revoked, ApiKeyRepository.findActiveByKeyId s.keys k = none
  revoked : ∀ k ∈ s.told, k ∈ s.revoked
  uncached : ∀ k ∈ s.told, s.cache.map k = none
  late : ∀ call ∈ s.calls, call.late = true → call.phase.Refused s.told

variable {argon2 : Argon2} {keys : ApiKeys} {now : Instant} {cache cache' : VerifiedCache}
  {rawKey : String} {phase phase' : Phase} {act : Act} {told : List String}

/-- Only the last step of a call writes the cache. -/
theorem cache_of_advance
    (h : advance argon2 keys now cache rawKey phase act = some (phase', cache')) :
    cache' = cache ∨ ∃ row purgeAt, phase = .verified row ∧ act = .insert purgeAt ∧
      cache' = cache.insert now purgeAt row.keyId (principalFromRow row) := by
  cases phase with
  | called keyId =>
    cases act with
    | readCache => left; simp only [advance] at h; split at h <;> cases h <;> rfl
    | _ => cases h
  | missed keyId =>
    cases act with
    | find failure =>
      left
      cases failure with
      | some e => cases h; rfl
      | none => simp only [advance] at h; split at h <;> cases h <;> rfl
    | _ => cases h
  | found row =>
    cases act with
    | verify => left; simp only [advance] at h; split at h <;> cases h <;> rfl
    | _ => cases h
  | verified row =>
    cases act with
    | insert purgeAt => cases h; exact Or.inr ⟨row, purgeAt, rfl, rfl, rfl⟩
    | _ => cases h
  | returned result => cases act <;> cases h

/-- A call whose key is neither in the cache nor active in the table stays refused. -/
theorem refused_of_advance (huncached : ∀ k ∈ told, cache.map k = none)
    (hinactive : ∀ k ∈ told, ApiKeyRepository.findActiveByKeyId keys k = none)
    (hphase : phase.Refused told)
    (h : advance argon2 keys now cache rawKey phase act = some (phase', cache')) :
    phase'.Refused told := by
  cases phase with
  | called keyId =>
    have hget : cache.get now keyId = none := by
      simp only [VerifiedCache.get, huncached keyId hphase]
    cases act with
    | readCache =>
      simp only [advance, hget] at h
      cases h
      exact hphase
    | _ => cases h
  | missed keyId =>
    cases act with
    | find failure =>
      cases failure with
      | some e => cases h; exact ⟨_, rfl⟩
      | none =>
        simp only [advance, hinactive keyId hphase] at h
        cases h
        exact ⟨_, rfl⟩
    | _ => cases h
  | found row => exact hphase.elim
  | verified row => exact hphase.elim
  | returned result => cases act <;> cases h

theorem Phase.Refused.mono {told' : List String} (h : phase.Refused told)
    (hsub : ∀ k ∈ told, k ∈ told') : phase.Refused told' := by
  cases phase with
  | called keyId => exact hsub keyId h
  | missed keyId => exact hsub keyId h
  | found row => exact h
  | verified row => exact h
  | returned result => exact h

/-- A call that starts late is refused or on its way to the cache. -/
theorem refused_of_start (h : (Call.start told rawKey).late = true) :
    (Call.start told rawKey).phase.Refused told := by
  unfold Call.start at *
  cases hparse : parseKeyId rawKey with
  | none => exact ⟨_, rfl⟩
  | some keyId =>
    simp only [hparse, Option.any_some, decide_eq_true_eq] at h
    exact h

section Steps

variable {s t : State}

theorem Invariant.step_act {id : ℕ} (hs : Invariant s) (hfresh : NoStaleInsert s (.act id act))
    (hstep : (interleaving argon2).step s (.act id act) = some t) : Invariant t := by
  obtain ⟨call, phase, cache, hget, hadvance, rfl⟩ := step_act_eq_some_iff.mp hstep
  refine ⟨hs.inactive, hs.revoked, ?_, ?_⟩
  · intro k hk
    show cache.map k = none
    rcases cache_of_advance hadvance with rfl | ⟨row, purgeAt, hphase, rfl, rfl⟩
    · exact hs.uncached k hk
    · -- What the call writes was not revoked and invalidated on its way.
      have hrow : row.keyId ∉ s.told := by
        refine hfresh call hget row.keyId ?_
        rw [hphase]
        rfl
      rw [Option.eq_none_iff_forall_ne_some]
      intro entry hentry
      rcases VerifiedCache.map_of_insert hentry with ⟨rfl, -⟩ | ⟨-, hold⟩
      · exact hrow hk
      · rw [hs.uncached k hk] at hold
        cases hold
  · intro other hother hlate
    rcases List.mem_or_eq_of_mem_set hother with hold | rfl
    · exact hs.late other hold hlate
    · have hcall : call ∈ s.calls := List.mem_of_getElem? hget
      refine refused_of_advance hs.uncached ?_ (hs.late call hcall hlate) hadvance
      intro k hk
      exact hs.inactive k (hs.revoked k hk)

theorem Invariant.revoke {keyId : String} {result : Except SentinelError DateTime}
    (hs : Invariant s) (hstep : (interleaving argon2).step s (.revoke keyId result) = some t) :
    Invariant t := by
  cases result with
  | error e => cases hstep; exact hs
  | ok now =>
    cases hstep
    refine ⟨?_, ?_, hs.uncached, hs.late⟩
    · intro k hk
      rcases List.mem_cons.mp hk with rfl | hk
      · exact ApiKeyRepository.findActiveByKeyId_revoke_self s.keys k now
      · exact ApiKeyRepository.findActiveByKeyId_revoke_of_none (hs.inactive k hk) keyId now
    · intro k hk
      exact List.mem_cons_of_mem _ (hs.revoked k hk)

theorem Invariant.invalidate {keyId : String} (hs : Invariant s)
    (hstep : (interleaving argon2).step s (.invalidate keyId) = some t) : Invariant t := by
  cases hstep
  have huncached : ∀ k, s.cache.map k = none → (s.cache.invalidate keyId).map k = none := by
    intro k hk
    rw [Option.eq_none_iff_forall_ne_some]
    intro entry hentry
    rw [(VerifiedCache.map_of_invalidate hentry).2] at hk
    cases hk
  have hself : (s.cache.invalidate keyId).map keyId = none := Function.update_self _ _ _
  by_cases hrevoked : keyId ∈ s.revoked
  · simp only [hrevoked, if_true]
    refine ⟨hs.inactive, ?_, ?_, ?_⟩
    · intro k hk
      rcases List.mem_cons.mp hk with rfl | hk
      · exact hrevoked
      · exact hs.revoked k hk
    · intro k hk
      rcases List.mem_cons.mp hk with rfl | hk
      · exact hself
      · exact huncached k (hs.uncached k hk)
    · intro call hcall hlate
      exact (hs.late call hcall hlate).mono fun k => List.mem_cons_of_mem _
  · simp only [hrevoked, if_false]
    exact ⟨hs.inactive, hs.revoked, fun k hk => huncached k (hs.uncached k hk), hs.late⟩

end Steps

/-- **Revocation is immediate** in every interleaving in which no call writes the cache with a key
that was revoked and invalidated while the call was on its way: the calls that start later fail. -/
theorem lateCallsFail_of_noStaleInsert {labels : List Label} {t : State}
    (hrun : (interleaving argon2).Run { keys := keys } labels t)
    (hfresh : (interleaving argon2).Along NoStaleInsert { keys := keys } labels) :
    LateCallsFail t := by
  have hinv : Invariant t := by
    refine hrun.invariant_along (I := fun _ t => Invariant t) hfresh ?_ ?_
    · exact ⟨fun _ hk => (by cases hk), fun _ hk => (by cases hk), fun _ hk => (by cases hk),
        fun _ hcall => (by cases hcall)⟩
    · intro _ s label u hs hcond hstep
      cases label with
      | tick nanos => cases hstep; exact ⟨hs.inactive, hs.revoked, hs.uncached, hs.late⟩
      | start rawKey =>
        cases hstep
        refine ⟨hs.inactive, hs.revoked, hs.uncached, ?_⟩
        intro call hcall hlate
        rcases List.mem_append.mp hcall with hold | hnew
        · exact hs.late call hold hlate
        · obtain rfl := List.mem_singleton.mp hnew
          exact refused_of_start hlate
      | act id act => exact hs.step_act hcond hstep
      | revoke keyId result => exact hs.revoke hstep
      | invalidate keyId => exact hs.invalidate hstep
  intro call hcall hlate
  exact (hinv.late call hcall hlate).accepted_eq_false

/-- As long as the cache knows such a key, a late call is accepted with any secret. -/
theorem not_lateCallsFail_of_cached {s : State} {keyId : String} {principal : Principal}
    (htold : keyId ∈ s.told) (hget : s.cache.get s.now keyId = some principal)
    (hparse : parseKeyId rawKey = some keyId) :
    ∃ labels t, (interleaving argon2).Run s labels t ∧ ¬ LateCallsFail t := by
  have hstart : (interleaving argon2).Run s [.start rawKey]
      (s.withCall (Call.start s.told rawKey) (Call.start s.told rawKey).phase s.cache) :=
    Machine.Run.nil.snoc rfl
  have hcalled : (Call.start s.told rawKey).phase = .called keyId := by
    simp only [Call.start, hparse]
  have hlate : (Call.start s.told rawKey).late = true := by
    simpa only [Call.start, hparse, Option.any_some, decide_eq_true_eq] using htold
  rw [hcalled] at hstart
  obtain ⟨labels, haccepted⟩ := run_withCall_snoc hstart .readCache
    (show _ = some (.returned (.ok principal), s.cache) by simp only [advance, hget])
  refine ⟨labels, _, haccepted, ?_⟩
  intro hfail
  have hrefused := hfail _ (List.mem_append_right _ (List.mem_singleton.mpr rfl)) hlate
  cases hrefused

/-! ## The race -/

/-- The table with the agent's key. -/
def agentKeys : ApiKeys := .singleton agentRow

/-- The agent's key is revoked and invalidated before a call has started. -/
def quiet : List Label :=
  [.start agentKey, .act 0 .readCache, .act 0 (.find none), .act 0 .verify,
    .act 0 (.insert fun _ => 0), .revoke "a1b2c3d4" (.ok .epoch),
    .invalidate "a1b2c3d4", .start agentKey, .act 1 .readCache, .act 1 (.find none)]

/-- A call has read the row of the agent's key when the key is revoked and invalidated; it writes
the cache after that, and the next call asks the cache. -/
def raced : List Label :=
  [.start agentKey, .act 0 .readCache, .act 0 (.find none),
    .revoke "a1b2c3d4" (.ok .epoch), .invalidate "a1b2c3d4", .act 0 .verify,
    .act 0 (.insert fun _ => 0), .start agentKey, .act 1 .readCache]

/-- In the quiet run the late call fails. -/
theorem lateCallsFail_quiet : ∃ t, (interleaving plainHash).Run { keys := agentKeys } quiet t ∧
    (∃ call ∈ t.calls, call.late = true) ∧ LateCallsFail t := by
  have hlate : ((interleaving plainHash).exec { keys := agentKeys } quiet).any
      (fun t => t.calls.any Call.late) = true := by decide +kernel
  obtain ⟨t, hrun, ht⟩ := Machine.exists_run_any hlate
  exact ⟨t, hrun, List.any_eq_true.mp ht, lateCallsFail_of_noStaleInsert hrun (by decide +kernel)⟩

/-- **A revoked key is accepted** by a call that starts after the key was revoked and
invalidated. -/
theorem revokedKey_accepted : ∃ t, (interleaving plainHash).Run { keys := agentKeys } raced t ∧
    ¬ LateCallsFail t := by
  have haccepted : ((interleaving plainHash).exec { keys := agentKeys } raced).any
      (fun t => t.calls.any fun call => call.late && call.phase.accepted) = true := by
    decide +kernel
  obtain ⟨t, hrun, ht⟩ := Machine.exists_run_any haccepted
  refine ⟨t, hrun, ?_⟩
  intro hfail
  obtain ⟨call, hcall, hboth⟩ := List.any_eq_true.mp ht
  obtain ⟨hlate, haccepted⟩ := Bool.and_eq_true_iff.mp hboth
  rw [hfail call hcall hlate] at haccepted
  cases haccepted

end Sentinalysis.Hub.Revocation
