/-
# Sentinalysis.Hub.KeyLife — keys from their making to their use, over every run.

`hub-key` makes and revokes keys while the hub authenticates calls.  A call that was verified writes
the cache later, when the key may have been revoked.  Whatever happens in between, a key that was
printed stands for the caller it was made for, as long as it is not revoked it is accepted, and a
name stands for one key for ever.
-/
import Sentinalysis.Hub.AuthSoundness
import Sentinalysis.Hub.Endpoints
import Sentinalysis.Hub.KeyFormat

namespace Sentinalysis.Hub.KeyLife

open Lib Db

/-- What a hash that is made from a key has to be. -/
structure Hashes (argon2 : Argon2) (hashKey : String → String → String) : Prop where
  parses : ∀ salt rawKey, argon2.parseError (hashKey salt rawKey) = none
  verifies : ∀ salt rawKey, argon2.verifyPassword rawKey (hashKey salt rawKey) = true

/-- The libraries: `hash_key` of a salt and a key, beside those that make and verify keys. -/
structure Crypto where
  argon2 : Argon2
  keys : KeyCrypto
  hashKey : String → String → String

/-- What the libraries are documented to do. -/
structure Crypto.Lawful (crypto : Crypto) : Prop where
  hashes : Hashes crypto.argon2 crypto.hashKey
  encodes : crypto.keys.Encodes
  digests : crypto.keys.Digests

/-- The table and the cache, the rows of calls that were verified and have yet to write the cache,
the keys that were printed with their roles, those that were revoked, and the callers that were
accepted. -/
structure State where
  keys : ApiKeys := {}
  cache : VerifiedCache := {}
  verified : List ApiKeyRow := []
  printed : List (String × Role) := []
  revoked : List String := []
  callers : List Principal := []

/-- What the command line and the hub do. -/
inductive Label
  | create (action : HubKeyAction) (secretBytes : List UInt8) (salt : String) (id : Uuid)
  | revoke (keyId : String) (now : DateTime)
  | readCache (rawKey : String) (now : Instant)
  | verify (rawKey : String)
  | insert (index : ℕ) (now : Instant) (purgeAt : String → Instant)
  | invalidate (keyId : String)

namespace State

variable (s : State)

/-- `hub-key create`: the key is printed when its row was stored. -/
def create (crypto : Crypto) (action : HubKeyAction) (secretBytes : List UInt8) (salt : String)
    (id : Uuid) : Option State :=
  match Role.fromAction action with
  | .ok (some role) =>
    let (rawKey, keyId) := generateKey crypto.keys secretBytes
    match ApiKeyRepository.create s.keys (role.row id (crypto.hashKey salt rawKey) keyId) with
    | some keys => some { s with keys := keys, printed := s.printed ++ [(rawKey, role)] }
    | none => some s
  | _ => some s

/-- `hub-key revoke`. -/
def revoke (keyId : String) (now : DateTime) : State :=
  { s with
    keys := (ApiKeyRepository.revoke s.keys keyId now).2
    revoked := s.revoked ++ [keyId] }

/-- A call that the cache answers. -/
def readCache (rawKey : String) (now : Instant) : Option State := do
  let keyId ← parseKeyId rawKey
  let principal ← s.cache.get now keyId
  return { s with callers := s.callers ++ [principal] }

/-- A call whose key passes against the hash of its row. -/
def verify (argon2 : Argon2) (rawKey : String) : Option State := do
  let keyId ← parseKeyId rawKey
  let row ← ApiKeyRepository.findActiveByKeyId s.keys keyId
  match verifyHash argon2 row.hash rawKey with
  | .ok () => return { s with verified := s.verified ++ [row] }
  | .error _ => none

/-- The rest of the call: the caller is cached, and accepted. -/
def insert (index : ℕ) (now : Instant) (purgeAt : String → Instant) : Option State := do
  let row ← s.verified[index]?
  let principal := principalFromRow row
  return { s with
    verified := s.verified.eraseIdx index
    cache := s.cache.insert now purgeAt row.keyId principal
    callers := s.callers ++ [principal] }

end State

/-- All the orders of commands and of the steps of calls; secrets have 32 bytes. -/
def keyLife (crypto : Crypto) : Machine State Label where
  step s
    | .create action secretBytes salt id =>
      if secretBytes.length = 32 then s.create crypto action secretBytes salt id else none
    | .revoke keyId now => some (s.revoke keyId now)
    | .readCache rawKey now => s.readCache rawKey now
    | .verify rawKey => s.verify crypto.argon2 rawKey
    | .insert index now purgeAt => s.insert index now purgeAt
    | .invalidate keyId => some { s with cache := s.cache.invalidate keyId }

/-! ## Rows stay -/

/-- A row without the time of its revocation. -/
def identity (row : ApiKeyRow) : ApiKeyRow := { row with revokedAt := none }

/-- A row is kept: it may have been revoked since, and says the same otherwise. -/
def KeptIn (keys : ApiKeys) (row : ApiKeyRow) : Prop :=
  ∃ kept ∈ keys.rows, identity kept = identity row

theorem identity_stampRevoked (keyId : String) (now : DateTime) (row : ApiKeyRow) :
    identity (ApiKeyRepository.stampRevoked keyId now row) = identity row :=
  ApiKeyRepository.stampRevoked_fixed identity (fun _ _ => rfl) keyId now row

/-- What does not say when a row was revoked is the same. -/
theorem field_eq {α : Type} (field : ApiKeyRow → α)
    (hfield : ∀ row, field (identity row) = field row) {row row' : ApiKeyRow}
    (h : identity row = identity row') : field row = field row' := by
  rw [← hfield row, h, hfield row']

/-- A step never changes more of a row than the time of its revocation. -/
def Keeps (keys keys' : ApiKeys) : Prop := ∀ row ∈ keys.rows, KeptIn keys' row

theorem Keeps.refl (keys : ApiKeys) : Keeps keys keys := fun row hrow => ⟨row, hrow, rfl⟩

theorem keeps_create {keys keys' : ApiKeys} {row : ApiKeyRow}
    (h : ApiKeyRepository.create keys row = some keys') : Keeps keys keys' := by
  intro old hold
  rw [KeptIn, (ApiKeyRepository.create_eq_some h).2]
  exact ⟨old, List.mem_append_left _ hold, rfl⟩

theorem keeps_revoke (keys : ApiKeys) (keyId : String) (now : DateTime) :
    Keeps keys (ApiKeyRepository.revoke keys keyId now).2 := fun row hrow =>
  ⟨_, ApiKeyRepository.mem_rows_revoke.mpr ⟨row, hrow, rfl⟩, identity_stampRevoked keyId now row⟩

theorem KeptIn.mono {keys keys' : ApiKeys} {row : ApiKeyRow} (hkeeps : Keeps keys keys')
    (h : KeptIn keys row) : KeptIn keys' row := by
  obtain ⟨kept, hkept, heq⟩ := h
  obtain ⟨later, hlater, hsame⟩ := hkeeps kept hkept
  exact ⟨later, hlater, hsame.trans heq⟩

/-! ## The invariant -/

/-- What is true in every state. -/
structure Invariant (crypto : Crypto) (s : State) : Prop where
  /-- every row is that of a role, under its name -/
  made : ∀ row ∈ s.keys.rows, ∃ action role id hash keyId,
    Role.fromAction action = .ok (some role) ∧ identity row = role.row id hash keyId
  names : (s.keys.rows.map ApiKeyRow.name).Nodup
  verified : ∀ row ∈ s.verified, KeptIn s.keys row
  cached : ∀ keyId entry, s.cache.map keyId = some entry →
    ∃ row, KeptIn s.keys row ∧ row.keyId = keyId ∧ principalFromRow row = entry.principal
  callers : ∀ caller ∈ s.callers, ∃ row, KeptIn s.keys row ∧ principalFromRow row = caller
  printed : ∀ rawKey role, (rawKey, role) ∈ s.printed → ∃ id salt keyId,
    parseKeyId rawKey = some keyId ∧ (∃ action, Role.fromAction action = .ok (some role)) ∧
      KeptIn s.keys (role.row id (crypto.hashKey salt rawKey) keyId)
  printedNames : (s.printed.map (·.2.name)).Nodup
  active : ∀ row ∈ s.keys.rows, row.keyId ∉ s.revoked → row.isActive = true

namespace Invariant

variable {crypto : Crypto} {s : State}

theorem init (crypto : Crypto) : Invariant crypto {} where
  made := by simp
  names := List.nodup_nil
  verified := by simp
  cached := fun _ _ h => by cases h
  callers := by simp
  printed := by simp
  printedNames := List.nodup_nil
  active := by simp

/-- The name of a key that was printed is the name of a row. -/
theorem name_mem (h : Invariant crypto s) {rawKey : String} {role : Role}
    (hprinted : (rawKey, role) ∈ s.printed) : role.name ∈ s.keys.rows.map ApiKeyRow.name := by
  obtain ⟨id, salt, keyId, -, -, kept, hkept, heq⟩ := h.printed rawKey role hprinted
  exact List.mem_map.mpr ⟨kept, hkept, congrArg ApiKeyRow.name heq⟩

theorem create (hlawful : crypto.Lawful) (h : Invariant crypto s) {action : HubKeyAction}
    {secretBytes : List UInt8} {salt : String} {id : Uuid} {t : State}
    (hlength : secretBytes.length = 32)
    (hstep : s.create crypto action secretBytes salt id = some t) : Invariant crypto t := by
  unfold State.create at hstep
  split at hstep
  · next role hrole =>
    dsimp only at hstep
    split at hstep
    · next keys hcreate =>
      obtain rfl := Option.some.inj hstep
      obtain ⟨hname, hrows⟩ := ApiKeyRepository.create_eq_some hcreate
      have hkeeps := keeps_create hcreate
      have hkey := parseKeyId_of_keyText
        (keyText_generateKey hlawful.encodes hlawful.digests hlength)
      refine ⟨?_, ?_, fun row hrow => (h.verified row hrow).mono hkeeps, ?_, ?_, ?_, ?_, ?_⟩
      · intro row hrow
        rw [hrows] at hrow
        rcases List.mem_append.mp hrow with hold | hnew
        · exact h.made row hold
        · rw [List.mem_singleton.mp hnew]
          exact ⟨action, role, _, _, _, hrole, rfl⟩
      · rw [hrows, List.map_append, List.nodup_append]
        refine ⟨h.names, List.nodup_singleton _, ?_⟩
        rintro name hold _ hnew rfl
        rw [List.map_singleton, List.mem_singleton] at hnew
        exact hname (hnew ▸ hold)
      · intro keyId entry hentry
        obtain ⟨row, hrow, hrest⟩ := h.cached keyId entry hentry
        exact ⟨row, hrow.mono hkeeps, hrest⟩
      · intro caller hcaller
        obtain ⟨row, hrow, hrest⟩ := h.callers caller hcaller
        exact ⟨row, hrow.mono hkeeps, hrest⟩
      · intro rawKey role' hprinted
        rcases List.mem_append.mp hprinted with hold | hnew
        · obtain ⟨id', salt', keyId, hparse, hmade, hrow⟩ := h.printed rawKey role' hold
          exact ⟨id', salt', keyId, hparse, hmade, hrow.mono hkeeps⟩
        · obtain ⟨rfl, rfl⟩ := Prod.mk.inj (List.mem_singleton.mp hnew)
          refine ⟨id, salt, _, hkey, ⟨action, hrole⟩, _, ?_, rfl⟩
          rw [hrows]
          exact List.mem_append_right _ (List.mem_singleton_self _)
      · rw [List.map_append, List.nodup_append]
        refine ⟨h.printedNames, List.nodup_singleton _, ?_⟩
        rintro name hold _ hnew rfl
        rw [List.map_singleton, List.mem_singleton] at hnew
        obtain ⟨⟨rawKey, role'⟩, hprinted, rfl⟩ := List.mem_map.mp hold
        have hsame : role'.name = role.name := hnew
        have htaken := h.name_mem hprinted
        rw [hsame] at htaken
        exact hname htaken
      · intro row hrow hunrevoked
        rw [hrows] at hrow
        rcases List.mem_append.mp hrow with hold | hnew
        · exact h.active row hold hunrevoked
        · rw [List.mem_singleton.mp hnew]
          rfl
    · obtain rfl := Option.some.inj hstep
      exact h
  · obtain rfl := Option.some.inj hstep
    exact h

theorem revoke (h : Invariant crypto s) (keyId : String) (now : DateTime) :
    Invariant crypto (s.revoke keyId now) := by
  have hkeeps := keeps_revoke s.keys keyId now
  refine ⟨?_, ?_, fun row hrow => (h.verified row hrow).mono hkeeps, ?_, ?_, ?_, h.printedNames, ?_⟩
  · intro row hrow
    obtain ⟨old, hold, rfl⟩ := ApiKeyRepository.mem_rows_revoke.mp hrow
    rw [identity_stampRevoked]
    exact h.made old hold
  · show ((s.keys.rows.map (ApiKeyRepository.stampRevoked keyId now)).map ApiKeyRow.name).Nodup
    rw [List.map_map, show ApiKeyRow.name ∘ ApiKeyRepository.stampRevoked keyId now
      = ApiKeyRow.name from
      funext (ApiKeyRepository.stampRevoked_fixed _ (fun _ _ => rfl) keyId now)]
    exact h.names
  · intro keyId' entry hentry
    obtain ⟨row, hrow, hrest⟩ := h.cached keyId' entry hentry
    exact ⟨row, hrow.mono hkeeps, hrest⟩
  · intro caller hcaller
    obtain ⟨row, hrow, hrest⟩ := h.callers caller hcaller
    exact ⟨row, hrow.mono hkeeps, hrest⟩
  · intro rawKey role hprinted
    obtain ⟨id, salt, keyId', hparse, hmade, hrow⟩ := h.printed rawKey role hprinted
    exact ⟨id, salt, keyId', hparse, hmade, hrow.mono hkeeps⟩
  · intro row hrow hunrevoked
    obtain ⟨old, hold, rfl⟩ := ApiKeyRepository.mem_rows_revoke.mp hrow
    unfold ApiKeyRepository.stampRevoked at hunrevoked ⊢
    split
    · next hstamped =>
      rw [if_pos hstamped] at hunrevoked
      exact absurd (List.mem_append_right _ (List.mem_singleton.mpr hstamped.1)) hunrevoked
    · next hsame =>
      rw [if_neg hsame] at hunrevoked
      exact h.active old hold fun hmem => hunrevoked (List.mem_append_left _ hmem)

/-- A caller that is added is the caller of a row that is kept. -/
theorem callers_append (h : Invariant crypto s) {row : ApiKeyRow} (hrow : KeptIn s.keys row) :
    ∀ caller ∈ s.callers ++ [principalFromRow row],
      ∃ row, KeptIn s.keys row ∧ principalFromRow row = caller := by
  intro caller hcaller
  rcases List.mem_append.mp hcaller with hold | hnew
  · exact h.callers caller hold
  · exact ⟨row, hrow, (List.mem_singleton.mp hnew).symm⟩

theorem readCache (h : Invariant crypto s) {rawKey : String} {now : Instant} {t : State}
    (hstep : s.readCache rawKey now = some t) : Invariant crypto t := by
  obtain ⟨keyId, -, hstep⟩ := Option.bind_eq_some_iff.mp hstep
  obtain ⟨principal, hget, hstep⟩ := Option.bind_eq_some_iff.mp hstep
  obtain rfl := Option.some.inj hstep
  obtain ⟨entry, hentry, -, rfl⟩ := VerifiedCache.get_eq_some_iff.mp hget
  obtain ⟨row, hrow, -, hcaller⟩ := h.cached keyId entry hentry
  exact { h with callers := hcaller ▸ h.callers_append hrow }

theorem verify (h : Invariant crypto s) {rawKey : String} {t : State}
    (hstep : s.verify crypto.argon2 rawKey = some t) : Invariant crypto t := by
  obtain ⟨keyId, -, hstep⟩ := Option.bind_eq_some_iff.mp hstep
  obtain ⟨row, hfind, hstep⟩ := Option.bind_eq_some_iff.mp hstep
  have hrow := (ApiKeyRepository.findActiveByKeyId_eq_some_iff.mp hfind).1
  split at hstep
  · obtain rfl := Option.some.inj hstep
    refine { h with verified := fun other hother => ?_ }
    rcases List.mem_append.mp hother with hold | hnew
    · exact h.verified other hold
    · exact ⟨row, hrow, congrArg identity (List.mem_singleton.mp hnew).symm⟩
  · cases hstep

theorem insert (h : Invariant crypto s) {index : ℕ} {now : Instant} {purgeAt : String → Instant}
    {t : State} (hstep : s.insert index now purgeAt = some t) : Invariant crypto t := by
  obtain ⟨row, hget, hstep⟩ := Option.bind_eq_some_iff.mp hstep
  obtain rfl := Option.some.inj hstep
  have hrow := h.verified row (List.mem_of_getElem? hget)
  refine { h with
    verified := fun other hother => h.verified other (List.mem_of_mem_eraseIdx hother)
    cached := fun keyId entry hentry => ?_
    callers := h.callers_append hrow }
  rcases VerifiedCache.map_of_insert hentry with ⟨rfl, rfl⟩ | ⟨-, hold⟩
  · exact ⟨row, hrow, rfl, rfl⟩
  · exact h.cached keyId entry hold

theorem invalidate (h : Invariant crypto s) (keyId : String) :
    Invariant crypto { s with cache := s.cache.invalidate keyId } :=
  { h with cached := fun keyId' entry hentry =>
      h.cached keyId' entry (VerifiedCache.map_of_invalidate hentry).2 }

/-- **Every step keeps the invariant.** -/
theorem step (hlawful : crypto.Lawful) (h : Invariant crypto s) {label : Label} {t : State}
    (hstep : (keyLife crypto).step s label = some t) : Invariant crypto t := by
  cases label with
  | create action secretBytes salt id =>
    dsimp only [keyLife] at hstep
    split at hstep
    · next hlength => exact h.create hlawful hlength hstep
    · cases hstep
  | revoke keyId now =>
    obtain rfl := Option.some.inj hstep
    exact h.revoke keyId now
  | readCache rawKey now => exact h.readCache hstep
  | verify rawKey => exact h.verify hstep
  | insert index now purgeAt => exact h.insert hstep
  | invalidate keyId =>
    obtain rfl := Option.some.inj hstep
    exact h.invalidate keyId

end Invariant

theorem invariant_of_run {crypto : Crypto} (hlawful : crypto.Lawful) {l : List Label} {s : State}
    (hrun : (keyLife crypto).Run {} l s) : Invariant crypto s :=
  hrun.invariant (Invariant.init crypto) fun _ _ _ h hstep => h.step hlawful hstep

/-! ## What a key is good for -/

section Keys

variable {crypto : Crypto} {s : State} {rawKey keyId : String} {role : Role} {env : Surroundings}

/-- Two rows of one `key_id` have one caller. -/
theorem principal_eq_of_keyId {row row' : ApiKeyRow} (h : KeptIn s.keys row)
    (h' : KeptIn s.keys row') (hid : row.keyId = row'.keyId) :
    principalFromRow row = principalFromRow row' := by
  obtain ⟨kept, hkept, heq⟩ := h
  obtain ⟨kept', hkept', heq'⟩ := h'
  have hsame : kept = kept' := s.keys.eq_of_name_eq hkept hkept' (by
    rw [field_eq ApiKeyRow.keyId (fun _ => rfl) heq, hid,
      field_eq ApiKeyRow.keyId (fun _ => rfl) heq'])
  rw [← field_eq principalFromRow (fun _ => rfl) heq, hsame,
    field_eq principalFromRow (fun _ => rfl) heq']

/-- Whoever a call takes the holder of a `key_id` for, the row of the `key_id` says so. -/
theorem caller_of_authenticate (h : Invariant crypto s) (hkeys : env.keys = .ok s.keys)
    {caller : Principal} (hparse : parseKeyId rawKey = some keyId)
    (hcall : (authenticate crypto.argon2 env s.cache rawKey).1 = .ok caller) :
    ∃ row, KeptIn s.keys row ∧ row.keyId = keyId ∧ principalFromRow row = caller := by
  rcases authenticate_cases crypto.argon2 env s.cache rawKey with
    ⟨e, hfails⟩ | ⟨keyId', principal, hparse', hget, hanswers⟩ | ⟨principal, hverified, hpasses⟩
  · rw [hfails] at hcall
    cases hcall
  · rw [hanswers] at hcall
    obtain rfl := Except.ok.inj hcall
    obtain rfl := Option.some.inj (hparse.symm.trans hparse')
    obtain ⟨entry, hentry, -, rfl⟩ := VerifiedCache.get_eq_some_iff.mp hget
    exact h.cached keyId entry hentry
  · rw [hpasses] at hcall
    obtain rfl := Except.ok.inj hcall
    obtain ⟨keys, row, htable, hrow, hid, -, -, hcaller⟩ := hverified.row
    obtain rfl := Except.ok.inj (hkeys.symm.trans htable)
    obtain rfl := Option.some.inj (hparse.symm.trans hverified.wellformed)
    exact ⟨row, ⟨row, hrow, rfl⟩, hid, hcaller⟩

/-- An active key that was printed is accepted. -/
theorem authenticate_isOk (hlawful : crypto.Lawful) (h : Invariant crypto s)
    (hkeys : env.keys = .ok s.keys) (hparse : parseKeyId rawKey = some keyId) {id : Uuid}
    {salt : String} (hrow : KeptIn s.keys (role.row id (crypto.hashKey salt rawKey) keyId))
    (hunrevoked : keyId ∉ s.revoked) :
    ∃ caller, (authenticate crypto.argon2 env s.cache rawKey).1 = .ok caller := by
  obtain ⟨kept, hkept, heq⟩ := hrow
  have hid : kept.keyId = keyId := congrArg ApiKeyRow.keyId heq
  have hhash : kept.hash = crypto.hashKey salt rawKey := congrArg ApiKeyRow.hash heq
  have hactive := h.active kept hkept (hid.symm ▸ hunrevoked)
  have hfind := ApiKeyRepository.findActiveByKeyId_eq_some_iff.mpr ⟨hkept, hid, hactive⟩
  have hverify : verifyHash crypto.argon2 kept.hash rawKey = .ok () := by
    rw [hhash, verifyHash, hlawful.hashes.parses, hlawful.hashes.verifies]
    rfl
  unfold authenticate
  rw [hparse, hkeys]
  dsimp only
  cases s.cache.get env.readAt keyId with
  | some principal => exact ⟨principal, rfl⟩
  | none =>
    dsimp only
    rw [hfind]
    dsimp only
    rw [hverify]
    exact ⟨_, rfl⟩

/-- **A printed key is good for its role, and for nothing else**, after every run of commands and
calls: it is accepted until it is revoked, whoever it is accepted as is the caller that it was made
for, and the endpoints that do not refuse this caller are those of its role. -/
theorem printed_key_opens_role (hlawful : crypto.Lawful) {l : List Label}
    (hrun : (keyLife crypto).Run {} l s) (hprinted : (rawKey, role) ∈ s.printed) :
    ∃ keyId, parseKeyId rawKey = some keyId ∧
      (∀ env : Surroundings, env.keys = .ok s.keys → keyId ∉ s.revoked →
        (authenticate crypto.argon2 env s.cache rawKey).1 = .ok (role.principal keyId)) ∧
      (∀ env : Surroundings, env.keys = .ok s.keys → ∀ caller,
        (authenticate crypto.argon2 env s.cache rawKey).1 = .ok caller →
        caller = role.principal keyId) ∧
      ∀ (endpoint : Endpoint) (request : endpoint.Request),
        Refused (role.principal keyId) request ↔
          endpoint ∉ (keyRole (role.row 0 "" keyId)).endpoints := by
  have h := invariant_of_run hlawful hrun
  obtain ⟨id, salt, keyId, hparse, ⟨action, hrole⟩, hrow⟩ := h.printed rawKey role hprinted
  have hcaller : ∀ env : Surroundings, env.keys = .ok s.keys → ∀ caller,
      (authenticate crypto.argon2 env s.cache rawKey).1 = .ok caller →
      caller = role.principal keyId := by
    intro env hkeys caller hcall
    obtain ⟨row, hkept, hid, rfl⟩ := caller_of_authenticate h hkeys hparse hcall
    have hsame := principal_eq_of_keyId hkept hrow hid
    exact hsame
  refine ⟨keyId, hparse, fun env hkeys hunrevoked => ?_, hcaller, fun endpoint request => ?_⟩
  · obtain ⟨caller, hcall⟩ := authenticate_isOk hlawful h hkeys hparse hrow hunrevoked
    rw [hcall, hcaller env hkeys caller hcall]
  · rw [Endpoint.refused_iff, admits_iff_of_fromAction hrole]

/-- A hash that shows its key, and keys that are all made from zeros. -/
def plainCrypto : Crypto where
  argon2 := AuthService.plainHash
  keys := zeroCrypto
  hashKey _ rawKey := "$argon2id$" ++ rawKey

theorem plainCrypto_lawful : plainCrypto.Lawful where
  hashes := ⟨fun _ _ => rfl, fun _ _ => beq_self_eq_true _⟩
  encodes bytes _ := by
    show (String.ofList _).toList.length = 43 ∧ ∀ c ∈ (String.ofList _).toList, _
    rw [String.toList_ofList]
    refine ⟨List.length_replicate, fun c hc => ?_⟩
    rw [List.eq_of_mem_replicate hc]
    rfl
  digests _ := rfl

/-- The key of 32 zeros, and the role of an agent. -/
def zeroKey : String × Role :=
  ("snt_0f007385_AAAAAAAAAAAAAAAAAAAAAAAAAAAAAAAAAAAAAAAAAAA",
    ⟨"vps1", some "vps1", some "vps1", none, ["ingest:metrics", "ingest:logs"]⟩)

/-- A key is made for an agent; a second one for it is not, as its name is taken. -/
def twoCreates : List Label :=
  [.create (.Create (some "vps1") none none none) (List.replicate 32 0) "salt" 1,
    .revoke "00000000" .epoch,
    .create (.Create (some "vps1") none none none) (List.replicate 32 0) "pepper" 2,
    .verify zeroKey.1, .insert 0 5 fun _ => 5]

/-- The key is good for what an agent does. -/
theorem printed_key_opens_role_zeros : ∃ s, (keyLife plainCrypto).Run {} twoCreates s ∧
    ∃ keyId, parseKeyId zeroKey.1 = some keyId ∧
      ∀ (endpoint : Endpoint) (request : endpoint.Request),
        Refused (zeroKey.2.principal keyId) request ↔ endpoint ∉ KeyRole.Agent.endpoints := by
  have hexists : ∃ s, (keyLife plainCrypto).Run {} twoCreates s ∧
      decide (zeroKey ∈ s.printed) = true := Machine.exists_run_any (by decide +kernel)
  obtain ⟨s, hrun, hprinted⟩ := hexists
  obtain ⟨keyId, hparse, -, -, hopens⟩ := printed_key_opens_role plainCrypto_lawful hrun
    (of_decide_eq_true hprinted)
  exact ⟨s, hrun, keyId, hparse, hopens⟩

/-- The agent and the app of a caller are the name of its row. -/
theorem name_of_made {row : ApiKeyRow} {action : HubKeyAction} {id : Uuid} {hash keyId : String}
    (hrole : Role.fromAction action = .ok (some role))
    (hrow : identity row = role.row id hash keyId) :
    (∀ agentId ∈ (principalFromRow row).agentId, agentId = row.name) ∧
      ∀ appName ∈ (principalFromRow row).appName, appName = row.name := by
  have hname : row.name = role.name := congrArg ApiKeyRow.name hrow
  have hagent : row.agentId = role.agentId := congrArg ApiKeyRow.agentId hrow
  have happ : row.appName = role.appName := congrArg ApiKeyRow.appName hrow
  rw [hname]
  show (∀ agentId ∈ row.agentId, _) ∧ ∀ appName ∈ row.appName, _
  rw [hagent, happ]
  rcases Role.fromAction_cases hrole with ⟨agentId, hostname, rfl⟩ | ⟨appName, rfl⟩ | ⟨name, rfl⟩
  · simp
  · simp
  · simp

/-- **A name stands for one key for ever.**  No two keys are printed for one name, whatever is
revoked in between, and all callers that were ever taken for one agent, or for one app, are one
caller: its key and its host do not change. -/
theorem one_key_for_a_name (hlawful : crypto.Lawful) {l : List Label}
    (hrun : (keyLife crypto).Run {} l s) :
    (s.printed.map (·.2.name)).Nodup ∧
    ∀ caller ∈ s.callers, ∀ caller' ∈ s.callers,
      ((∃ agentId, caller.agentId = some agentId ∧ caller'.agentId = some agentId) ∨
        ∃ appName, caller.appName = some appName ∧ caller'.appName = some appName) →
      caller = caller' := by
  have h := invariant_of_run hlawful hrun
  refine ⟨h.printedNames, fun caller hcaller caller' hcaller' hsame => ?_⟩
  obtain ⟨row, ⟨kept, hkept, heq⟩, rfl⟩ := h.callers caller hcaller
  obtain ⟨row', ⟨kept', hkept', heq'⟩, rfl⟩ := h.callers caller' hcaller'
  obtain ⟨action, role, id, hash, keyId, hrole, hrow⟩ := h.made kept hkept
  obtain ⟨action', role', id', hash', keyId', hrole', hrow'⟩ := h.made kept' hkept'
  have hnames := name_of_made hrole (heq.symm.trans hrow)
  have hnames' := name_of_made hrole' (heq'.symm.trans hrow')
  have hname : row.name = row'.name := by
    rcases hsame with ⟨agentId, hleft, hright⟩ | ⟨appName, hleft, hright⟩
    · rw [← hnames.1 agentId hleft, ← hnames'.1 agentId hright]
    · rw [← hnames.2 appName hleft, ← hnames'.2 appName hright]
  have hkepts : kept = kept' := by
    refine List.inj_on_of_nodup_map h.names hkept hkept' ?_
    rw [field_eq ApiKeyRow.name (fun _ => rfl) heq, hname,
      field_eq ApiKeyRow.name (fun _ => rfl) heq']
  rw [← field_eq principalFromRow (fun _ => rfl) heq, hkepts,
    field_eq principalFromRow (fun _ => rfl) heq']

end Keys

/-- One key was printed for the agent, and one caller was accepted. -/
theorem one_key_for_a_name_zeros : ∃ s, (keyLife plainCrypto).Run {} twoCreates s ∧
    s.callers.length = 1 ∧ (s.printed.map (·.2.name)).Nodup := by
  have hexists : ∃ s, (keyLife plainCrypto).Run {} twoCreates s ∧
      decide (s.callers.length = 1) = true := Machine.exists_run_any (by decide +kernel)
  obtain ⟨s, hrun, hcallers⟩ := hexists
  exact ⟨s, hrun, of_decide_eq_true hcallers, (one_key_for_a_name plainCrypto_lawful hrun).1⟩

end Sentinalysis.Hub.KeyLife
