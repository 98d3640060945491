/-
# Sentinalysis.Hub.Auth — API keys, and the cache of keys that were verified.

A key is `snt_<key_id>_<secret>`.  Its row is found by `key_id`, and the whole key is verified
against the hash in the row; the caller that the row describes is then trusted for a minute, by
`key_id` alone.  Hashing is a parameter; the clock is read by every operation on the cache.
-/
import Mathlib.Logic.Function.Basic
import Sentinalysis.Db.ApiKeyRepo
import Sentinalysis.Lib.Regex

namespace Sentinalysis.Hub

open Lib Db

def keyPrefix : String := "snt_"
def keyIdLen : ℕ := 8
def secretLen : ℕ := 43

/-- `key_format_re`: `^snt_[0-9a-f]{8}_[A-Za-z0-9_-]{43}$`. -/
def keyFormatRe : Regex Empty :=
  let hex := Regex.cls fun c => c.isDigit || ('a' ≤ c && c ≤ 'f')
  let base64url := Regex.cls fun c => c.isAlphanum || c == '_' || c == '-'
  Regex.concat [.bos, Regex.lit keyPrefix, Regex.times keyIdLen hex, Regex.lit "_",
    Regex.times secretLen base64url, .eos]

/-- `is_wellformed`. -/
def isWellformed (rawKey : String) : Bool := keyFormatRe.isMatch rawKey

/-- `parse_key_id`: the format is ASCII, so that positions are in characters. -/
def parseKeyId (rawKey : String) : Option String :=
  if isWellformed rawKey then
    some (String.ofList ((rawKey.toList.drop keyPrefix.toList.length).take keyIdLen))
  else none

/-! ## Principals -/

inductive Permission
  | IngestMetrics
  | IngestLogs
  | IngestEvents
  | ReadDashboard
  deriving DecidableEq, Repr

def Permission.asStr : Permission → String
  | .IngestMetrics => "ingest:metrics"
  | .IngestLogs => "ingest:logs"
  | .IngestEvents => "ingest:events"
  | .ReadDashboard => "read:dashboard"

def Permission.parse (value : String) : Option Permission :=
  if value = "ingest:metrics" then some .IngestMetrics
  else if value = "ingest:logs" then some .IngestLogs
  else if value = "ingest:events" then some .IngestEvents
  else if value = "read:dashboard" then some .ReadDashboard
  else none

@[simp] theorem Permission.parse_asStr (permission : Permission) :
    Permission.parse permission.asStr = some permission := by
  cases permission <;> decide

/-- `Principal`: the authenticated caller. -/
structure Principal where
  keyId : String
  permissions : List Permission
  agentId : Option String
  hostname : Option String
  appName : Option String
  deriving DecidableEq, Repr

/-- `principal_from_row`: permissions that are not known are left out. -/
def principalFromRow (row : ApiKeyRow) : Principal where
  keyId := row.keyId
  permissions := row.permissions.filterMap Permission.parse
  agentId := row.agentId
  hostname := row.hostname
  appName := row.appName

inductive AuthError
  | Malformed
  | UnknownKey
  | BadSignature
  | RateLimited
  | Storage (msg : String)
  deriving DecidableEq, Repr

def AuthError.display : AuthError → String
  | .Malformed => "malformed API key"
  | .UnknownKey => "unknown API key"
  | .BadSignature => "invalid API key"
  | .RateLimited => "too many authentication attempts"
  | .Storage msg => "authentication storage failure: " ++ msg

/-! ## The cache of verified keys -/

/-- `Instant`: nanoseconds of a clock that does not go back. -/
abbrev Instant := ℕ

/-- `Instant::elapsed`, at a reading of the clock. -/
def Instant.elapsed (t now : Instant) : ℕ := now - t

/-- `CACHE_TTL`, in nanoseconds. -/
def cacheTtl : ℕ := 60 * 1000000000

def cacheMaxEntries : ℕ := 1000

structure CacheEntry where
  principal : Principal
  insertedAt : Instant
  deriving DecidableEq, Repr

/-- `VerifiedCache`: the entries by `key_id`, and the keys in the order they came. -/
structure VerifiedCache where
  map : String → Option CacheEntry := fun _ => none
  order : List String := []

namespace VerifiedCache

/-- `get`: an entry that has expired is not removed. -/
def get (cache : VerifiedCache) (now : Instant) (keyId : String) : Option Principal :=
  match cache.map keyId with
  | none => none
  | some entry => if cacheTtl < entry.insertedAt.elapsed now then none else some entry.principal

/-- The expired entries are removed; `clock` is the reading for each key. -/
def purge (cache : VerifiedCache) (clock : String → Instant) : VerifiedCache :=
  let keep k := (cache.map k).any fun entry => entry.insertedAt.elapsed (clock k) ≤ cacheTtl
  { map := fun k => if k ∈ cache.order ∧ ¬ keep k then none else cache.map k
    order := cache.order.filter keep }

/-- The oldest entries are removed while there are too many. -/
def evict (map : String → Option CacheEntry) : List String → VerifiedCache
  | [] => { map := map, order := [] }
  | k :: order =>
    if cacheMaxEntries < (k :: order).length then evict (Function.update map k none) order
    else { map := map, order := k :: order }

/-- `insert`: the entry is stamped with `now`, then the cache is purged and cut to its size. -/
def insert (cache : VerifiedCache) (now : Instant) (clock : String → Instant) (keyId : String)
    (principal : Principal) : VerifiedCache :=
  let order := if keyId ∈ cache.order then cache.order else cache.order ++ [keyId]
  let map := Function.update cache.map keyId (some { principal := principal, insertedAt := now })
  let purged := purge { map := map, order := order } clock
  evict purged.map purged.order

/-- `invalidate`. -/
def invalidate (cache : VerifiedCache) (keyId : String) : VerifiedCache where
  map := Function.update cache.map keyId none
  order := cache.order.filter (· ≠ keyId)

variable {cache : VerifiedCache} {k keyId : String} {now : Instant} {entry : CacheEntry}
  {principal : Principal}

theorem get_eq_some_iff : cache.get now keyId = some principal ↔
    ∃ entry, cache.map keyId = some entry ∧ entry.insertedAt.elapsed now ≤ cacheTtl ∧
      entry.principal = principal := by
  unfold get
  cases hmap : cache.map keyId with
  | none => simp
  | some entry =>
    by_cases hold : cacheTtl < entry.insertedAt.elapsed now
    · simp [hold]
    · simp [hold, not_lt.mp hold]

/-- Purging adds nothing. -/
theorem map_of_purge {clock : String → Instant} (h : (cache.purge clock).map k = some entry) :
    cache.map k = some entry := by
  simp only [purge] at h
  split at h
  · cases h
  · exact h

/-- Evicting adds nothing. The induction is on the keys in their order. -/
theorem map_of_evict {map : String → Option CacheEntry} {order : List String}
    (h : (evict map order).map k = some entry) : map k = some entry := by
  induction order generalizing map with
  | nil => exact h
  | cons oldest order ih =>
    unfold evict at h
    split at h
    · have hrest := ih h
      by_cases hk : k = oldest
      · rw [hk, Function.update_self] at hrest
        cases hrest
      · rwa [Function.update_of_ne hk] at hrest
    · exact h

/-- What is in the cache after an insertion was inserted or was there. -/
theorem map_of_insert {clock : String → Instant}
    (h : (cache.insert now clock keyId principal).map k = some entry) :
    (k = keyId ∧ entry = { principal := principal, insertedAt := now }) ∨
      (k ≠ keyId ∧ cache.map k = some entry) := by
  have hmap : Function.update cache.map keyId
      (some { principal := principal, insertedAt := now }) k = some entry :=
    map_of_purge (map_of_evict h)
  by_cases hk : k = keyId
  · left
    rw [hk, Function.update_self] at hmap
    exact ⟨hk, (Option.some.inj hmap).symm⟩
  · right
    rw [Function.update_of_ne hk] at hmap
    exact ⟨hk, hmap⟩

theorem map_of_invalidate (h : (cache.invalidate keyId).map k = some entry) :
    k ≠ keyId ∧ cache.map k = some entry := by
  have hmap : Function.update cache.map keyId none k = some entry := h
  by_cases hk : k = keyId
  · rw [hk, Function.update_self] at hmap
    cases hmap
  · rw [Function.update_of_ne hk] at hmap
    exact ⟨hk, hmap⟩

end VerifiedCache

/-! ## Authentication -/

/-- What the hashing library computes. -/
structure Argon2 where
  /-- `PasswordHash::new`: why a stored text is not a hash, if it is none. -/
  parseError : String → Option String
  /-- `verify_password` of a key and a hash. -/
  verifyPassword : String → String → Bool

/-- A hash is verified by one key at most. -/
def Argon2.OneKey (argon2 : Argon2) : Prop :=
  ∀ hash raw raw', argon2.verifyPassword raw hash = true →
    argon2.verifyPassword raw' hash = true → raw = raw'

/-- `verify_hash`. -/
def verifyHash (argon2 : Argon2) (storedHash rawKey : String) : Except AuthError Unit :=
  match argon2.parseError storedHash with
  | some e => .error (.Storage ("stored hash unparseable: " ++ e))
  | none => if argon2.verifyPassword rawKey storedHash then .ok () else .error .BadSignature

theorem verifyPassword_of_verifyHash {argon2 : Argon2} {storedHash rawKey : String} {u : Unit}
    (h : verifyHash argon2 storedHash rawKey = .ok u) :
    argon2.verifyPassword rawKey storedHash = true := by
  unfold verifyHash at h
  split at h
  · cases h
  · split at h
    · assumption
    · cases h

/-- What a call meets: the clock when the cache is read, the table or its failure, and the clock
when the cache is written. -/
structure Surroundings where
  readAt : Instant
  keys : Except SentinelError ApiKeys
  insertAt : Instant
  purgeAt : String → Instant

/-- `AuthService::authenticate`: the cache is asked before the key is verified. -/
def authenticate (argon2 : Argon2) (env : Surroundings) (cache : VerifiedCache) (rawKey : String) :
    Except AuthError Principal × VerifiedCache :=
  match parseKeyId rawKey with
  | none => (.error .Malformed, cache)
  | some keyId => match cache.get env.readAt keyId with
    | some principal => (.ok principal, cache)
    | none => match env.keys with
      | .error e => (.error (.Storage e.display), cache)
      | .ok keys => match ApiKeyRepository.findActiveByKeyId keys keyId with
        | none => (.error .UnknownKey, cache)
        | some row => match verifyHash argon2 row.hash rawKey with
          | .error _ => (.error .BadSignature, cache)
          | .ok () =>
            let principal := principalFromRow row
            (.ok principal, cache.insert env.insertAt env.purgeAt row.keyId principal)

/-- A key is verified when it passes against the hash of the active row with its `key_id`, and the
caller is the one of that row. -/
structure Verified (argon2 : Argon2) (env : Surroundings) (rawKey : String)
    (principal : Principal) : Prop where
  wellformed : parseKeyId rawKey = some principal.keyId
  row : ∃ keys row, env.keys = .ok keys ∧ row ∈ keys.rows ∧ row.keyId = principal.keyId ∧
    row.isActive = true ∧ argon2.verifyPassword rawKey row.hash = true ∧
    principalFromRow row = principal

/-- What a call can come to: a failure, the cached caller, or the caller of a verified key, who is
then cached. -/
theorem authenticate_cases (argon2 : Argon2) (env : Surroundings) (cache : VerifiedCache)
    (rawKey : String) :
    (∃ e, authenticate argon2 env cache rawKey = (.error e, cache)) ∨
    (∃ keyId principal, parseKeyId rawKey = some keyId ∧
      cache.get env.readAt keyId = some principal ∧
      authenticate argon2 env cache rawKey = (.ok principal, cache)) ∨
    ∃ principal, Verified argon2 env rawKey principal ∧
      authenticate argon2 env cache rawKey =
        (.ok principal, cache.insert env.insertAt env.purgeAt principal.keyId principal) := by
  unfold authenticate
  cases hparse : parseKeyId rawKey with
  | none => exact Or.inl ⟨.Malformed, rfl⟩
  | some keyId =>
    cases hget : cache.get env.readAt keyId with
    | some principal => exact Or.inr (Or.inl ⟨keyId, principal, rfl, hget, by simp only [hget]⟩)
    | none =>
      cases hkeys : env.keys with
      | error e => exact Or.inl ⟨.Storage e.display, by simp only [hget]⟩
      | ok keys =>
        cases hfind : ApiKeyRepository.findActiveByKeyId keys keyId with
        | none => exact Or.inl ⟨.UnknownKey, by simp only [hget, hfind]⟩
        | some row =>
          obtain ⟨hrow, hid, hactive⟩ := ApiKeyRepository.findActiveByKeyId_eq_some_iff.mp hfind
          cases hverify : verifyHash argon2 row.hash rawKey with
          | error e => exact Or.inl ⟨.BadSignature, by simp only [hget, hfind, hverify]⟩
          | ok _ =>
            refine Or.inr (Or.inr ⟨principalFromRow row, ⟨?_, ?_⟩, ?_⟩)
            · rw [hparse, ← hid]
              rfl
            · exact ⟨keys, row, hkeys, hrow, rfl, hactive, verifyPassword_of_verifyHash hverify, rfl⟩
            · simp only [hget, hfind, hverify]
              rfl

end Sentinalysis.Hub
