/-
# Sentinalysis.Db.Constraints — what the columns of the tables take.

The constraints of the migrations, over the values that are bound for a row.  A column that is not
null is not optional in the record that is bound for it.  `TEXT` and `JSONB` have no place for
U+0000.  A multi-row `INSERT` is one statement, so that a value that is refused fails all its rows.
-/
import Sentinalysis.Db.ApiKeyRepo
import Sentinalysis.Db.AppEventRepo
import Sentinalysis.Db.LogEntryRepo
import Sentinalysis.Lib.Regex

namespace Sentinalysis.Db

open Lib

/-! ## Types of columns -/

/-- `TEXT`. -/
def StorableText (text : String) : Prop := '\x00' ∉ text.toList

instance (text : String) : Decidable (StorableText text) := inferInstanceAs (Decidable (¬ _))

theorem storableText_append {s t : String} :
    StorableText (s ++ t) ↔ StorableText s ∧ StorableText t := by
  unfold StorableText
  rw [String.toList_append, List.mem_append, not_or]

theorem storableText_toString (n : ℕ) : StorableText (toString n) := by
  intro hzero
  have hdigits : (toString n).toList = Nat.toDigits 10 n := Nat.toList_repr
  rw [hdigits] at hzero
  exact absurd (Nat.isDigit_of_mem_toDigits (by omega) (by omega) hzero) (by decide)

/-- A text made of other characters is stored. -/
theorem storableText_of_forall {P : Char → Prop} (hP : ¬ P '\x00') {text : String}
    (h : ∀ c ∈ text.toList, P c) : StorableText text :=
  fun hzero => hP (h _ hzero)

/-- `JSONB`. -/
def StorableJson (value : Json) : Prop := ∀ text ∈ value.texts, StorableText text

instance (value : Json) : Decidable (StorableJson value) :=
  inferInstanceAs (Decidable (∀ text ∈ value.texts, _))

/-- A signed integer of so many bits: `SMALLINT` has 16 and `BIGINT` 64. -/
def IsSigned (bits : ℕ) (n : ℤ) : Prop := -2 ^ (bits - 1) ≤ n ∧ n < 2 ^ (bits - 1)

instance (bits : ℕ) (n : ℤ) : Decidable (IsSigned bits n) := inferInstanceAs (Decidable (_ ∧ _))

/-! ## Tables -/

/-- The texts of a bound value. -/
def boundTexts : Bind → List String
  | .text value => value.toList
  | .texts values => values
  | _ => []

/-- The texts bound for an entry. -/
def entryTexts (entry : InsertLogEntry) : List String := (entryBinds entry).flatMap boundTexts

theorem forall_mem_entryTexts {P : String → Prop} {entry : InsertLogEntry} :
    (∀ text ∈ entryTexts entry, P text) ↔
      P entry.level ∧ P entry.message ∧ (∀ text ∈ entry.rawLine, P text) ∧
        (∀ text ∈ entry.clientIp, P text) ∧ (∀ text ∈ entry.requestPath, P text) ∧
        (∀ text ∈ entry.noiseReason, P text) ∧ P entry.threatLevel ∧
        (∀ text ∈ entry.threatCategories, P text) ∧ ∀ text ∈ entry.sourceHost, P text := by
  simp only [entryTexts, entryBinds, List.flatMap_cons, List.flatMap_nil, List.append_nil,
    boundTexts, List.nil_append, List.forall_mem_append, Option.mem_toList, Option.mem_def,
    Option.some.injEq, forall_eq']

/-- The values of an entry are of the types of `log_entries`, which has no checks.  `TIMESTAMPTZ` is
left out: it begins in 4713 BC, later than the timestamps of the date library do. -/
structure EntryStorable (entry : InsertLogEntry) : Prop where
  texts : ∀ text ∈ entryTexts entry, StorableText text
  statusCode : ∀ n ∈ entry.statusCode, IsSigned 16 n
  responseTimeMs : ∀ n ∈ entry.responseTimeMs, IsSigned 64 n

instance (entry : InsertLogEntry) : Decidable (EntryStorable entry) :=
  decidable_of_iff ((∀ text ∈ entryTexts entry, StorableText text) ∧
      (∀ n ∈ entry.statusCode, IsSigned 16 n) ∧ ∀ n ∈ entry.responseTimeMs, IsSigned 64 n)
    ⟨fun h => ⟨h.1, h.2.1, h.2.2⟩, fun h => ⟨h.texts, h.statusCode, h.responseTimeMs⟩⟩

/-- `chk_event_type`: `^[a-z0-9_.:-]{1,64}$`. -/
def chkEventType : Regex Empty :=
  Regex.concat [.bos, Regex.upTo 63 (Regex.cls fun c =>
    c.isLower || c.isDigit || c == '_' || c == '.' || c == ':' || c == '-'), .eos]

/-- `chk_app_name`: `^[a-z0-9._-]{1,64}$`. -/
def chkAppName : Regex Empty :=
  Regex.concat [.bos, Regex.upTo 63 (Regex.cls fun c =>
    c.isLower || c.isDigit || c == '.' || c == '_' || c == '-'), .eos]

/-- The values of an event are of the types of `app_events` and pass its checks. -/
structure EventStorable (event : InsertAppEvent) : Prop where
  appName : StorableText event.appName
  eventType : StorableText event.eventType
  userId : ∀ text ∈ event.userId, StorableText text
  payload : StorableJson event.payload
  chkEventType : chkEventType.isMatch event.eventType = true
  /-- `chk_user_id_len`: `length` counts characters. -/
  chkUserIdLen : ∀ text ∈ event.userId, text.length ≤ 128
  chkAppName : chkAppName.isMatch event.appName = true

instance (event : InsertAppEvent) : Decidable (EventStorable event) :=
  decidable_of_iff (StorableText event.appName ∧ StorableText event.eventType ∧
      (∀ text ∈ event.userId, StorableText text) ∧ StorableJson event.payload ∧
      Db.chkEventType.isMatch event.eventType = true ∧
      (∀ text ∈ event.userId, text.length ≤ 128) ∧
      Db.chkAppName.isMatch event.appName = true)
    ⟨fun ⟨happ, htype, huser, hpayload, hctype, hclen, hcapp⟩ =>
      ⟨happ, htype, huser, hpayload, hctype, hclen, hcapp⟩,
    fun h => ⟨h.appName, h.eventType, h.userId, h.payload, h.chkEventType, h.chkUserIdLen,
      h.chkAppName⟩⟩

/-- The values of a key are of the types of `api_keys` and pass its check. -/
structure KeyStorable (row : ApiKeyRow) : Prop where
  name : StorableText row.name
  hash : StorableText row.hash
  permissions : ∀ text ∈ row.permissions, StorableText text
  keyId : StorableText row.keyId
  agentId : ∀ text ∈ row.agentId, StorableText text
  hostname : ∀ text ∈ row.hostname, StorableText text
  appName : ∀ text ∈ row.appName, StorableText text
  chkApiKeyRole : ¬ (row.agentId.isSome = true ∧ row.appName.isSome = true)

/-! ## The statement -/

/-- A multi-row `INSERT`: the number of rows that are stored, or nothing when one is refused. -/
def insertRows {α : Type} (Storable : α → Prop) [DecidablePred Storable] (rows : List α) :
    Option ℕ :=
  if ∀ row ∈ rows, Storable row then some rows.length else none

/-- The statement succeeds exactly when every row is storable. -/
theorem isSome_insertRows {α : Type} {Storable : α → Prop} [DecidablePred Storable]
    {rows : List α} : (insertRows Storable rows).isSome = true ↔ ∀ row ∈ rows, Storable row := by
  unfold insertRows
  split
  · next hall => exact iff_of_true rfl hall
  · next hrefused => exact iff_of_false (by simp) hrefused

/-- It succeeds exactly when what each row is made from has what makes the row storable. -/
theorem isSome_insertRows_iff {ι α : Type} {Makes : ι → α → Prop} {Clean : ι → Prop}
    {Storable : α → Prop} [DecidablePred Storable]
    (hmakes : ∀ i a, Makes i a → (Storable a ↔ Clean i)) {sources : List ι} {rows : List α}
    (hrows : List.Forall₂ Makes sources rows) :
    (insertRows Storable rows).isSome = true ↔ ∀ i ∈ sources, Clean i := by
  rw [isSome_insertRows]
  induction hrows with
  | nil => simp
  | cons hmake _ ih => rw [List.forall_mem_cons, List.forall_mem_cons, ih, hmakes _ _ hmake]

/-- `LogEntryRepository::insert_batch`: the statement fails with the connection, or the database
refuses it. -/
def LogEntryRepository.insertBatch (failure : Option SentinelError) (refusal : SentinelError)
    (entries : List InsertLogEntry) : Except SentinelError ℕ :=
  if entries = [] then .ok 0
  else match failure with
    | some e => .error e
    | none =>
      if maxBinds < (buildInsertQuery entries).args.length then .error refusal
      else match insertRows EntryStorable entries with
        | some rowsAffected => .ok rowsAffected
        | none => .error refusal

/-- A batch can be inserted when its values can be counted and every entry is storable. -/
theorem LogEntryRepository.insertBatch_isOk_iff {entries : List InsertLogEntry} :
    (∃ failure refusal n, insertBatch failure refusal entries = .ok n) ↔
      14 * entries.length ≤ maxBinds ∧ ∀ entry ∈ entries, EntryStorable entry := by
  rw [← length_buildInsertQuery, ← isSome_insertRows]
  by_cases hempty : entries = []
  · subst hempty
    exact iff_of_true ⟨none, .Internal "", 0, rfl⟩ (by decide)
  unfold insertBatch
  simp only [if_neg hempty]
  constructor
  · rintro ⟨failure, refusal, n, h⟩
    cases failure with
    | some e => cases h
    | none =>
      simp only at h
      by_cases hbinds : maxBinds < (buildInsertQuery entries).args.length
      · rw [if_pos hbinds] at h
        cases h
      · rw [if_neg hbinds] at h
        refine ⟨not_lt.mp hbinds, ?_⟩
        cases hrows : insertRows EntryStorable entries with
        | none => rw [hrows] at h; cases h
        | some rowsAffected => rfl
  · rintro ⟨hbinds, hrows⟩
    obtain ⟨n, hrows⟩ := Option.isSome_iff_exists.mp hrows
    refine ⟨none, .Internal "", n, ?_⟩
    simp only [if_neg (not_lt.mpr hbinds), hrows]

end Sentinalysis.Db
