/-
# Sentinalysis.LogScanner.Texts — where the texts of an entry come from.

What a parser keeps of a line as text is cut out of the line, so that a line without U+0000 becomes
an entry without it.  Of a line that is stored as noise less is kept, and what is left out does no
harm.
-/
import Sentinalysis.Db.Constraints
import Sentinalysis.LogScanner.Pipeline

namespace Sentinalysis.LogScanner

open Lib Db

/-! ## The parsers -/

/-- The texts of an entry are cut out of its line. -/
structure CutFrom (text : List Char) (entry : ParsedLogEntry) : Prop where
  raw : entry.raw.toList = text
  message : '\x00' ∉ text → StorableText entry.message
  requestPath : '\x00' ∉ text → ∀ path ∈ entry.metadata.requestPath, StorableText path
  userAgent : '\x00' ∉ text → ∀ ua ∈ entry.metadata.userAgent, StorableText ua

variable {crates : Externals}

/-- A captured text is part of the line. -/
theorem storableText_nameUnwrap {γ : Type} [DecidableEq γ] {r : Regex γ} {text : List Char}
    {caps : Regex.Captures γ} (hcaps : r.captures text = some caps) (htext : '\x00' ∉ text)
    (name : γ) : StorableText (caps.nameUnwrap name) :=
  fun hzero => htext
    (Regex.Captures.nameUnwrap_subset (Regex.subset_of_captures hcaps) name hzero)

theorem nginxParseTrimmed_cutFrom {text : List Char} {entry : ParsedLogEntry}
    (h : nginxParseTrimmed crates text = .ok (some entry)) : CutFrom text entry := by
  obtain ⟨caps, hcaps, hentry⟩ := nginxParseTrimmed_fromGroups h
  obtain ⟨method, path, hpath, hparts, status, hmessage⟩ := hentry.request
  have hpart : '\x00' ∉ text → ∀ part, method = some part ∨ path = some part →
      StorableText part := by
    intro htext part hpart hzero
    exact storableText_nameUnwrap hcaps htext .request
      (Text.splitn_subset _ _ _ part (hparts part hpart) hzero)
  have hspace : StorableText " " := by decide
  have hgetD : ∀ part : Option String, (∀ value, part = some value → StorableText value) →
      StorableText (part.getD "") := by
    intro part hstorable
    cases part with
    | none => exact show StorableText "" by decide
    | some value => exact hstorable value rfl
  refine ⟨by rw [hentry.raw, String.toList_ofList], ?_, ?_, ?_⟩
  · intro htext
    rw [hmessage]
    simp only [storableText_append]
    exact ⟨⟨⟨⟨hgetD method fun part h => hpart htext part (Or.inl h), hspace⟩,
      hgetD path fun part h => hpart htext part (Or.inr h)⟩, hspace⟩, storableText_toString _⟩
  · intro htext part h
    exact hpart htext part (Or.inr (hpath.symm.trans h))
  · rintro htext ua h
    rw [hentry.userAgent] at h
    obtain rfl := Option.some.inj h
    exact storableText_nameUnwrap hcaps htext _

theorem authParseTrimmed_cutFrom {now : DateTime} {text : List Char} {entry : ParsedLogEntry}
    (h : authParseTrimmed crates now text = .ok (some entry)) : CutFrom text entry := by
  -- what both formats keep
  have hbuilt : ∀ {r : Regex SyslogGroup} {caps}, r.captures text = some caps →
      ∀ e : ParsedLogEntry, e.raw = String.ofList text → e.metadata.requestPath = none →
      e.metadata.userAgent = none →
      e.message = "[" ++ caps.nameUnwrap .service ++ "] " ++ caps.nameUnwrap .message →
      CutFrom text e := by
    intro r caps hcaps e hraw hpath hagent hmessage
    refine ⟨by rw [hraw, String.toList_ofList], ?_, by simp [hpath], by simp [hagent]⟩
    intro htext
    have hopen : StorableText "[" := by decide
    have hclose : StorableText "] " := by decide
    rw [hmessage, storableText_append, storableText_append, storableText_append]
    exact ⟨⟨⟨hopen, storableText_nameUnwrap hcaps htext _⟩, hclose⟩,
      storableText_nameUnwrap hcaps htext _⟩
  unfold authParseTrimmed at h
  split at h
  · cases h
  · dsimp only at h
    split at h
    · next caps hcaps =>
      obtain ⟨timestamp, -, h⟩ := bind_eq_ok_iff.mp h
      obtain ⟨_, heq, h⟩ := bind_eq_ok_iff.mp h
      obtain rfl := Except.ok.inj heq
      obtain rfl := Option.some.inj (Except.ok.inj h)
      exact hbuilt hcaps _ rfl rfl rfl rfl
    · split at h
      · next caps hcaps =>
        obtain ⟨timestamp, -, h⟩ := bind_eq_ok_iff.mp h
        obtain ⟨_, heq, h⟩ := bind_eq_ok_iff.mp h
        obtain rfl := Except.ok.inj heq
        obtain rfl := Option.some.inj (Except.ok.inj h)
        exact hbuilt hcaps _ rfl rfl rfl rfl
      · cases h

/-- **Both parsers cut the texts of an entry out of the trimmed line.** -/
theorem parseLine_cutFrom {η ρ : Type} {p : Pipeline η ρ}
    (hparsers : p.parsers = ParserRegistry.defaultRegistry crates) {now : DateTime}
    {line : TailLine} {entry : ParsedLogEntry} (h : p.parseLine now line = .ok (some entry)) :
    CutFrom (trim line.line) entry := by
  unfold Pipeline.parseLine at h
  rw [hparsers] at h
  unfold ParserRegistry.forPath at h
  dsimp only at h
  split at h
  · next found hfind =>
    -- either parser may be the first that handles the name
    have hmem := List.mem_of_find?_eq_some hfind
    simp only [ParserRegistry.defaultRegistry, List.mem_cons, List.not_mem_nil, or_false] at hmem
    rcases hmem with rfl | rfl
    · exact authParseTrimmed_cutFrom h
    · exact nginxParseTrimmed_cutFrom h
  · exact nginxParseTrimmed_cutFrom h

/-! ## The record -/

theorem LogLevel.storableText_asStr (level : LogLevel) : StorableText level.asStr := by
  cases level <;> decide

theorem ThreatLevel.storableText_asStr (level : ThreatLevel) : StorableText level.asStr := by
  cases level <;> decide

theorem ThreatCategory.storableText_asStr (category : ThreatCategory) :
    StorableText category.asStr := by
  cases category <;> decide

theorem storableText_display (addr : IpAddr) : StorableText addr.display := by
  have hchars := IpAddr.forall_isAddrChar_of_parse (IpAddr.parse_display addr)
  exact storableText_of_forall (by unfold IpAddr.IsAddrChar; decide) hchars

/-- A cast stays in the range of its type. -/
theorem isSigned_asSigned {bits : ℕ} (hbits : 0 < bits) (n : ℕ) :
    IsSigned bits (asSigned bits n) := by
  obtain ⟨k, rfl⟩ : ∃ k, bits = k + 1 := ⟨bits - 1, by omega⟩
  have hle : -(((2 ^ (k + 1) : ℕ) : ℤ) / 2) ≤ asSigned (k + 1) n := Int.le_bmod (by positivity)
  have hlt : asSigned (k + 1) n < (((2 ^ (k + 1) : ℕ) : ℤ) + 1) / 2 := Int.bmod_lt (by positivity)
  have hhalf : ((2 ^ (k + 1) : ℕ) : ℤ) = 2 * 2 ^ k := by push_cast; ring
  rw [hhalf] at hle hlt
  unfold IsSigned
  rw [Nat.add_sub_cancel]
  omega

/-- What is kept has no U+0000: of noise the message, the path and the reason, else the line. -/
def KeptStorable (filter : NoiseFilter) (line : TailLine) (entry : ParsedLogEntry) : Prop :=
  match (filter.evaluate entry).noiseReason with
  | none => StorableText line.line
  | some reason => StorableText entry.message ∧ StorableText reason ∧
      ∀ path ∈ entry.metadata.requestPath, StorableText path

/-- **A record is storable exactly when what is kept of its line is.** -/
theorem entryStorable_insertEntry {line : TailLine} {entry : ParsedLogEntry}
    (hcut : CutFrom (trim line.line) entry) (filter : NoiseFilter) (serviceId : Option Uuid) :
    EntryStorable (insertEntry crates filter entry serviceId) ↔ KeptStorable filter line entry := by
  have hline : StorableText line.line ↔ '\x00' ∉ trim line.line :=
    not_congr (Text.mem_trimList (by decide)).symm
  have hip : ∀ text ∈ entry.metadata.clientIp.map IpAddr.display, StorableText text := by
    intro text htext
    obtain ⟨addr, -, rfl⟩ := Option.map_eq_some_iff.mp htext
    exact storableText_display addr
  have hcategories : ∀ text ∈ (Classifier.classify crates.unicode entry).categories.map
      ThreatCategory.asStr, StorableText text := by
    intro text htext
    obtain ⟨category, -, rfl⟩ := List.mem_map.mp htext
    exact category.storableText_asStr
  have hstatus : ∀ n ∈ entry.metadata.statusCode.map fun s => asSigned 16 s.toNat,
      IsSigned 16 n := by
    intro n hn
    obtain ⟨s, -, rfl⟩ := Option.map_eq_some_iff.mp hn
    exact isSigned_asSigned (by omega) _
  have hms : ∀ n ∈ entry.metadata.responseTimeMs.map fun ms => asSigned 64 ms.toNat,
      IsSigned 64 n := by
    intro n hn
    obtain ⟨ms, -, rfl⟩ := Option.map_eq_some_iff.mp hn
    exact isSigned_asSigned (by omega) _
  unfold KeptStorable
  cases hreason : (filter.evaluate entry).noiseReason with
  | none =>
    -- the line itself is stored, so that everything else follows from it
    constructor
    · intro h
      obtain ⟨-, -, hraw, -⟩ := forall_mem_entryTexts.mp h.texts
      rw [hline, ← hcut.raw]
      exact hraw entry.raw (by simp [insertEntry, hreason])
    · intro h
      refine ⟨forall_mem_entryTexts.mpr ⟨LogLevel.storableText_asStr _, hcut.message (hline.mp h),
        ?_, hip, hcut.requestPath (hline.mp h), ?_, ThreatLevel.storableText_asStr _, hcategories,
        ?_⟩, hstatus, hms⟩
      · intro text htext
        obtain rfl : entry.raw = text := by simpa [insertEntry, hreason] using htext
        unfold StorableText
        rw [hcut.raw]
        exact hline.mp h
      · intro text htext
        simp [insertEntry, hreason] at htext
      · intro text htext
        cases htext
  | some reason =>
    constructor
    · intro h
      obtain ⟨-, hmessage, -, -, hpath, hnoise, -⟩ := forall_mem_entryTexts.mp h.texts
      exact ⟨hmessage, hnoise reason hreason, hpath⟩
    · rintro ⟨hmessage, hnoise, hpath⟩
      refine ⟨forall_mem_entryTexts.mpr ⟨LogLevel.storableText_asStr _, hmessage, ?_, hip, hpath,
        ?_, ThreatLevel.storableText_asStr _, hcategories, ?_⟩, hstatus, hms⟩
      · -- the line of noise is left out
        intro text htext
        simp [insertEntry, hreason] at htext
      · intro text htext
        obtain rfl : reason = text := Option.some.inj (hreason.symm.trans htext)
        exact hnoise
      · intro text htext
        cases htext

/-- What is kept of a line that is parsed has no U+0000. -/
def Pipeline.KeepsStorable {η ρ : Type} (p : Pipeline η ρ) (now : DateTime) (line : TailLine) :
    Prop :=
  ∀ entry, p.parseLine now line = .ok (some entry) → KeptStorable p.filter line entry

/-- **What the pipeline makes of a line is storable exactly when what it keeps of the line is.** -/
theorem Pipeline.entryStorable_processLine {η ρ : Type} {p : Pipeline η ρ}
    (hparsers : p.parsers = ParserRegistry.defaultRegistry crates) {now : DateTime} {env : η}
    {st st' : ρ} {line : TailLine} {e : InsertLogEntry}
    (h : p.processLine crates now env st line = (.ok (some e), st')) :
    EntryStorable e ↔ p.KeepsStorable now line := by
  obtain ⟨entry, hparse, -, rfl⟩ := Pipeline.processLine_eq_some_iff.mp h
  rw [entryStorable_insertEntry (parseLine_cutFrom hparsers hparse)]
  constructor
  · intro hkept entry' hparse'
    rw [hparse] at hparse'
    obtain rfl := Option.some.inj (Except.ok.inj hparse')
    exact hkept
  · exact fun hkept => hkept entry hparse

end Sentinalysis.LogScanner
