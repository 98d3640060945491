/-
# Sentinalysis.LogScanner.NoiseAttacks — when the noise filter leaves an attack alone.

The filter and the classifier judge the same entry and neither sees what the other found.  What the
filter says is put in terms of texts here: which paths and user agents its rules are about.  An
attack is kept in full when no rule is about it, and a scanner path is about the only thing that
comes before the rules for static assets and bots.
-/
import Sentinalysis.Lib.RegexLanguage
import Sentinalysis.LogScanner.Pipeline

namespace Sentinalysis.LogScanner

open Lib Db Regex

/-! ## What the rules are about -/

/-- The paths of known reconnaissance. -/
def knownScannerPaths : List String :=
  ["/wp-admin", "/wp-login", "/phpmyadmin", "/.env", "/.git", "/admin.php", "/xmlrpc.php"]

/-- The path contains a scanner path. -/
def IsScannerPath (path : String) : Prop := ∃ scanned ∈ knownScannerPaths, Text.contains path scanned

instance (path : String) : Decidable (IsScannerPath path) :=
  inferInstanceAs (Decidable (∃ scanned ∈ knownScannerPaths, _))

/-- What a path of the extension ends with. -/
def dotted (extension : String) : String :=
  if Text.contains extension "." then extension else "." ++ extension

namespace NoiseFilterConfig

variable (noise : NoiseFilterConfig)

/-- The path has a configured extension; where none is configured, the empty path counts. -/
def IsStaticAsset (path : String) : Prop :=
  if noise.staticAssetExtensions = [] then path = ""
  else ∃ extension ∈ noise.staticAssetExtensions, Text.endsWith path (dotted extension)

instance (path : String) : Decidable (noise.IsStaticAsset path) := by
  unfold IsStaticAsset
  infer_instance

/-- The user agent contains a known one. -/
def IsBot (userAgent : String) : Prop :=
  ∃ bot ∈ noise.knownBotUserAgents, Text.contains userAgent bot

instance (userAgent : String) : Decidable (noise.IsBot userAgent) :=
  inferInstanceAs (Decidable (∃ bot ∈ noise.knownBotUserAgents, _))

/-- No rule but the one for excluded addresses makes the entry noise. -/
structure Spares (entry : ParsedLogEntry) : Prop where
  notHealthCheck : ∀ path ∈ entry.metadata.requestPath, path ∉ noise.healthCheckPaths
  scannedOrPlain : (∃ path ∈ entry.metadata.requestPath, IsScannerPath path) ∨
    (∀ path ∈ entry.metadata.requestPath, ¬ noise.IsStaticAsset path) ∧
      ∀ ua ∈ entry.metadata.userAgent, ¬ noise.IsBot ua

end NoiseFilterConfig

/-! ## The expressions of the filter -/

namespace NoiseFilter

variable {noise : NoiseFilterConfig}

theorem isMatch_scannerPaths_iff {path : String} :
    (fromConfig noise).scannerPaths.isMatch path = true ↔ IsScannerPath path := by
  have hlits : ∀ r ∈ knownScannerPaths.map (lit : String → Regex Unit), r.AnchorFree :=
    List.forall_mem_map.mpr fun scanned _ => anchorFree_lit scanned
  have hfree : (fromConfig noise).scannerPaths.AnchorFree := anchorFree_oneOf hlits
  have hwords : ∀ w, w ∈ language (fromConfig noise).scannerPaths ↔
      ∃ scanned ∈ knownScannerPaths, w = scanned.toList := by
    intro w
    have hlanguage : language (fromConfig noise).scannerPaths
        = language (oneOf (knownScannerPaths.map lit) : Regex Unit) := rfl
    rw [hlanguage, mem_language_oneOf]
    simp only [List.mem_map, exists_exists_and_eq_and, mem_language_lit]
  simp [isMatch_iff hfree, hwords, IsScannerPath, Text.contains]

theorem anchorFree_extensionRe (extension : String) : (extensionRe extension).AnchorFree := by
  unfold extensionRe
  split
  · exact anchorFree_lit extension
  · exact ⟨anchorFree_lit ".", anchorFree_lit extension⟩

theorem mem_language_extensionRe {extension : String} {w : List Char} :
    w ∈ language (extensionRe extension) ↔ w = (dotted extension).toList := by
  unfold extensionRe dotted
  split
  · exact mem_language_lit
  · rw [language, Language.mem_mul, String.toList_append]
    simp [eq_comm]

theorem isMatch_staticAssetPattern_iff {path : String} :
    (fromConfig noise).staticAssetPattern.isMatch path = true ↔ noise.IsStaticAsset path := by
  unfold fromConfig NoiseFilterConfig.IsStaticAsset
  dsimp only
  split
  · exact isMatch_seq_eos_bos_iff
  · have hfree := anchorFree_oneOf
      (List.forall_mem_map.mpr fun extension (_ : extension ∈ noise.staticAssetExtensions) =>
        anchorFree_extensionRe extension)
    simp [isMatch_seq_eos_iff hfree, mem_language_oneOf, mem_language_extensionRe, Text.endsWith]

theorem any_isMatch_botUserAgents_iff {ua : String} :
    ((fromConfig noise).botUserAgents.any (isMatch · ua)) = true ↔ noise.IsBot ua := by
  simp [fromConfig, List.any_map, isMatch_lit_iff, NoiseFilterConfig.IsBot, Text.contains]

/-! ## The verdict -/

theorem isSome_filter_iff {α : Type} {o : Option α} {test : α → Bool} :
    (o.filter test).isSome = true ↔ ∃ a ∈ o, test a = true := by
  rw [Option.isSome_filter, Option.any_eq_true]
  rfl

/-- **The verdict on an entry** whose address is not excluded. -/
theorem noiseReason_evaluate_eq_none_iff {entry : ParsedLogEntry}
    (hip : ∀ ip ∈ entry.metadata.clientIp, ip ∉ noise.excludedIps) :
    ((fromConfig noise).evaluate entry).noiseReason = none ↔ noise.Spares entry := by
  have hany : ¬ entry.metadata.clientIp.any (· ∈ (fromConfig noise).excludedIps) = true := by
    rw [Option.any_eq_true]
    rintro ⟨ip, hmem, hexcluded⟩
    exact hip ip hmem (of_decide_eq_true hexcluded)
  have hnoise : ∀ reason, (FilterResult.Aggregate reason).noiseReason ≠ none := by
    simp [FilterResult.noiseReason]
  unfold evaluate
  rw [if_neg hany]
  dsimp only
  split
  · next hhealth =>
    -- a health check, whatever else it is
    obtain ⟨path, hpath, hmem⟩ := isSome_filter_iff.mp hhealth
    exact iff_of_false (hnoise _) fun h => h.notHealthCheck path hpath (of_decide_eq_true hmem)
  · next hhealth =>
    have hhealth : ∀ path ∈ entry.metadata.requestPath, path ∉ noise.healthCheckPaths :=
      fun path hpath hmem => hhealth (isSome_filter_iff.mpr ⟨path, hpath, decide_eq_true hmem⟩)
    split
    · next path hscanned =>
      obtain ⟨hpath, hmatch⟩ := Option.filter_eq_some_iff.mp hscanned
      exact iff_of_true rfl
        ⟨hhealth, Or.inl ⟨path, hpath, isMatch_scannerPaths_iff.mp hmatch⟩⟩
    · next hscanned =>
      -- from here on the last two rules decide
      have hscanned : ¬ ∃ path ∈ entry.metadata.requestPath, IsScannerPath path := by
        rintro ⟨path, hpath, hscanner⟩
        exact Option.filter_eq_none_iff.mp hscanned path hpath
          (isMatch_scannerPaths_iff.mpr hscanner)
      split
      · next hstatic =>
        obtain ⟨path, hpath, hmatch⟩ := isSome_filter_iff.mp hstatic
        refine iff_of_false (hnoise _) fun h => ?_
        exact (h.scannedOrPlain.resolve_left hscanned).1 path hpath
          (isMatch_staticAssetPattern_iff.mp hmatch)
      · next hstatic =>
        have hstatic : ∀ path ∈ entry.metadata.requestPath, ¬ noise.IsStaticAsset path :=
          fun path hpath hasset => hstatic
            (isSome_filter_iff.mpr ⟨path, hpath, isMatch_staticAssetPattern_iff.mpr hasset⟩)
        split
        · next ua hbot =>
          obtain ⟨hua, hmatch⟩ := Option.filter_eq_some_iff.mp hbot
          refine iff_of_false (hnoise _) fun h => ?_
          exact (h.scannedOrPlain.resolve_left hscanned).2 ua hua
            (any_isMatch_botUserAgents_iff.mp hmatch)
        · next hbot =>
          refine iff_of_true rfl ⟨hhealth, Or.inr ⟨hstatic, fun ua hua hmatch => ?_⟩⟩
          exact Option.filter_eq_none_iff.mp hbot ua hua
            (any_isMatch_botUserAgents_iff.mpr hmatch)

end NoiseFilter

/-! ## Attacks -/

/-- The classifier finds the threat high or critical, and the address is not excluded. -/
structure IsAttack (u : Unicode) (noise : NoiseFilterConfig) (entry : ParsedLogEntry) : Prop where
  severe : .High ≤ (Classifier.classify u entry).threatLevel
  notExcluded : ∀ ip ∈ entry.metadata.clientIp, ip ∉ noise.excludedIps

/-- The record is not noise and has the raw line of the entry. -/
structure KeptInFull (entry : ParsedLogEntry) (e : InsertLogEntry) : Prop where
  isNoise : e.isNoise = false
  noiseReason : e.noiseReason = none
  rawLine : e.rawLine = some entry.raw

/-- A path traversal that asks for a stylesheet. -/
def traversalLine : TailLine where
  filePath := shopLog
  line := "192.0.2.7 - - [01/Jan/2025:00:00:00 +0000] \"GET /../passwd.css HTTP/1.1\" 404 12 \"-\" \"-\""
  byteOffset := 0

def traversalEntry : ParsedLogEntry where
  timestamp := newYear
  sourceName := "nginx-access"
  level := .Warn
  message := "GET /../passwd.css 404"
  raw := traversalLine.line
  metadata := {
    clientIp := some (.V4 (.new 192 0 2 7))
    requestMethod := some "GET"
    requestPath := some "/../passwd.css"
    statusCode := some 404
    bytesSent := some 12
    userAgent := some "-"
    referer := some "-" }

theorem parse_traversalLine :
    nginxParse newYearCrates traversalLine.line = .ok (some traversalEntry) := by
  unfold traversalLine
  rw [nginxParse_ofList]
  decide +kernel

theorem isAttack_traversalEntry {noise : NoiseFilterConfig}
    (h : .V4 (.new 192 0 2 7) ∉ noise.excludedIps) :
    IsAttack .ascii noise traversalEntry where
  severe := by
    have hrule : (⟨.PathTraversal, .Path, "../"⟩ : PatternRule) ∈ patternRules := by decide +kernel
    exact Classifier.severity_le_threatLevel hrule (by decide +kernel)
  notExcluded := by
    rintro ip ⟨⟩
    exact h

/-- What is kept of an entry is up to the filter alone. -/
theorem keptInFull_insertEntry_iff {crates : Externals} {filter : NoiseFilter}
    {entry : ParsedLogEntry} {serviceId : Option Uuid} :
    KeptInFull entry (insertEntry crates filter entry serviceId) ↔
      (filter.evaluate entry).noiseReason = none := by
  constructor
  · exact KeptInFull.noiseReason
  · intro h
    refine ⟨?_, h, ?_⟩ <;> simp [insertEntry, h]

namespace Pipeline

/-- **When an attack is kept in full**: its path is no health check, and either it contains a
scanner path or it has no configured extension and the user agent names no known bot. -/
theorem keptInFull_iff_spares {η ρ : Type} {crates : Externals} {p : Pipeline η ρ}
    {noise : NoiseFilterConfig} (hfilter : p.filter = NoiseFilter.fromConfig noise) {now : DateTime}
    {env : η} {st st' : ρ} {line : TailLine} {entry : ParsedLogEntry} {e : InsertLogEntry}
    (hparse : p.parseLine now line = .ok (some entry))
    (hyield : p.processLine crates now env st line = (.ok (some e), st'))
    (hattack : IsAttack crates.unicode noise entry) :
    KeptInFull entry e ↔ noise.Spares entry := by
  obtain ⟨parsed, hparsed, -, rfl⟩ := processLine_eq_some_iff.mp hyield
  obtain rfl : parsed = entry := Option.some.inj (Except.ok.inj (hparsed.symm.trans hparse))
  rw [keptInFull_insertEntry_iff, hfilter]
  exact NoiseFilter.noiseReason_evaluate_eq_none_iff hattack.notExcluded

/-- Without extensions, the traversal is kept. -/
theorem keptInFull_traversal :
    let noise : NoiseFilterConfig := { NoiseFilterConfig.default with staticAssetExtensions := [] }
    let p := build newYearCrates noise givenIds
    p.parseLine newYear traversalLine = .ok (some traversalEntry) ∧
      KeptInFull traversalEntry (insertEntry newYearCrates p.filter traversalEntry none) := by
  intro noise p
  have hparse : p.parseLine newYear traversalLine = .ok (some traversalEntry) :=
    parseLine_of_nginx noise givenIds newYear rfl parse_traversalLine
  have hattack : IsAttack newYearCrates.unicode noise traversalEntry :=
    isAttack_traversalEntry (by decide)
  refine ⟨hparse, ?_⟩
  exact (keptInFull_iff_spares rfl hparse
    (processLine_of_parseLine newYearCrates none () hparse) hattack).mpr ⟨by decide, by decide⟩

/-- With the default configuration, a stylesheet's extension hides a path traversal: it is stored as
noise and its line is dropped. -/
theorem not_keptInFull_stylesheet :
    let p := build newYearCrates .default givenIds
    let e := insertEntry newYearCrates p.filter traversalEntry none
    p.parseLine newYear traversalLine = .ok (some traversalEntry) ∧
      p.processLine newYearCrates newYear none () traversalLine = (.ok (some e), ()) ∧
      IsAttack newYearCrates.unicode .default traversalEntry ∧
      e.noiseReason = some "static asset" ∧ e.rawLine = none ∧ ¬ KeptInFull traversalEntry e := by
  intro p e
  have hparse : p.parseLine newYear traversalLine = .ok (some traversalEntry) :=
    parseLine_of_nginx .default givenIds newYear rfl parse_traversalLine
  have hreason : e.noiseReason = some "static asset" := by decide +kernel
  refine ⟨hparse, processLine_of_parseLine newYearCrates none () hparse,
    isAttack_traversalEntry (by decide), hreason, by decide +kernel, fun hkept => ?_⟩
  rw [hkept.noiseReason] at hreason
  cases hreason

end Pipeline

end Sentinalysis.LogScanner
