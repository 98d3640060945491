/-
# Sentinalysis.LogScanner.NoiseReference — the noise filter in terms of texts.

The configured texts are escaped, put together and anchored before they are searched for; the
reference below looks for the texts themselves.  The two agree but for one entry: where no extension
is configured, the expression that stands for none of them is meant to match nothing, and matches
the empty path.
-/
import Sentinalysis.LogScanner.NoiseAttacks

namespace Sentinalysis.LogScanner

open Lib Regex

namespace NoiseFilterConfig

variable (noise : NoiseFilterConfig)

/-- The path ends with a configured extension. -/
def HasExtension (path : String) : Prop :=
  ∃ extension ∈ noise.staticAssetExtensions, Text.endsWith path (dotted extension)

instance (path : String) : Decidable (noise.HasExtension path) :=
  inferInstanceAs (Decidable (∃ extension ∈ noise.staticAssetExtensions, _))

/-- The rule for the user agent, after all others. -/
def referenceUserAgent (entry : ParsedLogEntry) : FilterResult :=
  match entry.metadata.userAgent with
  | none => .Keep
  | some ua => if noise.IsBot ua then .Aggregate ("bot: " ++ ua) else .Keep

/-- The rules for the path, in their order, and then the one for the user agent; `isStatic` says what
a static asset is. -/
def referencePath (isStatic : String → Bool) (entry : ParsedLogEntry) : FilterResult :=
  match entry.metadata.requestPath with
  | none => noise.referenceUserAgent entry
  | some path =>
    if path ∈ noise.healthCheckPaths then .Aggregate "health check"
    else if IsScannerPath path then .FlagSecurity ("scanner path: " ++ path)
    else if isStatic path then .Aggregate "static asset"
    else noise.referenceUserAgent entry

/-- The reference: the first rule that applies. -/
def reference (entry : ParsedLogEntry) : FilterResult :=
  if ∃ ip ∈ entry.metadata.clientIp, ip ∈ noise.excludedIps then .Exclude "excluded IP"
  else noise.referencePath (fun path => noise.HasExtension path) entry

/-- Without extensions no path has one. -/
theorem not_hasExtension (h : noise.staticAssetExtensions = []) (path : String) :
    ¬ noise.HasExtension path := by
  unfold HasExtension
  rw [h]
  rintro ⟨extension, hmem, -⟩
  exact List.not_mem_nil hmem

/-- The expression of the filter is about the extensions, and about the empty path where there are
none. -/
theorem isStaticAsset_iff (path : String) : noise.IsStaticAsset path ↔
    noise.HasExtension path ∨ noise.staticAssetExtensions = [] ∧ path = "" := by
  unfold IsStaticAsset
  split
  · next hnone =>
    rw [or_iff_right (noise.not_hasExtension hnone path)]
    exact ⟨fun h => ⟨hnone, h⟩, fun h => h.2⟩
  · next hsome => exact ⟨Or.inl, fun h => h.resolve_right fun hnone => hsome hnone.1⟩

end NoiseFilterConfig

namespace NoiseFilter

variable {noise : NoiseFilterConfig}

/-- The last rule, on the user agent. -/
theorem evaluate_userAgent (userAgent : Option String) :
    (match userAgent.filter fun ua => (fromConfig noise).botUserAgents.any (isMatch · ua) with
      | some ua => FilterResult.Aggregate ("bot: " ++ ua)
      | none => .Keep)
      = match userAgent with
        | none => .Keep
        | some ua => if noise.IsBot ua then .Aggregate ("bot: " ++ ua) else .Keep := by
  cases userAgent with
  | none => rfl
  | some ua =>
    by_cases hbot : noise.IsBot ua
    · rw [Option.filter_some, if_pos (any_isMatch_botUserAgents_iff.mpr hbot)]
      exact (if_pos hbot).symm
    · rw [Option.filter_some, if_neg (mt any_isMatch_botUserAgents_iff.mp hbot)]
      exact (if_neg hbot).symm

/-- The filter follows the rules of the reference, with its own idea of a static asset. -/
theorem evaluate_eq (entry : ParsedLogEntry) : (fromConfig noise).evaluate entry
    = if ∃ ip ∈ entry.metadata.clientIp, ip ∈ noise.excludedIps then .Exclude "excluded IP"
      else noise.referencePath (fun path => noise.IsStaticAsset path) entry := by
  have hips : (entry.metadata.clientIp.any (· ∈ (fromConfig noise).excludedIps)) = true ↔
      ∃ ip ∈ entry.metadata.clientIp, ip ∈ noise.excludedIps := by
    rw [Option.any_eq_true]
    exact exists_congr fun ip => and_congr_right fun _ => decide_eq_true_iff
  unfold evaluate
  simp only [hips]
  refine if_congr Iff.rfl rfl ?_
  unfold NoiseFilterConfig.referencePath
  cases hpath : entry.metadata.requestPath with
  | none =>
    simp only [Option.filter_none, Option.isSome_none, Bool.false_eq_true, if_false]
    exact evaluate_userAgent _
  | some path =>
    have hhealth : (Option.filter (fun path => decide (path ∈ (fromConfig noise).healthCheckPaths))
        (some path)).isSome = true ↔ path ∈ noise.healthCheckPaths := by
      rw [isSome_filter_iff]
      simp [fromConfig]
    simp only [hhealth]
    refine if_congr Iff.rfl rfl ?_
    by_cases hscanned : IsScannerPath path
    · rw [Option.filter_some, if_pos (isMatch_scannerPaths_iff.mpr hscanned), if_pos hscanned]
    · rw [Option.filter_some, if_neg (mt isMatch_scannerPaths_iff.mp hscanned), if_neg hscanned]
      dsimp only
      refine if_congr ?_ rfl (evaluate_userAgent _)
      rw [isSome_filter_iff, decide_eq_true_iff]
      simp [isMatch_staticAssetPattern_iff]

/-! ## Where they differ -/

/-- No extension is configured, the path is empty, and no rule before comes first. -/
structure MatchesNothing (noise : NoiseFilterConfig) (entry : ParsedLogEntry) : Prop where
  noExtension : noise.staticAssetExtensions = []
  emptyPath : entry.metadata.requestPath = some ""
  notExcluded : ∀ ip ∈ entry.metadata.clientIp, ip ∉ noise.excludedIps
  notHealthCheck : "" ∉ noise.healthCheckPaths

theorem not_isScannerPath_empty : ¬ IsScannerPath "" := by decide

/-- A bot is named in its reason. -/
theorem referenceUserAgent_ne (entry : ParsedLogEntry) :
    noise.referenceUserAgent entry ≠ .Aggregate "static asset" := by
  unfold NoiseFilterConfig.referenceUserAgent
  split
  · exact fun h => FilterResult.noConfusion h
  · next ua _ =>
    split
    · intro h
      have hreason := congrArg String.toList (FilterResult.Aggregate.inj h)
      rw [String.toList_append] at hreason
      exact absurd (List.cons.inj hreason).1 (by decide)
    · exact fun h => FilterResult.noConfusion h

/-- **The filter is its reference** but for the empty path where no extension is configured. -/
theorem evaluate_eq_reference_iff (noise : NoiseFilterConfig) (entry : ParsedLogEntry) :
    (fromConfig noise).evaluate entry = noise.reference entry ↔ ¬ MatchesNothing noise entry := by
  rw [evaluate_eq]
  unfold NoiseFilterConfig.reference
  by_cases hip : ∃ ip ∈ entry.metadata.clientIp, ip ∈ noise.excludedIps
  · rw [if_pos hip, if_pos hip]
    obtain ⟨ip, hmem, hexcluded⟩ := hip
    exact iff_of_true rfl fun h => h.notExcluded ip hmem hexcluded
  rw [if_neg hip, if_neg hip]
  unfold NoiseFilterConfig.referencePath
  cases hpath : entry.metadata.requestPath with
  | none => exact iff_of_true rfl fun h => by cases hpath.symm.trans h.emptyPath
  | some path =>
    dsimp only
    by_cases hhealth : path ∈ noise.healthCheckPaths
    · rw [if_pos hhealth, if_pos hhealth]
      refine iff_of_true rfl fun h => h.notHealthCheck ?_
      rw [← Option.some.inj (hpath.symm.trans h.emptyPath)]
      exact hhealth
    rw [if_neg hhealth, if_neg hhealth]
    by_cases hscanned : IsScannerPath path
    · rw [if_pos hscanned, if_pos hscanned]
      refine iff_of_true rfl fun h => not_isScannerPath_empty ?_
      rw [← Option.some.inj (hpath.symm.trans h.emptyPath)]
      exact hscanned
    rw [if_neg hscanned, if_neg hscanned]
    by_cases hempty : noise.staticAssetExtensions = [] ∧ path = ""
    · obtain ⟨hnone, rfl⟩ := hempty
      rw [if_pos (decide_eq_true ((noise.isStaticAsset_iff "").mpr (Or.inr ⟨hnone, rfl⟩))),
        if_neg (mt of_decide_eq_true (noise.not_hasExtension hnone ""))]
      refine iff_of_false (referenceUserAgent_ne entry).symm (not_not.mpr ?_)
      exact ⟨hnone, hpath, fun ip hmem hexcluded => hip ⟨ip, hmem, hexcluded⟩, hhealth⟩
    · have hsame : noise.IsStaticAsset path ↔ noise.HasExtension path := by
        rw [noise.isStaticAsset_iff, or_iff_left hempty]
      refine iff_of_true (if_congr ?_ rfl rfl) fun h => hempty ⟨h.noExtension, ?_⟩
      · rw [decide_eq_true_iff, decide_eq_true_iff, hsame]
      · exact Option.some.inj (hpath.symm.trans h.emptyPath)

/-! ## A request without a path -/

/-- No rule is configured. -/
def noRules : NoiseFilterConfig := ⟨[], [], [], []⟩

/-- A request line with two spaces after the method. -/
def emptyPathLine : String :=
  "192.0.2.7 - - [01/Jan/2025:00:00:00 +0000] \"GET  HTTP/1.1\" 400 12 \"-\" \"-\""

def emptyPathEntry : ParsedLogEntry where
  timestamp := newYear
  sourceName := "nginx-access"
  level := .Warn
  message := "GET  400"
  raw := emptyPathLine
  metadata := {
    clientIp := some (.V4 (.new 192 0 2 7))
    requestMethod := some "GET"
    requestPath := some ""
    statusCode := some 400
    bytesSent := some 12
    userAgent := some "-"
    referer := some "-" }

/-- The entry has an empty path, and is taken for a static asset where there are none. -/
theorem evaluate_emptyPathEntry :
    nginxParse newYearCrates emptyPathLine = .ok (some emptyPathEntry) ∧
      (fromConfig noRules).evaluate emptyPathEntry = .Aggregate "static asset" ∧
      noRules.reference emptyPathEntry = .Keep := by
  refine ⟨?_, ?_, by decide⟩
  · unfold emptyPathLine
    rw [nginxParse_ofList]
    decide +kernel
  · rw [evaluate_eq]
    decide

end NoiseFilter

end Sentinalysis.LogScanner
