/-
# Sentinalysis.LogScanner.Classifier — threat classification of parsed entries.

Detection is a table of literal patterns, each searched in one part of the lowercased entry, and
two heuristics that look at the level and the status.  Level and confidence are computed from the
categories found.
-/
import Sentinalysis.LogScanner.Parser
import Mathlib.Data.List.Nodup
import Mathlib.Data.List.Perm.Subperm

namespace Sentinalysis.LogScanner

open Lib

/-! ## Levels and categories -/

/-- Severity of a threat, in increasing order. -/
inductive ThreatLevel
  | None
  | Low
  | Medium
  | High
  | Critical
  deriving DecidableEq, Repr

namespace ThreatLevel

/-- `ThreatLevel::as_str`: the name stored in `log_entries.threat_level`. -/
def asStr : ThreatLevel → String
  | None => "none"
  | Low => "low"
  | Medium => "medium"
  | High => "high"
  | Critical => "critical"

/-- `ThreatLevel::from_db`: unknown values map to `None`. -/
def fromDb (value : String) : ThreatLevel :=
  if value = "low" then Low
  else if value = "medium" then Medium
  else if value = "high" then High
  else if value = "critical" then Critical
  else None

theorem fromDb_asStr (level : ThreatLevel) : fromDb level.asStr = level := by
  cases level <;> decide

/-- The place of a level in the derived order. -/
def rank : ThreatLevel → ℕ
  | None => 0
  | Low => 1
  | Medium => 2
  | High => 3
  | Critical => 4

instance : LE ThreatLevel := ⟨fun a b => a.rank ≤ b.rank⟩

instance (a b : ThreatLevel) : Decidable (a ≤ b) := inferInstanceAs (Decidable (a.rank ≤ b.rank))

end ThreatLevel

/-- The kind of threat a log entry may indicate. -/
inductive ThreatCategory
  | SqlInjection
  | Xss
  | PathTraversal
  | CommandInjection
  | BruteForce
  | Scanner
  | SensitiveFile
  | TlsError
  | SuspiciousPattern
  deriving DecidableEq, Repr

namespace ThreatCategory

/-- `ThreatCategory::as_str`: the name stored in `log_entries.threat_categories`. -/
def asStr : ThreatCategory → String
  | SqlInjection => "sql-injection"
  | Xss => "xss"
  | PathTraversal => "path-traversal"
  | CommandInjection => "command-injection"
  | BruteForce => "brute-force"
  | Scanner => "scanner"
  | SensitiveFile => "sensitive-file"
  | TlsError => "tls-error"
  | SuspiciousPattern => "suspicious-pattern"

/-- The severity a category implies on its own. -/
def severity : ThreatCategory → ThreatLevel
  | CommandInjection => .Critical
  | SqlInjection | Xss | PathTraversal | Scanner => .High
  | BruteForce | SensitiveFile => .Medium
  | TlsError | SuspiciousPattern => .Low

/-- Categories that strongly indicate an active attack. -/
def isStrong : ThreatCategory → Bool
  | CommandInjection | SqlInjection | Scanner => true
  | _ => false

end ThreatCategory

/-- Outcome of classifying one entry; the confidence is an exact number. -/
structure ThreatResult where
  threatLevel : ThreatLevel
  categories : List ThreatCategory
  confidence : ℚ
  deriving DecidableEq, Repr

/-! ## The pattern table -/

/-- Where a pattern is searched for. -/
inductive PatternScope
  | Text
  | Path
  | TextAndPath
  | UserAgent
  | PathPrefix
  deriving DecidableEq, Repr

structure PatternRule where
  category : ThreatCategory
  scope : PatternScope
  pattern : String
  deriving DecidableEq, Repr

/-- `PatternRule::matches`. -/
def PatternRule.matches (rule : PatternRule) (text path : String) (userAgent : Option String) :
    Bool :=
  match rule.scope with
  | .Text => Text.contains text rule.pattern
  | .Path => Text.contains path rule.pattern
  | .TextAndPath => Text.contains text rule.pattern || Text.contains path rule.pattern
  | .UserAgent => userAgent.any fun ua => Text.contains ua rule.pattern
  | .PathPrefix => path == rule.pattern || Text.startsWith path rule.pattern

/-- Rules that differ in the pattern only. -/
def rules (category : ThreatCategory) (scope : PatternScope) (patterns : List String) :
    List PatternRule :=
  patterns.map fun pattern => { category, scope, pattern }

/-- `PATTERN_RULES`. -/
def patternRules : List PatternRule :=
  rules .CommandInjection .TextAndPath [";cat ", ";ls ", ";whoami", ";id ", ";rm ", "|grep",
    "|cat ", "`whoami`", "`id`", "$(wget", "$(curl", "$(cat ", ";wget ", ";curl ", ";nc ", ";bash ",
    ";sh ", ";python ", ";perl ", ";ruby ", ";php "]
  ++ rules .SqlInjection .TextAndPath ["' or '", "' or 1", " or 1=1", " or '1'='1", "union select",
    "union all select", "drop table", "drop database", "insert into", "delete from",
    "update .* set", "exec xp_", "exec sp_", "';--", "'--", "admin'--", "1; drop", "1 and 1=1",
    "1' and '1'='1"]
  ++ rules .Xss .TextAndPath ["<script", "javascript:", "onerror=", "onload=", "onclick=",
    "onmouseover=", "<img src=", "<svg ", "<iframe", "alert(", "document.cookie", "eval("]
  ++ rules .PathTraversal .Path ["../", "..\\", "..%2f", "..%5c", "%2e%2e/", "....//", "/etc/passwd",
    "/etc/shadow", "/proc/self", "php://filter", "php://input", "file://"]
  ++ rules .BruteForce .Text ["failed password", "authentication failure", "invalid user",
    "maximum authentication attempts", "too many authentication failures", "access denied",
    "login failed"]
  ++ rules .Scanner .UserAgent ["sqlmap", "nikto", "nmap", "masscan", "hydra", "medusa", "burp suite",
    "dirbuster", "gobuster", "wpscan", "nuclei", "ffuf", "feroxbuster", "w3af"]
  ++ rules .SensitiveFile .PathPrefix ["/.env", "/.git", "/.htaccess", "/.htpasswd", "/wp-config.php",
    "/config/database.yml", "/config/database.yaml", "/config/secrets.yml", "/.aws/credentials",
    "/.ssh/id_rsa", "/proc/self/environ", "/boot.ini", "/web.config", "/phpinfo.php",
    "/server-status", "/.svn", "/.ds_store"]
  ++ rules .TlsError .Text ["ssl_do_handshake", "ssl_error", "certificate verify failed", "tls alert",
    "handshake failure"]

/-! ## Classification -/

namespace ThreatResult

/-- `add_category`: adds a category that is not there yet. -/
def addCategory (result : ThreatResult) (category : ThreatCategory) : ThreatResult :=
  if category ∈ result.categories then result
  else { result with categories := result.categories ++ [category] }

/-- `calculate_threat_level`. -/
def calculateThreatLevel (result : ThreatResult) : ThreatLevel :=
  let severities := result.categories.map ThreatCategory.severity
  let hasCritical := decide (ThreatLevel.Critical ∈ severities)
  let hasHigh := severities.any fun level => decide (ThreatLevel.High ≤ level)
  let hasMedium := severities.any fun level => decide (ThreatLevel.Medium ≤ level)
  let categoryCount := result.categories.length
  if hasCritical || (hasHigh && decide (2 ≤ categoryCount)) then .Critical
  else if hasHigh then .High
  else if hasMedium || decide (2 ≤ categoryCount) then .Medium
  else if result.categories ≠ [] then .Low
  else .None

/-- `calculate_confidence`. -/
def calculateConfidence (result : ThreatResult) : ℚ :=
  let base : ℚ := match result.categories.length with
    | 1 => 7 / 10
    | 2 => 85 / 100
    | 3 | 4 => 95 / 100
    | _ => 1
  if result.categories.any ThreatCategory.isStrong then min (base + 1 / 10) 1 else base

end ThreatResult

namespace Classifier

/-- `check_brute_force_heuristic`. -/
def checkBruteForceHeuristic (result : ThreatResult) (text : String) (entry : ParsedLogEntry) :
    ThreatResult :=
  if entry.level = .Error ∧ Text.contains text "password" then result.addCategory .BruteForce
  else result

/-- `SUSPICIOUS_PATHS`. -/
def suspiciousPaths : List String :=
  ["/admin", "/wp-admin", "/phpmyadmin", "/manager", "/console", "/config", "/.env", "/backup"]

/-- `check_error_responses`. -/
def checkErrorResponses (result : ThreatResult) (metadata : LogMetadata) (path : String) :
    ThreatResult :=
  match metadata.statusCode with
  | none => result
  | some status =>
    if (status = 403 ∨ status = 404) ∧ suspiciousPaths.any (Text.contains path) then
      result.addCategory .SuspiciousPattern
    else result

/-- `str::to_lowercase`: character by character, with the two forms of the small sigma. -/
def lowercaseList (u : Unicode) : List Char → List Char → List Char
  | _, [] => []
  | before, c :: rest =>
    (if c = 'Σ' then [if u.finalSigma before.reverse rest then 'ς' else 'σ'] else u.lowercase c)
      ++ lowercaseList u (c :: before) rest

def toLowercase (u : Unicode) (s : String) : String := String.ofList (lowercaseList u [] s.toList)

/-- The categories of an entry: every rule that matches, then the two heuristics. -/
def categorize (u : Unicode) (rules : List PatternRule) (entry : ParsedLogEntry) : ThreatResult :=
  let text := toLowercase u (entry.message ++ " " ++ entry.raw)
  let path := (entry.metadata.requestPath.map (toLowercase u)).getD ""
  let userAgent := entry.metadata.userAgent.map (toLowercase u)
  let result := rules.foldl (fun result rule =>
    if rule.matches text path userAgent then result.addCategory rule.category else result)
    { threatLevel := .None, categories := [], confidence := 0 }
  checkErrorResponses (checkBruteForceHeuristic result text entry) entry.metadata path

/-- `Classifier::classify`. -/
def classify (u : Unicode) (entry : ParsedLogEntry) : ThreatResult :=
  let result := categorize u patternRules entry
  if result.categories = [] then result
  else
    { result with
      confidence := result.calculateConfidence
      threatLevel := result.calculateThreatLevel }

end Classifier

/-! ## No category twice -/

theorem ThreatResult.nodup_addCategory {result : ThreatResult} (h : result.categories.Nodup)
    (category : ThreatCategory) : (result.addCategory category).categories.Nodup := by
  unfold addCategory
  split
  · exact h
  · rename_i hnew
    exact List.nodup_append.mpr ⟨h, List.nodup_singleton _,
      fun a ha b hb => by rintro rfl; rw [List.mem_singleton.mp hb] at ha; exact hnew ha⟩

namespace Classifier

/-- **What adding a category keeps, holds of the categories of an entry.** -/
theorem categorize_induction {P : ThreatResult → Prop} (u : Unicode) (rules : List PatternRule)
    (entry : ParsedLogEntry)
    (start : P { threatLevel := .None, categories := [], confidence := 0 })
    (keep : ∀ result category, P result → P (result.addCategory category)) :
    P (categorize u rules entry) := by
  have hbrute : ∀ result text, P result → P (checkBruteForceHeuristic result text entry) := by
    intro result text h
    unfold checkBruteForceHeuristic
    split
    · exact keep _ _ h
    · exact h
  have herror : ∀ result path, P result → P (checkErrorResponses result entry.metadata path) := by
    intro result path h
    unfold checkErrorResponses
    split
    · exact h
    · split
      · exact keep _ _ h
      · exact h
  refine herror _ _ (hbrute _ _ ?_)
  refine List.foldlRecOn rules _ (motive := P) start fun result h rule _ => ?_
  split
  · exact keep _ _ h
  · exact h

theorem nodup_categorize (u : Unicode) (rules : List PatternRule) (entry : ParsedLogEntry) :
    (categorize u rules entry).categories.Nodup :=
  categorize_induction (P := fun result => result.categories.Nodup) u rules entry List.nodup_nil
    fun _ category h => ThreatResult.nodup_addCategory h category

theorem nodup_classify (u : Unicode) (entry : ParsedLogEntry) :
    (classify u entry).categories.Nodup := by
  unfold classify
  simp only
  split <;> exact nodup_categorize u _ entry

/-- An entry has at most as many categories as there are. -/
theorem length_classify_le (u : Unicode) (entry : ParsedLogEntry) :
    (classify u entry).categories.length ≤ 9 := by
  have hall : (classify u entry).categories ⊆ [.SqlInjection, .Xss, .PathTraversal,
      .CommandInjection, .BruteForce, .Scanner, .SensitiveFile, .TlsError, .SuspiciousPattern] := by
    intro category _
    cases category <;> decide
  exact (List.subperm_of_subset (nodup_classify u entry) hall).length_le

end Classifier

/-! ## A matching rule is heard -/

theorem ThreatResult.subset_addCategory (result : ThreatResult) (category : ThreatCategory) :
    result.categories ⊆ (result.addCategory category).categories := by
  unfold addCategory
  split
  · exact List.Subset.refl _
  · exact List.subset_append_left _ _

theorem ThreatResult.mem_addCategory (result : ThreatResult) (category : ThreatCategory) :
    category ∈ (result.addCategory category).categories := by
  unfold addCategory
  split
  · assumption
  · exact List.mem_append_right _ (List.mem_singleton_self _)

/-- The level is as high as every category asks for. -/
theorem ThreatResult.severity_le_calculateThreatLevel {result : ThreatResult}
    {category : ThreatCategory} (h : category ∈ result.categories) :
    category.severity ≤ result.calculateThreatLevel := by
  have hmem : category.severity ∈ result.categories.map ThreatCategory.severity :=
    List.mem_map_of_mem h
  have hany : ∀ level, level ≤ category.severity →
      (result.categories.map ThreatCategory.severity).any (fun l => decide (level ≤ l)) = true :=
    fun level hle => List.any_eq_true.mpr ⟨_, hmem, decide_eq_true hle⟩
  have hne : result.categories ≠ [] := List.ne_nil_of_mem h
  unfold calculateThreatLevel
  cases hseverity : category.severity with
  | None => exact Nat.zero_le _
  | Low =>
    simp only [if_pos hne]
    split_ifs <;> decide
  | Medium =>
    have hmedium := hany .Medium (by rw [hseverity]; decide)
    simp only [hmedium, Bool.true_or, if_true]
    split_ifs <;> decide
  | High =>
    have hhigh := hany .High (by rw [hseverity]; decide)
    simp only [hhigh, if_true]
    split_ifs <;> decide
  | Critical =>
    have hcritical : decide (ThreatLevel.Critical ∈
        result.categories.map ThreatCategory.severity) = true :=
      decide_eq_true (hseverity ▸ hmem)
    simp only [hcritical, Bool.true_or, if_true]
    decide

namespace Classifier

theorem subset_checks (result : ThreatResult) (text : String) (entry : ParsedLogEntry)
    (path : String) : result.categories ⊆
      (checkErrorResponses (checkBruteForceHeuristic result text entry) entry.metadata
        path).categories := by
  have hbrute : result.categories ⊆ (checkBruteForceHeuristic result text entry).categories := by
    unfold checkBruteForceHeuristic
    split
    · exact result.subset_addCategory _
    · exact List.Subset.refl _
  refine List.Subset.trans hbrute ?_
  unfold checkErrorResponses
  split
  · exact List.Subset.refl _
  · split
    · exact ThreatResult.subset_addCategory _ _
    · exact List.Subset.refl _

/-- A rule that matches adds its category. -/
theorem mem_categorize {u : Unicode} {rules : List PatternRule} {entry : ParsedLogEntry}
    {rule : PatternRule} (hrule : rule ∈ rules)
    (hmatch : rule.matches (toLowercase u (entry.message ++ " " ++ entry.raw))
      ((entry.metadata.requestPath.map (toLowercase u)).getD "")
      (entry.metadata.userAgent.map (toLowercase u)) = true) :
    rule.category ∈ (categorize u rules entry).categories := by
  refine subset_checks _ _ entry _ ?_
  obtain ⟨before, after, rfl⟩ := List.append_of_mem hrule
  rw [List.foldl_append, List.foldl_cons, if_pos hmatch]
  -- the rules behind it take nothing away
  refine List.foldlRecOn after _
    (motive := fun result : ThreatResult => rule.category ∈ result.categories)
    (ThreatResult.mem_addCategory _ _) fun result h rule _ => ?_
  split
  · exact ThreatResult.subset_addCategory _ _ h
  · exact h

/-- **A rule that matches raises the level** to the severity of its category at least. -/
theorem severity_le_threatLevel {u : Unicode} {entry : ParsedLogEntry} {rule : PatternRule}
    (hrule : rule ∈ patternRules)
    (hmatch : rule.matches (toLowercase u (entry.message ++ " " ++ entry.raw))
      ((entry.metadata.requestPath.map (toLowercase u)).getD "")
      (entry.metadata.userAgent.map (toLowercase u)) = true) :
    rule.category.severity ≤ (classify u entry).threatLevel := by
  have hmem := mem_categorize hrule hmatch
  unfold classify
  rw [if_neg (List.ne_nil_of_mem hmem)]
  exact ThreatResult.severity_le_calculateThreatLevel hmem

end Classifier

end Sentinalysis.LogScanner
