/-
# Sentinalysis.LogScanner.Filter — the noise filter.

The filter decides whether a parsed entry is kept, stored as noise or flagged as a security event.
Rules are tried in a fixed order and the first that applies wins.  Configured extensions and user
agents are literals: they are escaped before they become expressions.
-/
import Sentinalysis.LogScanner.Parser

namespace Sentinalysis.LogScanner

open Lib Regex

/-- `NoiseFilterConfig`. -/
structure NoiseFilterConfig where
  excludedIps : List IpAddr
  healthCheckPaths : List String
  staticAssetExtensions : List String
  knownBotUserAgents : List String
  deriving DecidableEq, Repr

/-- `NoiseFilterConfig::default`. -/
def NoiseFilterConfig.default : NoiseFilterConfig where
  excludedIps := [.V4 (.new 127 0 0 1)]
  healthCheckPaths := ["/health", "/healthz"]
  staticAssetExtensions := ["css", "js", "png", "jpg", "jpeg", "gif", "ico", "svg", "woff", "woff2",
    "ttf", "eot"]
  knownBotUserAgents := ["Googlebot", "Bingbot", "YandexBot", "Slurp", "DuckDuckBot"]

structure NoiseFilter where
  excludedIps : List IpAddr
  healthCheckPaths : List String
  staticAssetPattern : Regex Empty
  botUserAgents : List (Regex Empty)
  scannerPaths : Regex Unit

/-- The storage decision for a parsed entry. -/
inductive FilterResult
  | Keep
  | Exclude (reason : String)
  | Aggregate (reason : String)
  | FlagSecurity (reason : String)
  deriving DecidableEq, Repr

namespace FilterResult

def shouldStore : FilterResult → Bool
  | Exclude _ => false
  | _ => true

def isSecurityFlag : FilterResult → Bool
  | FlagSecurity _ => true
  | _ => false

/-- Whether the entry is stored as noise, and for what reason. -/
def noiseReason : FilterResult → Option String
  | Exclude reason => some reason
  | Aggregate reason => some reason
  | _ => none

end FilterResult

namespace NoiseFilter

/-- One extension at the end of a path: with a dot of its own it is taken as it stands, else a dot
must come before it. -/
def extensionRe (extension : String) : Regex Empty :=
  if Text.contains extension "." then lit extension else seq (lit ".") (lit extension)

/-- `NoiseFilter::from_config`. -/
def fromConfig (config : NoiseFilterConfig) : NoiseFilter where
  excludedIps := config.excludedIps
  healthCheckPaths := config.healthCheckPaths
  staticAssetPattern :=
    if config.staticAssetExtensions = [] then seq eos bos
    else seq (oneOf (config.staticAssetExtensions.map extensionRe)) eos
  botUserAgents := config.knownBotUserAgents.map lit
  scannerPaths := cap () (oneOf (["/wp-admin", "/wp-login", "/phpmyadmin", "/.env", "/.git",
    "/admin.php", "/xmlrpc.php"].map lit))

/-- `NoiseFilter::with_excluded_ips`. -/
def withExcludedIps (filter : NoiseFilter) (ips : List IpAddr) : NoiseFilter :=
  { filter with excludedIps := ips }

/-- `NoiseFilter::evaluate`. -/
def evaluate (filter : NoiseFilter) (entry : ParsedLogEntry) : FilterResult :=
  let path (test : String → Bool) := entry.metadata.requestPath.filter test
  if entry.metadata.clientIp.any (· ∈ filter.excludedIps) then .Exclude "excluded IP"
  else if (path (· ∈ filter.healthCheckPaths)).isSome then .Aggregate "health check"
  else match path filter.scannerPaths.isMatch with
    | some path => .FlagSecurity ("scanner path: " ++ path)
    | none =>
      if (path filter.staticAssetPattern.isMatch).isSome then .Aggregate "static asset"
      else match entry.metadata.userAgent.filter fun ua => filter.botUserAgents.any (isMatch · ua) with
        | some ua => .Aggregate ("bot: " ++ ua)
        | none => .Keep

end NoiseFilter

end Sentinalysis.LogScanner
