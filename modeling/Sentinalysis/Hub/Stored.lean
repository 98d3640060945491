/-
# Sentinalysis.Hub.Stored — whether what passes the checks can be stored.

Rows come from four places: raw lines and parsed entries that agents send, the pipeline, and the
events of applications.  Who sends has a key that `hub-key` made.  The checks and the constraints of
the tables are compared here, value by value; they differ in two points, U+0000 in texts that are
not checked for controls and the names of apps.
-/
import Sentinalysis.Hub.Events
import Sentinalysis.Hub.KeysCli
import Sentinalysis.LogScanner.Texts

namespace Sentinalysis.Hub

open Lib Db

/-! ## The places -/

/-- What a row of `log_entries` is made from. -/
inductive EntrySource
  | logLine (line : LogLine)
  | parsedEntry (parsed : ParsedLogEntry)
  | tailLine (now : DateTime) (line : LogScanner.TailLine)

/-- What a row of `app_events` is made from: an event, under the name of its app. -/
structure EventSource where
  appName : String
  event : IngestEvent

variable {η ρ : Type} {crates : LogScanner.Externals} {p : LogScanner.Pipeline η ρ}

/-- How an entry is made: a line or an entry passes under the host name of a key, or the pipeline
yields it.  A response time is an `int64` on the wire. -/
inductive MakesEntry (crates : LogScanner.Externals) (p : LogScanner.Pipeline η ρ) :
    EntrySource → InsertLogEntry → Prop
  | logLine {key : ApiKeyRow} {hostname : String} {clock : Clock} {line : LogLine}
      {entry : InsertLogEntry} (hkey : CanCreate key)
      (hhost : (principalFromRow key).hostname = some hostname)
      (hpasses : validateLogLine clock line hostname = .ok entry) :
      MakesEntry crates p (.logLine line) entry
  | parsedEntry {key : ApiKeyRow} {hostname : String} {clock : Clock} {parsed : ParsedLogEntry}
      {ingest : ParsedIngest} (hkey : CanCreate key)
      (hhost : (principalFromRow key).hostname = some hostname)
      (hwire : ∀ ms ∈ parsed.responseTimeMs, IsSigned 64 ms)
      (hpasses : validateParsedEntry clock parsed hostname = .ok ingest) :
      MakesEntry crates p (.parsedEntry parsed) ingest.entry
  | tailLine {now : DateTime} {env : η} {st st' : ρ} {line : LogScanner.TailLine}
      {entry : InsertLogEntry}
      (hyields : p.processLine crates now env st line = (.ok (some entry), st')) :
      MakesEntry crates p (.tailLine now line) entry

/-- How an event is made: it passes, at some time, under the name of the app of a key. -/
inductive MakesEvent : EventSource → InsertAppEvent → Prop
  | event {key : ApiKeyRow} {appName : String} {now : DateTime} {event : IngestEvent}
      {allowlist : List String} {row : InsertAppEvent} (hkey : CanCreate key)
      (happ : (principalFromRow key).appName = some appName)
      (hpasses : validateEvent now appName event allowlist = .ok row) :
      MakesEvent ⟨appName, event⟩ row

/-! ## What the checks leave to be asked -/

/-- There is no U+0000 in the part of a message that is stored. -/
def MessageClean (message : String) : Prop :=
  0 ∉ (Text.bytes message).take Validate.maxMessageBytes

instance (message : String) : Decidable (MessageClean message) := inferInstanceAs (Decidable (¬ _))

/-- What is kept of a line or an entry has no U+0000. -/
def EntrySource.Clean (p : LogScanner.Pipeline η ρ) : EntrySource → Prop
  | .logLine line => MessageClean line.message
  | .parsedEntry parsed => MessageClean parsed.message ∧ ∀ raw ∈ parsed.rawLine, MessageClean raw
  | .tailLine now line => p.KeepsStorable now line

/-- The name of the app would pass the check for such names, and the payload has no U+0000. -/
def EventSource.Clean (source : EventSource) : Prop :=
  Validate.appName source.appName = .ok () ∧ StorableJson source.event.payload

/-! ## The checks and the constraints -/

theorem storableText_sanitizeMessage {message : String} :
    StorableText (Validate.sanitizeMessage message) ↔ MessageClean message :=
  not_congr (Validate.nul_mem_sanitizeMessage message)

/-- U+0000 is a control character. -/
theorem storableText_of_isBoundedText {value : String} {maxLen : ℕ}
    (h : Validate.IsBoundedText value maxLen) : StorableText value := by
  intro hzero
  exact h.2 (List.any_eq_true.mpr ⟨_, hzero, by decide⟩)

theorem storableText_of_isToken {value : String} (h : Validate.isToken value = true) :
    StorableText value := by
  simp only [Validate.isToken, Bool.and_eq_true, List.all_eq_true] at h
  exact fun hzero => absurd (h.2 _ hzero) (by decide)

/-- What a key of the command carries can be stored. -/
theorem CanCreate.storableText_hostname {key : ApiKeyRow} (hkey : CanCreate key) {hostname : String}
    (hhost : (principalFromRow key).hostname = some hostname) : StorableText hostname :=
  hkey.stored.hostname hostname hhost

theorem entryStorable_lineRecord {clock : Clock} {line : LogLine} {hostname : String}
    (hhost : StorableText hostname) :
    EntryStorable (lineRecord clock line hostname) ↔ MessageClean line.message := by
  rw [← storableText_sanitizeMessage]
  constructor
  · intro h
    exact (forall_mem_entryTexts.mp h.texts).2.1
  · intro hmessage
    refine ⟨forall_mem_entryTexts.mpr ⟨?_, hmessage, ?_, ?_, ?_, ?_,
      show StorableText "none" by decide, ?_, ?_⟩, ?_, ?_⟩
    · show StorableText (if line.stream = "stderr" then "error" else "info")
      split <;> decide
    · rintro text ⟨⟩
      exact hmessage
    · exact fun _ hmem => (by cases hmem)
    · exact fun _ hmem => (by cases hmem)
    · exact fun _ hmem => (by cases hmem)
    · exact List.forall_mem_nil _
    · rintro text ⟨⟩
      exact hhost
    · exact fun _ hmem => (by cases hmem)
    · exact fun _ hmem => (by cases hmem)

theorem entryStorable_storedRecord {clock : Clock} {parsed : ParsedLogEntry} {hostname : String}
    (hhost : StorableText hostname) (hwire : ∀ ms ∈ parsed.responseTimeMs, IsSigned 64 ms)
    (hwell : WellFormed clock parsed) :
    EntryStorable (storedRecord clock parsed hostname).entry ↔
      MessageClean parsed.message ∧ ∀ raw ∈ parsed.rawLine, MessageClean raw := by
  constructor
  · intro h
    obtain ⟨-, hmessage, hraw, -⟩ := forall_mem_entryTexts.mp h.texts
    refine ⟨storableText_sanitizeMessage.mp hmessage, ?_⟩
    intro raw hmem
    exact storableText_sanitizeMessage.mp (hraw _ (Option.mem_map_of_mem _ hmem))
  · rintro ⟨hmessage, hraw⟩
    have hlevels : ∀ level ∈ Validate.levels, StorableText level := by decide
    have hthreats : ∀ level ∈ Validate.threatLevels, StorableText level := by decide
    refine ⟨forall_mem_entryTexts.mpr ⟨hlevels _ hwell.level,
      storableText_sanitizeMessage.mpr hmessage, ?_, ?_, ?_, ?_, hthreats _ hwell.threatLevel, ?_,
      ?_⟩, ?_, hwire⟩
    · intro text htext
      obtain ⟨raw, hmem, rfl⟩ := Option.map_eq_some_iff.mp htext
      exact storableText_sanitizeMessage.mpr (hraw raw hmem)
    · -- an address is written without controls
      intro ip hip
      obtain ⟨addr, haddr⟩ := Option.isSome_iff_exists.mp (hwell.clientIp ip hip)
      exact storableText_of_forall (by unfold IpAddr.IsAddrChar; decide)
        (IpAddr.forall_isAddrChar_of_parse haddr)
    · intro path hpath
      exact storableText_of_isBoundedText (hwell.requestPath path hpath)
    · intro reason hreason
      exact storableText_of_isBoundedText (hwell.noiseReason reason hreason)
    · intro category hcategory
      exact storableText_of_isToken (hwell.categories category hcategory)
    · rintro text ⟨⟩
      exact hhost
    · intro n hn
      have hstatus := hwell.statusCode
      simp only [storedRecord] at hn
      split at hn
      · cases hn
      · cases hn
        unfold IsSigned
        omega

/-- **Of an entry that was made only the clean part has to be asked for.** -/
theorem entryStorable_iff
    (hparsers : p.parsers = LogScanner.ParserRegistry.defaultRegistry crates)
    (source : EntrySource) (entry : InsertLogEntry) (h : MakesEntry crates p source entry) :
    EntryStorable entry ↔ source.Clean p := by
  cases h with
  | logLine hkey hhost hpasses =>
    obtain ⟨-, rfl⟩ := validateLogLine_eq_ok.mp hpasses
    exact entryStorable_lineRecord (hkey.storableText_hostname hhost)
  | parsedEntry hkey hhost hwire hpasses =>
    obtain ⟨hwell, rfl⟩ := validateParsedEntry_eq_ok.mp hpasses
    exact entryStorable_storedRecord (hkey.storableText_hostname hhost) hwire hwell
  | tailLine hyields => exact LogScanner.Pipeline.entryStorable_processLine hparsers hyields

/-- **Of an event that was made, the name of the app and the payload.** -/
theorem eventStorable_iff (source : EventSource) (row : InsertAppEvent)
    (h : MakesEvent source row) : EventStorable row ↔ source.Clean := by
  cases h with
  | event hkey happ hpasses =>
    obtain ⟨hwell, rfl⟩ := validateEvent_eq_ok.mp hpasses
    unfold EventSource.Clean
    rw [Validate.appName, Validate.ensure_eq_ok]
    constructor
    · exact fun hrow => ⟨hrow.chkAppName, hrow.payload⟩
    -- the rest of the row is settled by the checks
    · rintro ⟨hname, hpayload⟩
      -- both expressions have their characters from classes without U+0000
      have hclasses : ∀ {c : Char → Bool}, c '\x00' = false →
          (Regex.upTo 63 (Regex.cls c) : Regex Empty).Classes
            (fun q => ∀ x, q x = true → x ≠ '\x00') := by
        intro c hc
        apply Regex.classes_upTo
        rintro x hx rfl
        rw [hc] at hx
        cases hx
      refine ⟨?_, ?_, ?_, hpayload, hwell.eventType, ?_, hname⟩
      · exact storableText_of_forall (not_not.mpr rfl)
          (Regex.forall_of_isMatch (hclasses (by decide)) hname)
      · exact storableText_of_forall (not_not.mpr rfl)
          (Regex.forall_of_isMatch (hclasses (by decide)) hwell.eventType)
      · intro user huser
        exact storableText_of_isBoundedText (hwell.userId user huser)
      · -- no text has more characters than bytes
        intro user huser
        have hbytes := (hwell.userId user huser).1
        have hchars := Text.length_le_len user
        unfold Validate.maxUserIdLen at hbytes
        omega

/-! ## Batches -/

/-- **What is stored of what passes.**  Entries and events that were made are stored, each kind by
one statement, exactly when all of them are clean.  The pipeline has the default parsers, which are
all there are. -/
theorem inserts_succeed_iff
    (hparsers : p.parsers = LogScanner.ParserRegistry.defaultRegistry crates)
    {sources : List EntrySource} {entries : List InsertLogEntry}
    (hentries : List.Forall₂ (MakesEntry crates p) sources entries)
    {events : List EventSource} {rows : List InsertAppEvent}
    (hrows : List.Forall₂ MakesEvent events rows) :
    ((insertRows EntryStorable entries).isSome = true ↔ ∀ source ∈ sources, source.Clean p) ∧
      ((insertRows EventStorable rows).isSome = true ↔ ∀ source ∈ events, source.Clean) :=
  ⟨isSome_insertRows_iff (entryStorable_iff hparsers) hentries,
    isSome_insertRows_iff eventStorable_iff hrows⟩

/-! ## At the new year -/

open LogScanner (newYear newYearCrates shopEntry shopLine)

/-- A line of a container. -/
def webLine (message : String) : LogLine where
  timestampMs := 1735689600000
  container := "web"
  stream := "stdout"
  message := message

/-- A login. -/
def loginEvent : IngestEvent where
  eventType := "login"
  userId := some "u-1"
  payload := .object []
  timestamp := newYear

/-- The pipeline with the default configuration, and ids that are given. -/
def defaultPipeline : LogScanner.Pipeline (Option Uuid) Unit :=
  .build newYearCrates .default LogScanner.givenIds

/-- The line passes, whatever it says. -/
theorem makesEntry_webLine (message : String) :
    MakesEntry crates p (.logLine (webLine message))
      (lineRecord ⟨newYear, newYear⟩ (webLine message) "web-1") := by
  have hrole : Role.fromAction (.Create (some "web-1") none none none)
      = .ok (some ⟨"web-1", some "web-1", some "web-1", none,
        [Permission.IngestMetrics.asStr, Permission.IngestLogs.asStr]⟩) := rfl
  have hkey := canCreate_of_fromAction hrole (by decide)
    (by rintro text ⟨⟩; exact show StorableText "web-1" by decide) 1
    (show StorableText "$argon2id$" by decide) (show StorableText "0123abcd" by decide)
  have hwell : LineWellFormed ⟨newYear, newYear⟩ (webLine message) :=
    ⟨show Validate.containerRe.isMatch "web" = true by decide +kernel, Or.inl rfl,
      show Validate.InWindow (tsFromMs newYear 1735689600000) newYear by decide +kernel⟩
  exact .logLine hkey rfl (validateLogLine_eq_ok.mpr ⟨hwell, rfl⟩)

/-- The login passes, whatever the app is called. -/
theorem makesEvent_login {appName : String} (happ : StorableText appName) :
    MakesEvent ⟨appName, loginEvent⟩ (eventRow appName loginEvent) := by
  have hrole : Role.fromAction (.Create none none (some appName) none)
      = .ok (some ⟨appName, none, none, some appName, [Permission.IngestEvents.asStr]⟩) := rfl
  have hkey := canCreate_of_fromAction hrole happ (fun _ hmem => (by cases hmem)) 1
    (show StorableText "$argon2id$" by decide) (show StorableText "0123abcd" by decide)
  have hwell : EventWellFormed newYear loginEvent [] := by
    refine ⟨by decide +kernel, fun hne => absurd rfl hne, ?_, rfl, by decide +kernel,
      by decide +kernel⟩
    rintro user ⟨⟩
    decide +kernel
  exact .event hkey rfl (validateEvent_eq_ok.mpr ⟨hwell, rfl⟩)

/-- A tailed request, a line of a container and a login are stored. -/
theorem inserts_succeed_newYear : ∃ entries rows,
    List.Forall₂ (MakesEntry newYearCrates defaultPipeline)
      [.tailLine newYear shopLine, .logLine (webLine "ready")] entries ∧
    List.Forall₂ MakesEvent [⟨"shop", loginEvent⟩] rows ∧
    (insertRows EntryStorable entries).isSome = true ∧
    (insertRows EventStorable rows).isSome = true := by
  have hparse : defaultPipeline.parseLine newYear shopLine = .ok (some shopEntry) :=
    LogScanner.parseLine_of_nginx .default LogScanner.givenIds newYear rfl
      LogScanner.parse_shopLine
  have hyields := LogScanner.Pipeline.processLine_of_parseLine newYearCrates none () hparse
  have hentries := List.Forall₂.cons (MakesEntry.tailLine hyields)
    (.cons (makesEntry_webLine "ready") .nil)
  have hrows : List.Forall₂ MakesEvent [⟨"shop", loginEvent⟩] [eventRow "shop" loginEvent] :=
    .cons (makesEvent_login (by decide)) .nil
  obtain ⟨hlogs, hevents⟩ := inserts_succeed_iff rfl hentries hrows
  refine ⟨_, _, hentries, hrows, hlogs.mpr ?_, hevents.mpr ?_⟩
  · rw [List.forall_mem_cons, List.forall_mem_singleton]
    refine ⟨?_, show MessageClean "ready" by decide +kernel⟩
    intro entry hentry
    obtain rfl := Option.some.inj (Except.ok.inj (hparse.symm.trans hentry))
    have hkept : (defaultPipeline.filter.evaluate shopEntry).noiseReason = none := by
      decide +kernel
    unfold LogScanner.KeptStorable
    rw [hkept]
    decide +kernel
  · rw [List.forall_mem_singleton]
    exact ⟨Validate.ensure_eq_ok.mpr (by decide +kernel), List.forall_mem_nil _⟩

/-- A line with U+0000 in it fails the statement for the line beside it, and an app may have a name
under which no event is ever stored. -/
theorem passed_refused :
    (∃ line other entry,
      MakesEntry newYearCrates defaultPipeline (.logLine (webLine "ready")) line ∧
      MakesEntry newYearCrates defaultPipeline other entry ∧
      (insertRows EntryStorable [line]).isSome = true ∧
      insertRows EntryStorable [line, entry] = none) ∧
    ∃ row, MakesEvent ⟨"My App", loginEvent⟩ row ∧ insertRows EventStorable [row] = none := by
  refine ⟨⟨_, .logLine (webLine "a\x00b"), _, makesEntry_webLine _, makesEntry_webLine _, ?_, ?_⟩,
    _, makesEvent_login (by decide), ?_⟩
  · decide +kernel
  · decide +kernel
  · decide +kernel

end Sentinalysis.Hub
