/-
# Sentinalysis.Agent.Parity — whether the hub stores an agent's entry as the daemon would have.

The daemon and the agent run one pipeline and differ in the resolver.  Between the agent's entry
and the stored one stand the encoder and the hub's checks.  Most fields always get through: levels
and categories come from closed sets, and a client address is written so that it reads back.  The
others get through under a condition (`Forwardable`), and `parity_iff` says that it is exact.
-/
import Sentinalysis.Agent.Logs
import Sentinalysis.Hub.Grpc

namespace Sentinalysis.Agent

open Lib Db LogScanner

/-- The stored entry agrees with the daemon's: every field the pipeline computes, the timestamp to
the millisecond, and the service. -/
structure Agrees (stored : Hub.ParsedIngest) (daemon : InsertLogEntry) (service : ServiceMeta) :
    Prop where
  level : stored.entry.level = daemon.level
  message : stored.entry.message = daemon.message
  rawLine : stored.entry.rawLine = daemon.rawLine
  clientIp : stored.entry.clientIp = daemon.clientIp
  requestPath : stored.entry.requestPath = daemon.requestPath
  statusCode : stored.entry.statusCode = daemon.statusCode
  responseTimeMs : stored.entry.responseTimeMs = daemon.responseTimeMs
  isNoise : stored.entry.isNoise = daemon.isNoise
  noiseReason : stored.entry.noiseReason = daemon.noiseReason
  threatLevel : stored.entry.threatLevel = daemon.threatLevel
  threatCategories : stored.entry.threatCategories = daemon.threatCategories
  timestamp : stored.entry.timestamp.timestampMillis = daemon.timestamp.timestampMillis
  serviceName : stored.serviceName = service.name
  unitType : stored.serviceUnitType = service.unitType
  virtualHost : stored.virtualHost = service.virtualHost

/-- The condition on a parsed line, the filter's verdict on it and its service. -/
structure Forwardable (now : DateTime) (entry : ParsedLogEntry) (verdict : FilterResult)
    (service : ServiceMeta) : Prop where
  timestamp : Hub.Validate.InWindow entry.timestamp.truncMillis now
  status : ∀ status ∈ entry.metadata.statusCode, 1 ≤ status.toNat ∧ status.toNat ≤ 599
  responseTime : ∀ ms ∈ entry.metadata.responseTimeMs, ms.toNat < 2 ^ 63
  requestPath : ∀ path ∈ entry.metadata.requestPath,
    Hub.Validate.IsBoundedText path Hub.Validate.maxPathLen
  noiseReason : ∀ reason ∈ verdict.noiseReason,
    Hub.Validate.IsBoundedText reason Hub.Validate.maxUserIdLen
  serviceName : Hub.Validate.containerRe.isMatch service.name = true

/-! ## What always gets through -/

theorem asStr_mem_levels (level : LogLevel) : level.asStr ∈ Hub.Validate.levels := by
  cases level <;> decide

theorem asStr_mem_threatLevels (level : ThreatLevel) :
    level.asStr ∈ Hub.Validate.threatLevels := by
  cases level <;> decide

theorem isToken_asStr (category : ThreatCategory) : Hub.Validate.isToken category.asStr = true := by
  cases category <;> decide

/-- The stored unit type of a pipeline service is a token. -/
theorem isToken_unitType (filePath : Path) (entry : ParsedLogEntry) :
    Hub.Validate.isToken (serviceOf filePath entry).unitType = true := by
  unfold serviceOf
  split
  · show Hub.Validate.isToken unitTypeNginxVhost = true
    decide
  · show Hub.Validate.isToken unitTypeSystemLog = true
    decide

/-- A virtual host, when a pipeline service has one, is its name. -/
theorem virtualHost_eq_name {filePath : Path} {entry : ParsedLogEntry} {vhost : String}
    (h : vhost ∈ (serviceOf filePath entry).virtualHost) :
    vhost = (serviceOf filePath entry).name := by
  unfold serviceOf at *
  split at h
  · exact (Option.some.inj h).symm
  · simp at h

/-- A message within the limit and without a final newline is kept as it is. -/
theorem sanitizeMessage_of_short {raw : String}
    (hlen : Text.len raw ≤ Hub.Validate.maxMessageBytes) (hend : raw.toList.getLast? ≠ some '\n') :
    Hub.Validate.sanitizeMessage raw = raw := by
  simp [Hub.Validate.sanitizeMessage, Text.stripNewline, hend, hlen]

/-- A cast keeps the lower half of the range and moves the upper half below zero. -/
theorem asSigned_toNat (status : UInt16) :
    asSigned 16 status.toNat = if status.toNat < 32768 then (status.toNat : ℤ)
      else status.toNat - 65536 := by
  have hlt := status.toNat_lt
  simp only [asSigned, Int.bmod_def, show ((2 ^ 16 : ℕ) : ℤ) = 65536 from rfl]
  omega

theorem asSigned_toNat64 (ms : UInt64) :
    asSigned 64 ms.toNat = if ms.toNat < 2 ^ 63 then (ms.toNat : ℤ) else ms.toNat - 2 ^ 64 := by
  have hlt := ms.toNat_lt
  simp only [asSigned, Int.bmod_def, show ((2 ^ 64 : ℕ) : ℤ) = 18446744073709551616 from rfl]
  omega

/-- The hub's status range is that of the parsed status. -/
theorem statusCode_inRange (statusCode : Option UInt16) :
    (0 ≤ (statusCode.map fun s => asSigned 16 s.toNat).getD 0 ∧
        (statusCode.map fun s => asSigned 16 s.toNat).getD 0 ≤ 599) ↔
      ∀ status ∈ statusCode, status.toNat ≤ 599 := by
  cases statusCode with
  | none => simp
  | some status =>
    have hlt := status.toNat_lt
    simp only [Option.map_some, Option.getD_some, Option.mem_def, Option.some.injEq, forall_eq',
      asSigned_toNat]
    omega

/-- A response time keeps its sign exactly when it fits. -/
theorem responseTime_nonneg (responseTimeMs : Option UInt64) :
    (∀ ms ∈ responseTimeMs.map fun ms => asSigned 64 ms.toNat, 0 ≤ ms) ↔
      ∀ ms ∈ responseTimeMs, ms.toNat < 2 ^ 63 := by
  cases responseTimeMs with
  | none => simp
  | some ms =>
    have hlt := ms.toNat_lt
    simp only [Option.map_some, Option.mem_def, Option.some.injEq, forall_eq', asSigned_toNat64]
    omega

/-! ## Parity -/

section Parity

variable {crates : Externals} {noise : NoiseFilterConfig} {clock : Hub.Clock} {hostname : String}
  {line : TailLine} {entry : ParsedLogEntry} {resolver : AgentServiceResolver} {fresh : Uuid}

/-- The wire form of an entry whose service was resolved last. -/
def wireEntry (crates : Externals) (noise : NoiseFilterConfig) (filePath : Path)
    (entry : ParsedLogEntry) : Hub.ParsedLogEntry :=
  let service := serviceOf filePath entry
  let e := insertEntry crates (NoiseFilter.fromConfig noise) entry none
  { timestampMs := entry.timestamp.timestampMillis
    level := e.level
    message := entry.message
    rawLine := e.rawLine
    clientIp := e.clientIp
    requestPath := e.requestPath
    statusCode := e.statusCode
    responseTimeMs := e.responseTimeMs
    isNoise := e.isNoise
    noiseReason := e.noiseReason
    threatLevel := e.threatLevel
    threatCategories := e.threatCategories
    serviceName := service.name
    serviceUnitType := service.unitType
    virtualHost := service.virtualHost }

/-- Encoding right after the line was processed puts the service of that line on the wire. -/
theorem entryToProto_eq_wireEntry (crates : Externals) (noise : NoiseFilterConfig) (line : TailLine)
    (entry : ParsedLogEntry) (resolver : AgentServiceResolver) (fresh : Uuid) :
    entryToProto
        (insertEntry crates (NoiseFilter.fromConfig noise) entry
          (AgentServiceResolver.resolve fresh resolver (serviceOf line.filePath entry)).1)
        (AgentServiceResolver.resolve fresh resolver (serviceOf line.filePath entry)).2
      = wireEntry crates noise line.filePath entry := by
  have hservice := AgentServiceResolver.metaOf_resolve fresh resolver (serviceOf line.filePath entry)
  simp only [entryToProto, insertEntry, hservice, wireEntry, Option.map_some, Option.getD_some,
    Option.bind_some]

/-- The checks an entry of the pipeline can fail are those of the condition. -/
theorem wellFormed_wireEntry :
    Hub.WellFormed clock (wireEntry crates noise line.filePath entry) ↔
      Hub.Validate.InWindow entry.timestamp.truncMillis clock.now ∧
      (∀ status ∈ entry.metadata.statusCode, status.toNat ≤ 599) ∧
      (∀ ms ∈ entry.metadata.responseTimeMs, ms.toNat < 2 ^ 63) ∧
      (∀ path ∈ entry.metadata.requestPath,
        Hub.Validate.IsBoundedText path Hub.Validate.maxPathLen) ∧
      (∀ reason ∈ ((NoiseFilter.fromConfig noise).evaluate entry).noiseReason,
        Hub.Validate.IsBoundedText reason Hub.Validate.maxUserIdLen) ∧
      Hub.Validate.containerRe.isMatch (serviceOf line.filePath entry).name = true := by
  have hts : Hub.tsFromMs clock.fallback entry.timestamp.timestampMillis
      = entry.timestamp.truncMillis := by
    rw [Hub.tsFromMs, DateTime.fromTimestampMillis_timestampMillis]
    rfl
  have hcode : (wireEntry crates noise line.filePath entry).statusCode
      = entry.metadata.statusCode.map fun s => asSigned 16 s.toNat := rfl
  have htime : (wireEntry crates noise line.filePath entry).responseTimeMs
      = entry.metadata.responseTimeMs.map fun ms => asSigned 64 ms.toNat := rfl
  have hstatus := statusCode_inRange entry.metadata.statusCode
  have hms := responseTime_nonneg entry.metadata.responseTimeMs
  rw [← hcode] at hstatus
  rw [← htime] at hms
  constructor
  · intro h
    have htimestamp := h.timestamp
    rw [show (wireEntry crates noise line.filePath entry).timestampMs
      = entry.timestamp.timestampMillis from rfl, hts] at htimestamp
    exact ⟨htimestamp, hstatus.mp h.statusCode, hms.mp h.responseTime, h.requestPath,
      h.noiseReason, h.serviceName⟩
  · rintro ⟨htimestamp, hs, hm, hpath, hreason, hname⟩
    exact
      { timestamp := by
          show Hub.Validate.InWindow (Hub.tsFromMs clock.fallback _) clock.now
          rw [wireEntry, hts]
          exact htimestamp
        level := asStr_mem_levels _
        threatLevel := asStr_mem_threatLevels _
        categoryCount := by
          show (List.map _ _).length ≤ _
          rw [List.length_map]
          exact (Classifier.length_classify_le _ entry).trans (by decide)
        categories := by
          intro value hvalue
          obtain ⟨category, -, rfl⟩ := List.mem_map.mp hvalue
          exact isToken_asStr category
        clientIp := by
          intro ip hip
          obtain ⟨addr, -, rfl⟩ := Option.mem_map.mp hip
          rw [IpAddr.parse_display]
          rfl
        requestPath := hpath
        noiseReason := hreason
        statusCode := hstatus.mpr hs
        responseTime := hms.mpr hm
        serviceName := hname
        unitType := isToken_unitType line.filePath entry
        virtualHost := by
          intro vhost hvhost
          rw [virtualHost_eq_name hvhost]
          exact hname }

/-- A stored status of zero reads as an absent one; the others are kept. -/
theorem storedStatus_eq (statusCode : Option UInt16)
    (hle : ∀ status ∈ statusCode, status.toNat ≤ 599) :
    (if (statusCode.map fun s => asSigned 16 s.toNat).getD 0 = 0 then none
        else some ((statusCode.map fun s => asSigned 16 s.toNat).getD 0))
      = (statusCode.map fun s => asSigned 16 s.toNat) ↔
    ∀ status ∈ statusCode, 1 ≤ status.toNat := by
  cases statusCode with
  | none => simp
  | some status =>
    have hlt := status.toNat_lt
    have hle := hle status rfl
    have hcast : asSigned 16 status.toNat = status.toNat := by
      rw [asSigned_toNat, if_pos (by omega)]
    simp only [Option.map_some, Option.getD_some, hcast, Option.mem_def, Option.some.injEq,
      forall_eq']
    split
    · simp only [reduceCtorEq, false_iff]
      omega
    · simp only [true_iff]
      omega

/-- The hub stores the wire entry, and in agreement with the daemon. -/
def Parity (clock : Hub.Clock) (hostname : String) (wire : Hub.ParsedLogEntry)
    (daemon : InsertLogEntry) (service : ServiceMeta) : Prop :=
  ∃ stored, Hub.validateParsedEntry clock wire hostname = .ok stored ∧
    Agrees stored daemon service

/-- Parity of the wire form of a parsed line. -/
theorem parity_wireEntry_iff (hostname : String) (line : TailLine) {serviceId : Option Uuid}
    (hmessage : Text.len entry.message ≤ Hub.Validate.maxMessageBytes ∧
      entry.message.toList.getLast? ≠ some '\n')
    (hraw : ∀ raw ∈ (insertEntry crates (NoiseFilter.fromConfig noise) entry serviceId).rawLine,
      Text.len raw ≤ Hub.Validate.maxMessageBytes ∧ raw.toList.getLast? ≠ some '\n') :
    Parity clock hostname (wireEntry crates noise line.filePath entry)
        (insertEntry crates (NoiseFilter.fromConfig noise) entry serviceId)
        (serviceOf line.filePath entry) ↔
      Forwardable clock.now entry ((NoiseFilter.fromConfig noise).evaluate entry)
        (serviceOf line.filePath entry) := by
  have hcode : (wireEntry crates noise line.filePath entry).statusCode
      = entry.metadata.statusCode.map fun s => asSigned 16 s.toNat := rfl
  constructor
  · rintro ⟨stored, hok, hagrees⟩
    obtain ⟨hwell, rfl⟩ := Hub.validateParsedEntry_eq_ok.mp hok
    obtain ⟨htimestamp, hstatus, hms, hpath, htext, hname⟩ := wellFormed_wireEntry.mp hwell
    have hkept := hagrees.statusCode
    simp only [Hub.storedRecord, hcode, insertEntry] at hkept
    have hpos := (storedStatus_eq entry.metadata.statusCode hstatus).mp hkept
    exact ⟨htimestamp, fun status hmem => ⟨hpos status hmem, hstatus status hmem⟩, hms, hpath,
      htext, hname⟩
  · intro h
    have hle : ∀ status ∈ entry.metadata.statusCode, status.toNat ≤ 599 :=
      fun status hmem => (h.status status hmem).2
    have hwell : Hub.WellFormed clock (wireEntry crates noise line.filePath entry) :=
      wellFormed_wireEntry.mpr ⟨h.timestamp, hle, h.responseTime, h.requestPath, h.noiseReason,
        h.serviceName⟩
    refine ⟨_, Hub.validateParsedEntry_eq_ok.mpr ⟨hwell, rfl⟩, ?_⟩
    have hstatus := (storedStatus_eq entry.metadata.statusCode hle).mpr
      fun status hmem => (h.status status hmem).1
    exact
      { level := rfl
        message := sanitizeMessage_of_short hmessage.1 hmessage.2
        rawLine := by
          show Option.map _ (wireEntry crates noise line.filePath entry).rawLine = _
          have hsame : (wireEntry crates noise line.filePath entry).rawLine
            = (insertEntry crates (NoiseFilter.fromConfig noise) entry serviceId).rawLine := rfl
          rw [hsame]
          cases hline : (insertEntry crates (NoiseFilter.fromConfig noise) entry serviceId).rawLine
            with
          | none => rfl
          | some raw =>
            obtain ⟨hlen, hend⟩ := hraw raw hline
            rw [Option.map_some, sanitizeMessage_of_short hlen hend]
        clientIp := rfl
        requestPath := rfl
        statusCode := by
          simp only [Hub.storedRecord, hcode, insertEntry]
          exact hstatus
        responseTimeMs := rfl
        isNoise := rfl
        noiseReason := rfl
        threatLevel := rfl
        threatCategories := rfl
        timestamp := by
          show (Hub.tsFromMs clock.fallback entry.timestamp.timestampMillis).timestampMillis
            = entry.timestamp.timestampMillis
          rw [Hub.tsFromMs, DateTime.fromTimestampMillis_timestampMillis, Option.getD_some,
            DateTime.timestampMillis_truncMillis]
        serviceName := rfl
        unitType := rfl
        virtualHost := rfl }

end Parity

/-- **Parity.**  Take a line that yields an entry, on the agent and, with any resolver, on the
daemon; let its message and raw line be short and without a final newline.  The hub stores the
agent's entry, in agreement with the daemon's, exactly when the parsed line is forwardable. -/
theorem parity_iff {η ρ : Type} (crates : Externals) (noise : NoiseFilterConfig)
    (services : ServiceResolver η ρ) (clock : Hub.Clock) (hostname : String) {readAt : DateTime}
    {line : TailLine} {entry : ParsedLogEntry} {e d : InsertLogEntry} {fresh : Uuid}
    {resolver resolver' : AgentServiceResolver} {env : η} {st st' : ρ}
    (hparse : (Pipeline.build crates noise services).parseLine readAt line = .ok (some entry))
    (hagent : (buildAgentPipeline crates noise).processLine crates readAt fresh resolver line
      = (.ok (some e), resolver'))
    (hdaemon : (Pipeline.build crates noise services).processLine crates readAt env st line
      = (.ok (some d), st'))
    (hmessage : Text.len e.message ≤ Hub.Validate.maxMessageBytes ∧
      e.message.toList.getLast? ≠ some '\n')
    (hraw : ∀ raw ∈ e.rawLine,
      Text.len raw ≤ Hub.Validate.maxMessageBytes ∧ raw.toList.getLast? ≠ some '\n') :
    Parity clock hostname (entryToProto e resolver') d (serviceOf line.filePath entry) ↔
      Forwardable clock.now entry ((NoiseFilter.fromConfig noise).evaluate entry)
        (serviceOf line.filePath entry) := by
  obtain ⟨entry₁, hparse₁, rfl, rfl⟩ := Pipeline.processLine_eq_some_iff.mp hagent
  obtain ⟨entry₂, hparse₂, -, rfl⟩ := Pipeline.processLine_eq_some_iff.mp hdaemon
  obtain rfl : entry = entry₁ := Option.some.inj (Except.ok.inj (hparse.symm.trans hparse₁))
  obtain rfl : entry = entry₂ := Option.some.inj (Except.ok.inj (hparse.symm.trans hparse₂))
  have hwire := entryToProto_eq_wireEntry crates noise line entry resolver fresh
  exact hwire ▸ parity_wireEntry_iff hostname line hmessage hraw

/-- The entries that agent and daemon make of a line that parses. -/
theorem processed_of_parse {line : TailLine} {entry : ParsedLogEntry}
    (hparser : (ParserRegistry.defaultRegistry newYearCrates).forPath line.filePath
      = nginxAccessParser newYearCrates)
    (hparse : nginxParse newYearCrates line.line = .ok (some entry)) :
    (buildAgentPipeline newYearCrates .default).processLine newYearCrates newYear 1 .new line
      = (.ok (some (insertEntry newYearCrates (.fromConfig .default) entry (some 1))),
        (AgentServiceResolver.resolve 1 .new (serviceOf line.filePath entry)).2) ∧
    (Pipeline.build newYearCrates .default givenIds).processLine newYearCrates newYear (some 7) ()
      line = (.ok (some (insertEntry newYearCrates (.fromConfig .default) entry (some 7))), ()) :=
  ⟨Pipeline.processLine_of_parseLine newYearCrates 1 AgentServiceResolver.new
      (parseLine_of_nginx .default { resolve := AgentServiceResolver.resolve } newYear hparser
        hparse),
    Pipeline.processLine_of_parseLine newYearCrates (some 7) ()
      (parseLine_of_nginx .default givenIds newYear hparser hparse)⟩

/-- A request for the root of a site reaches the store as the daemon would have stored it. -/
theorem parity_shopLine : ∃ e d resolver',
    (buildAgentPipeline newYearCrates .default).processLine newYearCrates newYear 1 .new shopLine
      = (.ok (some e), resolver') ∧
    (Pipeline.build newYearCrates .default givenIds).processLine newYearCrates newYear (some 7) ()
      shopLine = (.ok (some d), ()) ∧
    Parity ⟨newYear, newYear⟩ "edge-1" (entryToProto e resolver') d
      (serviceOf shopLine.filePath shopEntry) := by
  obtain ⟨hagent, hdaemon⟩ := processed_of_parse rfl parse_shopLine
  refine ⟨_, _, _, hagent, hdaemon, ?_⟩
  refine (parity_iff newYearCrates .default givenIds ⟨newYear, newYear⟩ "edge-1"
    (parseLine_of_nginx .default _ newYear rfl parse_shopLine) hagent hdaemon ?_ ?_).mpr ?_
  · decide +kernel
  · decide +kernel
  · exact
      { timestamp := by decide +kernel
        status := by
          intro status hstatus
          obtain rfl : (200 : UInt16) = status := Option.some.inj hstatus
          decide
        responseTime := fun ms hms => (by cases hms)
        requestPath := by
          intro path hpath
          obtain rfl : "/" = path := Option.some.inj hpath
          decide +kernel
        noiseReason := by decide +kernel
        serviceName := by decide +kernel }

/-- A request whose `Host` header names a port. -/
def portLine : TailLine where
  filePath := Path.join [.text "var", .text "log", .text "nginx"] "access.log"
  line := "192.0.2.7 - - [01/Jan/2025:00:00:00 +0000] \"GET / HTTP/1.1\" 200 12 \"-\" \"-\" \"shop:8443\" 1"
  byteOffset := 0

/-- The port is part of the virtual host, which names the service. -/
theorem parse_portLine : (nginxParse newYearCrates portLine.line).toOption.join.any (fun entry =>
    entry.timestamp = newYear ∧ entry.message = "GET / 200" ∧ Text.len entry.raw < 100 ∧
    entry.raw.toList.getLast? = some '1' ∧ entry.metadata.virtualHost = some "shop:8443")
      = true := by
  unfold portLine
  rw [nginxParse_ofList]
  decide +kernel

theorem toOption_join_eq_some {ε α : Type} {result : Except ε (Option α)} {a : α} :
    result.toOption.join = some a ↔ result = .ok (some a) := by
  cases result <;> simp [Except.toOption]

/-- The hub does not accept a colon in the name of a service. -/
theorem port_not_stored : ∃ e d resolver',
    (buildAgentPipeline newYearCrates .default).processLine newYearCrates newYear 1 .new portLine
      = (.ok (some e), resolver') ∧
    (Pipeline.build newYearCrates .default givenIds).processLine newYearCrates newYear (some 7) ()
      portLine = (.ok (some d), ()) ∧
    Hub.Validate.InWindow e.timestamp newYear ∧
    (Text.len e.message ≤ Hub.Validate.maxMessageBytes ∧ e.message.toList.getLast? ≠ some '\n') ∧
    (∀ raw ∈ e.rawLine,
      Text.len raw ≤ Hub.Validate.maxMessageBytes ∧ raw.toList.getLast? ≠ some '\n') ∧
    ∀ stored, Hub.validateParsedEntry ⟨newYear, newYear⟩ (entryToProto e resolver') "edge-1"
      ≠ .ok stored := by
  obtain ⟨entry, hentry, hfacts⟩ := (Option.any_eq_true _ _).mp parse_portLine
  simp only [decide_eq_true_eq] at hfacts
  obtain ⟨htimestamp, hmessage, hlen, hlast, hvhost⟩ := hfacts
  obtain ⟨hagent, hdaemon⟩ := processed_of_parse rfl (toOption_join_eq_some.mp hentry)
  refine ⟨_, _, _, hagent, hdaemon, ?_, ?_, ?_, ?_⟩
  · show Hub.Validate.InWindow entry.timestamp newYear
    rw [htimestamp]
    decide
  · show Text.len entry.message ≤ _ ∧ entry.message.toList.getLast? ≠ _
    rw [hmessage]
    decide +kernel
  · intro raw hmem
    have hraw : (if ((NoiseFilter.fromConfig .default).evaluate entry).noiseReason.isSome then none
        else some entry.raw) = some raw := hmem
    obtain ⟨-, hraw⟩ := Option.ite_none_left_eq_some.mp hraw
    obtain rfl := Option.some.inj hraw
    have hmax : 100 ≤ Hub.Validate.maxMessageBytes := by decide
    refine ⟨hlen.le.trans hmax, ?_⟩
    rw [hlast]
    decide
  · intro stored hok
    have hwire := entryToProto_eq_wireEntry newYearCrates .default portLine entry .new 1
    have hwell := (Hub.validateParsedEntry_eq_ok.mp (hwire ▸ hok)).1
    obtain ⟨-, -, -, -, -, hname⟩ := wellFormed_wireEntry.mp hwell
    have hservice : serviceOf portLine.filePath entry
        = { name := "shop:8443", unitType := unitTypeNginxVhost,
            virtualHost := some "shop:8443" } := by
      have hfile : vhostFromFilePath portLine.filePath = none := by decide
      rw [serviceOf, hfile, hvhost]
      rfl
    rw [hservice] at hname
    exact absurd hname (by decide)

end Sentinalysis.Agent
