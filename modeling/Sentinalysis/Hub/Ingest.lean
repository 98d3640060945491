/-
# Sentinalysis.Hub.Ingest — `send_logs`: from a request to the rows of a batch.

The caller comes from the key alone.  Every line is checked and filed under a service; a line that
does not pass is counted, and what is left is stored by one statement.  The services of a request
are kept for its time by kind and name, answers that failed included.
-/
import Sentinalysis.Db.ServiceRepo
import Sentinalysis.Hub.Auth
import Sentinalysis.Hub.Grpc

namespace Sentinalysis.Hub

open Lib Db

/-- The codes of `tonic::Status` that a handler answers with. -/
inductive Code
  | unauthenticated
  | permissionDenied
  | invalidArgument
  | resourceExhausted
  | internal
  deriving DecidableEq, Repr

/-- `Status`. -/
structure Status where
  code : Code
  message : String
  deriving DecidableEq, Repr

/-- `auth_status`. -/
def authStatus (error : AuthError) : Status :=
  match error with
  | .Malformed | .UnknownKey | .BadSignature => ⟨.unauthenticated, error.display⟩
  | .RateLimited => ⟨.resourceExhausted, error.display⟩
  | .Storage message => ⟨.internal, "authentication storage failure: " ++ message⟩

/-- `authorize`: the key is in the metadata, and the budget of the address is asked before it is
looked at. -/
def authorize (argon2 : Argon2) (env : Surroundings) (cache : VerifiedCache)
    (rawKey : Option String) (withinBudget : Bool) : Except Status Principal × VerifiedCache :=
  match rawKey with
  | none => (.error ⟨.unauthenticated, "missing x-api-key metadata"⟩, cache)
  | some rawKey =>
    if withinBudget then
      let (result, cache) := authenticate argon2 env cache rawKey
      (result.mapError authStatus, cache)
    else (.error (authStatus .RateLimited), cache)

/-! ## Services -/

/-- The services of one request, by kind and name. -/
abbrev ServiceCache := String × String → Option (Option Uuid)

/-- The id of a service: what the request knows, else what the database says, which is kept. -/
def resolveService (statements : Statements) (services : Services) (serviceCache : ServiceCache)
    (service : InsertService) : Option Uuid × Services × ServiceCache :=
  let key := (service.unitType, service.name)
  match serviceCache key with
  | some cached => (cached, services, serviceCache)
  | none =>
    let (created, services) := ServiceRepository.getOrCreate services service statements
    (created.toOption, services, Function.update serviceCache key (some created.toOption))

/-- The service of a raw Docker line. -/
def containerService (container : String) : InsertService where
  name := container
  unitType := "docker-container"
  logPaths := none
  virtualHost := none

/-- The service that an agent named for an entry. -/
def parsedService (ingest : ParsedIngest) : InsertService where
  name := ingest.serviceName
  unitType := ingest.serviceUnitType
  logPaths := none
  virtualHost := ingest.virtualHost

/-! ## A request -/

/-- What the handling of one line meets. -/
structure LineEnv where
  clock : Clock
  statements : Statements
  deriving DecidableEq, Repr

/-- A request in progress: the table, the services it knows, its entries and what it rejected. -/
structure Ingestion where
  services : Services
  serviceCache : ServiceCache := fun _ => none
  entries : List InsertLogEntry := []
  rejected : ℕ := 0

namespace Ingestion

/-- The number of lines that were handled. -/
def handled (s : Ingestion) : ℕ := s.entries.length + s.rejected

/-- An entry that passed is filed under its service. -/
def file (s : Ingestion) (statements : Statements) (entry : InsertLogEntry)
    (service : InsertService) : Ingestion :=
  let (resolved, services, serviceCache) :=
    resolveService statements s.services s.serviceCache service
  { s with
    services := services
    serviceCache := serviceCache
    entries := s.entries ++ [{ entry with serviceId := resolved }] }

/-- A raw line. -/
def line (hostname : String) (env : LineEnv) (s : Ingestion) (line : LogLine) : Ingestion :=
  match validateLogLine env.clock line hostname with
  | .ok entry => s.file env.statements entry (containerService line.container)
  | .error _ => { s with rejected := s.rejected + 1 }

/-- A parsed entry. -/
def parsed (hostname : String) (env : LineEnv) (s : Ingestion) (parsed : ParsedLogEntry) :
    Ingestion :=
  match validateParsedEntry env.clock parsed hostname with
  | .ok ingest => s.file env.statements ingest.entry (parsedService ingest)
  | .error _ => { s with rejected := s.rejected + 1 }

/-- All lines of a request: the raw ones, then the parsed ones. -/
def request (hostname : String) (env : ℕ → LineEnv) (services : Services) (req : LogsRequest) :
    Ingestion :=
  let s := req.lines.foldl (fun s l => s.line hostname (env s.handled) l) { services := services }
  req.parsedLines.foldl (fun s p => s.parsed hostname (env s.handled) p) s

end Ingestion

/-- `u32::try_from(n).unwrap_or(u32::MAX)`. -/
def saturateU32 (n : ℕ) : ℕ := if n < 2 ^ 32 then n else 2 ^ 32 - 1

/-- `send_logs`, with the caller that `authorize` found: the answer, the table and the rows that
were stored. -/
def sendLogs (env : ℕ → LineEnv) (insertBatch : Except SentinelError Unit)
    (authorized : Except Status Principal) (services : Services) (req : LogsRequest) :
    Except Status Ack × Services × List InsertLogEntry :=
  match authorized with
  | .error status => (.error status, services, [])
  | .ok principal =>
    if .IngestLogs ∉ principal.permissions then
      (.error ⟨.permissionDenied, "key lacks ingest:logs"⟩, services, [])
    else match principal.agentId, principal.hostname with
    | some _, some hostname =>
      if req.oversized then
        (.error ⟨.invalidArgument,
          "batch exceeds " ++ toString Validate.maxLinesPerRequest ++ " lines"⟩, services, [])
      else
        let s := Ingestion.request hostname env services req
        let ack : Ack := { accepted := true, count := saturateU32 s.entries.length }
        if s.entries = [] then (.ok ack, s.services, [])
        else match insertBatch with
          | .error e => (.error ⟨.internal, e.display⟩, s.services, [])
          | .ok () => (.ok ack, s.services, s.entries)
    | _, _ =>
      (.error ⟨.permissionDenied,
        "this key is not bound to an agent; agent keys are required for ingestion"⟩, services, [])

/-- What a request stores are the entries of its lines, filed under the caller's host name. -/
theorem sendLogs_cases (env : ℕ → LineEnv) (insertBatch : Except SentinelError Unit)
    (authorized : Except Status Principal) (services : Services) (req : LogsRequest) :
    (∃ status, sendLogs env insertBatch authorized services req = (.error status, services, [])) ∨
    ∃ hostname answer stored,
      sendLogs env insertBatch authorized services req
        = (answer, (Ingestion.request hostname env services req).services, stored) ∧
      stored ⊆ (Ingestion.request hostname env services req).entries := by
  unfold sendLogs
  cases authorized with
  | error status => exact Or.inl ⟨status, rfl⟩
  | ok principal =>
    dsimp only
    split
    · exact Or.inl ⟨_, rfl⟩
    · split
      · rename_i hostname _ _
        split
        · exact Or.inl ⟨_, rfl⟩
        · right
          refine ⟨hostname, ?_⟩
          split
          · exact ⟨_, [], rfl, List.nil_subset _⟩
          · cases insertBatch with
            | error e => exact ⟨_, [], rfl, List.nil_subset _⟩
            | ok _ => exact ⟨_, _, rfl, List.Subset.refl _⟩
      · exact Or.inl ⟨_, rfl⟩

/-! ## What passes of a request -/

/-- The lines of a request that pass, each at the clock of its turn. -/
def LogsRequest.valid (req : LogsRequest) (env : ℕ → LineEnv) : ℕ :=
  req.lines.zipIdx.countP (fun pair => LineWellFormed (env pair.2).clock pair.1) +
    (req.parsedLines.zipIdx req.lines.length).countP
      (fun pair => WellFormed (env pair.2).clock pair.1)

/-- The number of lines of a request. -/
def LogsRequest.total (req : LogsRequest) : ℕ := req.lines.length + req.parsedLines.length

/-- Every line of the request passes. -/
structure LogsRequest.AllValid (req : LogsRequest) (env : ℕ → LineEnv) : Prop where
  lines : ∀ pair ∈ req.lines.zipIdx, LineWellFormed (env pair.2).clock pair.1
  parsedLines : ∀ pair ∈ req.parsedLines.zipIdx req.lines.length,
    WellFormed (env pair.2).clock pair.1

theorem LogsRequest.valid_le_total (req : LogsRequest) (env : ℕ → LineEnv) :
    req.valid env ≤ req.total := by
  have hlines := List.countP_le_length (l := req.lines.zipIdx)
    (p := fun pair => decide (LineWellFormed (env pair.2).clock pair.1))
  have hparsed := List.countP_le_length (l := req.parsedLines.zipIdx req.lines.length)
    (p := fun pair => decide (WellFormed (env pair.2).clock pair.1))
  rw [List.length_zipIdx] at hlines hparsed
  unfold LogsRequest.valid LogsRequest.total
  omega

/-- All pass exactly when none is missing in the count. -/
theorem LogsRequest.valid_eq_total_iff (req : LogsRequest) (env : ℕ → LineEnv) :
    req.valid env = req.total ↔ req.AllValid env := by
  have hlines := List.countP_le_length (l := req.lines.zipIdx)
    (p := fun pair => decide (LineWellFormed (env pair.2).clock pair.1))
  have hparsed := List.countP_le_length (l := req.parsedLines.zipIdx req.lines.length)
    (p := fun pair => decide (WellFormed (env pair.2).clock pair.1))
  have hlines_iff := List.countP_eq_length (l := req.lines.zipIdx)
    (p := fun pair => decide (LineWellFormed (env pair.2).clock pair.1))
  have hparsed_iff := List.countP_eq_length (l := req.parsedLines.zipIdx req.lines.length)
    (p := fun pair => decide (WellFormed (env pair.2).clock pair.1))
  simp only [decide_eq_true_eq, List.length_zipIdx] at hlines hparsed hlines_iff hparsed_iff
  constructor
  · intro heq
    unfold LogsRequest.valid LogsRequest.total at heq
    exact ⟨hlines_iff.mp (by omega), hparsed_iff.mp (by omega)⟩
  · rintro ⟨hall, hall'⟩
    unfold LogsRequest.valid LogsRequest.total
    rw [hlines_iff.mpr hall, hparsed_iff.mpr hall']

namespace Ingestion

theorem file_counts (s : Ingestion) (statements : Statements) (entry : InsertLogEntry)
    (service : InsertService) :
    (s.file statements entry service).entries.length = s.entries.length + 1 ∧
      (s.file statements entry service).handled = s.handled + 1 := by
  have hentries : (s.file statements entry service).entries.length = s.entries.length + 1 :=
    List.length_append
  refine ⟨hentries, ?_⟩
  show (s.file statements entry service).entries.length + s.rejected = s.handled + 1
  rw [hentries, handled]
  omega

/-- A raw line becomes an entry if it passes, and is counted otherwise. -/
theorem line_counts (hostname : String) (env : LineEnv) (s : Ingestion) (l : LogLine) :
    (s.line hostname env l).entries.length =
        s.entries.length + (if LineWellFormed env.clock l then 1 else 0) ∧
      (s.line hostname env l).handled = s.handled + 1 := by
  unfold Ingestion.line
  cases hcheck : validateLogLine env.clock l hostname with
  | ok entry =>
    rw [if_pos (validateLogLine_isOk_iff.mp ⟨entry, hcheck⟩)]
    exact s.file_counts _ _ _
  | error reason =>
    rw [if_neg fun hwell => ?_]
    · exact ⟨rfl, (Nat.add_assoc _ _ _).symm⟩
    · obtain ⟨entry, hok⟩ := validateLogLine_isOk_iff.mpr hwell
      rw [hcheck] at hok
      cases hok

/-- So does a parsed entry. -/
theorem parsed_counts (hostname : String) (env : LineEnv) (s : Ingestion) (p : ParsedLogEntry) :
    (s.parsed hostname env p).entries.length =
        s.entries.length + (if WellFormed env.clock p then 1 else 0) ∧
      (s.parsed hostname env p).handled = s.handled + 1 := by
  unfold Ingestion.parsed
  cases hcheck : validateParsedEntry env.clock p hostname with
  | ok ingest =>
    rw [if_pos (validateParsedEntry_eq_ok.mp hcheck).1]
    exact s.file_counts _ _ _
  | error reason =>
    rw [if_neg fun hwell => ?_]
    · exact ⟨rfl, (Nat.add_assoc _ _ _).symm⟩
    · have hok : validateParsedEntry env.clock p hostname = .ok _ :=
        validateParsedEntry_eq_ok.mpr ⟨hwell, rfl⟩
      rw [hcheck] at hok
      cases hok

/-- A list of lines, each counted at its turn. -/
theorem foldl_counts {α : Type} {step : LineEnv → Ingestion → α → Ingestion}
    {Passes : Clock → α → Prop} [∀ clock a, Decidable (Passes clock a)]
    (hstep : ∀ env s a, (step env s a).entries.length =
        s.entries.length + (if Passes env.clock a then 1 else 0) ∧
      (step env s a).handled = s.handled + 1)
    (env : ℕ → LineEnv) (items : List α) (s : Ingestion) :
    (items.foldl (fun s a => step (env s.handled) s a) s).entries.length = s.entries.length +
        (items.zipIdx s.handled).countP (fun pair => Passes (env pair.2).clock pair.1) ∧
      (items.foldl (fun s a => step (env s.handled) s a) s).handled = s.handled + items.length := by
  -- the turn of an item is the number of those handled before it
  induction items generalizing s with
  | nil => exact ⟨rfl, rfl⟩
  | cons a items ih =>
    obtain ⟨hentries, hhandled⟩ := ih (step (env s.handled) s a)
    obtain ⟨hone, hturn⟩ := hstep (env s.handled) s a
    rw [List.foldl_cons, hentries, hhandled, hone, hturn, List.zipIdx_cons, List.countP_cons]
    simp only [decide_eq_true_eq, List.length_cons]
    omega

/-- **The entries of a request are those of its lines that pass.** -/
theorem length_entries_request (hostname : String) (env : ℕ → LineEnv) (services : Services)
    (req : LogsRequest) : (request hostname env services req).entries.length = req.valid env := by
  obtain ⟨hlines, hhandled⟩ := foldl_counts (line_counts hostname) env req.lines
    { services := services }
  obtain ⟨hparsed, -⟩ := foldl_counts (parsed_counts hostname) env req.parsedLines
    (req.lines.foldl (fun s l => s.line hostname (env s.handled) l) { services := services })
  unfold request LogsRequest.valid
  rw [hparsed, hlines, hhandled]
  simp [handled]

end Ingestion

/-! ## The answer -/

section Answer

variable {env : ℕ → LineEnv} {insertBatch : Except SentinelError Unit}
  {authorized : Except Status Principal} {services : Services} {req : LogsRequest}

/-- The request is answered `Ok`: its caller is an agent that may send logs, it is not too large,
and what passes, if anything does, can be stored. -/
structure Taken (env : ℕ → LineEnv) (insertBatch : Except SentinelError Unit)
    (authorized : Except Status Principal) (req : LogsRequest) : Prop where
  caller : ∃ principal, authorized = .ok principal ∧ .IngestLogs ∈ principal.permissions ∧
    principal.agentId.isSome = true ∧ principal.hostname.isSome = true
  size : req.oversized = false
  stored : req.valid env = 0 ∨ insertBatch = .ok ()

/-- **A request that is taken** is answered with the number of its lines that pass, and these are
stored. -/
theorem sendLogs_of_taken (h : Taken env insertBatch authorized req) (services : Services) :
    (sendLogs env insertBatch authorized services req).1 = .ok ⟨true, req.valid env⟩ ∧
      (sendLogs env insertBatch authorized services req).2.2.length = req.valid env := by
  obtain ⟨⟨principal, rfl, hpermission, hagent, hhost⟩, hsize, hstored⟩ := h
  obtain ⟨agent, hagent⟩ := Option.isSome_iff_exists.mp hagent
  obtain ⟨hostname, hhost⟩ := Option.isSome_iff_exists.mp hhost
  have hlength := Ingestion.length_entries_request hostname env services req
  have hcount : saturateU32 (req.valid env) = req.valid env := by
    have hvalid := req.valid_le_total env
    simp only [LogsRequest.oversized, decide_eq_false_iff_not, not_lt] at hsize
    have hmax : Validate.maxLinesPerRequest < 2 ^ 32 := by decide
    unfold LogsRequest.total at hvalid
    exact if_pos (by omega)
  simp only [sendLogs, hpermission, not_true_eq_false, if_false, hagent, hhost, hsize, hlength,
    hcount, Bool.false_eq_true]
  by_cases hnone : (Ingestion.request hostname env services req).entries = []
  · have hzero : req.valid env = 0 := by rw [← hlength, hnone]; rfl
    rw [if_pos hnone, hzero]
    exact ⟨rfl, rfl⟩
  · have hok : insertBatch = .ok () := by
      refine hstored.resolve_left fun hzero => hnone ?_
      exact List.length_eq_zero_iff.mp (hlength.trans hzero)
    rw [if_neg hnone, hok]
    exact ⟨rfl, hlength⟩

/-- Any other request is answered with an error. -/
theorem sendLogs_of_not_taken (h : ¬ Taken env insertBatch authorized req) (services : Services) :
    ∃ status, (sendLogs env insertBatch authorized services req).1 = .error status := by
  unfold sendLogs
  cases authorized with
  | error status => exact ⟨status, rfl⟩
  | ok principal =>
    dsimp only
    split
    · exact ⟨_, rfl⟩
    · next hpermission =>
      split
      · next agent hostname hagent hhost =>
        split
        · exact ⟨_, rfl⟩
        · next hsize =>
          -- all that is left to fail is the statement
          have hlength := Ingestion.length_entries_request hostname env services req
          have hfails : req.valid env ≠ 0 ∧ insertBatch ≠ .ok () := by
            rw [← not_or]
            intro hstored
            refine h ⟨⟨principal, rfl, not_not.mp hpermission, ?_, ?_⟩, ?_, hstored⟩
            · rw [hagent]
              rfl
            · rw [hhost]
              rfl
            · exact Bool.not_eq_true _ ▸ hsize
          have hsome : (Ingestion.request hostname env services req).entries ≠ [] := by
            intro hnone
            apply hfails.1
            rw [← hlength, hnone]
            rfl
          simp only [if_neg hsome]
          cases hinsert : insertBatch with
          | error e => exact ⟨_, rfl⟩
          | ok _ => exact absurd hinsert hfails.2
      · exact ⟨_, rfl⟩

/-- So an `Ok` says that the request was taken, and how many of its lines passed. -/
theorem taken_of_sendLogs_ok {ack : Ack}
    (h : (sendLogs env insertBatch authorized services req).1 = .ok ack) :
    Taken env insertBatch authorized req ∧ ack = ⟨true, req.valid env⟩ := by
  by_cases htaken : Taken env insertBatch authorized req
  · rw [(sendLogs_of_taken htaken services).1] at h
    exact ⟨htaken, (Except.ok.inj h).symm⟩
  · obtain ⟨status, herror⟩ := sendLogs_of_not_taken htaken services
    rw [herror] at h
    cases h

end Answer

end Sentinalysis.Hub
