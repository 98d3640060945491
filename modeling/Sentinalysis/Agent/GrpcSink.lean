/-
# Sentinalysis.Agent.GrpcSink — the sink of the agent's scanner, and what it says was written.

A sink returns how many entries it has written, and the scanner forgets a batch that was written.
This sink sends the batch to the hub, which checks each entry on its own, stores those that pass, and
answers with their number.  The sink does not look at the answer: it returns the size of the batch.
-/
import Sentinalysis.Agent.Logs
import Sentinalysis.Hub.Ingest

namespace Sentinalysis.Agent

open Lib Db LogScanner

/-- `send_logs_request`: the answer of the hub is dropped; the call itself may fail. -/
def sendLogsRequest (failure : Option Hub.Status) (answer : Except Hub.Status Hub.Ack) :
    Except Hub.Status Unit :=
  match failure with
  | some status => .error status
  | none => answer.map fun _ => ()

/-- `GrpcSink::insert_batch`, when its call has come back; the text of a status is tonic's. -/
def GrpcSink.insertBatch (display : Hub.Status → String) (entries : List InsertLogEntry)
    (sent : Except Hub.Status Unit) : Except SentinelError ℕ :=
  match sent with
  | .ok _ => .ok entries.length
  | .error status => .error (.ServiceError ("log forward failed: " ++ display status))

section Exchange

variable (display : Hub.Status → String) (failure : Option Hub.Status) (env : ℕ → Hub.LineEnv)
  (insertBatch : Except SentinelError Unit) (authorized : Except Hub.Status Hub.Principal)
  (services : Services)

/-- A batch goes to the hub: what the sink returns, and the rows that the hub has stored. -/
def forwardBatch (entries : List InsertLogEntry) (resolver : AgentServiceResolver) :
    Except SentinelError ℕ × List InsertLogEntry :=
  let (answer, _, stored) :=
    Hub.sendLogs env insertBatch authorized services (logsRequest entries resolver)
  (GrpcSink.insertBatch display entries (sendLogsRequest failure answer), stored)

/-- Nothing is dropped in silence: the sink returns the number of stored rows, and the answer to a
request says how many of its lines passed and whether all did. -/
structure NoSilentDrop (entries : List InsertLogEntry) (resolver : AgentServiceResolver)
    (req : Hub.LogsRequest) : Prop where
  sink : ∀ k, (forwardBatch display failure env insertBatch authorized services entries
      resolver).1 = .ok k →
    k = (forwardBatch display failure env insertBatch authorized services entries
      resolver).2.length
  count : ∀ ack, (Hub.sendLogs env insertBatch authorized services req).1 = .ok ack →
    ack.count = req.valid env
  accepted : ∀ ack, (Hub.sendLogs env insertBatch authorized services req).1 = .ok ack →
    req.valid env < req.total → ack.accepted = false

variable {display failure env insertBatch authorized services}

/-- What the sink returns for a batch that the hub has taken. -/
theorem forwardBatch_of_taken {entries : List InsertLogEntry} {resolver : AgentServiceResolver}
    (h : Hub.Taken env insertBatch authorized (logsRequest entries resolver)) :
    (forwardBatch display none env insertBatch authorized services entries resolver).1 =
        .ok (logsRequest entries resolver).total ∧
      (forwardBatch display none env insertBatch authorized services entries resolver).2.length =
        (logsRequest entries resolver).valid env := by
  obtain ⟨hanswer, hstored⟩ := Hub.sendLogs_of_taken h services
  refine ⟨?_, hstored⟩
  have htotal : (logsRequest entries resolver).total = entries.length := by
    show 0 + (entries.map (entryToProto · resolver)).length = entries.length
    rw [List.length_map, Nat.zero_add]
  rw [htotal]
  simp only [forwardBatch, hanswer, sendLogsRequest, Except.map, GrpcSink.insertBatch]

/-- A batch of which the agent has no answer, or an error, is not written. -/
theorem forwardBatch_of_not_taken {entries : List InsertLogEntry} {resolver : AgentServiceResolver}
    (h : failure ≠ none ∨
      ¬ Hub.Taken env insertBatch authorized (logsRequest entries resolver)) :
    ∃ e, (forwardBatch display failure env insertBatch authorized services entries resolver).1 =
      .error e := by
  cases failure with
  | some status => exact ⟨_, rfl⟩
  | none =>
    obtain ⟨status, hanswer⟩ :=
      Hub.sendLogs_of_not_taken (h.resolve_left fun hne => hne rfl) services
    refine ⟨.ServiceError ("log forward failed: " ++ display status), ?_⟩
    simp only [forwardBatch, hanswer, sendLogsRequest, Except.map, GrpcSink.insertBatch]

/-- **Nothing is dropped in silence exactly when every request that the hub takes passes as a
whole.** -/
theorem noSilentDrop_iff (entries : List InsertLogEntry) (resolver : AgentServiceResolver)
    (req : Hub.LogsRequest) :
    NoSilentDrop display failure env insertBatch authorized services entries resolver req ↔
      (failure = none → Hub.Taken env insertBatch authorized (logsRequest entries resolver) →
        (logsRequest entries resolver).AllValid env) ∧
      (Hub.Taken env insertBatch authorized req → req.AllValid env) := by
  constructor
  · intro h
    constructor
    · rintro rfl htaken
      obtain ⟨hresult, hstored⟩ := forwardBatch_of_taken htaken
      have hall := h.sink _ hresult
      rw [hstored] at hall
      exact ((logsRequest entries resolver).valid_eq_total_iff env).mp hall.symm
    · intro htaken
      -- the answer never says that something was rejected
      obtain ⟨hanswer, -⟩ := Hub.sendLogs_of_taken htaken services
      have hle := req.valid_le_total env
      by_contra hinvalid
      have hne := fun heq => hinvalid ((req.valid_eq_total_iff env).mp heq)
      cases h.accepted _ hanswer (Nat.lt_of_le_of_ne hle hne)
  · rintro ⟨hbatch, hreq⟩
    refine ⟨?_, ?_, ?_⟩
    · intro k hk
      by_cases htaken : failure = none ∧
          Hub.Taken env insertBatch authorized (logsRequest entries resolver)
      · obtain ⟨rfl, htaken⟩ := htaken
        obtain ⟨hresult, hstored⟩ := forwardBatch_of_taken htaken
        rw [hresult] at hk
        rw [hstored, ((logsRequest entries resolver).valid_eq_total_iff env).mpr
          (hbatch rfl htaken)]
        exact (Except.ok.inj hk).symm
      · obtain ⟨e, herror⟩ := forwardBatch_of_not_taken (not_and_or.mp htaken)
        rw [herror] at hk
        cases hk
    · intro ack hack
      rw [(Hub.taken_of_sendLogs_ok hack).2]
    · intro ack hack hlt
      have hall := (req.valid_eq_total_iff env).mpr (hreq (Hub.taken_of_sendLogs_ok hack).1)
      omega

end Exchange

/-! ## A line that is too old -/

/-- An agent that may send logs. -/
def edgeAgent : Hub.Principal := ⟨"a1b2c3d4", [.IngestLogs], some "agent-1", some "edge-1", none⟩

/-- The hub reads a request a month after New Year. -/
def inFebruary (_ : ℕ) : Hub.LineEnv where
  clock := ⟨⟨1738368000000000000, by decide, by decide⟩,
    ⟨1738368000000000000, by decide, by decide⟩⟩
  statements := { insert := .ok 1 }

/-- A line of New Year, as the agent's pipeline leaves it, and its service. -/
def newYearBatch : List InsertLogEntry :=
  [insertEntry newYearCrates (.fromConfig .default) shopEntry (some 1)]

def shopResolver : AgentServiceResolver :=
  (AgentServiceResolver.resolve 1 .new (serviceOf shopLog shopEntry)).2

/-- **A batch is dropped in silence**: its line is older than the hub takes, nothing is stored, and
the sink returns that one entry was written. -/
theorem newYearBatch_dropped :
    (∃ stored, forwardBatch (fun _ => "") none inFebruary (.ok ()) (.ok edgeAgent) {} newYearBatch
        shopResolver = (.ok 1, stored) ∧ stored.length = 0) ∧
      ¬ NoSilentDrop (fun _ => "") none inFebruary (.ok ()) (.ok edgeAgent) {} newYearBatch
        shopResolver (logsRequest newYearBatch shopResolver) := by
  have hvalid : (logsRequest newYearBatch shopResolver).valid inFebruary = 0 := by decide +kernel
  have htaken : Hub.Taken inFebruary (.ok ()) (.ok edgeAgent)
      (logsRequest newYearBatch shopResolver) :=
    ⟨⟨edgeAgent, rfl, by decide, rfl, rfl⟩, rfl, Or.inl hvalid⟩
  obtain ⟨hresult, hstored⟩ : (forwardBatch (fun _ => "") none inFebruary (.ok ()) (.ok edgeAgent)
        {} newYearBatch shopResolver).1 = .ok 1 ∧
      (forwardBatch (fun _ => "") none inFebruary (.ok ()) (.ok edgeAgent) {} newYearBatch
        shopResolver).2.length = (logsRequest newYearBatch shopResolver).valid inFebruary :=
    forwardBatch_of_taken htaken
  rw [hvalid] at hstored
  refine ⟨⟨_, Prod.ext hresult rfl, hstored⟩, ?_⟩
  intro h
  have hone := h.sink _ hresult
  rw [hstored] at hone
  cases hone

end Sentinalysis.Agent
