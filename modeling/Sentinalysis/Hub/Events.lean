/-
# Sentinalysis.Hub.Events — the hub's checks of the events that applications send.

The name of the app is not in an event, it comes from the key.
-/
import Sentinalysis.Db.AppEventRepo
import Sentinalysis.Hub.Grpc

namespace Sentinalysis.Hub

open Lib Db

/-- `IngestEvent`. -/
structure IngestEvent where
  eventType : String
  userId : Option String
  payload : Json
  timestamp : DateTime

/-- The row of an event that passes. -/
def eventRow (appName : String) (event : IngestEvent) : InsertAppEvent where
  appName := appName
  eventType := event.eventType
  userId := event.userId
  payload := event.payload
  timestamp := event.timestamp

/-- `validate_event`, at a reading of the clock. -/
def validateEvent (now : DateTime) (appName : String) (event : IngestEvent)
    (allowlist : List String) : Except String InsertAppEvent := do
  Validate.eventType event.eventType (some allowlist)
  checkOption Validate.userId event.userId
  Validate.ensure event.payload.isObject "payload must be a JSON object"
  let payloadLen := event.payload.size
  Validate.ensure (payloadLen ≤ Validate.maxPayloadBytes)
    ("payload serialized size " ++ toString payloadLen ++ " exceeds "
      ++ toString Validate.maxPayloadBytes ++ " bytes")
  Validate.timestamp event.timestamp now
  return eventRow appName event

/-- What `validate_event` asks of an event. -/
structure EventWellFormed (now : DateTime) (event : IngestEvent) (allowlist : List String) :
    Prop where
  eventType : Validate.eventTypeRe.isMatch event.eventType = true
  allowed : allowlist ≠ [] → event.eventType ∈ allowlist
  userId : ∀ user ∈ event.userId, Validate.IsBoundedText user Validate.maxUserIdLen
  payload : event.payload.isObject = true
  payloadSize : event.payload.size ≤ Validate.maxPayloadBytes
  timestamp : Validate.InWindow event.timestamp now

/-- **An event passes exactly when it is well formed**, whatever the app is called. -/
theorem validateEvent_eq_ok {now : DateTime} {appName : String} {event : IngestEvent}
    {allowlist : List String} {row : InsertAppEvent} :
    validateEvent now appName event allowlist = .ok row ↔
      EventWellFormed now event allowlist ∧ eventRow appName event = row := by
  -- an allowlist without entries asks for nothing
  have hallowed : ¬ (some allowlist).any (fun list => list ≠ [] && event.eventType ∉ list) = true ↔
      (allowlist ≠ [] → event.eventType ∈ allowlist) := by
    simp only [Option.any_some, Bool.and_eq_true, decide_eq_true_eq, not_and, not_not]
  simp only [validateEvent, bind_eq_ok, checkOption_eq_ok, Validate.eventType, Validate.userId,
    Validate.boundedText_eq_ok, Validate.timestamp_eq_ok, Validate.ensure_eq_ok, hallowed, pure,
    Except.pure, Except.ok.injEq]
  constructor
  · rintro ⟨⟨htype, hlist⟩, huser, hobject, hsize, hwindow, hrow⟩
    exact ⟨⟨htype, hlist, huser, hobject, hsize, hwindow⟩, hrow⟩
  · rintro ⟨h, hrow⟩
    exact ⟨⟨h.eventType, h.allowed⟩, h.userId, h.payload, h.payloadSize, h.timestamp, hrow⟩

end Sentinalysis.Hub
