import EventGateway.Statements

namespace EventGateway.OutboxDispatcher

open TransactionProgram

def processWebhookOutboxType : Text := "process-webhook-event".toList

def webhookOutboxAggregateType : Text := "webhook_event".toList

def outboxRetryBaseDelayMs : ℕ := 5000

def outboxRetryMaxDelayMs : ℕ := 5 * 60000

def stalePublishedWebhookRequeued : Text := "STALE_PUBLISHED_WEBHOOK_REQUEUED".toList

structure OutboxDispatchBatchResult where
  selected : ℕ
  published : ℕ
  failed : ℕ
deriving DecidableEq

structure OutboxReconcileResult where
  requeued : ℕ
deriving DecidableEq

/-- One run of `dispatchBatch`: its argument, `NOW()` of its transaction, the rows its snapshot does not
show, and for each row how the publisher answers and what `Date.now()` reads. -/
structure DispatchRun where
  limit : ℕ
  now : Time
  hidden : Uuid → Bool
  outcome : Uuid → PublishOutcome
  dateNow : Uuid → Time

structure ReconcileRun where
  olderThanMs : ℤ
  limit : ℕ
  now : Time
  hidden : Uuid → Bool

/-- `/^[\x21-\x7E]+$/` -/
def safeHeaderValuePattern (s : Text) : Bool := !s.isEmpty && s.all (fun c => '\x21' ≤ c && c ≤ '\x7e')

def normalizeCorrelationId (value : Text) : Option Text :=
  let trimmed := Text.trim value
  if trimmed.length ≤ 255 && safeHeaderValuePattern trimmed then some trimmed else none

def toJobData (outboxEvent : OutboxEvent) : Except Failure JobData :=
  match outboxEvent.payload.text "webhookEventId" with
  | none => .error .invalidOutboxPayload
  | some webhookEventId =>
    .ok ⟨webhookEventId, (outboxEvent.payload.text "correlationId").bind normalizeCorrelationId⟩

def calculateOutboxBackoffMs (attempts : ℕ) : ℕ :=
  min (outboxRetryBaseDelayMs * 2 ^ (attempts - 1)) outboxRetryMaxDelayMs

/-- `.replace(/\s+/g, ' ')` -/
def collapseSpaces : Text → Text
  | [] => []
  | c :: cs =>
    if Text.isWhiteSpace c then
      match collapseSpaces cs with
      | ' ' :: rest => ' ' :: rest
      | rest => ' ' :: rest
    else c :: collapseSpaces cs

def sanitizeErrorMessage (error : Failure) : Text :=
  let printable := error.message.map (fun c => if '\x20' ≤ c && c ≤ '\x7e' then c else ' ')
  let sanitized := (Text.trim (collapseSpaces printable)).take 500
  if sanitized.isEmpty then "UNKNOWN_ERROR".toList else sanitized

section

variable (run : DispatchRun)

def markPublished (outboxEvent : OutboxEvent) : Script Unit :=
  query (.updateOutboxEvent outboxEvent.id (.published (run.dateNow outboxEvent.id)) run.now)

def markTransientFailure (outboxEvent : OutboxEvent) (error : Failure) : Script Unit :=
  let attempts := outboxEvent.attempts + 1
  let dateNow := run.dateNow outboxEvent.id
  query (.updateOutboxEvent outboxEvent.id
    (.transientFailure attempts (dateNow + calculateOutboxBackoffMs attempts) (sanitizeErrorMessage error) dateNow)
    run.now)

def markNonRetryableFailure (outboxEvent : OutboxEvent) (error : Failure) : Script Unit :=
  query (.updateOutboxEvent outboxEvent.id
    (.nonRetryableFailure (outboxEvent.attempts + 1) (run.dateNow outboxEvent.id) (sanitizeErrorMessage error))
    run.now)

def publishOutboxEvent (outboxEvent : OutboxEvent) (jobData : JobData) : Script Bool :=
  Prog.tryCatch
    (do
      query (.publishProcessWebhookEvent jobData (run.outcome outboxEvent.id))
      query (.markWebhookQueued jobData.webhookEventId)
      markPublished run outboxEvent
      return true)
    (fun error => do
      markTransientFailure run outboxEvent error
      return false)

def dispatchEvents : List OutboxEvent → OutboxDispatchBatchResult → Script OutboxDispatchBatchResult
  | [], result => return result
  | outboxEvent :: outboxEvents, result =>
    match toJobData outboxEvent with
    | .error .invalidOutboxPayload => do
      markNonRetryableFailure run outboxEvent .invalidOutboxPayload
      dispatchEvents outboxEvents { result with failed := result.failed + 1 }
    | .error error => do
      markTransientFailure run outboxEvent error
      dispatchEvents outboxEvents { result with failed := result.failed + 1 }
    | .ok jobData => do
      if ← publishOutboxEvent run outboxEvent jobData then
        dispatchEvents outboxEvents { result with published := result.published + 1 }
      else return { result with failed := result.failed + 1 }

def dispatchBatch : Script OutboxDispatchBatchResult := do
  let outboxEvents ← query (.findEligibleEvents processWebhookOutboxType run.limit run.now run.hidden)
  dispatchEvents run outboxEvents ⟨outboxEvents.length, 0, 0⟩

end

def reconcileStalePublishedEvents (run : ReconcileRun) : Script OutboxReconcileResult := do
  let rows ← query (.requeueStale webhookOutboxAggregateType processWebhookOutboxType stalePublishedWebhookRequeued
    (run.now - run.olderThanMs) run.limit run.now run.hidden)
  return ⟨rows.length⟩

end EventGateway.OutboxDispatcher
