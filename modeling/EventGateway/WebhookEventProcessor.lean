import EventGateway.Statements

namespace EventGateway.WebhookEventProcessor

open TransactionProgram TxHash PaymentAmount

structure ProcessWebhookEventInput where
  webhookEventId : Text
  jobId : Option Text

inductive ProcessingFailureReason
  | unknownPaymentIntent
  | unsupportedEventType
  | missingTxHash
  | amountMismatch
  | assetMismatch
  | paymentIntentTerminal
  | confirmedTxHashConflict
deriving DecidableEq

def ProcessingFailureReason.text : ProcessingFailureReason → Text
  | .unknownPaymentIntent => "UNKNOWN_PAYMENT_INTENT".toList
  | .unsupportedEventType => "UNSUPPORTED_EVENT_TYPE".toList
  | .missingTxHash => "MISSING_TX_HASH".toList
  | .amountMismatch => "AMOUNT_MISMATCH".toList
  | .assetMismatch => "ASSET_MISMATCH".toList
  | .paymentIntentTerminal => "PAYMENT_INTENT_TERMINAL".toList
  | .confirmedTxHashConflict => "CONFIRMED_TX_HASH_CONFLICT".toList

inductive ProcessingResult
  | processed
  | alreadyProcessed
  | failed (reason : ProcessingFailureReason)
  | alreadyFailed (reason : Option Text)
deriving DecidableEq

/-- The readings of the clocks during one run: `new Date()` at the start, for `processed_at` and for
`finished_at`, and `now()` of the transaction for `updated_at`. -/
structure Clock where
  startedAt : Time
  processedAt : Time
  finishedAt : Time
  now : Time

section

variable (input : ProcessWebhookEventInput) (clock : Clock)

def attempt (webhookEventId : Uuid) (status : WebhookProcessingAttemptStatus) (errorMessage : Option Text) :
    WebhookProcessingAttempt where
  webhookEventId := webhookEventId
  jobId := input.jobId
  status := status
  errorMessage := errorMessage
  startedAt := clock.startedAt
  finishedAt := clock.finishedAt

def insertAttempt (webhookEventId : Uuid) (status : WebhookProcessingAttemptStatus) (errorMessage : Option Text) :
    Script Unit :=
  query (.insertAttempt (attempt input clock webhookEventId status errorMessage))

def lockWebhookEvent : Script WebhookEvent := do
  match ← query (.lockWebhookEvent input.webhookEventId) with
  | none => throw .webhookEventNotFound
  | some webhookEvent => return webhookEvent

def markWebhookProcessed (webhookEvent : WebhookEvent) : Script ProcessingResult := do
  query (.saveWebhookEvent webhookEvent.id ⟨.processed, none, some clock.processedAt⟩)
  insertAttempt input clock webhookEvent.id .succeeded none
  return .processed

def failWebhookEvent (webhookEvent : WebhookEvent) (reason : ProcessingFailureReason) : Script ProcessingResult := do
  query (.saveWebhookEvent webhookEvent.id ⟨.failed, some reason.text, some clock.processedAt⟩)
  insertAttempt input clock webhookEvent.id .failed (some reason.text)
  return .failed reason

def lockPaymentIntent (webhookEvent : WebhookEvent) : Script (Option PaymentIntentEntity) :=
  match webhookEvent.paymentIntentId with
  | none => return none
  | some id => query (.lockPaymentIntent id)

/-- `normalizeAmount` throws what `BigInt` throws. -/
def validatePayloadMatchesPaymentIntent (payload : JsonObject) (paymentIntent : PaymentIntentEntity) :
    Except Failure (Option ProcessingFailureReason) :=
  match payload.text "amount" with
  | none => .ok (some .amountMismatch)
  | some amount =>
    match normalizeAmount amount, normalizeAmount paymentIntent.amount with
    | some a, some b =>
      if a ≠ b then .ok (some .amountMismatch)
      else if payload.text "asset" ≠ some paymentIntent.asset then .ok (some .assetMismatch)
      else .ok none
    | _, _ => .error .syntaxError

def transactionConfirmed : Text := "transaction.confirmed".toList

def confirm (webhookEvent : WebhookEvent) (paymentIntent : PaymentIntentEntity) (txHash : Text) :
    Script ProcessingResult := do
  match ← query (.lockPaymentIntentByTxHash txHash) with
  | some existing =>
    if existing.id ≠ paymentIntent.id then failWebhookEvent input clock webhookEvent .confirmedTxHashConflict
    else
      query (.savePaymentIntent paymentIntent.id ⟨.confirmed, some txHash, none, clock.now⟩)
      markWebhookProcessed input clock webhookEvent
  | none =>
    query (.savePaymentIntent paymentIntent.id ⟨.confirmed, some txHash, none, clock.now⟩)
    markWebhookProcessed input clock webhookEvent

def applyToMatchingIntent (webhookEvent : WebhookEvent) (paymentIntent : PaymentIntentEntity) (txHash : Text) :
    Script ProcessingResult :=
  match paymentIntent.status with
  | .confirmed =>
    if paymentIntent.confirmedTxHash.map normalizeTxHash = some txHash then
      markWebhookProcessed input clock webhookEvent
    else failWebhookEvent input clock webhookEvent .paymentIntentTerminal
  | .failed | .expired => failWebhookEvent input clock webhookEvent .paymentIntentTerminal
  | .created | .processing => confirm input clock webhookEvent paymentIntent txHash

def applyProcessingRules (webhookEvent : WebhookEvent) : Script ProcessingResult :=
  let payload := webhookEvent.payload
  if payload.text "type" ≠ some transactionConfirmed then
    failWebhookEvent input clock webhookEvent .unsupportedEventType
  else
    match payload.text "txHash" with
    | none => failWebhookEvent input clock webhookEvent .missingTxHash
    | some hash =>
      if Text.trim hash = [] then failWebhookEvent input clock webhookEvent .missingTxHash
      else do
        let txHash := normalizeTxHash hash
        match ← lockPaymentIntent webhookEvent with
        | none => failWebhookEvent input clock webhookEvent .unknownPaymentIntent
        | some paymentIntent =>
          match validatePayloadMatchesPaymentIntent payload paymentIntent with
          | .error e => throw e
          | .ok (some reason) => failWebhookEvent input clock webhookEvent reason
          | .ok none => applyToMatchingIntent input clock webhookEvent paymentIntent txHash

def processLockedEvent (webhookEvent : WebhookEvent) : Script ProcessingResult :=
  match webhookEvent.status with
  | .processed => do
    insertAttempt input clock webhookEvent.id .succeeded none
    return .alreadyProcessed
  | .failed => do
    insertAttempt input clock webhookEvent.id .failed webhookEvent.failureReason
    return .alreadyFailed webhookEvent.failureReason
  | _ => do
    query (.saveWebhookEvent webhookEvent.id ⟨.processing, none, none⟩)
    applyProcessingRules input clock webhookEvent

def processWebhookEvent : Script ProcessingResult := do
  let webhookEvent ← lockWebhookEvent input
  processLockedEvent input clock webhookEvent

end

end EventGateway.WebhookEventProcessor
