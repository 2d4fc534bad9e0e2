import EventGateway.CanonicalJson
import EventGateway.KeyedTable
import EventGateway.PaymentAmount
import EventGateway.Uuid

/-!
The five tables. Columns that no modelled function reads or writes are left
out. `writtenAt` is not a column: it records the clock reading at which a row
of the outbox was last written.
-/

namespace EventGateway

open KeyedTable

/-- Milliseconds since the epoch. -/
abbrev Time := ℤ

inductive PaymentIntentStatus
  | created
  | processing
  | confirmed
  | failed
  | expired
deriving DecidableEq

inductive WebhookEventStatus
  | received
  | queued
  | processing
  | processed
  | failed
  | rejected
deriving DecidableEq

inductive OutboxEventStatus
  | pending
  | published
  | failed
deriving DecidableEq

inductive WebhookProcessingAttemptStatus
  | started
  | succeeded
  | failed
deriving DecidableEq

/-- Rows hold the amount as `numeric`, entities as text. -/
structure PaymentIntentOf (A : Type) where
  id : Uuid
  status : PaymentIntentStatus
  amount : A
  asset : Text
  destination : Text
  reference : Option Text
  clientRequestId : Option Text
  metadata : JsonObject
  confirmedTxHash : Option Text
  failureReason : Option Text
  expiresAt : Option Time
  createdAt : Time
  updatedAt : Time

abbrev PaymentIntent := PaymentIntentOf PaymentAmount.Numeric

abbrev PaymentIntentEntity := PaymentIntentOf Text

def PaymentIntent.load (row : PaymentIntent) : PaymentIntentEntity :=
  { row with amount := PaymentAmount.renderNumeric row.amount }

structure PaymentIntentResponse where
  id : Text
  status : PaymentIntentStatus
  amount : Text
  asset : Text
  destination : Text
  reference : Option Text
  clientRequestId : Option Text
  confirmedTxHash : Option Text
  createdAt : Text
  updatedAt : Text
deriving DecidableEq

structure IdempotencyRecord where
  id : Uuid
  scope : Text
  idempotencyKey : Text
  requestHash : Text
  responseStatus : Option ℕ
  responseBody : Option PaymentIntentResponse
  resourceType : Option Text
  resourceId : Option Uuid
  expiresAt : Option Time

structure WebhookEvent where
  id : Uuid
  provider : Text
  externalEventId : Text
  nonce : Option Text
  eventType : Text
  paymentIntentId : Option Uuid
  txHash : Option Text
  payload : JsonObject
  payloadHash : Text
  status : WebhookEventStatus
  failureReason : Option Text
  receivedAt : Time
  processedAt : Option Time

structure OutboxEvent where
  id : Uuid
  type : Text
  aggregateType : Text
  aggregateId : Uuid
  payload : JsonObject
  status : OutboxEventStatus
  attempts : ℕ
  nextAttemptAt : Option Time
  lastError : Option Text
  deadAt : Option Time
  createdAt : Time
  publishedAt : Option Time
  updatedAt : Time
  writtenAt : Time

structure WebhookProcessingAttempt where
  webhookEventId : Uuid
  jobId : Option Text
  status : WebhookProcessingAttemptStatus
  errorMessage : Option Text
  startedAt : Time
  finishedAt : Time

instance {A : Type} : Keyed (PaymentIntentOf A) Uuid := ⟨PaymentIntentOf.id⟩
instance : Keyed IdempotencyRecord Uuid := ⟨IdempotencyRecord.id⟩
instance : Keyed WebhookEvent Uuid := ⟨WebhookEvent.id⟩
instance : Keyed OutboxEvent Uuid := ⟨OutboxEvent.id⟩

structure Db where
  paymentIntents : Table PaymentIntent
  idempotencyRecords : Table IdempotencyRecord
  webhookEvents : Table WebhookEvent
  outboxEvents : Table OutboxEvent
  webhookProcessingAttempts : List WebhookProcessingAttempt

def Db.empty : Db := ⟨.empty, .empty, .empty, .empty, []⟩

def WebhookEvent.isFinal (e : WebhookEvent) : Bool := e.status = .processed || e.status = .failed

structure WebhookEventPatch where
  status : WebhookEventStatus
  failureReason : Option Text
  processedAt : Option Time

def WebhookEvent.patch (p : WebhookEventPatch) (e : WebhookEvent) : WebhookEvent :=
  { e with status := p.status, failureReason := p.failureReason, processedAt := p.processedAt }

structure PaymentIntentPatch where
  status : PaymentIntentStatus
  confirmedTxHash : Option Text
  failureReason : Option Text
  updatedAt : Time

def PaymentIntent.patch (p : PaymentIntentPatch) (i : PaymentIntent) : PaymentIntent :=
  { i with
    status := p.status
    confirmedTxHash := p.confirmedTxHash
    failureReason := p.failureReason
    updatedAt := p.updatedAt }

structure IdempotencyRecordPatch where
  responseStatus : Option ℕ
  responseBody : Option PaymentIntentResponse
  resourceType : Option Text
  resourceId : Option Uuid

def IdempotencyRecord.patch (p : IdempotencyRecordPatch) (r : IdempotencyRecord) : IdempotencyRecord :=
  { r with
    responseStatus := p.responseStatus
    responseBody := p.responseBody
    resourceType := p.resourceType
    resourceId := p.resourceId }

/-- The column values of `markPublished`, `markTransientFailure`, `markNonRetryableFailure` and of the
reconciler's `UPDATE`. -/
inductive OutboxEventPatch
  | published (publishedAt : Time)
  | transientFailure (attempts : ℕ) (nextAttemptAt : Time) (lastError : Text) (failedAt : Time)
  | nonRetryableFailure (attempts : ℕ) (deadAt : Time) (lastError : Text)
  | requeued (lastError : Text) (requeuedAt : Time)

def OutboxEvent.patch (p : OutboxEventPatch) (now : Time) (e : OutboxEvent) : OutboxEvent :=
  match p with
  | .published publishedAt =>
    { e with
      status := .published, publishedAt := some publishedAt, nextAttemptAt := none, lastError := none
      updatedAt := now, writtenAt := publishedAt }
  | .transientFailure attempts nextAttemptAt lastError failedAt =>
    { e with
      status := .failed, attempts := attempts, nextAttemptAt := some nextAttemptAt, deadAt := none
      lastError := some lastError, updatedAt := now, writtenAt := failedAt }
  | .nonRetryableFailure attempts deadAt lastError =>
    { e with
      status := .failed, attempts := attempts, nextAttemptAt := none, deadAt := some deadAt
      lastError := some lastError, updatedAt := now, writtenAt := deadAt }
  | .requeued lastError requeuedAt =>
    { e with
      status := .failed, nextAttemptAt := some requeuedAt, lastError := some lastError
      updatedAt := now, writtenAt := requeuedAt }

theorem OutboxEvent.patch_id (p : OutboxEventPatch) (now : Time) (e : OutboxEvent) : key (e.patch p now) = key e := by
  cases p <;> rfl

inductive Write
  | insertPaymentIntent (row : PaymentIntent)
  | savePaymentIntent (id : Uuid) (patch : PaymentIntentPatch)
  | insertIdempotencyRecord (row : IdempotencyRecord)
  | saveIdempotencyRecord (id : Uuid) (patch : IdempotencyRecordPatch)
  | insertWebhookEvent (row : WebhookEvent)
  | saveWebhookEvent (id : Uuid) (patch : WebhookEventPatch)
  | markWebhookQueued (id : Uuid)
  | insertOutboxEvent (row : OutboxEvent)
  | updateOutboxEvent (id : Uuid) (patch : OutboxEventPatch) (now : Time)
  | insertAttempt (row : WebhookProcessingAttempt)

def PaymentIntentPatch.change (p : PaymentIntentPatch) : Change PaymentIntent := ⟨PaymentIntent.patch p, fun _ => rfl⟩

def IdempotencyRecordPatch.change (p : IdempotencyRecordPatch) : Change IdempotencyRecord :=
  ⟨IdempotencyRecord.patch p, fun _ => rfl⟩

def WebhookEventPatch.change (p : WebhookEventPatch) : Change WebhookEvent := ⟨WebhookEvent.patch p, fun _ => rfl⟩

def queued : Change WebhookEvent := ⟨fun e => { e with status := .queued }, fun _ => rfl⟩

def OutboxEventPatch.change (p : OutboxEventPatch) (now : Time) : Change OutboxEvent :=
  ⟨OutboxEvent.patch p now, OutboxEvent.patch_id p now⟩

def Db.apply (d : Db) : Write → Db
  | .insertPaymentIntent row => { d with paymentIntents := d.paymentIntents.insert row }
  | .savePaymentIntent id p => { d with paymentIntents := d.paymentIntents.update id p.change }
  | .insertIdempotencyRecord row => { d with idempotencyRecords := d.idempotencyRecords.insert row }
  | .saveIdempotencyRecord id p => { d with idempotencyRecords := d.idempotencyRecords.update id p.change }
  | .insertWebhookEvent row => { d with webhookEvents := d.webhookEvents.insert row }
  | .saveWebhookEvent id p => { d with webhookEvents := d.webhookEvents.update id p.change }
  | .markWebhookQueued id => { d with webhookEvents := d.webhookEvents.update id queued }
  | .insertOutboxEvent row => { d with outboxEvents := d.outboxEvents.insert row }
  | .updateOutboxEvent id p now => { d with outboxEvents := d.outboxEvents.update id (p.change now) }
  | .insertAttempt row => { d with webhookProcessingAttempts := d.webhookProcessingAttempts ++ [row] }

structure Db.Indexes (d : Db) : Prop where
  confirmedTxHash : ∀ a ∈ d.paymentIntents, ∀ b ∈ d.paymentIntents, ∀ h,
    a.confirmedTxHash = some h → b.confirmedTxHash = some h → a = b
  idempotencyKey : ∀ a ∈ d.idempotencyRecords, ∀ b ∈ d.idempotencyRecords,
    a.scope = b.scope → a.idempotencyKey = b.idempotencyKey → a = b
  externalEventId : ∀ a ∈ d.webhookEvents, ∀ b ∈ d.webhookEvents,
    a.provider = b.provider → a.externalEventId = b.externalEventId → a = b
  nonce : ∀ a ∈ d.webhookEvents, ∀ b ∈ d.webhookEvents, ∀ n,
    a.provider = b.provider → a.nonce = some n → b.nonce = some n → a = b

theorem Db.indexes_empty : Db.empty.Indexes := by
  constructor <;> intro a ha <;> exact absurd ha (Table.not_mem_empty a)

end EventGateway
