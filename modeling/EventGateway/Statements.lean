import EventGateway.Schema
import EventGateway.TransactionProgram

/-!
The SQL statements of the services and what PostgreSQL does with them. An entry
of a unique index that its transaction has not committed is a lock on the key,
so a conflicting insert waits for it. `gen_random_uuid()` is taken not to repeat
an id; a repeated one is a fault. Every `FOR UPDATE SKIP LOCKED` takes a set of
rows its snapshot does not show, because they changed after it was taken.
-/

namespace EventGateway

open KeyedTable TransactionProgram

inductive DbError
  | invalidTextRepresentation
  | numericValueOutOfRange
  | stringDataRightTruncation
  | uniqueViolation
  | foreignKeyViolation
  | checkViolation
  | inFailedSqlTransaction
deriving DecidableEq

inductive ApiError
  | validation (message : String)
  | invalidFields (fields : List Text)
  | staleWebhookTimestamp
  | invalidWebhookSignature
  | webhookVerificationNotConfigured
  | idempotencyConflict
  | idempotencyRecordUnreadable
  | idempotentSnapshotUnavailable
  | webhookEventConflict
  | webhookNonceReplay
  | webhookConflictUnclassified
deriving DecidableEq

def ApiError.status : ApiError → ℕ
  | .validation _ | .invalidFields _ | .staleWebhookTimestamp => 400
  | .invalidWebhookSignature => 401
  | .idempotencyConflict | .webhookEventConflict | .webhookNonceReplay => 409
  | .webhookVerificationNotConfigured | .idempotencyRecordUnreadable | .idempotentSnapshotUnavailable
  | .webhookConflictUnclassified => 503

def ApiError.error : ApiError → String
  | .validation _ | .invalidFields _ => "VALIDATION_ERROR"
  | .staleWebhookTimestamp => "STALE_WEBHOOK_TIMESTAMP"
  | .invalidWebhookSignature => "INVALID_WEBHOOK_SIGNATURE"
  | .idempotencyConflict => "IDEMPOTENCY_CONFLICT"
  | .webhookEventConflict => "WEBHOOK_EVENT_CONFLICT"
  | .webhookNonceReplay => "WEBHOOK_NONCE_REPLAY"
  | .webhookVerificationNotConfigured | .idempotencyRecordUnreadable | .idempotentSnapshotUnavailable
  | .webhookConflictUnclassified => "SERVICE_UNAVAILABLE"

def ApiError.message : ApiError → String
  | .validation message => message
  | .invalidFields _ => "Request validation failed."
  | .staleWebhookTimestamp => "Webhook timestamp is outside the configured tolerance window."
  | .invalidWebhookSignature => "Webhook signature verification failed."
  | .webhookVerificationNotConfigured => "Webhook verification is not configured."
  | .idempotencyConflict => "The provided Idempotency-Key was already used with a different request payload."
  | .idempotencyRecordUnreadable => "The idempotency record could not be read after conflict detection."
  | .idempotentSnapshotUnavailable => "The idempotent response snapshot is not available."
  | .webhookEventConflict => "The provider event ID was already used with a different payload."
  | .webhookNonceReplay => "The webhook nonce was already used for a different event."
  | .webhookConflictUnclassified => "The webhook conflict could not be classified after insert."

inductive Failure
  | api (error : ApiError)
  | webhookEventNotFound
  | entityNotFound
  | syntaxError
  | invalidOutboxPayload
  | publish (message : Text)
  | database (error : DbError)
deriving DecidableEq

def DbError.message : DbError → String
  | .invalidTextRepresentation => "invalid input syntax"
  | .numericValueOutOfRange => "numeric field overflow"
  | .stringDataRightTruncation => "value too long for type character varying"
  | .uniqueViolation => "duplicate key value violates unique constraint"
  | .foreignKeyViolation => "insert violates foreign key constraint"
  | .checkViolation => "new row violates check constraint"
  | .inFailedSqlTransaction => "current transaction is aborted"

def Failure.message : Failure → Text
  | .api error => error.message.toList
  | .webhookEventNotFound => "WEBHOOK_EVENT_NOT_FOUND".toList
  | .entityNotFound => "Could not find any entity".toList
  | .syntaxError => "Cannot convert to a BigInt".toList
  | .invalidOutboxPayload => "INVALID_OUTBOX_PAYLOAD".toList
  | .publish message => message
  | .database error => error.message.toList

structure JobData where
  webhookEventId : Text
  correlationId : Option Text
deriving DecidableEq

/-- How `queue.add` ends. A call that fails can still have reached Redis. -/
inductive PublishOutcome
  | added
  | failed (message : Text) (reachedQueue : Bool)

inductive Lock
  | paymentIntent (id : Uuid)
  | idempotencyRecord (id : Uuid)
  | webhookEvent (id : Uuid)
  | outboxEvent (id : Uuid)
  | confirmedTxHash (hash : Text)
  | idempotencyKey (scope key : Text)
  | externalEventId (provider eventId : Text)
  | nonce (provider nonce : Text)
deriving DecidableEq

inductive Stmt
  | lockWebhookEvent (webhookEventId : Text)
  | saveWebhookEvent (id : Uuid) (patch : WebhookEventPatch)
  | lockPaymentIntent (id : Uuid)
  | lockPaymentIntentByTxHash (txHash : Text)
  | savePaymentIntent (id : Uuid) (patch : PaymentIntentPatch)
  | insertAttempt (row : WebhookProcessingAttempt)
  | insertIdempotencyRecord (row : IdempotencyRecord)
  | insertPaymentIntent (entity : PaymentIntentEntity)
  | findIdempotencyRecordById (id : Uuid)
  | saveIdempotencyRecord (id : Uuid) (patch : IdempotencyRecordPatch)
  | findIdempotencyRecord (scope key : Text)
  | insertWebhookEvent (paymentIntentId : Text) (row : WebhookEvent)
  | findWebhookEventByEventId (provider eventId : Text)
  | findWebhookEventByNonce (provider nonce : Text)
  | insertOutboxEvent (row : OutboxEvent)
  | findEligibleEvents (type : Text) (limit : ℕ) (now : Time) (hidden : Uuid → Bool)
  | publishProcessWebhookEvent (data : JobData) (outcome : PublishOutcome)
  | markWebhookQueued (webhookEventId : Text)
  | updateOutboxEvent (id : Uuid) (patch : OutboxEventPatch) (now : Time)
  | requeueStale (aggregateType type lastError : Text) (publishedBefore : Time) (limit : ℕ) (now : Time)
      (hidden : Uuid → Bool)

@[reducible] def Stmt.Answer : Stmt → Type
  | .lockWebhookEvent _ => Option WebhookEvent
  | .lockPaymentIntent _ => Option PaymentIntentEntity
  | .lockPaymentIntentByTxHash _ => Option PaymentIntentEntity
  | .insertIdempotencyRecord _ => Option Uuid
  | .findIdempotencyRecordById _ => Option IdempotencyRecord
  | .findIdempotencyRecord _ _ => Option IdempotencyRecord
  | .insertWebhookEvent _ _ => Option Uuid
  | .findWebhookEventByEventId _ _ => Option WebhookEvent
  | .findWebhookEventByNonce _ _ => Option WebhookEvent
  | .findEligibleEvents _ _ _ _ => List OutboxEvent
  | .requeueStale _ _ _ _ _ _ _ => List OutboxEvent
  | _ => Unit

abbrev Script (α : Type) := Prog Stmt Stmt.Answer Failure α

abbrev query (s : Stmt) : Script s.Answer := Prog.call s

namespace Statements

def maxVarchar : ℕ := 255

/-- A text that a `varchar(max)` does not take. An excess of spaces only, which PostgreSQL cuts off, is refused as well. -/
def isTooLong (max : ℕ) (s : Text) : Bool := max < s.length

-- the other `varchar` columns hold digests and the names that the services write, which always fit

def exceedsColumns {A : Type} (i : PaymentIntentOf A) : Bool :=
  isTooLong 32 i.asset || isTooLong maxVarchar i.destination || i.reference.any (isTooLong maxVarchar) ||
    i.clientRequestId.any (isTooLong maxVarchar) || i.confirmedTxHash.any (isTooLong maxVarchar)

def exceedsEventColumns (e : WebhookEvent) : Bool :=
  isTooLong maxVarchar e.externalEventId || e.nonce.any (isTooLong maxVarchar) || isTooLong 128 e.eventType ||
    e.txHash.any (isTooLong maxVarchar)

def conflictsWith (row e : WebhookEvent) : Bool :=
  e.provider = row.provider && (e.externalEventId = row.externalEventId || (e.nonce = row.nonce && e.nonce.isSome))

def nonceLock (row : WebhookEvent) : List Lock := (row.nonce.map (Lock.nonce row.provider)).toList

def txHashLock (confirmedTxHash : Option Text) : List Lock := (confirmedTxHash.map Lock.confirmedTxHash).toList

def isTxHashTaken (d : Db) (confirmedTxHash : Option Text) (id : Uuid) : Bool :=
  confirmedTxHash.isSome && (d.paymentIntents.find (fun i => i.confirmedTxHash = confirmedTxHash && i.id ≠ id)).isSome

/-- The `WHERE` of `findEligibleEvents`. -/
def isEligible (type : Text) (now : Time) (e : OutboxEvent) : Bool :=
  e.type = type && e.deadAt.isNone &&
    (e.status = .pending || (e.status = .failed && e.nextAttemptAt.all (fun at_ => at_ ≤ now)))

/-- The `WHERE` of the reconciler's `stale`, with the event that the join finds. -/
def isStale (aggregateType type : Text) (publishedBefore : Time) (d : Db) (e : OutboxEvent) : Bool :=
  e.aggregateType = aggregateType && e.type = type && e.status = .published && e.deadAt.isNone &&
    e.publishedAt.any (fun at_ => at_ < publishedBefore) &&
    (d.webhookEvents.get e.aggregateId).any (fun w => w.status = .received || w.status = .queued)

def eligibleEvents (d : Db) (held : Lock → Bool) (type : Text) (limit : ℕ) (now : Time) (hidden : Uuid → Bool) :
    List OutboxEvent :=
  ((d.outboxEvents.rows.filter (fun e =>
    isEligible type now e && !held (.outboxEvent e.id) && !hidden e.id)).insertionSort
      (fun a b => a.createdAt ≤ b.createdAt)).take limit

def staleEvents (d : Db) (held : Lock → Bool) (aggregateType type : Text) (publishedBefore : Time) (limit : ℕ)
    (hidden : Uuid → Bool) : List OutboxEvent :=
  ((d.outboxEvents.rows.filter (fun e =>
    isStale aggregateType type publishedBefore d e && !held (.outboxEvent e.id) &&
      !held (.webhookEvent e.aggregateId) && !hidden e.id)).insertionSort
        (fun a b => a.publishedAt.getD 0 ≤ b.publishedAt.getD 0)).take limit

def eval (s : Stmt) (d : Db) (held : Lock → Bool) : Reply Failure Write Lock s.Answer :=
  match s with
  | .lockWebhookEvent webhookEventId =>
    match Uuid.parse webhookEventId with
    | none => .fault (.database .invalidTextRepresentation)
    | some id =>
      match d.webhookEvents.get id with
      | none => .ok none [] []
      | some e => .ok (some e) [] [.webhookEvent id]
  | .saveWebhookEvent id patch => .ok () [.saveWebhookEvent id patch] [.webhookEvent id]
  | .lockPaymentIntent id =>
    match d.paymentIntents.get id with
    | none => .ok none [] []
    | some i => .ok (some i.load) [] [.paymentIntent id]
  | .lockPaymentIntentByTxHash txHash =>
    match d.paymentIntents.find (fun i => i.confirmedTxHash = some txHash) with
    | none => .ok none [] []
    | some i => .ok (some i.load) [] [.paymentIntent i.id]
  | .savePaymentIntent id patch =>
    if patch.confirmedTxHash.any (isTooLong maxVarchar) then .fault (.database .stringDataRightTruncation)
    else if isTxHashTaken d patch.confirmedTxHash id then .fault (.database .uniqueViolation)
    else .ok () [.savePaymentIntent id patch] (.paymentIntent id :: txHashLock patch.confirmedTxHash)
  | .insertAttempt row =>
    if row.finishedAt < row.startedAt then .fault (.database .checkViolation)
    else if (d.webhookEvents.get row.webhookEventId).isNone then .fault (.database .foreignKeyViolation)
    else .ok () [.insertAttempt row] [.webhookEvent row.webhookEventId]
  | .insertIdempotencyRecord row =>
    if isTooLong maxVarchar row.idempotencyKey then .fault (.database .stringDataRightTruncation)
    else if (d.idempotencyRecords.find (fun r =>
        r.scope = row.scope && r.idempotencyKey = row.idempotencyKey)).isSome then .ok none [] []
    else if (d.idempotencyRecords.get row.id).isSome then .fault (.database .uniqueViolation)
    else .ok (some row.id) [.insertIdempotencyRecord row]
      [.idempotencyRecord row.id, .idempotencyKey row.scope row.idempotencyKey]
  | .insertPaymentIntent entity =>
    match PaymentAmount.parseNumeric entity.amount with
    | none => .fault (.database .numericValueOutOfRange)
    | some amount =>
      if exceedsColumns entity then .fault (.database .stringDataRightTruncation)
      else if (d.paymentIntents.get entity.id).isSome || isTxHashTaken d entity.confirmedTxHash entity.id then
        .fault (.database .uniqueViolation)
      else .ok () [.insertPaymentIntent { entity with amount := amount }]
        (.paymentIntent entity.id :: txHashLock entity.confirmedTxHash)
  | .findIdempotencyRecordById id => .ok (d.idempotencyRecords.get id) [] []
  | .saveIdempotencyRecord id patch => .ok () [.saveIdempotencyRecord id patch] [.idempotencyRecord id]
  | .findIdempotencyRecord scope key =>
    .ok (d.idempotencyRecords.find (fun r => r.scope = scope && r.idempotencyKey = key)) [] []
  | .insertWebhookEvent paymentIntentId row =>
    match Uuid.parse paymentIntentId with
    | none => .fault (.database .invalidTextRepresentation)
    | some id =>
      if exceedsEventColumns row then .fault (.database .stringDataRightTruncation)
      else if (d.webhookEvents.find (conflictsWith row)).isSome then .ok none [] []
      else if (d.webhookEvents.get row.id).isSome then .fault (.database .uniqueViolation)
      else .ok (some row.id) [.insertWebhookEvent { row with paymentIntentId := some id }]
        (.webhookEvent row.id :: .externalEventId row.provider row.externalEventId :: nonceLock row)
  | .findWebhookEventByEventId provider eventId =>
    .ok (d.webhookEvents.find (fun e => e.provider = provider && e.externalEventId = eventId)) [] []
  | .findWebhookEventByNonce provider nonce =>
    .ok (d.webhookEvents.find (fun e => e.provider = provider && e.nonce = some nonce)) [] []
  | .insertOutboxEvent row =>
    if (d.outboxEvents.get row.id).isSome then .fault (.database .uniqueViolation)
    else .ok () [.insertOutboxEvent row] [.outboxEvent row.id]
  | .findEligibleEvents type limit now hidden =>
    let rows := eligibleEvents d held type limit now hidden
    .ok rows [] (rows.map (fun e => .outboxEvent e.id))
  | .publishProcessWebhookEvent _ outcome =>
    match outcome with
    | .added => .ok () [] []
    | .failed message _ => .refused (.publish message)
  | .markWebhookQueued webhookEventId =>
    match Uuid.parse webhookEventId with
    | none => .fault (.database .invalidTextRepresentation)
    | some id =>
      if (d.webhookEvents.get id).any (fun e => e.status = .received) then
        .ok () [.markWebhookQueued id] [.webhookEvent id]
      else .ok () [] []
  | .updateOutboxEvent id patch now => .ok () [.updateOutboxEvent id patch now] [.outboxEvent id]
  | .requeueStale aggregateType type lastError publishedBefore limit now hidden =>
    let rows := staleEvents d held aggregateType type publishedBefore limit hidden
    .ok rows (rows.map (fun e => .updateOutboxEvent e.id (.requeued lastError now) now))
      (rows.flatMap (fun e => [.outboxEvent e.id, .webhookEvent e.aggregateId]))

/-- After a fault the database refuses every statement; publishing goes on. -/
def afterFault (s : Stmt) : Except Failure s.Answer :=
  match s with
  | .publishProcessWebhookEvent _ .added => .ok ()
  | .publishProcessWebhookEvent _ (.failed message _) => .error (.publish message)
  | _ => .error (.database .inFailedSqlTransaction)

def emits : Stmt → List JobData
  | .publishProcessWebhookEvent data .added => [data]
  | .publishProcessWebhookEvent data (.failed _ reachedQueue) => if reachedQueue then [data] else []
  | _ => []

def engine : Engine Stmt Stmt.Answer Failure Db Write Lock JobData where
  apply := Db.apply
  eval := eval
  afterFault := afterFault
  emits := emits

@[simp] theorem engine_eval (s : Stmt) (d : Db) (held : Lock → Bool) : engine.eval s d held = eval s d held := rfl

@[simp] theorem engine_apply (d : Db) (w : Write) : engine.apply d w = d.apply w := rfl

end Statements

end EventGateway
