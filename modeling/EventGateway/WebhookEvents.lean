import EventGateway.OutboxDispatcher
import EventGateway.PaymentIntents
import EventGateway.WebhookSecurity

namespace EventGateway.WebhookEvents

open TransactionProgram PaymentAmount CanonicalJson TxHash WebhookSecurity

def blockchainWebhookProvider : Text := "blockchain".toList

structure WebhookRequestHeaders where
  contentType : Option Text
  timestamp : Option Text
  nonce : Option Text
  signature : Option Text

structure ValidatedWebhookHeaders where
  timestamp : Text
  nonce : Text
  signature : Text

structure BlockchainWebhookBody where
  eventId : Text
  type : Text
  paymentIntentId : Text
  txHash : Option Text
  amount : Text
  asset : Text

def hexGroup (n : ℕ) (s : Text) : Bool := s.length = n && s.all isHexDigit

/-- `@IsUUID()`: the variant of RFC 9562 in versions 1 to 8, the nil and the max UUID. -/
def isUUID (s : Text) : Bool :=
  match Text.split '-' s with
  | [a, b, c, d, e] =>
    hexGroup 8 a && hexGroup 4 b && hexGroup 4 c && hexGroup 4 d && hexGroup 12 e &&
      ((c.head?.any "12345678".toList.contains && d.head?.any "89abAB".toList.contains) ||
        s.all (fun x => x = '0' || x = '-') || s.all (fun x => x = 'f' || x = 'F' || x = '-'))
  | _ => false

/-- `/^\s*\S+\s*$/` -/
def singleValuePattern (s : Text) : Bool :=
  let trimmed := Text.trim s
  !trimmed.isEmpty && trimmed.all (fun c => !Text.isWhiteSpace c)

def isValidTxHash (type : Text) (txHash : Option Text) : Bool :=
  match txHash with
  | none => type ≠ "transaction.confirmed".toList
  | some h => PaymentIntents.isBounded 255 h && singleValuePattern h

def BlockchainWebhookBody.isValid (b : BlockchainWebhookBody) : Bool :=
  PaymentIntents.isBounded 255 b.eventId && PaymentIntents.isBounded 128 b.type && isUUID b.paymentIntentId &&
    isValidTxHash b.type b.txHash && isValidPaymentAmount b.amount && PaymentIntents.isValidAsset b.asset

structure BlockchainWebhookDto extends BlockchainWebhookBody where
  valid : toBlockchainWebhookBody.isValid = true

structure AcceptBlockchainWebhookRequest where
  headers : WebhookRequestHeaders
  rawBody : Bytes
  body : Json

structure WebhookConfig where
  webhookSecret : Option Text
  toleranceSeconds : ℕ

structure Fresh where
  nowMs : Time
  receivedAt : Time
  now : Time
  webhookEventId : Uuid
  outboxEventId : Uuid
  correlationId : Option Text

inductive WebhookAcceptanceStatus
  | accepted
  | alreadyAccepted
deriving DecidableEq

structure WebhookAcceptanceResponse where
  eventId : Text
  status : WebhookAcceptanceStatus
deriving DecidableEq

structure WebhookAcceptance extends WebhookAcceptanceResponse where
  webhookEventId : Uuid

def isBlank (header : Option Text) : Bool := header.all (fun s => Text.trim s = [])

def validateHeaders (headers : WebhookRequestHeaders) : Except Failure ValidatedWebhookHeaders :=
  let contentType := headers.contentType.map (fun s => Text.trim ((Text.split ';' (Text.toLowerCase s)).headD []))
  if contentType ≠ some "application/json".toList then
    .error (.api (.validation "Content-Type must be application/json."))
  else if isBlank headers.timestamp then
    .error (.api (.validation "X-Webhook-Timestamp header is required."))
  else if isBlank headers.nonce then
    .error (.api (.validation "X-Webhook-Nonce header is required."))
  else if 255 < (utf16Units (headers.nonce.getD [])).length then
    .error (.api (.validation "X-Webhook-Nonce header must be 255 characters or fewer."))
  else if isBlank headers.signature then
    .error (.api (.validation "X-Webhook-Signature header is required."))
  else .ok ⟨headers.timestamp.getD [], headers.nonce.getD [], headers.signature.getD []⟩

def validateTimestamp (config : WebhookConfig) (nowMs : Time) (timestamp : Text) : Except Failure Unit :=
  match validateWebhookTimestamp timestamp config.toleranceSeconds nowMs with
  | .ok _ => .ok ()
  | .error .invalidFormat => .error (.api (.validation "X-Webhook-Timestamp header must be a Unix timestamp."))
  | .error .outsideTolerance => .error (.api .staleWebhookTimestamp)

def verifySignature (rt : Runtime) (config : WebhookConfig) (headers : ValidatedWebhookHeaders) (rawBody : Bytes) :
    Except Failure Unit :=
  if !hasValidWebhookSignatureFormat headers.signature then
    .error (.api (.validation "X-Webhook-Signature header must use v1=<hex_signature> format."))
  else
    match config.webhookSecret with
    | none | some [] => .error (.api .webhookVerificationNotConfigured)
    | some secret =>
      if !verifyWebhookSignature rt secret headers.timestamp headers.nonce rawBody headers.signature then
        .error (.api .invalidWebhookSignature)
      else .ok ()

def whitelist : List Text := ["eventId", "type", "paymentIntentId", "txHash", "amount", "asset"].map String.toList

def check (body : JsonObject) (name : String) (p : Text → Bool) : List Text :=
  if (body.text name).any p then [] else [name.toList]

def checkTxHash (body : JsonObject) (type : Text) : List Text :=
  if (body.field "txHash").isNone then (if isValidTxHash type none then [] else ["txHash".toList])
  else check body "txHash" (fun h => isValidTxHash type (some h))

def invalidFields (body : JsonObject) : List Text :=
  (body.map Prod.fst).filter (fun name => !whitelist.contains name) ++
    check body "eventId" (PaymentIntents.isBounded 255) ++ check body "type" (PaymentIntents.isBounded 128) ++
    check body "paymentIntentId" isUUID ++ checkTxHash body ((body.text "type").getD []) ++
    check body "amount" isValidPaymentAmount ++ check body "asset" PaymentIntents.isValidAsset

def toBody (body : JsonObject) : BlockchainWebhookBody where
  eventId := (body.text "eventId").getD []
  type := (body.text "type").getD []
  paymentIntentId := (body.text "paymentIntentId").getD []
  txHash := body.text "txHash"
  amount := (body.text "amount").getD []
  asset := (body.text "asset").getD []

theorem check_eq_nil {body : JsonObject} {name : String} {p : Text → Bool} (h : check body name p = []) :
    p ((body.text name).getD []) = true := by
  unfold check at h
  split at h
  · rename_i hp
    obtain ⟨s, hs, hps⟩ := (Option.any_eq_true _ _).mp hp
    rw [hs]
    exact hps
  · cases h

theorem checkTxHash_eq_nil {body : JsonObject} {type : Text} (h : checkTxHash body type = []) :
    isValidTxHash type (body.text "txHash") = true := by
  unfold checkTxHash at h
  split at h
  · rename_i hn
    have ht : body.text "txHash" = none := by
      rw [JsonObject.text, Option.isNone_iff_eq_none.mp hn]
    rw [ht]
    by_contra hv
    simp [hv] at h
  · unfold check at h
    split at h
    · rename_i hp
      obtain ⟨s, hs, hps⟩ := (Option.any_eq_true _ _).mp hp
      rw [hs]
      exact hps
    · cases h

theorem toBody_isValid {body : JsonObject} (h : invalidFields body = []) : (toBody body).isValid = true := by
  simp only [invalidFields, List.append_eq_nil_iff] at h
  obtain ⟨⟨⟨⟨⟨⟨_, heventId⟩, htype⟩, hid⟩, htxHash⟩, hamount⟩, hasset⟩ := h
  simp only [BlockchainWebhookBody.isValid, toBody, Bool.and_eq_true]
  exact ⟨⟨⟨⟨⟨check_eq_nil heventId, check_eq_nil htype⟩, check_eq_nil hid⟩, checkTxHash_eq_nil htxHash⟩,
    check_eq_nil hamount⟩, check_eq_nil hasset⟩

def validatePayload (body : Json) : Except Failure BlockchainWebhookDto :=
  match body with
  | .obj entries =>
    if h : invalidFields entries = [] then .ok ⟨toBody entries, toBody_isValid h⟩
    else .error (.api (.invalidFields (invalidFields entries)))
  | _ => .error (.api (.validation "Request body must be a JSON object."))

def toPayload (dto : BlockchainWebhookDto) : JsonObject :=
  [("eventId".toList, .str dto.eventId), ("type".toList, .str dto.type),
    ("paymentIntentId".toList, .str dto.paymentIntentId),
    ("txHash".toList, PaymentIntents.optionalText (dto.txHash.map normalizeTxHash)),
    ("amount".toList, .str dto.amount), ("asset".toList, .str dto.asset)]

variable (rt : Runtime)

def payloadHash (dto : BlockchainWebhookDto) : Text := hashCanonicalJson rt (.obj (toPayload dto))

def withTxHash (payload : JsonObject) (txHash : Text) : JsonObject :=
  payload.map (fun e => if e.1 = "txHash".toList then (e.1, .str txHash) else e)

def hasSamePayload (existingEvent : WebhookEvent) (payloadHash : Text) : Bool :=
  if existingEvent.payloadHash = payloadHash then true
  else
    match existingEvent.payload.text "txHash" with
    | none => false
    | some storedTxHash =>
      hashCanonicalJson rt (.obj (withTxHash existingEvent.payload (normalizeTxHash storedTxHash))) = payloadHash

def newWebhookEvent (nonce : Text) (dto : BlockchainWebhookDto) (fresh : Fresh) : WebhookEvent where
  id := fresh.webhookEventId
  provider := blockchainWebhookProvider
  externalEventId := dto.eventId
  nonce := some nonce
  eventType := dto.type
  paymentIntentId := none
  txHash := dto.txHash.map normalizeTxHash
  payload := toPayload dto
  payloadHash := payloadHash rt dto
  status := .received
  failureReason := none
  receivedAt := fresh.receivedAt
  processedAt := none

/-- PostgreSQL reads the text of `payment_intent_id` as a `uuid`. -/
def tryInsertWebhookEvent (nonce : Text) (dto : BlockchainWebhookDto) (fresh : Fresh) : Script (Option Uuid) :=
  query (.insertWebhookEvent dto.paymentIntentId (newWebhookEvent rt nonce dto fresh))

def replayOrRejectConflict (nonce : Text) (dto : BlockchainWebhookDto) : Script WebhookAcceptance := do
  match ← query (.findWebhookEventByEventId blockchainWebhookProvider dto.eventId) with
  | some existingEvent =>
    if hasSamePayload rt existingEvent (payloadHash rt dto) then
      return ⟨⟨dto.eventId, .alreadyAccepted⟩, existingEvent.id⟩
    else throw (.api .webhookEventConflict)
  | none =>
    match ← query (.findWebhookEventByNonce blockchainWebhookProvider nonce) with
    | some _ => throw (.api .webhookNonceReplay)
    | none => throw (.api .webhookConflictUnclassified)

def outboxPayload (webhookEventId : Uuid) (correlationId : Option Text) : JsonObject :=
  ("webhookEventId".toList, .str webhookEventId.render) ::
    (correlationId.map (fun c => ("correlationId".toList, Json.str c))).toList

def newOutboxEvent (webhookEventId : Uuid) (fresh : Fresh) : OutboxEvent where
  id := fresh.outboxEventId
  type := OutboxDispatcher.processWebhookOutboxType
  aggregateType := OutboxDispatcher.webhookOutboxAggregateType
  aggregateId := webhookEventId
  payload := outboxPayload webhookEventId fresh.correlationId
  status := .pending
  attempts := 0
  nextAttemptAt := none
  lastError := none
  deadAt := none
  createdAt := fresh.now
  publishedAt := none
  updatedAt := fresh.now
  writtenAt := fresh.now

def persist (nonce : Text) (dto : BlockchainWebhookDto) (fresh : Fresh) : Script WebhookAcceptance := do
  match ← tryInsertWebhookEvent rt nonce dto fresh with
  | none => replayOrRejectConflict rt nonce dto
  | some webhookEventId =>
    query (.insertOutboxEvent (newOutboxEvent webhookEventId fresh))
    return ⟨⟨dto.eventId, .accepted⟩, webhookEventId⟩

def validateRequest (config : WebhookConfig) (request : AcceptBlockchainWebhookRequest) (nowMs : Time) :
    Except Failure (Text × BlockchainWebhookDto) := do
  let headers ← validateHeaders request.headers
  validateTimestamp config nowMs headers.timestamp
  verifySignature rt config headers request.rawBody
  let dto ← validatePayload request.body
  return (headers.nonce, dto)

def acceptBlockchainWebhook (config : WebhookConfig) (request : AcceptBlockchainWebhookRequest) (fresh : Fresh) :
    Script WebhookAcceptanceResponse :=
  match validateRequest rt config request fresh.nowMs with
  | .error e => throw e
  | .ok (nonce, dto) => do
    let acceptance ← persist rt nonce dto fresh
    return acceptance.toWebhookAcceptanceResponse

end EventGateway.WebhookEvents
