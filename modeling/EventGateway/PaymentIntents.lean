import EventGateway.Statements

namespace EventGateway.PaymentIntents

open TransactionProgram PaymentAmount CanonicalJson

def idempotencyScope : Text := "payment-intents:create".toList

def idempotencyResourceType : Text := "payment_intent".toList

def idempotencyRecordTtlDays : ℤ := 30

structure CreatePaymentIntentBody where
  amount : Text
  asset : Text
  destination : Text
  reference : Option Text
  clientRequestId : Option Text
  metadata : JsonObject

/-- `/^[A-Z0-9][A-Z0-9._:-]*$/` -/
def assetPattern (asset : Text) : Bool :=
  let alnum (c : Char) : Bool := c.isUpper || c.isDigit
  match asset with
  | [] => false
  | c :: cs => alnum c && cs.all (fun c => alnum c || ['.', '_', ':', '-'].contains c)

def isVariationSelector (c : Char) : Bool := c = '\ufe0e' || c = '\ufe0f'

/-- The matches of `/[^\uFE0F\uFE0E][\uFE0F\uFE0E]/g`. -/
def presentationSequences : Text → ℕ
  | c :: d :: s => (if !isVariationSelector c && isVariationSelector d then 1 else 0) + presentationSequences (d :: s)
  | _ => 0

/-- `@MaxLength(max)`. validator.js counts a surrogate pair once, and a variation selector not at all behind
another character. -/
def maxLength (max : ℕ) (s : Text) : Bool := s.length - presentationSequences s ≤ max

def isBounded (max : ℕ) (s : Text) : Bool := !s.isEmpty && maxLength max s

def isValidAsset (asset : Text) : Bool := isBounded 32 asset && assetPattern asset

def CreatePaymentIntentBody.isValid (b : CreatePaymentIntentBody) : Bool :=
  isValidPaymentAmount b.amount && isValidAsset b.asset && isBounded 255 b.destination &&
    b.reference.all (maxLength 255) && b.clientRequestId.all (maxLength 255)

structure CreatePaymentIntentDto extends CreatePaymentIntentBody where
  valid : toCreatePaymentIntentBody.isValid = true

structure CreatePaymentIntentResult where
  httpStatus : ℕ
  replayed : Bool
  body : PaymentIntentResponse
deriving DecidableEq

/-- What one request takes from `gen_random_uuid()`, `Date.now()` and `now()`. -/
structure Fresh where
  recordId : Uuid
  paymentIntentId : Uuid
  dateNow : Time
  now : Time

def optionalText : Option Text → Json
  | none => .null
  | some s => .str s

def toCanonicalPayload (dto : CreatePaymentIntentDto) : Json :=
  .obj [("amount".toList, .str dto.amount), ("asset".toList, .str dto.asset),
    ("destination".toList, .str dto.destination), ("reference".toList, optionalText dto.reference),
    ("clientRequestId".toList, optionalText dto.clientRequestId), ("metadata".toList, .obj dto.metadata)]

def validateIdempotencyKey (idempotencyKey : Option Text) : Except Failure Text :=
  match idempotencyKey with
  | none => .error (.api (.validation "Idempotency-Key header is required."))
  | some key =>
    if Text.trim key = [] then .error (.api (.validation "Idempotency-Key header is required."))
    else if 255 < (utf16Units key).length then
      .error (.api (.validation "Idempotency-Key header must be 255 characters or fewer."))
    else .ok key

variable (rt : Runtime)

def toResponse (paymentIntent : PaymentIntentEntity) : PaymentIntentResponse where
  id := paymentIntent.id.render
  status := paymentIntent.status
  amount := toCanonicalAmount paymentIntent.amount
  asset := paymentIntent.asset
  destination := paymentIntent.destination
  reference := paymentIntent.reference
  clientRequestId := paymentIntent.clientRequestId
  confirmedTxHash := paymentIntent.confirmedTxHash
  createdAt := rt.toISOString paymentIntent.createdAt
  updatedAt := rt.toISOString paymentIntent.updatedAt

def newRecord (idempotencyKey requestHash : Text) (fresh : Fresh) : IdempotencyRecord where
  id := fresh.recordId
  scope := idempotencyScope
  idempotencyKey := idempotencyKey
  requestHash := requestHash
  responseStatus := none
  responseBody := none
  resourceType := none
  resourceId := none
  expiresAt := some (fresh.dateNow + idempotencyRecordTtlDays * 24 * 60 * 60 * 1000)

def tryInsertIdempotencyRecord (idempotencyKey requestHash : Text) (fresh : Fresh) : Script (Option Uuid) :=
  query (.insertIdempotencyRecord (newRecord idempotencyKey requestHash fresh))

def replayOrRejectConflict (idempotencyKey requestHash : Text) : Script CreatePaymentIntentResult := do
  match ← query (.findIdempotencyRecord idempotencyScope idempotencyKey) with
  | none => throw (.api .idempotencyRecordUnreadable)
  | some existingRecord =>
    if existingRecord.requestHash ≠ requestHash then throw (.api .idempotencyConflict)
    else
      match existingRecord.responseStatus, existingRecord.responseBody with
      | some _, some body => return ⟨200, true, body⟩
      | _, _ => throw (.api .idempotentSnapshotUnavailable)

def newPaymentIntent (dto : CreatePaymentIntentDto) (fresh : Fresh) : PaymentIntentEntity where
  id := fresh.paymentIntentId
  status := .created
  amount := dto.amount
  asset := dto.asset
  destination := dto.destination
  reference := dto.reference
  clientRequestId := dto.clientRequestId
  metadata := dto.metadata
  confirmedTxHash := none
  failureReason := none
  expiresAt := none
  createdAt := fresh.now
  updatedAt := fresh.now

def responsePatch (responseBody : PaymentIntentResponse) (paymentIntentId : Uuid) : IdempotencyRecordPatch where
  responseStatus := some 201
  responseBody := some responseBody
  resourceType := some idempotencyResourceType
  resourceId := some paymentIntentId

def requestHash (dto : CreatePaymentIntentDto) : Text := hashCanonicalJson rt (toCanonicalPayload dto)

def createPaymentIntent (idempotencyKey : Text) (dto : CreatePaymentIntentDto) (fresh : Fresh) :
    Script CreatePaymentIntentResult := do
  match ← tryInsertIdempotencyRecord idempotencyKey (requestHash rt dto) fresh with
  | none => replayOrRejectConflict idempotencyKey (requestHash rt dto)
  | some idempotencyRecordId =>
    let paymentIntent := newPaymentIntent dto fresh
    query (.insertPaymentIntent paymentIntent)
    let responseBody := toResponse rt paymentIntent
    match ← query (.findIdempotencyRecordById idempotencyRecordId) with
    | none => throw .entityNotFound
    | some idempotencyRecord =>
      query (.saveIdempotencyRecord idempotencyRecord.id (responsePatch responseBody paymentIntent.id))
      return ⟨201, false, responseBody⟩

end EventGateway.PaymentIntents
