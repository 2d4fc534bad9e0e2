import EventGateway.CanonicalJson
import EventGateway.DecimalText
import EventGateway.TxHash

namespace EventGateway.WebhookSecurity

open Text

def webhookSignaturePrefix : Text := "v1=".toList

def utf8 (s : Text) : Bytes := s.flatMap String.utf8EncodeChar

def signedMessage (timestamp nonce : Text) (rawBody : Bytes) : Bytes :=
  utf8 timestamp ++ utf8 ['.'] ++ utf8 nonce ++ utf8 ['.'] ++ rawBody

def createWebhookSignature (rt : Runtime) (secret timestamp nonce : Text) (rawBody : Bytes) : Text :=
  webhookSignaturePrefix ++ rt.hmacSha256Hex secret (signedMessage timestamp nonce rawBody)

/-- `/^v1=[a-fA-F0-9]{64}$/` -/
def hasValidWebhookSignatureFormat (signatureHeader : Text) : Bool :=
  webhookSignaturePrefix.isPrefixOf signatureHeader &&
    let digits := signatureHeader.drop webhookSignaturePrefix.length
    digits.length = 64 && digits.all TxHash.isHexDigit

/-- The digests are compared as bytes, so the case of the hexadecimal digits does not matter. -/
def verifyWebhookSignature (rt : Runtime) (secret timestamp nonce : Text) (rawBody : Bytes)
    (signatureHeader : Text) : Bool :=
  if !hasValidWebhookSignatureFormat signatureHeader then false
  else
    let expectedSignature := (createWebhookSignature rt secret timestamp nonce rawBody).drop
      webhookSignaturePrefix.length
    let providedSignature := signatureHeader.drop webhookSignaturePrefix.length
    Text.toLowerCase expectedSignature = Text.toLowerCase providedSignature

inductive TimestampFault
  | invalidFormat
  | outsideTolerance
deriving DecidableEq

/-- `/^\d+$/` -/
def unixTimestampPattern (timestamp : Text) : Bool := !timestamp.isEmpty && timestamp.all Char.isDigit

def maxSafeInteger : ℕ := 2 ^ 53 - 1

def validateWebhookTimestamp (timestamp : Text) (toleranceSeconds : ℕ) (nowMs : ℤ) : Except TimestampFault ℕ :=
  if !unixTimestampPattern timestamp then .error .invalidFormat
  else
    let timestampSeconds := digitsValue timestamp
    if maxSafeInteger < timestampSeconds then .error .invalidFormat
    else if (toleranceSeconds * 1000 : ℤ) < |nowMs - timestampSeconds * 1000| then .error .outsideTolerance
    else .ok timestampSeconds

end EventGateway.WebhookSecurity
