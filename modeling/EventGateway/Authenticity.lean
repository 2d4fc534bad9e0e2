import EventGateway.ColumnFits
import EventGateway.ConfirmationSafety
import EventGateway.JobCompletion
import EventGateway.NonceReuse
import EventGateway.SignedFraming

namespace EventGateway

open KeyedTable TransactionProgram Interleaving TxHash PaymentAmount WebhookSecurity WebhookEvents
open WebhookEventProcessor (transactionConfirmed)

structure Delivery where
  config : WebhookConfig
  request : AcceptBlockchainWebhookRequest
  fresh : Fresh
  headers : ValidatedWebhookHeaders
  dto : BlockchainWebhookDto

namespace Delivery

def message (x : Delivery) : Bytes := signedMessage x.headers.timestamp x.headers.nonce x.request.rawBody

structure Authentic (rt : Runtime) (x : Delivery) : Prop where
  headers : validateHeaders x.request.headers = .ok x.headers
  timestamp : unixTimestampPattern x.headers.timestamp = true
  timely : |x.fresh.nowMs - Text.digitsValue x.headers.timestamp * 1000| ≤ (x.config.toleranceSeconds * 1000 : ℤ)
  signed : ∃ secret digits, x.config.webhookSecret = some secret ∧ secret ≠ [] ∧
    x.headers.signature = webhookSignaturePrefix ++ digits ∧
    Text.toLowerCase digits = Text.toLowerCase (rt.hmacSha256Hex secret x.message)
  payload : validatePayload x.request.body = .ok x.dto

structure Confirms (x : Delivery) (i : PaymentIntent) : Prop where
  type : x.dto.type = transactionConfirmed
  intent : Uuid.parse x.dto.paymentIntentId = some i.id
  amount : decimalValue x.dto.amount = i.amount.value
  asset : x.dto.asset = i.asset
  txHash : ∃ txHash, x.dto.txHash = some txHash ∧ i.confirmedTxHash = some (normalizeTxHash txHash)

structure StoredAs (x : Delivery) (e : WebhookEvent) : Prop where
  eventId : HasEventId x.dto.eventId e
  nonce : HasNonce x.headers.nonce e
  payload : e.payload = toPayload x.dto
  intent : ∃ paymentIntentId, Uuid.parse x.dto.paymentIntentId = some paymentIntentId ∧
    e.paymentIntentId = some paymentIntentId

end Delivery

section Validation

variable {rt : Runtime} {config : WebhookConfig} {headers : ValidatedWebhookHeaders} {rawBody : Bytes} {nowMs : Time}

theorem timely_of_validateTimestamp (h : validateTimestamp config nowMs headers.timestamp = .ok ()) :
    unixTimestampPattern headers.timestamp = true ∧
      |nowMs - Text.digitsValue headers.timestamp * 1000| ≤ (config.toleranceSeconds * 1000 : ℤ) := by
  unfold validateTimestamp at h
  cases hv : validateWebhookTimestamp headers.timestamp config.toleranceSeconds nowMs with
  | error fault =>
    rw [hv] at h
    cases fault <;> cases h
  | ok seconds =>
    unfold validateWebhookTimestamp at hv
    dsimp only at hv
    split_ifs at hv with hpattern hsafe hlate
    exact ⟨by simpa using hpattern, not_lt.mp hlate⟩

theorem signed_of_verifySignature (h : verifySignature rt config headers rawBody = .ok ()) :
    ∃ secret digits, config.webhookSecret = some secret ∧ secret ≠ [] ∧
      headers.signature = webhookSignaturePrefix ++ digits ∧ Text.toLowerCase digits =
        Text.toLowerCase (rt.hmacSha256Hex secret (signedMessage headers.timestamp headers.nonce rawBody)) := by
  unfold verifySignature at h
  split_ifs at h with hformat
  split at h
  · cases h
  · cases h
  · rename_i secret hnil hsecret
    split_ifs at h with hverified
    rw [Bool.not_eq_true, Bool.not_eq_false'] at hformat hverified
    have hprefix := hformat
    rw [hasValidWebhookSignatureFormat, Bool.and_eq_true, List.isPrefixOf_iff_prefix] at hprefix
    obtain ⟨digits, hdigits⟩ := hprefix.1
    refine ⟨secret, digits, hsecret, hnil, hdigits.symm, ?_⟩
    unfold verifyWebhookSignature at hverified
    rw [if_neg (by simp [hformat]), decide_eq_true_eq, ← hdigits, createWebhookSignature, List.drop_left,
      List.drop_left] at hverified
    exact hverified.symm

end Validation

theorem authentic_of_validateRequest {rt : Runtime} {config : WebhookConfig} {request : AcceptBlockchainWebhookRequest}
    {fresh : Fresh} {nonce : Text} {dto : BlockchainWebhookDto}
    (h : validateRequest rt config request fresh.nowMs = .ok (nonce, dto)) :
    ∃ headers : ValidatedWebhookHeaders, headers.nonce = nonce ∧
      Delivery.Authentic rt ⟨config, request, fresh, headers, dto⟩ := by
  unfold validateRequest at h
  obtain ⟨headers, hheaders, h⟩ := ok_of_bind h
  obtain ⟨_, htimestamp, h⟩ := ok_of_bind h
  obtain ⟨_, hsignature, h⟩ := ok_of_bind h
  obtain ⟨dto', hpayload, h⟩ := ok_of_bind h
  cases h
  obtain ⟨hpattern, htimely⟩ := timely_of_validateTimestamp htimestamp
  exact ⟨headers, rfl, hheaders, hpattern, htimely, signed_of_verifySignature hsignature, hpayload⟩

section Sources

variable {ι : Type} (rt : Runtime) (req : ι → Request)

structure AcceptedThrough (σ : SystemState ι) (j : ι) (x : Delivery) : Prop where
  request : req j = .acceptBlockchainWebhook x.config x.request x.fresh
  accepted : AcceptedWith σ j ⟨x.dto.eventId, .accepted⟩
  authentic : x.Authentic rt

variable {rt req} [DecidableEq ι] {ls : List (Label ι)} {σ : SystemState ι}

theorem stored_of_accepted (h : runs rt req (State.init Db.empty) ls = some σ) {j : ι} {eventId : Text}
    (hj : AcceptedWith σ j ⟨eventId, .accepted⟩) :
    ∃ x, AcceptedThrough rt req σ j x ∧ ∃ e ∈ σ.world.db.webhookEvents, x.StoredAs e := by
  obtain ⟨w, d, hcommits, hev⟩ := (reachable_ended h).committed j _ hj
  generalize hq : req j = q at hcommits
  cases hcommits with
  | acceptance hv ha =>
    rename_i config request fresh nonce dto
    cases ha with
    | accepted paymentIntentId hp he hn hid ho =>
      obtain ⟨headers, rfl, hauthentic⟩ := authentic_of_validateRequest hv
      obtain ⟨e, hmem, hee⟩ := hev.webhookEvents _ ((Table.mem_insert hid).mpr (.inr rfl))
      refine ⟨⟨config, request, fresh, headers, dto⟩, ⟨hq, hj, hauthentic⟩, e, hmem, ?_⟩
      refine ⟨hasEventId_of_evolves hee ⟨rfl, rfl⟩, hasNonce_of_evolves hee ⟨rfl, rfl⟩, ?_, paymentIntentId, hp, ?_⟩
      · rw [hee.1]
        rfl
      · rw [hee.1]
        rfl

omit [DecidableEq ι] in
theorem AcceptedThrough.delivery_eq {j : ι} {x x' : Delivery} (hx : AcceptedThrough rt req σ j x)
    (hx' : AcceptedThrough rt req σ j x') : x = x' := by
  obtain ⟨config, request, fresh, headers, dto⟩ := x
  obtain ⟨config', request', fresh', headers', dto'⟩ := x'
  have hrequest := hx.request.symm.trans hx'.request
  simp only [Request.acceptBlockchainWebhook.injEq] at hrequest
  obtain ⟨rfl, rfl, rfl⟩ := hrequest
  have hheaders := hx.authentic.headers.symm.trans hx'.authentic.headers
  have hdto := hx.authentic.payload.symm.trans hx'.authentic.payload
  simp only [Except.ok.injEq] at hheaders hdto
  rw [hheaders, hdto]

theorem stored_of_acceptedThrough (h : runs rt req (State.init Db.empty) ls = some σ) {j : ι} {x : Delivery}
    (hx : AcceptedThrough rt req σ j x) : ∃ e ∈ σ.world.db.webhookEvents, x.StoredAs e := by
  obtain ⟨x', hx', e, he, hstored⟩ := stored_of_accepted h hx.accepted
  obtain rfl := hx.delivery_eq hx'
  exact ⟨e, he, hstored⟩

theorem source_of_event (h : runs rt req (State.init Db.empty) ls = some σ) {e : WebhookEvent}
    (he : e ∈ σ.world.db.webhookEvents) : ∃ j x, AcceptedThrough rt req σ j x ∧ x.StoredAs e := by
  have hinv := reachable_acceptanceInv h
  obtain ⟨j, ⟨eventId, status⟩, hj, hid, hstatus⟩ := hinv.acceptor e he
  cases hstatus
  obtain ⟨x, hx, e', he', hstored⟩ := stored_of_accepted h hj
  have heventId : x.dto.eventId = eventId := by
    have hsame := hx.accepted.symm.trans hj
    cases hsame
    rfl
  -- one row holds the event ID, so the row stored for the request is the event
  have hevent : e' = e := (reachable_indexes h).externalEventId e' he' e he
    (hstored.eventId.1.trans (hinv.provider e he).symm) (hstored.eventId.2.trans (heventId.trans hid))
  exact ⟨j, x, hx, hevent ▸ hstored⟩

theorem nonce_of_message {x x' : Delivery} (hx : x.Authentic rt) (hx' : x'.Authentic rt)
    (hbody : IsJsonObjectBody x.request.rawBody) (hbody' : IsJsonObjectBody x'.request.rawBody)
    (h : x.message = x'.message) : x.headers.nonce = x'.headers.nonce := by
  obtain ⟨s, hs, hobject⟩ := hbody
  obtain ⟨s', hs', hobject'⟩ := hbody'
  rw [Delivery.message, Delivery.message, hs, hs', signedMessage_utf8, signedMessage_utf8] at h
  obtain ⟨-, hrest⟩ := split_at_first (dot_not_mem_timestamp hx.timestamp) (dot_not_mem_timestamp hx'.timestamp)
    (utf8_injective h)
  exact (split_at_object hobject hobject' hrest).1

theorem acceptedThrough_unique (h : runs rt req (State.init Db.empty) ls = some σ) {j j' : ι} {x x' : Delivery}
    (hx : AcceptedThrough rt req σ j x) (hx' : AcceptedThrough rt req σ j' x')
    (hnonce : x.headers.nonce = x'.headers.nonce) : j = j' := by
  obtain ⟨e, he, hstored⟩ := stored_of_acceptedThrough h hx
  obtain ⟨e', he', hstored'⟩ := stored_of_acceptedThrough h hx'
  have hevent : e = e' := (reachable_indexes h).nonce e he e' he' x'.headers.nonce
    (hstored.nonce.1.trans hstored'.nonce.1.symm) (hnonce ▸ hstored.nonce.2) hstored'.nonce.2
  have heventId : x.dto.eventId = x'.dto.eventId := by
    rw [← hstored.eventId.2, hevent, hstored'.eventId.2]
  exact (reachable_acceptanceInv h).once j j' _ _ hx.accepted hx'.accepted heventId rfl rfl

theorem confirms_of_confirmedBy {x : Delivery} {e : WebhookEvent} {i : PaymentIntent} (hstored : x.StoredAs e)
    (hby : ConfirmedBy e i) : x.Confirms i := by
  obtain ⟨paymentIntentId, hparse, hid⟩ := hstored.intent
  obtain ⟨amount, hamount, hvalue⟩ := hby.amount
  obtain ⟨stored, htext, hhash⟩ := hby.txHash
  have htype := hby.type
  have hasset := hby.asset
  rw [hstored.payload] at hamount htext htype hasset
  rw [text_amount_toPayload] at hamount
  rw [text_txHash_toPayload] at htext
  obtain ⟨txHash, htxHash, rfl⟩ := Option.map_eq_some_iff.mp htext
  refine ⟨Option.some.inj ((text_type_toPayload x.dto).symm.trans htype), ?_, ?_, ?_, txHash, htxHash, ?_⟩
  · rw [hparse, ← hid, hby.intent]
  · rw [Option.some.inj hamount]
    exact hvalue
  · exact Option.some.inj hasset
  · rw [hhash, normalizeTxHash_idempotent]

theorem confirmations_authentic (h : runs rt req (State.init Db.empty) ls = some σ) :
    (∀ i ∈ σ.world.db.paymentIntents, i.status = .confirmed →
      ∃ j x, AcceptedThrough rt req σ j x ∧ x.Confirms i) ∧
    ∀ j j' x x', AcceptedThrough rt req σ j x → AcceptedThrough rt req σ j' x' →
      (x.headers.nonce = x'.headers.nonce ∨ IsJsonObjectBody x.request.rawBody ∧
        IsJsonObjectBody x'.request.rawBody ∧ x.message = x'.message) →
      j = j' ∧ ∀ i ∈ σ.world.db.paymentIntents, ∀ i' ∈ σ.world.db.paymentIntents,
        x.Confirms i → x'.Confirms i' → i = i' := by
  have hinv := reachable_confirmationInv h
  refine ⟨fun i hi hs => ?_, fun j j' x x' hx hx' hsame => ?_⟩
  · obtain ⟨e, he, hconfirmed⟩ := confirmed_of_some hinv hi (Or.inl hs)
    obtain ⟨j, x, hx, hstored⟩ := source_of_event h he
    exact ⟨j, x, hx, confirms_of_confirmedBy hstored (confirmedBy_of_confirmed hinv he hconfirmed)⟩
  · have hnonce : x.headers.nonce = x'.headers.nonce := by
      rcases hsame with hnonce | ⟨hbody, hbody', hmessage⟩
      · exact hnonce
      · exact nonce_of_message hx.authentic hx'.authentic hbody hbody' hmessage
    obtain rfl := acceptedThrough_unique h hx hx' hnonce
    obtain rfl := hx.delivery_eq hx'
    refine ⟨rfl, fun i hi i' hi' hc hc' => ?_⟩
    exact Table.eq_of_key hi hi' (Option.some.inj (hc.intent.symm.trans hc'.intent))

theorem confirmations_authentic_sample : ∃ σ : SystemState Sample.Party,
    runs Sample.runtime Sample.requests (State.init Db.empty) Sample.confirmation = some σ ∧
      σ.world.db.paymentIntents.rows.map (fun i => i.status) = [.confirmed] ∧
      ∀ i ∈ σ.world.db.paymentIntents, i.status = .confirmed →
        ∃ j x, AcceptedThrough Sample.runtime Sample.requests σ j x ∧ x.Confirms i := by
  have hrun : (runs Sample.runtime Sample.requests (State.init Db.empty) Sample.confirmation).any (fun σ =>
      σ.world.db.paymentIntents.rows.map (fun i => i.status) = [.confirmed]) = true := by
    decide +kernel
  obtain ⟨σ, hσ, hrows⟩ := (Option.any_eq_true _ _).mp hrun
  exact ⟨σ, hσ, of_decide_eq_true hrows, (confirmations_authentic hσ).1⟩

end Sources

end EventGateway
