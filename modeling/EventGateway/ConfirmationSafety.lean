import EventGateway.GatewaySpec

namespace EventGateway

open KeyedTable TransactionProgram Interleaving Statements TxHash PaymentAmount
open WebhookEventProcessor (Matches transactionConfirmed)

structure Confirmed (e : WebhookEvent) (i : PaymentIntent) : Prop where
  processed : e.status = .processed
  confirmed : i.status = .confirmed
  hash : ∃ h, i.confirmedTxHash = some h ∧ normalizeTxHash h = h ∧ Matches e i h

def Unconfirmed (i : PaymentIntent) : Prop := i.status = .created ∧ i.confirmedTxHash = none

structure PayloadOf (payload : JsonObject) (dto : WebhookEvents.BlockchainWebhookDto) : Prop where
  payload : payload = WebhookEvents.toPayload dto
  fits : (dto.txHash.map normalizeTxHash).any (isTooLong maxVarchar) = false

structure ConfirmationInv (d : Db) : Prop where
  intents : ∀ i ∈ d.paymentIntents, Unconfirmed i ∨ ∃ e ∈ d.webhookEvents, Confirmed e i
  events : ∀ e ∈ d.webhookEvents, e.status = .processed → ∃ i ∈ d.paymentIntents, Confirmed e i
  payloads : ∀ e ∈ d.webhookEvents, ∃ dto, PayloadOf e.payload dto
  failureReason : ∀ i ∈ d.paymentIntents, i.failureReason = none

theorem confirmationInv_empty : ConfirmationInv Db.empty := by
  constructor <;> intro x hx <;> exact absurd hx (Table.not_mem_empty x)

theorem Confirmed.isFinal {e : WebhookEvent} {i : PaymentIntent} (h : Confirmed e i) : e.isFinal = true := by
  simp [WebhookEvent.isFinal, h.processed]

section Kept

variable {d d' : Db} (hev : d.Evolves d')

include hev

theorem mem_of_final {e : WebhookEvent} (he : e ∈ d.webhookEvents) (hf : e.isFinal = true) : e ∈ d'.webhookEvents := by
  obtain ⟨e', he', hee'⟩ := hev.webhookEvents e he
  rw [← hee'.2.1 hf]
  exact he'

theorem mem_of_confirmed {i : PaymentIntent} (hi : i ∈ d.paymentIntents) (hs : i.status = .confirmed) :
    i ∈ d'.paymentIntents := by
  obtain ⟨i', hi', rfl | ⟨hc | hc, _⟩⟩ := hev.paymentIntents i hi
  · exact hi'
  · rw [hs] at hc
    cases hc
  · rw [hs] at hc
    cases hc

theorem ConfirmationInv.preserved (h : ConfirmationInv d)
    (hi : ∀ i ∈ d'.paymentIntents, i ∈ d.paymentIntents ∨ i.failureReason = none ∧
      (Unconfirmed i ∨ ∃ e ∈ d'.webhookEvents, Confirmed e i))
    (he : ∀ e ∈ d'.webhookEvents, e.status = .processed → e ∈ d.webhookEvents ∨ ∃ i ∈ d'.paymentIntents, Confirmed e i)
    (hp : ∀ e ∈ d'.webhookEvents, ∃ dto, PayloadOf e.payload dto) : ConfirmationInv d' where
  intents := by
    intro i hi'
    rcases hi i hi' with hold | ⟨_, hnew⟩
    · rcases h.intents i hold with hu | ⟨e, he', hc⟩
      · exact Or.inl hu
      · exact Or.inr ⟨e, mem_of_final hev he' hc.isFinal, hc⟩
    · exact hnew
  events := by
    intro e he' hs
    rcases he e he' hs with hold | hnew
    · obtain ⟨i, hi', hc⟩ := h.events e hold hs
      exact ⟨i, mem_of_confirmed hev hi' hc.confirmed, hc⟩
    · exact hnew
  payloads := hp
  failureReason := by
    intro i hi'
    rcases hi i hi' with hold | ⟨hf, _⟩
    · exact h.failureReason i hold
    · exact hf

end Kept

section Steps

variable {rt : Runtime} {d d' : Db}

theorem confirmationInv_created {key : Text} {dto : PaymentIntents.CreatePaymentIntentDto} {fresh : PaymentIntents.Fresh}
    {r : PaymentIntents.CreatePaymentIntentResult} (h : ConfirmationInv d)
    (hc : PaymentIntents.Created rt key dto fresh d r d') : ConfirmationInv d' := by
  cases hc with
  | replayed => exact h
  | created amount hk hr hi ha hlen hfit =>
    apply h.preserved (PaymentIntents.Created.created amount hk hr hi ha hlen hfit).evolves
    · intro i hi
      rcases Table.mem_of_mem_insert hi with hi | rfl
      · exact Or.inl hi
      · exact Or.inr ⟨rfl, Or.inl ⟨rfl, rfl⟩⟩
    · exact fun e he _ => Or.inl he
    · exact h.payloads

theorem fits_of_columns {nonce : Text} {dto : WebhookEvents.BlockchainWebhookDto} {fresh : WebhookEvents.Fresh}
    (hfit : exceedsEventColumns (WebhookEvents.newWebhookEvent rt nonce dto fresh) = false) :
    (dto.txHash.map normalizeTxHash).any (isTooLong maxVarchar) = false := by
  simp only [exceedsEventColumns, Bool.or_eq_false_iff] at hfit
  exact hfit.2

theorem confirmationInv_accepted {nonce : Text} {dto : WebhookEvents.BlockchainWebhookDto} {fresh : WebhookEvents.Fresh}
    {r : WebhookEvents.WebhookAcceptanceResponse} (h : ConfirmationInv d)
    (ha : WebhookEvents.Accepted rt nonce dto fresh d r d') : ConfirmationInv d' := by
  cases ha with
  | alreadyAccepted => exact h
  | accepted paymentIntentId hp he hn hid ho hfit =>
    apply h.preserved (WebhookEvents.Accepted.accepted paymentIntentId hp he hn hid ho hfit).evolves
    · exact fun i hi => Or.inl hi
    · intro e he hs
      rcases Table.mem_of_mem_insert he with he | rfl
      · exact Or.inl he
      · cases hs
    · intro e he
      rcases Table.mem_of_mem_insert he with he | rfl
      · exact h.payloads e he
      · exact ⟨dto, rfl, fits_of_columns hfit⟩

theorem confirmationInv_outboxWrites {ws : List Write} (h : ConfirmationInv d)
    (hws : ∀ x ∈ ws, OutboxDispatcher.OutboxWrite d x) : ConfirmationInv (engine.view d ws) := by
  apply h.preserved (OutboxDispatcher.evolves_outboxWrites hws)
  · intro i hi
    rw [(OutboxDispatcher.view_outboxWrites hws).1] at hi
    exact Or.inl hi
  · intro e he hs
    obtain ⟨e₀, he₀, rfl | ⟨_, rfl⟩⟩ := OutboxDispatcher.mem_view_outboxWrites hws he
    · exact Or.inl he₀
    · cases hs
  · intro e he
    obtain ⟨e₀, he₀, rfl | ⟨_, rfl⟩⟩ := OutboxDispatcher.mem_view_outboxWrites hws he
    · exact h.payloads e he₀
    · exact h.payloads e₀ he₀

variable {input : WebhookEventProcessor.ProcessWebhookEventInput} {clock : WebhookEventProcessor.Clock}

theorem payloads_settle (h : ConfirmationInv d) {t : Table WebhookEvent} {id : Uuid} {p : WebhookEventPatch}
    (ht : t = d.webhookEvents.update id p.change) : ∀ e ∈ t, ∃ dto, PayloadOf e.payload dto := by
  intro e he
  rw [ht] at he
  obtain ⟨e₀, he₀, rfl⟩ := Table.mem_update.mp he
  split_ifs
  · exact h.payloads e₀ he₀
  · exact h.payloads e₀ he₀

theorem matches_patch {e : WebhookEvent} {i : PaymentIntent} {h : Text} (hm : Matches e i h) (p : WebhookEventPatch)
    (q : PaymentIntentPatch) : Matches (e.patch p) (i.patch q) h :=
  ⟨hm.type, hm.hash, hm.intent, hm.payload⟩

theorem normalizeTxHash_of_matches {e : WebhookEvent} {i : PaymentIntent} {h : Text} (hm : Matches e i h) :
    normalizeTxHash h = h := by
  obtain ⟨x, _, _, rfl⟩ := hm.hash
  exact normalizeTxHash_idempotent x

theorem confirmationInv_settles {e : WebhookEvent} {r : WebhookEventProcessor.ProcessingResult} (h : ConfirmationInv d)
    (he : d.webhookEvents.get e.id = some e) (hs : WebhookEventProcessor.Settles input clock d e r d') :
    ConfirmationInv d' := by
  have hev := hs.evolves he
  cases hs with
  | alreadyProcessed | alreadyFailed => exact ⟨h.intents, h.events, h.payloads, h.failureReason⟩
  | failed reason hfinal =>
    apply h.preserved hev (fun i hi => Or.inl hi) _ (payloads_settle h rfl)
    intro x hx hstatus
    rcases Table.mem_update_cases (Table.mem_of_get he) hx with ⟨hx, _⟩ | rfl
    · exact Or.inl hx
    · cases hstatus
  | confirmedBefore i txHash hfinal hi hm hstatus hh =>
    apply h.preserved hev (fun i hi => Or.inl hi) _ (payloads_settle h rfl)
    intro x hx hprocessed
    rcases Table.mem_update_cases (Table.mem_of_get he) hx with ⟨hx, _⟩ | rfl
    · exact Or.inl hx
    · refine Or.inr ⟨i, hi, rfl, hstatus, ?_⟩
      rcases h.intents i hi with hu | ⟨e₀, _, hc⟩
      · rw [hu.1] at hstatus
        cases hstatus
      · -- the stored hash is in normal form, so it is the hash of this event too
        obtain ⟨x, hx, hnorm, _⟩ := hc.hash
        rw [hx, Option.map_some, hnorm] at hh
        obtain rfl := Option.some.inj hh
        exact ⟨x, hx, hnorm, hm.type, hm.hash, hm.intent, hm.payload⟩
  | confirmed i txHash hfinal hi hm hstatus hfree =>
    have hnew : Confirmed (e.patch (WebhookEventProcessor.processedPatch clock))
        (i.patch (WebhookEventProcessor.confirmation clock txHash)) :=
      ⟨rfl, rfl, txHash, rfl, normalizeTxHash_of_matches hm, matches_patch hm _ _⟩
    apply h.preserved hev _ _ (payloads_settle h rfl)
    · intro j hj
      rcases Table.mem_update_cases hi hj with ⟨hj, _⟩ | rfl
      · exact Or.inl hj
      · exact Or.inr ⟨rfl, Or.inr ⟨_, Table.mem_update_self (Table.mem_of_get he), hnew⟩⟩
    · intro x hx hprocessed
      rcases Table.mem_update_cases (Table.mem_of_get he) hx with ⟨hx, _⟩ | rfl
      · exact Or.inl hx
      · exact Or.inr ⟨_, Table.mem_update_self hi, hnew⟩

theorem Commits.confirmationInv {w : World Db JobData} {q : Request} {r : Response} (hc : Commits rt w q r d)
    (h : ConfirmationInv w.db) : ConfirmationInv d := by
  cases hc with
  | paymentIntent hc => exact confirmationInv_created h hc
  | acceptance hv ha => exact confirmationInv_accepted h ha
  | dispatched hws => exact confirmationInv_outboxWrites h (fun x hx => (hws x hx).outboxWrite)
  | reconciled hws => exact confirmationInv_outboxWrites h (fun x hx => (hws x hx).outboxWrite)
  | processed hp he hs => exact confirmationInv_settles h he hs

end Steps

structure ConfirmedBy (e : WebhookEvent) (i : PaymentIntent) : Prop where
  processed : e.status = .processed
  intent : e.paymentIntentId = some i.id
  type : e.payload.text "type" = some transactionConfirmed
  txHash : ∃ h, e.payload.text "txHash" = some h ∧ i.confirmedTxHash = some (normalizeTxHash h)
  amount : ∃ a, e.payload.text "amount" = some a ∧ decimalValue a = i.amount.value
  asset : e.payload.text "asset" = some i.asset

theorem text_amount_toPayload (dto : WebhookEvents.BlockchainWebhookDto) :
    JsonObject.text (WebhookEvents.toPayload dto) "amount" = some dto.amount := by
  rfl

theorem isValidPaymentAmount_dto (dto : WebhookEvents.BlockchainWebhookDto) : isValidPaymentAmount dto.amount = true := by
  have hv := dto.valid
  simp only [WebhookEvents.BlockchainWebhookBody.isValid, Bool.and_eq_true] at hv
  exact hv.1.2

theorem confirmedBy_of_confirmed {d : Db} (h : ConfirmationInv d) {e : WebhookEvent} {i : PaymentIntent}
    (he : e ∈ d.webhookEvents) (hc : Confirmed e i) : ConfirmedBy e i := by
  obtain ⟨x, hx, hnorm, hm⟩ := hc.hash
  obtain ⟨t, ht, _, hn⟩ := hm.hash
  obtain ⟨dto, hdto⟩ := h.payloads e he
  have hamount : e.payload.text "amount" = some dto.amount := by
    rw [hdto.payload]
    exact text_amount_toPayload dto
  have hpayload := hm.payload
  simp only [WebhookEventProcessor.validatePayloadMatchesPaymentIntent, hamount] at hpayload
  split at hpayload
  · rename_i a b ha hb
    by_cases hab : a = b
    swap
    · simp [hab] at hpayload
    by_cases hasset : e.payload.text "asset" = some i.load.asset
    swap
    · simp [hab, hasset] at hpayload
    refine ⟨hc.processed, hm.intent, hm.type, ⟨t, ht, by rw [hx, hn]⟩, ⟨dto.amount, hamount, ?_⟩, hasset⟩
    rw [← normalizeAmount_eq_iff (isValidPaymentAmount_dto dto), ha, hab, ← hb]
    rfl
  · cases hpayload

theorem confirmed_of_some {d : Db} (h : ConfirmationInv d) {i : PaymentIntent} (hi : i ∈ d.paymentIntents)
    (hs : i.status = .confirmed ∨ i.confirmedTxHash.isSome = true) : ∃ e ∈ d.webhookEvents, Confirmed e i := by
  rcases h.intents i hi with ⟨hstatus, hnone⟩ | hc
  · simp [hstatus, hnone] at hs
  · exact hc

section Confirmations

variable {ι : Type} [DecidableEq ι] {rt : Runtime} {req : ι → Request}

theorem reachable_confirmationInv {ls : List (Label ι)} {σ : SystemState ι}
    (h : runs rt req (State.init Db.empty) ls = some σ) : ConfirmationInv σ.world.db := by
  apply reachable_invariant (P := fun σ => ConfirmationInv σ.world.db) confirmationInv_empty _ h
  intro σ σ' _ hinv hstep
  cases hstep with
  | quiet js hw _ _ => rw [hw]; exact hinv
  | commit i r s _ hc _ _ => exact hc.confirmationInv hinv
  | reject i e s _ _ hw _ => rw [hw]; exact hinv

theorem intent_step {σ σ' : SystemState ι} (hinv : ConfirmationInv σ.world.db) (hstep : SystemStep rt req σ σ')
    {i : PaymentIntent} (hi : i ∈ σ.world.db.paymentIntents) :
    ∃ i' ∈ σ'.world.db.paymentIntents, i' = i ∨ Unconfirmed i ∧ ∃ txHash now,
      i' = { i with status := .confirmed, confirmedTxHash := some txHash, updatedAt := now } := by
  cases hstep with
  | quiet js hw _ _ => exact ⟨i, by rw [hw]; exact hi, Or.inl rfl⟩
  | reject j e s _ _ hw _ => exact ⟨i, by rw [hw]; exact hi, Or.inl rfl⟩
  | commit j r s _ hc _ _ =>
    obtain ⟨i', hi', rfl | ⟨hs, txHash, now, rfl⟩⟩ := hc.evolves.paymentIntents i hi
    · exact ⟨i', hi', Or.inl rfl⟩
    · refine ⟨_, hi', Or.inr ⟨?_, txHash, now, ?_⟩⟩
      · rcases hinv.intents i hi with hu | ⟨e, _, hconf⟩
        · exact hu
        · rw [hconf.confirmed] at hs
          simp at hs
      · rw [PaymentIntent.patch, ← hinv.failureReason i hi]

theorem confirmation_safety {ls : List (Label ι)} {σ : SystemState ι}
    (h : runs rt req (State.init Db.empty) ls = some σ) :
    (∀ i ∈ σ.world.db.paymentIntents,
      (i.status = .confirmed ↔ i.confirmedTxHash.isSome = true) ∧
        (i.confirmedTxHash.isSome = true ↔ ∃ e ∈ σ.world.db.webhookEvents, ConfirmedBy e i)) ∧
    (∀ e ∈ σ.world.db.webhookEvents, e.status = .processed → ∃ i ∈ σ.world.db.paymentIntents,
      e.paymentIntentId = some i.id ∧ i.status = .confirmed ∧
        ∃ txHash, e.payload.text "txHash" = some txHash ∧ i.confirmedTxHash = some (normalizeTxHash txHash)) ∧
    (∀ i ∈ σ.world.db.paymentIntents, ∀ txHash, i.confirmedTxHash = some txHash → normalizeTxHash txHash = txHash ∧
      ∀ j ∈ σ.world.db.paymentIntents, j.confirmedTxHash = some txHash → j = i) ∧
    ∀ l σ', step engine (scripts rt req) σ l = some σ' → ∀ i ∈ σ.world.db.paymentIntents,
      ∃ i' ∈ σ'.world.db.paymentIntents, i' = i ∨ Unconfirmed i ∧ ∃ txHash now,
        i' = { i with status := .confirmed, confirmedTxHash := some txHash, updatedAt := now } := by
  have hinv := reachable_confirmationInv h
  refine ⟨?_, ?_, ?_, ?_⟩
  · intro i hi
    refine ⟨⟨?_, ?_⟩, ?_, ?_⟩
    · intro hs
      obtain ⟨e, _, hc⟩ := confirmed_of_some hinv hi (Or.inl hs)
      obtain ⟨x, hx, _⟩ := hc.hash
      rw [hx]
      rfl
    · intro hs
      obtain ⟨e, _, hc⟩ := confirmed_of_some hinv hi (Or.inr hs)
      exact hc.confirmed
    · intro hs
      obtain ⟨e, he, hc⟩ := confirmed_of_some hinv hi (Or.inr hs)
      exact ⟨e, he, confirmedBy_of_confirmed hinv he hc⟩
    · rintro ⟨e, _, hc⟩
      obtain ⟨t, _, ht⟩ := hc.txHash
      rw [ht]
      rfl
  · intro e he hs
    obtain ⟨i, hi, hc⟩ := hinv.events e he hs
    have hby := confirmedBy_of_confirmed hinv he hc
    exact ⟨i, hi, hby.intent, hc.confirmed, hby.txHash⟩
  · intro i hi txHash hh
    obtain ⟨e, _, hc⟩ := confirmed_of_some hinv hi (Or.inr (by rw [hh]; rfl))
    obtain ⟨x, hx, hnorm, _⟩ := hc.hash
    rw [hx] at hh
    obtain rfl := Option.some.inj hh
    refine ⟨hnorm, fun j hj hjh => ?_⟩
    exact (reachable_indexes h).confirmedTxHash j hj i hi x hjh hx
  · intro l σ' hs i hi
    exact intent_step hinv (reachable_step h hs).2 hi

theorem confirmation_safety_sample : ∃ σ : SystemState Sample.Party,
    runs Sample.runtime Sample.requests (State.init Db.empty) Sample.confirmation = some σ ∧
      σ.world.db.paymentIntents.rows.map (fun i => i.confirmedTxHash) = [some "0xabc1".toList] ∧
      ∀ i ∈ σ.world.db.paymentIntents, i.status = .confirmed ↔ i.confirmedTxHash.isSome = true := by
  have hrun : (runs Sample.runtime Sample.requests (State.init Db.empty) Sample.confirmation).any (fun σ =>
      σ.world.db.paymentIntents.rows.map (fun i => i.confirmedTxHash) = [some "0xabc1".toList]) = true := by
    decide +kernel
  obtain ⟨σ, hσ, hrows⟩ := (Option.any_eq_true _ _).mp hrun
  exact ⟨σ, hσ, of_decide_eq_true hrows, fun i hi => ((confirmation_safety hσ).1 i hi).1⟩

end Confirmations

end EventGateway
