import EventGateway.Acceptance
import EventGateway.JsStrings

namespace EventGateway

open PaymentIntents WebhookEvents Statements CanonicalJson TxHash

theorem lt_length_of_isTooLong {max : ℕ} {s : Text} (h : isTooLong max s = true) : max < s.length := of_decide_eq_true h

section Headers

theorem JsString.length_le_utf16Units (s : Text) : s.length ≤ (utf16Units s).length := by
  induction s with
  | nil => rfl
  | cons c s ih =>
    have hc : 1 ≤ (JsString.charUnits c).length := by
      unfold JsString.charUnits
      split_ifs <;> simp
    rw [JsString.utf16Units_eq] at ih ⊢
    rw [List.flatMap_cons, List.length_append, List.length_cons]
    omega

theorem fits_of_utf16Units {s : Text} (h : ¬ 255 < (utf16Units s).length) : isTooLong maxVarchar s = false :=
  decide_eq_false (not_lt.mpr ((JsString.length_le_utf16Units s).trans (not_lt.mp h)))

theorem fits_of_validateIdempotencyKey {header : Option Text} {key : Text} (h : validateIdempotencyKey header = .ok key) :
    isTooLong maxVarchar key = false := by
  unfold validateIdempotencyKey at h
  split at h
  · cases h
  · split_ifs at h with hblank hlen
    cases h
    exact fits_of_utf16Units hlen

theorem fits_of_validateHeaders {headers : WebhookRequestHeaders} {validated : ValidatedWebhookHeaders}
    (h : validateHeaders headers = .ok validated) : isTooLong maxVarchar validated.nonce = false := by
  unfold validateHeaders at h
  dsimp only at h
  split_ifs at h with hcontent htimestamp hnonce hlen hsignature
  cases h
  exact fits_of_utf16Units hlen

end Headers

section Bodies

theorem presentationSequences_eq_zero {s : Text} (h : ∀ c ∈ s, isVariationSelector c = false) :
    presentationSequences s = 0 := by
  induction s with
  | nil => rfl
  | cons c s ih =>
    have htail := ih (fun d hd => h d (List.mem_cons_of_mem c hd))
    cases s with
    | nil => rfl
    | cons d s =>
      have hd : isVariationSelector d = false := h d (by simp)
      simp only [presentationSequences, hd, Bool.and_false, Bool.false_eq_true, ↓reduceIte, htail]

theorem exists_selector {max : ℕ} {s : Text} (hv : maxLength max s = true) (hs : max < s.length) :
    ∃ c ∈ s, isVariationSelector c = true := by
  by_contra hnone
  push Not at hnone
  have hzero : presentationSequences s = 0 := presentationSequences_eq_zero (fun c hc => by simpa using hnone c hc)
  simp only [maxLength, hzero, decide_eq_true_eq] at hv
  omega

theorem maxLength_of_isBounded {max : ℕ} {s : Text} (h : isBounded max s = true) : maxLength max s = true := by
  rw [isBounded, Bool.and_eq_true] at h
  exact h.2

theorem selector_of_isBounded {max : ℕ} {s : Text} (hv : isBounded max s = true) (hs : isTooLong max s = true) :
    ∃ c ∈ s, isVariationSelector c = true :=
  exists_selector (maxLength_of_isBounded hv) (lt_length_of_isTooLong hs)

theorem not_selector_of_assetPattern {asset : Text} (h : assetPattern asset = true) :
    ∀ c ∈ asset, isVariationSelector c = false := by
  intro c hc
  by_contra hs
  rw [Bool.not_eq_false, isVariationSelector, Bool.or_eq_true, decide_eq_true_eq, decide_eq_true_eq] at hs
  have hclass : (c.isUpper || c.isDigit) = false ∧ ['.', '_', ':', '-'].contains c = false := by
    rcases hs with rfl | rfl <;> decide
  cases asset with
  | nil => cases hc
  | cons d asset =>
    simp only [assetPattern, Bool.and_eq_true, List.all_eq_true] at h
    rcases List.mem_cons.mp hc with rfl | hc
    · rw [hclass.1] at h
      cases h.1
    · have hd := h.2 c hc
      rw [hclass.1, hclass.2] at hd
      cases hd

theorem asset_fits {asset : Text} (h : isValidAsset asset = true) : isTooLong 32 asset = false := by
  rw [isValidAsset, Bool.and_eq_true] at h
  by_contra hlong
  obtain ⟨c, hc, hs⟩ := selector_of_isBounded h.1 (by simpa using hlong)
  rw [not_selector_of_assetPattern h.2 c hc] at hs
  cases hs

def PaymentIntents.columnTexts (dto : CreatePaymentIntentDto) : List Text :=
  dto.destination :: (dto.reference.toList ++ dto.clientRequestId.toList)

def WebhookEvents.columnTexts (dto : BlockchainWebhookDto) : List Text := dto.eventId :: dto.type :: dto.txHash.toList

theorem selector_of_exceedsColumns {dto : CreatePaymentIntentDto} {fresh : PaymentIntents.Fresh}
    (h : exceedsColumns (newPaymentIntent dto fresh) = true) :
    ∃ s ∈ PaymentIntents.columnTexts dto, ∃ c ∈ s, isVariationSelector c = true := by
  have hv := dto.valid
  simp only [CreatePaymentIntentBody.isValid, Bool.and_eq_true] at hv
  obtain ⟨⟨⟨⟨-, hasset⟩, hdestination⟩, hreference⟩, hclientRequestId⟩ := hv
  have hoptional {t : Option Text} (hall : t.all (maxLength 255) = true) (hany : t.any (isTooLong maxVarchar) = true) :
      ∃ s ∈ t.toList, ∃ c ∈ s, isVariationSelector c = true := by
    obtain ⟨s, rfl, hs⟩ := (Option.any_eq_true _ _).mp hany
    exact ⟨s, by simp, exists_selector hall (lt_length_of_isTooLong hs)⟩
  simp only [exceedsColumns, newPaymentIntent, asset_fits hasset, Bool.false_or, Bool.or_eq_true, Option.any_none,
    Bool.false_eq_true, or_false] at h
  obtain (h | h) | h := h
  · exact ⟨dto.destination, by simp [PaymentIntents.columnTexts], selector_of_isBounded hdestination h⟩
  · obtain ⟨s, hs, hc⟩ := hoptional hreference h
    exact ⟨s, by simp [PaymentIntents.columnTexts, Option.mem_toList.mp hs], hc⟩
  · obtain ⟨s, hs, hc⟩ := hoptional hclientRequestId h
    exact ⟨s, by simp [PaymentIntents.columnTexts, Option.mem_toList.mp hs], hc⟩

theorem selector_of_exceedsEventColumns {rt : Runtime} {nonce : Text} {dto : BlockchainWebhookDto}
    {fresh : WebhookEvents.Fresh} (hn : isTooLong maxVarchar nonce = false)
    (h : exceedsEventColumns (newWebhookEvent rt nonce dto fresh) = true) :
    ∃ s ∈ WebhookEvents.columnTexts dto, ∃ c ∈ s, isVariationSelector c = true := by
  have hv := dto.valid
  simp only [BlockchainWebhookBody.isValid, Bool.and_eq_true] at hv
  obtain ⟨⟨⟨⟨⟨heventId, htype⟩, -⟩, htxHash⟩, -⟩, -⟩ := hv
  simp only [exceedsEventColumns, newWebhookEvent, Option.any_some, hn, Bool.or_false, Bool.or_eq_true] at h
  obtain (h | h) | h := h
  · exact ⟨dto.eventId, by simp [WebhookEvents.columnTexts], selector_of_isBounded heventId h⟩
  · exact ⟨dto.type, by simp [WebhookEvents.columnTexts], selector_of_isBounded htype h⟩
  · cases hx : dto.txHash with
    | none => simp [hx] at h
    | some txHash =>
      simp only [hx, Option.map_some, Option.any_some] at h
      simp only [hx, isValidTxHash, Bool.and_eq_true] at htxHash
      have hlen := (lt_length_of_isTooLong h).trans_le (length_normalizeTxHash_le txHash)
      exact ⟨txHash, by simp [WebhookEvents.columnTexts, hx], exists_selector (maxLength_of_isBounded htxHash.1) hlen⟩

end Bodies

section Validation

theorem ok_of_bind {ε α β : Type} {m : Except ε α} {f : α → Except ε β} {b : β} (h : m >>= f = .ok b) :
    ∃ a, m = .ok a ∧ f a = .ok b := by
  cases m with
  | error e => cases h
  | ok a => exact ⟨a, rfl, h⟩

theorem error_of_bind {ε α β : Type} {m : Except ε α} {f : α → Except ε β} {e : ε} (h : m >>= f = .error e) :
    m = .error e ∨ ∃ a, m = .ok a ∧ f a = .error e := by
  cases m with
  | error x =>
    cases h
    exact Or.inl rfl
  | ok a => exact Or.inr ⟨a, rfl, h⟩

theorem nonce_fits {rt : Runtime} {config : WebhookConfig} {request : AcceptBlockchainWebhookRequest} {nowMs : Time}
    {nonce : Text} {dto : BlockchainWebhookDto} (h : validateRequest rt config request nowMs = .ok (nonce, dto)) :
    isTooLong maxVarchar nonce = false := by
  unfold validateRequest at h
  obtain ⟨headers, hheaders, h⟩ := ok_of_bind h
  obtain ⟨_, _, h⟩ := ok_of_bind h
  obtain ⟨_, _, h⟩ := ok_of_bind h
  obtain ⟨_, _, h⟩ := ok_of_bind h
  cases h
  exact fits_of_validateHeaders hheaders

end Validation

end EventGateway
