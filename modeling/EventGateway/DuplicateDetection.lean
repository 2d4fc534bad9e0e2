import EventGateway.CanonicalTexts
import EventGateway.WebhookEvents

namespace EventGateway.WebhookEvents

open JsonPrinting CanonicalJson TxHash

structure StoredPayload where
  eventId : Text
  type : Text
  paymentIntentId : Text
  txHash : Option Text
  amount : Text
  asset : Text

namespace StoredPayload

def toJson (p : StoredPayload) : JsonObject :=
  [("eventId".toList, .str p.eventId), ("type".toList, .str p.type), ("paymentIntentId".toList, .str p.paymentIntentId),
    ("txHash".toList, PaymentIntents.optionalText p.txHash), ("amount".toList, .str p.amount),
    ("asset".toList, .str p.asset)]

def ofDto (dto : BlockchainWebhookDto) : StoredPayload :=
  ⟨dto.eventId, dto.type, dto.paymentIntentId, dto.txHash.map normalizeTxHash, dto.amount, dto.asset⟩

theorem toJson_ofDto (dto : BlockchainWebhookDto) : (ofDto dto).toJson = toPayload dto := rfl

theorem keys_toJson (p q : StoredPayload) : p.toJson.map Prod.fst = q.toJson.map Prod.fst := rfl

theorem nodup_keys (p : StoredPayload) : (p.toJson.map Prod.fst).Nodup := by
  rw [keys_toJson p ⟨[], [], [], none, [], []⟩]
  decide

theorem same_optionalText (a b : Option Text) :
    (PaymentIntents.optionalText a).Same (PaymentIntents.optionalText b) ↔ a = b := by
  cases a <;> cases b <;> simp [Json.Same, PaymentIntents.optionalText, Json.tree, Tree.Same]

theorem same_toJson_iff (p q : StoredPayload) : (Json.obj p.toJson).Same (.obj q.toJson) ↔ p = q := by
  have hkeys : (Json.entryTrees p.toJson).map Prod.fst = (Json.entryTrees q.toJson).map Prod.fst := rfl
  have hnodup : ((Json.entryTrees q.toJson).map Prod.fst).Nodup := nodup_keys q
  have htx := same_optionalText p.txHash q.txHash
  unfold Json.Same at htx
  rw [Json.Same, Json.tree, Json.tree, Tree.same_obj_iff hkeys hnodup]
  simp only [toJson, Json.entryTrees, Tree.SameEntries, Json.tree, Tree.Same, htx, true_and, and_true]
  constructor
  · rintro ⟨h₁, h₂, h₃, h₄, h₅, h₆⟩
    obtain ⟨⟩ := p
    obtain ⟨⟩ := q
    simp_all
  · rintro rfl
    simp

theorem wellFormed_toJson (p : StoredPayload) :
    Tree.WellFormed (fun _ => False) (fun k => k ≠ "__proto__".toList) (Json.obj p.toJson).tree := by
  refine ⟨nodup_keys p, ?_⟩
  cases h : p.txHash <;>
    simp [toJson, h, Json.entryTrees, Tree.WellFormedEntries, Json.tree, Tree.WellFormed, PaymentIntents.optionalText]

theorem wellFormed_of_perm {p : StoredPayload} {payload : JsonObject} (h : payload.Perm p.toJson) :
    Tree.WellFormed (fun _ => False) (fun k => k ≠ "__proto__".toList) (Json.obj payload).tree := by
  have hentries : (Json.entryTrees payload).Perm (Json.entryTrees p.toJson) := by
    rw [entryTrees_eq, entryTrees_eq]
    exact h.map _
  obtain ⟨hnodup, hall⟩ := wellFormed_toJson p
  refine ⟨(hentries.map Prod.fst).nodup_iff.mpr hnodup, Tree.wellFormedEntries_iff.mpr (fun e he => ?_)⟩
  exact Tree.wellFormedEntries_iff.mp hall e (hentries.subset he)

theorem hash_eq_iff {rt : Runtime} (hsha : Function.Injective rt.sha256Hex) {p q : StoredPayload} {payload : JsonObject}
    (h : payload.Perm p.toJson) :
    hashCanonicalJson rt (.obj q.toJson) = hashCanonicalJson rt (.obj payload) ↔ q = p := by
  have hentries : (Json.entryTrees payload).Perm (Json.entryTrees p.toJson) := by
    rw [entryTrees_eq, entryTrees_eq]
    exact h.map _
  rw [hashCanonicalJson, hashCanonicalJson, hsha.eq_iff,
    serialize_eq_iff (printer_readable_of_no_number rt) (wellFormed_toJson q) (wellFormed_of_perm h),
    ← same_toJson_iff, Json.Same, Json.Same]
  exact Tree.same_obj_of_perm hentries

theorem field_eq_some_iff {o : JsonObject} (h : (o.map Prod.fst).Nodup) {name : String} {v : Json} :
    o.field name = some v ↔ (name.toList, v) ∈ o := by
  induction o with
  | nil => simp [JsonObject.field]
  | cons e o ih =>
    obtain ⟨k, w⟩ := e
    simp only [List.map_cons, List.nodup_cons] at h
    by_cases hk : k = name.toList
    · subst hk
      have hnot : (name.toList, v) ∉ o := fun hm => h.1 (List.mem_map_of_mem hm)
      simp [JsonObject.field, hnot, eq_comm]
    · rw [List.mem_cons, Prod.mk.injEq, eq_comm (a := name.toList), ← ih h.2]
      simp [JsonObject.field, hk]

theorem text_of_perm {p : StoredPayload} {payload : JsonObject} (h : payload.Perm p.toJson) (name : String) :
    payload.text name = JsonObject.text p.toJson name := by
  have hnodup : (payload.map Prod.fst).Nodup := (h.map Prod.fst).nodup_iff.mpr (nodup_keys p)
  have hfield : payload.field name = JsonObject.field p.toJson name := by
    ext v
    rw [field_eq_some_iff hnodup, field_eq_some_iff (nodup_keys p)]
    exact h.mem_iff
  rw [JsonObject.text, JsonObject.text, hfield]

theorem text_txHash_toJson (p : StoredPayload) : JsonObject.text p.toJson "txHash" = p.txHash := by
  cases h : p.txHash <;> simp [JsonObject.text, JsonObject.field, toJson, h, PaymentIntents.optionalText]

theorem withTxHash_toJson (p : StoredPayload) (h : Text) :
    withTxHash p.toJson h = toJson { p with txHash := some h } := by
  simp [withTxHash, toJson, PaymentIntents.optionalText]

def Agrees (p : StoredPayload) (dto : BlockchainWebhookDto) : Prop :=
  p.eventId = dto.eventId ∧ p.type = dto.type ∧ p.paymentIntentId = dto.paymentIntentId ∧ p.amount = dto.amount ∧
    p.asset = dto.asset

theorem eq_ofDto_iff (p : StoredPayload) (dto : BlockchainWebhookDto) :
    p = ofDto dto ↔ p.Agrees dto ∧ p.txHash = dto.txHash.map normalizeTxHash := by
  obtain ⟨eventId, type, paymentIntentId, txHash, amount, asset⟩ := p
  simp only [ofDto, Agrees, mk.injEq]
  tauto

theorem same_or_respelled (p : StoredPayload) (dto : BlockchainWebhookDto) :
    (p = ofDto dto ∨ ∃ h, p.txHash = some h ∧ { p with txHash := some (normalizeTxHash h) } = ofDto dto) ↔
      p.Agrees dto ∧ (p.txHash = none ∧ dto.txHash = none ∨
        ∃ h t, p.txHash = some h ∧ dto.txHash = some t ∧ normalizeTxHash h = normalizeTxHash t) := by
  -- the two comparisons together: the stored payload as it is, or with its hash in normal form
  have hagrees (h : Text) : Agrees { p with txHash := some (normalizeTxHash h) } dto ↔ p.Agrees dto := Iff.rfl
  simp only [eq_ofDto_iff, hagrees]
  constructor
  · rintro (⟨ha, hp⟩ | ⟨h, hp, ha, hh⟩)
    · refine ⟨ha, ?_⟩
      cases ht : dto.txHash with
      | none => exact Or.inl ⟨by simpa [ht] using hp, rfl⟩
      | some t =>
        rw [ht] at hp
        exact Or.inr ⟨normalizeTxHash t, t, hp, rfl, normalizeTxHash_idempotent t⟩
    · obtain ⟨t, ht, htt⟩ := Option.map_eq_some_iff.mp hh.symm
      exact ⟨ha, Or.inr ⟨h, t, hp, ht, htt.symm⟩⟩
  · rintro ⟨ha, ⟨hp, ht⟩ | ⟨h, t, hp, ht, hnorm⟩⟩
    · exact Or.inl ⟨ha, by simp [hp, ht]⟩
    · exact Or.inr ⟨h, hp, ha, by simp [ht, hnorm]⟩

end StoredPayload

theorem duplicate_detection {rt : Runtime} (hsha : Function.Injective rt.sha256Hex) {e : WebhookEvent} {p : StoredPayload}
    (hpayload : e.payload.Perm p.toJson) (hhash : e.payloadHash = hashCanonicalJson rt (.obj p.toJson))
    (dto : BlockchainWebhookDto) :
    hasSamePayload rt e (payloadHash rt dto) = true ↔
      p.eventId = dto.eventId ∧ p.type = dto.type ∧ p.paymentIntentId = dto.paymentIntentId ∧ p.amount = dto.amount ∧
        p.asset = dto.asset ∧
        (p.txHash = none ∧ dto.txHash = none ∨
          ∃ h t, p.txHash = some h ∧ dto.txHash = some t ∧ normalizeTxHash h = normalizeTxHash t) := by
  have hfirst : e.payloadHash = payloadHash rt dto ↔ p = StoredPayload.ofDto dto := by
    rw [hhash, payloadHash, ← StoredPayload.toJson_ofDto]
    exact StoredPayload.hash_eq_iff hsha (List.Perm.refl _)
  have htext : e.payload.text "txHash" = p.txHash := by
    rw [StoredPayload.text_of_perm hpayload, StoredPayload.text_txHash_toJson]
  have hsecond (h : Text) : hashCanonicalJson rt (.obj (withTxHash e.payload h)) = payloadHash rt dto ↔
      { p with txHash := some h } = StoredPayload.ofDto dto := by
    have hperm : (withTxHash e.payload h).Perm (StoredPayload.toJson { p with txHash := some h }) := by
      rw [← StoredPayload.withTxHash_toJson]
      exact hpayload.map _
    rw [payloadHash, ← StoredPayload.toJson_ofDto, eq_comm, StoredPayload.hash_eq_iff hsha hperm, eq_comm]
  have hsame : hasSamePayload rt e (payloadHash rt dto) = true ↔ p = StoredPayload.ofDto dto ∨
      ∃ h, p.txHash = some h ∧ { p with txHash := some (normalizeTxHash h) } = StoredPayload.ofDto dto := by
    unfold hasSamePayload
    rw [htext]
    cases hp : p.txHash with
    | none => simp [hfirst]
    | some h => simp [hfirst, hsecond]
  rw [hsame, StoredPayload.same_or_respelled]
  simp only [StoredPayload.Agrees, and_assoc]

namespace Sample

def digest (known : List (Text × Text)) (text : Text) : Text := (known.lookup text).getD ('#' :: text)

theorem mem_of_lookup {known : List (Text × Text)} {text d : Text} (h : known.lookup text = some d) : (text, d) ∈ known := by
  induction known with
  | nil => cases h
  | cons e known ih =>
    obtain ⟨k, v⟩ := e
    by_cases hk : text = k
    · subst hk
      simp only [List.lookup_cons_self, Option.some.injEq] at h
      simp [h]
    · have hbeq : (text == k) = false := by simpa using hk
      rw [List.lookup_cons, hbeq] at h
      exact List.mem_cons_of_mem _ (ih h)

theorem digest_injective {known : List (Text × Text)} (hnodup : (known.map Prod.snd).Nodup)
    (hmark : ∀ e ∈ known, e.2.head? ≠ some '#') : Function.Injective (digest known) := by
  intro a b h
  unfold digest at h
  cases ha : known.lookup a with
  | none =>
    cases hb : known.lookup b with
    | none => simpa [ha, hb] using h
    | some y =>
      rw [ha, hb] at h
      exact absurd (by rw [← (show '#' :: a = y from h)]; rfl) (hmark _ (mem_of_lookup hb))
  | some x =>
    cases hb : known.lookup b with
    | none =>
      rw [ha, hb] at h
      exact absurd (by rw [(show x = '#' :: b from h)]; rfl) (hmark _ (mem_of_lookup ha))
    | some y =>
      rw [ha, hb] at h
      have hpair := List.inj_on_of_nodup_map hnodup (mem_of_lookup ha) (mem_of_lookup hb) (show x = y from h)
      exact (Prod.mk.inj hpair).1

def redelivery : BlockchainWebhookDto where
  eventId := "evt-1".toList
  type := "transaction.confirmed".toList
  paymentIntentId := "00000000-0000-4000-8000-000000000001".toList
  txHash := some " 0xabc1".toList
  amount := "25.50".toList
  asset := "USDC".toList
  valid := by decide

def stored : StoredPayload :=
  ⟨redelivery.eventId, redelivery.type, redelivery.paymentIntentId, some "0xABC1".toList, redelivery.amount,
    redelivery.asset⟩

def digests : List (Text × Text) :=
  [("0xABC1", "854399b177c9ff9bf71c482a7120f45c10f2ba64bd5a88f9198654735b35c64e"),
    ("0xabc1", "55bc1964a97cdf8266ddbe8b66899591d2f1a32dd0b4b0404b5f98dba82a5315")].map (fun e =>
      ("\x7b\"amount\":\"25.50\",\"asset\":\"USDC\",\"eventId\":\"evt-1\",".toList ++
        "\"paymentIntentId\":\"00000000-0000-4000-8000-000000000001\",\"txHash\":\"".toList ++ e.1.toList ++
        "\",\"type\":\"transaction.confirmed\"\x7d".toList, e.2.toList))

def runtime : Runtime := EventGateway.Sample.printing (digest digests)

def storedEvent : WebhookEvent where
  id := 2
  provider := blockchainWebhookProvider
  externalEventId := stored.eventId
  nonce := none
  eventType := stored.type
  paymentIntentId := some 1
  txHash := stored.txHash
  payload := stored.toJson.reverse
  payloadHash := hashCanonicalJson runtime (.obj stored.toJson)
  status := .processed
  failureReason := none
  receivedAt := 0
  processedAt := none

end Sample

theorem duplicate_detection_sample :
    Function.Injective Sample.runtime.sha256Hex ∧ Sample.storedEvent.payload.text "txHash" = some "0xABC1".toList ∧
      hasSamePayload Sample.runtime Sample.storedEvent (payloadHash Sample.runtime Sample.redelivery) = true := by
  have hsha : Function.Injective Sample.runtime.sha256Hex := Sample.digest_injective (by decide) (by decide)
  have hperm : Sample.storedEvent.payload.Perm Sample.stored.toJson := List.reverse_perm _
  have hhash : Sample.storedEvent.payloadHash = hashCanonicalJson Sample.runtime (.obj Sample.stored.toJson) := rfl
  refine ⟨hsha, by decide, (duplicate_detection hsha hperm hhash Sample.redelivery).mpr ?_⟩
  exact ⟨rfl, rfl, rfl, rfl, rfl, Or.inr ⟨_, _, rfl, rfl, by decide⟩⟩

end EventGateway.WebhookEvents
