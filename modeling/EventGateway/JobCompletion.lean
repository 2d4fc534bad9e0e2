import EventGateway.ConfirmationSafety
import EventGateway.SessionInvariants

namespace EventGateway

open KeyedTable TransactionProgram Interleaving RelyGuarantee Statements TxHash PaymentAmount
open WebhookEventProcessor (judge Verdict transactionConfirmed ProcessingFailureReason)

structure NormalHash (h : Text) : Prop where
  nonempty : h ≠ []
  solid : ∀ c ∈ h, Text.isWhiteSpace c = false
  normal : normalizeTxHash h = h

theorem NormalHash.trim_ne_nil {h : Text} (hn : NormalHash h) : Text.trim h ≠ [] := by
  have ht : Text.trim h = h := Text.trimBy_eq_self hn.solid
  rw [ht]
  exact hn.nonempty

theorem normalHash_normalizeTxHash {s : Text} (h : WebhookEvents.singleValuePattern s = true) :
    NormalHash (normalizeTxHash s) := by
  simp only [WebhookEvents.singleValuePattern, Bool.and_eq_true, Bool.not_eq_true', List.isEmpty_eq_false_iff,
    List.all_eq_true] at h
  obtain ⟨hne, hsolid⟩ := h
  refine ⟨?_, ?_, normalizeTxHash_idempotent s⟩
  · by_cases hx : hexTxHashPattern (Text.trim s) = true
    · simpa [normalizeTxHash, hx, Text.toLowerCase] using hne
    · simpa [normalizeTxHash, hx] using hne
  · by_cases hx : hexTxHashPattern (Text.trim s) = true
    · simpa only [normalizeTxHash, hx, ↓reduceIte] using (hexTxHashPattern_lower hx).2.1
    · simpa only [normalizeTxHash, hx, Bool.false_eq_true, ↓reduceIte] using hsolid

theorem normalizeAmount_of_valid {a : Text} (h : isValidPaymentAmount a = true) : (normalizeAmount a).isSome = true := by
  obtain ⟨i, f, hs⟩ := shape_of_valid h
  rw [hs.normalizeAmount_eq]
  rfl

theorem normalizeAmount_renderNumeric (n : Numeric) : (normalizeAmount (renderNumeric n)).isSome = true := by
  obtain ⟨f, hs, _⟩ := renderNumeric_shape n
  rw [hs.normalizeAmount_eq]
  rfl

section Payload

variable (dto : WebhookEvents.BlockchainWebhookDto)

theorem text_txHash_toPayload :
    JsonObject.text (WebhookEvents.toPayload dto) "txHash" = dto.txHash.map normalizeTxHash := by
  cases h : dto.txHash <;> simp [JsonObject.text, JsonObject.field, WebhookEvents.toPayload, h, PaymentIntents.optionalText]

theorem text_type_toPayload : JsonObject.text (WebhookEvents.toPayload dto) "type" = some dto.type := rfl

theorem isValidTxHash_dto : WebhookEvents.isValidTxHash dto.type dto.txHash = true := by
  have hv := dto.valid
  simp only [WebhookEvents.BlockchainWebhookBody.isValid, Bool.and_eq_true] at hv
  exact hv.1.1.2

theorem normalHash_toPayload (ht : dto.type = transactionConfirmed) :
    ∃ h, dto.txHash.map normalizeTxHash = some h ∧ NormalHash h := by
  have hv := isValidTxHash_dto dto
  cases hx : dto.txHash with
  | none =>
    rw [hx, ht] at hv
    cases hv
  | some s =>
    simp only [hx, WebhookEvents.isValidTxHash, Bool.and_eq_true] at hv
    exact ⟨normalizeTxHash s, rfl, normalHash_normalizeTxHash hv.2⟩

end Payload

section Worker

variable {d : Db} {e : WebhookEvent} {dto : WebhookEvents.BlockchainWebhookDto}

theorem validatePayload_ok (he : e.payload = WebhookEvents.toPayload dto) (i : PaymentIntent) :
    ∃ failure, WebhookEventProcessor.validatePayloadMatchesPaymentIntent e.payload i.load = .ok failure ∧
      failure ≠ some .missingTxHash := by
  obtain ⟨a, ha⟩ := Option.isSome_iff_exists.mp (normalizeAmount_of_valid (isValidPaymentAmount_dto dto))
  obtain ⟨b, hb⟩ := Option.isSome_iff_exists.mp (normalizeAmount_renderNumeric i.amount)
  have hload : normalizeAmount i.load.amount = some b := hb
  simp only [WebhookEventProcessor.validatePayloadMatchesPaymentIntent, he, text_amount_toPayload, ha, hload]
  split_ifs <;> exact ⟨_, rfl, by simp⟩

theorem judgeMatching_ne_missingTxHash (i : PaymentIntent) (txHash : Text) :
    WebhookEventProcessor.judgeMatching d i txHash ≠ .fail .missingTxHash := by
  unfold WebhookEventProcessor.judgeMatching
  split
  · split_ifs <;> simp
  · simp
  · simp
  · split_ifs <;> simp
  · split_ifs <;> simp

theorem judge_accepted (he : PayloadOf e.payload dto) :
    ∃ v, judge d e = .ok v ∧ v ≠ .fail .missingTxHash ∧
      ∀ id txHash, v = .confirm id txHash → isTooLong maxVarchar txHash = false := by
  unfold judge
  split_ifs with htype
  · exact ⟨_, rfl, by simp, by simp⟩
  have ht : dto.type = transactionConfirmed := by simpa [he.payload, text_type_toPayload] using htype
  obtain ⟨h, htx, hn⟩ := normalHash_toPayload dto ht
  have hh : JsonObject.text e.payload "txHash" = some h := by rw [he.payload, text_txHash_toPayload, htx]
  have hlen : isTooLong maxVarchar h = false := by simpa [htx] using he.fits
  simp only [hh, hn.trim_ne_nil, ↓reduceIte, hn.normal]
  cases hi : e.paymentIntentId.bind d.paymentIntents.get with
  | none => exact ⟨_, rfl, by simp, by simp⟩
  | some i =>
    obtain ⟨failure, hv, hne⟩ := validatePayload_ok he.payload i
    simp only [WebhookEventProcessor.judgeIntent, hv]
    cases failure with
    | some reason =>
      refine ⟨_, rfl, ?_, by simp⟩
      intro hf
      cases hf
      exact hne rfl
    | none =>
      refine ⟨_, rfl, judgeMatching_ne_missingTxHash i h, ?_⟩
      intro id txHash hc
      rw [(WebhookEventProcessor.judgeMatching_confirm hc).2.2]
      exact hlen

variable {input : WebhookEventProcessor.ProcessWebhookEventInput} {clock : WebhookEventProcessor.Clock}

theorem transaction_accepted (hd : d.Indexes) (hp : Uuid.parse input.webhookEventId = some e.id)
    (hget : d.webhookEvents.get e.id = some e) (he : PayloadOf e.payload dto)
    (hc : clock.startedAt ≤ clock.finishedAt) :
    ∃ r, (engine.transaction (WebhookEventProcessor.processWebhookEvent input clock) d).result = .ok r ∧
      r ≠ .failed .missingTxHash := by
  have hdone {r : WebhookEventProcessor.ProcessingResult} {d' : Db} (hne : r ≠ .failed .missingTxHash)
      (h : WebhookEventProcessor.Processed input clock d e r d') :
      ∃ r, (engine.transaction (WebhookEventProcessor.processWebhookEvent input clock) d).result = .ok r ∧
        r ≠ .failed .missingTxHash := ⟨r, by rw [h.transaction hp hget], hne⟩
  by_cases hprocessed : e.status = .processed
  · exact hdone (by simp) (.alreadyProcessed hprocessed hc)
  by_cases hfailed : e.status = .failed
  · exact hdone (by simp) (.alreadyFailed hfailed hc)
  obtain ⟨v, hj, hne, hlen⟩ := judge_accepted (d := d) he
  refine hdone ?_ (.judged v (WebhookEventProcessor.isFinal_eq_false hprocessed hfailed) hj ?_)
  · cases v with
    | fail reason =>
      intro hr
      cases hr
      exact hne rfl
    | confirmedBefore | confirm => simp [Verdict.result]
  · cases v with
    | fail | confirmedBefore => simpa [Verdict.admissible] using hc
    | confirm id txHash =>
      have hfree := WebhookEventProcessor.isTxHashTaken_of_judge hd hj
      simpa [Verdict.admissible, hfree, hc] using hlen id txHash rfl

end Worker

section Runs

variable {ι : Type} [DecidableEq ι] {rt : Runtime} {req : ι → Request}

structure Continues (began w : World Db JobData) : Prop where
  inv : ConfirmationInv w.db
  indexes : w.db.Indexes
  evolves : began.db.Evolves w.db

theorem Continues.effect {began : World Db JobData} {σ σ' : SystemState ι} {l : Label ι} (hs : Sound (spec rt req) σ)
    (h : Continues began σ.world) (he : Effect (spec rt req) σ l σ') : Continues began σ'.world := by
  have hev : σ.world.db.Evolves σ'.world.db := (he.evolves hs).1
  refine ⟨?_, ?_, h.evolves.trans hev⟩
  · cases he with
    | quiet js hw hc hr => rw [hw]; exact h.inv
    | commit i r s hrun hpost he hp => exact (Request.Post.commits hpost).confirmationInv h.inv
    | reject i e s hrun hrej hw hp => rw [hw]; exact h.inv
  · cases he with
    | quiet js hw hc hr => rw [hw]; exact h.indexes
    | commit i r s hrun hpost he hp => exact (Request.Post.commits hpost).indexes h.indexes
    | reject i e s hrun hrej hw hp => rw [hw]; exact h.indexes

def JobThrows (req : ι → Request) (began : World Db JobData) (j i : ι) (x : Failure) (w : World Db JobData) : Prop :=
  i = j → ∀ input clock id, req j = .processWebhookEvent input clock → Uuid.parse input.webhookEventId = some id →
    (began.db.webhookEvents.get id).isSome = true →
    (engine.transaction (WebhookEventProcessor.processWebhookEvent input clock) w.db).result = .error x

variable (rt req) in
def jobProperty (began : World Db JobData) (j : ι) : SessionProperty (spec rt req) (Continues began) :=
  SessionProperty.ofWp (spec rt req) (fun i r ws w => (req i).Post rt r w (engine.view w.db ws)) (JobThrows req began j)
    (by
      intro i w hw
      unfold scripts
      cases hq : req i with
      | processWebhookEvent input clock =>
        apply wp_bind
        apply wp_mono (WebhookEventProcessor.wp_process w)
        · exact fun r held ws w h w' hr => WebhookEventProcessor.Ends.post h hr
        · rintro x held ws w₁ h w' hr rfl input' clock' id hreq hp hsome
          rw [hq] at hreq
          cases hreq
          rcases h with ⟨_, hnone⟩ | h
          · rw [hw.evolves.get_eq_none (hnone id hp)] at hsome
            cases hsome
          · exact h w' hr
      | _ =>
        refine wp_mono (Request.pending _ w) (fun _ _ _ _ h => h) ?_
        rintro x held ws w₁ _ w' _ rfl input clock id hreq
        rw [hq] at hreq
        cases hreq)

omit [DecidableEq ι] in
theorem jobProperty_everywhere {σ : SystemState ι} (h : Sound (spec rt req) σ) {j : ι} (hj : σ.phase j = .idle) :
    (jobProperty rt req σ.world j).Everywhere σ := by
  intro i s hi hf
  have hsession := h.session i s hi
  simp only [SessionSound, hf, Bool.false_eq_true, ↓reduceIte] at hsession
  apply wp_mono hsession.1
  · exact fun _ _ _ _ hq => hq
  · rintro x held ws w _ w' _ rfl
    rw [hj] at hi
    cases hi

theorem missingTxHash_of_post {input : WebhookEventProcessor.ProcessWebhookEventInput}
    {clock : WebhookEventProcessor.Clock} {w : World Db JobData} {d : Db} (hinv : ConfirmationInv w.db)
    (hd : w.db.Indexes) (hc : clock.startedAt ≤ clock.finishedAt) :
    ¬ WebhookEventProcessor.Post input clock (.failed .missingTxHash) w d := by
  rintro (⟨hres, _⟩ | ⟨_, _, _, _, _, hr, _⟩)
  · obtain ⟨id, e, hp, hget, _⟩ := WebhookEventProcessor.processed_of_transaction hres
    obtain rfl : e.id = id := Table.key_of_get hget
    obtain ⟨dto, hdto⟩ := hinv.payloads e (Table.mem_of_get hget)
    obtain ⟨r, hr, hne⟩ := transaction_accepted hd hp hget hdto hc
    rw [hres] at hr
    exact hne (Except.ok.inj hr).symm
  · cases hr

theorem job_ends {σ σ' : SystemState ι} {ls : List (Label ι)} (hsound : Sound (spec rt req) σ)
    (hinv : ConfirmationInv σ.world.db) {e : WebhookEvent} (he : e ∈ σ.world.db.webhookEvents)
    {input : WebhookEventProcessor.ProcessWebhookEventInput} {clock : WebhookEventProcessor.Clock}
    (hp : Uuid.parse input.webhookEventId = some e.id) (hc : clock.startedAt ≤ clock.finishedAt) {j : ι}
    (hreq : req j = .processWebhookEvent input clock) (hidle : σ.phase j = .idle) (hrun : runs rt req σ ls = some σ') :
    (∀ x, σ'.phase j = .rejected x → ∃ y, x = .database y) ∧
      σ'.phase j ≠ .committed (.processing (.failed .missingTxHash)) := by
  have hget : σ.world.db.webhookEvents.get e.id = some e := Table.get_eq_some.mpr ⟨he, rfl⟩
  refine (run_invariant (P := fun τ => (Sound (spec rt req) τ ∧ Continues σ.world τ.world ∧
    (jobProperty rt req σ.world j).Everywhere τ) ∧ (∀ x, τ.phase j = .rejected x → ∃ y, x = .database y) ∧
      τ.phase j ≠ .committed (.processing (.failed .missingTxHash))) ?_ ?_ hrun).2
  · rintro τ l τ' ⟨⟨hs, hw, hall⟩, hrej, hcom⟩ hstep
    obtain ⟨hs', heff⟩ := step_effect hs hstep
    have hw' := hw.effect hs heff
    refine ⟨⟨hs', hw', step_sessions _ hs hw hw' hall hstep⟩, ?_, ?_⟩
    · intro x hx
      rcases step_rejected _ hs hall hstep hx with hold | hfault | ⟨ws, hthrow⟩
      · exact hrej x hold
      · exact hfault
      · -- the rules themselves do not throw on the rows that are there
        have hsome : (σ.world.db.webhookEvents.get e.id).isSome = true := by rw [hget]; rfl
        have hres := hthrow τ.world (Discipline.Rely.refl hs.inv) rfl input clock e.id hreq hp hsome
        obtain ⟨e', he', hee'⟩ := hw.evolves.webhookEvents e he
        have hid : e'.id = e.id := by rw [hee'.1]; rfl
        obtain ⟨dto', hdto'⟩ := hw.inv.payloads e' he'
        obtain ⟨r, hr, _⟩ := transaction_accepted hs.inv (hid ▸ hp) (Table.get_eq_some.mpr ⟨he', rfl⟩) hdto' hc
        rw [hres] at hr
        cases hr
    · intro hx
      rcases step_committed _ hs hall hstep hx with hold | ⟨ws, _, _, hret⟩
      · exact hcom hold
      · have hpost : (req j).Post rt _ τ.world _ := hret τ.world (Discipline.Rely.refl hs.inv)
        rw [hreq] at hpost
        exact missingTxHash_of_post hw.inv hs.inv hc hpost
  · refine ⟨⟨hsound, ⟨hinv, hsound.inv, Db.Evolves.refl _⟩, jobProperty_everywhere hsound hidle⟩, ?_, ?_⟩
    · intro x hx
      rw [hidle] at hx
      cases hx
    · rw [hidle]
      simp

theorem no_poison_job {ls : List (Label ι)} {σ : SystemState ι} (h : runs rt req (State.init Db.empty) ls = some σ) :
    (∀ dto : WebhookEvents.BlockchainWebhookDto, (normalizeAmount dto.amount).isSome = true ∧
      (dto.type = transactionConfirmed →
        ∃ hash, JsonObject.text (WebhookEvents.toPayload dto) "txHash" = some hash ∧ NormalHash hash)) ∧
    (∀ i ∈ σ.world.db.paymentIntents, (normalizeAmount i.load.amount).isSome = true) ∧
    ∀ e ∈ σ.world.db.webhookEvents, (∃ dto, e.payload = WebhookEvents.toPayload dto) ∧
      ∀ input clock, Uuid.parse input.webhookEventId = some e.id → clock.startedAt ≤ clock.finishedAt →
        (∃ r, (engine.transaction (WebhookEventProcessor.processWebhookEvent input clock) σ.world.db).result = .ok r ∧
          r ≠ .failed .missingTxHash) ∧
        ∀ j ls' σ', req j = .processWebhookEvent input clock → σ.phase j = .idle → runs rt req σ ls' = some σ' →
          (∀ x, σ'.phase j = .rejected x → ∃ y, x = .database y) ∧
            σ'.phase j ≠ .committed (.processing (.failed .missingTxHash)) := by
  have hinv := reachable_confirmationInv h
  have hsound := runs_sound Db.indexes_empty h
  refine ⟨?_, fun i _ => normalizeAmount_renderNumeric i.amount, ?_⟩
  · intro dto
    refine ⟨normalizeAmount_of_valid (isValidPaymentAmount_dto dto), fun ht => ?_⟩
    rw [text_txHash_toPayload]
    exact normalHash_toPayload dto ht
  intro e he
  have hget : σ.world.db.webhookEvents.get e.id = some e := Table.get_eq_some.mpr ⟨he, rfl⟩
  obtain ⟨dto, hdto⟩ := hinv.payloads e he
  refine ⟨⟨dto, hdto.payload⟩, fun input clock hp hc => ⟨transaction_accepted hsound.inv hp hget hdto hc, ?_⟩⟩
  exact fun j ls' σ' hreq hidle hrun => job_ends hsound hinv he hp hc hreq hidle hrun

theorem no_poison_job_sample : ∃ σ : SystemState Sample.Party, ∃ e ∈ σ.world.db.webhookEvents,
    runs Sample.runtime Sample.requests (State.init Db.empty) (Sample.completes .merchant 4 ++ Sample.completes .provider 2) =
      some σ ∧
    e.payload.text "txHash" = some "0xabc1".toList ∧ ∃ r, (engine.transaction
      (WebhookEventProcessor.processWebhookEvent ⟨e.id.render, none⟩ ⟨0, 0, 0, 0⟩) σ.world.db).result = .ok r ∧
        r ≠ .failed .missingTxHash := by
  have hrun : (runs Sample.runtime Sample.requests (State.init Db.empty)
      (Sample.completes .merchant 4 ++ Sample.completes .provider 2)).any (fun σ =>
        σ.world.db.webhookEvents.rows.any (fun e => e.payload.text "txHash" = some "0xabc1".toList)) = true := by
    decide +kernel
  obtain ⟨σ, hσ, hrows⟩ := (Option.any_eq_true _ _).mp hrun
  obtain ⟨e, he, htx⟩ := List.any_eq_true.mp hrows
  refine ⟨σ, e, he, hσ, of_decide_eq_true htx, ?_⟩
  exact (((no_poison_job hσ).2.2 e he).2 ⟨e.id.render, none⟩ ⟨0, 0, 0, 0⟩ (Uuid.parse_render e.id) le_rfl).1

end Runs

end EventGateway
