import EventGateway.RowEvolution
import EventGateway.WebhookEvents

namespace EventGateway.WebhookEvents

open KeyedTable TransactionProgram Statements

variable (rt : Runtime) (nonce : Text) (dto : BlockchainWebhookDto) (fresh : Fresh)

def HasEventId (eventId : Text) (e : WebhookEvent) : Prop :=
  e.provider = blockchainWebhookProvider ∧ e.externalEventId = eventId

def HasNonce (nonce : Text) (e : WebhookEvent) : Prop := e.provider = blockchainWebhookProvider ∧ e.nonce = some nonce

def acceptedEvent (paymentIntentId : Uuid) : WebhookEvent :=
  { newWebhookEvent rt nonce dto fresh with paymentIntentId := some paymentIntentId }

def acceptedOutboxEvent : OutboxEvent := newOutboxEvent fresh.webhookEventId fresh

def acceptedDb (d : Db) (paymentIntentId : Uuid) : Db :=
  { d with
    webhookEvents := d.webhookEvents.insert (acceptedEvent rt nonce dto fresh paymentIntentId)
    outboxEvents := d.outboxEvents.insert (acceptedOutboxEvent fresh) }

inductive Accepted (d : Db) : WebhookAcceptanceResponse → Db → Prop
  | accepted (paymentIntentId : Uuid) (hp : Uuid.parse dto.paymentIntentId = some paymentIntentId)
      (he : ∀ e ∈ d.webhookEvents, ¬ HasEventId dto.eventId e) (hn : ∀ e ∈ d.webhookEvents, ¬ HasNonce nonce e)
      (hid : d.webhookEvents.get fresh.webhookEventId = none) (ho : d.outboxEvents.get fresh.outboxEventId = none)
      (hfit : exceedsEventColumns (newWebhookEvent rt nonce dto fresh) = false) :
      Accepted d ⟨dto.eventId, .accepted⟩ (acceptedDb rt nonce dto fresh d paymentIntentId)
  | alreadyAccepted (e : WebhookEvent) (he : e ∈ d.webhookEvents) (hid : HasEventId dto.eventId e)
      (hs : hasSamePayload rt e (payloadHash rt dto) = true) : Accepted d ⟨dto.eventId, .alreadyAccepted⟩ d

theorem conflictsWith_new (e : WebhookEvent) :
    conflictsWith (newWebhookEvent rt nonce dto fresh) e = true ↔ HasEventId dto.eventId e ∨ HasNonce nonce e := by
  simp only [conflictsWith, HasEventId, HasNonce, Bool.and_eq_true, Bool.or_eq_true, decide_eq_true_eq]
  simp only [newWebhookEvent]
  constructor
  · rintro ⟨hp, hx | ⟨hn, _⟩⟩
    · exact Or.inl ⟨hp, hx⟩
    · exact Or.inr ⟨hp, hn⟩
  · rintro (⟨hp, hx⟩ | ⟨hp, hn⟩)
    · exact ⟨hp, Or.inl hx⟩
    · exact ⟨hp, Or.inr ⟨hn, by rw [hn]; rfl⟩⟩

variable {rt nonce dto fresh} {d : Db}

theorem find_eventId {e : WebhookEvent}
    (hf : d.webhookEvents.find (fun e => e.provider = blockchainWebhookProvider && e.externalEventId = dto.eventId) = some e) :
    e ∈ d.webhookEvents ∧ HasEventId dto.eventId e := by
  have hp := Table.find_holds hf
  simp only [Bool.and_eq_true, decide_eq_true_eq] at hp
  exact ⟨Table.mem_of_find hf, hp⟩

theorem no_conflict (hf : d.webhookEvents.find (conflictsWith (newWebhookEvent rt nonce dto fresh)) = none) :
    ∀ e ∈ d.webhookEvents, ¬ HasEventId dto.eventId e ∧ ¬ HasNonce nonce e := by
  intro e he
  rw [← not_or, ← conflictsWith_new rt nonce dto fresh, Table.find_eq_none.mp hf e he]
  exact Bool.false_ne_true

theorem persist_cases (rt : Runtime) (nonce : Text) (dto : BlockchainWebhookDto) (fresh : Fresh) (d : Db) :
    (∃ a d', engine.transaction (persist rt nonce dto fresh) d = ⟨.ok a, d', []⟩ ∧
        Accepted rt nonce dto fresh d a.toWebhookAcceptanceResponse d') ∨
      ∃ e, engine.transaction (persist rt nonce dto fresh) d = ⟨.error e, d, []⟩ := by
  rw [Engine.transaction, persist, tryInsertWebhookEvent, query, Engine.exec_call_bind, engine_eval]
  cases hp : Uuid.parse dto.paymentIntentId with
  | none =>
    simp only [eval, hp]
    exact Or.inr ⟨_, rfl⟩
  | some paymentIntentId =>
    cases hfit : exceedsEventColumns (newWebhookEvent rt nonce dto fresh) with
    | true =>
      simp only [eval, hp, hfit, ↓reduceIte]
      exact Or.inr ⟨_, rfl⟩
    | false =>
      cases hf : d.webhookEvents.find (conflictsWith (newWebhookEvent rt nonce dto fresh)) with
      | some x =>
        simp only [eval, hp, hfit, hf, Option.isSome_some, Bool.false_eq_true, ↓reduceIte]
        rw [replayOrRejectConflict, query, Engine.exec_call_bind]
        simp only [engine_eval, eval, Engine.view_nil]
        cases hx : d.webhookEvents.find
            (fun e => e.provider = blockchainWebhookProvider && e.externalEventId = dto.eventId) with
        | some e =>
          obtain ⟨he, hid⟩ := find_eventId hx
          simp only
          split_ifs with hs
          · exact Or.inl ⟨_, _, rfl, .alreadyAccepted e he hid hs⟩
          · exact Or.inr ⟨_, rfl⟩
        | none =>
          simp only [query, Engine.exec_call_bind, engine_eval, eval]
          cases d.webhookEvents.find (fun e => e.provider = blockchainWebhookProvider && e.nonce = some nonce) with
          | some _ => exact Or.inr ⟨_, rfl⟩
          | none => exact Or.inr ⟨_, rfl⟩
      | none =>
        have hno := no_conflict hf
        cases hid : d.webhookEvents.get fresh.webhookEventId with
        | some x =>
          have hid' : d.webhookEvents.get (newWebhookEvent rt nonce dto fresh).id = some x := hid
          simp only [eval, hp, hfit, hf, hid', Option.isSome_some, Option.isSome_none, Bool.false_eq_true, ↓reduceIte]
          exact Or.inr ⟨_, rfl⟩
        | none =>
          have hid' : d.webhookEvents.get (newWebhookEvent rt nonce dto fresh).id = none := hid
          simp only [eval, hp, hfit, hf, hid', Option.isSome_none, Bool.false_eq_true, ↓reduceIte, query,
            Engine.exec_call_bind, engine_eval]
          cases ho : d.outboxEvents.get fresh.outboxEventId with
          | some o =>
            have ho' : d.outboxEvents.get (newOutboxEvent (newWebhookEvent rt nonce dto fresh).id fresh).id = some o := ho
            simp only [Engine.view, List.foldl_cons, List.foldl_nil, engine_apply, Db.apply, ho', Option.isSome_some,
              ↓reduceIte]
            exact Or.inr ⟨_, rfl⟩
          | none =>
            have ho' : d.outboxEvents.get (newOutboxEvent (newWebhookEvent rt nonce dto fresh).id fresh).id = none := ho
            simp only [Engine.view, List.foldl_cons, List.foldl_nil, engine_apply, Db.apply, ho', Option.isSome_none,
              Bool.false_eq_true, ↓reduceIte]
            exact Or.inl ⟨_, _, rfl, .accepted paymentIntentId hp (fun e he => (hno e he).1) (fun e he => (hno e he).2)
              hid ho hfit⟩

theorem accepted_of_transaction {config : WebhookConfig} {request : AcceptBlockchainWebhookRequest}
    {r : WebhookAcceptanceResponse}
    (h : (engine.transaction (acceptBlockchainWebhook rt config request fresh) d).result = .ok r) :
    ∃ nonce dto, validateRequest rt config request fresh.nowMs = .ok (nonce, dto) ∧
      Accepted rt nonce dto fresh d r (engine.transaction (acceptBlockchainWebhook rt config request fresh) d).db := by
  unfold acceptBlockchainWebhook at h ⊢
  cases hv : validateRequest rt config request fresh.nowMs with
  | error e =>
    rw [hv] at h
    cases h
  | ok p =>
    obtain ⟨nonce, dto⟩ := p
    refine ⟨nonce, dto, rfl, ?_⟩
    simp only [hv, Engine.transaction, Prog.pure_eq, Engine.exec_bind_ret] at h ⊢
    rcases persist_cases rt nonce dto fresh d with ⟨a, d', ht, hacc⟩ | ⟨e, ht⟩
    · simp only [Engine.transaction] at ht
      rw [ht] at h ⊢
      cases h
      exact hacc
    · simp only [Engine.transaction] at ht
      rw [ht] at h
      cases h

theorem Accepted.indexes {d' : Db} {r : WebhookAcceptanceResponse} (h : Accepted rt nonce dto fresh d r d')
    (hd : d.Indexes) : d'.Indexes := by
  cases h with
  | alreadyAccepted => exact hd
  | accepted paymentIntentId hp he hn hid ho =>
    refine ⟨hd.confirmedTxHash, hd.idempotencyKey, ?_, ?_⟩
    · intro a ha b hb hprov hx
      refine Table.unique_insert (R := fun a b => a.provider = b.provider ∧ a.externalEventId = b.externalEventId)
        (fun _ _ h => ⟨h.1.symm, h.2.symm⟩) ?_ he a ha b hb ⟨hprov, hx⟩
      exact fun a ha b hb h => hd.externalEventId a ha b hb h.1 h.2
    · intro a ha b hb n hprov han hbn
      refine Table.unique_insert (R := fun a b => a.provider = b.provider ∧ ∃ n, a.nonce = some n ∧ b.nonce = some n)
        (fun _ _ ⟨hp, n, ha, hb⟩ => ⟨hp.symm, n, hb, ha⟩) ?_ ?_ a ha b hb ⟨hprov, n, han, hbn⟩
      · exact fun a ha b hb ⟨hp, n, han, hbn⟩ => hd.nonce a ha b hb n hp han hbn
      · rintro a ha ⟨hp, n, han, hbn⟩
        have hn' : some nonce = some n := hbn
        exact hn a ha ⟨hp, han.trans hn'.symm⟩

theorem Accepted.evolves {d' : Db} {r : WebhookAcceptanceResponse} (h : Accepted rt nonce dto fresh d r d') :
    d.Evolves d' := by
  cases h with
  | alreadyAccepted => exact Db.Evolves.refl d
  | accepted paymentIntentId hp he hn hid ho =>
    exact Db.Evolves.of_subset (fun _ h => h) (fun _ h => h) (fun _ h => Table.mem_insert_of_mem h)
      (fun _ h => Table.mem_insert_of_mem h) (fun _ h => h)

end EventGateway.WebhookEvents
