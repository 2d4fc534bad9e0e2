import EventGateway.Acceptance
import EventGateway.StatementStability

namespace EventGateway.WebhookEvents

open KeyedTable TransactionProgram Interleaving RelyGuarantee Statements

variable (rt : Runtime) (nonce : Text) (dto : BlockchainWebhookDto) (fresh : Fresh)

def Ends (a : WebhookAcceptance) (held : Lock → Prop) (ws : List Write) (w : World Db JobData) : Prop :=
  ∀ w', discipline.Rely held w w' → Serial (persist rt nonce dto fresh) a w' (engine.view w'.db ws)

inductive Rejected (w : World Db JobData) : Failure → Prop
  | conflict (e : WebhookEvent) (he : e ∈ w.db.webhookEvents) (hid : HasEventId dto.eventId e)
      (hs : hasSamePayload rt e (payloadHash rt dto) = false) : Rejected w (.api .webhookEventConflict)
  | nonceReplay (e : WebhookEvent) (he : e ∈ w.db.webhookEvents) (hn : HasNonce nonce e) :
      Rejected w (.api .webhookNonceReplay)

def Throws (e : Failure) (held : Lock → Prop) (_ : List Write) (w : World Db JobData) : Prop :=
  ∀ w', discipline.Rely held w w' → Rejected rt nonce dto w' e

section

variable {rt nonce dto fresh} {R : Type} {held : Lock → Prop} {w w' : World Db JobData}

theorem hasEventId_of_evolves {e e' : WebhookEvent} {eventId : Text} (h : e.Evolves e') (hid : HasEventId eventId e) :
    HasEventId eventId e' := by
  rw [h.1]
  exact hid

theorem hasNonce_of_evolves {e e' : WebhookEvent} {nonce : Text} (h : e.Evolves e') (hn : HasNonce nonce e) :
    HasNonce nonce e' := by
  rw [h.1]
  exact hn

theorem hasSamePayload_of_evolves {e e' : WebhookEvent} (h : e.Evolves e') (hash : Text) :
    hasSamePayload rt e' hash = hasSamePayload rt e hash := by
  rw [h.1]
  rfl

theorem id_of_evolves {e e' : WebhookEvent} (h : e.Evolves e') : e'.id = e.id := by
  rw [h.1]
  rfl

theorem find_eventId_eq {d : Db} (hd : d.Indexes) {e : WebhookEvent} (he : e ∈ d.webhookEvents) {eventId : Text}
    (hid : HasEventId eventId e) :
    d.webhookEvents.find (fun e => e.provider = blockchainWebhookProvider && e.externalEventId = eventId) = some e := by
  apply Table.find_eq_some_of_unique he
  · simp [hid.1, hid.2]
  · intro s hs hsk
    simp only [Bool.and_eq_true, decide_eq_true_eq] at hsk
    exact hd.externalEventId s hs e he (hsk.1.trans hid.1.symm) (hsk.2.trans hid.2.symm)

theorem eval_tryInsert {d : Db} {others : Lock → Bool} {a : Option Uuid} {ws' : List Write} {ls : List Lock}
    (h : engine.eval (.insertWebhookEvent dto.paymentIntentId (newWebhookEvent rt nonce dto fresh)) d others =
      .ok a ws' ls) :
    exceedsEventColumns (newWebhookEvent rt nonce dto fresh) = false ∧
      ∃ paymentIntentId, Uuid.parse dto.paymentIntentId = some paymentIntentId ∧
      ((a = none ∧ ws' = [] ∧ ∃ e ∈ d.webhookEvents, HasEventId dto.eventId e ∨ HasNonce nonce e) ∨
        (a = some fresh.webhookEventId ∧ ws' = [.insertWebhookEvent (acceptedEvent rt nonce dto fresh paymentIntentId)] ∧
          ls = [.webhookEvent fresh.webhookEventId, .externalEventId blockchainWebhookProvider dto.eventId,
            .nonce blockchainWebhookProvider nonce] ∧
          (∀ e ∈ d.webhookEvents, ¬ HasEventId dto.eventId e ∧ ¬ HasNonce nonce e) ∧
          d.webhookEvents.get fresh.webhookEventId = none)) := by
  simp only [engine_eval, eval] at h
  cases hp : Uuid.parse dto.paymentIntentId with
  | none => simp [hp] at h
  | some paymentIntentId =>
    simp only [hp] at h
    split_ifs at h with hlong htaken hid
    · cases h
      obtain ⟨e, hf⟩ := Option.isSome_iff_exists.mp htaken
      exact ⟨Bool.eq_false_iff.mpr hlong, paymentIntentId, rfl, Or.inl ⟨rfl, rfl, e, Table.mem_of_find hf,
        (conflictsWith_new rt nonce dto fresh e).mp (Table.find_holds hf)⟩⟩
    · cases h
      have hf := Option.not_isSome_iff_eq_none.mp htaken
      exact ⟨Bool.eq_false_iff.mpr hlong, paymentIntentId, rfl, Or.inr ⟨rfl, rfl, rfl, no_conflict hf,
        Option.not_isSome_iff_eq_none.mp hid⟩⟩

theorem eval_insert_free {d : Db} {paymentIntentId : Uuid}
    (hfit : exceedsEventColumns (newWebhookEvent rt nonce dto fresh) = false)
    (hp : Uuid.parse dto.paymentIntentId = some paymentIntentId)
    (hno : ∀ e ∈ d.webhookEvents, ¬ HasEventId dto.eventId e ∧ ¬ HasNonce nonce e)
    (hid : d.webhookEvents.get fresh.webhookEventId = none) (others : Lock → Bool) :
    engine.eval (.insertWebhookEvent dto.paymentIntentId (newWebhookEvent rt nonce dto fresh)) d others =
      .ok (some fresh.webhookEventId) [.insertWebhookEvent (acceptedEvent rt nonce dto fresh paymentIntentId)]
        [.webhookEvent fresh.webhookEventId, .externalEventId blockchainWebhookProvider dto.eventId,
          .nonce blockchainWebhookProvider nonce] := by
  have hf : d.webhookEvents.find (conflictsWith (newWebhookEvent rt nonce dto fresh)) = none := by
    rw [Table.find_eq_none]
    intro e he
    rw [← Bool.not_eq_true, conflictsWith_new, not_or]
    exact hno e he
  have hid' : d.webhookEvents.get (newWebhookEvent rt nonce dto fresh).id = none := hid
  simp only [engine_eval, eval, hp, hfit, hf, hid', Option.isSome_none, Bool.false_eq_true, ↓reduceIte]
  rfl

theorem eval_insert_taken {d : Db} {paymentIntentId : Uuid}
    (hfit : exceedsEventColumns (newWebhookEvent rt nonce dto fresh) = false)
    (hp : Uuid.parse dto.paymentIntentId = some paymentIntentId)
    {e : WebhookEvent} (he : e ∈ d.webhookEvents) (hc : HasEventId dto.eventId e ∨ HasNonce nonce e)
    (others : Lock → Bool) :
    engine.eval (.insertWebhookEvent dto.paymentIntentId (newWebhookEvent rt nonce dto fresh)) d others =
      .ok none [] [] := by
  cases hf : d.webhookEvents.find (conflictsWith (newWebhookEvent rt nonce dto fresh)) with
  | some x => simp only [engine_eval, eval, hp, hfit, hf, Option.isSome_some, Bool.false_eq_true, ↓reduceIte]
  | none =>
    obtain ⟨hne, hnn⟩ := no_conflict hf e he
    exact absurd hc (not_or.mpr ⟨hne, hnn⟩)

theorem stable_tryInsert {f : Option Uuid → Script R} {others : Lock → Bool} {a : Option Uuid} {ws' : List Write}
    {ls : List Lock}
    (h : engine.eval (.insertWebhookEvent dto.paymentIntentId (newWebhookEvent rt nonce dto fresh))
      (engine.view w.db []) others = .ok a ws' ls) :
    Stable discipline (.insertWebhookEvent dto.paymentIntentId (newWebhookEvent rt nonce dto fresh)) f
      (fun l => held l ∨ l ∈ ls) [] a ws' w := by
  intro w' hr
  obtain ⟨hfit, paymentIntentId, hp, ⟨rfl, rfl, e, he, hc⟩ | ⟨rfl, rfl, rfl, hno, hid⟩⟩ := eval_tryInsert h
  · obtain ⟨e', he', hev⟩ := hr.2.1.1.webhookEvents e he
    exact ⟨none, [], eval_insert_taken hfit hp he' (hc.imp (hasEventId_of_evolves hev) (hasNonce_of_evolves hev)) _, rfl⟩
  · have hevent : Table.KeepsOut (fun e => e.provider = blockchainWebhookProvider ∧ e.externalEventId = dto.eventId)
        w.db.webhookEvents w'.db.webhookEvents :=
      hr.2.2 (.externalEventId blockchainWebhookProvider dto.eventId) (Or.inr (by simp))
    have hnonce : Table.KeepsOut (fun e => e.provider = blockchainWebhookProvider ∧ e.nonce = some nonce)
        w.db.webhookEvents w'.db.webhookEvents :=
      hr.2.2 (.nonce blockchainWebhookProvider nonce) (Or.inr (by simp))
    have hno' : ∀ e ∈ w'.db.webhookEvents, ¬ HasEventId dto.eventId e ∧ ¬ HasNonce nonce e := by
      intro e he
      constructor
      · intro hx
        obtain ⟨q, hq, _, hqx⟩ := hevent e he hx
        exact (hno q hq).1 hqx
      · intro hx
        obtain ⟨q, hq, _, hqx⟩ := hnonce e he hx
        exact (hno q hq).2 hqx
    have hrow : w'.db.webhookEvents.get fresh.webhookEventId = w.db.webhookEvents.get fresh.webhookEventId :=
      hr.2.2 (.webhookEvent fresh.webhookEventId) (Or.inr (by simp))
    exact ⟨_, _, eval_insert_free hfit hp hno' (hrow.trans hid) (fun _ => false), rfl⟩

theorem stable_insertOutbox {row : OutboxEvent} {ws : List Write} {f : Unit → Script R} {others : Lock → Bool}
    {a : Unit} {ws' : List Write} {ls : List Lock} (hws : ∀ d, (engine.view d ws).outboxEvents = d.outboxEvents)
    (h : engine.eval (.insertOutboxEvent row) (engine.view w.db ws) others = .ok a ws' ls) :
    Stable discipline (.insertOutboxEvent row) f (fun l => held l ∨ l ∈ ls) ws a ws' w := by
  intro w' hr
  simp only [engine_eval, eval, hws] at h
  split_ifs at h with hid
  cases h
  have hrow : w'.db.outboxEvents.get row.id = w.db.outboxEvents.get row.id :=
    hr.2.2 (.outboxEvent row.id) (Or.inr (by simp))
  refine ⟨(), [.outboxEvent row.id], ?_, rfl⟩
  simp only [engine_eval, eval, hws, hrow, hid, Bool.false_eq_true, ↓reduceIte]

theorem stable_findEventId {f : Option WebhookEvent → Script R} {e : WebhookEvent} (he : e ∈ w.db.webhookEvents)
    (hid : HasEventId dto.eventId e) (hf : ∀ e', e.Evolves e' → f (some e') = f (some e)) :
    Stable discipline (.findWebhookEventByEventId blockchainWebhookProvider dto.eventId) f held [] (some e) [] w := by
  -- the row that is found can be settled by a worker afterwards, which leaves what the answer depends on
  intro w' hr
  obtain ⟨e', he', hev⟩ := hr.2.1.1.webhookEvents e he
  refine ⟨some e', [], ?_, hf e' hev⟩
  simp only [engine_eval, eval, Engine.view_nil, find_eventId_eq hr.1 he' (hasEventId_of_evolves hev hid)]

theorem Rejected.of_evolves {e : Failure} (h : Rejected rt nonce dto w e) (hev : w.db.Evolves w'.db) :
    Rejected rt nonce dto w' e := by
  cases h with
  | conflict e he hid hs =>
    obtain ⟨e', he', hee'⟩ := hev.webhookEvents e he
    exact .conflict e' he' (hasEventId_of_evolves hee' hid) ((hasSamePayload_of_evolves hee' _).trans hs)
  | nonceReplay e he hn =>
    obtain ⟨e', he', hee'⟩ := hev.webhookEvents e he
    exact .nonceReplay e' he' (hasNonce_of_evolves hee' hn)

theorem wp_findNonce {e : WebhookEvent} (he : e ∈ w.db.webhookEvents) (hn : HasNonce nonce e) :
    wp discipline (do
      match ← query (.findWebhookEventByNonce blockchainWebhookProvider nonce) with
      | some _ => throw (.api .webhookNonceReplay)
      | none => throw (.api .webhookConflictUnclassified) : Script WebhookAcceptance) held [] w
      (Ends rt nonce dto fresh) (Throws rt nonce dto) := by
  apply wp_call
  · intro w₁ others a ws₁ ls hr hev
    obtain ⟨e₁, he₁, hee₁⟩ := hr.2.1.1.webhookEvents e he
    have hn₁ := hasNonce_of_evolves hee₁ hn
    simp only [engine_eval, eval, Engine.view_nil] at hev
    cases hf : w₁.db.webhookEvents.find
        (fun e => e.provider = blockchainWebhookProvider && e.nonce = some nonce) with
    | none =>
      have hno := Table.find_eq_none.mp hf e₁ he₁
      simp [hn₁.1, hn₁.2] at hno
    | some x =>
      rw [hf] at hev
      cases hev
      intro w' hr'
      exact (Rejected.nonceReplay e₁ he₁ hn₁).of_evolves hr'.of_emitted.2.1.1
  · exact fun _ _ x _ hx => absurd hx (eval_not_refused (by simp) _ _ x)
  · exact eval_faults _

theorem wp_replay {e : WebhookEvent} (he : e ∈ w.db.webhookEvents) (hc : HasEventId dto.eventId e ∨ HasNonce nonce e)
    (ht : Tracks discipline (persist rt nonce dto fresh) (replayOrRejectConflict rt nonce dto) held [] w) :
    wp discipline (replayOrRejectConflict rt nonce dto) held [] w (Ends rt nonce dto fresh) (Throws rt nonce dto) := by
  unfold replayOrRejectConflict at ht ⊢
  apply Tracks.wp_call ht
  · intro w₁ others a ws₁ ls hr hev hstable
    simp only [engine_eval, eval, Engine.view_nil] at hev
    cases hf : w₁.db.webhookEvents.find
        (fun e => e.provider = blockchainWebhookProvider && e.externalEventId = dto.eventId) with
    | some x =>
      rw [hf] at hev
      cases hev
      obtain ⟨hx, hid⟩ := find_eventId hf
      have ht₁ := hstable (stable_findEventId hx hid (by
        intro x' hxx'
        simp only [hasSamePayload_of_evolves hxx', id_of_evolves hxx']))
      simp only at ht₁ ⊢
      split_ifs at ht₁ ⊢ with hs
      · exact fun w' hr' => ht₁.result hr'
      · intro w' hr'
        exact (Rejected.conflict x hx hid (Bool.eq_false_iff.mpr hs)).of_evolves hr'.of_emitted.2.1.1
    | none =>
      rw [hf] at hev
      cases hev
      obtain ⟨e₁, he₁, hee₁⟩ := hr.2.1.1.webhookEvents e he
      have hn : HasNonce nonce e := by
        refine hc.resolve_left (fun hid => ?_)
        have hno := Table.find_eq_none.mp hf e₁ he₁
        have hid₁ := hasEventId_of_evolves hee₁ hid
        simp [hid₁.1, hid₁.2] at hno
      exact wp_findNonce he₁ (hasNonce_of_evolves hee₁ hn)
  · exact eval_not_refused (by simp)
  · exact eval_faults _

theorem wp_persist (w : World Db JobData) :
    wp discipline (persist rt nonce dto fresh) (fun _ => False) [] w (Ends rt nonce dto fresh) (Throws rt nonce dto) := by
  have ht : Tracks discipline (persist rt nonce dto fresh) (persist rt nonce dto fresh) (fun _ => False) [] w :=
    Tracks.start rfl _ _
  conv at ht => arg 3; unfold persist tryInsertWebhookEvent
  conv => arg 2; unfold persist tryInsertWebhookEvent
  apply Tracks.wp_call ht
  · intro w₁ others a ws₁ ls hr hev hstable
    have ht₁ := hstable (stable_tryInsert hev)
    obtain ⟨-, paymentIntentId, _, ⟨rfl, rfl, e, he, hc⟩ | ⟨rfl, rfl, _, _, _⟩⟩ := eval_tryInsert hev
    · exact wp_replay he hc ht₁
    · apply Tracks.wp_call ht₁
      · intro w₂ others₂ a₂ ws₂ ls₂ hr₂ hev₂ hstable₂
        exact fun w' hr' => (hstable₂ (stable_insertOutbox (fun _ => rfl) hev₂)).result hr'
      · exact eval_not_refused (by simp)
      · exact eval_faults _
  · exact eval_not_refused (by simp)
  · exact eval_faults _

end

end EventGateway.WebhookEvents
