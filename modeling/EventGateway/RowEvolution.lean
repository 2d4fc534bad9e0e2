import EventGateway.LockDiscipline

namespace EventGateway

open KeyedTable Statements

variable {d : Db}

namespace Db.Indexes

theorem updateEvents (h : d.Indexes) (id : Uuid) (f : Change WebhookEvent)
    (hprovider : ∀ e, (f.apply e).provider = e.provider)
    (hevent : ∀ e, (f.apply e).externalEventId = e.externalEventId) (hnonce : ∀ e, (f.apply e).nonce = e.nonce) :
    { d with webhookEvents := d.webhookEvents.update id f }.Indexes where
  confirmedTxHash := h.confirmedTxHash
  idempotencyKey := h.idempotencyKey
  externalEventId := by
    intro a ha b hb hp hx
    refine Table.unique_update
      (R := fun a b => a.provider = b.provider ∧ a.externalEventId = b.externalEventId) ?_ ?_ ?_ a ha b hb ⟨hp, hx⟩
    · intro a b
      rw [hprovider, hevent]
      exact fun hab => hab
    · intro a b
      rw [hprovider, hevent]
      exact fun hab => hab
    · exact fun a ha b hb hab => h.externalEventId a ha b hb hab.1 hab.2
  nonce := by
    intro a ha b hb n hp han hbn
    refine Table.unique_update
      (R := fun a b => a.provider = b.provider ∧ a.nonce = some n ∧ b.nonce = some n) ?_ ?_ ?_ a ha b hb ⟨hp, han, hbn⟩
    · intro a b
      rw [hprovider, hnonce]
      exact fun hab => hab
    · intro a b
      rw [hprovider, hnonce]
      exact fun hab => hab
    · exact fun a ha b hb hab => h.nonce a ha b hb n hab.1 hab.2.1 hab.2.2

theorem saveWebhookEvent (h : d.Indexes) (id : Uuid) (p : WebhookEventPatch) :
    (d.apply (.saveWebhookEvent id p)).Indexes :=
  h.updateEvents id _ (fun _ => rfl) (fun _ => rfl) (fun _ => rfl)

theorem markWebhookQueued (h : d.Indexes) (id : Uuid) : (d.apply (.markWebhookQueued id)).Indexes :=
  h.updateEvents id _ (fun _ => rfl) (fun _ => rfl) (fun _ => rfl)

theorem insertAttempt (h : d.Indexes) (a : WebhookProcessingAttempt) : (d.apply (.insertAttempt a)).Indexes :=
  ⟨h.confirmedTxHash, h.idempotencyKey, h.externalEventId, h.nonce⟩

theorem updateOutboxEvent (h : d.Indexes) (id : Uuid) (p : OutboxEventPatch) (now : Time) :
    (d.apply (.updateOutboxEvent id p now)).Indexes :=
  ⟨h.confirmedTxHash, h.idempotencyKey, h.externalEventId, h.nonce⟩

theorem isTxHashTaken_eq_false {txHash : Text} {id : Uuid} (hfree : isTxHashTaken d (some txHash) id = false) :
    ∀ i ∈ d.paymentIntents, i.confirmedTxHash = some txHash → i.id = id := by
  intro i hi hh
  simp only [isTxHashTaken, Option.isSome_some, Bool.true_and, Option.isSome_eq_false_iff,
    Option.isNone_iff_eq_none] at hfree
  simpa [hh] using Table.find_eq_none.mp hfree i hi

theorem savePaymentIntent (h : d.Indexes) (id : Uuid) (p : PaymentIntentPatch) {txHash : Text}
    (hp : p.confirmedTxHash = some txHash) (hfree : isTxHashTaken d (some txHash) id = false) :
    (d.apply (.savePaymentIntent id p)).Indexes where
  confirmedTxHash := by
    intro a ha b hb x hax hbx
    obtain ⟨i, hi, rfl⟩ := Table.mem_update.mp ha
    obtain ⟨j, hj, rfl⟩ := Table.mem_update.mp hb
    have hkey (i : PaymentIntent) (hi : i ∈ d.paymentIntents)
        (hx : (if key i = id then i.patch p else i).confirmedTxHash = some x) :
        x = txHash ∧ i.id = id ∨ i.confirmedTxHash = some x ∧ ¬ key i = id := by
      split_ifs at hx with hk
      · exact Or.inl ⟨Option.some.inj (hx.symm.trans hp), hk⟩
      · exact Or.inr ⟨hx, hk⟩
    have hother (i : PaymentIntent) (hi : i ∈ d.paymentIntents) (hx : i.confirmedTxHash = some txHash)
        (hk : ¬ key i = id) : False := hk (isTxHashTaken_eq_false hfree i hi hx)
    rcases hkey i hi hax with ⟨rfl, hki⟩ | ⟨hix, hki⟩ <;> rcases hkey j hj hbx with ⟨hxj, hkj⟩ | ⟨hjx, hkj⟩
    · rw [Table.eq_of_key hi hj (hki.trans hkj.symm)]
    · exact (hother j hj hjx hkj).elim
    · exact (hother i hi (hxj ▸ hix) hki).elim
    · rw [h.confirmedTxHash i hi j hj x hix hjx]
  idempotencyKey := h.idempotencyKey
  externalEventId := h.externalEventId
  nonce := h.nonce

end Db.Indexes

namespace Db.Evolves

theorem updateEvents {id : Uuid} {f : Change WebhookEvent}
    (hf : ∀ e, f.apply e = e.patch ⟨(f.apply e).status, (f.apply e).failureReason, (f.apply e).processedAt⟩)
    (hstatus : ∀ e, (f.apply e).status ≠ .received) (h : ∀ e, d.webhookEvents.get id = some e → e.isFinal = false) :
    d.Evolves { d with webhookEvents := d.webhookEvents.update id f } where
  paymentIntents := (Db.Evolves.refl d).paymentIntents
  idempotencyRecords := fun _ hr => hr
  webhookEvents := by
    apply Table.exists_mem_update WebhookEvent.Evolves.refl
    intro e he
    refine ⟨hf e, ?_, fun hr => absurd hr (hstatus e)⟩
    intro hfinal
    rw [h e he] at hfinal
    cases hfinal
  outboxEvents := (Db.Evolves.refl d).outboxEvents
  webhookProcessingAttempts := fun _ ha => ha

theorem saveWebhookEvent {id : Uuid} {p : WebhookEventPatch} (hp : p.status ≠ .received)
    (h : ∀ e, d.webhookEvents.get id = some e → e.isFinal = false) : d.Evolves (d.apply (.saveWebhookEvent id p)) :=
  updateEvents (fun _ => rfl) (fun _ => hp) h

theorem markWebhookQueued {id : Uuid} (h : ∀ e, d.webhookEvents.get id = some e → e.isFinal = false) :
    d.Evolves (d.apply (.markWebhookQueued id)) :=
  updateEvents (fun _ => rfl) (fun _ hr => by cases hr) h

theorem savePaymentIntent {id : Uuid} {txHash : Text} {now : Time}
    (h : ∀ i, d.paymentIntents.get id = some i → i.status = .created ∨ i.status = .processing) :
    d.Evolves (d.apply (.savePaymentIntent id ⟨.confirmed, some txHash, none, now⟩)) where
  paymentIntents := by
    apply Table.exists_mem_update (R := PaymentIntent.Evolves) (fun _ => Or.inl rfl)
    intro i hi
    exact Or.inr ⟨h i hi, txHash, now, rfl⟩
  idempotencyRecords := fun _ hr => hr
  webhookEvents := (Db.Evolves.refl d).webhookEvents
  outboxEvents := (Db.Evolves.refl d).outboxEvents
  webhookProcessingAttempts := fun _ ha => ha

theorem updateOutboxEvent {id : Uuid} {p : OutboxEventPatch} {now : Time} :
    d.Evolves (d.apply (.updateOutboxEvent id p now)) where
  paymentIntents := (Db.Evolves.refl d).paymentIntents
  idempotencyRecords := fun _ hr => hr
  webhookEvents := (Db.Evolves.refl d).webhookEvents
  outboxEvents := by
    apply Table.exists_mem_update (R := OutboxEvent.Evolves) (fun _ => ⟨rfl, rfl, rfl, rfl, rfl⟩)
    intro o _
    cases p <;> exact ⟨rfl, rfl, rfl, rfl, rfl⟩
  webhookProcessingAttempts := fun _ ha => ha

theorem insertAttempt {a : WebhookProcessingAttempt} : d.Evolves (d.apply (.insertAttempt a)) where
  paymentIntents := (Db.Evolves.refl d).paymentIntents
  idempotencyRecords := fun _ hr => hr
  webhookEvents := (Db.Evolves.refl d).webhookEvents
  outboxEvents := (Db.Evolves.refl d).outboxEvents
  webhookProcessingAttempts := fun _ ha => List.mem_append_left _ ha

theorem of_subset {d' : Db} (hi : ∀ i ∈ d.paymentIntents, i ∈ d'.paymentIntents)
    (hr : ∀ r ∈ d.idempotencyRecords, r ∈ d'.idempotencyRecords) (he : ∀ e ∈ d.webhookEvents, e ∈ d'.webhookEvents)
    (ho : ∀ o ∈ d.outboxEvents, o ∈ d'.outboxEvents)
    (ha : ∀ a ∈ d.webhookProcessingAttempts, a ∈ d'.webhookProcessingAttempts) : d.Evolves d' where
  paymentIntents := fun i h => ⟨i, hi i h, Or.inl rfl⟩
  idempotencyRecords := hr
  webhookEvents := fun e h => ⟨e, he e h, WebhookEvent.Evolves.refl e⟩
  outboxEvents := fun o h => ⟨o, ho o h, rfl, rfl, rfl, rfl, rfl⟩
  webhookProcessingAttempts := ha

end Db.Evolves

end EventGateway
