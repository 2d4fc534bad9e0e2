import EventGateway.SerialTracking
import EventGateway.Statements

/-!
What each lock keeps in place, and how committed rows evolve: no row is ever
deleted, an idempotency record never changes, a webhook event keeps what it was
received with and stays as it is once it is final, and a payment intent changes
only by being confirmed.
-/

namespace EventGateway

open KeyedTable TransactionProgram Interleaving RelyGuarantee Statements

namespace LockDiscipline

def touches : Write → List Lock
  | .insertPaymentIntent row => .paymentIntent row.id :: txHashLock row.confirmedTxHash
  | .savePaymentIntent id p => .paymentIntent id :: txHashLock p.confirmedTxHash
  | .insertIdempotencyRecord row => [.idempotencyRecord row.id, .idempotencyKey row.scope row.idempotencyKey]
  | .saveIdempotencyRecord id _ => [.idempotencyRecord id]
  | .insertWebhookEvent row =>
    .webhookEvent row.id :: .externalEventId row.provider row.externalEventId :: nonceLock row
  | .saveWebhookEvent id _ => [.webhookEvent id]
  | .markWebhookQueued id => [.webhookEvent id]
  | .insertOutboxEvent row => [.outboxEvent row.id]
  | .updateOutboxEvent id _ _ => [.outboxEvent id]
  | .insertAttempt row => [.webhookEvent row.webhookEventId]

/-- A row lock keeps its row; a lock on a key keeps others from adding a row under it. -/
def Keeps : Lock → Db → Db → Prop
  | .paymentIntent id, d, d' => Table.KeepsRow id d.paymentIntents d'.paymentIntents
  | .idempotencyRecord id, d, d' => Table.KeepsRow id d.idempotencyRecords d'.idempotencyRecords
  | .webhookEvent id, d, d' => Table.KeepsRow id d.webhookEvents d'.webhookEvents
  | .outboxEvent id, d, d' => Table.KeepsRow id d.outboxEvents d'.outboxEvents
  | .confirmedTxHash h, d, d' =>
    Table.KeepsOut (fun i => i.confirmedTxHash = some h) d.paymentIntents d'.paymentIntents
  | .idempotencyKey s k, d, d' =>
    Table.KeepsOut (fun r => r.scope = s ∧ r.idempotencyKey = k) d.idempotencyRecords d'.idempotencyRecords
  | .externalEventId p x, d, d' =>
    Table.KeepsOut (fun e => e.provider = p ∧ e.externalEventId = x) d.webhookEvents d'.webhookEvents
  | .nonce p n, d, d' =>
    Table.KeepsOut (fun e => e.provider = p ∧ e.nonce = some n) d.webhookEvents d'.webhookEvents

theorem keeps_refl (l : Lock) (d : Db) : Keeps l d d := by
  cases l with
  | paymentIntent | idempotencyRecord | webhookEvent | outboxEvent => exact Table.KeepsRow.refl _ _
  | confirmedTxHash | idempotencyKey | externalEventId | nonce => exact Table.KeepsOut.refl _ _

theorem keeps_trans {l : Lock} {d₁ d₂ d₃ : Db} (h : Keeps l d₁ d₂) (h' : Keeps l d₂ d₃) : Keeps l d₁ d₃ := by
  cases l with
  | paymentIntent | idempotencyRecord | webhookEvent | outboxEvent => exact Table.KeepsRow.trans h h'
  | confirmedTxHash | idempotencyKey | externalEventId | nonce => exact Table.KeepsOut.trans h h'

theorem keeps_apply {l : Lock} {w : Write} (d : Db) (h : l ∉ touches w) : Keeps l d (d.apply w) := by
  cases w with
  | insertPaymentIntent row =>
    cases l with
    | paymentIntent id =>
      apply Table.KeepsRow.insert
      rintro rfl
      simp [touches, key] at h
    | confirmedTxHash x =>
      apply Table.KeepsOut.insert
      intro hx
      simp [touches, txHashLock, hx] at h
    | idempotencyRecord | webhookEvent | outboxEvent => exact Table.KeepsRow.refl _ _
    | idempotencyKey | externalEventId | nonce => exact Table.KeepsOut.refl _ _
  | savePaymentIntent id p =>
    cases l with
    | paymentIntent j =>
      have hj : j ≠ id := fun he => h (by simp [touches, he])
      exact Table.KeepsRow.update hj
    | confirmedTxHash x =>
      have hp : p.confirmedTxHash ≠ some x := fun he => h (by simp [touches, txHashLock, he])
      exact Table.KeepsOut.update (fun _ hx => absurd hx hp)
    | idempotencyRecord | webhookEvent | outboxEvent => exact Table.KeepsRow.refl _ _
    | idempotencyKey | externalEventId | nonce => exact Table.KeepsOut.refl _ _
  | insertIdempotencyRecord row =>
    cases l with
    | idempotencyRecord id =>
      apply Table.KeepsRow.insert
      rintro rfl
      simp [touches, key] at h
    | idempotencyKey s k =>
      apply Table.KeepsOut.insert
      rintro ⟨hs, hk⟩
      simp [touches, hs, hk] at h
    | paymentIntent | webhookEvent | outboxEvent => exact Table.KeepsRow.refl _ _
    | confirmedTxHash | externalEventId | nonce => exact Table.KeepsOut.refl _ _
  | saveIdempotencyRecord id p =>
    cases l with
    | idempotencyRecord j =>
      have hj : j ≠ id := fun he => h (by simp [touches, he])
      exact Table.KeepsRow.update hj
    | idempotencyKey => exact Table.KeepsOut.update (fun _ hk => hk)
    | paymentIntent | webhookEvent | outboxEvent => exact Table.KeepsRow.refl _ _
    | confirmedTxHash | externalEventId | nonce => exact Table.KeepsOut.refl _ _
  | insertWebhookEvent row =>
    cases l with
    | webhookEvent id =>
      apply Table.KeepsRow.insert
      rintro rfl
      simp [touches, key] at h
    | externalEventId p x =>
      apply Table.KeepsOut.insert
      rintro ⟨hp, hx⟩
      simp [touches, hp, hx] at h
    | nonce p n =>
      apply Table.KeepsOut.insert
      rintro ⟨hp, hn⟩
      simp [touches, nonceLock, hp, hn] at h
    | paymentIntent | idempotencyRecord | outboxEvent => exact Table.KeepsRow.refl _ _
    | confirmedTxHash | idempotencyKey => exact Table.KeepsOut.refl _ _
  | saveWebhookEvent id p =>
    cases l with
    | webhookEvent j =>
      have hj : j ≠ id := fun he => h (by simp [touches, he])
      exact Table.KeepsRow.update hj
    | externalEventId | nonce => exact Table.KeepsOut.update (fun _ hk => hk)
    | paymentIntent | idempotencyRecord | outboxEvent => exact Table.KeepsRow.refl _ _
    | confirmedTxHash | idempotencyKey => exact Table.KeepsOut.refl _ _
  | markWebhookQueued id =>
    cases l with
    | webhookEvent j =>
      have hj : j ≠ id := fun he => h (by simp [touches, he])
      exact Table.KeepsRow.update hj
    | externalEventId | nonce => exact Table.KeepsOut.update (fun _ hk => hk)
    | paymentIntent | idempotencyRecord | outboxEvent => exact Table.KeepsRow.refl _ _
    | confirmedTxHash | idempotencyKey => exact Table.KeepsOut.refl _ _
  | insertOutboxEvent row =>
    cases l with
    | outboxEvent id =>
      apply Table.KeepsRow.insert
      rintro rfl
      simp [touches, key] at h
    | paymentIntent | idempotencyRecord | webhookEvent => exact Table.KeepsRow.refl _ _
    | confirmedTxHash | idempotencyKey | externalEventId | nonce => exact Table.KeepsOut.refl _ _
  | updateOutboxEvent id p now =>
    cases l with
    | outboxEvent j =>
      have hj : j ≠ id := fun he => h (by simp [touches, he])
      exact Table.KeepsRow.update hj
    | paymentIntent | idempotencyRecord | webhookEvent => exact Table.KeepsRow.refl _ _
    | confirmedTxHash | idempotencyKey | externalEventId | nonce => exact Table.KeepsOut.refl _ _
  | insertAttempt row =>
    cases l with
    | paymentIntent | idempotencyRecord | webhookEvent | outboxEvent => exact Table.KeepsRow.refl _ _
    | confirmedTxHash | idempotencyKey | externalEventId | nonce => exact Table.KeepsOut.refl _ _

inductive Writes (d : Db) (held : Lock → Bool) : Stmt → List Write → List Lock → Prop
  | nothing (s : Stmt) (ls : List Lock) : Writes d held s [] ls
  | saveWebhookEvent (id : Uuid) (p : WebhookEventPatch) :
      Writes d held (.saveWebhookEvent id p) [.saveWebhookEvent id p] [.webhookEvent id]
  | savePaymentIntent (id : Uuid) (p : PaymentIntentPatch) :
      Writes d held (.savePaymentIntent id p) [.savePaymentIntent id p] (.paymentIntent id :: txHashLock p.confirmedTxHash)
  | insertAttempt (row : WebhookProcessingAttempt) :
      Writes d held (.insertAttempt row) [.insertAttempt row] [.webhookEvent row.webhookEventId]
  | insertIdempotencyRecord (row : IdempotencyRecord) :
      Writes d held (.insertIdempotencyRecord row) [.insertIdempotencyRecord row]
        [.idempotencyRecord row.id, .idempotencyKey row.scope row.idempotencyKey]
  | insertPaymentIntent (entity : PaymentIntentEntity) (amount : PaymentAmount.Numeric) :
      Writes d held (.insertPaymentIntent entity) [.insertPaymentIntent { entity with amount := amount }]
        (.paymentIntent entity.id :: txHashLock entity.confirmedTxHash)
  | saveIdempotencyRecord (id : Uuid) (p : IdempotencyRecordPatch) :
      Writes d held (.saveIdempotencyRecord id p) [.saveIdempotencyRecord id p] [.idempotencyRecord id]
  | insertWebhookEvent (paymentIntentId : Text) (row : WebhookEvent) (id : Uuid) :
      Writes d held (.insertWebhookEvent paymentIntentId row) [.insertWebhookEvent { row with paymentIntentId := some id }]
        (.webhookEvent row.id :: .externalEventId row.provider row.externalEventId :: nonceLock row)
  | insertOutboxEvent (row : OutboxEvent) :
      Writes d held (.insertOutboxEvent row) [.insertOutboxEvent row] [.outboxEvent row.id]
  | markWebhookQueued (webhookEventId : Text) (id : Uuid) :
      Writes d held (.markWebhookQueued webhookEventId) [.markWebhookQueued id] [.webhookEvent id]
  | updateOutboxEvent (id : Uuid) (p : OutboxEventPatch) (now : Time) :
      Writes d held (.updateOutboxEvent id p now) [.updateOutboxEvent id p now] [.outboxEvent id]
  | requeueStale (aggregateType type lastError : Text) (publishedBefore : Time) (limit : ℕ) (now : Time)
      (hidden : Uuid → Bool) (rows : List OutboxEvent)
      (hrows : rows = staleEvents d held aggregateType type publishedBefore limit hidden) :
      Writes d held (.requeueStale aggregateType type lastError publishedBefore limit now hidden)
        (rows.map (fun e => .updateOutboxEvent e.id (.requeued lastError now) now))
        (rows.flatMap (fun e => [.outboxEvent e.id, .webhookEvent e.aggregateId]))

theorem writes_of_eval {s : Stmt} {d : Db} {held : Lock → Bool} {a : s.Answer} {ws : List Write} {ls : List Lock}
    (h : eval s d held = .ok a ws ls) : Writes d held s ws ls := by
  cases s with
  | lockWebhookEvent webhookEventId =>
    simp only [eval] at h
    split at h
    · cases h
    · split at h <;> cases h <;> exact .nothing _ _
  | lockPaymentIntent id =>
    simp only [eval] at h
    split at h <;> cases h <;> exact .nothing _ _
  | lockPaymentIntentByTxHash txHash =>
    simp only [eval] at h
    split at h <;> cases h <;> exact .nothing _ _
  | publishProcessWebhookEvent data outcome =>
    simp only [eval] at h
    split at h <;> cases h
    exact .nothing _ _
  | findIdempotencyRecordById | findIdempotencyRecord | findWebhookEventByEventId | findWebhookEventByNonce
    | findEligibleEvents =>
    cases h
    exact .nothing _ _
  | saveWebhookEvent id p =>
    cases h
    exact .saveWebhookEvent id p
  | saveIdempotencyRecord id p =>
    cases h
    exact .saveIdempotencyRecord id p
  | updateOutboxEvent id p now =>
    cases h
    exact .updateOutboxEvent id p now
  | savePaymentIntent id p =>
    simp only [eval] at h
    split_ifs at h
    cases h
    exact .savePaymentIntent id p
  | insertAttempt row =>
    simp only [eval] at h
    split_ifs at h
    cases h
    exact .insertAttempt row
  | insertIdempotencyRecord row =>
    simp only [eval] at h
    split_ifs at h
    · cases h
      exact .nothing _ _
    · cases h
      exact .insertIdempotencyRecord row
  | insertPaymentIntent entity =>
    simp only [eval] at h
    split at h
    · cases h
    · split_ifs at h
      cases h
      exact .insertPaymentIntent entity _
  | insertWebhookEvent paymentIntentId row =>
    simp only [eval] at h
    split at h
    · cases h
    · split_ifs at h
      · cases h
        exact .nothing _ _
      · cases h
        exact .insertWebhookEvent paymentIntentId row _
  | insertOutboxEvent row =>
    simp only [eval] at h
    split_ifs at h
    cases h
    exact .insertOutboxEvent row
  | markWebhookQueued webhookEventId =>
    simp only [eval] at h
    split at h
    · cases h
    · split_ifs at h
      · cases h
        exact .markWebhookQueued webhookEventId _
      · cases h
        exact .nothing _ _
  | requeueStale aggregateType type lastError publishedBefore limit now hidden =>
    cases h
    exact .requeueStale aggregateType type lastError publishedBefore limit now hidden _ rfl

theorem eval_touches {s : Stmt} {d : Db} {held : Lock → Bool} {a : s.Answer} {ws : List Write} {ls : List Lock}
    (h : eval s d held = .ok a ws ls) : ∀ w ∈ ws, ∀ l ∈ touches w, l ∈ ls := by
  intro w hw l hl
  cases writes_of_eval h with
  | nothing => cases hw
  | requeueStale =>
    obtain ⟨e, he, rfl⟩ := List.mem_map.mp hw
    rw [List.mem_singleton.mp hl]
    exact List.mem_flatMap.mpr ⟨e, he, List.mem_cons_self⟩
  | saveWebhookEvent | saveIdempotencyRecord | updateOutboxEvent | insertAttempt | insertOutboxEvent | markWebhookQueued
  | savePaymentIntent | insertIdempotencyRecord | insertPaymentIntent | insertWebhookEvent =>
    rw [List.mem_singleton.mp hw] at hl
    exact hl

theorem eval_fault {s : Stmt} {d : Db} {held : Lock → Bool} {e : Failure} (h : eval s d held = .fault e) :
    ∃ x, e = .database x := by
  cases s with
  | lockWebhookEvent webhookEventId =>
    simp only [eval] at h
    split at h
    · cases h
      exact ⟨_, rfl⟩
    · split at h <;> cases h
  | savePaymentIntent id p =>
    simp only [eval] at h
    split_ifs at h <;> cases h <;> exact ⟨_, rfl⟩
  | insertAttempt row =>
    simp only [eval] at h
    split_ifs at h <;> cases h <;> exact ⟨_, rfl⟩
  | insertIdempotencyRecord row =>
    simp only [eval] at h
    split_ifs at h <;> cases h <;> exact ⟨_, rfl⟩
  | insertPaymentIntent entity =>
    simp only [eval] at h
    split at h
    · cases h
      exact ⟨_, rfl⟩
    · split_ifs at h <;> cases h <;> exact ⟨_, rfl⟩
  | insertWebhookEvent paymentIntentId row =>
    simp only [eval] at h
    split at h
    · cases h
      exact ⟨_, rfl⟩
    · split_ifs at h <;> cases h <;> exact ⟨_, rfl⟩
  | insertOutboxEvent row =>
    simp only [eval] at h
    split_ifs at h
    cases h
    exact ⟨_, rfl⟩
  | markWebhookQueued webhookEventId =>
    simp only [eval] at h
    split at h
    · cases h
      exact ⟨_, rfl⟩
    · split_ifs at h
  | lockPaymentIntent | lockPaymentIntentByTxHash | publishProcessWebhookEvent =>
    simp only [eval] at h
    split at h <;> cases h
  | saveWebhookEvent | saveIdempotencyRecord | updateOutboxEvent | findIdempotencyRecordById | findIdempotencyRecord
  | findWebhookEventByEventId | findWebhookEventByNonce | findEligibleEvents | requeueStale => cases h

theorem eval_refused {s : Stmt} {d : Db} {held : Lock → Bool} {e : Failure} (h : eval s d held = .refused e) :
    ∃ data message reached, s = .publishProcessWebhookEvent data (.failed message reached) ∧ e = .publish message := by
  cases s with
  | publishProcessWebhookEvent data outcome =>
    cases outcome with
    | added => cases h
    | failed message reached =>
      cases h
      exact ⟨data, message, reached, rfl, rfl⟩
  | lockWebhookEvent webhookEventId =>
    simp only [eval] at h
    split at h
    · cases h
    · split at h <;> cases h
  | insertPaymentIntent entity =>
    simp only [eval] at h
    split at h
    · cases h
    · split_ifs at h
  | insertWebhookEvent paymentIntentId row =>
    simp only [eval] at h
    split at h
    · cases h
    · split_ifs at h
  | markWebhookQueued webhookEventId =>
    simp only [eval] at h
    split at h
    · cases h
    · split_ifs at h
  | lockPaymentIntent | lockPaymentIntentByTxHash =>
    simp only [eval] at h
    split at h <;> cases h
  | savePaymentIntent | insertAttempt | insertIdempotencyRecord | insertOutboxEvent =>
    simp only [eval] at h
    split_ifs at h
  | saveWebhookEvent | saveIdempotencyRecord | updateOutboxEvent | findIdempotencyRecordById | findIdempotencyRecord
  | findWebhookEventByEventId | findWebhookEventByNonce | findEligibleEvents | requeueStale => cases h

end LockDiscipline

def WebhookEvent.Evolves (e e' : WebhookEvent) : Prop :=
  e' = e.patch ⟨e'.status, e'.failureReason, e'.processedAt⟩ ∧ (e.isFinal = true → e' = e) ∧
    (e'.status = .received → e.status = .received)

def PaymentIntent.Evolves (i i' : PaymentIntent) : Prop :=
  i' = i ∨ (i.status = .created ∨ i.status = .processing) ∧
    ∃ txHash now, i' = PaymentIntent.patch ⟨.confirmed, some txHash, none, now⟩ i

def OutboxEvent.Evolves (o o' : OutboxEvent) : Prop :=
  o'.id = o.id ∧ o'.type = o.type ∧ o'.aggregateType = o.aggregateType ∧ o'.aggregateId = o.aggregateId ∧
    o'.payload = o.payload

structure Db.Evolves (d d' : Db) : Prop where
  paymentIntents : ∀ i ∈ d.paymentIntents, ∃ i' ∈ d'.paymentIntents, i.Evolves i'
  idempotencyRecords : ∀ r ∈ d.idempotencyRecords, r ∈ d'.idempotencyRecords
  webhookEvents : ∀ e ∈ d.webhookEvents, ∃ e' ∈ d'.webhookEvents, e.Evolves e'
  outboxEvents : ∀ o ∈ d.outboxEvents, ∃ o' ∈ d'.outboxEvents, o.Evolves o'
  webhookProcessingAttempts : ∀ a ∈ d.webhookProcessingAttempts, a ∈ d'.webhookProcessingAttempts

theorem WebhookEvent.Evolves.refl (e : WebhookEvent) : e.Evolves e := ⟨rfl, fun _ => rfl, fun h => h⟩

theorem WebhookEvent.Evolves.trans {a b c : WebhookEvent} (h : a.Evolves b) (h' : b.Evolves c) : a.Evolves c := by
  refine ⟨?_, ?_, fun hc => h.2.2 (h'.2.2 hc)⟩
  · rw [h'.1, h.1]
    rfl
  · intro ha
    have hb : b = a := h.2.1 ha
    rw [hb] at h'
    exact h'.2.1 ha

theorem PaymentIntent.Evolves.trans {a b c : PaymentIntent} (h : a.Evolves b) (h' : b.Evolves c) : a.Evolves c := by
  rcases h with rfl | ⟨ha, x, now, rfl⟩
  · exact h'
  · rcases h' with rfl | ⟨hb, _⟩
    · exact Or.inr ⟨ha, x, now, rfl⟩
    · simp [PaymentIntent.patch] at hb

theorem OutboxEvent.Evolves.trans {a b c : OutboxEvent} (h : a.Evolves b) (h' : b.Evolves c) : a.Evolves c :=
  ⟨h'.1.trans h.1, h'.2.1.trans h.2.1, h'.2.2.1.trans h.2.2.1, h'.2.2.2.1.trans h.2.2.2.1,
    h'.2.2.2.2.trans h.2.2.2.2⟩

namespace Db.Evolves

theorem refl (d : Db) : d.Evolves d where
  paymentIntents := fun i hi => ⟨i, hi, Or.inl rfl⟩
  idempotencyRecords := fun _ hr => hr
  webhookEvents := fun e he => ⟨e, he, WebhookEvent.Evolves.refl e⟩
  outboxEvents := fun o ho => ⟨o, ho, rfl, rfl, rfl, rfl, rfl⟩
  webhookProcessingAttempts := fun _ ha => ha

theorem trans {d₁ d₂ d₃ : Db} (h : d₁.Evolves d₂) (h' : d₂.Evolves d₃) : d₁.Evolves d₃ where
  paymentIntents := by
    intro i hi
    obtain ⟨j, hj, hij⟩ := h.paymentIntents i hi
    obtain ⟨k, hk, hjk⟩ := h'.paymentIntents j hj
    exact ⟨k, hk, hij.trans hjk⟩
  idempotencyRecords := fun r hr => h'.idempotencyRecords r (h.idempotencyRecords r hr)
  webhookEvents := by
    intro e he
    obtain ⟨f, hf, hef⟩ := h.webhookEvents e he
    obtain ⟨g, hg, hfg⟩ := h'.webhookEvents f hf
    exact ⟨g, hg, hef.trans hfg⟩
  outboxEvents := by
    intro o ho
    obtain ⟨p, hp, hop⟩ := h.outboxEvents o ho
    obtain ⟨q, hq, hpq⟩ := h'.outboxEvents p hp
    exact ⟨q, hq, hop.trans hpq⟩
  webhookProcessingAttempts := fun a ha => h'.webhookProcessingAttempts a (h.webhookProcessingAttempts a ha)

end Db.Evolves

def discipline : Discipline engine where
  touches := LockDiscipline.touches
  Keeps := LockDiscipline.Keeps
  keeps_refl := LockDiscipline.keeps_refl
  keeps_trans := LockDiscipline.keeps_trans
  keeps_apply := LockDiscipline.keeps_apply
  eval_touches := LockDiscipline.eval_touches
  Inv w := w.db.Indexes
  Evolves w w' := w.db.Evolves w'.db ∧ ∀ j ∈ w.emitted, j ∈ w'.emitted
  evolves_refl w := ⟨Db.Evolves.refl w.db, fun _ hj => hj⟩
  evolves_trans h h' := ⟨h.1.trans h'.1, fun j hj => h'.2 j (h.2 j hj)⟩
  inv_emit _ h := h
  evolves_emit w js := ⟨Db.Evolves.refl w.db, fun _ hj => List.mem_append_left js hj⟩
  Fault e := ∃ x, e = .database x

end EventGateway
