import EventGateway.LockDiscipline

namespace EventGateway

open KeyedTable TransactionProgram Interleaving RelyGuarantee Statements

variable {held : Lock → Prop} {w w' : World Db JobData} {ws : List Write}

theorem keepsRow_view_webhookEvents {id : Uuid} {d d' : Db}
    (h : Table.KeepsRow id d.webhookEvents d'.webhookEvents) (ws : List Write) :
    Table.KeepsRow id (engine.view d ws).webhookEvents (engine.view d' ws).webhookEvents := by
  induction ws generalizing d d' with
  | nil => exact h
  | cons w ws ih =>
    apply ih
    cases w with
    | insertWebhookEvent row => exact h.insert_both row
    | saveWebhookEvent j p => exact h.update_both j p.change
    | markWebhookQueued j => exact h.update_both j queued
    | _ => exact h

theorem keepsRow_view_idempotencyRecords {id : Uuid} {d d' : Db}
    (h : Table.KeepsRow id d.idempotencyRecords d'.idempotencyRecords) (ws : List Write) :
    Table.KeepsRow id (engine.view d ws).idempotencyRecords (engine.view d' ws).idempotencyRecords := by
  induction ws generalizing d d' with
  | nil => exact h
  | cons w ws ih =>
    apply ih
    cases w with
    | insertIdempotencyRecord row => exact h.insert_both row
    | saveIdempotencyRecord j p => exact h.update_both j p.change
    | _ => exact h

theorem keepsRow_view_paymentIntents {id : Uuid} {d d' : Db}
    (h : Table.KeepsRow id d.paymentIntents d'.paymentIntents) (ws : List Write) :
    Table.KeepsRow id (engine.view d ws).paymentIntents (engine.view d' ws).paymentIntents := by
  induction ws generalizing d d' with
  | nil => exact h
  | cons w ws ih =>
    apply ih
    cases w with
    | insertPaymentIntent row => exact h.insert_both row
    | savePaymentIntent j p => exact h.update_both j p.change
    | _ => exact h

theorem eval_not_refused {s : Stmt} (hs : ∀ data outcome, s ≠ .publishProcessWebhookEvent data outcome) (d : Db)
    (others : Lock → Bool) (e : Failure) : engine.eval s d others ≠ .refused e := by
  intro h
  obtain ⟨data, message, reached, he, _⟩ := LockDiscipline.eval_refused h
  exact hs _ _ he

theorem eval_faults (s : Stmt) (d : Db) (others : Lock → Bool) (e : Failure) (h : engine.eval s d others = .fault e) :
    discipline.Fault e :=
  LockDiscipline.eval_fault h

def Serial {α : Type} (p : Script α) (r : α) (w : World Db JobData) (d : Db) : Prop :=
  (engine.transaction p w.db).result = .ok r ∧ (engine.transaction p w.db).db = d

section Stable

variable {R : Type}

theorem stable_lockWebhookEvent {t : Text} {f : Option WebhookEvent → Script R} {others : Lock → Bool}
    {e : WebhookEvent} {ws' : List Write} {ls : List Lock}
    (h : engine.eval (.lockWebhookEvent t) (engine.view w.db ws) others = .ok (some e) ws' ls) :
    Stable discipline (.lockWebhookEvent t) f (fun l => held l ∨ l ∈ ls) ws (some e) ws' w := by
  intro w' hr
  simp only [engine_eval, eval] at h
  cases hp : Uuid.parse t with
  | none => rw [hp] at h; cases h
  | some id =>
    simp only [hp] at h
    cases hg : (engine.view w.db ws).webhookEvents.get id with
    | none => simp [hg] at h
    | some x =>
      simp only [hg] at h
      cases h
      have hk : Table.KeepsRow id w.db.webhookEvents w'.db.webhookEvents :=
        hr.2.2 (.webhookEvent id) (Or.inr (by simp))
      have hg' : (engine.view w'.db ws).webhookEvents.get id = some e := by
        rw [keepsRow_view_webhookEvents hk ws, hg]
      exact ⟨some e, [.webhookEvent id], by simp only [engine_eval, eval, hp, hg'], rfl⟩

theorem stable_saveWebhookEvent {id : Uuid} {p : WebhookEventPatch} {f : Unit → Script R} {others : Lock → Bool}
    {a : Unit} {ws' : List Write} {ls : List Lock} {d : Db}
    (h : engine.eval (.saveWebhookEvent id p) d others = .ok a ws' ls) :
    Stable discipline (.saveWebhookEvent id p) f held ws a ws' w := by
  intro w' _
  cases h
  exact ⟨(), _, rfl, rfl⟩

theorem stable_insertAttempt {row : WebhookProcessingAttempt} {f : Unit → Script R} {others : Lock → Bool}
    {a : Unit} {ws' : List Write} {ls : List Lock}
    (h : engine.eval (.insertAttempt row) (engine.view w.db ws) others = .ok a ws' ls) :
    Stable discipline (.insertAttempt row) f (fun l => held l ∨ l ∈ ls) ws a ws' w := by
  intro w' hr
  simp only [engine_eval, eval] at h
  split_ifs at h with hc hn
  cases h
  have hk : Table.KeepsRow row.webhookEventId w.db.webhookEvents w'.db.webhookEvents :=
    hr.2.2 (.webhookEvent row.webhookEventId) (Or.inr (by simp))
  have hn' : ((engine.view w'.db ws).webhookEvents.get row.webhookEventId).isNone = false := by
    rw [keepsRow_view_webhookEvents hk ws]
    exact Bool.eq_false_iff.mpr hn
  refine ⟨(), [.webhookEvent row.webhookEventId], ?_, rfl⟩
  simp only [engine_eval, eval, hc, hn', Bool.false_eq_true, ↓reduceIte]

theorem stable_lockPaymentIntent {id : Uuid} {f : Option PaymentIntentEntity → Script R} {others : Lock → Bool}
    {i : PaymentIntentEntity} {ws' : List Write} {ls : List Lock}
    (h : engine.eval (.lockPaymentIntent id) (engine.view w.db ws) others = .ok (some i) ws' ls) :
    Stable discipline (.lockPaymentIntent id) f (fun l => held l ∨ l ∈ ls) ws (some i) ws' w := by
  intro w' hr
  simp only [engine_eval, eval] at h
  cases hg : (engine.view w.db ws).paymentIntents.get id with
  | none => simp [hg] at h
  | some x =>
    simp only [hg] at h
    cases h
    have hk : Table.KeepsRow id w.db.paymentIntents w'.db.paymentIntents :=
      hr.2.2 (.paymentIntent id) (Or.inr (by simp))
    have hg' : (engine.view w'.db ws).paymentIntents.get id = some x := by
      rw [keepsRow_view_paymentIntents hk ws, hg]
    exact ⟨some x.load, [.paymentIntent id], by simp only [engine_eval, eval, hg'], rfl⟩

theorem stable_lockPaymentIntentByTxHash {txHash : Text} {f : Option PaymentIntentEntity → Script R}
    {others : Lock → Bool} {i : PaymentIntentEntity} {ws' : List Write} {ls : List Lock}
    (hws : ∀ d, (engine.view d ws).paymentIntents = d.paymentIntents)
    (h : engine.eval (.lockPaymentIntentByTxHash txHash) (engine.view w.db ws) others = .ok (some i) ws' ls) :
    Stable discipline (.lockPaymentIntentByTxHash txHash) f (fun l => held l ∨ l ∈ ls) ws (some i) ws' w := by
  -- at most one intent holds a hash, so one that is locked is still the one that is found
  intro w' hr
  simp only [engine_eval, eval, hws] at h
  cases hf : w.db.paymentIntents.find (fun i => i.confirmedTxHash = some txHash) with
  | none => simp [hf] at h
  | some x =>
    simp only [hf] at h
    cases h
    have hk : w'.db.paymentIntents.get x.id = w.db.paymentIntents.get x.id :=
      hr.2.2 (.paymentIntent x.id) (Or.inr (by simp))
    have hx : w'.db.paymentIntents.get x.id = some x := by
      rw [hk]
      exact Table.get_of_mem (Table.mem_of_find hf)
    have hhash : x.confirmedTxHash = some txHash := by simpa using Table.find_holds hf
    have hindexes : w'.db.Indexes := hr.1
    have hf' : w'.db.paymentIntents.find (fun i => i.confirmedTxHash = some txHash) = some x := by
      apply Table.find_eq_some_of_unique (Table.mem_of_get hx) (by simpa using hhash)
      intro y hy hyh
      exact hindexes.confirmedTxHash y hy x (Table.mem_of_get hx) txHash (by simpa using hyh) hhash
    exact ⟨some x.load, [.paymentIntent x.id], by simp only [engine_eval, eval, hws, hf'], rfl⟩

end Stable

end EventGateway
