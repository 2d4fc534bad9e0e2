import EventGateway.ConfirmationSafety
import EventGateway.OutboxDelivery
import EventGateway.StatementGuards

namespace EventGateway

open KeyedTable TransactionProgram Interleaving RelyGuarantee Statements

section Holdings

def HoldsEvents (held : Lock → Prop) : Prop := ∀ l, held l → ∃ id, l = .webhookEvent id

def HoldsIntents (held : Lock → Prop) (d : Db) : Prop :=
  ∀ l, held l → (∃ id, l = .webhookEvent id) ∨ ∃ i ∈ d.paymentIntents, l = .paymentIntent i.id ∧ i.confirmedTxHash = none

def HoldsRows (held : Lock → Prop) (d : Db) : Prop :=
  ∀ l, held l → ∃ o ∈ d.outboxEvents, held (.outboxEvent o.id) ∧ (l = .outboxEvent o.id ∨ l = .webhookEvent o.aggregateId)

def HoldsRecord (held : Lock → Prop) : Prop :=
  ∀ l, held l → (∃ id, l = .idempotencyRecord id) ∨ ∃ scope key, l = .idempotencyKey scope key

def HoldsNewEvent (held : Lock → Prop) (d : Db) : Prop :=
  ∀ l, held l → (∃ id, l = .webhookEvent id ∧ d.webhookEvents.get id = none) ∨
    (∃ provider eventId, l = .externalEventId provider eventId) ∨ ∃ provider nonce, l = .nonce provider nonce

def Guard (s : Stmt) (held : Lock → Prop) (ws : List Write) (w : World Db JobData) : Prop :=
  match s with
  | .lockWebhookEvent _ | .insertIdempotencyRecord _ | .insertWebhookEvent _ _ => ∀ l, ¬ held l
  | .saveWebhookEvent id _ => held (.webhookEvent id)
  | .insertAttempt row => held (.webhookEvent row.webhookEventId)
  | .lockPaymentIntent _ => HoldsEvents held ∧ (engine.view w.db ws).paymentIntents = w.db.paymentIntents
  | .lockPaymentIntentByTxHash _ => HoldsIntents held w.db ∧ (engine.view w.db ws).paymentIntents = w.db.paymentIntents
  | .savePaymentIntent id _ => HoldsIntents held w.db ∧ held (.paymentIntent id)
  | .insertPaymentIntent _ => HoldsRecord held ∧ (engine.view w.db ws).paymentIntents = w.db.paymentIntents
  | .saveIdempotencyRecord id _ => held (.idempotencyRecord id)
  | .insertOutboxEvent _ => HoldsNewEvent held w.db ∧ (engine.view w.db ws).outboxEvents = w.db.outboxEvents
  | .markWebhookQueued webhookEventId => HoldsRows held w.db ∧
      ∃ o ∈ w.db.outboxEvents, held (.outboxEvent o.id) ∧ Uuid.parse webhookEventId = some o.aggregateId
  | .updateOutboxEvent id _ _ => held (.outboxEvent id)
  | .findIdempotencyRecordById _ | .findIdempotencyRecord _ _ | .findWebhookEventByEventId _ _
  | .findWebhookEventByNonce _ _ | .findEligibleEvents _ _ _ _ | .publishProcessWebhookEvent _ _
  | .requeueStale _ _ _ _ _ _ _ => True

def Consistent (w : World Db JobData) : Prop := (∃ js, OutboxInv w.db js) ∧ ConfirmationInv w.db

variable {held : Lock → Prop} {w w' : World Db JobData}

theorem HoldsIntents.later (h : HoldsIntents held w.db) (hr : discipline.Rely held w w') : HoldsIntents held w'.db := by
  intro l hl
  rcases h l hl with hevent | ⟨i, hi, rfl, hnone⟩
  · exact Or.inl hevent
  · have hrow : w'.db.paymentIntents.get i.id = w.db.paymentIntents.get i.id := hr.2.2 (.paymentIntent i.id) hl
    refine Or.inr ⟨i, ?_, rfl, hnone⟩
    apply Table.mem_of_get (k := i.id)
    rw [hrow]
    exact Table.get_of_mem hi

theorem HoldsRows.later (h : HoldsRows held w.db) (hr : discipline.Rely held w w') : HoldsRows held w'.db := by
  intro l hl
  obtain ⟨o, ho, hlock, hcases⟩ := h l hl
  exact ⟨o, OutboxDispatcher.mem_outboxEvents_of_rely ho hlock hr, hlock, hcases⟩

theorem HoldsNewEvent.later (h : HoldsNewEvent held w.db) (hr : discipline.Rely held w w') : HoldsNewEvent held w'.db := by
  intro l hl
  rcases h l hl with ⟨id, rfl, hnone⟩ | hkeys
  · have hrow : w'.db.webhookEvents.get id = w.db.webhookEvents.get id := hr.2.2 (.webhookEvent id) hl
    exact Or.inl ⟨id, rfl, hrow.trans hnone⟩
  · exact Or.inr hkeys

theorem HoldsRows.add {d : Db} {o : OutboxEvent} {ls : List Lock} (h : HoldsRows held d) (ho : o ∈ d.outboxEvents)
    (hlock : held (.outboxEvent o.id)) (hls : ∀ l ∈ ls, l = .outboxEvent o.id ∨ l = .webhookEvent o.aggregateId) :
    HoldsRows (fun l => held l ∨ l ∈ ls) d := by
  rintro l (hl | hl)
  · obtain ⟨o', ho', hlock', hcases⟩ := h l hl
    exact ⟨o', ho', Or.inl hlock', hcases⟩
  · exact ⟨o, ho, Or.inl hlock, hls l hl⟩

end Holdings

abbrev Guarded {α : Type} (p : Script α) (held : Lock → Prop) (ws : List Write) (w : World Db JobData)
    (Q : α → (Lock → Prop) → List Write → World Db JobData → Prop) : Prop :=
  guarded discipline Consistent Guard p held ws w Q (fun _ _ _ _ => True)

def anyEnd {α : Type} : α → (Lock → Prop) → List Write → World Db JobData → Prop := fun _ _ _ _ => True

namespace WebhookEventProcessor

variable {input : ProcessWebhookEventInput} {clock : Clock} {held : Lock → Prop} {ws : List Write} {w : World Db JobData}

theorem guarded_insertAttempt {id : Uuid} {status : WebhookProcessingAttemptStatus} {msg : Option Text}
    {r : ProcessingResult} (h : held (.webhookEvent id)) :
    Guarded (insertAttempt input clock id status msg >>= fun _ => .ret r) held ws w anyEnd := by
  apply guarded_call
  · exact fun _ _ _ => h
  · exact fun _ _ _ _ _ _ _ _ => trivial
  · exact fun _ _ _ _ _ _ => trivial

theorem guarded_settle {id : Uuid} {p : WebhookEventPatch} {status : WebhookProcessingAttemptStatus} {msg : Option Text}
    {r : ProcessingResult} (h : held (.webhookEvent id)) :
    Guarded (query (.saveWebhookEvent id p) >>= fun _ => insertAttempt input clock id status msg >>= fun _ => .ret r)
      held ws w anyEnd := by
  apply guarded_call
  · exact fun _ _ _ => h
  · exact fun _ _ _ _ _ _ _ _ => guarded_insertAttempt (Or.inl h)
  · exact fun _ _ _ _ _ _ => trivial

theorem guarded_confirm {e : WebhookEvent} {i : PaymentIntentEntity} {txHash : Text} (he : held (.webhookEvent e.id))
    (hi : held (.paymentIntent i.id)) (hheld : HoldsIntents held w.db)
    (hview : ∀ d, (engine.view d ws).paymentIntents = d.paymentIntents) :
    Guarded (confirm input clock e i txHash) held ws w anyEnd := by
  have hsave {held' : Lock → Prop} {ws' : List Write} {w' : World Db JobData} (he' : held' (.webhookEvent e.id))
      (hi' : held' (.paymentIntent i.id)) (hheld' : HoldsIntents held' w'.db) :
      Guarded (do
        query (.savePaymentIntent i.id ⟨.confirmed, some txHash, none, clock.now⟩)
        markWebhookProcessed input clock e) held' ws' w' anyEnd := by
    apply guarded_call
    · exact fun w₁ hr _ => ⟨hheld'.later hr, hi'⟩
    · exact fun _ _ _ _ _ _ _ _ => guarded_settle (Or.inl he')
    · exact fun _ _ _ _ _ _ => trivial
  apply guarded_call
  · exact fun w₁ hr _ => ⟨hheld.later hr, hview w₁.db⟩
  · intro w₁ others a ws₁ ls hr hG heval
    simp only [engine_eval, eval, hview] at heval
    split at heval
    · cases heval
      apply hsave (Or.inl he) (Or.inl hi)
      intro l hl
      exact hheld.later hr l (by simpa using hl)
    · rename_i found hfind
      cases heval
      by_cases hid : found.load.id = i.id
      swap
      · simp only [hid, ne_eq, not_false_eq_true, ↓reduceIte]
        exact guarded_settle (Or.inl he)
      -- the intent that is being confirmed has no hash yet
      exfalso
      rcases hheld.later hr _ hi with ⟨id, hcontra⟩ | ⟨j, hj, hlock, hnone⟩
      · cases hcontra
      · have hkey : key found = key j := hid.trans (Lock.paymentIntent.inj hlock)
        have hhash := Table.find_holds hfind
        rw [Table.eq_of_key (Table.mem_of_find hfind) hj hkey] at hhash
        simp [hnone] at hhash
  · exact fun _ _ _ _ _ _ => trivial

theorem guarded_applyToMatchingIntent {e : WebhookEvent} {i : PaymentIntentEntity} {txHash : Text}
    (he : held (.webhookEvent e.id)) (hi : held (.paymentIntent i.id))
    (hheld : i.status = .created ∨ i.status = .processing → HoldsIntents held w.db)
    (hview : ∀ d, (engine.view d ws).paymentIntents = d.paymentIntents) :
    Guarded (applyToMatchingIntent input clock e i txHash) held ws w anyEnd := by
  unfold applyToMatchingIntent
  split
  · split_ifs
    · exact guarded_settle he
    · exact guarded_settle he
  · exact guarded_settle he
  · exact guarded_settle he
  · rename_i hs
    exact guarded_confirm he hi (hheld (Or.inl hs)) hview
  · rename_i hs
    exact guarded_confirm he hi (hheld (Or.inr hs)) hview

theorem guarded_validated {e : WebhookEvent} {i : PaymentIntentEntity} {txHash : Text}
    (he : held (.webhookEvent e.id)) (hi : held (.paymentIntent i.id))
    (hheld : i.status = .created ∨ i.status = .processing → HoldsIntents held w.db)
    (hview : ∀ d, (engine.view d ws).paymentIntents = d.paymentIntents) :
    Guarded (match validatePayloadMatchesPaymentIntent e.payload i with
      | .error x => throw x
      | .ok (some reason) => failWebhookEvent input clock e reason
      | .ok none => applyToMatchingIntent input clock e i txHash) held ws w anyEnd := by
  split
  · trivial
  · exact guarded_settle he
  · exact guarded_applyToMatchingIntent he hi hheld hview

theorem guarded_applyProcessingRules {e : WebhookEvent} (he : held (.webhookEvent e.id)) (hheld : HoldsEvents held)
    (hview : ∀ d, (engine.view d ws).paymentIntents = d.paymentIntents) :
    Guarded (applyProcessingRules input clock e) held ws w anyEnd := by
  unfold applyProcessingRules
  simp only
  split_ifs
  · exact guarded_settle he
  split
  · exact guarded_settle he
  split_ifs
  · exact guarded_settle he
  apply guarded_bind
  unfold lockPaymentIntent
  split
  · exact guarded_settle he
  rename_i id _
  apply guarded_call (f := fun a => Prog.ret a)
  · exact fun w₁ hr _ => ⟨hheld, hview w₁.db⟩
  · intro w₁ others a ws₁ ls hr hG heval
    simp only [engine_eval, eval, hview] at heval
    split at heval
    · cases heval
      exact guarded_settle (Or.inl he)
    · rename_i i hget
      cases heval
      have hid : i.load.id = id := Table.key_of_get hget
      rw [List.append_nil]
      apply guarded_validated (Or.inl he)
      · exact Or.inr (by simp [hid])
      · intro hs l hl
        rcases hl with hl | hl
        · exact Or.inl (hheld l hl)
        refine Or.inr ⟨i, Table.mem_of_get hget, ?_, ?_⟩
        · rw [List.mem_singleton.mp hl, ← hid]
          rfl
        rcases hG.2.intents i (Table.mem_of_get hget) with hun | ⟨e', -, hconf⟩
        · exact hun.2
        · have hstatus : i.load.status = .confirmed := hconf.confirmed
          rw [hstatus] at hs
          simp at hs
      · exact hview
  · exact fun _ _ _ _ _ _ => trivial

theorem guarded_processLockedEvent {e : WebhookEvent} (he : held (.webhookEvent e.id)) (hheld : HoldsEvents held)
    (hws : ws = []) : Guarded (processLockedEvent input clock e) held ws w anyEnd := by
  have hrules : Guarded (do
      query (.saveWebhookEvent e.id ⟨.processing, none, none⟩)
      applyProcessingRules input clock e) held ws w anyEnd := by
    apply guarded_call
    · exact fun _ _ _ => he
    · intro w₁ others a ws₁ ls hr hG heval
      cases heval
      apply guarded_applyProcessingRules (Or.inl he)
      · rintro l (hl | hl)
        · exact hheld l hl
        · exact ⟨e.id, List.mem_singleton.mp hl⟩
      · intro d
        rw [hws]
        rfl
    · exact fun _ _ _ _ _ _ => trivial
  unfold processLockedEvent
  split
  · exact guarded_insertAttempt he
  · exact guarded_insertAttempt he
  · exact hrules

theorem guarded_process (input : ProcessWebhookEventInput) (clock : Clock) (w : World Db JobData) :
    Guarded (processWebhookEvent input clock) (fun _ => False) [] w anyEnd := by
  apply guarded_bind
  apply guarded_call
  · exact fun _ _ _ _ hl => hl
  · intro w₁ others a ws₁ ls hr hG heval
    simp only [engine_eval, eval] at heval
    split at heval
    · cases heval
    split at heval
    · cases heval
      trivial
    · rename_i id _ _ e hget
      cases heval
      have hid : e.id = id := Table.key_of_get hget
      apply guarded_processLockedEvent
      · exact Or.inr (by simp [hid])
      · rintro l (hl | hl)
        · exact hl.elim
        · exact ⟨id, List.mem_singleton.mp hl⟩
      · rfl
  · exact fun _ _ _ _ _ _ => trivial

end WebhookEventProcessor

namespace OutboxDispatcher

variable {run : DispatchRun} {held : Lock → Prop} {ws : List Write} {w w' : World Db JobData} {rows : List OutboxEvent}
  {o : OutboxEvent}

structure Batch (rows : List OutboxEvent) (held : Lock → Prop) (d : Db) : Prop where
  holds : HoldsRows held d
  rows : ∀ o ∈ rows, o ∈ d.outboxEvents ∧ held (.outboxEvent o.id)

theorem Batch.later (h : Batch rows held w.db) (hr : discipline.Rely held w w') : Batch rows held w'.db :=
  ⟨h.holds.later hr, fun o ho => ⟨mem_outboxEvents_of_rely (h.rows o ho).1 (h.rows o ho).2 hr, (h.rows o ho).2⟩⟩

theorem Batch.tail {d : Db} (h : Batch (o :: rows) held d) : Batch rows held d :=
  ⟨h.holds, fun o' ho' => h.rows o' (List.mem_cons_of_mem o ho')⟩

theorem Batch.add {d : Db} {ls : List Lock} (h : Batch (o :: rows) held d)
    (hls : ∀ l ∈ ls, l = .outboxEvent o.id ∨ l = .webhookEvent o.aggregateId) :
    Batch (o :: rows) (fun l => held l ∨ l ∈ ls) d := by
  obtain ⟨ho, hlock⟩ := h.rows o List.mem_cons_self
  exact ⟨h.holds.add ho hlock hls, fun o' ho' => ⟨(h.rows o' ho').1, Or.inl (h.rows o' ho').2⟩⟩

theorem guarded_updateOutboxEvent {α : Type} {p : OutboxEventPatch} {now : Time} {f : Unit → Script α}
    {Q : α → (Lock → Prop) → List Write → World Db JobData → Prop}
    {X : Failure → (Lock → Prop) → List Write → World Db JobData → Prop} (h : Batch (o :: rows) held w.db)
    (hok : ∀ held₁ ws₁ w₁, Batch rows held₁ w₁.db → guarded discipline Consistent Guard (f ()) held₁ ws₁ w₁ Q X) :
    guarded discipline Consistent Guard (query (.updateOutboxEvent o.id p now) >>= f) held ws w Q X := by
  apply guarded_call
  · exact fun _ _ _ => (h.rows o List.mem_cons_self).2
  · intro w₁ others a ws₁ ls hr hG heval
    cases heval
    apply hok
    have hadd : Batch (o :: rows) (fun l => held l ∨ l ∈ [Lock.outboxEvent o.id]) w₁.db :=
      (h.later hr).add (fun l hl => Or.inl (List.mem_singleton.mp hl))
    exact hadd.tail
  · exact fun _ _ e _ _ he => absurd he (eval_not_refused (by simp) _ _ e)

theorem guarded_publishOutboxEvent {data : JobData} {Q : Bool → (Lock → Prop) → List Write → World Db JobData → Prop}
    (h : Batch (o :: rows) held w.db) (hd : toJobData o = .ok data)
    (hok : ∀ b held₁ ws₁ w₁, Batch rows held₁ w₁.db → Q b held₁ ws₁ w₁) :
    Guarded (publishOutboxEvent run o data) held ws w Q := by
  apply guarded_tryCatch
  apply guarded_call
  · exact fun _ _ _ => trivial
  · intro w₁ others a ws₁ ls hr hG heval
    have hlocks : ls = [] := by
      cases hout : run.outcome o.id with
      | added =>
        rw [hout] at heval
        cases heval
        rfl
      | failed message reached =>
        rw [hout] at heval
        cases heval
    subst hlocks
    have hbatch : Batch (o :: rows) (fun l => held l ∨ l ∈ ([] : List Lock)) w₁.db :=
      (h.later hr).add (fun l hl => by cases hl)
    -- the payload of the row names the event that the row announces
    have hparse (d : Db) (hinv : ∃ js, OutboxInv d js) (ho : o ∈ d.outboxEvents) :
        Uuid.parse data.webhookEventId = some o.aggregateId := by
      obtain ⟨js, hinv⟩ := hinv
      obtain ⟨c, hc⟩ := toJobData_of_deliverable (hinv.rows o ho)
      rw [hd] at hc
      rw [Except.ok.inj hc]
      exact Uuid.parse_render o.aggregateId
    apply guarded_call
    · intro w₂ hr₂ hG₂
      have hlater := Batch.later (w := w₁.emit _) hbatch hr₂
      obtain ⟨ho, hlock⟩ := hlater.rows o List.mem_cons_self
      exact ⟨hlater.holds, o, ho, hlock, hparse w₂.db hG₂.1 ho⟩
    · intro w₂ others₂ a₂ ws₂ ls₂ hr₂ hG₂ heval₂
      have hlater := Batch.later (w := w₁.emit _) hbatch hr₂
      have hnext : Batch (o :: rows) (fun l => (held l ∨ l ∈ ([] : List Lock)) ∨ l ∈ ls₂) w₂.db := by
        apply hlater.add
        intro l hl
        obtain ⟨ho, -⟩ := hlater.rows o List.mem_cons_self
        simp only [engine_eval, eval, hparse w₂.db hG₂.1 ho] at heval₂
        split_ifs at heval₂
        · cases heval₂
          exact Or.inr (List.mem_singleton.mp hl)
        · cases heval₂
          cases hl
      apply guarded_updateOutboxEvent (w := w₂.emit _) hnext
      exact fun held₃ ws₃ w₃ hb => hok true held₃ ws₃ w₃ hb
    · exact fun _ _ e _ _ he => absurd he (eval_not_refused (by simp) _ _ e)
  · intro w₁ others e hr hG heval
    have hlater := h.later hr
    apply guarded_updateOutboxEvent (w := w₁.emit _) hlater
    exact fun held₃ ws₃ w₃ hb => hok false held₃ ws₃ w₃ hb

theorem guarded_dispatchEvents {result : OutboxDispatchBatchResult} (h : Batch rows held w.db) :
    Guarded (dispatchEvents run rows result) held ws w anyEnd := by
  induction rows generalizing held ws w result with
  | nil => trivial
  | cons o rows ih =>
    unfold dispatchEvents
    split
    · exact guarded_updateOutboxEvent h (fun _ _ _ hb => ih hb)
    · exact guarded_updateOutboxEvent h (fun _ _ _ hb => ih hb)
    · rename_i data hd
      apply guarded_bind
      apply guarded_publishOutboxEvent h hd
      intro b held₁ ws₁ w₁ hb
      cases b with
      | true => exact ih hb
      | false => trivial

theorem guarded_dispatchBatch (run : DispatchRun) (w : World Db JobData) :
    Guarded (dispatchBatch run) (fun _ => False) [] w anyEnd := by
  apply guarded_call
  · exact fun _ _ _ => trivial
  · intro w₁ others rows ws₁ ls hr hG heval
    cases heval
    apply guarded_dispatchEvents
    have hmem (o : OutboxEvent) (ho : o ∈ eligibleEvents (engine.view w₁.db []) others processWebhookOutboxType run.limit
        run.now run.hidden) : o ∈ w₁.db.outboxEvents := (mem_eligibleEvents ho).1
    refine ⟨?_, fun o ho => ⟨hmem o ho, Or.inr (List.mem_map_of_mem ho)⟩⟩
    rintro l (hl | hl)
    · exact hl.elim
    · obtain ⟨o, ho, rfl⟩ := List.mem_map.mp hl
      exact ⟨o, hmem o ho, Or.inr hl, Or.inl rfl⟩
  · exact fun _ _ _ _ _ _ => trivial

theorem guarded_reconcile (run : ReconcileRun) (w : World Db JobData) :
    Guarded (reconcileStalePublishedEvents run) (fun _ => False) [] w anyEnd := by
  apply guarded_call
  · exact fun _ _ _ => trivial
  · exact fun _ _ _ _ _ _ _ _ => trivial
  · exact fun _ _ _ _ _ _ => trivial

end OutboxDispatcher

namespace WebhookEvents

variable {rt : Runtime} {nonce : Text} {dto : BlockchainWebhookDto} {held : Lock → Prop} {ws : List Write}
  {w : World Db JobData}

theorem guarded_replayOrRejectConflict : Guarded (replayOrRejectConflict rt nonce dto) held ws w anyEnd := by
  apply guarded_call
  · exact fun _ _ _ => trivial
  · intro w₁ others a ws₁ ls _ _ _
    cases a with
    | some e =>
      change Guarded (if _ then _ else _) _ _ _ _
      split_ifs
      · trivial
      · trivial
    | none =>
      apply guarded_call
      · exact fun _ _ _ => trivial
      · intro w₂ others₂ a₂ ws₂ ls₂ _ _ _
        cases a₂ <;> trivial
      · exact fun _ _ _ _ _ _ => trivial
  · exact fun _ _ _ _ _ _ => trivial

theorem guarded_persist (fresh : Fresh) (w : World Db JobData) :
    Guarded (persist rt nonce dto fresh) (fun _ => False) [] w anyEnd := by
  apply guarded_call
  · exact fun _ _ _ _ hl => hl
  · intro w₁ others a ws₁ ls hr hG heval
    simp only [engine_eval, eval] at heval
    split at heval
    · cases heval
    split_ifs at heval with hlong hconflict hid
    · cases heval
      exact guarded_replayOrRejectConflict
    · cases heval
      have hnew : HoldsNewEvent (fun l => False ∨ l ∈ .webhookEvent (newWebhookEvent rt nonce dto fresh).id ::
          .externalEventId (newWebhookEvent rt nonce dto fresh).provider (newWebhookEvent rt nonce dto fresh).externalEventId ::
          nonceLock (newWebhookEvent rt nonce dto fresh)) w₁.db := by
        rintro l (hl | hl)
        · exact hl.elim
        rcases List.mem_cons.mp hl with rfl | hl
        · exact Or.inl ⟨_, rfl, by simpa using hid⟩
        rcases List.mem_cons.mp hl with rfl | hl
        · exact Or.inr (Or.inl ⟨_, _, rfl⟩)
        · simp only [nonceLock, newWebhookEvent, Option.map_some, Option.toList_some, List.mem_singleton] at hl
          exact Or.inr (Or.inr ⟨_, _, hl⟩)
      apply guarded_call
      · exact fun w₂ hr₂ _ => ⟨HoldsNewEvent.later (w := w₁.emit _) hnew hr₂, rfl⟩
      · exact fun _ _ _ _ _ _ _ _ => trivial
      · exact fun _ _ _ _ _ _ => trivial
  · exact fun _ _ _ _ _ _ => trivial

end WebhookEvents

namespace PaymentIntents

variable {rt : Runtime} {key : Text} {dto : CreatePaymentIntentDto} {held : Lock → Prop} {ws : List Write}
  {w : World Db JobData}

theorem guarded_replayOrRejectConflict {hash : Text} : Guarded (replayOrRejectConflict key hash) held ws w anyEnd := by
  apply guarded_call
  · exact fun _ _ _ => trivial
  · intro w₁ others a ws₁ ls _ _ _
    cases a with
    | none => trivial
    | some r =>
      change Guarded (if _ then _ else _) _ _ _ _
      split_ifs
      · trivial
      · split <;> trivial
  · exact fun _ _ _ _ _ _ => trivial

theorem guarded_create (fresh : Fresh) (w : World Db JobData) :
    Guarded (createPaymentIntent rt key dto fresh) (fun _ => False) [] w anyEnd := by
  apply guarded_call
  · exact fun _ _ _ _ hl => hl
  · intro w₁ others a ws₁ ls hr hG heval
    simp only [engine_eval, eval] at heval
    split_ifs at heval with htaken hid
    · cases heval
      exact guarded_replayOrRejectConflict
    · cases heval
      apply guarded_call
      · refine fun w₂ _ _ => ⟨?_, rfl⟩
        rintro l (hl | hl)
        · exact hl.elim
        rcases List.mem_cons.mp hl with rfl | hl
        · exact Or.inl ⟨_, rfl⟩
        · exact Or.inr ⟨_, _, List.mem_singleton.mp hl⟩
      · intro w₂ others₂ a₂ ws₂ ls₂ _ _ _
        apply guarded_call
        · exact fun _ _ _ => trivial
        · intro w₃ others₃ a₃ ws₃ ls₃ _ _ heval₃
          cases a₃ with
          | none => trivial
          | some record =>
            have hrecord : record.id = (newRecord key (requestHash rt dto) fresh).id := by
              simp only [engine_eval, eval, Reply.ok.injEq] at heval₃
              exact Table.key_of_get heval₃.1
            apply guarded_call
            · exact fun _ _ _ => Or.inl (Or.inl (Or.inr (by simp [hrecord])))
            · exact fun _ _ _ _ _ _ _ _ => trivial
            · exact fun _ _ _ _ _ _ => trivial
        · exact fun _ _ _ _ _ _ => trivial
      · exact fun _ _ _ _ _ _ => trivial
  · exact fun _ _ _ _ _ _ => trivial

end PaymentIntents

theorem Request.guarded {rt : Runtime} (q : Request) (w : World Db JobData) :
    Guarded (q.script rt) (fun _ => False) [] w anyEnd := by
  cases q with
  | createPaymentIntent key dto fresh =>
    apply guarded_bind
    exact guarded_mono (PaymentIntents.guarded_create fresh w) (fun _ _ _ _ _ => trivial) (fun _ _ _ _ h => h)
  | acceptBlockchainWebhook config request fresh =>
    apply guarded_bind
    unfold WebhookEvents.acceptBlockchainWebhook
    split
    · trivial
    · apply guarded_bind
      exact guarded_mono (WebhookEvents.guarded_persist fresh w) (fun _ _ _ _ _ => trivial) (fun _ _ _ _ h => h)
  | dispatchBatch run =>
    apply guarded_bind
    exact guarded_mono (OutboxDispatcher.guarded_dispatchBatch run w) (fun _ _ _ _ _ => trivial) (fun _ _ _ _ h => h)
  | reconcileStalePublishedEvents run =>
    apply guarded_bind
    exact guarded_mono (OutboxDispatcher.guarded_reconcile run w) (fun _ _ _ _ _ => trivial) (fun _ _ _ _ h => h)
  | processWebhookEvent input clock =>
    apply guarded_bind
    exact guarded_mono (WebhookEventProcessor.guarded_process input clock w) (fun _ _ _ _ _ => trivial) (fun _ _ _ _ h => h)

end EventGateway
