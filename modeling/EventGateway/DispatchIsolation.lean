import EventGateway.OutboxDispatcher
import EventGateway.RowEvolution
import EventGateway.StatementStability

namespace EventGateway.OutboxDispatcher

open KeyedTable TransactionProgram Interleaving RelyGuarantee Statements

inductive DispatchWrite (run : DispatchRun) (w : World Db JobData) : Write → Prop
  | queued (id : Uuid) (e : WebhookEvent) (he : w.db.webhookEvents.get id = some e) (hs : e.status = .received) :
      DispatchWrite run w (.markWebhookQueued id)
  | published (o : OutboxEvent) (data : JobData) (ho : o ∈ w.db.outboxEvents)
      (hs : isEligible processWebhookOutboxType run.now o = true) (hd : toJobData o = .ok data) (hj : data ∈ w.emitted) :
      DispatchWrite run w (.updateOutboxEvent o.id (.published (run.dateNow o.id)) run.now)
  | transientFailure (o : OutboxEvent) (message : Text) (ho : o ∈ w.db.outboxEvents)
      (hs : isEligible processWebhookOutboxType run.now o = true) :
      DispatchWrite run w (.updateOutboxEvent o.id (.transientFailure (o.attempts + 1)
        (run.dateNow o.id + calculateOutboxBackoffMs (o.attempts + 1)) message (run.dateNow o.id)) run.now)
  | nonRetryableFailure (o : OutboxEvent) (message : Text) (ho : o ∈ w.db.outboxEvents)
      (hs : isEligible processWebhookOutboxType run.now o = true) (hd : toJobData o = .error .invalidOutboxPayload) :
      DispatchWrite run w
        (.updateOutboxEvent o.id (.nonRetryableFailure (o.attempts + 1) (run.dateNow o.id) message) run.now)

inductive ReconcileWrite (run : ReconcileRun) (w : World Db JobData) : Write → Prop
  | requeued (o : OutboxEvent) (ho : o ∈ w.db.outboxEvents)
      (hs : isStale webhookOutboxAggregateType processWebhookOutboxType (run.now - run.olderThanMs) w.db o = true) :
      ReconcileWrite run w (.updateOutboxEvent o.id (.requeued stalePublishedWebhookRequeued run.now) run.now)

inductive OutboxWrite (d : Db) : Write → Prop
  | queued (id : Uuid) (e : WebhookEvent) (he : d.webhookEvents.get id = some e) (hs : e.status = .received) :
      OutboxWrite d (.markWebhookQueued id)
  | updated (id : Uuid) (p : OutboxEventPatch) (now : Time) : OutboxWrite d (.updateOutboxEvent id p now)

def Dispatched (run : DispatchRun) (w : World Db JobData) (d : Db) : Prop :=
  ∃ ws, d = engine.view w.db ws ∧ ∀ x ∈ ws, DispatchWrite run w x

def Reconciled (run : ReconcileRun) (w : World Db JobData) (d : Db) : Prop :=
  ∃ ws, d = engine.view w.db ws ∧ ∀ x ∈ ws, ReconcileWrite run w x

theorem DispatchWrite.outboxWrite {run : DispatchRun} {w : World Db JobData} {x : Write} (h : DispatchWrite run w x) :
    OutboxWrite w.db x := by
  cases h with
  | queued id e he hs => exact .queued id e he hs
  | published | transientFailure | nonRetryableFailure => exact .updated _ _ _

theorem ReconcileWrite.outboxWrite {run : ReconcileRun} {w : World Db JobData} {x : Write} (h : ReconcileWrite run w x) :
    OutboxWrite w.db x := by
  cases h with
  | requeued => exact .updated _ _ _

section OutboxWrites

variable {d : Db} {ws : List Write}

theorem get_view_outboxWrites (h : ∀ x ∈ ws, OutboxWrite d x) (id : Uuid) :
    (engine.view d ws).webhookEvents.get id = d.webhookEvents.get id ∨
      ∃ e, d.webhookEvents.get id = some e ∧ e.status = .received ∧
        (engine.view d ws).webhookEvents.get id = some (queued.apply e) := by
  induction ws using List.reverseRecOn with
  | nil => exact Or.inl rfl
  | append_singleton ws x ih =>
    have ih := ih (fun y hy => h y (by simp [hy]))
    rw [Engine.view_append]
    cases h x (by simp) with
    | updated j p now => exact ih
    | queued j e he hs =>
      change ((engine.view d ws).webhookEvents.update j queued).get id = _ ∨ ∃ e, _ ∧ _ ∧
        ((engine.view d ws).webhookEvents.update j queued).get id = _
      by_cases hj : id = j
      · subst hj
        rw [Table.get_update_self]
        rcases ih with ih | ⟨e', he', hs', ih⟩
        · exact Or.inr ⟨e, he, hs, by rw [ih, he]; rfl⟩
        · exact Or.inr ⟨e', he', hs', by rw [ih]; rfl⟩
      · rw [Table.get_update_of_ne _ hj]
        exact ih

theorem mem_view_outboxWrites (h : ∀ x ∈ ws, OutboxWrite d x) {e' : WebhookEvent}
    (he : e' ∈ (engine.view d ws).webhookEvents) :
    ∃ e ∈ d.webhookEvents, e' = e ∨ e.status = .received ∧ e' = queued.apply e := by
  have hget := Table.get_of_mem he
  rcases get_view_outboxWrites h (key e') with hv | ⟨e, he, hs, hv⟩
  · exact ⟨e', Table.mem_of_get (hv.symm.trans hget), Or.inl rfl⟩
  · exact ⟨e, Table.mem_of_get he, Or.inr ⟨hs, Option.some.inj (hget.symm.trans hv)⟩⟩

theorem get_view_received (h : ∀ x ∈ ws, OutboxWrite d x) {id : Uuid} {e : WebhookEvent}
    (he : (engine.view d ws).webhookEvents.get id = some e) (hs : e.status = .received) :
    d.webhookEvents.get id = some e := by
  rcases get_view_outboxWrites h id with hv | ⟨e', _, _, hv⟩
  · rw [← hv, he]
  · rw [he] at hv
    cases hv
    cases hs

theorem indexes_outboxWrites (hd : d.Indexes) (h : ∀ x ∈ ws, OutboxWrite d x) : (engine.view d ws).Indexes := by
  induction ws using List.reverseRecOn with
  | nil => exact hd
  | append_singleton ws x ih =>
    have ih := ih (fun y hy => h y (by simp [hy]))
    rw [Engine.view_append]
    cases h x (by simp) with
    | updated j p now => exact ih.updateOutboxEvent j p now
    | queued j e he hs => exact ih.markWebhookQueued j

theorem evolves_outboxWrites (h : ∀ x ∈ ws, OutboxWrite d x) : d.Evolves (engine.view d ws) := by
  induction ws using List.reverseRecOn with
  | nil => exact Db.Evolves.refl d
  | append_singleton ws x ih =>
    have hws : ∀ y ∈ ws, OutboxWrite d y := fun y hy => h y (by simp [hy])
    rw [Engine.view_append]
    refine (ih hws).trans ?_
    cases h x (by simp) with
    | updated j p now => exact Db.Evolves.updateOutboxEvent
    | queued j e he hs =>
      apply Db.Evolves.markWebhookQueued
      intro f hf
      rcases get_view_outboxWrites hws j with hv | ⟨e', he', hs', hv⟩
      · rw [hv, he] at hf
        cases hf
        simp [WebhookEvent.isFinal, hs]
      · rw [hv] at hf
        cases hf
        rfl

theorem view_outboxWrites (h : ∀ x ∈ ws, OutboxWrite d x) :
    (engine.view d ws).paymentIntents = d.paymentIntents ∧
      (engine.view d ws).idempotencyRecords = d.idempotencyRecords ∧
      (engine.view d ws).webhookProcessingAttempts = d.webhookProcessingAttempts := by
  induction ws using List.reverseRecOn with
  | nil => exact ⟨rfl, rfl, rfl⟩
  | append_singleton ws x ih =>
    have ih := ih (fun y hy => h y (by simp [hy]))
    rw [Engine.view_append]
    cases h x (by simp) <;> exact ih

end OutboxWrites

section Dispatch

variable {run : DispatchRun} {held held' : Lock → Prop} {ws : List Write} {w w' : World Db JobData}

def Justified (run : DispatchRun) (held : Lock → Prop) (ws : List Write) (w : World Db JobData) : Prop :=
  ∀ w', discipline.Rely held w w' → ∀ x ∈ ws, DispatchWrite run w' x

def Selected (run : DispatchRun) (held : Lock → Prop) (rows : List OutboxEvent) (w : World Db JobData) : Prop :=
  ∀ o ∈ rows, o ∈ w.db.outboxEvents ∧ isEligible processWebhookOutboxType run.now o = true ∧ held (.outboxEvent o.id)

theorem Justified.later (h : Justified run held ws w) (hr : discipline.Rely held w w') (hh : ∀ l, held l → held' l) :
    Justified run held' ws w' :=
  fun _ hr' => h _ (hr.trans (hr'.weaken hh))

theorem Justified.append {x : Write} (h : Justified run held ws w)
    (hx : ∀ w', discipline.Rely held w w' → DispatchWrite run w' x) : Justified run held (ws ++ [x]) w := by
  intro w' hr y hy
  rcases List.mem_append.mp hy with hy | hy
  · exact h w' hr y hy
  · rw [List.mem_singleton.mp hy]
    exact hx w' hr

theorem mem_outboxEvents_of_rely {o : OutboxEvent} (ho : o ∈ w.db.outboxEvents) (hl : held (.outboxEvent o.id))
    (hr : discipline.Rely held w w') : o ∈ w'.db.outboxEvents := by
  have hrow : w'.db.outboxEvents.get o.id = w.db.outboxEvents.get o.id := hr.2.2 (.outboxEvent o.id) hl
  apply Table.mem_of_get (k := o.id)
  rw [hrow]
  exact Table.get_of_mem ho

theorem Selected.later {rows : List OutboxEvent} (h : Selected run held rows w) (hr : discipline.Rely held w w')
    (hh : ∀ l, held l → held' l) : Selected run held' rows w' := by
  intro o ho
  obtain ⟨hm, hs, hl⟩ := h o ho
  exact ⟨mem_outboxEvents_of_rely hm hl hr, hs, hh _ hl⟩

def Ends (run : DispatchRun) (_ : OutboxDispatchBatchResult) (held : Lock → Prop) (ws : List Write)
    (w : World Db JobData) : Prop :=
  Justified run held ws w

def anyFailure : Failure → (Lock → Prop) → List Write → World Db JobData → Prop := fun _ _ _ _ => True

theorem wp_updateOutboxEvent {α : Type} {o : OutboxEvent} {p : OutboxEventPatch} {f : Unit → Script α}
    {Q : α → (Lock → Prop) → List Write → World Db JobData → Prop} (hj : Justified run held ws w)
    (hx : ∀ w', discipline.Rely held w w' → DispatchWrite run w' (.updateOutboxEvent o.id p run.now))
    (hok : ∀ w₁ held₁ ws₁, (∀ l, held l → held₁ l) → discipline.Rely held w w₁ → Justified run held₁ ws₁ w₁ →
      wp discipline (f ()) held₁ ws₁ w₁ Q anyFailure) :
    wp discipline (query (.updateOutboxEvent o.id p run.now) >>= f) held ws w Q anyFailure := by
  apply wp_call
  · intro w₁ others a ws₁ ls hr he
    cases he
    have hr₁ : discipline.Rely held w (w₁.emit []) := hr.trans (Discipline.Rely.of_emit hr.1 [])
    exact hok _ _ _ (fun _ hl => Or.inl hl) hr₁ ((hj.append hx).later hr₁ (fun _ hl => Or.inl hl))
  · exact fun _ _ _ _ _ => trivial
  · exact eval_faults _

theorem received_of_eval {d : Db} {t : Text} {others : Lock → Bool} {a : Unit} {ws' : List Write} {ls : List Lock}
    (h : engine.eval (.markWebhookQueued t) d others = .ok a ws' ls) :
    ws' = [] ∧ ls = [] ∨ ∃ id e, ws' = [.markWebhookQueued id] ∧ ls = [.webhookEvent id] ∧
      d.webhookEvents.get id = some e ∧ e.status = .received := by
  simp only [engine_eval, eval] at h
  split at h
  · cases h
  rename_i id _
  split_ifs at h with hs
  · cases h
    obtain ⟨e, he, hr⟩ := (Option.any_eq_true _ _).mp hs
    exact Or.inr ⟨id, e, rfl, rfl, he, by simpa using hr⟩
  · cases h
    exact Or.inl ⟨rfl, rfl⟩

theorem wp_markWebhookQueued {α : Type} {t : Text} {f : Unit → Script α}
    {Q : α → (Lock → Prop) → List Write → World Db JobData → Prop}
    {X : Failure → (Lock → Prop) → List Write → World Db JobData → Prop} (hj : Justified run held ws w)
    (hok : ∀ w₁ held₁ ws₁, (∀ l, held l → held₁ l) → discipline.Rely held w w₁ → Justified run held₁ ws₁ w₁ →
      wp discipline (f ()) held₁ ws₁ w₁ Q X) :
    wp discipline (query (.markWebhookQueued t) >>= f) held ws w Q X := by
  apply wp_call
  · intro w₁ others a ws₁ ls hr he
    have hr₁ : discipline.Rely held w (w₁.emit []) := hr.trans (Discipline.Rely.of_emit hr.1 [])
    apply hok _ _ _ (fun _ hl => Or.inl hl) hr₁
    rcases received_of_eval he with ⟨rfl, rfl⟩ | ⟨id, e, rfl, rfl, hget, hs⟩
    · rw [List.append_nil]
      exact hj.later hr₁ (fun _ hl => Or.inl hl)
    · have hbase : w₁.db.webhookEvents.get id = some e :=
        get_view_received (fun x hx => (hj w₁ hr x hx).outboxWrite) hget hs
      refine (hj.later hr₁ (fun _ hl => Or.inl hl)).append ?_
      intro w₂ hr₂
      have hrow : w₂.db.webhookEvents.get id = w₁.db.webhookEvents.get id :=
        hr₂.of_emitted.2.2 (.webhookEvent id) (Or.inr (by simp))
      exact .queued id e (hrow.trans hbase) hs
  · exact fun _ _ x _ hx => absurd hx (eval_not_refused (by simp) _ _ x)
  · exact eval_faults _

theorem fails_markTransientFailure (o : OutboxEvent) (error : Failure) :
    Fails engine discipline.Fault (do
      markTransientFailure run o error
      return false : Script Bool) :=
  ⟨_, rfl⟩

theorem wp_publishOutboxEvent {o : OutboxEvent} {data : JobData} {rows : List OutboxEvent}
    {Q : Bool → (Lock → Prop) → List Write → World Db JobData → Prop}
    (hj : Justified run held ws w) (hsel : Selected run held (o :: rows) w) (hd : toJobData o = .ok data)
    (hok : ∀ b held₁ ws₁ w₁, Justified run held₁ ws₁ w₁ → Selected run held₁ rows w₁ → Q b held₁ ws₁ w₁) :
    wp discipline (publishOutboxEvent run o data) held ws w Q anyFailure := by
  have htail {held : Lock → Prop} {w : World Db JobData} (h : Selected run held (o :: rows) w) :
      Selected run held rows w := fun o' ho' => h o' (by simp [ho'])
  apply wp_tryCatch
  · apply wp_call
    · intro w₁ others a ws₁ ls hr he
      cases hout : run.outcome o.id with
      | failed message reached =>
        rw [hout] at he
        cases he
      | added =>
        rw [hout] at he
        cases he
        simp only [List.append_nil]
        have hr₁ : discipline.Rely held w (w₁.emit [data]) := hr.trans (Discipline.Rely.of_emit hr.1 [data])
        have hmono (l : Lock) (hl : held l) : held l ∨ l ∈ ([] : List Lock) := Or.inl hl
        have hj₁ := hj.later hr₁ hmono
        have hsel₁ := hsel.later hr₁ hmono
        have hdata : data ∈ (w₁.emit [data]).emitted := by simp
        change wp discipline _ _ _ (w₁.emit [data]) _ _
        generalize w₁.emit [data] = w₁ at *
        apply wp_markWebhookQueued hj₁
        intro w₂ held₂ ws₂ hh₂ hr₂ hj₂
        have hsel₂ := hsel₁.later hr₂ hh₂
        have hdata₂ : data ∈ w₂.emitted := hr₂.2.1.2 data hdata
        apply wp_call
        · intro w₃ others₃ a₃ ws₃ ls₃ hr₃ he₃
          cases he₃
          have hr₃' : discipline.Rely held₂ w₂ (w₃.emit []) := hr₃.trans (Discipline.Rely.of_emit hr₃.1 [])
          refine hok _ _ _ _ ?_ ((htail hsel₂).later hr₃' (fun _ hl => Or.inl hl))
          refine (hj₂.append ?_).later hr₃' (fun _ hl => Or.inl hl)
          intro w₄ hr₄
          obtain ⟨ho, hs, hl⟩ := hsel₂.later hr₄ (fun _ hl => hl) o (by simp)
          exact .published o data ho hs hd (hr₄.2.1.2 data hdata₂)
        · exact fun _ _ x _ hx => absurd hx (eval_not_refused (by simp) _ _ x)
        · exact eval_faults _
    · intro w₁ others e hr he
      have hr₁ : discipline.Rely held w
          (w₁.emit (engine.emits (.publishProcessWebhookEvent data (run.outcome o.id)))) :=
        hr.trans (Discipline.Rely.of_emit hr.1 _)
      have hj₁ := hj.later hr₁ (fun _ hl => hl)
      have hsel₁ := hsel.later hr₁ (fun _ hl => hl)
      apply wp_updateOutboxEvent hj₁
      · intro w₂ hr₂
        obtain ⟨ho, hs, _⟩ := hsel₁.later hr₂ (fun _ hl => hl) o (by simp)
        exact .transientFailure o _ ho hs
      · intro w₂ held₂ ws₂ hh₂ hr₂ hj₂
        exact hok _ _ _ _ hj₂ ((htail hsel₁).later hr₂ hh₂)
    · exact eval_faults _
  · exact fun e _ => fails_markTransientFailure o e

theorem toJobData_of_none {o : OutboxEvent} (h : o.payload.text "webhookEventId" = none) :
    toJobData o = .error .invalidOutboxPayload := by
  unfold toJobData
  rw [h]

theorem toJobData_of_some {o : OutboxEvent} {t : Text} (h : o.payload.text "webhookEventId" = some t) :
    ∃ correlationId, toJobData o = .ok ⟨t, correlationId⟩ := by
  refine ⟨(o.payload.text "correlationId").bind normalizeCorrelationId, ?_⟩
  unfold toJobData
  rw [h]

theorem toJobData_error {o : OutboxEvent} {error : Failure} (h : toJobData o = .error error) :
    error = .invalidOutboxPayload := by
  unfold toJobData at h
  split at h
  · cases h
    rfl
  · cases h

theorem wp_dispatchEvents {rows : List OutboxEvent} {result : OutboxDispatchBatchResult}
    (hj : Justified run held ws w) (hsel : Selected run held rows w) :
    wp discipline (dispatchEvents run rows result) held ws w (Ends run) anyFailure := by
  induction rows generalizing held ws w result with
  | nil => exact hj
  | cons o rows ih =>
    have htail : Selected run held rows w := fun o' ho' => hsel o' (by simp [ho'])
    unfold dispatchEvents
    cases hd : toJobData o with
    | error error =>
      obtain rfl := toJobData_error hd
      apply wp_updateOutboxEvent hj
      · intro w₁ hr
        obtain ⟨ho, hs, _⟩ := hsel.later hr (fun _ hl => hl) o (by simp)
        exact .nonRetryableFailure o _ ho hs hd
      · intro w₁ held₁ ws₁ hh hr hj₁
        exact ih hj₁ (htail.later hr hh)
    | ok data =>
      apply wp_bind
      apply wp_publishOutboxEvent hj hsel hd
      intro b held₁ ws₁ w₁ hj₁ hsel₁
      cases b with
      | true => exact ih hj₁ hsel₁
      | false => exact hj₁

theorem mem_eligibleEvents {d : Db} {others : Lock → Bool} {type : Text} {limit : ℕ} {now : Time}
    {hidden : Uuid → Bool} {o : OutboxEvent} (h : o ∈ eligibleEvents d others type limit now hidden) :
    o ∈ d.outboxEvents ∧ isEligible type now o = true := by
  have hm := List.mem_filter.mp ((List.mem_insertionSort _).mp (List.mem_of_mem_take h))
  simp only [Bool.and_eq_true] at hm
  exact ⟨hm.1, hm.2.1.1⟩

theorem wp_dispatchBatch (run : DispatchRun) (w : World Db JobData) :
    wp discipline (dispatchBatch run) (fun _ => False) [] w (Ends run) anyFailure := by
  apply wp_call
  · intro w₁ others rows ws₁ ls hr he
    cases he
    apply wp_dispatchEvents
    · intro w₂ _ x hx
      cases hx
    · intro o ho
      obtain ⟨hm, hs⟩ := mem_eligibleEvents ho
      exact ⟨hm, hs, Or.inr (List.mem_map_of_mem ho)⟩
  · exact fun _ _ x _ hx => absurd hx (eval_not_refused (by simp) _ _ x)
  · exact eval_faults _

end Dispatch

section Reconcile

variable {run : ReconcileRun} {w : World Db JobData}

theorem mem_staleEvents {d : Db} {others : Lock → Bool} {aggregateType type : Text} {publishedBefore : Time} {limit : ℕ}
    {hidden : Uuid → Bool} {o : OutboxEvent}
    (h : o ∈ staleEvents d others aggregateType type publishedBefore limit hidden) :
    o ∈ d.outboxEvents ∧ isStale aggregateType type publishedBefore d o = true := by
  have hm := List.mem_filter.mp ((List.mem_insertionSort _).mp (List.mem_of_mem_take h))
  simp only [Bool.and_eq_true] at hm
  exact ⟨hm.1, hm.2.1.1.1⟩

theorem isStale_congr {aggregateType type : Text} {publishedBefore : Time} {d d' : Db} {o : OutboxEvent}
    (h : d'.webhookEvents.get o.aggregateId = d.webhookEvents.get o.aggregateId) :
    isStale aggregateType type publishedBefore d' o = isStale aggregateType type publishedBefore d o := by
  unfold isStale
  rw [h]

theorem wp_reconcile (run : ReconcileRun) (w : World Db JobData) :
    wp discipline (reconcileStalePublishedEvents run) (fun _ => False) [] w
      (fun _ held ws w => ∀ w', discipline.Rely held w w' → ∀ x ∈ ws, ReconcileWrite run w' x) anyFailure := by
  apply wp_call
  · intro w₁ others rows ws₁ ls hr he
    cases he
    intro w₂ hr₂ x hx
    obtain ⟨o, ho, rfl⟩ := List.mem_map.mp hx
    obtain ⟨hm, hs⟩ := mem_staleEvents ho
    have hlocks (l : Lock) (hl : l = .outboxEvent o.id ∨ l = .webhookEvent o.aggregateId) :
        LockDiscipline.Keeps l w₁.db w₂.db := by
      apply hr₂.of_emitted.2.2 l
      refine Or.inr (List.mem_flatMap.mpr ⟨o, ho, ?_⟩)
      simpa using hl
    have hrow : w₂.db.outboxEvents.get o.id = w₁.db.outboxEvents.get o.id := hlocks _ (Or.inl rfl)
    have hevent : w₂.db.webhookEvents.get o.aggregateId = w₁.db.webhookEvents.get o.aggregateId :=
      hlocks _ (Or.inr rfl)
    have ho₂ : o ∈ w₂.db.outboxEvents := by
      apply Table.mem_of_get (k := o.id)
      rw [hrow]
      exact Table.get_of_mem hm
    exact .requeued o ho₂ ((isStale_congr hevent).trans hs)
  · exact fun _ _ x _ hx => absurd hx (eval_not_refused (by simp) _ _ x)
  · exact eval_faults _

end Reconcile

end EventGateway.OutboxDispatcher
