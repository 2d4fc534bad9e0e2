import EventGateway.BatchSettlement
import EventGateway.JobCompletion
import EventGateway.PublicationAccounting
import EventGateway.RepeatedDelivery
import EventGateway.WebhookLifecycle

namespace EventGateway

open KeyedTable TransactionProgram Interleaving RelyGuarantee Statements
open OutboxDispatcher

structure Round where
  reconciler : ReconcileRun
  dispatcher : DispatchRun
  jobId : JobData → Option Text
  clock : JobData → WebhookEventProcessor.Clock

namespace Round

variable (rt : Runtime) (round : Round)

def requeued (d : Db) : Db :=
  (engine.transaction ((Request.reconcileStalePublishedEvents round.reconciler).script rt) d).db

def batch (d : Db) : Outcome Failure Db JobData Response :=
  engine.transaction ((Request.dispatchBatch round.dispatcher).script rt) (round.requeued rt d)

def delivery (job : JobData) : Request :=
  .processWebhookEvent ⟨job.webhookEventId, round.jobId job⟩ (round.clock job)

def deliver (d : Db) (job : JobData) : Db := (engine.transaction ((round.delivery job).script rt) d).db

def perform (d : Db) : Db := (round.batch rt d).emitted.foldl (round.deliver rt) (round.batch rt d).db

def performAll (rounds : List Round) (d : Db) : Db := rounds.foldl (fun d round => round.perform rt d) d

structure Healthy (limit : ℕ) (since : Time) : Prop where
  limits : limit ≤ round.reconciler.limit ∧ limit ≤ round.dispatcher.limit
  shown : ∀ id, round.reconciler.hidden id = false ∧ round.dispatcher.hidden id = false
  published : ∀ id, round.dispatcher.outcome id = .added
  clocks : ∀ job, (round.clock job).startedAt ≤ (round.clock job).finishedAt
  stale : since ≤ round.reconciler.now - round.reconciler.olderThanMs
  patient : 0 ≤ round.reconciler.olderThanMs
  ordered : round.reconciler.now ≤ round.dispatcher.now

end Round

structure Sane (d : Db) : Prop where
  indexes : d.Indexes
  outbox : ∃ js, OutboxInv d js
  confirmation : ConfirmationInv d
  lifecycle : LifecycleInv d

section Rounds

variable (rt : Runtime) {round : Round} {d : Db}

theorem Sane.transaction (h : Sane d) (q : Request) :
    Sane (engine.transaction (q.script rt) d).db ∧ d.Evolves (engine.transaction (q.script rt) d).db := by
  cases hr : (engine.transaction (q.script rt) d).result with
  | error e =>
    rw [transaction_error h.indexes hr]
    exact ⟨h, Db.Evolves.refl d⟩
  | ok r =>
    obtain ⟨js, hc⟩ := transaction_commits h.indexes hr
    obtain ⟨js', hinv⟩ := h.outbox
    have hinv' : OutboxInv d (js' ++ js) := hinv.mono (fun j hj => List.mem_append_left js hj)
    refine ⟨⟨hc.indexes h.indexes, ⟨js' ++ js, ?_⟩, hc.confirmationInv h.confirmation, hc.lifecycleInv h.lifecycle⟩, hc.evolves⟩
    exact hc.outboxInv_after hinv' (fun j hj => List.mem_append_right js' hj)

variable {rt}

theorem isSome_of_evolves {d' : Db} (h : d.Evolves d') {k : Uuid} (hk : (d.webhookEvents.get k).isSome = true) :
    (d'.webhookEvents.get k).isSome = true := by
  by_contra hnone
  rw [h.get_eq_none (by simpa using hnone)] at hk
  cases hk

section Deliveries

theorem deliver_outboxEvents (h : Sane d) (job : JobData) : (round.deliver rt d job).outboxEvents = d.outboxEvents := by
  unfold Round.deliver
  cases hr : (engine.transaction ((round.delivery job).script rt) d).result with
  | error e => rw [transaction_error h.indexes hr]
  | ok r =>
    obtain ⟨js, hc⟩ := transaction_commits h.indexes hr
    generalize (engine.transaction ((round.delivery job).script rt) d).db = d' at hc
    cases hc with
    | processed hp he hs => cases hs <;> rfl

theorem final_deliver (h : Sane d) {job : JobData} {k : Uuid} (hjob : job.webhookEventId = k.render)
    (hclock : (round.clock job).startedAt ≤ (round.clock job).finishedAt) (hk : (d.webhookEvents.get k).isSome = true) :
    (round.deliver rt d job).Final (some k) := by
  obtain ⟨e, he⟩ := Option.isSome_iff_exists.mp hk
  obtain rfl : e.id = k := Table.key_of_get he
  obtain ⟨dto, hdto⟩ := h.confirmation.payloads e (Table.mem_of_get he)
  have hparse : Uuid.parse (WebhookEventProcessor.ProcessWebhookEventInput.mk job.webhookEventId
      (round.jobId job)).webhookEventId = some e.id := by rw [hjob, Uuid.parse_render]
  obtain ⟨r, hr, -⟩ := transaction_accepted h.indexes hparse he hdto hclock
  have hresult : (engine.transaction ((round.delivery job).script rt) d).result = .ok (.processing r) := by
    have hscript : engine.transaction ((round.delivery job).script rt) d = _ :=
      Engine.exec_bind_ret d d (WebhookEventProcessor.processWebhookEvent _ _) Response.processing
    rw [hscript]
    change Except.map _ (engine.transaction _ d).result = _
    rw [hr]
    rfl
  obtain ⟨js, hc⟩ := transaction_commits h.indexes hresult
  change Db.Final (engine.transaction ((round.delivery job).script rt) d).db (some e.id)
  generalize (engine.transaction ((round.delivery job).script rt) d).db = d' at hc ⊢
  cases hc with
  | @processed _ _ _ e' _ hp he' hs =>
    rw [← hparse]
    rw [show Uuid.parse job.webhookEventId = some e'.id from hp]
    exact hs.final he'

structure Delivered (jobs : List JobData) (d d' : Db) : Prop where
  sane : Sane d'
  evolves : d.Evolves d'
  outboxEvents : d'.outboxEvents = d.outboxEvents
  settled : ∀ job ∈ jobs, ∀ k, job.webhookEventId = k.render → (d.webhookEvents.get k).isSome = true → d'.Final (some k)

theorem delivered_foldl (hclocks : ∀ job, (round.clock job).startedAt ≤ (round.clock job).finishedAt) (h : Sane d)
    (jobs : List JobData) : Delivered jobs d (jobs.foldl (round.deliver rt) d) := by
  induction jobs generalizing d with
  | nil => exact ⟨h, Db.Evolves.refl d, rfl, fun job hj => by cases hj⟩
  | cons job jobs ih =>
    obtain ⟨hsane, hev⟩ := h.transaction rt (round.delivery job)
    have hrest := ih hsane
    refine ⟨hrest.sane, hev.trans hrest.evolves, hrest.outboxEvents.trans (deliver_outboxEvents h job), ?_⟩
    intro job' hjob' k hk hsome
    rcases List.mem_cons.mp hjob' with rfl | hjob'
    · exact (final_deliver h hk (hclocks job') hsome).evolves hrest.evolves
    · exact hrest.settled job' hjob' k hk (isSome_of_evolves hev hsome)

end Deliveries

section Requeues

def stale (round : Round) (d : Db) : List OutboxEvent :=
  staleEvents d (fun _ => false) webhookOutboxAggregateType processWebhookOutboxType
    (round.reconciler.now - round.reconciler.olderThanMs) round.reconciler.limit round.reconciler.hidden

def requeue (now : Time) : OutboxEventPatch := .requeued stalePublishedWebhookRequeued now

theorem requeued_eq (round : Round) (d : Db) : round.requeued rt d = engine.view d ((stale round d).map (fun o =>
    .updateOutboxEvent o.id (requeue round.reconciler.now) round.reconciler.now)) := rfl

theorem get_view_requeue (rows : List OutboxEvent) (now : Time) (d : Db) (k : Uuid) :
    (engine.view d (rows.map (fun o => .updateOutboxEvent o.id (requeue now) now))).outboxEvents.get k =
      (d.outboxEvents.get k).map (fun o => if k ∈ rows.map (fun o => o.id) then o.patch (requeue now) now else o) := by
  induction rows generalizing d with
  | nil => simp
  | cons x rows ih =>
    have hview : engine.view d ((x :: rows).map (fun o => Write.updateOutboxEvent o.id (requeue now) now)) =
        engine.view (d.apply (.updateOutboxEvent x.id (requeue now) now))
          (rows.map (fun o => .updateOutboxEvent o.id (requeue now) now)) := rfl
    have hupdate : (d.apply (.updateOutboxEvent x.id (requeue now) now)).outboxEvents.get k =
        (d.outboxEvents.get k).map (fun o => if k = x.id then o.patch (requeue now) now else o) := Table.get_update _ _ _
    rw [hview, ih, hupdate, Option.map_map]
    congr 1
    funext o
    simp only [Function.comp_apply, List.map_cons, List.mem_cons]
    by_cases hx : k = x.id
    · rw [if_pos hx, if_pos (Or.inl hx)]
      split_ifs <;> rfl
    · simp only [hx, if_false, false_or]

end Requeues

section Batches

variable {run : DispatchRun}

theorem exec_publish_added {α : Type} {origin : Db} {o : OutboxEvent} {data : JobData} {f : Bool → Script α} {id : Uuid}
    (hpub : run.outcome o.id = .added) (hid : Uuid.parse data.webhookEventId = some id) :
    engine.exec origin (publishOutboxEvent run o data >>= f) d = (engine.exec origin (f true)
      ((markQueued d id).apply (.updateOutboxEvent o.id (.published (run.dateNow o.id)) run.now))).emit [data] := by
  obtain ⟨ws, ls, hqueued, hview⟩ := eval_markWebhookQueued hid d
  unfold publishOutboxEvent
  rw [query, Engine.exec_tryCatch_call_bind, eval_publish hpub, hpub]
  simp only [query, Engine.exec_tryCatch_call_bind, Engine.view_nil, hqueued, hview]
  rfl

theorem isUsable_of_toJobData {o : OutboxEvent} {data : JobData} (h : toJobData o = .ok data) : isUsable o = true := by
  cases ht : o.payload.text "webhookEventId" with
  | none =>
    rw [toJobData_of_none ht] at h
    cases h
  | some t => simp [isUsable, ht]

theorem exec_dispatchEvents_added (hpub : ∀ id, run.outcome id = .added) {rows : List OutboxEvent}
    (hrows : ∀ o ∈ rows, ∃ c, toJobData o = .ok ⟨o.aggregateId.render, c⟩) (result : OutboxDispatchBatchResult)
    (origin d : Db) :
    (engine.exec origin (dispatchEvents run rows result) d).db = rows.foldl (settleRow run) d ∧
      (engine.exec origin (dispatchEvents run rows result) d).emitted = rows.filterMap (fun o => (toJobData o).toOption) := by
  induction rows generalizing d result with
  | nil => exact ⟨rfl, rfl⟩
  | cons x rows ih =>
    obtain ⟨c, hc⟩ := hrows x (by simp)
    have hu := isUsable_of_toJobData hc
    have hrest := ih (fun o ho => hrows o (List.mem_cons_of_mem x ho))
    unfold dispatchEvents
    simp only [hc]
    rw [exec_publish_added (hpub x.id) (Uuid.parse_render x.aggregateId)]
    have hsettle : settleRow run d x = (markQueued d x.aggregateId).apply
        (.updateOutboxEvent x.id (.published (run.dateNow x.id)) run.now) := by
      simp only [settleRow, settlePatch, hu, ↓reduceIte]
    rw [← hsettle]
    constructor
    · exact (hrest _ _).1
    · have hjobs := (hrest { result with published := result.published + 1 } (settleRow run d x)).2
      simp only [Outcome.emit, List.filterMap_cons, hc, Except.toOption]
      exact congrArg (fun js => _ :: js) hjobs

theorem deliverable_selected (h : Sane d) {o : OutboxEvent} (ho : o ∈ selected run d) :
    ∃ c, toJobData o = .ok ⟨o.aggregateId.render, c⟩ := by
  obtain ⟨js, hinv⟩ := h.outbox
  exact toJobData_of_deliverable (hinv.rows o (mem_eligibleEvents ho).1)

theorem batch_eq (h : Sane (round.requeued rt d)) (hpub : ∀ id, round.dispatcher.outcome id = .added) :
    (round.batch rt d).db = (selected round.dispatcher (round.requeued rt d)).foldl (settleRow round.dispatcher)
        (round.requeued rt d) ∧
      (round.batch rt d).emitted =
        (selected round.dispatcher (round.requeued rt d)).filterMap (fun o => (toJobData o).toOption) := by
  have hrows : ∀ o ∈ selected round.dispatcher (round.requeued rt d), ∃ c, toJobData o = .ok ⟨o.aggregateId.render, c⟩ :=
    fun o ho => deliverable_selected h ho
  have hexec := exec_dispatchEvents_added hpub hrows ⟨(selected round.dispatcher (round.requeued rt d)).length, 0, 0⟩
    (round.requeued rt d) (round.requeued rt d)
  have hscript : round.batch rt d = _ := Engine.exec_bind_ret (round.requeued rt d) (round.requeued rt d)
    (dispatchBatch round.dispatcher) Response.dispatched
  rw [hscript]
  exact hexec

end Batches

def Db.Done (d : Db) (o : OutboxEvent) : Prop := o.status = .published ∧ d.Final (some o.aggregateId)

structure Performed (round : Round) (d : Db) (rows : List OutboxEvent) (d' : Db) : Prop where
  sane : Sane d'
  evolves : d.Evolves d'
  batch : ∀ o ∈ rows, ∃ o', d'.outboxEvents.get o.id = some o' ∧ d'.Done o'
  others : ∀ k, k ∉ rows.map (fun o => o.id) → d'.outboxEvents.get k = (d.outboxEvents.get k).map (fun o =>
    if k ∈ (stale round d).map (fun o => o.id) then o.patch (requeue round.reconciler.now) round.reconciler.now else o)

variable (rt) in
theorem performed {limit : ℕ} {since : Time} (hr : round.Healthy limit since) (h : Sane d) :
    Performed round d (selected round.dispatcher (round.requeued rt d)) (round.perform rt d) := by
  obtain ⟨hsane₁, hev₁⟩ := h.transaction rt (.reconcileStalePublishedEvents round.reconciler)
  change Sane (round.requeued rt d) at hsane₁
  change d.Evolves (round.requeued rt d) at hev₁
  obtain ⟨hsane₂, hev₂⟩ := hsane₁.transaction rt (.dispatchBatch round.dispatcher)
  change Sane (round.batch rt d).db at hsane₂
  change (round.requeued rt d).Evolves (round.batch rt d).db at hev₂
  obtain ⟨hdb, hemitted⟩ := batch_eq hsane₁ hr.published
  have hdelivered : Delivered (round.batch rt d).emitted (round.batch rt d).db (round.perform rt d) :=
    delivered_foldl hr.clocks hsane₂ _
  refine ⟨hdelivered.sane, (hev₁.trans hev₂).trans hdelivered.evolves, ?_, ?_⟩
  · intro o ho
    have hget : ∀ o ∈ selected round.dispatcher (round.requeued rt d), (round.requeued rt d).outboxEvents.get o.id = some o :=
      fun o ho => Table.get_of_mem (mem_eligibleEvents ho).1
    obtain ⟨c, hc⟩ := deliverable_selected hsane₁ ho
    have hrow : ((selected round.dispatcher (round.requeued rt d)).foldl (settleRow round.dispatcher)
        (round.requeued rt d)).outboxEvents.get o.id = _ := get_settleRows_row (OutboxDispatcher.nodup_selected _ _) hget ho
    rw [← hdb, settlePatch, if_pos (isUsable_of_toJobData hc)] at hrow
    refine ⟨_, by rw [hdelivered.outboxEvents]; exact hrow, rfl, ?_⟩
    have hjob : ⟨o.aggregateId.render, c⟩ ∈ (round.batch rt d).emitted := by
      rw [hemitted]
      exact List.mem_filterMap.mpr ⟨o, ho, by rw [hc]; rfl⟩
    obtain ⟨js, hinv⟩ := hsane₁.outbox
    have hevent := (hinv.linked o.aggregateId).mpr ⟨o, (mem_eligibleEvents ho).1, rfl⟩
    exact hdelivered.settled _ hjob o.aggregateId rfl (isSome_of_evolves hev₂ hevent)
  · intro k hk
    rw [hdelivered.outboxEvents, hdb, get_settleRows_other]
    · rw [requeued_eq, get_view_requeue]
    · intro o ho hok
      exact hk (hok ▸ List.mem_map_of_mem ho)

def Ripe (d : Db) (since due : Time) : Prop :=
  ∀ k o, d.outboxEvents.get k = some o → ¬ d.Done o →
    (o.status = .published → ∀ t, o.publishedAt = some t → t < since) ∧
      (o.status = .failed → ∀ t, o.nextAttemptAt = some t → t ≤ due)

section Rows

variable {limit : ℕ} {since due : Time} {rows : List OutboxEvent} {d' : Db}

theorem mem_stale (h : Sane d) (hr : round.Healthy limit since) (hripe : Ripe d since due) {o : OutboxEvent} {k : Uuid}
    (ho : d.outboxEvents.get k = some o) (hdone : ¬ d.Done o) (hs : o.status = .published) :
    isStale webhookOutboxAggregateType processWebhookOutboxType
      (round.reconciler.now - round.reconciler.olderThanMs) d o = true := by
  obtain ⟨js, hinv⟩ := h.outbox
  have hrow := hinv.rows o (Table.mem_of_get ho)
  obtain ⟨e, he⟩ := Option.isSome_iff_exists.mp ((hinv.linked o.aggregateId).mpr ⟨o, Table.mem_of_get ho, rfl⟩)
  have hid : e.id = o.aggregateId := Table.key_of_get he
  have hpending : e.status = .received ∨ e.status = .queued := by
    apply (h.lifecycle.events e (Table.mem_of_get he)).pending_of_not_final
    by_contra hf
    refine hdone ⟨hs, e, by rw [hid], by rw [hid]; exact he, by simpa using hf⟩
  have hpublished : o.publishedAt.any (fun t => t < round.reconciler.now - round.reconciler.olderThanMs) = true := by
    rcases hrow.state with hp | ⟨hf, -⟩ | ⟨-, hp, -⟩
    · rw [hs] at hp
      cases hp
    · rw [hs] at hf
      cases hf
    · obtain ⟨t, ht⟩ := Option.isSome_iff_exists.mp hp
      have hlt := (hripe k o ho hdone).1 hs t ht
      simp only [ht, Option.any_some, decide_eq_true_eq]
      exact lt_of_lt_of_le hlt hr.stale
  rcases hpending with hp | hp
  · simp [isStale, hrow.type, hrow.aggregateType, hrow.alive, hs, hpublished, he, hp]
  · simp [isStale, hrow.type, hrow.aggregateType, hrow.alive, hs, hpublished, he, hp]

theorem undone_of_stale {o : OutboxEvent} (ho : o ∈ stale round d) : d.outboxEvents.get o.id = some o ∧ ¬ d.Done o := by
  obtain ⟨hm, hs⟩ := mem_staleEvents ho
  refine ⟨Table.get_of_mem hm, ?_⟩
  rintro ⟨-, e, hid, he, hf⟩
  rw [← Option.some.inj hid] at he
  simp only [isStale, Bool.and_eq_true, he, Option.any_some, Bool.or_eq_true, decide_eq_true_eq] at hs
  rcases hs.2 with hp | hp
  · simp [WebhookEvent.isFinal, hp] at hf
  · simp [WebhookEvent.isFinal, hp] at hf

theorem Performed.undone (h : Performed round d rows d') {k : Uuid} {o' : OutboxEvent}
    (ho' : d'.outboxEvents.get k = some o') (hdone : ¬ d'.Done o') :
    k ∉ rows.map (fun o => o.id) ∧ ∃ o, d.outboxEvents.get k = some o ∧ ¬ d.Done o ∧
      (o' = o ∨ o' = o.patch (requeue round.reconciler.now) round.reconciler.now) := by
  have hbatch : k ∉ rows.map (fun o => o.id) := by
    intro hk
    obtain ⟨o, ho, rfl⟩ := List.mem_map.mp hk
    obtain ⟨o₁, ho₁, hdone₁⟩ := h.batch o ho
    rw [ho₁] at ho'
    obtain rfl := Option.some.inj ho'
    exact hdone hdone₁
  refine ⟨hbatch, ?_⟩
  have hrow := h.others k hbatch
  rw [ho'] at hrow
  obtain ⟨o, ho, hpatch⟩ := Option.map_eq_some_iff.mp hrow.symm
  refine ⟨o, ho, ?_, ?_⟩
  · -- a row that is done is not stale, so it stays as it is
    intro hd
    split_ifs at hpatch with hstale
    · obtain ⟨x, hx, hxk⟩ := List.mem_map.mp hstale
      obtain ⟨hget, hundone⟩ := undone_of_stale hx
      rw [hxk, ho] at hget
      obtain rfl := Option.some.inj hget
      exact hundone hd
    · subst hpatch
      exact hdone ⟨hd.1, hd.2.evolves h.evolves⟩
  · split_ifs at hpatch with hstale
    · exact Or.inr hpatch.symm
    · exact Or.inl hpatch.symm

theorem Performed.ripe (h : Performed round d rows d') (hripe : Ripe d since due) (hdue : due ≤ round.reconciler.now) :
    Ripe d' since round.reconciler.now := by
  intro k o' ho' hdone
  obtain ⟨-, o, ho, hundone, rfl | rfl⟩ := h.undone ho' hdone
  · obtain ⟨hp, hf⟩ := hripe k o' ho hundone
    exact ⟨hp, fun hs t ht => le_trans (hf hs t ht) hdue⟩
  · constructor
    · intro hs
      cases hs
    · intro _ t ht
      exact le_of_eq (Option.some.inj ht).symm

variable (rt) in
theorem eligible_requeued (h : Sane d) (hr : round.Healthy limit since) (hripe : Ripe d since due)
    (hdue : due ≤ round.dispatcher.now) {k : Uuid} {o : OutboxEvent} (ho : d.outboxEvents.get k = some o)
    (hwaits : o.status ≠ .published ∨ k ∈ (stale round d).map (fun o => o.id)) :
    ∃ o' ∈ (round.requeued rt d).outboxEvents, o'.id = k ∧
      isEligible processWebhookOutboxType round.dispatcher.now o' = true := by
  obtain ⟨js, hinv⟩ := h.outbox
  have hrow := hinv.rows o (Table.mem_of_get ho)
  have hget : (round.requeued rt d).outboxEvents.get k = some
      (if k ∈ (stale round d).map (fun o => o.id) then o.patch (requeue round.reconciler.now) round.reconciler.now else o) := by
    rw [requeued_eq, get_view_requeue, ho]
    rfl
  refine ⟨_, Table.mem_of_get hget, Table.key_of_get hget, ?_⟩
  split_ifs with hstale
  · have hle := hr.ordered
    simp [isEligible, OutboxEvent.patch, requeue, hrow.type, hrow.alive, hle]
  · have hs : o.status ≠ .published := hwaits.resolve_right hstale
    have hundone : ¬ d.Done o := fun hd => hs hd.1
    rcases hrow.state with hp | ⟨hf, t, ht, -⟩ | ⟨hp, -⟩
    · simp [isEligible, hrow.type, hrow.alive, hp]
    · have hle := le_trans ((hripe k o ho hundone).2 hf t ht) hdue
      simp [isEligible, hrow.type, hrow.alive, hf, ht, hle]
    · exact absurd hp hs

theorem le_length_take {α : Type} {r : α → α → Prop} [DecidableRel r] {l : List α} {n : ℕ} {x : α} (hx : x ∈ l)
    (hn : x ∉ (l.insertionSort r).take n) : n ≤ ((l.insertionSort r).take n).length := by
  by_contra hlt
  rw [List.length_take, not_le, min_lt_iff, lt_self_iff_false, false_or] at hlt
  rw [List.take_of_length_le hlt.le, List.mem_insertionSort] at hn
  exact hn hx

theorem limit_le_selected (hr : round.Healthy limit since) {o : OutboxEvent} (ho : o ∈ (round.requeued rt d).outboxEvents)
    (hs : isEligible processWebhookOutboxType round.dispatcher.now o = true)
    (hn : o.id ∉ (selected round.dispatcher (round.requeued rt d)).map (fun o => o.id)) :
    limit ≤ (selected round.dispatcher (round.requeued rt d)).length := by
  refine le_trans hr.limits.2 (le_length_take (x := o) ?_ (fun hm => hn (List.mem_map_of_mem hm)))
  refine List.mem_filter.mpr ⟨ho, ?_⟩
  simp [hs, (hr.shown o.id).2]

theorem limit_le_stale (hr : round.Healthy limit since) {o : OutboxEvent} (ho : o ∈ d.outboxEvents)
    (hs : isStale webhookOutboxAggregateType processWebhookOutboxType
      (round.reconciler.now - round.reconciler.olderThanMs) d o = true)
    (hn : o.id ∉ (stale round d).map (fun o => o.id)) : limit ≤ (stale round d).length := by
  refine le_trans hr.limits.1 (le_length_take (x := o) ?_ (fun hm => hn (List.mem_map_of_mem hm)))
  refine List.mem_filter.mpr ⟨ho, ?_⟩
  simp [hs, (hr.shown o.id).1]

theorem limit_le_of_left_out (h : Sane d) (hr : round.Healthy limit since) (hripe : Ripe d since due)
    (hdue : due ≤ round.dispatcher.now) {k : Uuid} {o : OutboxEvent} (ho : d.outboxEvents.get k = some o)
    (hdone : ¬ d.Done o) (hk : k ∉ (selected round.dispatcher (round.requeued rt d)).map (fun o => o.id)) :
    limit ≤ (selected round.dispatcher (round.requeued rt d)).length := by
  by_cases hwaits : o.status ≠ .published ∨ k ∈ (stale round d).map (fun o => o.id)
  · obtain ⟨o', ho', rfl, hs'⟩ := eligible_requeued rt h hr hripe hdue ho hwaits
    exact limit_le_selected hr ho' hs' hk
  push Not at hwaits
  obtain rfl : o.id = k := Table.key_of_get ho
  have hfull := limit_le_stale hr (Table.mem_of_get ho) (mem_stale h hr hripe ho hdone hwaits.1) hwaits.2
  by_cases hall : ∀ x ∈ stale round d, x.id ∈ (selected round.dispatcher (round.requeued rt d)).map (fun o => o.id)
  · have hsub : (stale round d).map (fun o => o.id) ⊆
        (selected round.dispatcher (round.requeued rt d)).map (fun o => o.id) := by
      intro j hj
      obtain ⟨x, hx, rfl⟩ := List.mem_map.mp hj
      exact hall x hx
    have hle := ((nodup_staleEvents _ _ _ _ _ _ _).subperm hsub).length_le
    rw [List.length_map, List.length_map] at hle
    exact le_trans hfull hle
  · push Not at hall
    obtain ⟨x, hx, hxn⟩ := hall
    obtain ⟨o', ho', hid, hs'⟩ := eligible_requeued rt h hr hripe hdue (undone_of_stale hx).1
      (Or.inr (List.mem_map_of_mem hx))
    exact limit_le_selected hr ho' hs' (by rwa [hid])

open Classical in
noncomputable def undone (d : Db) : Finset Uuid :=
  ((d.outboxEvents.rows.filter (fun o => ¬ d.Done o)).map (fun o => o.id)).toFinset

theorem mem_undone {k : Uuid} : k ∈ undone d ↔ ∃ o, d.outboxEvents.get k = some o ∧ ¬ d.Done o := by
  simp only [undone, List.mem_toFinset, List.mem_map, List.mem_filter, decide_eq_true_eq]
  constructor
  · rintro ⟨o, ⟨ho, hd⟩, rfl⟩
    exact ⟨o, Table.get_of_mem ho, hd⟩
  · rintro ⟨o, ho, hd⟩
    exact ⟨o, ⟨Table.mem_of_get ho, hd⟩, Table.key_of_get ho⟩

theorem undone_of_selected {o : OutboxEvent} (ho : o ∈ selected round.dispatcher (round.requeued rt d)) :
    o.id ∈ undone d := by
  obtain ⟨hm, hs⟩ := mem_eligibleEvents ho
  have hget : (round.requeued rt d).outboxEvents.get o.id = some o := Table.get_of_mem hm
  rw [requeued_eq, get_view_requeue] at hget
  obtain ⟨o₀, ho₀, hpatch⟩ := Option.map_eq_some_iff.mp hget
  rw [mem_undone]
  by_cases hstale : o.id ∈ (stale round d).map (fun o => o.id)
  · obtain ⟨x, hx, hxid⟩ := List.mem_map.mp hstale
    rw [← hxid]
    exact ⟨x, undone_of_stale hx⟩
  · rw [if_neg hstale] at hpatch
    subst hpatch
    exact ⟨o₀, ho₀, fun hd => not_published_of_eligible hs hd.1⟩

variable (rt) in
theorem card_undone_perform (h : Sane d) (hr : round.Healthy limit since) (hripe : Ripe d since due)
    (hdue : due ≤ round.dispatcher.now) : (undone (round.perform rt d)).card ≤ (undone d).card - limit := by
  classical
  have hperformed := performed rt hr h
  let batch := ((selected round.dispatcher (round.requeued rt d)).map (fun o => o.id)).toFinset
  have hbatch : batch.card = (selected round.dispatcher (round.requeued rt d)).length := by
    rw [List.toFinset_card_of_nodup (OutboxDispatcher.nodup_selected _ _), List.length_map]
  have hsub : batch ⊆ undone d := by
    intro k hk
    obtain ⟨o, ho, rfl⟩ := List.mem_map.mp (List.mem_toFinset.mp hk)
    exact undone_of_selected ho
  have hleft : undone (round.perform rt d) ⊆ undone d \ batch := by
    intro k hk
    obtain ⟨o', ho', hdone⟩ := mem_undone.mp hk
    obtain ⟨hk', o, ho, hundone, -⟩ := hperformed.undone ho' hdone
    exact Finset.mem_sdiff.mpr ⟨mem_undone.mpr ⟨o, ho, hundone⟩, fun hm => hk' (List.mem_toFinset.mp hm)⟩
  by_cases hall : undone d ⊆ batch
  · rw [Finset.sdiff_eq_empty_iff_subset.mpr hall] at hleft
    rw [Finset.subset_empty.mp hleft]
    exact Nat.zero_le _
  · obtain ⟨k, hk, hkn⟩ := Finset.not_subset.mp hall
    obtain ⟨o, ho, hdone⟩ := mem_undone.mp hk
    have hfull : limit ≤ batch.card := by
      rw [hbatch]
      exact limit_le_of_left_out h hr hripe hdue ho hdone (fun hm => hkn (List.mem_toFinset.mpr hm))
    calc (undone (round.perform rt d)).card ≤ (undone d \ batch).card := Finset.card_le_card hleft
      _ = (undone d).card - batch.card := Finset.card_sdiff_of_subset hsub
      _ ≤ (undone d).card - limit := Nat.sub_le_sub_left hfull _

end Rows

variable (rt) in
theorem recovered {limit : ℕ} {since due : Time} (rounds : List Round) (h : Sane d) (hripe : Ripe d since due)
    (hr : ∀ round ∈ rounds, round.Healthy limit since ∧ due ≤ round.reconciler.now)
    (hordered : rounds.Pairwise (fun r r' => r.dispatcher.now ≤ r'.reconciler.now)) :
    Sane (Round.performAll rt rounds d) ∧ d.Evolves (Round.performAll rt rounds d) ∧
      (undone (Round.performAll rt rounds d)).card ≤ (undone d).card - limit * rounds.length := by
  induction rounds generalizing d due with
  | nil => exact ⟨h, Db.Evolves.refl d, le_refl _⟩
  | cons round rounds ih =>
    obtain ⟨hhealthy, hdue⟩ := hr round (by simp)
    obtain ⟨hlater, hordered⟩ := List.pairwise_cons.mp hordered
    have hperformed := performed rt hhealthy h
    have hcard := card_undone_perform rt h hhealthy hripe (le_trans hdue hhealthy.ordered)
    have hrest (r : Round) (hm : r ∈ rounds) : r.Healthy limit since ∧ round.reconciler.now ≤ r.reconciler.now :=
      ⟨(hr r (List.mem_cons_of_mem round hm)).1, le_trans hhealthy.ordered (hlater r hm)⟩
    obtain ⟨hsane, hev, hle⟩ := ih hperformed.sane (hperformed.ripe hripe hdue) hrest hordered
    refine ⟨hsane, hperformed.evolves.trans hev, le_trans hle ?_⟩
    rw [List.length_cons, Nat.mul_succ]
    omega

theorem undone_card_le (d : Db) : (undone d).card ≤ d.outboxEvents.rows.length := by
  classical
  refine le_trans (List.toFinset_card_le _) ?_
  rw [List.length_map]
  exact List.length_filter_le _ _

theorem final_of_undone_empty (h : Sane d) (hempty : undone d = ∅) {e : WebhookEvent} (he : e ∈ d.webhookEvents) :
    e.isFinal = true := by
  obtain ⟨js, hinv⟩ := h.outbox
  have hget : d.webhookEvents.get e.id = some e := Table.get_of_mem he
  obtain ⟨o, ho, hoe⟩ := (hinv.linked e.id).mp (by rw [hget]; rfl)
  by_contra hf
  have hmem : o.id ∈ undone d := by
    refine mem_undone.mpr ⟨o, Table.get_of_mem ho, ?_⟩
    rintro ⟨-, e', hid, he', hf'⟩
    rw [← Option.some.inj hid, hoe, hget] at he'
    rw [← Option.some.inj he'] at hf'
    exact hf hf'
  rw [hempty] at hmem
  cases hmem

end Rounds

section Runs

variable {ι : Type} [DecidableEq ι] {rt : Runtime} {req : ι → Request} {ls : List (Label ι)} {σ : SystemState ι}

theorem reachable_sane (h : runs rt req (State.init Db.empty) ls = some σ) : Sane σ.world.db :=
  ⟨reachable_indexes h, ⟨_, reachable_outboxInv h⟩, reachable_confirmationInv h, reachable_lifecycleInv h⟩

theorem recovery (h : runs rt req (State.init Db.empty) ls = some σ) {limit : ℕ} {since : Time} {rounds : List Round}
    (hpublished : ∀ o ∈ σ.world.db.outboxEvents, ∀ t, o.publishedAt = some t → t < since)
    (hdue : ∀ o ∈ σ.world.db.outboxEvents, ∀ t, o.nextAttemptAt = some t → t ≤ since)
    (hr : ∀ round ∈ rounds, round.Healthy limit since)
    (hordered : rounds.Pairwise (fun r r' => r.dispatcher.now ≤ r'.reconciler.now))
    (henough : σ.world.db.outboxEvents.rows.length ≤ limit * rounds.length) :
    (∀ e ∈ (Round.performAll rt rounds σ.world.db).webhookEvents, e.isFinal = true) ∧
      ∀ e ∈ σ.world.db.webhookEvents, ∃ e' ∈ (Round.performAll rt rounds σ.world.db).webhookEvents,
        e.Evolves e' := by
  have hripe : Ripe σ.world.db since since :=
    fun k o ho _ => ⟨fun _ => hpublished o (Table.mem_of_get ho), fun _ => hdue o (Table.mem_of_get ho)⟩
  have hlate (round : Round) (hm : round ∈ rounds) : round.Healthy limit since ∧ since ≤ round.reconciler.now :=
    ⟨hr round hm, le_trans (hr round hm).stale (sub_le_self _ (hr round hm).patient)⟩
  obtain ⟨hsane, hev, hcard⟩ := recovered rt rounds (reachable_sane h) hripe hlate hordered
  have hempty : undone (Round.performAll rt rounds σ.world.db) = ∅ := by
    have hle := undone_card_le σ.world.db
    rw [← Finset.card_eq_zero]
    omega
  exact ⟨fun e he => final_of_undone_empty hsane hempty he, hev.webhookEvents⟩

namespace Sample

def round : Round where
  reconciler := ⟨500, 10, time + 1000, fun _ => false⟩
  dispatcher := ⟨10, time + 2000, fun _ => false, fun _ => .added, fun _ => time + 2000⟩
  jobId _ := none
  clock _ := ⟨time, time, time, time⟩

theorem round_healthy : round.Healthy 10 (time + 500) :=
  ⟨⟨le_refl _, le_refl _⟩, fun _ => ⟨rfl, rfl⟩, fun _ => rfl, fun _ => le_refl _, by decide, by decide, by decide⟩

end Sample

theorem recovery_sample : ∃ σ : SystemState Sample.Party,
    σ.world.db.webhookEvents.rows.map (fun e => e.status) = [.queued] ∧
      (∀ e ∈ (Round.performAll Sample.runtime [Sample.round] σ.world.db).webhookEvents, e.isFinal = true) ∧
      ∀ e ∈ σ.world.db.webhookEvents, ∃ e' ∈ (Round.performAll Sample.runtime [Sample.round] σ.world.db).webhookEvents,
        e.Evolves e' := by
  have hrun : (runs Sample.runtime Sample.requests (State.init Db.empty) Sample.publication).any (fun σ =>
      decide (σ.world.db.webhookEvents.rows.map (fun e => e.status) = [.queued]) &&
        decide (σ.world.db.outboxEvents.rows.length ≤ 10) && σ.world.db.outboxEvents.rows.all (fun o =>
          o.publishedAt.all (fun t => t < Sample.time + 500) &&
            o.nextAttemptAt.all (fun t => t ≤ Sample.time + 500))) = true := by
    decide +kernel
  obtain ⟨σ, hσ, hrows⟩ := (Option.any_eq_true _ _).mp hrun
  simp only [Bool.and_eq_true, decide_eq_true_eq, List.all_eq_true] at hrows
  obtain ⟨⟨hstatus, hlength⟩, htimes⟩ := hrows
  have hhealthy : ∀ round ∈ [Sample.round], round.Healthy 10 (Sample.time + 500) := by
    intro round hm
    rw [List.mem_singleton.mp hm]
    exact Sample.round_healthy
  refine ⟨σ, hstatus, recovery hσ ?_ ?_ hhealthy (List.pairwise_singleton _ _) (by simpa using hlength)⟩
  · intro o ho t ht
    simpa [ht] using (htimes o ho).1
  · intro o ho t ht
    simpa [ht] using (htimes o ho).2

end Runs

end EventGateway
