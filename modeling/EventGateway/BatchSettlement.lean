import EventGateway.PoisonPayloads

namespace EventGateway.OutboxDispatcher

open KeyedTable TransactionProgram Interleaving RelyGuarantee Statements

def isUsable (o : OutboxEvent) : Bool := (o.payload.text "webhookEventId").isSome

def isRejected : PublishOutcome → Bool
  | .added => false
  | .failed _ _ => true

def failurePosition (run : DispatchRun) (rows : List OutboxEvent) : ℕ :=
  rows.findIdx (fun o => isUsable o && isRejected (run.outcome o.id))

def publisherCall : Stmt → Option JobData
  | .publishProcessWebhookEvent data _ => some data
  | _ => none

def publisherCalls (run : DispatchRun) (d : Db) : List JobData :=
  (engine.statements (dispatchBatch run) d).filterMap publisherCall

def OwnOrMissing (o : OutboxEvent) : Prop := NamesEvent o o.aggregateId ∨ o.payload.text "webhookEventId" = none

def queueReceived (e : WebhookEvent) : WebhookEvent := if e.status = .received then queued.apply e else e

section Rows

variable (run : DispatchRun)

def settlePatch (o : OutboxEvent) : OutboxEventPatch :=
  if isUsable o then .published (run.dateNow o.id)
  else .nonRetryableFailure (o.attempts + 1) (run.dateNow o.id) (sanitizeErrorMessage .invalidOutboxPayload)

def settleRow (d : Db) (o : OutboxEvent) : Db :=
  (if isUsable o then markQueued d o.aggregateId else d).apply (.updateOutboxEvent o.id (settlePatch run o) run.now)

def rejection : PublishOutcome → Text
  | .added => []
  | .failed message _ => message

def failPatch (o : OutboxEvent) : OutboxEventPatch :=
  .transientFailure (o.attempts + 1) (run.dateNow o.id + calculateOutboxBackoffMs (o.attempts + 1))
    (sanitizeErrorMessage (.publish (rejection (run.outcome o.id)))) (run.dateNow o.id)

def failRow (o : Option OutboxEvent) (d : Db) : Db :=
  match o with
  | some o => d.apply (.updateOutboxEvent o.id (failPatch run o) run.now)
  | none => d

end Rows

theorem get_markQueued_eq (d : Db) (id k : Uuid) : (markQueued d id).webhookEvents.get k =
    if id = k then (d.webhookEvents.get k).map queueReceived else d.webhookEvents.get k := by
  unfold markQueued
  by_cases hk : id = k
  · subst hk
    rw [if_pos rfl]
    cases he : d.webhookEvents.get id with
    | none => simp [he]
    | some e =>
      by_cases hs : e.status = .received
      · simp only [Option.any_some, hs, decide_true, ↓reduceIte, Option.map_some, queueReceived]
        change (d.webhookEvents.update id queued).get id = _
        rw [Table.get_update_self, he]
        rfl
      · simp [hs, he, queueReceived]
  · rw [if_neg hk]
    split_ifs
    · exact Table.get_update_of_ne _ (fun h => hk h.symm)
    · rfl

section Settle

variable {run : DispatchRun}

theorem get_settleRow_event (d : Db) (o : OutboxEvent) (k : Uuid) : (settleRow run d o).webhookEvents.get k =
    if isUsable o = true ∧ o.aggregateId = k then (d.webhookEvents.get k).map queueReceived else d.webhookEvents.get k := by
  by_cases hu : isUsable o = true
  · simp only [settleRow, hu, ↓reduceIte, true_and]
    exact get_markQueued_eq d o.aggregateId k
  · simp only [settleRow, hu, Bool.false_eq_true, ↓reduceIte, false_and]
    rfl

theorem settleRow_outboxEvents (d : Db) (o : OutboxEvent) :
    (settleRow run d o).outboxEvents = d.outboxEvents.update o.id ((settlePatch run o).change run.now) := by
  rw [settleRow]
  split_ifs
  · change (markQueued d o.aggregateId).outboxEvents.update _ _ = _
    rw [markQueued_outboxEvents]
  · rfl

theorem settleRow_rest (run : DispatchRun) (d : Db) (o : OutboxEvent) : (settleRow run d o).paymentIntents = d.paymentIntents ∧
    (settleRow run d o).idempotencyRecords = d.idempotencyRecords ∧
    (settleRow run d o).webhookProcessingAttempts = d.webhookProcessingAttempts := by
  rw [settleRow, markQueued]
  split_ifs <;> exact ⟨rfl, rfl, rfl⟩

theorem queueReceived_queueReceived (e : WebhookEvent) : queueReceived (queueReceived e) = queueReceived e := by
  unfold queueReceived
  split_ifs with h₁ h₂
  · cases h₂
  · rfl
  · rfl

theorem get_settleRows_event (rows : List OutboxEvent) (d : Db) (k : Uuid) :
    (rows.foldl (settleRow run) d).webhookEvents.get k =
      if ∃ o ∈ rows, isUsable o = true ∧ o.aggregateId = k then (d.webhookEvents.get k).map queueReceived
      else d.webhookEvents.get k := by
  induction rows generalizing d with
  | nil => simp
  | cons x rows ih =>
    rw [List.foldl_cons, ih, get_settleRow_event]
    by_cases hx : isUsable x = true ∧ x.aggregateId = k
    · by_cases hrows : ∃ o ∈ rows, isUsable o = true ∧ o.aggregateId = k
      · have hmap : ((d.webhookEvents.get k).map queueReceived).map queueReceived =
            (d.webhookEvents.get k).map queueReceived := by
          rw [Option.map_map]
          exact congrArg (fun f => (d.webhookEvents.get k).map f) (funext queueReceived_queueReceived)
        simp [hx, hrows, hmap]
      · simp [hx, hrows]
    · by_cases hrows : ∃ o ∈ rows, isUsable o = true ∧ o.aggregateId = k
      · rw [if_pos hrows, if_neg hx, if_pos]
        obtain ⟨o, ho, h⟩ := hrows
        exact ⟨o, List.mem_cons_of_mem x ho, h⟩
      · rw [if_neg hrows, if_neg hx, if_neg]
        rintro ⟨o, ho, h⟩
        rcases List.mem_cons.mp ho with rfl | ho
        · exact hx h
        · exact hrows ⟨o, ho, h⟩

theorem get_settleRows_other {rows : List OutboxEvent} (d : Db) {k : Uuid} (hk : ∀ o ∈ rows, o.id ≠ k) :
    (rows.foldl (settleRow run) d).outboxEvents.get k = d.outboxEvents.get k := by
  induction rows generalizing d with
  | nil => rfl
  | cons x rows ih =>
    rw [List.foldl_cons, ih _ (fun o ho => hk o (List.mem_cons_of_mem x ho)), settleRow_outboxEvents]
    exact Table.get_update_of_ne _ (fun h => hk x (by simp) h.symm)

theorem get_settleRows_row {rows : List OutboxEvent} {d : Db} (hids : (rows.map (fun o => o.id)).Nodup)
    (hget : ∀ o ∈ rows, d.outboxEvents.get o.id = some o) {o : OutboxEvent} (ho : o ∈ rows) :
    (rows.foldl (settleRow run) d).outboxEvents.get o.id = some (o.patch (settlePatch run o) run.now) := by
  induction rows generalizing d with
  | nil => cases ho
  | cons x rows ih =>
    rw [List.map_cons, List.nodup_cons] at hids
    have hne : ∀ o ∈ rows, o.id ≠ x.id := fun o ho h => hids.1 (h ▸ List.mem_map_of_mem ho)
    rw [List.foldl_cons]
    rcases List.mem_cons.mp ho with rfl | ho
    · rw [get_settleRows_other _ hne, settleRow_outboxEvents, Table.get_update_self, hget o (by simp)]
      rfl
    · apply ih hids.2 _ ho
      intro o' ho'
      rw [settleRow_outboxEvents, Table.get_update_of_ne _ (hne o' ho')]
      exact hget o' (List.mem_cons_of_mem x ho')

theorem settleRows_rest (run : DispatchRun) (rows : List OutboxEvent) (d : Db) :
    (rows.foldl (settleRow run) d).paymentIntents = d.paymentIntents ∧
      (rows.foldl (settleRow run) d).idempotencyRecords = d.idempotencyRecords ∧
      (rows.foldl (settleRow run) d).webhookProcessingAttempts = d.webhookProcessingAttempts := by
  induction rows generalizing d with
  | nil => exact ⟨rfl, rfl, rfl⟩
  | cons x rows ih =>
    obtain ⟨h₁, h₂, h₃⟩ := ih (settleRow run d x)
    obtain ⟨g₁, g₂, g₃⟩ := settleRow_rest run d x
    exact ⟨h₁.trans g₁, h₂.trans g₂, h₃.trans g₃⟩

end Settle

section Batch

variable {run : DispatchRun} {α : Type} {origin d : Db} {o : OutboxEvent} {data : JobData} {f : Bool → Script α}

theorem eval_publish_rejected {message : Text} {reachedQueue : Bool} (hpub : run.outcome o.id = .failed message reachedQueue)
    (d : Db) : engine.eval (.publishProcessWebhookEvent data (run.outcome o.id)) d (fun _ => false) =
      .refused (.publish message) := by
  rw [hpub]
  rfl

theorem failPatch_eq {message : Text} {reachedQueue : Bool} (hpub : run.outcome o.id = .failed message reachedQueue) :
    failPatch run o = .transientFailure (o.attempts + 1) (run.dateNow o.id + calculateOutboxBackoffMs (o.attempts + 1))
      (sanitizeErrorMessage (.publish message)) (run.dateNow o.id) := by
  rw [failPatch, hpub, rejection]

theorem exec_publish_rejected {message : Text} {reachedQueue : Bool} (hpub : run.outcome o.id = .failed message reachedQueue) :
    Agrees (engine.exec origin (publishOutboxEvent run o data >>= f) d)
      (engine.exec origin (f false) (d.apply (.updateOutboxEvent o.id (failPatch run o) run.now))) := by
  unfold publishOutboxEvent
  rw [query, Engine.exec_tryCatch_call_bind, eval_publish_rejected hpub, failPatch_eq hpub]
  exact ⟨rfl, rfl⟩

theorem calls_publish_rejected {message : Text} {reachedQueue : Bool} (hpub : run.outcome o.id = .failed message reachedQueue) :
    (engine.statements (publishOutboxEvent run o data >>= f) d).filterMap publisherCall =
      data :: (engine.statements (f false) (d.apply (.updateOutboxEvent o.id (failPatch run o) run.now))).filterMap
        publisherCall := by
  unfold publishOutboxEvent
  rw [query, Engine.statements_tryCatch_call_bind, eval_publish_rejected hpub, failPatch_eq hpub]
  rfl

theorem calls_publish_uuid {id : Uuid} (hpub : run.outcome o.id = .added) (hid : Uuid.parse data.webhookEventId = some id) :
    (engine.statements (publishOutboxEvent run o data >>= f) d).filterMap publisherCall =
      data :: (engine.statements (f true)
        ((markQueued d id).apply (.updateOutboxEvent o.id (.published (run.dateNow o.id)) run.now))).filterMap
          publisherCall := by
  obtain ⟨ws, ls, hqueued, hview⟩ := eval_markWebhookQueued hid d
  unfold publishOutboxEvent
  rw [query, Engine.statements_tryCatch_call_bind, eval_publish hpub]
  simp only [query, Engine.statements_tryCatch_call_bind, Engine.view_nil, hqueued, hview]
  rfl

theorem failurePosition_cons_of_rejected {x : OutboxEvent} (rows : List OutboxEvent) (hu : isUsable x = true)
    (hpub : isRejected (run.outcome x.id) = true) : failurePosition run (x :: rows) = 0 := by
  simp [failurePosition, List.findIdx_cons, hu, hpub]

theorem failurePosition_cons {x : OutboxEvent} (rows : List OutboxEvent)
    (hx : isUsable x = true → isRejected (run.outcome x.id) = false) :
    failurePosition run (x :: rows) = failurePosition run rows + 1 := by
  have hfalse : (isUsable x && isRejected (run.outcome x.id)) = false := by
    cases hu : isUsable x with
    | false => rfl
    | true => exact hx hu
  simp [failurePosition, List.findIdx_cons, hfalse]

structure Processes (run : DispatchRun) (rows : List OutboxEvent) (result : OutboxDispatchBatchResult) (d : Db)
    (outcome : Outcome Failure Db JobData OutboxDispatchBatchResult) (calls : List JobData) : Prop where
  result : outcome.result = .ok
    { selected := result.selected
      published := result.published + (rows.take (failurePosition run rows)).countP isUsable
      failed := result.failed + (rows.take (failurePosition run rows)).countP (fun o => !isUsable o) +
        (rows[failurePosition run rows]?).toList.length }
  db : outcome.db =
    failRow run rows[failurePosition run rows]? ((rows.take (failurePosition run rows)).foldl (settleRow run) d)
  calls : calls = (rows.take (failurePosition run rows + 1)).filterMap (fun o => (toJobData o).toOption)

theorem Processes.nil (result : OutboxDispatchBatchResult) (d : Db) : Processes run [] result d ⟨.ok result, d, []⟩ [] :=
  ⟨rfl, rfl, rfl⟩

theorem Processes.stop {x : OutboxEvent} {rows : List OutboxEvent} {result : OutboxDispatchBatchResult}
    {outcome : Outcome Failure Db JobData OutboxDispatchBatchResult} (hu : isUsable x = true)
    (hpub : isRejected (run.outcome x.id) = true)
    (hresult : outcome.result = .ok { result with failed := result.failed + 1 })
    (hdb : outcome.db = d.apply (.updateOutboxEvent x.id (failPatch run x) run.now)) (hdata : toJobData x = .ok data) :
    Processes run (x :: rows) result d outcome [data] := by
  have hpos := failurePosition_cons_of_rejected rows hu hpub
  constructor
  · rw [hresult, hpos]
    rfl
  · rw [hdb, hpos]
    rfl
  · rw [hpos]
    simp [hdata, Except.toOption]

theorem Processes.cons {d₁ : Db} {x : OutboxEvent} {rows : List OutboxEvent} {result result' : OutboxDispatchBatchResult}
    {outcome outcome' : Outcome Failure Db JobData OutboxDispatchBatchResult} {calls calls' : List JobData}
    (h : Processes run rows result' d₁ outcome calls) (hd₁ : d₁ = settleRow run d x) (hagrees : Agrees outcome' outcome)
    (hx : isUsable x = true → isRejected (run.outcome x.id) = false)
    (hresult : result' = if isUsable x then { result with published := result.published + 1 }
      else { result with failed := result.failed + 1 })
    (hcalls : calls' = (toJobData x).toOption.toList ++ calls) : Processes run (x :: rows) result d outcome' calls' := by
  have hpos := failurePosition_cons rows hx
  constructor
  · rw [hagrees.1, h.result, hpos, hresult]
    cases hu : isUsable x with
    | false =>
      simp [hu]
      omega
    | true =>
      simp [hu]
      omega
  · rw [hagrees.2, h.db, hpos, hd₁]
    rfl
  · rw [hcalls, h.calls, hpos, List.take_succ_cons, List.filterMap_cons]
    cases (toJobData x).toOption <;> rfl

theorem processes_dispatchEvents {rows : List OutboxEvent} (hrows : ∀ o ∈ rows, OwnOrMissing o)
    (result : OutboxDispatchBatchResult) (origin d : Db) :
    Processes run rows result d (engine.exec origin (dispatchEvents run rows result) d)
      ((engine.statements (dispatchEvents run rows result) d).filterMap publisherCall) := by
  induction rows generalizing d result with
  | nil => exact .nil result d
  | cons x rows ih =>
    have htail := fun o ho => hrows o (List.mem_cons_of_mem x ho)
    unfold dispatchEvents
    rcases hrows x (by simp) with ⟨t, ht, hid⟩ | hnone
    · have hu : isUsable x = true := by simp [isUsable, ht]
      obtain ⟨c, hdata⟩ := toJobData_of_some ht
      simp only [hdata]
      cases hpub : run.outcome x.id with
      | added =>
        have hrest := ih htail { result with published := result.published + 1 }
          ((markQueued d x.aggregateId).apply (.updateOutboxEvent x.id (.published (run.dateNow x.id)) run.now))
        refine hrest.cons ?_ (exec_publish_uuid hpub hid) (fun _ => ?_) ?_ ?_
        · simp only [settleRow, settlePatch, hu, ↓reduceIte]
        · rw [hpub]
          rfl
        · rw [hu]
          rfl
        · rw [calls_publish_uuid hpub hid, hdata]
          rfl
      | failed message reachedQueue =>
        rw [calls_publish_rejected hpub]
        refine .stop hu ?_ (exec_publish_rejected hpub).1 (exec_publish_rejected hpub).2 hdata
        rw [hpub]
        rfl
    · have hu : isUsable x = false := by simp [isUsable, hnone]
      have hdata := toJobData_of_none hnone
      simp only [hdata]
      have hrest := ih htail { result with failed := result.failed + 1 } (d.apply (.updateOutboxEvent x.id
        (.nonRetryableFailure (x.attempts + 1) (run.dateNow x.id) (sanitizeErrorMessage .invalidOutboxPayload)) run.now))
      refine hrest.cons ?_ ⟨rfl, rfl⟩ (fun h => ?_) ?_ ?_
      · simp only [settleRow, settlePatch, hu, Bool.false_eq_true, ↓reduceIte]
      · rw [hu] at h
        cases h
      · rw [hu]
        rfl
      · rw [hdata]
        rfl

end Batch

section Tables

variable {run : DispatchRun} {d : Db} {before : List OutboxEvent} {stop : Option OutboxEvent}

theorem get_failRow_other {id : Uuid} (h : ∀ o ∈ stop.toList, o.id ≠ id) :
    (failRow run stop d).outboxEvents.get id = d.outboxEvents.get id := by
  cases stop with
  | none => rfl
  | some o => exact Table.get_update_of_ne _ (fun he => h o (by simp) he.symm)

theorem failRow_rest (run : DispatchRun) (stop : Option OutboxEvent) (d : Db) :
    (failRow run stop d).webhookEvents = d.webhookEvents ∧ (failRow run stop d).paymentIntents = d.paymentIntents ∧
      (failRow run stop d).idempotencyRecords = d.idempotencyRecords ∧
      (failRow run stop d).webhookProcessingAttempts = d.webhookProcessingAttempts := by
  cases stop with
  | none => exact ⟨rfl, rfl, rfl, rfl⟩
  | some o => exact ⟨rfl, rfl, rfl, rfl⟩

theorem get_batch_other {id : Uuid} (h : ∀ o ∈ before ++ stop.toList, o.id ≠ id) :
    (failRow run stop (before.foldl (settleRow run) d)).outboxEvents.get id = d.outboxEvents.get id := by
  rw [get_failRow_other (fun o ho => h o (List.mem_append_right _ ho)),
    get_settleRows_other _ (fun o ho => h o (List.mem_append_left _ ho))]

variable (hids : ((before ++ stop.toList).map (fun o => o.id)).Nodup)
  (hget : ∀ o ∈ before ++ stop.toList, d.outboxEvents.get o.id = some o)

include hids

theorem id_ne_of_nodup {o x : OutboxEvent} (ho : o ∈ before) (hx : x ∈ stop.toList) : o.id ≠ x.id := by
  rw [List.map_append, List.nodup_append] at hids
  exact hids.2.2 _ (List.mem_map_of_mem ho) _ (List.mem_map_of_mem hx)

include hget

theorem get_batch_settled {o : OutboxEvent} (ho : o ∈ before) :
    (failRow run stop (before.foldl (settleRow run) d)).outboxEvents.get o.id =
      some (o.patch (settlePatch run o) run.now) := by
  have hbefore : (before.map (fun o => o.id)).Nodup := hids.sublist ((List.sublist_append_left _ _).map _)
  rw [get_failRow_other (fun x hx h => id_ne_of_nodup hids ho hx h.symm),
    get_settleRows_row hbefore (fun o ho => hget o (List.mem_append_left _ ho)) ho]

theorem get_batch_failed {o : OutboxEvent} (ho : stop = some o) :
    (failRow run stop (before.foldl (settleRow run) d)).outboxEvents.get o.id = some (o.patch (failPatch run o) run.now) := by
  subst ho
  have hother : (before.foldl (settleRow run) d).outboxEvents.get o.id = some o := by
    rw [get_settleRows_other _ (fun x hx => id_ne_of_nodup hids hx (by simp))]
    exact hget o (by simp)
  change (Table.update _ o.id _).get o.id = _
  rw [Table.get_update_self, hother]
  rfl

end Tables

structure SettlesBatch (run : DispatchRun) (d : Db) (rows : List OutboxEvent) (k : ℕ) : Prop where
  inOrder : rows.Pairwise (fun a b => a.createdAt ≤ b.createdAt)
  counters : (engine.transaction (dispatchBatch run) d).result = .ok
    { selected := rows.length
      published := (rows.take k).countP isUsable
      failed := (rows.take k).countP (fun o => !isUsable o) + if k < rows.length then 1 else 0 }
  published : ∀ o ∈ rows.take k, isUsable o = true →
    (engine.transaction (dispatchBatch run) d).db.outboxEvents.get o.id = some
      { o with
        status := .published, publishedAt := some (run.dateNow o.id), nextAttemptAt := none, lastError := none
        updatedAt := run.now, writtenAt := run.dateNow o.id }
  queued : ∀ o ∈ rows.take k, isUsable o = true → ∀ e, d.webhookEvents.get o.aggregateId = some e → e.status = .received →
    (engine.transaction (dispatchBatch run) d).db.webhookEvents.get o.aggregateId = some { e with status := .queued }
  poisoned : ∀ o ∈ rows.take k, isUsable o = false →
    (engine.transaction (dispatchBatch run) d).db.outboxEvents.get o.id = some
      { o with
        status := .failed, attempts := o.attempts + 1, nextAttemptAt := none, deadAt := some (run.dateNow o.id)
        lastError := some "INVALID_OUTBOX_PAYLOAD".toList, updatedAt := run.now, writtenAt := run.dateNow o.id }
  failed : ∀ o, rows[k]? = some o → isUsable o = true ∧ isRejected (run.outcome o.id) = true ∧
    (engine.transaction (dispatchBatch run) d).db.outboxEvents.get o.id = some
      { o with
        status := .failed, attempts := o.attempts + 1, deadAt := none
        nextAttemptAt := some (run.dateNow o.id + (min (5000 * 2 ^ o.attempts) 300000 : ℕ))
        lastError := some (sanitizeErrorMessage (.publish (rejection (run.outcome o.id))))
        updatedAt := run.now, writtenAt := run.dateNow o.id }
  otherRows : ∀ id, (∀ o ∈ rows.take (k + 1), o.id ≠ id) →
    (engine.transaction (dispatchBatch run) d).db.outboxEvents.get id = d.outboxEvents.get id
  laterRows : ∀ o ∈ rows.drop (k + 1), (engine.transaction (dispatchBatch run) d).db.outboxEvents.get o.id = some o
  otherEvents : ∀ id, (∀ o ∈ rows.take k, isUsable o = true → o.aggregateId = id →
      ∀ e, d.webhookEvents.get id = some e → e.status ≠ .received) →
    (engine.transaction (dispatchBatch run) d).db.webhookEvents.get id = d.webhookEvents.get id
  otherTables : (engine.transaction (dispatchBatch run) d).db.paymentIntents = d.paymentIntents ∧
    (engine.transaction (dispatchBatch run) d).db.idempotencyRecords = d.idempotencyRecords ∧
    (engine.transaction (dispatchBatch run) d).db.webhookProcessingAttempts = d.webhookProcessingAttempts
  calls : publisherCalls run d = (rows.take (k + 1)).filterMap (fun o => (toJobData o).toOption)

theorem isUsable_of_failurePosition {run : DispatchRun} {rows : List OutboxEvent} {o : OutboxEvent}
    (ho : rows[failurePosition run rows]? = some o) :
    isUsable o = true ∧ isRejected (run.outcome o.id) = true := by
  obtain ⟨hlt, rfl⟩ := List.getElem?_eq_some_iff.mp ho
  have hfind : (isUsable rows[failurePosition run rows] && isRejected (run.outcome rows[failurePosition run rows].id)) = true :=
    List.findIdx_getElem (w := hlt)
  rwa [Bool.and_eq_true] at hfind

theorem sorted_selected (run : DispatchRun) (d : Db) :
    (selected run d).Pairwise (fun a b => a.createdAt ≤ b.createdAt) := by
  have hsorted := List.pairwise_insertionSort (fun a b : OutboxEvent => a.createdAt ≤ b.createdAt)
    (d.outboxEvents.rows.filter (fun e => isEligible processWebhookOutboxType run.now e && !false && !run.hidden e.id))
  exact hsorted.sublist (List.take_sublist _ _)

theorem dispatchBatch_settles (run : DispatchRun) (d : Db) (hrows : ∀ o ∈ selected run d, OwnOrMissing o) :
    SettlesBatch run d (selected run d) (failurePosition run (selected run d)) := by
  obtain ⟨hresult, hdb⟩ := transaction_dispatchBatch run d
  have hbatch : Processes run (selected run d) _ d _ _ := processes_dispatchEvents hrows ⟨(selected run d).length, 0, 0⟩ d d
  have hstop : ∀ o, (selected run d)[failurePosition run (selected run d)]? = some o →
      isUsable o = true ∧ isRejected (run.outcome o.id) = true := fun o ho => isUsable_of_failurePosition ho
  rw [hbatch.db] at hdb
  rw [hbatch.result] at hresult
  have hcalls : publisherCalls run d = _ := hbatch.calls
  have hids := nodup_selected run d
  have hget : ∀ o ∈ selected run d, d.outboxEvents.get o.id = some o :=
    fun o ho => Table.get_of_mem (mem_eligibleEvents ho).1
  have hinOrder := sorted_selected run d
  generalize selected run d = rows at *
  generalize failurePosition run rows = k at *
  have htake : rows.take k ++ rows[k]?.toList = rows.take (k + 1) := List.take_add_one.symm
  have hids' : ((rows.take k ++ rows[k]?.toList).map (fun o => o.id)).Nodup := by
    rw [htake]
    exact hids.sublist ((List.take_sublist _ _).map _)
  have hget' : ∀ o ∈ rows.take k ++ rows[k]?.toList, d.outboxEvents.get o.id = some o := by
    rw [htake]
    exact fun o ho => hget o (List.mem_of_mem_take ho)
  obtain ⟨hevents, hintents, hrecords, hattempts⟩ := failRow_rest run rows[k]? ((rows.take k).foldl (settleRow run) d)
  obtain ⟨hintents', hrecords', hattempts'⟩ := settleRows_rest run (rows.take k) d
  constructor
  · exact hinOrder
  · rw [hresult]
    have hcount : rows[k]?.toList.length = if k < rows.length then 1 else 0 := by
      split_ifs with hk
      · simp [hk]
      · simp [Nat.le_of_not_lt hk]
    simp only [Nat.zero_add, hcount]
  · intro o ho hu
    rw [hdb, get_batch_settled hids' hget' ho, settlePatch, if_pos hu]
    rfl
  · intro o ho hu e he hs
    rw [hdb, hevents, get_settleRows_event, if_pos ⟨o, ho, hu, rfl⟩, he]
    simp only [Option.map_some, queueReceived, if_pos hs]
    rfl
  · intro o ho hu
    rw [hdb, get_batch_settled hids' hget' ho, settlePatch, if_neg (by simp [hu])]
    rfl
  · intro o ho
    refine ⟨(hstop o ho).1, (hstop o ho).2, ?_⟩
    rw [hdb, get_batch_failed hids' hget' ho]
    rfl
  · intro id hid
    rw [hdb, get_batch_other]
    rwa [htake]
  · intro o ho
    rw [hdb, get_batch_other]
    · exact hget o (List.mem_of_mem_drop ho)
    · rw [htake]
      intro x hx h
      rw [← List.take_append_drop (k + 1) rows, List.map_append, List.nodup_append] at hids
      exact hids.2.2 _ (List.mem_map_of_mem hx) _ (List.mem_map_of_mem ho) h
  · intro id hid
    rw [hdb, hevents, get_settleRows_event]
    split_ifs with h
    · obtain ⟨o, ho, hu, rfl⟩ := h
      cases he : d.webhookEvents.get o.aggregateId with
      | none => rfl
      | some e => simp only [Option.map_some, queueReceived, if_neg (hid o ho hu rfl e he)]
    · rfl
  · rw [hdb]
    exact ⟨hintents.trans hintents', hrecords.trans hrecords', hattempts.trans hattempts'⟩
  · exact hcalls

def decliningRun : DispatchRun := ⟨10, 0, fun _ => false, fun _ => .failed "Connection is closed.".toList false, fun _ => 0⟩

theorem dispatchBatch_settles_declined :
    SettlesBatch decliningRun (pendingDb (.num (.finite 7)))
      [pendingRow 3 (.num (.finite 7)), pendingRow 4 (.str receivedEvent.id.render)] 1 := by
  have hrows : selected decliningRun (pendingDb (.num (.finite 7))) =
      [pendingRow 3 (.num (.finite 7)), pendingRow 4 (.str receivedEvent.id.render)] := rfl
  refine dispatchBatch_settles decliningRun (pendingDb (.num (.finite 7))) ?_
  rw [hrows]
  intro o ho
  simp only [List.mem_cons, List.not_mem_nil, or_false] at ho
  rcases ho with rfl | rfl
  · exact .inr rfl
  · exact .inl ⟨receivedEvent.id.render, rfl, by decide⟩

end EventGateway.OutboxDispatcher
