import EventGateway.DispatchIsolation

namespace EventGateway.OutboxDispatcher

open KeyedTable TransactionProgram Interleaving RelyGuarantee Statements

def selected (run : DispatchRun) (d : Db) : List OutboxEvent :=
  eligibleEvents d (fun _ => false) processWebhookOutboxType run.limit run.now run.hidden

def NamesEvent (o : OutboxEvent) (id : Uuid) : Prop :=
  ∃ t, o.payload.text "webhookEventId" = some t ∧ Uuid.parse t = some id

def Poison (o : OutboxEvent) : Prop := ∀ id, ¬ NamesEvent o id

structure BatchIsolated (run : DispatchRun) (d : Db) : Prop where
  commits : ∃ r, (engine.transaction (dispatchBatch run) d).result = .ok r
  published : ∀ o ∈ selected run d, ∀ id, NamesEvent o id → (d.webhookEvents.get id).isSome = true →
    ∃ o', (engine.transaction (dispatchBatch run) d).db.outboxEvents.get o.id = some o' ∧ o'.status = .published ∧
      ∃ e, (engine.transaction (dispatchBatch run) d).db.webhookEvents.get id = some e ∧ e.status ≠ .received
  dead : ∀ o ∈ selected run d, Poison o →
    ∃ o', (engine.transaction (dispatchBatch run) d).db.outboxEvents.get o.id = some o' ∧ o'.status = .failed ∧
      o'.deadAt.isSome = true ∧ ∀ now, isEligible processWebhookOutboxType now o' = false

def markQueued (d : Db) (id : Uuid) : Db :=
  if (d.webhookEvents.get id).any (fun e => e.status = .received) then d.apply (.markWebhookQueued id) else d

section Row

variable {run : DispatchRun} {α : Type} {origin d : Db} {o : OutboxEvent} {data : JobData} {f : Bool → Script α}

theorem eval_publish (hpub : run.outcome o.id = .added) (d : Db) :
    engine.eval (.publishProcessWebhookEvent data (run.outcome o.id)) d (fun _ => false) = .ok () [] [] := by
  rw [hpub]
  rfl

theorem eval_markWebhookQueued {id : Uuid} (hid : Uuid.parse data.webhookEventId = some id) (d : Db) :
    ∃ ws ls, engine.eval (.markWebhookQueued data.webhookEventId) d (fun _ => false) = .ok () ws ls ∧
      engine.view d ws = markQueued d id := by
  simp only [engine_eval, eval, hid, markQueued]
  split_ifs
  · exact ⟨_, _, rfl, rfl⟩
  · exact ⟨_, _, rfl, rfl⟩

theorem exec_publish_uuid {id : Uuid} (hpub : run.outcome o.id = .added)
    (hid : Uuid.parse data.webhookEventId = some id) :
    Agrees (engine.exec origin (publishOutboxEvent run o data >>= f) d) (engine.exec origin (f true)
      ((markQueued d id).apply (.updateOutboxEvent o.id (.published (run.dateNow o.id)) run.now))) := by
  obtain ⟨ws, ls, hqueued, hview⟩ := eval_markWebhookQueued hid d
  unfold publishOutboxEvent
  rw [query, Engine.exec_tryCatch_call_bind, eval_publish hpub]
  simp only [query, Engine.exec_tryCatch_call_bind, Engine.view_nil, hqueued, hview]
  exact ⟨rfl, rfl⟩

theorem exec_publish_notUuid (hpub : run.outcome o.id = .added) (hid : Uuid.parse data.webhookEventId = none) :
    (engine.exec origin (publishOutboxEvent run o data >>= f) d).result =
      .error (.database .inFailedSqlTransaction) := by
  -- the handler runs in a transaction that accepts no statement any more
  have hfault : engine.eval (.markWebhookQueued data.webhookEventId) d (fun _ => false) =
      .fault (.database .invalidTextRepresentation) := by
    simp only [engine_eval, eval, hid]
  unfold publishOutboxEvent
  rw [query, Engine.exec_tryCatch_call_bind, eval_publish hpub]
  simp only [query, Engine.exec_tryCatch_call_bind, Engine.view_nil, hfault]
  rfl

end Row

structure Delivers (rows : List OutboxEvent) (d d' : Db) : Prop where
  others : ∀ k, k ∉ rows.map (fun o => o.id) → d'.outboxEvents.get k = d.outboxEvents.get k
  events : ∀ k e, d.webhookEvents.get k = some e →
    ∃ e', d'.webhookEvents.get k = some e' ∧ (e'.status = .received → e.status = .received)
  published : ∀ o ∈ rows, ∀ id, NamesEvent o id → (d.outboxEvents.get o.id).isSome = true →
    (d.webhookEvents.get id).isSome = true → ∃ o', d'.outboxEvents.get o.id = some o' ∧ o'.status = .published ∧
      ∃ e, d'.webhookEvents.get id = some e ∧ e.status ≠ .received
  dead : ∀ o ∈ rows, Poison o → (d.outboxEvents.get o.id).isSome = true →
    ∃ o', d'.outboxEvents.get o.id = some o' ∧ o'.status = .failed ∧ o'.deadAt.isSome = true

theorem Delivers.nil (d : Db) : Delivers [] d d := by
  constructor
  · exact fun _ _ => rfl
  · exact fun k e he => ⟨e, he, id⟩
  · exact fun o ho => absurd ho (by simp)
  · exact fun o ho => absurd ho (by simp)

theorem Delivers.cons {x : OutboxEvent} {rows : List OutboxEvent} {d d₁ d₂ : Db} (hx : Delivers [x] d d₁)
    (hrows : Delivers rows d₁ d₂) (hne : x.id ∉ rows.map (fun o => o.id)) : Delivers (x :: rows) d d₂ := by
  have hkeep (o : OutboxEvent) (ho : o ∈ rows) : d₁.outboxEvents.get o.id = d.outboxEvents.get o.id := by
    apply hx.others
    intro hm
    rw [List.map_singleton, List.mem_singleton] at hm
    exact hne (hm ▸ List.mem_map_of_mem (f := fun o => o.id) ho)
  constructor
  · intro k hk
    rw [List.map_cons, List.mem_cons, not_or] at hk
    rw [hrows.others k hk.2, hx.others k (by simpa using hk.1)]
  · intro k e he
    obtain ⟨e₁, he₁, hs₁⟩ := hx.events k e he
    obtain ⟨e₂, he₂, hs₂⟩ := hrows.events k e₁ he₁
    exact ⟨e₂, he₂, fun h => hs₁ (hs₂ h)⟩
  · intro o ho id hn hrow hevent
    rcases List.mem_cons.mp ho with rfl | ho
    · obtain ⟨o', ho', hs, e₁, he₁, hne₁⟩ := hx.published o (by simp) id hn hrow hevent
      obtain ⟨e₂, he₂, hs₂⟩ := hrows.events id e₁ he₁
      exact ⟨o', (hrows.others _ hne).trans ho', hs, e₂, he₂, fun h => hne₁ (hs₂ h)⟩
    · obtain ⟨e, he⟩ := Option.isSome_iff_exists.mp hevent
      obtain ⟨e₁, he₁, -⟩ := hx.events id e he
      apply hrows.published o ho id hn
      · rwa [hkeep o ho]
      · rw [he₁]
        rfl
  · intro o ho hp hrow
    rcases List.mem_cons.mp ho with rfl | ho
    · obtain ⟨o', ho', hs⟩ := hx.dead o (by simp) hp hrow
      exact ⟨o', (hrows.others _ hne).trans ho', hs⟩
    · exact hrows.dead o ho hp (by rwa [hkeep o ho])

theorem get_markQueued (d : Db) (id k : Uuid) : (markQueued d id).webhookEvents.get k = d.webhookEvents.get k ∨
    ∃ e, d.webhookEvents.get k = some e ∧ (markQueued d id).webhookEvents.get k = some (queued.apply e) := by
  unfold markQueued
  split_ifs
  · change (d.webhookEvents.update id queued).get k = _ ∨ ∃ e, _ ∧ (d.webhookEvents.update id queued).get k = _
    by_cases hk : k = id
    · subst hk
      rw [Table.get_update_self]
      cases d.webhookEvents.get k with
      | none => exact Or.inl rfl
      | some e => exact Or.inr ⟨e, rfl, rfl⟩
    · exact Or.inl (Table.get_update_of_ne _ hk)
  · exact Or.inl rfl

theorem markQueued_ne_received {d : Db} {id : Uuid} {e : WebhookEvent}
    (he : (markQueued d id).webhookEvents.get id = some e) : e.status ≠ .received := by
  unfold markQueued at he
  split_ifs at he with h
  · change (d.webhookEvents.update id queued).get id = _ at he
    rw [Table.get_update_self] at he
    obtain ⟨e', -, rfl⟩ := Option.map_eq_some_iff.mp he
    intro hs
    cases hs
  · intro hs
    rw [he] at h
    simp [hs] at h

theorem markQueued_outboxEvents (d : Db) (id : Uuid) : (markQueued d id).outboxEvents = d.outboxEvents := by
  unfold markQueued
  split_ifs <;> rfl

theorem delivers_published {x : OutboxEvent} {id : Uuid} (hx : NamesEvent x id) (d : Db) (publishedAt now : Time) :
    Delivers [x] d ((markQueued d id).apply (.updateOutboxEvent x.id (.published publishedAt) now)) := by
  have hout (k : Uuid) :
      ((markQueued d id).apply (.updateOutboxEvent x.id (.published publishedAt) now)).outboxEvents.get k =
        (d.outboxEvents.update x.id (OutboxEventPatch.change (.published publishedAt) now)).get k := by
    rw [← markQueued_outboxEvents d id]
    rfl
  have hevent (k : Uuid) (e : WebhookEvent) (he : d.webhookEvents.get k = some e) :
      ∃ e', (markQueued d id).webhookEvents.get k = some e' ∧ (e'.status = .received → e.status = .received) := by
    rcases get_markQueued d id k with h | ⟨e', -, h⟩
    · exact ⟨e, h.trans he, fun hs => hs⟩
    · exact ⟨_, h, nofun⟩
  constructor
  · intro k hk
    rw [hout]
    exact Table.get_update_of_ne _ (by simpa using hk)
  · exact hevent
  · intro o ho id' hn hrow hev
    obtain rfl := List.mem_singleton.mp ho
    obtain ⟨t, ht, hid⟩ := hx
    obtain ⟨t', ht', hid'⟩ := hn
    obtain rfl : t = t' := Option.some.inj (ht.symm.trans ht')
    obtain rfl : id = id' := Option.some.inj (hid.symm.trans hid')
    obtain ⟨r, hr⟩ := Option.isSome_iff_exists.mp hrow
    obtain ⟨e, he⟩ := Option.isSome_iff_exists.mp hev
    obtain ⟨e', he', -⟩ := hevent id e he
    refine ⟨r.patch (.published publishedAt) now, ?_, rfl, e', he', markQueued_ne_received he'⟩
    rw [hout, Table.get_update_self, hr]
    rfl
  · intro o ho hp
    obtain rfl := List.mem_singleton.mp ho
    exact absurd hx (hp id)

theorem delivers_dead {x : OutboxEvent} (hx : Poison x) (d : Db) (attempts : ℕ) (deadAt : Time) (lastError : Text)
    (now : Time) :
    Delivers [x] d (d.apply (.updateOutboxEvent x.id (.nonRetryableFailure attempts deadAt lastError) now)) := by
  constructor
  · intro k hk
    exact Table.get_update_of_ne _ (by simpa using hk)
  · exact fun k e he => ⟨e, he, fun hs => hs⟩
  · intro o ho id hn
    obtain rfl := List.mem_singleton.mp ho
    exact absurd hn (hx id)
  · intro o ho hp hrow
    obtain rfl := List.mem_singleton.mp ho
    obtain ⟨r, hr⟩ := Option.isSome_iff_exists.mp hrow
    refine ⟨r.patch (.nonRetryableFailure attempts deadAt lastError) now, ?_, rfl, rfl⟩
    change (d.outboxEvents.update o.id _).get o.id = _
    rw [Table.get_update_self, hr]
    rfl

section Rows

variable {run : DispatchRun} (hpub : ∀ id, run.outcome id = .added)

include hpub

theorem exec_dispatchEvents_notUuid {origin d : Db} {rows : List OutboxEvent} {result : OutboxDispatchBatchResult}
    {o : OutboxEvent} {t : Text} (ho : o ∈ rows) (ht : o.payload.text "webhookEventId" = some t)
    (hid : Uuid.parse t = none) : ∃ e, (engine.exec origin (dispatchEvents run rows result) d).result = .error e := by
  induction rows generalizing d result with
  | nil => cases ho
  | cons x rows ih =>
    unfold dispatchEvents
    cases hx : x.payload.text "webhookEventId" with
    | none =>
      have hdata := toJobData_of_none hx
      simp only [hdata]
      have ho' : o ∈ rows := by
        rcases List.mem_cons.mp ho with rfl | ho
        · rw [ht] at hx
          cases hx
        · exact ho
      exact ih ho'
    | some s =>
      obtain ⟨c, hdata⟩ := toJobData_of_some hx
      simp only [hdata]
      cases hs : Uuid.parse s with
      | none => exact ⟨_, exec_publish_notUuid (hpub x.id) hs⟩
      | some id =>
        have ho' : o ∈ rows := by
          rcases List.mem_cons.mp ho with rfl | ho
          · rw [ht] at hx
            cases hx
            rw [hid] at hs
            cases hs
          · exact ho
        rw [(exec_publish_uuid (hpub x.id) hs).1]
        exact ih ho'

theorem exec_dispatchEvents_uuid {origin d : Db} {rows : List OutboxEvent} {result : OutboxDispatchBatchResult}
    (hids : (rows.map (fun o => o.id)).Nodup)
    (huuid : ∀ o ∈ rows, ∀ t, o.payload.text "webhookEventId" = some t → (Uuid.parse t).isSome = true) :
    (∃ r, (engine.exec origin (dispatchEvents run rows result) d).result = .ok r) ∧
      Delivers rows d (engine.exec origin (dispatchEvents run rows result) d).db := by
  induction rows generalizing d result with
  | nil => exact ⟨⟨result, rfl⟩, Delivers.nil d⟩
  | cons x rows ih =>
    rw [List.map_cons, List.nodup_cons] at hids
    have htail := fun o ho => huuid o (List.mem_cons_of_mem x ho)
    unfold dispatchEvents
    cases hx : x.payload.text "webhookEventId" with
    | none =>
      have hdata := toJobData_of_none hx
      have hp : Poison x := by
        rintro id ⟨t, ht, -⟩
        rw [hx] at ht
        cases ht
      simp only [hdata]
      obtain ⟨hr, hd⟩ := ih hids.2 htail
      exact ⟨hr, (delivers_dead hp d _ _ _ _).cons hd hids.1⟩
    | some s =>
      obtain ⟨id, hs⟩ := Option.isSome_iff_exists.mp (huuid x (by simp) s hx)
      obtain ⟨c, hdata⟩ := toJobData_of_some hx
      simp only [hdata]
      rw [(exec_publish_uuid (hpub x.id) hs).1, (exec_publish_uuid (hpub x.id) hs).2]
      obtain ⟨hr, hd⟩ := ih hids.2 htail
      exact ⟨hr, (delivers_published ⟨s, hx, hs⟩ d _ _).cons hd hids.1⟩

end Rows

theorem nodup_selected (run : DispatchRun) (d : Db) : ((selected run d).map (fun o => o.id)).Nodup := by
  have hsub : ((d.outboxEvents.rows.filter (fun e => isEligible processWebhookOutboxType run.now e && !false &&
      !run.hidden e.id)).map (fun o => o.id)).Nodup :=
    d.outboxEvents.nodup.sublist (List.Sublist.map _ List.filter_sublist)
  have hperm := List.perm_insertionSort (fun a b : OutboxEvent => a.createdAt ≤ b.createdAt)
    (d.outboxEvents.rows.filter (fun e => isEligible processWebhookOutboxType run.now e && !false && !run.hidden e.id))
  have hsorted := (hperm.map (fun o => o.id)).nodup_iff.mpr hsub
  exact hsorted.sublist (List.Sublist.map _ (List.take_sublist _ _))

theorem isSome_get_of_selected {run : DispatchRun} {d : Db} {o : OutboxEvent} (ho : o ∈ selected run d) :
    (d.outboxEvents.get o.id).isSome = true := by
  rw [show d.outboxEvents.get o.id = some o from Table.get_of_mem (mem_eligibleEvents ho).1]
  rfl

theorem transaction_dispatchBatch (run : DispatchRun) (d : Db) :
    Agrees (engine.transaction (dispatchBatch run) d)
      (engine.exec d (dispatchEvents run (selected run d) ⟨(selected run d).length, 0, 0⟩) d) := ⟨rfl, rfl⟩

theorem isEligible_of_dead {type : Text} {now : Time} {o : OutboxEvent} (h : o.deadAt.isSome = true) :
    isEligible type now o = false := by
  obtain ⟨deadAt, h⟩ := Option.isSome_iff_exists.mp h
  simp [isEligible, h]

theorem batchIsolated_iff {run : DispatchRun} (hpub : ∀ id, run.outcome id = .added) (d : Db) :
    BatchIsolated run d ↔
      ∀ o ∈ selected run d, ∀ t, o.payload.text "webhookEventId" = some t → (Uuid.parse t).isSome = true := by
  obtain ⟨hresult, hdb⟩ := transaction_dispatchBatch run d
  constructor
  · intro h o ho t ht
    by_contra hid
    obtain ⟨e, he⟩ := exec_dispatchEvents_notUuid hpub ho ht (Option.not_isSome_iff_eq_none.mp hid)
    obtain ⟨r, hr⟩ := h.commits
    rw [hresult, he] at hr
    cases hr
  · intro h
    obtain ⟨hcommits, hdelivers⟩ := exec_dispatchEvents_uuid hpub (nodup_selected run d) h
    constructor
    · rw [hresult]
      exact hcommits
    · rw [hdb]
      exact fun o ho id hn hevent => hdelivers.published o ho id hn (isSome_get_of_selected ho) hevent
    · rw [hdb]
      intro o ho hp
      obtain ⟨o', ho', hs, hdead⟩ := hdelivers.dead o ho hp (isSome_get_of_selected ho)
      exact ⟨o', ho', hs, hdead, fun now => isEligible_of_dead hdead⟩

section Sample

def receivedEvent : WebhookEvent where
  id := 0x00000000000040008000000000000002
  provider := "mock-blockchain-provider".toList
  externalEventId := "evt-1".toList
  nonce := some "nonce-1".toList
  eventType := "transaction.confirmed".toList
  paymentIntentId := none
  txHash := none
  payload := []
  payloadHash := []
  status := .received
  failureReason := none
  receivedAt := 0
  processedAt := none

def pendingRow (id : Uuid) (webhookEventId : Json) : OutboxEvent where
  id := id
  type := processWebhookOutboxType
  aggregateType := webhookOutboxAggregateType
  aggregateId := receivedEvent.id
  payload := [("webhookEventId".toList, webhookEventId)]
  status := .pending
  attempts := 0
  nextAttemptAt := none
  lastError := none
  deadAt := none
  createdAt := 0
  publishedAt := none
  updatedAt := 0
  writtenAt := 0

def pendingDb (webhookEventId : Json) : Db where
  paymentIntents := .empty
  idempotencyRecords := .empty
  webhookEvents := ⟨[receivedEvent], by decide⟩
  outboxEvents := ⟨[pendingRow 3 webhookEventId, pendingRow 4 (.str receivedEvent.id.render)],
    show ([3, 4] : List Uuid).Nodup by decide⟩
  webhookProcessingAttempts := []

def publishingRun : DispatchRun := ⟨10, 0, fun _ => false, fun _ => .added, fun _ => 0⟩

theorem batchIsolated_sample : BatchIsolated publishingRun (pendingDb (.num (.finite 7))) := by
  refine (batchIsolated_iff (fun _ => rfl) _).mpr ?_
  intro o ho t ht
  have hrows : selected publishingRun (pendingDb (.num (.finite 7))) =
      [pendingRow 3 (.num (.finite 7)), pendingRow 4 (.str receivedEvent.id.render)] := rfl
  rw [hrows] at ho
  simp only [List.mem_cons, List.not_mem_nil, or_false] at ho
  rcases ho with rfl | rfl
  · cases ht
  · cases ht
    decide

theorem notUuid_blocks_batch : (∀ id, publishingRun.outcome id = .added) ∧
    pendingRow 4 (.str receivedEvent.id.render) ∈ selected publishingRun (pendingDb (.str "not-a-uuid".toList)) ∧
    (engine.transaction (dispatchBatch publishingRun) (pendingDb (.str "not-a-uuid".toList))).result =
      .error (.database .inFailedSqlTransaction) ∧
    ¬ BatchIsolated publishingRun (pendingDb (.str "not-a-uuid".toList)) := by
  have hresult : (engine.transaction (dispatchBatch publishingRun) (pendingDb (.str "not-a-uuid".toList))).result =
      .error (.database .inFailedSqlTransaction) := rfl
  refine ⟨fun _ => rfl, ?_, hresult, ?_⟩
  · exact List.mem_cons_of_mem _ (List.mem_singleton.mpr rfl)
  · intro h
    obtain ⟨r, hr⟩ := h.commits
    rw [hresult] at hr
    cases hr

end Sample

end EventGateway.OutboxDispatcher
