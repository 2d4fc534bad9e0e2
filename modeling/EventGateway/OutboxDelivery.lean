import EventGateway.GatewaySpec

namespace EventGateway

open KeyedTable TransactionProgram Interleaving Statements
open OutboxDispatcher

structure Deliverable (emitted : List JobData) (o : OutboxEvent) : Prop where
  type : o.type = processWebhookOutboxType
  aggregateType : o.aggregateType = webhookOutboxAggregateType
  payload : o.payload.text "webhookEventId" = some o.aggregateId.render
  alive : o.deadAt = none
  state : o.status = .pending ∨
    (o.status = .failed ∧ ∃ t, o.nextAttemptAt = some t ∧ t ≤ o.writtenAt + outboxRetryMaxDelayMs) ∨
    (o.status = .published ∧ o.publishedAt.isSome = true ∧ ∃ j ∈ emitted, j.webhookEventId = o.aggregateId.render)

structure OutboxInv (d : Db) (emitted : List JobData) : Prop where
  rows : ∀ o ∈ d.outboxEvents, Deliverable emitted o
  linked : ∀ k, (d.webhookEvents.get k).isSome = true ↔ ∃ o ∈ d.outboxEvents, o.aggregateId = k
  unique : ∀ a ∈ d.outboxEvents, ∀ b ∈ d.outboxEvents, a.aggregateId = b.aggregateId → a = b

theorem outboxInv_empty : OutboxInv Db.empty [] := by
  refine ⟨fun o ho => absurd ho (Table.not_mem_empty o), ?_, fun a ha => absurd ha (Table.not_mem_empty a)⟩
  intro k
  constructor
  · intro h
    cases h
  · rintro ⟨o, ho, _⟩
    exact absurd ho (Table.not_mem_empty o)

theorem Deliverable.mono {emitted emitted' : List JobData} {o : OutboxEvent} (h : Deliverable emitted o)
    (hj : ∀ j ∈ emitted, j ∈ emitted') : Deliverable emitted' o := by
  refine ⟨h.type, h.aggregateType, h.payload, h.alive, ?_⟩
  rcases h.state with hs | hs | ⟨hs, hp, j, hm, he⟩
  · exact Or.inl hs
  · exact Or.inr (Or.inl hs)
  · exact Or.inr (Or.inr ⟨hs, hp, j, hj j hm, he⟩)

theorem OutboxInv.mono {d : Db} {emitted emitted' : List JobData} (h : OutboxInv d emitted)
    (hj : ∀ j ∈ emitted, j ∈ emitted') : OutboxInv d emitted' :=
  ⟨fun o ho => (h.rows o ho).mono hj, h.linked, h.unique⟩

theorem calculateOutboxBackoffMs_le (attempts : ℕ) : calculateOutboxBackoffMs attempts ≤ outboxRetryMaxDelayMs :=
  min_le_right _ _

section Patches

variable {emitted : List JobData} {o : OutboxEvent}

theorem Deliverable.published (h : Deliverable emitted o) {j : JobData} (hj : j ∈ emitted)
    (he : j.webhookEventId = o.aggregateId.render) (t now : Time) :
    Deliverable emitted (o.patch (.published t) now) :=
  ⟨h.type, h.aggregateType, h.payload, h.alive, Or.inr (Or.inr ⟨rfl, rfl, j, hj, he⟩)⟩

theorem Deliverable.transientFailure (h : Deliverable emitted o) (attempts : ℕ) (message : Text) (t now : Time) :
    Deliverable emitted
      (o.patch (.transientFailure attempts (t + calculateOutboxBackoffMs attempts) message t) now) := by
  refine ⟨h.type, h.aggregateType, h.payload, rfl, Or.inr (Or.inl ⟨rfl, _, rfl, ?_⟩)⟩
  exact Int.add_le_add_left (Int.ofNat_le.mpr (calculateOutboxBackoffMs_le attempts)) t

theorem Deliverable.requeued (h : Deliverable emitted o) (message : Text) (t now : Time) :
    Deliverable emitted (o.patch (.requeued message t) now) := by
  refine ⟨h.type, h.aggregateType, h.payload, h.alive, Or.inr (Or.inl ⟨rfl, t, rfl, ?_⟩)⟩
  exact Int.le_add_of_nonneg_right (Int.natCast_nonneg _)

end Patches

theorem patch_aggregateId (p : OutboxEventPatch) (now : Time) (o : OutboxEvent) :
    (o.patch p now).aggregateId = o.aggregateId := by
  cases p <;> rfl

section Writes

variable {d : Db} {emitted : List JobData}

theorem OutboxInv.update (h : OutboxInv d emitted) {id : Uuid} {p : OutboxEventPatch} {now : Time}
    (hp : ∀ o ∈ d.outboxEvents, o.id = id → Deliverable emitted (o.patch p now)) :
    OutboxInv (d.apply (.updateOutboxEvent id p now)) emitted := by
  refine ⟨?_, ?_, ?_⟩
  · intro o ho
    obtain ⟨o₀, ho₀, rfl⟩ := Table.mem_update.mp ho
    split_ifs with hk
    · exact hp o₀ ho₀ hk
    · exact h.rows o₀ ho₀
  · intro k
    refine (h.linked k).trans ⟨?_, ?_⟩
    · rintro ⟨o, ho, rfl⟩
      refine ⟨_, Table.mem_update.mpr ⟨o, ho, rfl⟩, ?_⟩
      split_ifs
      · exact patch_aggregateId p now o
      · rfl
    · rintro ⟨o, ho, rfl⟩
      obtain ⟨o₀, ho₀, rfl⟩ := Table.mem_update.mp ho
      refine ⟨o₀, ho₀, ?_⟩
      split_ifs
      · exact (patch_aggregateId p now o₀).symm
      · rfl
  · refine Table.unique_update (R := fun (a b : OutboxEvent) => a.aggregateId = b.aggregateId) ?_ ?_ h.unique
    · intro a b hab
      rwa [← patch_aggregateId p now a]
    · intro a b hab
      rwa [← patch_aggregateId p now b]

theorem OutboxInv.queued (h : OutboxInv d emitted) (id : Uuid) : OutboxInv (d.apply (.markWebhookQueued id)) emitted := by
  refine ⟨h.rows, ?_, h.unique⟩
  intro k
  refine Iff.trans ?_ (h.linked k)
  simp only [Db.apply]
  rw [Table.get_update]
  simp

theorem aggregateId_of_evolves {d₀ : Db} (hev : d₀.Evolves d) {o o' : OutboxEvent} (ho : o ∈ d₀.outboxEvents)
    (ho' : o' ∈ d.outboxEvents) (hid : o'.id = o.id) : o'.aggregateId = o.aggregateId := by
  obtain ⟨o₁, ho₁, hevo⟩ := hev.outboxEvents o ho
  obtain rfl : o' = o₁ := Table.eq_of_key ho' ho₁ (hid.trans hevo.1.symm)
  exact hevo.2.2.2.1

theorem toJobData_of_deliverable {o : OutboxEvent} (h : Deliverable emitted o) :
    ∃ correlationId, toJobData o = .ok ⟨o.aggregateId.render, correlationId⟩ := toJobData_of_some h.payload

theorem outboxInv_dispatched {run : DispatchRun} {w : World Db JobData} {ws : List Write}
    (h : OutboxInv w.db w.emitted) (hws : ∀ x ∈ ws, DispatchWrite run w x) :
    OutboxInv (engine.view w.db ws) w.emitted := by
  induction ws using List.reverseRecOn with
  | nil => exact h
  | append_singleton ws x ih =>
    have hpre : ∀ y ∈ ws, DispatchWrite run w y := fun y hy => hws y (by simp [hy])
    have hinv := ih hpre
    have hev := evolves_outboxWrites (fun y hy => (hpre y hy).outboxWrite)
    rw [Engine.view_append]
    cases hws x (by simp) with
    | queued id e he hs => exact hinv.queued id
    | published o data ho hs hd hj =>
      apply hinv.update
      intro o' ho' hid
      have hdata : data.webhookEventId = o.aggregateId.render := by
        obtain ⟨c, hc⟩ := toJobData_of_deliverable (h.rows o ho)
        rw [hd] at hc
        rw [Except.ok.inj hc]
      apply (hinv.rows o' ho').published hj
      rw [hdata, aggregateId_of_evolves hev ho ho' hid]
    | transientFailure o message ho hs =>
      apply hinv.update
      intro o' ho' _
      exact (hinv.rows o' ho').transientFailure _ _ _ _
    | nonRetryableFailure o message ho hs hd =>
      -- the payload of a row of this outbox always names its event
      obtain ⟨c, hc⟩ := toJobData_of_deliverable (h.rows o ho)
      rw [hd] at hc
      cases hc

theorem outboxInv_reconciled {run : ReconcileRun} {w : World Db JobData} {ws : List Write}
    (h : OutboxInv w.db w.emitted) (hws : ∀ x ∈ ws, ReconcileWrite run w x) :
    OutboxInv (engine.view w.db ws) w.emitted := by
  induction ws using List.reverseRecOn with
  | nil => exact h
  | append_singleton ws x ih =>
    have hinv := ih (fun y hy => hws y (by simp [hy]))
    rw [Engine.view_append]
    cases hws x (by simp) with
    | requeued o ho hs =>
      apply hinv.update
      intro o' ho' _
      exact (hinv.rows o' ho').requeued _ _ _

theorem outboxInv_accepted {rt : Runtime} {nonce : Text} {dto : WebhookEvents.BlockchainWebhookDto}
    {fresh : WebhookEvents.Fresh} {r : WebhookEvents.WebhookAcceptanceResponse} {d' : Db} (h : OutboxInv d emitted)
    (ha : WebhookEvents.Accepted rt nonce dto fresh d r d') : OutboxInv d' emitted := by
  cases ha with
  | alreadyAccepted => exact h
  | accepted paymentIntentId hp he hn hid ho =>
    -- the id of the event is new, so no row of the outbox is about it yet
    have hnew : ∀ o ∈ d.outboxEvents, o.aggregateId ≠ fresh.webhookEventId := by
      intro o ho heq
      have hsome := (h.linked fresh.webhookEventId).mpr ⟨o, ho, heq⟩
      rw [hid] at hsome
      cases hsome
    refine ⟨?_, ?_, ?_⟩
    · intro o ho
      rcases Table.mem_of_mem_insert ho with ho | rfl
      · exact h.rows o ho
      · exact ⟨rfl, rfl, rfl, rfl, Or.inl rfl⟩
    · apply Table.linked_insert ho _ h.linked
      intro k
      exact ⟨Eq.symm, Eq.symm⟩
    · exact Table.unique_insert (fun _ _ => Eq.symm) h.unique hnew

theorem outboxInv_settles {input : WebhookEventProcessor.ProcessWebhookEventInput} {clock : WebhookEventProcessor.Clock}
    {e : WebhookEvent} {r : WebhookEventProcessor.ProcessingResult} {d' : Db} (h : OutboxInv d emitted)
    (hs : WebhookEventProcessor.Settles input clock d e r d') : OutboxInv d' emitted := by
  have hsettle (p : WebhookEventPatch) (k : Uuid) :
      ((d.webhookEvents.update e.id p.change).get k).isSome = true ↔ ∃ o ∈ d.outboxEvents, o.aggregateId = k := by
    rw [← h.linked k, Table.get_update]
    simp
  cases hs with
  | alreadyProcessed | alreadyFailed => exact ⟨h.rows, h.linked, h.unique⟩
  | failed | confirmedBefore | confirmed => exact ⟨h.rows, hsettle _, h.unique⟩

theorem Commits.outboxInv {rt : Runtime} {w : World Db JobData} {q : Request} {r : Response} (hc : Commits rt w q r d)
    (h : OutboxInv w.db w.emitted) : OutboxInv d w.emitted := by
  cases hc with
  | paymentIntent hc =>
    cases hc with
    | replayed => exact h
    | created => exact ⟨h.rows, h.linked, h.unique⟩
  | acceptance hv ha => exact outboxInv_accepted h ha
  | dispatched hws => exact outboxInv_dispatched h hws
  | reconciled hws => exact outboxInv_reconciled h hws
  | processed hp he hs => exact outboxInv_settles h hs

theorem DispatchWrite.mono {run : DispatchRun} {w : World Db JobData} {js : List JobData} {x : Write}
    (h : DispatchWrite run w x) (hj : ∀ j ∈ w.emitted, j ∈ js) : DispatchWrite run ⟨w.db, js⟩ x := by
  cases h with
  | queued id e he hs => exact .queued id e he hs
  | published o data ho hs hd hm => exact .published o data ho hs hd (hj data hm)
  | transientFailure o message ho hs => exact .transientFailure o message ho hs
  | nonRetryableFailure o message ho hs hd => exact .nonRetryableFailure o message ho hs hd

theorem Commits.mono {rt : Runtime} {w : World Db JobData} {js : List JobData} {q : Request} {r : Response}
    (h : Commits rt w q r d) (hj : ∀ j ∈ w.emitted, j ∈ js) : Commits rt ⟨w.db, js⟩ q r d := by
  cases h with
  | paymentIntent h => exact .paymentIntent h
  | acceptance hv h => exact .acceptance hv h
  | dispatched h => exact .dispatched (fun x hx => DispatchWrite.mono (h x hx) hj)
  | reconciled h =>
    apply Commits.reconciled
    intro x hx
    cases h x hx with
    | requeued o ho hs => exact .requeued o ho hs
  | processed hp he h => exact .processed hp he h

theorem Commits.outboxInv_after {rt : Runtime} {w : World Db JobData} {js : List JobData} {q : Request} {r : Response}
    (hc : Commits rt w q r d) (h : OutboxInv w.db js) (hj : ∀ j ∈ w.emitted, j ∈ js) : OutboxInv d js := by
  have hc' := hc.mono hj
  exact hc'.outboxInv h

end Writes

def IsOutboxRowOf (e : WebhookEvent) (o : OutboxEvent) : Prop :=
  o.type = processWebhookOutboxType ∧ o.aggregateType = webhookOutboxAggregateType ∧ o.aggregateId = e.id

section Selection

variable {d : Db} {o : OutboxEvent}

end Selection

section OutboxRows

variable {ι : Type} [DecidableEq ι] {rt : Runtime} {req : ι → Request}

theorem reachable_outboxInv {ls : List (Label ι)} {σ : SystemState ι}
    (h : runs rt req (State.init Db.empty) ls = some σ) : OutboxInv σ.world.db σ.world.emitted := by
  apply reachable_invariant (P := fun σ => OutboxInv σ.world.db σ.world.emitted) outboxInv_empty _ h
  intro σ σ' _ hinv hstep
  cases hstep with
  | quiet js hw _ _ =>
    rw [hw]
    exact hinv.mono (fun j hj => List.mem_append_left js hj)
  | commit i r s _ hc he _ =>
    rw [he]
    exact hc.outboxInv hinv
  | reject i e s _ _ hw _ => rw [hw]; exact hinv

end OutboxRows

end EventGateway
