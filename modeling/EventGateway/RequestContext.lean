import EventGateway.NonceReuse
import EventGateway.OutboxLifecycle
import EventGateway.SentJobs

namespace EventGateway

open KeyedTable TransactionProgram Interleaving RelyGuarantee Statements
open OutboxDispatcher (normalizeCorrelationId safeHeaderValuePattern toJobData dispatchEvents publishOutboxEvent)

structure RequestContext where
  correlationId : Text
  requestId : Text
  startedAt : Time

structure FreshContext where
  correlationId : Uuid
  requestId : Uuid
  now : Time

def createRequestContext (inboundCorrelationId : Option Text) (fresh : FreshContext) : RequestContext where
  correlationId := (inboundCorrelationId.bind normalizeCorrelationId).getD fresh.correlationId.render
  requestId := fresh.requestId.render
  startedAt := fresh.now

def runWithCorrelationId (active : Option RequestContext) (correlationId : Option Text) (fresh : FreshContext) :
    Option RequestContext :=
  match correlationId.bind normalizeCorrelationId with
  | none => active
  | some _ => some (createRequestContext correlationId fresh)

def correlationIdMiddleware (header : Option Text) (fresh : FreshContext) : Text × RequestContext :=
  let context := createRequestContext header fresh
  (context.correlationId, context)

section Identifiers

theorem normalizeCorrelationId_some {value c : Text} (h : normalizeCorrelationId value = some c) :
    c.length ≤ 255 ∧ safeHeaderValuePattern c = true := by
  simp only [normalizeCorrelationId] at h
  split_ifs at h with hsafe
  simp only [Bool.and_eq_true, decide_eq_true_eq] at hsafe
  obtain rfl := Option.some.inj h
  exact hsafe

theorem not_whiteSpace_of_graphic {c : Char} (h : '\x21' ≤ c ∧ c ≤ '\x7e') : Text.isWhiteSpace c = false := by
  rw [Bool.eq_false_iff]
  intro hspace
  simp only [Text.isWhiteSpace, Bool.or_eq_true, Bool.and_eq_true, decide_eq_true_eq] at hspace
  have hne {d : Char} (hd : ¬ ('\x21' ≤ d ∧ d ≤ '\x7e')) : c ≠ d := fun hc => hd (hc ▸ h)
  have hrange : ¬ ('\u2000' ≤ c ∧ c ≤ '\u200a') := fun hc => absurd (Char.le_trans hc.1 h.2) (by decide)
  simp [hne, hrange] at hspace

theorem normalizeCorrelationId_of_safe {c : Text} (hlen : c.length ≤ 255) (hsafe : safeHeaderValuePattern c = true) :
    normalizeCorrelationId c = some c := by
  have htrim : Text.trim c = c := by
    apply Text.trimBy_eq_self
    intro x hx
    simp only [safeHeaderValuePattern, Bool.and_eq_true, List.all_eq_true] at hsafe
    exact not_whiteSpace_of_graphic (by simpa using hsafe.2 x hx)
  simp [normalizeCorrelationId, htrim, hlen, hsafe]

theorem length_renderBytes (left value : ℕ) : (Uuid.renderBytes left value).length ≤ 3 * left := by
  induction left with
  | zero => rfl
  | succ left ih =>
    simp only [Uuid.renderBytes, List.length_cons]
    split_ifs
    · simp only [List.length_cons]
      omega
    · omega

theorem graphic_renderBytes (left value : ℕ) : ∀ c ∈ Uuid.renderBytes left value, '\x21' ≤ c ∧ c ≤ '\x7e' := by
  have hhex : ∀ n < 16, '\x21' ≤ Uuid.hexChar n ∧ Uuid.hexChar n ≤ '\x7e' := by decide
  induction left with
  | zero => simp [Uuid.renderBytes]
  | succ left ih =>
    intro c hc
    simp only [Uuid.renderBytes, List.mem_cons] at hc
    rcases hc with rfl | rfl | hc
    · exact hhex _ (by omega)
    · exact hhex _ (by omega)
    split_ifs at hc
    · rcases List.mem_cons.mp hc with rfl | hc
      · decide
      · exact ih c hc
    · exact ih c hc

theorem normalizeCorrelationId_render (id : Uuid) : normalizeCorrelationId id.render = some id.render := by
  apply normalizeCorrelationId_of_safe
  · have := length_renderBytes 16 id.toNat
    rw [Uuid.render]
    omega
  · have hall : id.render.all (fun c => '\x21' ≤ c && c ≤ '\x7e') = true := by
      simpa [Uuid.render] using graphic_renderBytes 16 id.toNat
    have hne : id.render ≠ [] := by simp [Uuid.render, Uuid.renderBytes]
    simp only [safeHeaderValuePattern, hall, Bool.and_true, Bool.not_eq_true', List.isEmpty_eq_false_iff]
    exact hne

theorem createRequestContext_normalized (inbound : Option Text) (fresh : FreshContext) :
    normalizeCorrelationId (createRequestContext inbound fresh).correlationId =
      some (createRequestContext inbound fresh).correlationId := by
  unfold createRequestContext
  cases hid : inbound.bind normalizeCorrelationId with
  | none => exact normalizeCorrelationId_render fresh.correlationId
  | some c =>
    obtain ⟨value, -, hvalue⟩ := Option.bind_eq_some_iff.mp hid
    obtain ⟨hlen, hsafe⟩ := normalizeCorrelationId_some hvalue
    exact normalizeCorrelationId_of_safe hlen hsafe

theorem runWithCorrelationId_some {c : Text} (h : normalizeCorrelationId c = some c) (active : Option RequestContext)
    (fresh : FreshContext) : (runWithCorrelationId active (some c) fresh).map RequestContext.correlationId = some c := by
  simp [runWithCorrelationId, createRequestContext, h]

end Identifiers

def publishContext (outboxEvent : OutboxEvent) (fresh : FreshContext) : Option RequestContext :=
  match toJobData outboxEvent with
  | .ok jobData => runWithCorrelationId none jobData.correlationId fresh
  | .error _ => none

def jobContext (job : JobData) (fresh : FreshContext) : Option RequestContext :=
  runWithCorrelationId none job.correlationId fresh

section Provenance

def Carries (w : World Db JobData) (job : JobData) : Prop := ∃ o ∈ w.db.outboxEvents, toJobData o = .ok job

theorem carries_evolves {w w' : World Db JobData} {job : JobData} (hev : discipline.Evolves w w') (h : Carries w job) :
    Carries w' job := by
  obtain ⟨o, ho, hjob⟩ := h
  obtain ⟨o', ho', -, -, -, -, hpayload⟩ := hev.1.outboxEvents o ho
  refine ⟨o', ho', ?_⟩
  rw [← hjob, toJobData, hpayload]
  rfl

namespace OutboxDispatcher

variable {run : DispatchRun} {K : JobData → Prop}

theorem sends_nothing {s : Stmt} (hs : engine.emits s = []) : ∀ j ∈ engine.emits s, K j := by
  rw [hs]
  exact fun j hj => by cases hj

theorem eq_of_published {job : JobData} {outcome : PublishOutcome} :
    ∀ j ∈ engine.emits (.publishProcessWebhookEvent job outcome), j = job := by
  intro j hj
  cases outcome with
  | added => exact List.mem_singleton.mp hj
  | failed message reached =>
    cases reached with
    | true => exact List.mem_singleton.mp hj
    | false => cases hj

theorem sendsOnly_publishOutboxEvent {o : OutboxEvent} {job : JobData} (h : K job) :
    SendsOnly engine K (publishOutboxEvent run o job) := by
  apply SendsOnly.tryCatch
  · apply sendsOnly_call_bind
    · intro j hj
      rw [eq_of_published j hj]
      exact h
    intro _
    apply sendsOnly_call_bind (sends_nothing rfl)
    intro _
    apply sendsOnly_call_bind (sends_nothing rfl)
    intro _
    trivial
  · intro e
    apply sendsOnly_call_bind (sends_nothing rfl)
    intro _
    trivial

theorem sendsOnly_dispatchEvents {rows : List OutboxEvent} {result : OutboxDispatchBatchResult}
    (h : ∀ o ∈ rows, ∀ job, toJobData o = .ok job → K job) : SendsOnly engine K (dispatchEvents run rows result) := by
  induction rows generalizing result with
  | nil => trivial
  | cons o rows ih =>
    have hrest {result : OutboxDispatchBatchResult} : SendsOnly engine K (dispatchEvents run rows result) :=
      ih fun o ho => h o (List.mem_cons_of_mem _ ho)
    unfold dispatchEvents
    split
    · exact sendsOnly_call_bind (sends_nothing rfl) fun _ => hrest
    · exact sendsOnly_call_bind (sends_nothing rfl) fun _ => hrest
    · rename_i job hjob
      apply (sendsOnly_publishOutboxEvent (h o (by simp) job hjob)).bind
      intro published
      cases published with
      | true => exact hrest
      | false => trivial

end OutboxDispatcher

theorem sendsRead_script (rt : Runtime) (q : Request) : SendsRead engine Carries (q.script rt) := by
  by_cases hdispatch : ∃ run, q = .dispatchBatch run
  · obtain ⟨run, rfl⟩ := hdispatch
    refine ⟨rfl, fun w e => trivial, fun w held rows ws ls heval => ?_⟩
    cases heval
    refine SendsOnly.bind (OutboxDispatcher.sendsOnly_dispatchEvents ?_) (fun _ => trivial)
    exact fun o ho job hjob => ⟨o, (OutboxDispatcher.mem_eligibleEvents ho).1, hjob⟩
  push Not at hdispatch
  apply SendsOnly.sendsRead
  by_cases htask : q.isOutboxTask = true
  · cases q with
    | reconcileStalePublishedEvents run =>
      refine SendsOnly.bind ?_ (fun _ => trivial)
      exact sendsOnly_call_bind (OutboxDispatcher.sends_nothing rfl) (fun _ => trivial)
    | dispatchBatch run => exact absurd rfl (hdispatch run)
    | createPaymentIntent | acceptBlockchainWebhook | processWebhookEvent => cases htask
  · apply (q.propagates hdispatch).sendsOnly
    intro s hs
    have hquiet : s.servesOutbox = false := by
      rw [Bool.eq_false_iff]
      exact fun h => htask (hs h)
    cases s <;> first | rfl | cases hquiet

end Provenance

section Traces

variable {ι : Type} {rt : Runtime} {req : ι → Request} {contexts : ι → RequestContext} {σ : SystemState ι}
  {ls : List (Label ι)}

structure Request.ServedIn (q : Request) (context : RequestContext) : Prop where
  created : ∃ header fresh, context = (correlationIdMiddleware header fresh).2
  read : ∀ config request fresh, q = .acceptBlockchainWebhook config request fresh →
    fresh.correlationId = some context.correlationId

def AcceptedBy (req : ι → Request) (σ : SystemState ι) (j : ι) (id : Uuid) : Prop :=
  ∃ config request fresh eventId, req j = .acceptBlockchainWebhook config request fresh ∧
    σ.phase j = .committed (.acceptance ⟨eventId, .accepted⟩) ∧ fresh.webhookEventId = id

theorem Request.ServedIn.normalized {q : Request} {context : RequestContext} (h : q.ServedIn context) :
    normalizeCorrelationId context.correlationId = some context.correlationId := by
  obtain ⟨header, fresh, rfl⟩ := h.created
  exact createRequestContext_normalized header fresh

theorem Trail.kept {o₀ o : OutboxEvent} {es : List (RowUpdate ι)} (h : Trail req o₀ es o) :
    o.aggregateId = o₀.aggregateId ∧ o.payload = o₀.payload := by
  induction h with
  | created => exact ⟨rfl, rfl⟩
  | moved h hm ih =>
    rename_i o e
    have hpatch : (o.patch e.patch e.now).aggregateId = o.aggregateId ∧ (o.patch e.patch e.now).payload = o.payload := by
      cases hp : e.patch <;> exact ⟨rfl, rfl⟩
    exact ⟨hpatch.1.trans ih.1, hpatch.2.trans ih.2⟩

theorem text_outboxPayload (id : Uuid) (c : Text) :
    (WebhookEvents.outboxPayload id (some c)).text "webhookEventId" = some id.render ∧
      (WebhookEvents.outboxPayload id (some c)).text "correlationId" = some c := by
  constructor <;> rfl

variable [DecidableEq ι]

theorem toJobData_of_row (hserved : ∀ j, (req j).ServedIn (contexts j)) (h : runs rt req (State.init Db.empty) ls = some σ)
    {o : OutboxEvent} (ho : o ∈ σ.world.db.outboxEvents) :
    ∃ j, AcceptedBy req σ j o.aggregateId ∧ toJobData o = .ok ⟨o.aggregateId.render, some (contexts j).correlationId⟩ := by
  have hinv := reachable_rowInv h o.id
  have hget : σ.world.db.outboxEvents.get o.id = some o := Table.get_of_mem ho
  unfold RowInv at hinv
  rw [hget] at hinv
  obtain ⟨o₀, ⟨j, config, request, fresh, eventId, hq, hj, -, rfl⟩, htrail⟩ := hinv
  obtain ⟨hid, hpayload⟩ := htrail.kept
  refine ⟨j, ⟨config, request, fresh, eventId, hq, hj, hid.symm⟩, ?_⟩
  have hc := (hserved j).read config request fresh hq
  rw [toJobData, hpayload, hid]
  simp only [WebhookEvents.newOutboxEvent, hc]
  obtain ⟨hevent, hcorrelation⟩ := text_outboxPayload fresh.webhookEventId (contexts j).correlationId
  rw [hevent, hcorrelation, Option.bind_some, (hserved j).normalized]

theorem event_of_acceptedBy (h : runs rt req (State.init Db.empty) ls = some σ) {j : ι} {id : Uuid}
    (hj : AcceptedBy req σ j id) :
    ∃ e ∈ σ.world.db.webhookEvents, e.id = id ∧ AcceptedWith σ j ⟨e.externalEventId, .accepted⟩ := by
  obtain ⟨config, request, fresh, eventId, hq, hc, rfl⟩ := hj
  obtain ⟨w, d, hcommits, hev⟩ := (reachable_ended h).committed j _ hc
  rw [hq] at hcommits
  cases hcommits with
  | acceptance hv ha =>
    rename_i nonce dto
    cases ha with
    | accepted paymentIntentId hp he hn hid ho =>
      obtain ⟨e, hmem, hee⟩ := hev.webhookEvents _ ((Table.mem_insert hid).mpr (.inr rfl))
      have hevent : e.externalEventId = dto.eventId := (WebhookEvents.hasEventId_of_evolves hee ⟨rfl, rfl⟩).2
      refine ⟨e, hmem, WebhookEvents.id_of_evolves hee, ?_⟩
      rw [hevent]
      exact hc

theorem acceptedBy_unique (h : runs rt req (State.init Db.empty) ls = some σ) {i j : ι} {id : Uuid}
    (hi : AcceptedBy req σ i id) (hj : AcceptedBy req σ j id) : i = j := by
  obtain ⟨e, he, hid, hi⟩ := event_of_acceptedBy h hi
  obtain ⟨e', he', hid', hj⟩ := event_of_acceptedBy h hj
  obtain rfl : e = e' := Table.eq_of_key he he' (hid.trans hid'.symm)
  exact (reachable_acceptanceInv h).once i j _ _ hi hj rfl rfl rfl

theorem reachable_carries (h : runs rt req (State.init Db.empty) ls = some σ) : ∀ job ∈ σ.world.emitted, Carries σ.world job :=
  run_sent (fun _ _ _ => carries_evolves) (fun i => sendsRead_script rt (req i))
    (sound_init (spec rt req) Db.indexes_empty) h

theorem correlation_ids_traced (hserved : ∀ j, (req j).ServedIn (contexts j))
    (h : runs rt req (State.init Db.empty) ls = some σ) :
    (∀ o ∈ σ.world.db.outboxEvents, ∃ j, AcceptedBy req σ j o.aggregateId ∧ (∀ i, AcceptedBy req σ i o.aggregateId → i = j) ∧
      ∀ fresh, (publishContext o fresh).map RequestContext.correlationId = some (contexts j).correlationId) ∧
    ∀ job ∈ σ.world.emitted, ∃ id j, job.webhookEventId = id.render ∧ AcceptedBy req σ j id ∧
      (∀ i, AcceptedBy req σ i id → i = j) ∧ job.correlationId = some (contexts j).correlationId ∧
      ∀ fresh, (jobContext job fresh).map RequestContext.correlationId = some (contexts j).correlationId := by
  have hrun (j : ι) (fresh : FreshContext) :
      (runWithCorrelationId none (some (contexts j).correlationId) fresh).map RequestContext.correlationId =
        some (contexts j).correlationId := runWithCorrelationId_some (hserved j).normalized none fresh
  refine ⟨fun o ho => ?_, fun job hjob => ?_⟩
  · obtain ⟨j, hj, hdata⟩ := toJobData_of_row hserved h ho
    refine ⟨j, hj, fun i hi => acceptedBy_unique h hi hj, fun fresh => ?_⟩
    rw [publishContext, hdata]
    exact hrun j fresh
  · obtain ⟨o, ho, hcarried⟩ := reachable_carries h job hjob
    obtain ⟨j, hj, hdata⟩ := toJobData_of_row hserved h ho
    obtain rfl := Except.ok.inj (hcarried.symm.trans hdata)
    exact ⟨o.aggregateId, j, rfl, hj, fun i hi => acceptedBy_unique h hi hj, rfl, hrun j⟩

namespace Sample

def context : RequestContext := (correlationIdMiddleware (some " order-42 ".toList) ⟨intentId, eventId, time⟩).2

def tracedRequests : Party → Request
  | .provider =>
    .acceptBlockchainWebhook ⟨some "secret".toList, 300⟩ webhook
      ⟨time, time, time, eventId, 0x00000000000040008000000000000004, some context.correlationId⟩
  | party => requests party

end Sample

theorem correlation_ids_traced_sample : ∃ σ : SystemState Sample.Party,
    runs Sample.runtime Sample.tracedRequests (State.init Db.empty) Sample.publication = some σ ∧
      σ.world.emitted = [⟨Sample.eventId.render, some "order-42".toList⟩] ∧
      ∀ job ∈ σ.world.emitted, ∃ id j, job.webhookEventId = id.render ∧ AcceptedBy Sample.tracedRequests σ j id ∧
        job.correlationId = some Sample.context.correlationId := by
  have hserved (j : Sample.Party) : (Sample.tracedRequests j).ServedIn Sample.context := by
    refine ⟨⟨_, _, rfl⟩, fun config request fresh hq => ?_⟩
    cases j <;> cases hq
    rfl
  have hrun : (runs Sample.runtime Sample.tracedRequests (State.init Db.empty) Sample.publication).any (fun σ =>
      σ.world.emitted = [⟨Sample.eventId.render, some "order-42".toList⟩]) = true := by
    decide +kernel
  obtain ⟨σ, hσ, hemitted⟩ := (Option.any_eq_true _ _).mp hrun
  refine ⟨σ, hσ, of_decide_eq_true hemitted, fun job hjob => ?_⟩
  obtain ⟨id, j, hid, hj, -, hcorrelation, -⟩ := (correlation_ids_traced hserved hσ).2 job hjob
  exact ⟨id, j, hid, hj, hcorrelation⟩

end Traces

end EventGateway
