import EventGateway.GatewaySpec

namespace EventGateway

open KeyedTable TransactionProgram Interleaving Statements

inductive WebhookEventStatus.Next : WebhookEventStatus → WebhookEventStatus → Prop
  | queued : Next .received .queued
  | processed (s : WebhookEventStatus) (h : s = .received ∨ s = .queued) : Next s .processed
  | failed (s : WebhookEventStatus) (h : s = .received ∨ s = .queued) : Next s .failed

def Db.attemptsOf (d : Db) (id : Uuid) : List WebhookProcessingAttempt :=
  d.webhookProcessingAttempts.filter (fun a => a.webhookEventId = id)

structure Audited (attempts : List WebhookProcessingAttempt) (e : WebhookEvent) : Prop where
  status : e.status = .received ∨ e.status = .queued ∨ e.status = .processed ∨ e.status = .failed
  processedAt : e.processedAt.isSome = true ↔ e.status = .processed ∨ e.status = .failed
  failureReason : e.failureReason.isSome = true ↔ e.status = .failed
  pending : e.status = .received ∨ e.status = .queued → attempts = []
  processed : e.status = .processed →
    attempts ≠ [] ∧ ∀ a ∈ attempts, a.status = .succeeded ∧ a.errorMessage = none
  failed : e.status = .failed →
    attempts ≠ [] ∧ ∀ a ∈ attempts, a.status = .failed ∧ a.errorMessage = e.failureReason

structure LifecycleInv (d : Db) : Prop where
  events : ∀ e ∈ d.webhookEvents, Audited (d.attemptsOf e.id) e
  attempts : ∀ a ∈ d.webhookProcessingAttempts, (d.webhookEvents.get a.webhookEventId).isSome = true

theorem lifecycleInv_empty : LifecycleInv Db.empty :=
  ⟨fun e he => absurd he (Table.not_mem_empty e), fun _ ha => absurd ha List.not_mem_nil⟩

theorem Audited.pending_of_not_final {as : List WebhookProcessingAttempt} {e : WebhookEvent} (h : Audited as e)
    (hf : e.isFinal = false) : e.status = .received ∨ e.status = .queued := by
  rcases h.status with hs | hs | hs | hs
  · exact Or.inl hs
  · exact Or.inr hs
  · simp [WebhookEvent.isFinal, hs] at hf
  · simp [WebhookEvent.isFinal, hs] at hf

theorem Audited.queued {as : List WebhookProcessingAttempt} {e : WebhookEvent} (h : Audited as e)
    (hs : e.status = .received) : Audited as (queued.apply e) where
  status := Or.inr (Or.inl rfl)
  processedAt := by
    have hp := h.processedAt
    rw [hs] at hp
    simpa [EventGateway.queued] using hp
  failureReason := by
    have hp := h.failureReason
    rw [hs] at hp
    simpa [EventGateway.queued] using hp
  pending := fun _ => h.pending (Or.inl hs)
  processed := fun hp => by cases hp
  failed := fun hf => by cases hf

section Attempts

variable {d : Db} {a : WebhookProcessingAttempt} {as : List WebhookProcessingAttempt}

theorem attemptsOf_append (h : d.webhookProcessingAttempts = as ++ [a]) (id : Uuid) :
    d.attemptsOf id =
      as.filter (fun a => a.webhookEventId = id) ++ if a.webhookEventId = id then [a] else [] := by
  rw [Db.attemptsOf, h, List.filter_append]
  congr 1
  by_cases ha : a.webhookEventId = id
  · simp [ha]
  · simp [ha]

theorem attemptsOf_append_ne (h : d.webhookProcessingAttempts = as ++ [a]) {id : Uuid} (hid : id ≠ a.webhookEventId) :
    d.attemptsOf id = as.filter (fun a => a.webhookEventId = id) := by
  rw [attemptsOf_append h, if_neg hid.symm, List.append_nil]

theorem attemptsOf_append_self (h : d.webhookProcessingAttempts = as ++ [a]) :
    d.attemptsOf a.webhookEventId = as.filter (fun b => b.webhookEventId = a.webhookEventId) ++ [a] := by
  rw [attemptsOf_append h, if_pos rfl]

end Attempts

section Steps

variable {rt : Runtime} {d d' : Db}

theorem lifecycleInv_accepted {nonce : Text} {dto : WebhookEvents.BlockchainWebhookDto} {fresh : WebhookEvents.Fresh}
    {r : WebhookEvents.WebhookAcceptanceResponse} (h : LifecycleInv d)
    (ha : WebhookEvents.Accepted rt nonce dto fresh d r d') : LifecycleInv d' := by
  cases ha with
  | alreadyAccepted => exact h
  | accepted paymentIntentId hp he hn hid ho =>
    constructor
    · intro e he
      rcases Table.mem_of_mem_insert he with he | rfl
      · exact h.events e he
      · -- no attempt can name an event that is not there yet
        have hnone : d.attemptsOf fresh.webhookEventId = [] := by
          rw [Db.attemptsOf, List.filter_eq_nil_iff]
          intro a ha heq
          have hsome := h.attempts a ha
          rw [of_decide_eq_true heq, hid] at hsome
          cases hsome
        refine ⟨Or.inl rfl, ?_, ?_, fun _ => hnone, ?_, ?_⟩
        · simp [WebhookEvents.acceptedEvent, WebhookEvents.newWebhookEvent]
        · simp [WebhookEvents.acceptedEvent, WebhookEvents.newWebhookEvent]
        · intro hs
          cases hs
        · intro hs
          cases hs
    · intro a ha
      obtain ⟨e, he⟩ := Option.isSome_iff_exists.mp (h.attempts a ha)
      have hmem : e ∈ d.webhookEvents.insert (WebhookEvents.acceptedEvent rt nonce dto fresh paymentIntentId) :=
        Table.mem_insert_of_mem (Table.mem_of_get he)
      rw [← show e.id = a.webhookEventId from Table.key_of_get he]
      exact Option.isSome_iff_exists.mpr ⟨e, Table.get_of_mem hmem⟩

theorem lifecycleInv_outboxWrites {ws : List Write} (h : LifecycleInv d)
    (hws : ∀ x ∈ ws, OutboxDispatcher.OutboxWrite d x) : LifecycleInv (engine.view d ws) := by
  have hattempts := (OutboxDispatcher.view_outboxWrites hws).2.2
  constructor
  · intro e he
    rw [Db.attemptsOf, hattempts]
    obtain ⟨e₀, he₀, rfl | ⟨hs, rfl⟩⟩ := OutboxDispatcher.mem_view_outboxWrites hws he
    · exact h.events e he₀
    · exact (h.events e₀ he₀).queued hs
  · intro a ha
    rw [hattempts] at ha
    have hsome := h.attempts a ha
    rcases OutboxDispatcher.get_view_outboxWrites hws a.webhookEventId with hv | ⟨e, _, _, hv⟩
    · rw [hv]
      exact hsome
    · rw [hv]
      rfl

theorem LifecycleInv.attempted (h : LifecycleInv d) {e e' : WebhookEvent} {a : WebhookProcessingAttempt}
    (he : e ∈ d.webhookEvents) (hid : a.webhookEventId = e.id)
    (hattempts : d'.webhookProcessingAttempts = d.webhookProcessingAttempts ++ [a])
    (hevents : ∀ x ∈ d'.webhookEvents, x ∈ d.webhookEvents ∧ key x ≠ key e ∨ x = e')
    (hkept : ∀ k, (d.webhookEvents.get k).isSome = true → (d'.webhookEvents.get k).isSome = true)
    (hid' : e'.id = e.id) (haudit : Audited (d.attemptsOf e.id ++ [a]) e') : LifecycleInv d' := by
  constructor
  · intro x hx
    rcases hevents x hx with ⟨hx, hne⟩ | rfl
    · have hxa : x.id ≠ a.webhookEventId := by
        rw [hid]
        exact hne
      rw [attemptsOf_append_ne hattempts hxa]
      exact h.events x hx
    · rw [hid', ← hid, attemptsOf_append_self hattempts, hid]
      exact haudit
  · intro b hb
    rw [hattempts] at hb
    rcases List.mem_append.mp hb with hb | hb
    · exact hkept _ (h.attempts b hb)
    · rw [List.mem_singleton.mp hb, hid]
      exact hkept _ (by rw [show e.id = key e from rfl, Table.get_of_mem he]; rfl)

variable {input : WebhookEventProcessor.ProcessWebhookEventInput} {clock : WebhookEventProcessor.Clock}

theorem LifecycleInv.addAttempt (h : LifecycleInv d) {e : WebhookEvent} {a : WebhookProcessingAttempt}
    (he : d.webhookEvents.get e.id = some e) (hid : a.webhookEventId = e.id)
    (haudit : Audited (d.attemptsOf e.id ++ [a]) e) : LifecycleInv (WebhookEventProcessor.addAttempt d a) := by
  have hattempts : (WebhookEventProcessor.addAttempt d a).webhookProcessingAttempts =
      d.webhookProcessingAttempts ++ [a] := rfl
  refine h.attempted (Table.mem_of_get he) hid hattempts ?_ (fun _ hk => hk) rfl haudit
  intro x hx
  by_cases hk : key x = key e
  · exact Or.inr (Table.eq_of_key hx (Table.mem_of_get he) hk)
  · exact Or.inl ⟨hx, hk⟩

theorem LifecycleInv.settle (h : LifecycleInv d) {e : WebhookEvent} {p : WebhookEventPatch}
    {a : WebhookProcessingAttempt} (he : d.webhookEvents.get e.id = some e) (hid : a.webhookEventId = e.id)
    (hfinal : e.isFinal = false) (haudit : Audited [a] (e.patch p))
    (hevents : d'.webhookEvents = d.webhookEvents.update e.id p.change)
    (hattempts : d'.webhookProcessingAttempts = d.webhookProcessingAttempts ++ [a]) : LifecycleInv d' := by
  have hmem := Table.mem_of_get he
  have hnone : d.attemptsOf e.id = [] := by
    have haud := h.events e hmem
    exact haud.pending (haud.pending_of_not_final hfinal)
  refine h.attempted hmem hid hattempts ?_ ?_ (rfl : (e.patch p).id = e.id) ?_
  · intro x hx
    rw [hevents] at hx
    exact Table.mem_update_cases hmem hx
  · intro k hk
    rw [hevents, Table.get_update]
    simpa using hk
  · rw [hnone]
    exact haudit

theorem audited_processed (e : WebhookEvent) (a : WebhookProcessingAttempt) (ha : a.status = .succeeded)
    (hm : a.errorMessage = none) : Audited [a] (e.patch (WebhookEventProcessor.processedPatch clock)) where
  status := Or.inr (Or.inr (Or.inl rfl))
  processedAt := by simp [WebhookEvent.patch, WebhookEventProcessor.processedPatch]
  failureReason := by simp [WebhookEvent.patch, WebhookEventProcessor.processedPatch]
  pending := by simp [WebhookEvent.patch, WebhookEventProcessor.processedPatch]
  processed := fun _ => ⟨by simp, by simp [ha, hm]⟩
  failed := fun hf => by cases hf

theorem audited_failed (e : WebhookEvent) (reason : WebhookEventProcessor.ProcessingFailureReason)
    (a : WebhookProcessingAttempt) (ha : a.status = .failed) (hm : a.errorMessage = some reason.text) :
    Audited [a] (e.patch (WebhookEventProcessor.failedPatch clock reason)) where
  status := Or.inr (Or.inr (Or.inr rfl))
  processedAt := by simp [WebhookEvent.patch, WebhookEventProcessor.failedPatch]
  failureReason := by simp [WebhookEvent.patch, WebhookEventProcessor.failedPatch]
  pending := by simp [WebhookEvent.patch, WebhookEventProcessor.failedPatch]
  processed := fun hp => by cases hp
  failed := fun _ => ⟨by simp, by simp [ha, hm, WebhookEvent.patch, WebhookEventProcessor.failedPatch]⟩

theorem lifecycleInv_settles {e : WebhookEvent} {r : WebhookEventProcessor.ProcessingResult} (h : LifecycleInv d)
    (he : d.webhookEvents.get e.id = some e) (hs : WebhookEventProcessor.Settles input clock d e r d') :
    LifecycleInv d' := by
  have haud := h.events e (Table.mem_of_get he)
  cases hs with
  | alreadyProcessed hstatus =>
    apply h.addAttempt he rfl
    refine ⟨haud.status, haud.processedAt, haud.failureReason, ?_, ?_, ?_⟩
    · rw [hstatus]
      simp
    · intro _
      refine ⟨by simp, fun a ha => ?_⟩
      rcases List.mem_append.mp ha with ha | ha
      · exact (haud.processed hstatus).2 a ha
      · rw [List.mem_singleton.mp ha]
        exact ⟨rfl, rfl⟩
    · rw [hstatus]
      simp
  | alreadyFailed hstatus =>
    apply h.addAttempt he rfl
    refine ⟨haud.status, haud.processedAt, haud.failureReason, ?_, ?_, ?_⟩
    · rw [hstatus]
      simp
    · rw [hstatus]
      simp
    · intro _
      refine ⟨by simp, fun a ha => ?_⟩
      rcases List.mem_append.mp ha with ha | ha
      · exact (haud.failed hstatus).2 a ha
      · rw [List.mem_singleton.mp ha]
        exact ⟨rfl, rfl⟩
  | failed reason hfinal => exact h.settle he rfl hfinal (audited_failed e reason _ rfl rfl) rfl rfl
  | confirmedBefore i txHash hfinal hi hm hstatus hh =>
    exact h.settle he rfl hfinal (audited_processed e _ rfl rfl) rfl rfl
  | confirmed i txHash hfinal hi hm hstatus hfree =>
    exact h.settle he rfl hfinal (audited_processed e _ rfl rfl) rfl rfl

theorem Commits.lifecycleInv {w : World Db JobData} {q : Request} {r : Response} (hc : Commits rt w q r d)
    (h : LifecycleInv w.db) : LifecycleInv d := by
  cases hc with
  | paymentIntent hc =>
    cases hc with
    | replayed => exact h
    | created => exact ⟨h.events, h.attempts⟩
  | acceptance hv ha => exact lifecycleInv_accepted h ha
  | dispatched hws => exact lifecycleInv_outboxWrites h (fun x hx => (hws x hx).outboxWrite)
  | reconciled hws => exact lifecycleInv_outboxWrites h (fun x hx => (hws x hx).outboxWrite)
  | processed hp he hs => exact lifecycleInv_settles h he hs

end Steps

section Forward

variable {rt : Runtime} {d : Db}

def Db.Forward (d d' : Db) : Prop :=
  ∀ e ∈ d.webhookEvents, ∃ e' ∈ d'.webhookEvents, e'.id = e.id ∧ (e'.status = e.status ∨ e.status.Next e'.status)

theorem Db.Forward.of_subset {d' : Db} (h : ∀ e ∈ d.webhookEvents, e ∈ d'.webhookEvents) : d.Forward d' :=
  fun e he => ⟨e, h e he, rfl, Or.inl rfl⟩

theorem forward_outboxWrites {ws : List Write} (hws : ∀ x ∈ ws, OutboxDispatcher.OutboxWrite d x) :
    d.Forward (engine.view d ws) := by
  intro e he
  have hget := Table.get_of_mem he
  rcases OutboxDispatcher.get_view_outboxWrites hws (key e) with hv | ⟨e₀, he₀, hs, hv⟩
  · exact ⟨e, Table.mem_of_get (hv.trans hget), rfl, Or.inl rfl⟩
  · obtain rfl : e = e₀ := Option.some.inj (hget.symm.trans he₀)
    refine ⟨queued.apply e, Table.mem_of_get hv, rfl, Or.inr ?_⟩
    rw [hs]
    exact .queued

theorem forward_settle {d' : Db} (h : LifecycleInv d) {e : WebhookEvent} {p : WebhookEventPatch}
    (he : d.webhookEvents.get e.id = some e) (hfinal : e.isFinal = false) (hp : p.status = .processed ∨ p.status = .failed)
    (hevents : d'.webhookEvents = d.webhookEvents.update e.id p.change) : d.Forward d' := by
  have hmem := Table.mem_of_get he
  have hstatus := (h.events e hmem).pending_of_not_final hfinal
  intro x hx
  rw [hevents]
  by_cases hk : key x = key e
  · obtain rfl := Table.eq_of_key hx hmem hk
    refine ⟨x.patch p, Table.mem_update_self hx, rfl, Or.inr ?_⟩
    change x.status.Next p.status
    rcases hp with hp | hp
    · rw [hp]
      exact .processed _ hstatus
    · rw [hp]
      exact .failed _ hstatus
  · exact ⟨x, Table.mem_update.mpr ⟨x, hx, (if_neg hk).symm⟩, rfl, Or.inl rfl⟩

theorem Commits.forward {w : World Db JobData} {q : Request} {r : Response} (hc : Commits rt w q r d)
    (h : LifecycleInv w.db) : w.db.Forward d := by
  cases hc with
  | paymentIntent hc =>
    cases hc with
    | replayed => exact .of_subset (fun _ he => he)
    | created => exact .of_subset (fun _ he => he)
  | acceptance hv ha =>
    cases ha with
    | alreadyAccepted => exact .of_subset (fun _ he => he)
    | accepted => exact .of_subset (fun _ he => Table.mem_insert_of_mem he)
  | dispatched hws => exact forward_outboxWrites (fun x hx => (hws x hx).outboxWrite)
  | reconciled hws => exact forward_outboxWrites (fun x hx => (hws x hx).outboxWrite)
  | processed hp he hs =>
    cases hs with
    | alreadyProcessed | alreadyFailed => exact .of_subset (fun _ he => he)
    | failed reason hfinal => exact forward_settle h he hfinal (Or.inr rfl) rfl
    | confirmedBefore i txHash hfinal => exact forward_settle h he hfinal (Or.inl rfl) rfl
    | confirmed i txHash hfinal => exact forward_settle h he hfinal (Or.inl rfl) rfl

end Forward

section EventRuns

variable {ι : Type} [DecidableEq ι] {rt : Runtime} {req : ι → Request}

theorem reachable_lifecycleInv {ls : List (Label ι)} {σ : SystemState ι}
    (h : runs rt req (State.init Db.empty) ls = some σ) : LifecycleInv σ.world.db := by
  apply reachable_invariant (P := fun σ => LifecycleInv σ.world.db) lifecycleInv_empty _ h
  intro σ σ' _ hinv hstep
  cases hstep with
  | quiet js hw _ _ => rw [hw]; exact hinv
  | commit i r s _ hc _ _ => exact hc.lifecycleInv hinv
  | reject i e s _ _ hw _ => rw [hw]; exact hinv

theorem webhook_lifecycle {ls : List (Label ι)} {σ : SystemState ι}
    (h : runs rt req (State.init Db.empty) ls = some σ) :
    (∀ e ∈ σ.world.db.webhookEvents, Audited (σ.world.db.attemptsOf e.id) e) ∧
      ∀ l σ', step engine (scripts rt req) σ l = some σ' → ∀ e ∈ σ.world.db.webhookEvents,
        ∃ e' ∈ σ'.world.db.webhookEvents, e'.id = e.id ∧ (e'.status = e.status ∨ e.status.Next e'.status) := by
  have hinv := reachable_lifecycleInv h
  refine ⟨hinv.events, ?_⟩
  intro l σ' hs
  cases (reachable_step h hs).2 with
  | quiet js hw _ _ =>
    apply Db.Forward.of_subset
    rw [hw]
    exact fun _ he => he
  | commit i r s _ hc _ _ => exact hc.forward hinv
  | reject i e s _ _ hw _ =>
    apply Db.Forward.of_subset
    rw [hw]
    exact fun _ he => he

theorem webhook_lifecycle_sample : ∃ σ : SystemState Sample.Party,
    runs Sample.runtime Sample.requests (State.init Db.empty) Sample.confirmation = some σ ∧
      σ.world.db.webhookEvents.rows.map (fun e => e.status) = [.processed] ∧
      ∀ e ∈ σ.world.db.webhookEvents, Audited (σ.world.db.attemptsOf e.id) e := by
  have hrun : (runs Sample.runtime Sample.requests (State.init Db.empty) Sample.confirmation).any (fun σ =>
      σ.world.db.webhookEvents.rows.map (fun e => e.status) = [.processed]) = true := by
    decide +kernel
  obtain ⟨σ, hσ, hrows⟩ := (Option.any_eq_true _ _).mp hrun
  exact ⟨σ, hσ, of_decide_eq_true hrows, (webhook_lifecycle hσ).1⟩

end EventRuns

end EventGateway
