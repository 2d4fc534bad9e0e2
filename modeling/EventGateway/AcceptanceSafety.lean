import EventGateway.OutboxDelivery

namespace EventGateway

open KeyedTable TransactionProgram Interleaving Statements
open WebhookEvents (HasEventId HasNonce blockchainWebhookProvider)

section Commits

variable {rt : Runtime} {d : Db}

theorem Commits.events_back {w : World Db JobData} {q : Request} {r : Response} (hc : Commits rt w q r d)
    (hq : ∀ config request fresh, q ≠ .acceptBlockchainWebhook config request fresh) :
    ∀ e' ∈ d.webhookEvents, ∃ e ∈ w.db.webhookEvents, e.id = e'.id ∧ e.provider = e'.provider ∧
      e.externalEventId = e'.externalEventId := by
  intro e' he'
  have hsettle {e : WebhookEvent} {p : WebhookEventPatch} {t : Table WebhookEvent}
      (h : e' ∈ t.update e.id p.change) : ∃ x ∈ t, x.id = e'.id ∧ x.provider = e'.provider ∧
        x.externalEventId = e'.externalEventId := by
    obtain ⟨x, hx, rfl⟩ := Table.mem_update.mp h
    refine ⟨x, hx, ?_⟩
    split_ifs <;> exact ⟨rfl, rfl, rfl⟩
  have hwrites {ws : List Write} (hws : ∀ x ∈ ws, OutboxDispatcher.OutboxWrite w.db x)
      (h : e' ∈ (engine.view w.db ws).webhookEvents) : ∃ x ∈ w.db.webhookEvents, x.id = e'.id ∧
        x.provider = e'.provider ∧ x.externalEventId = e'.externalEventId := by
    obtain ⟨x, hx, rfl | ⟨_, rfl⟩⟩ := OutboxDispatcher.mem_view_outboxWrites hws h
    · exact ⟨_, hx, rfl, rfl, rfl⟩
    · exact ⟨x, hx, rfl, rfl, rfl⟩
  cases hc with
  | paymentIntent hc =>
    cases hc with
    | replayed | created => exact ⟨e', he', rfl, rfl, rfl⟩
  | acceptance => exact absurd rfl (hq _ _ _)
  | dispatched hws => exact hwrites (fun x hx => (hws x hx).outboxWrite) he'
  | reconciled hws => exact hwrites (fun x hx => (hws x hx).outboxWrite) he'
  | processed hp he hs =>
    cases hs with
    | alreadyProcessed | alreadyFailed => exact ⟨e', he', rfl, rfl, rfl⟩
    | failed | confirmedBefore | confirmed => exact hsettle he'

end Commits

section Answers

variable {ι : Type} (rt : Runtime) (req : ι → Request)

def AcceptedWith (σ : SystemState ι) (j : ι) (a : WebhookEvents.WebhookAcceptanceResponse) : Prop :=
  σ.phase j = .committed (.acceptance a)

structure AcceptanceInv (σ : SystemState ι) : Prop where
  provider : ∀ e ∈ σ.world.db.webhookEvents, e.provider = blockchainWebhookProvider
  committed : ∀ j a, AcceptedWith σ j a → ∃ e ∈ σ.world.db.webhookEvents, HasEventId a.eventId e
  rejected : ∀ j config request fresh nonce dto, req j = .acceptBlockchainWebhook config request fresh →
    WebhookEvents.validateRequest rt config request fresh.nowMs = .ok (nonce, dto) → ∀ e, σ.phase j = .rejected e →
      e = .api .webhookEventConflict ∨ e = .api .webhookNonceReplay ∨ ∃ x, e = .database x
  acceptor : ∀ e ∈ σ.world.db.webhookEvents, ∃ j a, AcceptedWith σ j a ∧ a.eventId = e.externalEventId ∧
    a.status = .accepted
  once : ∀ i j a b, AcceptedWith σ i a → AcceptedWith σ j b → a.eventId = b.eventId → a.status = .accepted →
    b.status = .accepted → i = j

theorem acceptanceInv_init : AcceptanceInv rt req (State.init Db.empty) := by
  refine ⟨fun e he => absurd he (Table.not_mem_empty e), ?_, ?_, fun e he => absurd he (Table.not_mem_empty e), ?_⟩
  · intro j a ha
    cases ha
  · intro j config request fresh nonce dto _ _ e he
    cases he
  · intro i j a b ha
    cases ha

variable {rt req}

theorem AcceptanceInv.quiet {σ σ' : SystemState ι} (h : AcceptanceInv rt req σ)
    (hev : σ.world.db.Evolves σ'.world.db)
    (hback : ∀ e' ∈ σ'.world.db.webhookEvents, ∃ e ∈ σ.world.db.webhookEvents, e.provider = e'.provider ∧
      e.externalEventId = e'.externalEventId)
    (hc : ∀ j a, AcceptedWith σ' j a ↔ AcceptedWith σ j a)
    (hr : ∀ j config request fresh nonce dto, req j = .acceptBlockchainWebhook config request fresh →
      WebhookEvents.validateRequest rt config request fresh.nowMs = .ok (nonce, dto) → ∀ e, σ'.phase j = .rejected e →
        σ.phase j = .rejected e ∨ e = .api .webhookEventConflict ∨ e = .api .webhookNonceReplay ∨
          ∃ x, e = .database x) : AcceptanceInv rt req σ' := by
  refine ⟨?_, ?_, ?_, ?_, ?_⟩
  · intro e' he'
    obtain ⟨e, he, hp, _⟩ := hback e' he'
    rw [← hp]
    exact h.provider e he
  · intro j a ha
    obtain ⟨e, he, hid⟩ := h.committed j a ((hc j a).mp ha)
    obtain ⟨e', he', hee'⟩ := hev.webhookEvents e he
    exact ⟨e', he', WebhookEvents.hasEventId_of_evolves hee' hid⟩
  · intro j config request fresh nonce dto hq hv e he
    rcases hr j config request fresh nonce dto hq hv e he with hold | hnew
    · exact h.rejected j config request fresh nonce dto hq hv e hold
    · exact hnew
  · intro e' he'
    obtain ⟨e, he, _, hid⟩ := hback e' he'
    obtain ⟨j, a, ha, hae, hs⟩ := h.acceptor e he
    exact ⟨j, a, (hc j a).mpr ha, hae.trans hid, hs⟩
  · intro i j a b ha hb
    exact h.once i j a b ((hc i a).mp ha) ((hc j b).mp hb)

variable [DecidableEq ι]

theorem acceptanceInv_reject {σ σ' : SystemState ι} (h : AcceptanceInv rt req σ) {i : ι} {e : Failure}
    (hrun : ∀ r, σ.phase i ≠ .committed r) (hrej : (req i).Reject rt e σ.world ∨ ∃ x, e = .database x)
    (hw : σ'.world = σ.world) (hp : σ'.phase = Function.update σ.phase i (.rejected e)) :
    AcceptanceInv rt req σ' := by
  apply h.quiet
  · rw [hw]
    exact Db.Evolves.refl _
  · rw [hw]
    exact fun e' he' => ⟨e', he', rfl, rfl⟩
  · intro j a
    rw [AcceptedWith, AcceptedWith, hp]
    by_cases hj : j = i
    · subst hj
      simp [hrun]
    · rw [Function.update_of_ne hj]
  · intro j config request fresh nonce dto hq hv x hx
    rw [hp] at hx
    by_cases hj : j = i
    · subst hj
      rw [Function.update_self] at hx
      cases hx
      rcases hrej with hrej | hdb
      · rw [hq] at hrej
        simp only [Request.Reject, hv] at hrej
        cases hrej with
        | conflict => exact Or.inr (Or.inl rfl)
        | nonceReplay => exact Or.inr (Or.inr (Or.inl rfl))
      · exact Or.inr (Or.inr (Or.inr hdb))
    · rw [Function.update_of_ne hj] at hx
      exact Or.inl hx

theorem acceptanceInv_accept {σ σ' : SystemState ι} (h : AcceptanceInv rt req σ) {i : ι} {nonce : Text}
    {dto : WebhookEvents.BlockchainWebhookDto} {fresh : WebhookEvents.Fresh} {a : WebhookEvents.WebhookAcceptanceResponse}
    (hrun : ∀ r, σ.phase i ≠ .committed r) (hp : σ'.phase = Function.update σ.phase i (.committed (.acceptance a)))
    (hc : WebhookEvents.Accepted rt nonce dto fresh σ.world.db a σ'.world.db) : AcceptanceInv rt req σ' := by
  have hself : AcceptedWith σ' i a := by rw [AcceptedWith, hp, Function.update_self]
  have hkept (j : ι) (b : WebhookEvents.WebhookAcceptanceResponse) (hb : AcceptedWith σ j b) : AcceptedWith σ' j b := by
    have hj : j ≠ i := by
      rintro rfl
      exact hrun _ hb
    rw [AcceptedWith, hp, Function.update_of_ne hj]
    exact hb
  have hback (j : ι) (b : WebhookEvents.WebhookAcceptanceResponse) (hb : AcceptedWith σ' j b) :
      j = i ∧ b = a ∨ AcceptedWith σ j b := by
    by_cases hj : j = i
    · subst hj
      rw [AcceptedWith, hp, Function.update_self] at hb
      cases hb
      exact Or.inl ⟨rfl, rfl⟩
    · rw [AcceptedWith, hp, Function.update_of_ne hj] at hb
      exact Or.inr hb
  have hevents (e' : WebhookEvent) (he' : e' ∈ σ'.world.db.webhookEvents) : e' ∈ σ.world.db.webhookEvents ∨
      HasEventId a.eventId e' ∧ a.status = .accepted := by
    generalize σ'.world.db = d' at hc he'
    cases hc with
    | alreadyAccepted => exact Or.inl he'
    | accepted paymentIntentId hp he hn hid ho =>
      rcases Table.mem_of_mem_insert he' with he' | rfl
      · exact Or.inl he'
      · exact Or.inr ⟨⟨rfl, rfl⟩, rfl⟩
  have hfound : ∃ e ∈ σ'.world.db.webhookEvents, HasEventId a.eventId e := by
    generalize σ'.world.db = d' at hc
    cases hc with
    | alreadyAccepted e he hid hs => exact ⟨e, he, hid⟩
    | accepted paymentIntentId hp he hn hid ho =>
      exact ⟨_, (Table.mem_insert hid).mpr (Or.inr rfl), rfl, rfl⟩
  have hfirst : a.status = .accepted → ∀ e ∈ σ.world.db.webhookEvents, ¬ HasEventId a.eventId e := by
    generalize σ'.world.db = d' at hc
    cases hc with
    | alreadyAccepted => intro hs; cases hs
    | accepted paymentIntentId hp he hn hid ho => exact fun _ => he
  have hkeptEvents : ∀ e ∈ σ.world.db.webhookEvents, e ∈ σ'.world.db.webhookEvents := by
    generalize σ'.world.db = d' at hc
    cases hc with
    | alreadyAccepted => exact fun _ he => he
    | accepted => exact fun _ he => Table.mem_insert_of_mem he
  refine ⟨?_, ?_, ?_, ?_, ?_⟩
  · intro e' he'
    rcases hevents e' he' with he' | ⟨hid, _⟩
    · exact h.provider e' he'
    · exact hid.1
  · intro j b hb
    rcases hback j b hb with ⟨rfl, rfl⟩ | hb
    · exact hfound
    · obtain ⟨e, he, hid⟩ := h.committed j b hb
      exact ⟨e, hkeptEvents e he, hid⟩
  · intro j config request fresh' nonce' dto' hq hv e he
    have hj : j ≠ i := by
      rintro rfl
      rw [hp, Function.update_self] at he
      cases he
    rw [hp, Function.update_of_ne hj] at he
    exact h.rejected j config request fresh' nonce' dto' hq hv e he
  · intro e' he'
    rcases hevents e' he' with he' | ⟨hid, hs⟩
    · obtain ⟨j, b, hb, hbe, hs⟩ := h.acceptor e' he'
      exact ⟨j, b, hkept j b hb, hbe, hs⟩
    · exact ⟨i, a, hself, hid.2.symm, hs⟩
  · -- a second acceptance of the event ID would have found the row of the first
    have hsecond (j : ι) (b : WebhookEvents.WebhookAcceptanceResponse) (hb : AcceptedWith σ j b)
        (hab : b.eventId = a.eventId) (hs : a.status = .accepted) : False := by
      obtain ⟨e, he, hid⟩ := h.committed j b hb
      rw [hab] at hid
      exact hfirst hs e he hid
    intro j k b c hb hc' hbc hbs hcs
    rcases hback j b hb with ⟨rfl, rfl⟩ | hb <;> rcases hback k c hc' with ⟨rfl, rfl⟩ | hc'
    · rfl
    · exact (hsecond k c hc' hbc.symm hbs).elim
    · exact (hsecond j b hb hbc hcs).elim
    · exact h.once j k b c hb hc' hbc hbs hcs

theorem acceptanceInv_step {σ σ' : SystemState ι} (h : AcceptanceInv rt req σ) (hstep : SystemStep rt req σ σ') :
    AcceptanceInv rt req σ' := by
  cases hstep with
  | quiet js hw hc hr =>
    apply h.quiet
    · rw [hw]
      exact Db.Evolves.refl _
    · rw [hw]
      exact fun e' he' => ⟨e', he', rfl, rfl⟩
    · exact fun j a => hc j _
    · exact fun j _ _ _ _ _ _ _ e he => Or.inl ((hr j e).mp he)
  | reject i e s hrun hrej hw hp => exact acceptanceInv_reject h (by simp [hrun]) hrej hw hp
  | commit i r s hrun hcom he hp =>
    by_cases hq : ∀ config request fresh, req i ≠ .acceptBlockchainWebhook config request fresh
    · apply h.quiet hcom.evolves
      · intro e' he'
        obtain ⟨e, he, _, hpr, hid⟩ := hcom.events_back hq e' he'
        exact ⟨e, he, hpr, hid⟩
      · intro j a
        rw [AcceptedWith, AcceptedWith, hp]
        by_cases hj : j = i
        · subst hj
          rw [Function.update_self, hrun]
          constructor
          · intro hr
            cases hr
            generalize req j = q at hcom hq
            cases hcom
            exact absurd rfl (hq _ _ _)
          · intro hr
            cases hr
        · rw [Function.update_of_ne hj]
      · intro j config request fresh nonce dto _ _ e he
        rw [hp] at he
        by_cases hj : j = i
        · subst hj
          rw [Function.update_self] at he
          cases he
        · rw [Function.update_of_ne hj] at he
          exact Or.inl he
    · push Not at hq
      obtain ⟨config, request, fresh, hq⟩ := hq
      rw [hq] at hcom
      generalize hd : σ'.world.db = d' at hcom
      cases hcom with
      | acceptance hv ha =>
        subst hd
        exact acceptanceInv_accept h (by simp [hrun]) hp ha

theorem reachable_acceptanceInv {ls : List (Label ι)} {σ : SystemState ι}
    (h : runs rt req (State.init Db.empty) ls = some σ) : AcceptanceInv rt req σ :=
  reachable_invariant (acceptanceInv_init rt req) (fun _ _ _ hinv hstep => acceptanceInv_step hinv hstep) h

end Answers

section Lookup

variable (rt : Runtime) (nonce : Text) (dto : WebhookEvents.BlockchainWebhookDto)

def respond (a : WebhookEvents.WebhookAcceptance) : Script Response := .ret (.acceptance a.toWebhookAcceptanceResponse)

variable {rt nonce dto} {d : Db} {p : Phase Stmt Stmt.Answer Failure Write Response}

variable {ι : Type} [DecidableEq ι] {req : ι → Request}

end Lookup

section AcceptedEvents

variable {ι : Type} {rt : Runtime} {req : ι → Request}

variable [DecidableEq ι]

end AcceptedEvents

namespace Sample

def config : WebhookEvents.WebhookConfig := ⟨some "secret".toList, 300⟩

end Sample

end EventGateway
