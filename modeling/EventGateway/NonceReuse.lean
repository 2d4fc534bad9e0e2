import EventGateway.AcceptanceSafety
import EventGateway.IdempotencySafety

namespace EventGateway

open KeyedTable TransactionProgram Interleaving Statements
open WebhookEvents (HasEventId HasNonce BlockchainWebhookDto hasSamePayload payloadHash)

section Ended

variable {ι : Type} {rt : Runtime} {req : ι → Request}

structure Ended (rt : Runtime) (req : ι → Request) (σ : SystemState ι) : Prop where
  committed : ∀ j r, σ.phase j = .committed r → ∃ w d, Commits rt w (req j) r d ∧ d.Evolves σ.world.db
  rejected : ∀ j e, σ.phase j = .rejected e →
    (∃ w, (req j).Reject rt e w ∧ w.db.Evolves σ.world.db) ∨ ∃ x, e = .database x

theorem ended_init : Ended rt req (State.init Db.empty) := by
  refine ⟨?_, ?_⟩
  · intro j r hj
    cases hj
  · intro j e hj
    cases hj

theorem Ended.later {σ σ' : SystemState ι} (h : Ended rt req σ) (hev : σ.world.db.Evolves σ'.world.db) {j : ι} :
    (∀ r, σ.phase j = .committed r → ∃ w d, Commits rt w (req j) r d ∧ d.Evolves σ'.world.db) ∧
      ∀ e, σ.phase j = .rejected e → (∃ w, (req j).Reject rt e w ∧ w.db.Evolves σ'.world.db) ∨ ∃ x, e = .database x := by
  constructor
  · intro r hr
    obtain ⟨w, d, hc, hd⟩ := h.committed j r hr
    exact ⟨w, d, hc, hd.trans hev⟩
  · intro e he
    rcases h.rejected j e he with ⟨w, hrej, hw⟩ | hdb
    · exact .inl ⟨w, hrej, hw.trans hev⟩
    · exact .inr hdb

variable [DecidableEq ι]

theorem ended_step {σ σ' : SystemState ι} (h : Ended rt req σ) (hstep : SystemStep rt req σ σ') : Ended rt req σ' := by
  cases hstep with
  | quiet js hw hc hr =>
    have hev : σ.world.db.Evolves σ'.world.db := by
      rw [hw]
      exact Db.Evolves.refl _
    exact ⟨fun j r hj => (h.later hev).1 r ((hc j r).mp hj), fun j e hj => (h.later hev).2 e ((hr j e).mp hj)⟩
  | commit i r s hrun hcom he hp =>
    refine ⟨fun j r' hj => ?_, fun j e hj => ?_⟩
    · rw [hp] at hj
      by_cases hji : j = i
      · subst hji
        rw [Function.update_self] at hj
        cases hj
        exact ⟨_, _, hcom, Db.Evolves.refl _⟩
      · rw [Function.update_of_ne hji] at hj
        exact (h.later hcom.evolves).1 r' hj
    · rw [hp] at hj
      by_cases hji : j = i
      · subst hji
        rw [Function.update_self] at hj
        cases hj
      · rw [Function.update_of_ne hji] at hj
        exact (h.later hcom.evolves).2 e hj
  | reject i e s hrun hrej hw hp =>
    have hev : σ.world.db.Evolves σ'.world.db := by
      rw [hw]
      exact Db.Evolves.refl _
    refine ⟨fun j r hj => ?_, fun j e' hj => ?_⟩
    · rw [hp] at hj
      by_cases hji : j = i
      · subst hji
        rw [Function.update_self] at hj
        cases hj
      · rw [Function.update_of_ne hji] at hj
        exact (h.later hev).1 r hj
    · rw [hp] at hj
      by_cases hji : j = i
      · subst hji
        rw [Function.update_self] at hj
        cases hj
        exact hrej.imp_left fun hrej => ⟨_, hrej, hev⟩
      · rw [Function.update_of_ne hji] at hj
        exact (h.later hev).2 e' hj

theorem reachable_ended {ls : List (Label ι)} {σ : SystemState ι}
    (h : runs rt req (State.init Db.empty) ls = some σ) : Ended rt req σ :=
  reachable_invariant ended_init (fun _ _ _ hinv hstep => ended_step hinv hstep) h

end Ended

section Nonces

variable {ι : Type} (rt : Runtime) (req : ι → Request)

def Delivers (j : ι) (nonce : Text) (dto : BlockchainWebhookDto) : Prop :=
  ∃ config request fresh, req j = .acceptBlockchainWebhook config request fresh ∧
    WebhookEvents.validateRequest rt config request fresh.nowMs = .ok (nonce, dto)

variable {rt req}

variable [DecidableEq ι]

end Nonces

namespace Sample

def eventBody (eventId : String) : Json :=
  .obj [("eventId".toList, .str eventId.toList), ("type".toList, .str "transaction.confirmed".toList),
    ("paymentIntentId".toList, .str intentId.render), ("txHash".toList, .str "0xABC1".toList),
    ("amount".toList, .str "25.5".toList), ("asset".toList, .str "USDC".toList)]

def rawBody (eventId : String) : Bytes := WebhookSecurity.utf8 (CanonicalJson.stringify runtime (eventBody eventId))

def signature (nonce eventId : String) : Text :=
  if nonce = "nonce-2" then "a3eb95da338b6a78690406bff6e51dfd6a1004b205bc22aa6efdce532ec14ab5".toList
  else if eventId = "evt-1" then "5c10e4a2b80c6c0a3ee37fcabd85db73ffbf75aeeae3a493a5f38f14bdefc5f2".toList
  else "c95508d4466cc37e9dd40fd09c7b3c1cd9c8cbda42fe0cbe2139cae6dffa97de".toList

def delivery (nonce eventId : String) : WebhookEvents.AcceptBlockchainWebhookRequest where
  headers := ⟨some "application/json".toList, some "1767225600".toList, some nonce.toList,
    some ("v1=".toList ++ signature nonce eventId)⟩
  rawBody := rawBody eventId
  body := eventBody eventId

end Sample

end EventGateway
