import EventGateway.AcceptanceIsolation
import EventGateway.CreationIsolation
import EventGateway.DispatchIsolation
import EventGateway.Gateway
import EventGateway.TransactionSoundness
import EventGateway.WorkerIsolation

namespace EventGateway

open TransactionProgram Interleaving RelyGuarantee Statements

variable (rt : Runtime)

def Request.Post : Request → Response → World Db JobData → Db → Prop
  | .createPaymentIntent key dto fresh, .paymentIntent r, w, d =>
    Serial (PaymentIntents.createPaymentIntent rt key dto fresh) r w d
  | .acceptBlockchainWebhook config request fresh, .acceptance r, w, d =>
    Serial (WebhookEvents.acceptBlockchainWebhook rt config request fresh) r w d
  | .dispatchBatch run, .dispatched _, w, d => OutboxDispatcher.Dispatched run w d
  | .reconcileStalePublishedEvents run, .reconciled _, w, d => OutboxDispatcher.Reconciled run w d
  | .processWebhookEvent input clock, .processing r, w, d => WebhookEventProcessor.Post input clock r w d
  | _, _, _, _ => False

def Request.Reject : Request → Failure → World Db JobData → Prop
  | .createPaymentIntent key dto fresh, e, w =>
    (engine.transaction (PaymentIntents.createPaymentIntent rt key dto fresh) w.db).result = .error e
  | .acceptBlockchainWebhook config request fresh, e, w =>
    match WebhookEvents.validateRequest rt config request fresh.nowMs with
    | .error x => e = x
    | .ok (nonce, dto) => WebhookEvents.Rejected rt nonce dto w e
  | _, _, _ => True

variable {rt}

def Request.Pending (rt : Runtime) (q : Request) (w : World Db JobData) : Prop :=
  wp discipline (q.script rt) (fun _ => False) [] w
    (fun r held ws w => ∀ w', discipline.Rely held w w' → q.Post rt r w' (engine.view w'.db ws))
    (fun e held _ w => ∀ w', discipline.Rely held w w' → q.Reject rt e w')

theorem serial_accept {config : WebhookEvents.WebhookConfig} {request : WebhookEvents.AcceptBlockchainWebhookRequest}
    {fresh : WebhookEvents.Fresh} {nonce : Text} {dto : WebhookEvents.BlockchainWebhookDto}
    (hv : WebhookEvents.validateRequest rt config request fresh.nowMs = .ok (nonce, dto))
    {a : WebhookEvents.WebhookAcceptance} {w : World Db JobData} {d : Db}
    (h : Serial (WebhookEvents.persist rt nonce dto fresh) a w d) :
    Serial (WebhookEvents.acceptBlockchainWebhook rt config request fresh) a.toWebhookAcceptanceResponse w d := by
  obtain ⟨hres, hdb⟩ := h
  unfold Serial WebhookEvents.acceptBlockchainWebhook
  rw [Engine.transaction] at hres hdb
  simp only [hv, Engine.transaction, Prog.pure_eq, Engine.exec_bind_ret, hres, hdb]
  exact ⟨rfl, trivial⟩

theorem pending_accept (config : WebhookEvents.WebhookConfig) (request : WebhookEvents.AcceptBlockchainWebhookRequest)
    (fresh : WebhookEvents.Fresh) (w : World Db JobData) :
    (Request.acceptBlockchainWebhook config request fresh).Pending rt w := by
  unfold Request.Pending Request.script WebhookEvents.acceptBlockchainWebhook
  apply wp_bind
  cases hv : WebhookEvents.validateRequest rt config request fresh.nowMs with
  | error x =>
    intro w' _
    simp only [Request.Reject, hv]
  | ok p =>
    obtain ⟨nonce, dto⟩ := p
    apply wp_bind
    apply wp_mono (WebhookEvents.wp_persist w)
    · intro a held ws w h w' hr
      exact serial_accept hv (h w' hr)
    · intro e held ws w h w' hr
      simp only [Request.Reject, hv]
      exact h w' hr

theorem Request.pending (q : Request) (w : World Db JobData) : q.Pending rt w := by
  cases q with
  | createPaymentIntent key dto fresh =>
    apply wp_bind
    exact wp_mono (PaymentIntents.wp_create w) (fun _ _ _ _ h => h) (fun _ _ _ _ h => h)
  | acceptBlockchainWebhook config request fresh => exact pending_accept config request fresh w
  | dispatchBatch run =>
    apply wp_bind
    apply wp_mono (OutboxDispatcher.wp_dispatchBatch run w)
    · exact fun r held ws w h w' hr => ⟨ws, rfl, h w' hr⟩
    · exact fun _ _ _ _ _ _ _ => trivial
  | reconcileStalePublishedEvents run =>
    apply wp_bind
    apply wp_mono (OutboxDispatcher.wp_reconcile run w)
    · exact fun r held ws w h w' hr => ⟨ws, rfl, h w' hr⟩
    · exact fun _ _ _ _ _ _ _ => trivial
  | processWebhookEvent input clock =>
    apply wp_bind
    apply wp_mono (WebhookEventProcessor.wp_process w)
    · exact fun r held ws w h w' hr => WebhookEventProcessor.Ends.post h hr
    · exact fun _ _ _ _ _ _ _ => trivial

inductive Commits (rt : Runtime) (w : World Db JobData) : Request → Response → Db → Prop
  | paymentIntent {key : Text} {dto : PaymentIntents.CreatePaymentIntentDto} {fresh : PaymentIntents.Fresh}
      {r : PaymentIntents.CreatePaymentIntentResult} {d : Db}
      (h : PaymentIntents.Created rt key dto fresh w.db r d) :
      Commits rt w (.createPaymentIntent key dto fresh) (.paymentIntent r) d
  | acceptance {config : WebhookEvents.WebhookConfig} {request : WebhookEvents.AcceptBlockchainWebhookRequest}
      {fresh : WebhookEvents.Fresh} {nonce : Text} {dto : WebhookEvents.BlockchainWebhookDto}
      {r : WebhookEvents.WebhookAcceptanceResponse} {d : Db}
      (hv : WebhookEvents.validateRequest rt config request fresh.nowMs = .ok (nonce, dto))
      (h : WebhookEvents.Accepted rt nonce dto fresh w.db r d) :
      Commits rt w (.acceptBlockchainWebhook config request fresh) (.acceptance r) d
  | dispatched {run : OutboxDispatcher.DispatchRun} {r : OutboxDispatcher.OutboxDispatchBatchResult} {ws : List Write}
      (h : ∀ x ∈ ws, OutboxDispatcher.DispatchWrite run w x) :
      Commits rt w (.dispatchBatch run) (.dispatched r) (engine.view w.db ws)
  | reconciled {run : OutboxDispatcher.ReconcileRun} {r : OutboxDispatcher.OutboxReconcileResult} {ws : List Write}
      (h : ∀ x ∈ ws, OutboxDispatcher.ReconcileWrite run w x) :
      Commits rt w (.reconcileStalePublishedEvents run) (.reconciled r) (engine.view w.db ws)
  | processed {input : WebhookEventProcessor.ProcessWebhookEventInput} {clock : WebhookEventProcessor.Clock}
      {r : WebhookEventProcessor.ProcessingResult} {e : WebhookEvent} {d : Db}
      (hp : Uuid.parse input.webhookEventId = some e.id) (he : w.db.webhookEvents.get e.id = some e)
      (h : WebhookEventProcessor.Settles input clock w.db e r d) :
      Commits rt w (.processWebhookEvent input clock) (.processing r) d

theorem Request.Post.commits {q : Request} {r : Response} {w : World Db JobData} {d : Db} (h : q.Post rt r w d) :
    Commits rt w q r d := by
  cases q with
  | createPaymentIntent key dto fresh =>
    cases r with
    | paymentIntent r =>
      obtain ⟨hres, rfl⟩ := h
      exact .paymentIntent (PaymentIntents.created_of_transaction hres)
    | _ => exact h.elim
  | acceptBlockchainWebhook config request fresh =>
    cases r with
    | acceptance r =>
      obtain ⟨hres, rfl⟩ := h
      obtain ⟨nonce, dto, hv, hacc⟩ := WebhookEvents.accepted_of_transaction hres
      exact .acceptance hv hacc
    | _ => exact h.elim
  | dispatchBatch run =>
    cases r with
    | dispatched r =>
      obtain ⟨ws, rfl, hws⟩ := h
      exact .dispatched hws
    | _ => exact h.elim
  | reconcileStalePublishedEvents run =>
    cases r with
    | reconciled r =>
      obtain ⟨ws, rfl, hws⟩ := h
      exact .reconciled hws
    | _ => exact h.elim
  | processWebhookEvent input clock =>
    cases r with
    | processing r =>
      obtain ⟨id, e, hp, he, hs⟩ := WebhookEventProcessor.Post.settles h
      obtain rfl : e.id = id := KeyedTable.Table.key_of_get he
      exact .processed hp he hs
    | _ => exact h.elim

theorem Commits.indexes {q : Request} {r : Response} {w : World Db JobData} {d : Db} (h : Commits rt w q r d)
    (hw : w.db.Indexes) : d.Indexes := by
  cases h with
  | paymentIntent h => exact h.indexes hw
  | acceptance hv h => exact h.indexes hw
  | dispatched h => exact OutboxDispatcher.indexes_outboxWrites hw (fun x hx => (h x hx).outboxWrite)
  | reconciled h => exact OutboxDispatcher.indexes_outboxWrites hw (fun x hx => (h x hx).outboxWrite)
  | processed hp he h => exact h.indexes hw

theorem Commits.evolves {q : Request} {r : Response} {w : World Db JobData} {d : Db} (h : Commits rt w q r d) :
    w.db.Evolves d := by
  cases h with
  | paymentIntent h => exact h.evolves
  | acceptance hv h => exact h.evolves
  | dispatched h => exact OutboxDispatcher.evolves_outboxWrites (fun x hx => (h x hx).outboxWrite)
  | reconciled h => exact OutboxDispatcher.evolves_outboxWrites (fun x hx => (h x hx).outboxWrite)
  | processed hp he h => exact h.evolves he

section System

variable {ι : Type} (rt : Runtime) (req : ι → Request)

def scripts (i : ι) : Script Response := (req i).script rt

def spec : Specification discipline (scripts rt req) where
  Post i := (req i).Post rt
  Reject i := (req i).Reject rt
  sound i w _ := (req i).pending w
  inv_post h hw := h.commits.indexes hw
  evolves_post h _ := ⟨h.commits.evolves, fun _ hj => hj⟩

abbrev SystemState (ι : Type) := State Stmt Stmt.Answer Failure Db Write Lock JobData Response ι

variable [DecidableEq ι]

def runs (σ : SystemState ι) (ls : List (Label ι)) : Option (SystemState ι) := run engine (scripts rt req) σ ls

inductive SystemStep (σ σ' : SystemState ι) : Prop
  | quiet (js : List JobData) (hw : σ'.world = σ.world.emit js)
      (hc : ∀ i r, σ'.phase i = .committed r ↔ σ.phase i = .committed r)
      (hr : ∀ i e, σ'.phase i = .rejected e ↔ σ.phase i = .rejected e)
  | commit (i : ι) (r : Response) (s : Session Stmt Stmt.Answer Failure Write Response)
      (hrun : σ.phase i = .running s) (h : Commits rt σ.world (req i) r σ'.world.db)
      (he : σ'.world.emitted = σ.world.emitted) (hp : σ'.phase = Function.update σ.phase i (.committed r))
  | reject (i : ι) (e : Failure) (s : Session Stmt Stmt.Answer Failure Write Response) (hrun : σ.phase i = .running s)
      (h : (req i).Reject rt e σ.world ∨ ∃ x, e = .database x) (hw : σ'.world = σ.world)
      (hp : σ'.phase = Function.update σ.phase i (.rejected e))

variable {rt req}

theorem SystemStep.of_effect {σ σ' : SystemState ι} {l : Label ι} (h : Effect (spec rt req) σ l σ') :
    SystemStep rt req σ σ' := by
  cases h with
  | quiet js hw hc hr => exact .quiet js hw hc hr
  | commit i r s hrun hpost he hp => exact .commit i r s hrun (Request.Post.commits hpost) he hp
  | reject i e s hrun hrej hw hp => exact .reject i e s hrun hrej hw hp

theorem runs_invariant {P : SystemState ι → Prop} {d : Db} (hd : d.Indexes) (h0 : P (State.init d))
    (hstep : ∀ σ σ' : SystemState ι, σ.world.db.Indexes → P σ → SystemStep rt req σ σ' → P σ') {ls : List (Label ι)}
    {σ : SystemState ι} (h : runs rt req (State.init d) ls = some σ) : Sound (spec rt req) σ ∧ P σ := by
  have hsound : Sound (spec rt req) (State.init d) := sound_init _ hd
  exact run_effect (P := P) (fun σ l σ' hs hp he => hstep σ σ' hs.inv hp (.of_effect he)) hsound h0 h

theorem reachable_invariant {P : SystemState ι → Prop} (h0 : P (State.init Db.empty))
    (hstep : ∀ σ σ' : SystemState ι, σ.world.db.Indexes → P σ → SystemStep rt req σ σ' → P σ') {ls : List (Label ι)}
    {σ : SystemState ι} (h : runs rt req (State.init Db.empty) ls = some σ) : P σ :=
  (runs_invariant Db.indexes_empty h0 hstep h).2

theorem runs_sound {d : Db} (hd : d.Indexes) {ls : List (Label ι)} {σ : SystemState ι}
    (h : runs rt req (State.init d) ls = some σ) : Sound (spec rt req) σ :=
  (runs_invariant (P := fun _ => True) hd trivial (fun _ _ _ _ _ => trivial) h).1

theorem reachable_indexes {ls : List (Label ι)} {σ : SystemState ι}
    (h : runs rt req (State.init Db.empty) ls = some σ) : σ.world.db.Indexes :=
  (runs_sound Db.indexes_empty h).inv

theorem reachable_commits {ls : List (Label ι)} {σ : SystemState ι} (h : runs rt req (State.init Db.empty) ls = some σ) :
    ∀ j r, σ.phase j = .committed r → ∃ w d, Commits rt w (req j) r d := by
  apply reachable_invariant (P := fun σ => ∀ j r, σ.phase j = .committed r → ∃ w d, Commits rt w (req j) r d) _ _ h
  · intro j r hj
    cases hj
  · intro σ σ' _ hinv hstep j r hj
    cases hstep with
    | quiet js hw hc hr => exact hinv j r ((hc j r).mp hj)
    | commit i r' s hrun hcom he hp =>
      rw [hp] at hj
      by_cases hji : j = i
      · subst hji
        rw [Function.update_self] at hj
        cases hj
        exact ⟨_, _, hcom⟩
      · rw [Function.update_of_ne hji] at hj
        exact hinv j r hj
    | reject i e s hrun hrej hw hp =>
      rw [hp] at hj
      by_cases hji : j = i
      · subst hji
        rw [Function.update_self] at hj
        cases hj
      · rw [Function.update_of_ne hji] at hj
        exact hinv j r hj

theorem runs_step {d : Db} (hd : d.Indexes) {ls : List (Label ι)} {l : Label ι} {σ σ' : SystemState ι}
    (h : runs rt req (State.init d) ls = some σ) (hs : step engine (scripts rt req) σ l = some σ') :
    σ.world.db.Indexes ∧ SystemStep rt req σ σ' := by
  have hσ := runs_sound hd h
  exact ⟨hσ.inv, .of_effect (step_effect hσ hs).2⟩

theorem reachable_step {ls : List (Label ι)} {l : Label ι} {σ σ' : SystemState ι}
    (h : runs rt req (State.init Db.empty) ls = some σ) (hs : step engine (scripts rt req) σ l = some σ') :
    σ.world.db.Indexes ∧ SystemStep rt req σ σ' :=
  runs_step Db.indexes_empty h hs

end System

namespace Sample

def time : Time := 1767225600000

def runtime : Runtime where
  numberToString _ := ['0']
  toISOString _ := "2026-01-01T00:00:00.000Z".toList
  sha256Hex text :=
    if text = "\x7b\"amount\":\"25.50\",\"asset\":\"USDC\",\"clientRequestId\":null,".toList ++
        "\"destination\":\"wallet-1\",\"metadata\":\x7b\x7d,\"reference\":null\x7d".toList then
      "64734229e9500fa624be18d2c411177f65d3c4b66f531e7ccf9fabd8ed05bfd9".toList
    else "aabd600f19ae83507475455e6de6028c5992d3df807a5d75bfeb71900b706f33".toList
  hmacSha256Hex _ _ := "5c10e4a2b80c6c0a3ee37fcabd85db73ffbf75aeeae3a493a5f38f14bdefc5f2".toList

def intentId : Uuid := 0x00000000000040008000000000000001

def eventId : Uuid := 0x00000000000040008000000000000002

def dto : PaymentIntents.CreatePaymentIntentDto where
  amount := "25.50".toList
  asset := "USDC".toList
  destination := "wallet-1".toList
  reference := none
  clientRequestId := none
  metadata := []
  valid := by decide

def create : Request :=
  .createPaymentIntent "key-1".toList dto ⟨0x00000000000040008000000000000003, intentId, time, time⟩

def body : Json :=
  .obj [("eventId".toList, .str "evt-1".toList), ("type".toList, .str "transaction.confirmed".toList),
    ("paymentIntentId".toList, .str intentId.render), ("txHash".toList, .str "0xABC1".toList),
    ("amount".toList, .str "25.5".toList), ("asset".toList, .str "USDC".toList)]

def webhook : WebhookEvents.AcceptBlockchainWebhookRequest where
  headers := ⟨some "application/json".toList, some "1767225600".toList, some "nonce-1".toList,
    some "v1=5c10e4a2b80c6c0a3ee37fcabd85db73ffbf75aeeae3a493a5f38f14bdefc5f2".toList⟩
  rawBody := WebhookSecurity.utf8 (CanonicalJson.stringify runtime body)
  body := body

def accept : Request :=
  .acceptBlockchainWebhook ⟨some "secret".toList, 300⟩ webhook
    ⟨time, time, time, eventId, 0x00000000000040008000000000000004, none⟩

def dispatch : Request := .dispatchBatch ⟨10, time, fun _ => false, fun _ => .added, fun _ => time⟩

def process : Request := .processWebhookEvent ⟨eventId.render, none⟩ ⟨time, time, time, time⟩

inductive Party
  | merchant
  | provider
  | dispatcher
  | worker
deriving DecidableEq

def requests : Party → Request
  | .merchant => create
  | .provider => accept
  | .dispatcher => dispatch
  | .worker => process

inductive Role
  | merchant
  | provider
  | worker
deriving DecidableEq

def contendingRequests : Role × Bool → Request
  | (.merchant, second) =>
    .createPaymentIntent (if second then "key-2".toList else "key-1".toList) dto
      (if second then ⟨0x00000000000040008000000000000013, 0x00000000000040008000000000000011, time, time⟩
        else ⟨0x00000000000040008000000000000003, intentId, time, time⟩)
  | (.provider, second) =>
    let body : Json :=
      .obj [("eventId".toList, .str (if second then "evt-2".toList else "evt-1".toList)),
        ("type".toList, .str "transaction.confirmed".toList),
        ("paymentIntentId".toList, .str (Uuid.render (if second then 0x00000000000040008000000000000011 else intentId))),
        ("txHash".toList, .str "0xABC1".toList), ("amount".toList, .str "25.5".toList), ("asset".toList, .str "USDC".toList)]
    .acceptBlockchainWebhook ⟨some "secret".toList, 300⟩
      { headers := { webhook.headers with nonce := some (if second then "nonce-2".toList else "nonce-1".toList) }
        rawBody := WebhookSecurity.utf8 (CanonicalJson.stringify runtime body)
        body := body }
      (if second then ⟨time, time, time, 0x00000000000040008000000000000012, 0x00000000000040008000000000000014, none⟩
        else ⟨time, time, time, eventId, 0x00000000000040008000000000000004, none⟩)
  | (.worker, second) =>
    .processWebhookEvent ⟨Uuid.render (if second then 0x00000000000040008000000000000012 else eventId), none⟩
      ⟨time, time, time, time⟩

def completes {ι : Type} (i : ι) (n : ℕ) : List (Label ι) := .start i :: (List.replicate n (.exec i) ++ [.finish i])

def completesThree (a b c : ℕ) : List (Label (Fin 3)) :=
  (List.zipWith completes (List.finRange 3) [a, b, c]).flatten

def confirmation : List (Label Party) := completes .merchant 4 ++ completes .provider 2 ++ completes .worker 7

def publication : List (Label Party) := completes .merchant 4 ++ completes .provider 2 ++ completes .dispatcher 4

end Sample

end EventGateway
