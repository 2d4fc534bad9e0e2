import EventGateway.MigrationSafety
import EventGateway.OrderIndependence
import EventGateway.RunHistory
import EventGateway.SessionInvariants

/-!
Workers and creations of payment intents, interleaved statement by statement,
have the effect of a serial order. A transaction stands in it where it commits,
with one exception: a worker that fails its event for want of an intent stands
before the creation that has overtaken it.
-/

namespace EventGateway

open KeyedTable TransactionProgram Interleaving RelyGuarantee Reordering Statements TxHash
open WebhookEventProcessor (ProcessWebhookEventInput Clock ProcessingResult Processed settle addAttempt)

namespace WebhookEventProcessor

variable {input : ProcessWebhookEventInput} {clock : Clock} {d d' : Db}

theorem Processed.settle_other {e : WebhookEvent} {r : ProcessingResult} (h : Processed input clock d e r d') {id : Uuid}
    (hid : id ≠ e.id) (p : WebhookEventPatch) (a : WebhookProcessingAttempt) :
    ∃ d'', Processed input clock (settle d id p a) e r d'' ∧ (settle d' id p a).SameButAttempts d'' := by
  cases h with
  | alreadyProcessed hs hc => exact ⟨_, .alreadyProcessed hs hc, rfl, rfl, rfl, rfl⟩
  | alreadyFailed hs hc => exact ⟨_, .alreadyFailed hs hc, rfl, rfl, rfl, rfl⟩
  | judged v hs hj ha =>
    have hadm : v.admissible clock (settle d id p a) = true := by
      cases v with
      | fail reason => exact ha
      | confirmedBefore => exact ha
      | confirm k txHash => exact ha
    refine ⟨_, .judged v hs hj hadm, ?_⟩
    have hevents (q : WebhookEventPatch) : (d.webhookEvents.update id p.change).update e.id q.change =
        (d.webhookEvents.update e.id q.change).update id p.change := Table.update_comm hid
    cases v with
    | fail reason =>
      rw [view_fail, view_fail]
      exact ⟨rfl, rfl, hevents _, rfl⟩
    | confirmedBefore =>
      rw [view_confirmedBefore, view_confirmedBefore]
      exact ⟨rfl, rfl, hevents _, rfl⟩
    | confirm k txHash =>
      rw [view_confirm, view_confirm]
      exact ⟨rfl, rfl, hevents _, rfl⟩

theorem transaction_unknown {e : WebhookEvent} {k : Uuid} (hp : Uuid.parse input.webhookEventId = some e.id)
    (he : d.webhookEvents.get e.id = some e) (hs : e.isFinal = false) (hneeds : Needs e k)
    (hk : d.paymentIntents.get k = none) (hc : clock.startedAt ≤ clock.finishedAt) :
    engine.transaction (processWebhookEvent input clock) d = ⟨.ok (.failed .unknownPaymentIntent),
      settle d e.id (failedPatch clock .unknownPaymentIntent)
        (attempt input clock e.id .failed (some ProcessingFailureReason.unknownPaymentIntent.text)), []⟩ := by
  obtain ⟨hash, htx, hblank⟩ := hneeds.hash
  have hj : judge d e = .ok (.fail .unknownPaymentIntent) := by
    simp [judge, hneeds.type, htx, hblank, hneeds.intent, hk]
  rw [← view_fail]
  exact Processed.transaction hp he (.judged (.fail .unknownPaymentIntent) hs hj (by simpa [Verdict.admissible] using hc))

theorem Overtaken.since {began began' w : World Db JobData} {r : ProcessingResult} {d : Db}
    (h : Overtaken input clock began' r w d) (hb : began.db.Evolves began'.db) : Overtaken input clock began r w d := by
  obtain ⟨e, k, hp, he, hs, hn, hk, hrest⟩ := h
  exact ⟨e, k, hp, he, hs, hn, hb.intent_eq_none hk, hrest⟩

theorem sameButAttempts_settle (h : d.SameButAttempts d') (id : Uuid) (p : WebhookEventPatch)
    (a : WebhookProcessingAttempt) : (settle d id p a).SameButAttempts (settle d' id p a) :=
  ⟨h.paymentIntents, h.idempotencyRecords, congrArg (fun t => t.update id p.change) h.webhookEvents, h.outboxEvents⟩

end WebhookEventProcessor

namespace PaymentIntents

variable {rt : Runtime} {key : Text} {dto : CreatePaymentIntentDto} {fresh : Fresh} {d : Db}

theorem transaction_settle {r : CreatePaymentIntentResult}
    (h : (engine.transaction (createPaymentIntent rt key dto fresh) d).result = .ok r) (id : Uuid) (p : WebhookEventPatch)
    (a : WebhookProcessingAttempt) :
    (engine.transaction (createPaymentIntent rt key dto fresh) (settle d id p a)).result = .ok r ∧
      (engine.transaction (createPaymentIntent rt key dto fresh) (settle d id p a)).db =
        settle (engine.transaction (createPaymentIntent rt key dto fresh) d).db id p a := by
  have hlen : isTooLong maxVarchar key = false := by
    by_contra hlong
    rw [transaction_overlongKey (by simpa using hlong)] at h
    cases h
  cases hf : d.idempotencyRecords.find (fun r => r.scope = idempotencyScope && r.idempotencyKey = key) with
  | some x =>
    have hf' : (settle d id p a).idempotencyRecords.find
        (fun r => r.scope = idempotencyScope && r.idempotencyKey = key) = some x := hf
    rw [transaction_replay hlen hf] at h ⊢
    rw [transaction_replay hlen hf']
    exact ⟨h, rfl⟩
  | none =>
    have hf' : (settle d id p a).idempotencyRecords.find
        (fun r => r.scope = idempotencyScope && r.idempotencyKey = key) = none := hf
    have hc := created_of_transaction h
    generalize (engine.transaction (createPaymentIntent rt key dto fresh) d).db = d' at hc ⊢
    cases hc with
    | replayed x status body hx hk hh hs hb => exact absurd hk (find_key_none hf x hx)
    | created amount hk hr hi ha _ hfit =>
      rw [transaction_created hf' hlen hfit ha hr hi]
      exact ⟨rfl, rfl⟩

end PaymentIntents

def Request.IsPayment : Request → Prop
  | .processWebhookEvent _ _ | .createPaymentIntent _ _ _ => True
  | _ => False

def Request.Avoids (q : Request) (id : Uuid) : Prop :=
  ∀ input clock, q = .processWebhookEvent input clock → Uuid.parse input.webhookEventId ≠ some id

section Requests

variable (rt : Runtime) {d : Db}

theorem transaction_process (input : ProcessWebhookEventInput) (clock : Clock) (d : Db) :
    (engine.transaction ((Request.processWebhookEvent input clock).script rt) d).result =
        (engine.transaction (WebhookEventProcessor.processWebhookEvent input clock) d).result.map .processing ∧
      (engine.transaction ((Request.processWebhookEvent input clock).script rt) d).db =
        (engine.transaction (WebhookEventProcessor.processWebhookEvent input clock) d).db := by
  have h : engine.transaction ((Request.processWebhookEvent input clock).script rt) d = _ :=
    Engine.exec_bind_ret d d (WebhookEventProcessor.processWebhookEvent input clock) Response.processing
  exact ⟨congrArg Outcome.result h, congrArg Outcome.db h⟩

theorem transaction_create (key : Text) (dto : PaymentIntents.CreatePaymentIntentDto) (fresh : PaymentIntents.Fresh) (d : Db) :
    (engine.transaction ((Request.createPaymentIntent key dto fresh).script rt) d).result =
        (engine.transaction (PaymentIntents.createPaymentIntent rt key dto fresh) d).result.map .paymentIntent ∧
      (engine.transaction ((Request.createPaymentIntent key dto fresh).script rt) d).db =
        (engine.transaction (PaymentIntents.createPaymentIntent rt key dto fresh) d).db := by
  have h : engine.transaction ((Request.createPaymentIntent key dto fresh).script rt) d = _ :=
    Engine.exec_bind_ret d d (PaymentIntents.createPaymentIntent rt key dto fresh) Response.paymentIntent
  exact ⟨congrArg Outcome.result h, congrArg Outcome.db h⟩

theorem map_eq_ok {α β : Type} {x : Except Failure α} {f : α → β} {b : β} (h : x.map f = .ok b) : ∃ a, x = .ok a ∧ f a = b := by
  cases x with
  | error e => cases h
  | ok a => exact ⟨a, rfl, Except.ok.inj h⟩

variable {rt}

theorem Request.transaction_settle {q : Request} (hq : q.IsPayment) {id : Uuid} (hav : q.Avoids id) {r : Response}
    (h : (engine.transaction (q.script rt) d).result = .ok r) (p : WebhookEventPatch) (a : WebhookProcessingAttempt) :
    (engine.transaction (q.script rt) (settle d id p a)).result = .ok r ∧
      (settle (engine.transaction (q.script rt) d).db id p a).SameButAttempts
        (engine.transaction (q.script rt) (settle d id p a)).db := by
  cases q with
  | processWebhookEvent input clock =>
    rw [(transaction_process rt input clock d).1] at h
    rw [(transaction_process rt input clock d).2, (transaction_process rt input clock _).1,
      (transaction_process rt input clock _).2]
    obtain ⟨x, hx, rfl⟩ := map_eq_ok h
    obtain ⟨k, e, hp, he, hpr⟩ := WebhookEventProcessor.processed_of_transaction hx
    obtain rfl : e.id = k := Table.key_of_get he
    have hne : id ≠ e.id := fun hid => hav input clock rfl (hid ▸ hp)
    obtain ⟨d'', hpr', hsame⟩ := hpr.settle_other hne p a
    have he' : (settle d id p a).webhookEvents.get e.id = some e := by
      rw [← he]
      exact Table.get_update_of_ne _ hne.symm
    rw [hpr'.transaction hp he']
    exact ⟨rfl, hsame⟩
  | createPaymentIntent key dto fresh =>
    rw [(transaction_create rt key dto fresh d).1] at h
    rw [(transaction_create rt key dto fresh d).2, (transaction_create rt key dto fresh _).1,
      (transaction_create rt key dto fresh _).2]
    obtain ⟨x, hx, rfl⟩ := map_eq_ok h
    obtain ⟨hres, hdb⟩ := PaymentIntents.transaction_settle hx id p a
    rw [hres, hdb]
    exact ⟨rfl, Db.SameButAttempts.refl _⟩
  | acceptBlockchainWebhook config request fresh => exact hq.elim
  | dispatchBatch run => exact hq.elim
  | reconcileStalePublishedEvents run => exact hq.elim

end Requests

section Serial

variable {ι : Type} (rt : Runtime) (req : ι → Request)

inductive Serves (phase : ι → Phase Stmt Stmt.Answer Failure Write Response) : Db → List ι → Db → Prop
  | nil (d : Db) : Serves phase d [] d
  | cons {i : ι} {r : Response} {order : List ι} {d d' : Db} (hr : phase i = .committed r)
      (ht : (engine.transaction (scripts rt req i) d).result = .ok r)
      (h : Serves phase (engine.transaction (scripts rt req i) d).db order d') : Serves phase d (i :: order) d'

def AddsIntent (phase : ι → Phase Stmt Stmt.Answer Failure Write Response) (x : ι) (k : Uuid) : Prop :=
  ∃ key dto fresh body, req x = .createPaymentIntent key dto fresh ∧ fresh.paymentIntentId = k ∧
    phase x = .committed (.paymentIntent ⟨201, false, body⟩)

variable {rt req} {phase phase' : ι → Phase Stmt Stmt.Answer Failure Write Response} {d d' : Db} {order : List ι}

theorem commits_scripts (hd : d.Indexes) {i : ι} {r : Response} (h : (engine.transaction (scripts rt req i) d).result = .ok r) :
    ∃ js, Commits rt ⟨d, js⟩ (req i) r (engine.transaction (scripts rt req i) d).db := transaction_commits hd h

theorem addsIntent_of_commits {x : ι} {r : Response} {js : List JobData} (hq : (req x).IsPayment) (hr : phase x = .committed r)
    (h : Commits rt ⟨d, js⟩ (req x) r d') {k : Uuid} (hk : d.paymentIntents.get k = none)
    (hk' : d'.paymentIntents.get k ≠ none) : AddsIntent req phase x k := by
  generalize hqx : req x = q at hq h
  cases h with
  | paymentIntent hc =>
    cases hc with
    | replayed => exact absurd hk hk'
    | created amount hkey hrec hi ha =>
      refine ⟨_, _, _, _, hqx, ?_, hr⟩
      by_contra hne
      apply hk'
      exact (Table.get_insert_of_ne d.paymentIntents _ (Ne.symm hne)).trans hk
  | processed hp he hs =>
    have hsame : d'.paymentIntents.get k = none := by
      cases hs with
      | confirmed i txHash hf hi hm hstatus hfree =>
        refine (Table.get_update d.paymentIntents i.id k).trans ?_
        rw [hk]
        rfl
      | _ => exact hk
    exact absurd hsame hk'
  | acceptance => exact hq.elim
  | dispatched => exact hq.elim
  | reconciled => exact hq.elim

theorem get_event_of_commits {q : Request} {r : Response} {js : List JobData} (hq : q.IsPayment) {id : Uuid} (hav : q.Avoids id)
    (h : Commits rt ⟨d, js⟩ q r d') : d'.webhookEvents.get id = d.webhookEvents.get id := by
  cases h with
  | paymentIntent hc =>
    cases hc with
    | replayed => rfl
    | created => rfl
  | processed hp he hs =>
    have hne := fun hid => hav _ _ rfl (hp.trans (congrArg some hid))
    cases hs with
    | alreadyProcessed => rfl
    | alreadyFailed => rfl
    | failed => exact Table.get_update_of_ne _ (Ne.symm hne)
    | confirmedBefore => exact Table.get_update_of_ne _ (Ne.symm hne)
    | confirmed => exact Table.get_update_of_ne _ (Ne.symm hne)
  | acceptance => exact hq.elim
  | dispatched => exact hq.elim
  | reconciled => exact hq.elim

namespace Serves

theorem append {d'' : Db} {xs ys : List ι} (h : Serves rt req phase d xs d') (h' : Serves rt req phase d' ys d'') :
    Serves rt req phase d (xs ++ ys) d'' := by
  induction h with
  | nil d => exact h'
  | cons hr ht _ ih => exact .cons hr ht (ih h')

theorem mono (h : Serves rt req phase d order d') (hp : ∀ i r, phase i = .committed r → phase' i = .committed r) :
    Serves rt req phase' d order d' := by
  induction h with
  | nil d => exact .nil d
  | cons hr ht _ ih => exact .cons (hp _ _ hr) ht ih

theorem congr {e : Db} (h : Serves rt req phase d order d') (hsame : d.SameButAttempts e) :
    ∃ e', Serves rt req phase e order e' ∧ d'.SameButAttempts e' := by
  induction h generalizing e with
  | nil d => exact ⟨e, .nil e, hsame⟩
  | cons hr ht _ ih =>
    obtain ⟨hres, hdb⟩ := hsame.transaction (scripts rt req _)
    obtain ⟨e', he', hsame'⟩ := ih hdb
    exact ⟨e', .cons hr (hres.trans ht) he', hsame'⟩

theorem evolves (h : Serves rt req phase d order d') (hd : d.Indexes) : d.Evolves d' ∧ d'.Indexes := by
  induction h with
  | nil d => exact ⟨Db.Evolves.refl d, hd⟩
  | cons hr ht _ ih =>
    obtain ⟨js, hc⟩ := transaction_commits hd ht
    obtain ⟨hev, hd'⟩ := ih (hc.indexes hd)
    exact ⟨hc.evolves.trans hev, hd'⟩

theorem final (h : Serves rt req phase d order d') (hd : d.Indexes) {x : ι} (hx : x ∈ order)
    {input : ProcessWebhookEventInput} {clock : Clock} (hq : req x = .processWebhookEvent input clock) :
    d'.Final (Uuid.parse input.webhookEventId) := by
  induction h with
  | nil d => cases hx
  | @cons i r order d d' hr ht hrest ih =>
    obtain ⟨js, hc⟩ := commits_scripts hd ht
    rcases List.mem_cons.mp hx with rfl | hx
    · have hfinal : (engine.transaction (scripts rt req x) d).db.Final (Uuid.parse input.webhookEventId) := by
        generalize (engine.transaction (scripts rt req x) d).db = d₁ at hc ⊢
        rw [hq] at hc
        cases hc with
        | processed hp he hs =>
          rw [hp]
          exact hs.final he
      exact hfinal.evolves (hrest.evolves (hc.indexes hd)).1
    · exact ih (hc.indexes hd) hx

theorem present (h : Serves rt req phase d order d') (hd : d.Indexes) {x : ι} (hx : x ∈ order) {k : Uuid}
    (hk : AddsIntent req phase x k) : d'.paymentIntents.get k ≠ none := by
  induction h with
  | nil d => cases hx
  | @cons i r order d d' hr ht hrest ih =>
    obtain ⟨js, hc⟩ := commits_scripts hd ht
    rcases List.mem_cons.mp hx with rfl | hx
    · have hsome : (engine.transaction (scripts rt req x) d).db.paymentIntents.get k ≠ none := by
        obtain ⟨key, dto, fresh, body, hq, rfl, hphase⟩ := hk
        rw [hr] at hphase
        cases hphase
        generalize (engine.transaction (scripts rt req x) d).db = d₁ at hc ⊢
        rw [hq] at hc
        cases hc with
        | paymentIntent hc =>
          cases hc with
          | created amount hk hrec hi ha =>
            have hget := Table.get_insert_self (r := PaymentIntents.createdIntent dto fresh amount) hi
            intro hnone
            cases hnone.symm.trans hget
      exact fun hnone => hsome ((hrest.evolves (hc.indexes hd)).1.intent_eq_none hnone)
    · exact ih (hc.indexes hd) hx

theorem creator (h : Serves rt req phase d order d') (hd : d.Indexes) (hreq : ∀ i, (req i).IsPayment) {k : Uuid}
    (hk : d.paymentIntents.get k = none) (hk' : d'.paymentIntents.get k ≠ none) :
    ∃ us c vs d₁, order = us ++ c :: vs ∧ Serves rt req phase d us d₁ ∧ d₁.paymentIntents.get k = none ∧
      Serves rt req phase d₁ (c :: vs) d' ∧ AddsIntent req phase c k := by
  induction h with
  | nil d => exact absurd hk hk'
  | @cons i r order d d' hr ht hrest ih =>
    obtain ⟨js, hc⟩ := commits_scripts hd ht
    by_cases hi : (engine.transaction (scripts rt req i) d).db.paymentIntents.get k = none
    · obtain ⟨us, c, vs, d₁, rfl, hus, hd₁, hvs, hcreates⟩ := ih (hc.indexes hd) hi hk'
      exact ⟨i :: us, c, vs, d₁, rfl, .cons hr ht hus, hd₁, hvs, hcreates⟩
    · exact ⟨[], i, order, d, rfl, .nil d, hk, .cons hr ht hrest, addsIntent_of_commits (hreq i) hr hc hk hi⟩

theorem keeps_event (h : Serves rt req phase d order d') (hd : d.Indexes) (hreq : ∀ i, (req i).IsPayment) {id : Uuid}
    (hav : ∀ x ∈ order, (req x).Avoids id) : d'.webhookEvents.get id = d.webhookEvents.get id := by
  induction h with
  | nil d => rfl
  | @cons i r order d d' hr ht hrest ih =>
    obtain ⟨js, hc⟩ := commits_scripts hd ht
    rw [ih (hc.indexes hd) (fun x hx => hav x (List.mem_cons_of_mem i hx))]
    exact get_event_of_commits (hreq i) (hav i List.mem_cons_self) hc

theorem settle (h : Serves rt req phase d order d') (hreq : ∀ i, (req i).IsPayment) {id : Uuid}
    (hav : ∀ x ∈ order, (req x).Avoids id) (p : WebhookEventPatch) (a : WebhookProcessingAttempt) :
    ∃ d'', Serves rt req phase (WebhookEventProcessor.settle d id p a) order d'' ∧
      (WebhookEventProcessor.settle d' id p a).SameButAttempts d'' := by
  induction h with
  | nil d => exact ⟨_, .nil _, Db.SameButAttempts.refl _⟩
  | @cons i r order d d' hr ht hrest ih =>
    obtain ⟨hres, hsame⟩ := Request.transaction_settle (hreq i) (hav i List.mem_cons_self) ht p a
    obtain ⟨e, he, hsame'⟩ := ih (fun x hx => hav x (List.mem_cons_of_mem i hx))
    obtain ⟨e', he', hsame''⟩ := he.congr hsame
    exact ⟨e', .cons hr hres he', hsame'.trans hsame''⟩

end Serves

end Serial

section Order

variable {ι : Type} {rt : Runtime} {req : ι → Request} (hreq : ∀ i, (req i).IsPayment)

def Explains (rt : Runtime) (q : Request) (began : World Db JobData) (r : Response) (w : World Db JobData) (d : Db) : Prop :=
  Serial (q.script rt) r w d ∨ ∃ input clock x, q = .processWebhookEvent input clock ∧ r = .processing x ∧
    WebhookEventProcessor.Overtaken input clock began x w d

theorem serial_bind_ret {α : Type} {p : Script α} {f : α → Response} {r : α} {w : World Db JobData} {d : Db}
    (h : Serial p r w d) : Serial (p >>= fun a => .ret (f a)) (f r) w d := by
  obtain ⟨hres, hdb⟩ := h
  rw [Engine.transaction] at hres hdb
  simp only [Serial, Engine.transaction, Engine.exec_bind_ret, hres, hdb]
  exact ⟨rfl, trivial⟩

include hreq in
theorem wp_explains (i : ι) (began w : World Db JobData) (hb : began.db.Evolves w.db) :
    wp discipline (scripts rt req i) (fun _ => False) [] w
      (fun r held ws w => ∀ w', discipline.Rely held w w' → Explains rt (req i) began r w' (engine.view w'.db ws))
      (fun _ held _ w => ∀ w', discipline.Rely held w w' → True) := by
  have hq := hreq i
  unfold scripts
  generalize req i = q at hq ⊢
  cases q with
  | createPaymentIntent key dto fresh =>
    apply wp_bind
    apply wp_mono (PaymentIntents.wp_create w)
    · exact fun r held ws w h w' hr => Or.inl (serial_bind_ret (h w' hr))
    · exact fun _ _ _ _ _ _ _ => trivial
  | processWebhookEvent input clock =>
    apply wp_bind
    apply wp_mono (WebhookEventProcessor.wp_process w)
    · intro r held ws w h w' hr
      rcases h w' hr with hserial | hover
      · exact Or.inl (serial_bind_ret hserial)
      · exact Or.inr ⟨input, clock, r, rfl, rfl, hover.since hb⟩
    · exact fun _ _ _ _ _ _ _ => trivial
  | acceptBlockchainWebhook config request fresh => exact hq.elim
  | dispatchBatch run => exact hq.elim
  | reconcileStalePublishedEvents run => exact hq.elim

variable (rt) in
def explained (began : World Db JobData) (j : ι) : SessionProperty (spec rt req) (fun w => began.db.Evolves w.db) :=
  SessionProperty.ofWp (spec rt req) (fun i r ws w => i = j → Explains rt (req i) began r w (engine.view w.db ws))
    (fun _ _ _ => True)
    (by
      intro i w hw
      refine wp_mono (wp_explains hreq i began w hw) ?_ (fun _ _ _ _ h => h)
      exact fun r held ws w h w' hr _ => h w' hr)

theorem explained_everywhere {σ : SystemState ι} (h : Sound (spec rt req) σ) {j : ι} (hj : σ.phase j = .idle) :
    (explained rt hreq σ.world j).Everywhere σ := by
  intro i s hi hf
  have hsession := h.session i s hi
  simp only [SessionSound, hf, Bool.false_eq_true, ↓reduceIte] at hsession
  apply wp_mono hsession.1
  · rintro r held ws w _ w' _ rfl
    rw [hj] at hi
    cases hi
  · exact fun _ _ _ _ _ _ _ => trivial

variable [DecidableEq ι] (rt)

def Placed (d₀ : Db) (ls : List (Label ι)) (σ : SystemState ι) (order : List ι) (j : ι) : Prop :=
  ∃ began : World Db JobData, d₀.Evolves began.db ∧ began.db.Evolves σ.world.db ∧
    (explained rt hreq began j).Everywhere σ ∧
    ∃ xs ys, order = xs ++ ys ∧ (∀ x ∈ order, EndedBefore ls x j → x ∈ xs) ∧
      ∀ x ∈ xs, ∀ k, AddsIntent req σ.phase x k → began.db.paymentIntents.get k ≠ none

structure Serialized (d₀ : Db) (ls : List (Label ι)) (σ : SystemState ι) (order : List ι) : Prop where
  nodup : order.Nodup
  committed : ∀ i, i ∈ order ↔ ∃ r, σ.phase i = .committed r
  rows : ∃ d, Serves rt req σ.phase d₀ order d ∧ d.SameButAttempts σ.world.db
  realTime : ∀ x ∈ order, ∀ y ∈ order, EndedBefore ls x y → Before order x y
  placed : ∀ j s, σ.phase j = .running s → Placed rt hreq d₀ ls σ order j

variable {rt} {hreq} {d₀ : Db} {ls : List (Label ι)} {l : Label ι} {σ σ' : SystemState ι} {order us vs : List ι} {j : ι}

omit [DecidableEq ι] in
theorem addsIntent_mono {phase phase' : ι → Phase Stmt Stmt.Answer Failure Write Response} {x : ι} {k : Uuid}
    (h : AddsIntent req phase' x k) (hp : ∀ r, phase' x = .committed r → phase x = .committed r) :
    AddsIntent req phase x k := by
  obtain ⟨key, dto, fresh, body, hq, hk, hx⟩ := h
  exact ⟨key, dto, fresh, body, hq, hk, hp _ hx⟩

theorem placed_start (h₀ : d₀.Indexes) (h : Serialized rt hreq d₀ ls σ order) (hrun : runs rt req (State.init d₀) ls = some σ)
    (hs : step engine (scripts rt req) σ l = some σ') (hc : ∀ i r, σ'.phase i = .committed r ↔ σ.phase i = .committed r)
    {j : ι} (hj : σ.phase j = .idle) : Placed rt hreq d₀ (ls ++ [l]) σ' order j := by
  -- a transaction that starts can stand behind everything that has committed
  have hsound := runs_sound h₀ hrun
  have hbegan : d₀.Evolves σ.world.db := (run_evolves (sound_init (spec rt req) h₀) hrun).1
  have hev : σ.world.db.Evolves σ'.world.db := ((step_effect hsound hs).2.evolves hsound).1
  have hsessions := step_sessions (explained rt hreq σ.world j) hsound (Db.Evolves.refl _) hev
    (explained_everywhere hreq hsound hj) hs
  refine ⟨σ.world, hbegan, hev, hsessions, order, [], (List.append_nil order).symm, fun x hx _ => hx, ?_⟩
  intro x hx k hk
  obtain ⟨d, hserves, hsame⟩ := h.rows
  rw [hsame.paymentIntents]
  exact hserves.present h₀ hx (addsIntent_mono hk (fun r => (hc x r).mp))

theorem Serialized.quiet (h₀ : d₀.Indexes) (h : Serialized rt hreq d₀ ls σ order)
    (hrun : runs rt req (State.init d₀) ls = some σ) (hs : step engine (scripts rt req) σ l = some σ')
    (hdb : σ'.world.db = σ.world.db) (hc : ∀ i r, σ'.phase i = .committed r ↔ σ.phase i = .committed r) :
    Serialized rt hreq d₀ (ls ++ [l]) σ' order where
  nodup := h.nodup
  committed i := (h.committed i).trans (exists_congr fun r => (hc i r).symm)
  rows := by
    obtain ⟨d, hserves, hsame⟩ := h.rows
    exact ⟨d, hserves.mono (fun i r => (hc i r).mpr), hdb ▸ hsame⟩
  realTime := by
    intro x hx y hy hxy
    rcases endedBefore_snoc hxy with hxy | ⟨rfl, -⟩
    · exact h.realTime x hx y hy hxy
    · obtain ⟨r, hr⟩ := (h.committed y).mp hy
      rw [idle_of_start hs] at hr
      cases hr
  placed := by
    intro j s' hj
    have hsound := runs_sound h₀ hrun
    rcases running_of_step hs hj with ⟨s, hjs⟩ | rfl
    · obtain ⟨began, hbegan, hev, hall, xs, ys, horder, hended, hcreates⟩ := h.placed j s hjs
      have hev' : began.db.Evolves σ'.world.db := hdb ▸ hev
      refine ⟨began, hbegan, hev', step_sessions _ hsound hev hev' hall hs, xs, ys, horder, ?_, ?_⟩
      · intro x hx hxj
        rcases endedBefore_snoc hxj with hxj | ⟨rfl, -⟩
        · exact hended x hx hxj
        · rw [idle_of_start hs] at hjs
          cases hjs
      · exact fun x hx k hk => hcreates x hx k (addsIntent_mono hk (fun r => (hc x r).mp))
    · exact placed_start h₀ h hrun hs hc (idle_of_start hs)

theorem Placed.insert (h : Placed rt hreq d₀ ls σ (us ++ vs) j) (hsound : Sound (spec rt req) σ) {t : ι} (ht : .finish t ∉ ls)
    (hs : step engine (scripts rt req) σ (.finish t) = some σ')
    (hc : ∀ i r, i ≠ t → σ'.phase i = .committed r → σ.phase i = .committed r)
    (hlast : vs = [] ∨ ∀ k, ¬ AddsIntent req σ'.phase t k) (hmem : t ∉ us ++ vs) :
    Placed rt hreq d₀ (ls ++ [.finish t]) σ' (us ++ t :: vs) j := by
  -- where a transaction can stand does not change when another one, which adds no intent or comes last, is
  -- inserted
  obtain ⟨began, hbegan, hev, hall, xs, ys, horder, hended, hcreates⟩ := h
  have hev' : began.db.Evolves σ'.world.db := hev.trans ((step_effect hsound hs).2.evolves hsound).1
  refine ⟨began, hbegan, hev', step_sessions _ hsound hev hev' hall hs, ?_⟩
  have hold (x : ι) (hx : x ∈ us ++ t :: vs) (hxj : EndedBefore (ls ++ [.finish t]) x j) : x ∈ xs := by
    rcases endedBefore_snoc hxj with hxj' | ⟨hl, -⟩
    · have hxt : x ≠ t := by
        rintro rfl
        exact ht hxj'.finish_mem
      apply hended x _ hxj'
      simpa [hxt] using hx
    · cases hl
  have hold' (x : ι) (hx : x ∈ xs) (k : Uuid) (hk : AddsIntent req σ'.phase x k) : began.db.paymentIntents.get k ≠ none := by
    have hxt : x ≠ t := by
      rintro rfl
      exact hmem (horder ▸ List.mem_append_left ys hx)
    exact hcreates x hx k (addsIntent_mono hk (fun r => hc x r hxt))
  rcases List.append_eq_append_iff.mp horder with ⟨as, rfl, rfl⟩ | ⟨as, rfl, rfl⟩
  · rcases hlast with hnil | hadds
    · obtain ⟨rfl, rfl⟩ := List.append_eq_nil_iff.mp hnil
      rw [List.append_nil] at hold hold'
      exact ⟨us, [t], rfl, by simpa using hold, hold'⟩
    · refine ⟨us ++ t :: as, ys, by simp, ?_, ?_⟩
      · intro x hx hxj
        have := hold x hx hxj
        simp only [List.mem_append, List.mem_cons] at this ⊢
        tauto
      · intro x hx k hk
        by_cases hxt : x = t
        · exact absurd (hxt ▸ hk) (hadds k)
        · apply hold' x _ k hk
          simpa [hxt] using hx
  · exact ⟨xs, as ++ t :: vs, by simp, hold, hold'⟩

theorem Serialized.insert (h₀ : d₀.Indexes) (h : Serialized rt hreq d₀ ls σ (us ++ vs))
    (hrun : runs rt req (State.init d₀) ls = some σ) {t : ι} {r : Response}
    {s : Session Stmt Stmt.Answer Failure Write Response} (hs : step engine (scripts rt req) σ (.finish t) = some σ')
    (htrun : σ.phase t = .running s) (hp : σ'.phase = Function.update σ.phase t (.committed r))
    (hrows : ∃ d, Serves rt req σ'.phase d₀ (us ++ t :: vs) d ∧ d.SameButAttempts σ'.world.db)
    (hended : ∀ x ∈ us ++ vs, EndedBefore ls x t → x ∈ us)
    (hlast : vs = [] ∨ ∀ k, ¬ AddsIntent req σ'.phase t k) :
    Serialized rt hreq d₀ (ls ++ [.finish t]) σ' (us ++ t :: vs) := by
  have hmem : t ∉ us ++ vs := by
    intro hm
    obtain ⟨r', hr'⟩ := (h.committed t).mp hm
    rw [htrun] at hr'
    cases hr'
  have hfinish : .finish t ∉ ls := by
    intro hm
    have hend := ended_of_finish_mem hrun hm
    rw [htrun] at hend
    cases hend
  have hother (i : ι) (hi : i ≠ t) : σ'.phase i = σ.phase i := by rw [hp, Function.update_of_ne hi]
  refine ⟨?_, ?_, hrows, ?_, ?_⟩
  · exact (List.perm_middle.nodup_iff).mpr (List.nodup_cons.mpr ⟨hmem, h.nodup⟩)
  · intro i
    by_cases hi : i = t
    · subst hi
      simp [hp]
    · rw [hother i hi, ← h.committed i]
      simp [hi]
  · intro x hx y hy hxy
    rcases endedBefore_snoc hxy with hxy' | ⟨hl, -⟩
    swap
    · cases hl
    have hxt : x ≠ t := by
      rintro rfl
      exact hfinish hxy'.finish_mem
    have hx' : x ∈ us ++ vs := by simpa [hxt] using hx
    by_cases hyt : y = t
    · subst hyt
      exact before_inserted (hended x hx' hxy') y vs
    · exact before_insert (h.realTime x hx' y (by simpa [hyt] using hy) hxy') t
  · intro j s' hj
    rcases running_of_step hs hj with ⟨s, hjs⟩ | hl
    · exact (h.placed j s hjs).insert (runs_sound h₀ hrun) hfinish hs
        (fun i r' hi => by rw [hother i hi]; exact id) hlast hmem
    · cases hl

section Commit

variable (h₀ : d₀.Indexes) (h : Serialized rt hreq d₀ ls σ order) (hrun : runs rt req (State.init d₀) ls = some σ)
  {t : ι} {r : Response} {s : Session Stmt Stmt.Answer Failure Write Response}
  (hs : step engine (scripts rt req) σ (.finish t) = some σ') (htrun : σ.phase t = .running s)
  (hp : σ'.phase = Function.update σ.phase t (.committed r))

include h₀ h hrun hs htrun hp

theorem Serialized.commit_serial (hserial : Serial ((req t).script rt) r σ.world σ'.world.db) :
    Serialized rt hreq d₀ (ls ++ [.finish t]) σ' (order ++ [t]) := by
  obtain ⟨d, hserves, hsame⟩ := h.rows
  obtain ⟨hres, hdb⟩ := hserial
  obtain ⟨hres', hdb'⟩ := hsame.transaction ((req t).script rt)
  have hmono (i : ι) (x : Response) (hi : σ.phase i = .committed x) : σ'.phase i = .committed x := by
    rw [hp, Function.update_of_ne _, hi]
    rintro rfl
    rw [htrun] at hi
    cases hi
  have hself : σ'.phase t = .committed r := by rw [hp, Function.update_self]
  have hrows : ∃ d, Serves rt req σ'.phase d₀ (order ++ [t]) d ∧ d.SameButAttempts σ'.world.db := by
    refine ⟨_, (hserves.mono hmono).append (.cons hself (hres'.symm.trans hres) (.nil _)), ?_⟩
    rw [← hdb]
    exact hdb'
  rw [← List.append_nil order] at h
  exact h.insert h₀ hrun hs htrun hp hrows (fun x hx _ => by simpa using hx) (Or.inl rfl)

theorem Serialized.commit_overtaken {input : ProcessWebhookEventInput} {clock : Clock} {began : World Db JobData}
    {x : ProcessingResult} (hq : req t = .processWebhookEvent input clock) (hr : r = .processing x)
    (hover : WebhookEventProcessor.Overtaken input clock began x σ.world σ'.world.db) (hbegan : d₀.Evolves began.db)
    {xs ys : List ι} (horder : order = xs ++ ys) (hended : ∀ x ∈ order, EndedBefore ls x t → x ∈ xs)
    (hadds : ∀ x ∈ xs, ∀ k, AddsIntent req σ.phase x k → began.db.paymentIntents.get k ≠ none) :
    ∃ order', Serialized rt hreq d₀ (ls ++ [.finish t]) σ' order' := by
  obtain ⟨e, k, hparse, he, hfinal, hneeds, hk, hc, rfl, hdb⟩ := hover
  subst hr
  obtain ⟨d, hserves, hsame⟩ := h.rows
  by_cases hnone : σ.world.db.paymentIntents.get k = none
  · have htrans := WebhookEventProcessor.transaction_unknown hparse he hfinal hneeds hnone hc
    refine ⟨_, h.commit_serial h₀ hrun hs htrun hp ?_⟩
    rw [hq, Serial, (transaction_process rt input clock _).1, (transaction_process rt input clock _).2, htrans]
    exact ⟨rfl, hdb.symm⟩
  -- the intent has been created since; the transaction goes before its creation
  have hk₀ : d₀.paymentIntents.get k = none := hbegan.intent_eq_none hk
  have hkd : d.paymentIntents.get k ≠ none := by rwa [← hsame.paymentIntents]
  obtain ⟨us, c, vs, d₁, rfl, hus, hd₁, hvs, hcreates⟩ := hserves.creator h₀ hreq hk₀ hkd
  have hd₁i := (hus.evolves h₀).2
  have hav : ∀ y ∈ us ++ c :: vs, (req y).Avoids e.id := by
    intro y hy input' clock' hqy hpy
    obtain ⟨e', hid, he', hf⟩ := hserves.final h₀ hy hqy
    rw [hpy] at hid
    rw [← hsame.webhookEvents, ← Option.some.inj hid, he] at he'
    rw [← Option.some.inj he', hfinal] at hf
    cases hf
  have hav' : ∀ y ∈ c :: vs, (req y).Avoids e.id := fun y hy => hav y (List.mem_append_right us hy)
  have he₁ : d₁.webhookEvents.get e.id = some e := by
    rw [← hvs.keeps_event hd₁i hreq hav', ← hsame.webhookEvents, he]
  have htrans := WebhookEventProcessor.transaction_unknown hparse he₁ hfinal hneeds hd₁ hc
  have hmono (i : ι) (y : Response) (hi : σ.phase i = .committed y) : σ'.phase i = .committed y := by
    rw [hp, Function.update_of_ne _, hi]
    rintro rfl
    rw [htrun] at hi
    cases hi
  have hself : σ'.phase t = .committed (.processing (.failed .unknownPaymentIntent)) := by rw [hp, Function.update_self]
  have hrows : ∃ d, Serves rt req σ'.phase d₀ (us ++ t :: c :: vs) d ∧ d.SameButAttempts σ'.world.db := by
    obtain ⟨d', hd', hsame'⟩ := (hvs.mono hmono).settle hreq hav'
      (WebhookEventProcessor.failedPatch clock .unknownPaymentIntent) (WebhookEventProcessor.attempt input clock e.id .failed
        (some WebhookEventProcessor.ProcessingFailureReason.unknownPaymentIntent.text))
    refine ⟨d', (hus.mono hmono).append (.cons hself ?_ ?_), ?_⟩
    · rw [scripts, hq, (transaction_process rt input clock _).1, htrans]
      rfl
    · rw [scripts, hq, (transaction_process rt input clock _).2, htrans]
      exact hd'
    · rw [hdb]
      exact hsame'.symm.trans (WebhookEventProcessor.sameButAttempts_settle hsame _ _ _)
  have hxs : ∀ y ∈ xs, y ∈ us := by
    rcases List.append_eq_append_iff.mp horder with ⟨as, rfl, hys⟩ | ⟨as, rfl, -⟩
    · cases as with
      | nil => exact fun y hy => by simpa using hy
      | cons b as =>
        obtain ⟨rfl, -⟩ := List.cons.inj hys
        exact absurd hk (hadds c (by simp) k hcreates)
    · exact fun y hy => List.mem_append_left as hy
  refine ⟨_, h.insert h₀ hrun hs htrun hp hrows (fun y hy hyt => hxs y (hended y hy hyt)) (Or.inr ?_)⟩
  rintro j ⟨key, dto, fresh, body, hqt, -⟩
  rw [hq] at hqt
  cases hqt

end Commit

theorem Serialized.step (h₀ : d₀.Indexes) (h : Serialized rt hreq d₀ ls σ order)
    (hrun : runs rt req (State.init d₀) ls = some σ) (hs : step engine (scripts rt req) σ l = some σ') :
    ∃ order', Serialized rt hreq d₀ (ls ++ [l]) σ' order' := by
  have hsound := runs_sound h₀ hrun
  cases (step_effect hsound hs).2 with
  | quiet js hw hc hr => exact ⟨order, h.quiet h₀ hrun hs (by rw [hw]; rfl) hc⟩
  | reject i e s htrun hrej hw hp =>
    refine ⟨order, h.quiet h₀ hrun hs (by rw [hw]) ?_⟩
    intro j r
    by_cases hj : j = i
    · subst hj
      simp [hp, htrun]
    · rw [hp, Function.update_of_ne hj]
  | commit i r s htrun hpost he hp =>
    obtain ⟨began, hbegan, hev, hall, xs, ys, horder, hended, hadds⟩ := h.placed i s htrun
    have hi : σ'.phase i = .committed r := by rw [hp, Function.update_self]
    rcases step_committed _ hsound hall hs hi with hold | ⟨ws, -, hdb, hholds⟩
    · rw [htrun] at hold
      cases hold
    · have hexplains := hholds σ.world (Discipline.Rely.refl hsound.inv) rfl
      rw [← hdb] at hexplains
      rcases hexplains with hserial | ⟨input, clock, x, hq, hr, hover⟩
      · exact ⟨_, h.commit_serial h₀ hrun hs htrun hp hserial⟩
      · exact h.commit_overtaken h₀ hrun hs htrun hp hq hr hover hbegan horder hended hadds

variable (hreq) in
theorem exists_serialized (h₀ : d₀.Indexes) (hrun : runs rt req (State.init d₀) ls = some σ) :
    ∃ order, Serialized rt hreq d₀ ls σ order := by
  refine (run_history (P := fun ls σ => runs rt req (State.init d₀) ls = some σ ∧ ∃ order, Serialized rt hreq d₀ ls σ order)
    ?_ ?_ hrun).2
  · rintro ls σ l σ' ⟨hrun, order, h⟩ hs
    refine ⟨?_, h.step h₀ hrun hs⟩
    rw [runs, run_append, ← runs, hrun]
    simp [run, hs]
  · refine ⟨rfl, [], List.nodup_nil, ?_, ⟨d₀, .nil d₀, Db.SameButAttempts.refl d₀⟩, ?_, ?_⟩
    · simp [State.init]
    · exact fun x hx => by cases hx
    · exact fun j s hj => by cases hj

end Order

section Hashes

variable {rt : Runtime} {d : Db}

def Db.Normalized (d : Db) : Prop := ∀ i ∈ d.paymentIntents, ∀ h, i.confirmedTxHash = some h → normalizeTxHash h = h

def Db.Holds (d : Db) (id : Uuid) : Prop :=
  ∃ e ∈ d.webhookEvents, e.id = id ∧ e.isFinal = true ∧ ∃ i ∈ d.paymentIntents, e.paymentIntentId = some i.id ∧
    i.status = .confirmed ∧ ∃ h, i.confirmedTxHash = some h ∧ e.normalizedTxHash = some h

theorem Db.Holds.evolves {d' : Db} {id : Uuid} (h : d.Holds id) (hev : d.Evolves d') : d'.Holds id := by
  obtain ⟨e, he, hid, hf, i, hi, hei, hs, hh⟩ := h
  exact ⟨e, mem_of_final hev he hf, hid, hf, i, mem_of_confirmed hev hi hs, hei, hs, hh⟩

theorem normalizedTxHash_of_matches {e : WebhookEvent} {i : PaymentIntent} {txHash : Text}
    (h : WebhookEventProcessor.Matches e i txHash) : e.normalizedTxHash = some txHash := by
  obtain ⟨hash, htx, -, rfl⟩ := h.hash
  rw [WebhookEvent.normalizedTxHash, htx]
  rfl

theorem Commits.normalized {w : World Db JobData} {q : Request} {r : Response} (hq : q.IsPayment) (h : Commits rt w q r d)
    (hn : w.db.Normalized) : d.Normalized := by
  cases h with
  | paymentIntent hc =>
    cases hc with
    | replayed => exact hn
    | created amount hk hr hi ha =>
      intro i hi h hh
      rcases Table.mem_of_mem_insert hi with hi | rfl
      · exact hn i hi h hh
      · cases hh
  | processed hp he hs =>
    cases hs with
    | confirmed i txHash hf hi hm hstatus hfree =>
      intro j hj h hh
      rcases Table.mem_update_cases hi hj with ⟨hj, -⟩ | rfl
      · exact hn j hj h hh
      · obtain rfl : txHash = h := Option.some.inj hh
        exact normalizeTxHash_of_matches hm
    | _ => exact hn
  | acceptance => exact hq.elim
  | dispatched => exact hq.elim
  | reconciled => exact hq.elim

theorem holds_of_settles {input : ProcessWebhookEventInput} {clock : Clock} {e : WebhookEvent} {d' : Db} (hn : d.Normalized)
    (he : d.webhookEvents.get e.id = some e) (h : WebhookEventProcessor.Settles input clock d e .processed d') :
    d'.Holds e.id := by
  have hmem := Table.mem_of_get he
  generalize hr : ProcessingResult.processed = r at h
  cases h with
  | alreadyProcessed | alreadyFailed | failed => cases hr
  | confirmedBefore i txHash hs hi hm hstatus hh =>
    obtain ⟨x, hx, hxn⟩ := Option.map_eq_some_iff.mp hh
    have hxh : x = txHash := (hn i hi x hx).symm.trans hxn
    have hnorm : e.normalizedTxHash = some txHash := normalizedTxHash_of_matches hm
    exact ⟨_, Table.mem_update_self hmem, rfl, rfl, i, hi, hm.intent, hstatus, txHash, hxh ▸ hx, hnorm⟩
  | confirmed i txHash hs hi hm hstatus hfree =>
    have hnorm : e.normalizedTxHash = some txHash := normalizedTxHash_of_matches hm
    exact ⟨_, Table.mem_update_self hmem, rfl, rfl, _, Table.mem_update_self hi, hm.intent, rfl, txHash, rfl, hnorm⟩

end Hashes

section SerialRuns

variable {ι : Type} [DecidableEq ι] {rt : Runtime} {req : ι → Request} {d₀ : Db} {ls : List (Label ι)} {σ : SystemState ι}

def CommitsProcessed (req : ι → Request) (σ : SystemState ι) (x : ι) (e : WebhookEvent) : Prop :=
  e ∈ σ.world.db.webhookEvents ∧ σ.phase x = .committed (.processing .processed) ∧
    ∃ input clock, req x = .processWebhookEvent input clock ∧ Uuid.parse input.webhookEventId = some e.id

theorem holds_of_committed (hreq : ∀ i, (req i).IsPayment) (h₀ : d₀.Indexes) (hn : d₀.Normalized)
    (hrun : runs rt req (State.init d₀) ls = some σ) : ∀ x input clock id, req x = .processWebhookEvent input clock →
      Uuid.parse input.webhookEventId = some id → σ.phase x = .committed (.processing .processed) → σ.world.db.Holds id := by
  refine (runs_invariant (P := fun σ => σ.world.db.Normalized ∧ ∀ x input clock id, req x = .processWebhookEvent input clock →
    Uuid.parse input.webhookEventId = some id → σ.phase x = .committed (.processing .processed) → σ.world.db.Holds id)
    h₀ ⟨hn, fun _ _ _ _ _ _ hx => by cases hx⟩ ?_ hrun).2.2
  rintro σ σ' - ⟨hnorm, hold⟩ hstep
  cases hstep with
  | quiet js hw hc hr =>
    rw [hw]
    exact ⟨hnorm, fun x input clock id hq hp hx => hold x input clock id hq hp ((hc x _).mp hx)⟩
  | reject i e s hi hrej hw hp =>
    rw [hw]
    refine ⟨hnorm, fun x input clock id hq hparse hx => hold x input clock id hq hparse ?_⟩
    by_cases hxi : x = i
    · subst hxi
      simp [hp] at hx
    · rwa [hp, Function.update_of_ne hxi] at hx
  | commit i r s hi hc he hp =>
    refine ⟨hc.normalized (hreq i) hnorm, ?_⟩
    intro x input clock id hq hparse hx
    by_cases hxi : x = i
    · subst hxi
      rw [hp, Function.update_self] at hx
      cases hx
      rw [hq] at hc
      generalize σ'.world.db = d' at hc ⊢
      cases hc with
      | processed hp' he' hs =>
        obtain rfl := Option.some.inj (hp'.symm.trans hparse)
        exact holds_of_settles hnorm he' hs
    · rw [hp, Function.update_of_ne hxi] at hx
      exact (hold x input clock id hq hparse hx).evolves hc.evolves

theorem serializable (hreq : ∀ i, (req i).IsPayment) (h₀ : d₀.Indexes) (hrun : runs rt req (State.init d₀) ls = some σ) :
    (∃ order : List ι, order.Nodup ∧ (∀ i, i ∈ order ↔ ∃ r, σ.phase i = .committed r) ∧
      (∀ x ∈ order, ∀ y ∈ order, EndedBefore ls x y → Before order x y) ∧
      ∃ d, Serves rt req σ.phase d₀ order d ∧ σ.world.db.webhookEvents = d.webhookEvents ∧
        σ.world.db.paymentIntents = d.paymentIntents) ∧
    (d₀.Normalized → ∀ x y e f, CommitsProcessed req σ x e → CommitsProcessed req σ y f →
      e.normalizedTxHash = f.normalizedTxHash → e.paymentIntentId = f.paymentIntentId) := by
  constructor
  · obtain ⟨order, h⟩ := exists_serialized hreq h₀ hrun
    obtain ⟨d, hserves, hsame⟩ := h.rows
    exact ⟨order, h.nodup, h.committed, h.realTime, d, hserves, hsame.webhookEvents, hsame.paymentIntents⟩
  · rintro hn x y e f ⟨he, hx, input, clock, hqx, hpx⟩ ⟨hf, hy, input', clock', hqy, hpy⟩ hhash
    have hd := (runs_sound h₀ hrun).inv
    obtain ⟨e', he', hid, -, i, hi, hei, -, h, hih, heh⟩ := holds_of_committed hreq h₀ hn hrun x input clock e.id hqx hpx hx
    obtain ⟨f', hf', hid', -, j, hj, hfj, -, h', hjh, hfh⟩ := holds_of_committed hreq h₀ hn hrun y input' clock' f.id hqy hpy hy
    obtain rfl : e' = e := Table.eq_of_key he' he hid
    obtain rfl : f' = f := Table.eq_of_key hf' hf hid'
    obtain rfl : h = h' := by
      rw [heh, hfh] at hhash
      exact Option.some.inj hhash
    obtain rfl : i = j := hd.confirmedTxHash i hi j hj h hih hjh
    rw [hei, hfj]

end SerialRuns

namespace Sample

def eventOnly : Db := SerialStep.performAll runtime Db.empty [.finished accept]

inductive Racer
  | worker
  | merchant
deriving DecidableEq

def racers : Racer → Request
  | .worker => process
  | .merchant => create

def race : List (Label Racer) :=
  .start .worker :: List.replicate 3 (.exec .worker) ++ completes .merchant 4 ++
    [.exec .worker, .exec .worker, .finish .worker]

end Sample

theorem serializable_sample : ∃ σ : SystemState Sample.Racer,
    runs Sample.runtime Sample.racers (State.init Sample.eventOnly) Sample.race = some σ ∧
      σ.world.db.paymentIntents.rows.length = 1 ∧
      σ.world.db.webhookEvents.rows.map (fun e => e.failureReason) = [some "UNKNOWN_PAYMENT_INTENT".toList] ∧
      ∃ order d, Serves Sample.runtime Sample.racers σ.phase Sample.eventOnly order d ∧
        σ.world.db.webhookEvents = d.webhookEvents ∧ σ.world.db.paymentIntents = d.paymentIntents := by
  have hrun : (runs Sample.runtime Sample.racers (State.init Sample.eventOnly) Sample.race).any (fun σ =>
      decide (σ.world.db.paymentIntents.rows.length = 1) && decide (σ.world.db.webhookEvents.rows.map (fun e =>
        e.failureReason) = [some "UNKNOWN_PAYMENT_INTENT".toList])) = true := by
    decide +kernel
  obtain ⟨σ, hσ, hchecks⟩ := (Option.any_eq_true _ _).mp hrun
  rw [Bool.and_eq_true, decide_eq_true_eq, decide_eq_true_eq] at hchecks
  have hreq (i : Sample.Racer) : (Sample.racers i).IsPayment := by
    cases i <;> trivial
  obtain ⟨⟨order, -, -, -, d, hserves, hevents, hintents⟩, -⟩ :=
    serializable hreq (SerialStep.indexes_performAll Db.indexes_empty _) hσ
  exact ⟨σ, hσ, hchecks.1, hchecks.2, order, d, hserves, hevents, hintents⟩

namespace Sample

def keptDb : Db :=
  { Db.empty with
    paymentIntents := ⟨[legacyIntent intentId "0XABC1".toList 0,
      legacyIntent 0x00000000000040008000000000000011 "0xabc1".toList 0], by decide⟩ }

theorem indexes_keptDb : keptDb.Indexes := indexes_twoIntents (by decide) (by decide)

def deliveredDb : Db :=
  SerialStep.performAll runtime keptDb
    [.finished (contendingRequests (.provider, false)), .finished (contendingRequests (.provider, true))]

def workers (second : Bool) : Request := contendingRequests (.worker, second)

def overlap : List (Label Bool) :=
  .start false :: .start true :: (List.replicate 5 [.exec false, .exec true]).flatten ++ [.finish false, .finish true]

def isProcessed (σ : SystemState Bool) (second : Bool) : Bool :=
  match σ.phase second with
  | .committed (.processing .processed) => true
  | _ => false

theorem committed_of_isProcessed {σ : SystemState Bool} {second : Bool} (h : isProcessed σ second = true) :
    σ.phase second = .committed (.processing .processed) := by
  unfold isProcessed at h
  split at h
  · assumption
  · cases h

end Sample

theorem migrated_spellings_processed :
    NormalizeConfirmedTxHashes.up (NormalizeConfirmedTxHashes.updates Sample.keptDb.paymentIntents) Sample.keptDb =
      .ok Sample.keptDb ∧
    Sample.deliveredDb.Indexes ∧
    ∃ σ : SystemState Bool, runs Sample.runtime Sample.workers (State.init Sample.deliveredDb) Sample.overlap = some σ ∧
      ∃ e f, CommitsProcessed Sample.workers σ false e ∧ CommitsProcessed Sample.workers σ true f ∧
        e.normalizedTxHash = f.normalizedTxHash ∧ e.paymentIntentId ≠ f.paymentIntentId := by
  have hupdates : NormalizeConfirmedTxHashes.updates Sample.keptDb.paymentIntents = [] := by decide +kernel
  refine ⟨by rw [hupdates]; rfl, SerialStep.indexes_performAll Sample.indexes_keptDb _, ?_⟩
  have hrun : (runs Sample.runtime Sample.workers (State.init Sample.deliveredDb) Sample.overlap).any (fun σ =>
      Sample.isProcessed σ false && Sample.isProcessed σ true && decide (σ.world.db.webhookEvents.rows.map (fun e =>
        (e.id, e.normalizedTxHash, e.paymentIntentId)) =
          [(Sample.eventId, some "0xabc1".toList, some Sample.intentId),
            (0x00000000000040008000000000000012, some "0xabc1".toList, some 0x00000000000040008000000000000011)])) = true := by
    decide +kernel
  obtain ⟨σ, hσ, hchecks⟩ := (Option.any_eq_true _ _).mp hrun
  rw [Bool.and_eq_true, Bool.and_eq_true, decide_eq_true_eq] at hchecks
  obtain ⟨⟨hfirst, hsecond⟩, hrows⟩ := hchecks
  obtain ⟨e, rest, hevents, he, hrest⟩ := List.map_eq_cons_iff.mp hrows
  obtain ⟨f, others, hrest, hf, -⟩ := List.map_eq_cons_iff.mp hrest
  rw [Prod.mk.injEq, Prod.mk.injEq] at he hf
  have hmem : e ∈ σ.world.db.webhookEvents ∧ f ∈ σ.world.db.webhookEvents := by
    rw [← Table.mem_rows, ← Table.mem_rows, hevents, hrest]
    simp
  refine ⟨σ, hσ, e, f, ⟨hmem.1, Sample.committed_of_isProcessed hfirst, _, _, rfl, ?_⟩,
    ⟨hmem.2, Sample.committed_of_isProcessed hsecond, _, _, rfl, ?_⟩, he.2.1.trans hf.2.1.symm, ?_⟩
  · rw [he.1]
    exact Uuid.parse_render _
  · rw [hf.1]
    exact Uuid.parse_render _
  · rw [he.2.2, hf.2.2]
    decide

end EventGateway
