import EventGateway.GatewaySpec

namespace EventGateway

open KeyedTable TransactionProgram Interleaving RelyGuarantee Statements

inductive SerialStep
  | finished (q : Request)
  | aborted (q : Request)

namespace SerialStep

variable (rt : Runtime)

def perform (d : Db) : SerialStep → Db
  | .finished q => (engine.transaction (q.script rt) d).db
  | .aborted _ => d

def commits (d : Db) : SerialStep → Bool
  | .finished q => (engine.transaction (q.script rt) d).result.isOk
  | .aborted _ => false

def delivery : SerialStep → Option WebhookEventProcessor.ProcessWebhookEventInput
  | .finished (.processWebhookEvent input _) | .aborted (.processWebhookEvent input _) => some input
  | _ => none

def performAll (d : Db) (steps : List SerialStep) : Db := steps.foldl (perform rt) d

/-- The sequence without the deliveries that do not commit and without those of an event that a delivery
has committed for before; `seen` are the events of the deliveries kept so far. -/
def dedupe (seen : List (Option Uuid)) (d : Db) : List SerialStep → List SerialStep
  | [] => []
  | s :: steps =>
    match s.delivery with
    | none => s :: dedupe seen (s.perform rt d) steps
    | some input =>
      if s.commits rt d && !seen.contains (Uuid.parse input.webhookEventId) then
        s :: dedupe (Uuid.parse input.webhookEventId :: seen) (s.perform rt d) steps
      else dedupe seen (s.perform rt d) steps

end SerialStep

structure Db.SameButAttempts (d d' : Db) : Prop where
  paymentIntents : d'.paymentIntents = d.paymentIntents
  idempotencyRecords : d'.idempotencyRecords = d.idempotencyRecords
  webhookEvents : d'.webhookEvents = d.webhookEvents
  outboxEvents : d'.outboxEvents = d.outboxEvents

namespace Db.SameButAttempts

variable {d d' : Db}

theorem refl (d : Db) : d.SameButAttempts d := ⟨rfl, rfl, rfl, rfl⟩

theorem trans {d₁ d₂ d₃ : Db} (h : d₁.SameButAttempts d₂) (h' : d₂.SameButAttempts d₃) : d₁.SameButAttempts d₃ :=
  ⟨h'.1.trans h.1, h'.2.trans h.2, h'.3.trans h.3, h'.4.trans h.4⟩

theorem symm (h : d.SameButAttempts d') : d'.SameButAttempts d := ⟨h.1.symm, h.2.symm, h.3.symm, h.4.symm⟩

theorem eval (h : d.SameButAttempts d') (s : Stmt) :
    engine.eval s d' (fun _ => false) = engine.eval s d (fun _ => false) := by
  obtain ⟨i, r, e, o, a⟩ := d
  obtain ⟨i', r', e', o', a'⟩ := d'
  obtain ⟨rfl, rfl, rfl, rfl⟩ := h
  cases s <;> rfl

theorem apply (h : d.SameButAttempts d') (w : Write) : (d.apply w).SameButAttempts (d'.apply w) := by
  obtain ⟨i, r, e, o, a⟩ := d
  obtain ⟨i', r', e', o', a'⟩ := d'
  obtain ⟨rfl, rfl, rfl, rfl⟩ := h
  cases w <;> exact ⟨rfl, rfl, rfl, rfl⟩

theorem transaction {α : Type} (h : d.SameButAttempts d') (p : Script α) :
    (engine.transaction p d').result = (engine.transaction p d).result ∧
      (engine.transaction p d).db.SameButAttempts (engine.transaction p d').db :=
  Engine.exec_congr (fun s _ _ h => h.eval s) (fun _ _ w h => h.apply w) h h p

end Db.SameButAttempts

section Transactions

variable {rt : Runtime} {d : Db}

theorem transaction_commits {q : Request} {r : Response} (hd : d.Indexes)
    (h : (engine.transaction (q.script rt) d).result = .ok r) :
    ∃ js, Commits rt ⟨d, js⟩ q r (engine.transaction (q.script rt) d).db := by
  have hq : q.Pending rt ⟨d, []⟩ := q.pending _
  rcases wp_exec hq hd with ⟨a, held, ws, js, hr, hdb, hpost⟩ | ⟨⟨e, hr⟩, _⟩
  · obtain rfl : r = a := Except.ok.inj (h.symm.trans hr)
    have hdb' : (engine.transaction (q.script rt) d).db = engine.view d ws := hdb
    rw [hdb']
    exact ⟨[] ++ js, Request.Post.commits (hpost _ (Discipline.Rely.refl hd))⟩
  · have hr' : (engine.transaction (q.script rt) d).result = .error e := hr
    rw [hr'] at h
    cases h

theorem transaction_error {q : Request} {e : Failure} (hd : d.Indexes)
    (h : (engine.transaction (q.script rt) d).result = .error e) : (engine.transaction (q.script rt) d).db = d := by
  have hq : q.Pending rt ⟨d, []⟩ := q.pending _
  rcases wp_exec hq hd with ⟨a, held, ws, js, hr, _, _⟩ | ⟨_, hdb⟩
  · have hr' : (engine.transaction (q.script rt) d).result = .ok a := hr
    rw [hr'] at h
    cases h
  · exact hdb

namespace SerialStep

variable (rt) in
theorem perform_eq_or_commits (hd : d.Indexes) (s : SerialStep) :
    s.perform rt d = d ∧ s.commits rt d = false ∨
      ∃ q r js, s = .finished q ∧ Commits rt ⟨d, js⟩ q r (s.perform rt d) ∧ s.commits rt d = true := by
  cases s with
  | aborted q => exact Or.inl ⟨rfl, rfl⟩
  | finished q =>
    cases h : (engine.transaction (q.script rt) d).result with
    | error e => exact Or.inl ⟨transaction_error hd h, by simp [commits, h, Except.isOk, Except.toBool]⟩
    | ok r =>
      obtain ⟨js, hc⟩ := transaction_commits hd h
      exact Or.inr ⟨q, r, js, rfl, hc, by simp [commits, h, Except.isOk, Except.toBool]⟩

theorem indexes_perform (hd : d.Indexes) (s : SerialStep) : (s.perform rt d).Indexes := by
  rcases perform_eq_or_commits rt hd s with ⟨h, _⟩ | ⟨q, r, js, rfl, h, _⟩
  · rwa [h]
  · exact h.indexes hd

theorem evolves_perform (hd : d.Indexes) (s : SerialStep) : d.Evolves (s.perform rt d) := by
  rcases perform_eq_or_commits rt hd s with ⟨h, _⟩ | ⟨q, r, js, rfl, h, _⟩
  · rw [h]
    exact Db.Evolves.refl d
  · exact h.evolves

theorem perform_congr {d' : Db} (h : d.SameButAttempts d') (s : SerialStep) :
    (s.perform rt d).SameButAttempts (s.perform rt d') := by
  cases s with
  | aborted q => exact h
  | finished q => exact (h.transaction _).2

theorem perform_of_not_commits (hd : d.Indexes) {s : SerialStep} (h : s.commits rt d = false) : s.perform rt d = d := by
  rcases perform_eq_or_commits rt hd s with ⟨h', _⟩ | ⟨_, _, _, _, _, h'⟩
  · exact h'
  · rw [h] at h'
    cases h'

theorem settles_of_delivery (hd : d.Indexes) {s : SerialStep} {input : WebhookEventProcessor.ProcessWebhookEventInput}
    (hs : s.delivery = some input) (hc : s.commits rt d = true) :
    ∃ clock r e, Uuid.parse input.webhookEventId = some e.id ∧ d.webhookEvents.get e.id = some e ∧
      WebhookEventProcessor.Settles input clock d e r (s.perform rt d) := by
  rcases perform_eq_or_commits rt hd s with ⟨_, h⟩ | ⟨q, r, js, rfl, h, _⟩
  · rw [hc] at h
    cases h
  · generalize hd' : (SerialStep.finished q).perform rt d = d' at h ⊢
    cases h with
    | processed hp he h =>
      cases hs
      exact ⟨_, _, _, hp, he, h⟩
    | _ => cases hs

end SerialStep

end Transactions

def Db.Final (d : Db) (id : Option Uuid) : Prop :=
  ∃ e, id = some e.id ∧ d.webhookEvents.get e.id = some e ∧ e.isFinal = true

theorem Db.Final.evolves {d d' : Db} {id : Option Uuid} (h : d.Final id) (hd : d.Evolves d') : d'.Final id := by
  obtain ⟨e, hid, he, hf⟩ := h
  obtain ⟨e', he', -, hsame, -⟩ := hd.webhookEvents e (Table.mem_of_get he)
  rw [hsame hf] at he'
  exact ⟨e, hid, Table.get_of_mem he', hf⟩

namespace WebhookEventProcessor

variable {input : ProcessWebhookEventInput} {clock : Clock} {d d' : Db} {e : WebhookEvent} {r : ProcessingResult}

theorem final_settle {p : WebhookEventPatch} {a : WebhookProcessingAttempt} (he : d.webhookEvents.get e.id = some e)
    (hp : p.status = .processed ∨ p.status = .failed) : (settle d e.id p a).Final (some e.id) := by
  have hget : (settle d e.id p a).webhookEvents.get e.id = some (e.patch p) := by
    change (d.webhookEvents.update e.id p.change).get e.id = _
    rw [Table.get_update_self, he]
    rfl
  have hfinal : (e.patch p).isFinal = true := by
    rw [WebhookEvent.isFinal, Bool.or_eq_true, decide_eq_true_eq, decide_eq_true_eq]
    exact hp
  exact ⟨e.patch p, rfl, hget, hfinal⟩

theorem Settles.final (h : Settles input clock d e r d') (he : d.webhookEvents.get e.id = some e) :
    d'.Final (some e.id) := by
  cases h with
  | alreadyProcessed hs => exact ⟨e, rfl, he, by simp [WebhookEvent.isFinal, hs]⟩
  | alreadyFailed hs => exact ⟨e, rfl, he, by simp [WebhookEvent.isFinal, hs]⟩
  | failed reason hs => exact final_settle he (Or.inr rfl)
  | confirmedBefore i txHash hs hi hm hstatus hh => exact final_settle he (Or.inl rfl)
  | confirmed i txHash hs hi hm hstatus hfree => exact final_settle he (Or.inl rfl)

theorem Settles.same_of_final (h : Settles input clock d e r d') (hf : e.isFinal = true) : d.SameButAttempts d' := by
  cases h with
  | alreadyProcessed hs => exact ⟨rfl, rfl, rfl, rfl⟩
  | alreadyFailed hs => exact ⟨rfl, rfl, rfl, rfl⟩
  | failed reason hs => rw [hs] at hf; cases hf
  | confirmedBefore i txHash hs hi hm hstatus hh => rw [hs] at hf; cases hf
  | confirmed i txHash hs hi hm hstatus hfree => rw [hs] at hf; cases hf

theorem transaction_final (clock : Clock) (hp : Uuid.parse input.webhookEventId = some e.id)
    (he : d.webhookEvents.get e.id = some e) (hf : e.isFinal = true) :
    ∃ a, a.webhookEventId = e.id ∧ (engine.transaction (processWebhookEvent input clock) d).db =
      if clock.startedAt ≤ clock.finishedAt then addAttempt d a else d := by
  have hsome : (d.webhookEvents.get e.id).isSome = true := by rw [he]; rfl
  have hstatus : e.status = .processed ∨ e.status = .failed := by simpa [WebhookEvent.isFinal] using hf
  rcases hstatus with hs | hs
  · obtain ⟨x, hx⟩ := exec_insertAttempt input clock d e.id .succeeded none ProcessingResult.alreadyProcessed hsome
    refine ⟨attempt input clock e.id .succeeded none, rfl, ?_⟩
    rw [transaction_process hp he, hs]
    refine (congrArg Outcome.db hx).trans ?_
    split_ifs <;> rfl
  · obtain ⟨x, hx⟩ := exec_insertAttempt input clock d e.id .failed e.failureReason
      (ProcessingResult.alreadyFailed e.failureReason) hsome
    refine ⟨attempt input clock e.id .failed e.failureReason, rfl, ?_⟩
    rw [transaction_process hp he, hs]
    refine (congrArg Outcome.db hx).trans ?_
    split_ifs <;> rfl

end WebhookEventProcessor

namespace SerialStep

variable {rt : Runtime}

theorem indexes_performAll {d : Db} (hd : d.Indexes) (steps : List SerialStep) : (performAll rt d steps).Indexes := by
  induction steps generalizing d with
  | nil => exact hd
  | cons s steps ih => exact ih (indexes_perform hd s)

theorem same_performAll_dedupe {steps : List SerialStep} {seen : List (Option Uuid)} {d d' : Db} (hd : d.Indexes)
    (hseen : ∀ id ∈ seen, d.Final id) (hsame : d.SameButAttempts d') :
    (performAll rt d steps).SameButAttempts (performAll rt d' (dedupe rt seen d steps)) := by
  induction steps generalizing seen d d' with
  | nil => exact hsame
  | cons s steps ih =>
    have hd₁ : (s.perform rt d).Indexes := indexes_perform hd s
    have hseen₁ : ∀ id ∈ seen, (s.perform rt d).Final id := fun id hid => (hseen id hid).evolves (evolves_perform hd s)
    unfold dedupe
    split
    · exact ih hd₁ hseen₁ (perform_congr hsame s)
    · rename_i input hinput
      split_ifs with hkeep
      · rw [Bool.and_eq_true] at hkeep
        obtain ⟨clock, r, e, hp, he, hsettles⟩ := settles_of_delivery hd hinput hkeep.1
        refine ih hd₁ ?_ (perform_congr hsame s)
        intro id hid
        rcases List.mem_cons.mp hid with rfl | hid
        · rw [hp]
          exact hsettles.final he
        · exact hseen₁ id hid
      · refine ih hd₁ hseen₁ (Db.SameButAttempts.trans ?_ hsame)
        cases hc : s.commits rt d with
        | false =>
          rw [perform_of_not_commits hd hc]
          exact Db.SameButAttempts.refl d
        | true =>
          have hmem : Uuid.parse input.webhookEventId ∈ seen := by
            simpa [hc] using hkeep
          obtain ⟨clock, r, e, hp, he, hsettles⟩ := settles_of_delivery hd hinput hc
          obtain ⟨e', hid, he', hf⟩ := hseen _ hmem
          obtain rfl : e' = e := by
            have hids : e'.id = e.id := Option.some.inj (hid.symm.trans hp)
            rw [hids, he] at he'
            exact (Option.some.inj he').symm
          exact (hsettles.same_of_final hf).symm

variable (rt) in
theorem repeated_delivery {d : Db} (hd : d.Indexes) (steps : List SerialStep) :
    (performAll rt d (dedupe rt [] d steps)).paymentIntents = (performAll rt d steps).paymentIntents ∧
    (performAll rt d (dedupe rt [] d steps)).webhookEvents = (performAll rt d steps).webhookEvents ∧
    ∀ (e : WebhookEvent) (input : WebhookEventProcessor.ProcessWebhookEventInput) (clock : WebhookEventProcessor.Clock),
      (performAll rt d steps).webhookEvents.get e.id = some e → (e.status = .processed ∨ e.status = .failed) →
      Uuid.parse input.webhookEventId = some e.id →
      ∃ a : WebhookProcessingAttempt, a.webhookEventId = e.id ∧
        (SerialStep.finished (.processWebhookEvent input clock)).perform rt (performAll rt d steps) =
          if clock.startedAt ≤ clock.finishedAt then WebhookEventProcessor.addAttempt (performAll rt d steps) a
          else performAll rt d steps := by
  have hsame : (performAll rt d steps).SameButAttempts (performAll rt d (dedupe rt [] d steps)) :=
    same_performAll_dedupe hd (fun id hid => absurd hid (by simp)) (Db.SameButAttempts.refl d)
  refine ⟨hsame.paymentIntents, hsame.webhookEvents, ?_⟩
  intro e input clock he hstatus hp
  have hf : e.isFinal = true := by simpa [WebhookEvent.isFinal] using hstatus
  obtain ⟨a, ha, hdb⟩ := WebhookEventProcessor.transaction_final clock hp he hf
  refine ⟨a, ha, ?_⟩
  rw [← hdb]
  exact congrArg Outcome.db (Engine.exec_bind_ret _ _ _ _)

def deliveredThrice : List SerialStep :=
  [.finished Sample.create, .finished Sample.accept, .aborted Sample.process, .finished Sample.process,
    .finished Sample.process]

theorem repeated_delivery_sample :
    (dedupe Sample.runtime [] Db.empty deliveredThrice).length = 3 ∧
    (performAll Sample.runtime Db.empty (dedupe Sample.runtime [] Db.empty deliveredThrice)).webhookEvents =
      (performAll Sample.runtime Db.empty deliveredThrice).webhookEvents ∧
    ∃ (e : WebhookEvent) (a : WebhookProcessingAttempt), e.status = .processed ∧
      (SerialStep.finished Sample.process).perform Sample.runtime
        (performAll Sample.runtime Db.empty deliveredThrice) =
      WebhookEventProcessor.addAttempt (performAll Sample.runtime Db.empty deliveredThrice) a ∧
      a.webhookEventId = e.id := by
  have hget : ((performAll Sample.runtime Db.empty deliveredThrice).webhookEvents.get Sample.eventId).any
      (fun e => e.status = .processed) = true := by decide +kernel
  obtain ⟨e, he, hs⟩ := (Option.any_eq_true _ _).mp hget
  have hid : e.id = Sample.eventId := Table.key_of_get he
  rw [← hid] at he
  have hs := of_decide_eq_true hs
  obtain ⟨-, hevents, hlater⟩ := repeated_delivery Sample.runtime Db.indexes_empty deliveredThrice
  obtain ⟨a, ha, hdb⟩ := hlater e ⟨Sample.eventId.render, none⟩ ⟨Sample.time, Sample.time, Sample.time, Sample.time⟩ he
    (Or.inl hs) (hid ▸ Uuid.parse_render _)
  exact ⟨by decide +kernel, hevents, e, a, hs, hdb, ha⟩

end SerialStep

end EventGateway
