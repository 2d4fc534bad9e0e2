import EventGateway.NonceReuse
import EventGateway.OutageReports
import EventGateway.RepeatedDelivery

namespace EventGateway

open KeyedTable TransactionProgram Interleaving Statements JsString StructuredLogger
open WebhookEventProcessor (ProcessWebhookEventInput ProcessingResult Clock Settles)
open OutageReports (LogLine)

namespace WebhookEventsWorkerService

def processWebhookEventJobName : Text := "process-webhook-event".toList

structure Job where
  name : Text
  id : Option Text
  data : JobData

inductive JobError
  | unsupportedJobType
  | processor (e : Failure)

def optionalText : Option Text → LogValue
  | some s => .string (ofText s)
  | none => .other

def jobFields (job : Job) (status : String) (errorCode : Option Text) : List (JsString × LogValue) :=
  [(ofString "jobId", optionalText job.id), (ofString "webhookEventId", .string (ofText job.data.webhookEventId)),
    (ofString "status", .string (ofString status)), (ofString "errorCode", optionalText errorCode)]

def jobLine (job : Job) : ProcessingResult → LogLine
  | .failed reason => (.warn, ofString "worker_job_failed", jobFields job "FAILED" (some reason.text))
  | .processed => (.log, ofString "worker_job_processed", jobFields job "PROCESSED" none)
  | .alreadyProcessed => (.log, ofString "worker_job_processed", jobFields job "ALREADY_PROCESSED" none)
  | .alreadyFailed reason => (.log, ofString "worker_job_processed", jobFields job "ALREADY_FAILED" reason)

def processJob (job : Job) (processWebhookEvent : ProcessWebhookEventInput → Except Failure ProcessingResult) :
    Except JobError LogLine :=
  if job.name ≠ processWebhookEventJobName then .error .unsupportedJobType
  else
    match processWebhookEvent ⟨job.data.webhookEventId, job.id⟩ with
    | .error e => .error (.processor e)
    | .ok result => .ok (jobLine job result)

inductive Tells (job : Job) (line : LogLine) (e : WebhookEvent) : Prop
  | processed (status : String) (hs : e.status = .processed) (hstatus : status = "PROCESSED" ∨ status = "ALREADY_PROCESSED")
      (hline : line.2.2 = jobFields job status none)
  | failed (status : String) (hs : e.status = .failed) (hstatus : status = "FAILED" ∨ status = "ALREADY_FAILED")
      (hline : line.2.2 = jobFields job status e.failureReason)

end WebhookEventsWorkerService

open WebhookEventsWorkerService

def WebhookEventProcessor.ProcessingResult.settles : ProcessingResult → Bool
  | .processed | .failed _ => true
  | .alreadyProcessed | .alreadyFailed _ => false

section Commits

variable {rt : Runtime} {w : World Db JobData} {q : Request} {r : Response} {d : Db}

theorem WebhookEventProcessor.Settles.tells {input : ProcessWebhookEventInput} {clock : Clock} {d d' : Db}
    {e : WebhookEvent} {r : ProcessingResult} (h : Settles input clock d e r d')
    (he : d.webhookEvents.get e.id = some e) (job : Job) :
    ∃ e' ∈ d'.webhookEvents, e'.id = e.id ∧ e'.isFinal = true ∧ Tells job (jobLine job r) e' := by
  have hmem : e ∈ d.webhookEvents := Table.mem_of_get he
  have hsettled (p : WebhookEventPatch) : e.patch p ∈ d.webhookEvents.update e.id p.change := Table.mem_update_self hmem
  cases h with
  | alreadyProcessed hs =>
    exact ⟨e, hmem, rfl, by simp [WebhookEvent.isFinal, hs], .processed _ hs (.inr rfl) rfl⟩
  | alreadyFailed hs =>
    exact ⟨e, hmem, rfl, by simp [WebhookEvent.isFinal, hs], .failed _ hs (.inr rfl) rfl⟩
  | failed reason hs =>
    exact ⟨_, hsettled _, rfl, rfl, .failed _ rfl (.inl rfl) rfl⟩
  | confirmedBefore i txHash hs hi hm hstatus hh =>
    exact ⟨_, hsettled _, rfl, rfl, .processed _ rfl (.inl rfl) rfl⟩
  | confirmed i txHash hs hi hm hstatus hfree =>
    exact ⟨_, hsettled _, rfl, rfl, .processed _ rfl (.inl rfl) rfl⟩

theorem Commits.final_back (h : Commits rt w q r d) {e' : WebhookEvent} (he' : e' ∈ d.webhookEvents)
    (hf : e'.isFinal = true) : e' ∈ w.db.webhookEvents ∨ ∃ input clock result, q = .processWebhookEvent input clock ∧
      r = .processing result ∧ Uuid.parse input.webhookEventId = some e'.id ∧ result.settles = true := by
  have houtbox {ws : List Write} (hws : ∀ x ∈ ws, OutboxDispatcher.OutboxWrite w.db x)
      (he' : e' ∈ (engine.view w.db ws).webhookEvents) : e' ∈ w.db.webhookEvents := by
    obtain ⟨e, he, rfl | ⟨_, rfl⟩⟩ := OutboxDispatcher.mem_view_outboxWrites hws he'
    · exact he
    · cases hf
  cases h with
  | paymentIntent hc =>
    cases hc with
    | replayed | created => exact .inl he'
  | acceptance hv ha =>
    cases ha with
    | accepted paymentIntentId hp hevent hnonce hid ho =>
      rcases (Table.mem_insert hid).mp he' with he' | rfl
      · exact .inl he'
      · cases hf
    | alreadyAccepted e he hid hs => exact .inl he'
  | dispatched hws => exact .inl (houtbox (fun x hx => (hws x hx).outboxWrite) he')
  | reconciled hws => exact .inl (houtbox (fun x hx => (hws x hx).outboxWrite) he')
  | processed hp he hs =>
    cases hs with
    | alreadyProcessed | alreadyFailed => exact .inl he'
    | failed | confirmedBefore | confirmed =>
      rcases Table.mem_update_cases (Table.mem_of_get he) he' with ⟨hold, -⟩ | rfl
      · exact .inl hold
      · exact .inr ⟨_, _, _, rfl, rfl, hp, rfl⟩

end Commits

section Runs

variable {ι : Type} (req : ι → Request)

def FirstReport (σ : SystemState ι) (j : ι) (id : Uuid) : Prop :=
  ∃ input clock result, req j = .processWebhookEvent input clock ∧ Uuid.parse input.webhookEventId = some id ∧
    σ.phase j = .committed (.processing result) ∧ result.settles = true

structure ReportInv (σ : SystemState ι) : Prop where
  reported : ∀ e ∈ σ.world.db.webhookEvents, e.isFinal = true → ∃ j, FirstReport req σ j e.id
  final : ∀ j id, FirstReport req σ j id → σ.world.db.Final (some id)
  once : ∀ i j id, FirstReport req σ i id → FirstReport req σ j id → i = j

variable {req} {σ σ' : SystemState ι}

theorem FirstReport.mono {j : ι} {id : Uuid} (h : FirstReport req σ j id)
    (hp : ∀ r, σ.phase j = .committed r → σ'.phase j = .committed r) : FirstReport req σ' j id := by
  obtain ⟨input, clock, result, hq, hparse, hphase, hsettles⟩ := h
  exact ⟨input, clock, result, hq, hparse, hp _ hphase, hsettles⟩

theorem ReportInv.quiet (h : ReportInv req σ) (hdb : σ'.world.db = σ.world.db)
    (hc : ∀ j r, σ'.phase j = .committed r ↔ σ.phase j = .committed r) : ReportInv req σ' := by
  have hback (j : ι) (id : Uuid) (hj : FirstReport req σ' j id) : FirstReport req σ j id := hj.mono fun r => (hc j r).mp
  refine ⟨fun e he hf => ?_, fun j id hj => ?_, fun i j id hi hj => h.once i j id (hback i id hi) (hback j id hj)⟩
  · rw [hdb] at he
    obtain ⟨j, hj⟩ := h.reported e he hf
    exact ⟨j, hj.mono fun r => (hc j r).mpr⟩
  · rw [hdb]
    exact h.final j id (hback j id hj)

variable [DecidableEq ι] {rt : Runtime}

theorem ReportInv.commit (h : ReportInv req σ) {i : ι} {r : Response} (hrun : ∀ r, σ.phase i ≠ .committed r)
    (hc : Commits rt σ.world (req i) r σ'.world.db) (hp : σ'.phase = Function.update σ.phase i (.committed r)) :
    ReportInv req σ' := by
  have hkept (j : ι) (id : Uuid) (hj : FirstReport req σ j id) : FirstReport req σ' j id := by
    refine hj.mono fun x hx => ?_
    have hne : j ≠ i := by
      rintro rfl
      exact hrun _ hx
    rw [hp, Function.update_of_ne hne]
    exact hx
  have hback (j : ι) (id : Uuid) (hne : j ≠ i) (hj : FirstReport req σ' j id) : FirstReport req σ j id := by
    refine hj.mono fun x hx => ?_
    rwa [hp, Function.update_of_ne hne] at hx
  -- the event that a job settles was open before
  have hopen (id : Uuid) (hi : FirstReport req σ' i id) : ¬ σ.world.db.Final (some id) ∧ σ'.world.db.Final (some id) := by
    obtain ⟨input, clock, result, hq, hparse, hphase, hsettles⟩ := hi
    rw [hp, Function.update_self] at hphase
    cases hphase
    rw [hq] at hc
    generalize σ'.world.db = d at hc
    cases hc with
    | processed hparse' he hs =>
      obtain rfl := Option.some.inj (hparse'.symm.trans hparse)
      refine ⟨fun hfinal => ?_, hs.final he⟩
      obtain ⟨e', hid, he', hf⟩ := hfinal
      rw [← Option.some.inj hid, he] at he'
      obtain rfl := Option.some.inj he'
      cases hs with
      | alreadyProcessed | alreadyFailed => cases hsettles
      | failed _ hs | confirmedBefore _ _ hs | confirmed _ _ hs =>
        rw [hs] at hf
        cases hf
  refine ⟨fun e he hf => ?_, fun j id hj => ?_, fun a b id ha hb => ?_⟩
  · rcases hc.final_back he hf with hold | ⟨input, clock, result, hq, rfl, hparse, hsettles⟩
    · obtain ⟨j, hj⟩ := h.reported e hold hf
      exact ⟨j, hkept j e.id hj⟩
    · exact ⟨i, input, clock, result, hq, hparse, by rw [hp, Function.update_self], hsettles⟩
  · by_cases hj' : j = i
    · subst hj'
      exact (hopen id hj).2
    · exact (h.final j id (hback j id hj' hj)).evolves hc.evolves
  · by_cases ha' : a = i
    · by_cases hb' : b = i
      · rw [ha', hb']
      · subst ha'
        exact absurd (h.final b id (hback b id hb' hb)) (hopen id ha).1
    · by_cases hb' : b = i
      · subst hb'
        exact absurd (h.final a id (hback a id ha' ha)) (hopen id hb).1
      · exact h.once a b id (hback a id ha' ha) (hback b id hb' hb)

omit [DecidableEq ι] in
theorem reportInv_init : ReportInv req (State.init Db.empty) := by
  refine ⟨fun e he => absurd he (Table.not_mem_empty e), ?_, ?_⟩
  · rintro j id ⟨_, _, _, _, _, hphase, _⟩
    cases hphase
  · rintro i j id ⟨_, _, _, _, _, hphase, _⟩
    cases hphase

theorem reachable_reportInv {ls : List (Label ι)} (h : runs rt req (State.init Db.empty) ls = some σ) : ReportInv req σ := by
  refine reachable_invariant reportInv_init ?_ h
  intro σ σ' _ hinv hstep
  cases hstep with
  | quiet js hw hc hr => exact hinv.quiet (by rw [hw]; rfl) hc
  | commit i r s hrun hc he hp => exact hinv.commit (by simp [hrun]) hc hp
  | reject i e s hrun hrej hw hp =>
    refine hinv.quiet (by rw [hw]) fun j r => ?_
    by_cases hj : j = i
    · subst hj
      simp [hp, hrun]
    · rw [hp, Function.update_of_ne hj]

theorem job_reports {ls : List (Label ι)} (h : runs rt req (State.init Db.empty) ls = some σ) :
    (∀ j job clock result, req j = .processWebhookEvent ⟨job.data.webhookEventId, job.id⟩ clock →
      job.name = processWebhookEventJobName → σ.phase j = .committed (.processing result) →
      ∃ line, processJob job (fun _ => .ok result) = .ok line ∧ ∃ e ∈ σ.world.db.webhookEvents,
        Uuid.parse job.data.webhookEventId = some e.id ∧ Tells job line e) ∧
    ∀ e ∈ σ.world.db.webhookEvents, e.isFinal = true ↔ ∃ j, FirstReport req σ j e.id ∧
      ∀ i, FirstReport req σ i e.id → i = j := by
  have hinv := reachable_reportInv h
  refine ⟨fun j job clock result hq hname hj => ?_, fun e he => ⟨fun hf => ?_, ?_⟩⟩
  · refine ⟨jobLine job result, by simp [processJob, hname], ?_⟩
    obtain ⟨w, d, hcommits, hev⟩ := (reachable_ended h).committed j _ hj
    rw [hq] at hcommits
    cases hcommits with
    | processed hparse he hs =>
      obtain ⟨e, hmem, hid, hf, htells⟩ := hs.tells he job
      obtain ⟨e', hmem', hee'⟩ := hev.webhookEvents e hmem
      obtain rfl := hee'.2.1 hf
      exact ⟨e', hmem', hparse.trans (congrArg some hid.symm), htells⟩
  · obtain ⟨j, hj⟩ := hinv.reported e he hf
    exact ⟨j, hj, fun i hi => hinv.once i j e.id hi hj⟩
  · rintro ⟨j, hj, -⟩
    obtain ⟨e', hid, he', hf⟩ := hinv.final j e.id hj
    obtain rfl : e = e' := Table.eq_of_key he (Table.mem_of_get he') (Option.some.inj hid)
    exact hf

theorem job_reports_sample : ∃ σ : SystemState Sample.Party,
    runs Sample.runtime Sample.requests (State.init Db.empty) Sample.confirmation = some σ ∧
      σ.world.db.webhookEvents.rows.map (fun e => e.status) = [.processed] ∧
      ∀ e ∈ σ.world.db.webhookEvents, e.isFinal = true ↔ ∃ j, FirstReport Sample.requests σ j e.id ∧
        ∀ i, FirstReport Sample.requests σ i e.id → i = j := by
  have hrun : (runs Sample.runtime Sample.requests (State.init Db.empty) Sample.confirmation).any (fun σ =>
      σ.world.db.webhookEvents.rows.map (fun e => e.status) = [.processed]) = true := by
    decide +kernel
  obtain ⟨σ, hσ, hrows⟩ := (Option.any_eq_true _ _).mp hrun
  exact ⟨σ, hσ, of_decide_eq_true hrows, (job_reports hσ).2⟩

end Runs

end EventGateway
