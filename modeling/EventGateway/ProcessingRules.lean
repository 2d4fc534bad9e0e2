import EventGateway.WebhookEventProcessor

namespace EventGateway.WebhookEventProcessor

open KeyedTable TransactionProgram TxHash PaymentAmount Statements

inductive Verdict
  | fail (reason : ProcessingFailureReason)
  | confirmedBefore
  | confirm (paymentIntentId : Uuid) (txHash : Text)
deriving DecidableEq

def judgeMatching (d : Db) (i : PaymentIntent) (txHash : Text) : Verdict :=
  match i.status with
  | .confirmed =>
    if i.confirmedTxHash.map normalizeTxHash = some txHash then .confirmedBefore else .fail .paymentIntentTerminal
  | .failed | .expired => .fail .paymentIntentTerminal
  | .created | .processing =>
    if (d.paymentIntents.find (fun j => j.confirmedTxHash = some txHash)).any (fun j => j.id ≠ i.id) then
      .fail .confirmedTxHashConflict
    else .confirm i.id txHash

def judgeIntent (d : Db) (e : WebhookEvent) (i : PaymentIntent) (txHash : Text) : Except Failure Verdict :=
  match validatePayloadMatchesPaymentIntent e.payload i.load with
  | .error x => .error x
  | .ok (some reason) => .ok (.fail reason)
  | .ok none => .ok (judgeMatching d i txHash)

def judge (d : Db) (e : WebhookEvent) : Except Failure Verdict :=
  if e.payload.text "type" ≠ some transactionConfirmed then .ok (.fail .unsupportedEventType)
  else
    match e.payload.text "txHash" with
    | none => .ok (.fail .missingTxHash)
    | some hash =>
      if Text.trim hash = [] then .ok (.fail .missingTxHash)
      else
        match e.paymentIntentId.bind d.paymentIntents.get with
        | none => .ok (.fail .unknownPaymentIntent)
        | some i => judgeIntent d e i (normalizeTxHash hash)

variable (input : ProcessWebhookEventInput) (clock : Clock)

def Verdict.result : Verdict → ProcessingResult
  | .fail reason => .failed reason
  | .confirmedBefore | .confirm _ _ => .processed

def processedWrites (id : Uuid) : List Write :=
  [.saveWebhookEvent id ⟨.processed, none, some clock.processedAt⟩,
    .insertAttempt (attempt input clock id .succeeded none)]

def failedWrites (id : Uuid) (reason : ProcessingFailureReason) : List Write :=
  [.saveWebhookEvent id ⟨.failed, some reason.text, some clock.processedAt⟩,
    .insertAttempt (attempt input clock id .failed (some reason.text))]

def confirmation (txHash : Text) : PaymentIntentPatch := ⟨.confirmed, some txHash, none, clock.now⟩

def Verdict.writes (id : Uuid) : Verdict → List Write
  | .fail reason => failedWrites input clock id reason
  | .confirmedBefore => processedWrites input clock id
  | .confirm intentId txHash =>
    .savePaymentIntent intentId (confirmation clock txHash) :: processedWrites input clock id

def Verdict.admissible (d : Db) : Verdict → Bool
  | .confirm intentId txHash =>
    !isTooLong maxVarchar txHash && !isTxHashTaken d (some txHash) intentId && clock.startedAt ≤ clock.finishedAt
  | _ => clock.startedAt ≤ clock.finishedAt

inductive Processed (d : Db) (e : WebhookEvent) : ProcessingResult → Db → Prop
  | alreadyProcessed (hs : e.status = .processed) (hc : clock.startedAt ≤ clock.finishedAt) :
      Processed d e .alreadyProcessed (d.apply (.insertAttempt (attempt input clock e.id .succeeded none)))
  | alreadyFailed (hs : e.status = .failed) (hc : clock.startedAt ≤ clock.finishedAt) :
      Processed d e (.alreadyFailed e.failureReason)
        (d.apply (.insertAttempt (attempt input clock e.id .failed e.failureReason)))
  | judged (v : Verdict) (hs : e.isFinal = false) (hj : judge d e = .ok v) (ha : v.admissible clock d = true) :
      Processed d e v.result (engine.view d (.saveWebhookEvent e.id ⟨.processing, none, none⟩ :: v.writes input clock e.id))

section Exec

variable (origin : Db) {d : Db}

theorem exec_insertAttempt {α : Type} (id : Uuid) (status : WebhookProcessingAttemptStatus) (msg : Option Text)
    (r : α) (he : (d.webhookEvents.get id).isSome = true) :
    ∃ x, engine.exec origin (insertAttempt input clock id status msg >>= fun _ => (.ret r : Script α)) d =
      if clock.startedAt ≤ clock.finishedAt then
        ⟨.ok r, d.apply (.insertAttempt (attempt input clock id status msg)), []⟩
      else ⟨.error (.database x), origin, []⟩ := by
  refine ⟨.checkViolation, ?_⟩
  have hn : (d.webhookEvents.get id).isNone = false := by simpa using he
  rw [insertAttempt, query, Engine.exec_call_bind]
  by_cases hc : clock.startedAt ≤ clock.finishedAt
  · have hlt : ¬ clock.finishedAt < clock.startedAt := not_lt.mpr hc
    simp only [engine_eval, eval, attempt, hlt, hn, hc, ↓reduceIte]
    rfl
  · have hlt : clock.finishedAt < clock.startedAt := not_le.mp hc
    simp only [engine_eval, eval, attempt, hlt, hc, ↓reduceIte]
    rfl

theorem exec_settle (id : Uuid) (patch : WebhookEventPatch) (status : WebhookProcessingAttemptStatus)
    (msg : Option Text) (r : ProcessingResult) (he : (d.webhookEvents.get id).isSome = true) :
    ∃ x, engine.exec origin
        (query (.saveWebhookEvent id patch) >>= fun _ => insertAttempt input clock id status msg >>= fun _ => .ret r) d =
      if clock.startedAt ≤ clock.finishedAt then
        ⟨.ok r, engine.view d [.saveWebhookEvent id patch, .insertAttempt (attempt input clock id status msg)], []⟩
      else ⟨.error (.database x), origin, []⟩ := by
  have he' : ((d.apply (.saveWebhookEvent id patch)).webhookEvents.get id).isSome = true := by
    simp only [Db.apply]
    rw [Table.get_update_self]
    simpa using he
  obtain ⟨x, hx⟩ := exec_insertAttempt input clock origin id status msg r he'
  refine ⟨x, ?_⟩
  rw [query, Engine.exec_call_bind]
  simp only [engine_eval, eval, Engine.view, List.foldl_cons, List.foldl_nil, engine_apply]
  rw [hx]
  split_ifs <;> rfl

theorem exec_savePaymentIntent {α : Type} (id : Uuid) (txHash : Text) (f : Script α) :
    ∃ x, engine.exec origin (query (.savePaymentIntent id (confirmation clock txHash)) >>= fun _ => f) d =
      if isTooLong maxVarchar txHash = false ∧ isTxHashTaken d (some txHash) id = false then
        engine.exec origin f (d.apply (.savePaymentIntent id (confirmation clock txHash)))
      else ⟨.error (.database x), origin, []⟩ := by
  rw [query, Engine.exec_call_bind]
  simp only [engine_eval, eval, confirmation, Option.any_some]
  cases hlen : isTooLong maxVarchar txHash with
  | true => exact ⟨.stringDataRightTruncation, by simp [emits, engine]⟩
  | false =>
    cases htaken : isTxHashTaken d (some txHash) id with
    | true => exact ⟨.uniqueViolation, by simp [emits, engine]⟩
    | false =>
      refine ⟨.uniqueViolation, ?_⟩
      simp only [and_self, ↓reduceIte, Bool.false_eq_true]
      rfl

theorem exec_markWebhookProcessed (e : WebhookEvent) (he : (d.webhookEvents.get e.id).isSome = true) :
    ∃ x, engine.exec origin (markWebhookProcessed input clock e) d =
      if clock.startedAt ≤ clock.finishedAt then
        ⟨.ok .processed, engine.view d (processedWrites input clock e.id), []⟩
      else ⟨.error (.database x), origin, []⟩ :=
  exec_settle input clock origin e.id _ _ _ _ he

theorem exec_failWebhookEvent (e : WebhookEvent) (reason : ProcessingFailureReason)
    (he : (d.webhookEvents.get e.id).isSome = true) :
    ∃ x, engine.exec origin (failWebhookEvent input clock e reason) d =
      if clock.startedAt ≤ clock.finishedAt then
        ⟨.ok (.failed reason), engine.view d (failedWrites input clock e.id reason), []⟩
      else ⟨.error (.database x), origin, []⟩ :=
  exec_settle input clock origin e.id _ _ _ _ he

def Carries (d : Db) (id : Uuid) (v : Verdict) (o : Outcome Failure Db JobData ProcessingResult) : Prop :=
  ∃ x, o = if v.admissible clock d = true then ⟨.ok v.result, engine.view d (v.writes input clock id), []⟩
    else ⟨.error (.database x), origin, []⟩

theorem carries_fail (e : WebhookEvent) (reason : ProcessingFailureReason)
    (he : (d.webhookEvents.get e.id).isSome = true) :
    Carries input clock origin d e.id (.fail reason) (engine.exec origin (failWebhookEvent input clock e reason) d) := by
  obtain ⟨x, hx⟩ := exec_failWebhookEvent input clock origin e reason he
  exact ⟨x, by simpa [Verdict.admissible, Verdict.result, Verdict.writes] using hx⟩

theorem carries_confirmedBefore (e : WebhookEvent) (he : (d.webhookEvents.get e.id).isSome = true) :
    Carries input clock origin d e.id .confirmedBefore (engine.exec origin (markWebhookProcessed input clock e) d) := by
  obtain ⟨x, hx⟩ := exec_markWebhookProcessed input clock origin e he
  exact ⟨x, by simpa [Verdict.admissible, Verdict.result, Verdict.writes] using hx⟩

theorem carries_confirm (e : WebhookEvent) (id : Uuid) (txHash : Text)
    (he : (d.webhookEvents.get e.id).isSome = true) :
    Carries input clock origin d e.id (.confirm id txHash) (engine.exec origin
      (query (.savePaymentIntent id (confirmation clock txHash)) >>= fun _ => markWebhookProcessed input clock e) d) := by
  obtain ⟨x, hx⟩ := exec_savePaymentIntent clock origin (d := d) id txHash (markWebhookProcessed input clock e)
  obtain ⟨y, hy⟩ := exec_markWebhookProcessed input clock origin
    (d := d.apply (.savePaymentIntent id (confirmation clock txHash))) e he
  rw [Carries, hx, hy]
  by_cases hfree : isTooLong maxVarchar txHash = false ∧ isTxHashTaken d (some txHash) id = false
  · refine ⟨y, ?_⟩
    simp only [hfree, and_self, ↓reduceIte, Verdict.admissible, Bool.not_false, Bool.true_and,
      decide_eq_true_eq, Verdict.result, Verdict.writes]
    rfl
  · refine ⟨x, ?_⟩
    have hv : (Verdict.confirm id txHash).admissible clock d = false := by
      rw [Verdict.admissible, ← Bool.not_eq_true, Bool.and_eq_true, Bool.and_eq_true]
      rintro ⟨⟨h₁, h₂⟩, _⟩
      exact hfree ⟨by simpa using h₁, by simpa using h₂⟩
    simp only [hfree, ↓reduceIte, hv, Bool.false_eq_true]

theorem carries_matching (e : WebhookEvent) (i : PaymentIntent) (txHash : Text)
    (he : (d.webhookEvents.get e.id).isSome = true) :
    Carries input clock origin d e.id (judgeMatching d i txHash)
      (engine.exec origin (applyToMatchingIntent input clock e i.load txHash) d) := by
  have hconfirm : Carries input clock origin d e.id
      (if (d.paymentIntents.find (fun j => j.confirmedTxHash = some txHash)).any (fun j => j.id ≠ i.id) then
        .fail .confirmedTxHashConflict else .confirm i.id txHash)
      (engine.exec origin (confirm input clock e i.load txHash) d) := by
    rw [confirm, query, Engine.exec_call_bind]
    simp only [engine_eval, eval]
    cases hf : d.paymentIntents.find (fun j => j.confirmedTxHash = some txHash) with
    | none => exact carries_confirm input clock origin e i.id txHash he
    | some j =>
      by_cases hj : j.id = i.id
      · simp only [Option.any_some, hj, ne_eq, not_true_eq_false, decide_false, Bool.false_eq_true, ↓reduceIte,
          PaymentIntent.load]
        exact carries_confirm input clock origin e i.id txHash he
      · simp only [Option.any_some, hj, ne_eq, not_false_eq_true, decide_true, ↓reduceIte, PaymentIntent.load]
        exact carries_fail input clock origin e .confirmedTxHashConflict he
  unfold applyToMatchingIntent judgeMatching
  have hstatus : i.load.status = i.status := rfl
  have hhash : i.load.confirmedTxHash = i.confirmedTxHash := rfl
  rw [hstatus, hhash]
  cases i.status with
  | confirmed =>
    simp only
    split_ifs
    · exact carries_confirmedBefore input clock origin e he
    · exact carries_fail input clock origin e .paymentIntentTerminal he
  | failed => exact carries_fail input clock origin e .paymentIntentTerminal he
  | expired => exact carries_fail input clock origin e .paymentIntentTerminal he
  | created => exact hconfirm
  | processing => exact hconfirm

theorem exec_lockPaymentIntent {α : Type} (e : WebhookEvent) (f : Option PaymentIntentEntity → Script α) :
    engine.exec origin (lockPaymentIntent e >>= f) d =
      engine.exec origin (f ((e.paymentIntentId.bind d.paymentIntents.get).map PaymentIntent.load)) d := by
  unfold lockPaymentIntent
  cases e.paymentIntentId with
  | none => rfl
  | some id =>
    simp only [query, Engine.exec_call_bind, engine_eval, eval, Option.bind_some]
    cases d.paymentIntents.get id <;> rfl

theorem exec_applyProcessingRules (e : WebhookEvent) (he : (d.webhookEvents.get e.id).isSome = true) :
    match judge d e with
    | .error x => engine.exec origin (applyProcessingRules input clock e) d = ⟨.error x, origin, []⟩
    | .ok v => Carries input clock origin d e.id v (engine.exec origin (applyProcessingRules input clock e) d) := by
  unfold judge applyProcessingRules
  by_cases htype : e.payload.text "type" = some transactionConfirmed
  swap
  · simp only [htype, ne_eq, not_false_eq_true, ↓reduceIte]
    exact carries_fail input clock origin e .unsupportedEventType he
  simp only [htype, ne_eq, not_true_eq_false, ↓reduceIte]
  cases htx : e.payload.text "txHash" with
  | none => exact carries_fail input clock origin e .missingTxHash he
  | some hash =>
    simp only
    by_cases hblank : Text.trim hash = []
    · simp only [hblank, ↓reduceIte]
      exact carries_fail input clock origin e .missingTxHash he
    simp only [hblank, ↓reduceIte, exec_lockPaymentIntent]
    cases hi : e.paymentIntentId.bind d.paymentIntents.get with
    | none => exact carries_fail input clock origin e .unknownPaymentIntent he
    | some i =>
      simp only [Option.map_some, judgeIntent]
      cases hv : validatePayloadMatchesPaymentIntent e.payload i.load with
      | error x => rfl
      | ok failure =>
        cases failure with
        | some reason => exact carries_fail input clock origin e reason he
        | none => exact carries_matching input clock origin e i (normalizeTxHash hash) he

end Exec

section Transaction

variable {input clock} {d : Db}

theorem exec_lockWebhookEvent {α : Type} {origin : Db} {id : Uuid} {e : WebhookEvent}
    {f : WebhookEvent → Script α} (hp : Uuid.parse input.webhookEventId = some id)
    (he : d.webhookEvents.get id = some e) :
    engine.exec origin (lockWebhookEvent input >>= f) d = engine.exec origin (f e) d := by
  rw [lockWebhookEvent, Prog.bind_assoc, query, Engine.exec_call_bind]
  simp only [engine_eval, eval, hp, he]
  rfl

theorem transaction_process {id : Uuid} {e : WebhookEvent} (hp : Uuid.parse input.webhookEventId = some id)
    (he : d.webhookEvents.get id = some e) :
    engine.transaction (processWebhookEvent input clock) d =
      match e.status with
      | .processed => engine.exec d (insertAttempt input clock e.id .succeeded none >>= fun _ =>
          .ret .alreadyProcessed) d
      | .failed => engine.exec d (insertAttempt input clock e.id .failed e.failureReason >>= fun _ =>
          .ret (.alreadyFailed e.failureReason)) d
      | _ => engine.exec d (applyProcessingRules input clock e)
          (d.apply (.saveWebhookEvent e.id ⟨.processing, none, none⟩)) := by
  rw [Engine.transaction, processWebhookEvent, exec_lockWebhookEvent hp he, processLockedEvent]
  cases hs : e.status with
  | processed | failed => rfl
  | received | queued | processing | rejected =>
    simp only [query, Engine.exec_call_bind, engine_eval, eval]
    rfl

theorem isFinal_eq_false {e : WebhookEvent} (h₁ : e.status ≠ .processed) (h₂ : e.status ≠ .failed) :
    e.isFinal = false := by
  simp [WebhookEvent.isFinal, h₁, h₂]

theorem transaction_unfinished {id : Uuid} {e : WebhookEvent} (hp : Uuid.parse input.webhookEventId = some id)
    (he : d.webhookEvents.get id = some e) (hs : e.isFinal = false) :
    engine.transaction (processWebhookEvent input clock) d =
      engine.exec d (applyProcessingRules input clock e)
        (d.apply (.saveWebhookEvent e.id ⟨.processing, none, none⟩)) := by
  rw [transaction_process hp he]
  cases h : e.status with
  | processed | failed => simp [WebhookEvent.isFinal, h] at hs
  | received | queued | processing | rejected => rfl

theorem isSome_get_apply_save {id : Uuid} {e : WebhookEvent} (he : d.webhookEvents.get id = some e)
    (p : WebhookEventPatch) : ((d.apply (.saveWebhookEvent e.id p)).webhookEvents.get e.id).isSome = true := by
  obtain rfl : e.id = id := Table.key_of_get he
  simp only [Db.apply]
  rw [Table.get_update_self, he]
  rfl

theorem judge_apply_save (e : WebhookEvent) (id : Uuid) (p : WebhookEventPatch) :
    judge (d.apply (.saveWebhookEvent id p)) e = judge d e := rfl

theorem admissible_apply_save (v : Verdict) (id : Uuid) (p : WebhookEventPatch) :
    v.admissible clock (d.apply (.saveWebhookEvent id p)) = v.admissible clock d := by
  cases v <;> rfl

theorem Processed.transaction {id : Uuid} {e : WebhookEvent} {r : ProcessingResult} {d' : Db}
    (hp : Uuid.parse input.webhookEventId = some id) (he : d.webhookEvents.get id = some e)
    (h : Processed input clock d e r d') :
    engine.transaction (processWebhookEvent input clock) d = ⟨.ok r, d', []⟩ := by
  have hid : e.id = id := Table.key_of_get he
  have hsome : (d.webhookEvents.get e.id).isSome = true := by rw [hid, he]; rfl
  cases h with
  | alreadyProcessed hs hc =>
    obtain ⟨x, hx⟩ := exec_insertAttempt input clock d e.id .succeeded none ProcessingResult.alreadyProcessed hsome
    rw [transaction_process hp he, hs]
    simpa [hc] using hx
  | alreadyFailed hs hc =>
    obtain ⟨x, hx⟩ := exec_insertAttempt input clock d e.id .failed e.failureReason
      (ProcessingResult.alreadyFailed e.failureReason) hsome
    rw [transaction_process hp he, hs]
    simpa [hc] using hx
  | judged v hs hj ha =>
    have hx := exec_applyProcessingRules input clock d e (isSome_get_apply_save he ⟨.processing, none, none⟩)
    rw [judge_apply_save, hj] at hx
    obtain ⟨x, hx⟩ := hx
    rw [transaction_unfinished hp he hs, hx]
    simp only [admissible_apply_save, ha, ↓reduceIte]
    rfl

theorem processed_of_transaction {r : ProcessingResult}
    (h : (engine.transaction (processWebhookEvent input clock) d).result = .ok r) :
    ∃ id e, Uuid.parse input.webhookEventId = some id ∧ d.webhookEvents.get id = some e ∧
      Processed input clock d e r (engine.transaction (processWebhookEvent input clock) d).db := by
  cases hp : Uuid.parse input.webhookEventId with
  | none =>
    rw [Engine.transaction, processWebhookEvent, lockWebhookEvent, Prog.bind_assoc, query, Engine.exec_call_bind] at h
    simp [eval, hp] at h
  | some id =>
    cases he : d.webhookEvents.get id with
    | none =>
      rw [Engine.transaction, processWebhookEvent, lockWebhookEvent, Prog.bind_assoc, query,
        Engine.exec_call_bind] at h
      simp only [engine_eval, eval, hp, he] at h
      cases h
    | some e =>
      refine ⟨id, e, rfl, he, ?_⟩
      have hid : e.id = id := Table.key_of_get he
      have hsome : (d.webhookEvents.get e.id).isSome = true := by rw [hid, he]; rfl
      have hdone {r₀ : ProcessingResult} {d₀ : Db} (hp₀ : Processed input clock d e r₀ d₀) :
          Processed input clock d e r (engine.transaction (processWebhookEvent input clock) d).db := by
        rw [hp₀.transaction hp he] at h ⊢
        cases h
        exact hp₀
      by_cases hprocessed : e.status = .processed
      · obtain ⟨x, hx⟩ := exec_insertAttempt input clock d e.id .succeeded none
          ProcessingResult.alreadyProcessed hsome
        rw [transaction_process hp he, hprocessed] at h
        by_cases hc : clock.startedAt ≤ clock.finishedAt
        · exact hdone (.alreadyProcessed hprocessed hc)
        · simp [hx, hc] at h
      by_cases hfailed : e.status = .failed
      · obtain ⟨x, hx⟩ := exec_insertAttempt input clock d e.id .failed e.failureReason
          (ProcessingResult.alreadyFailed e.failureReason) hsome
        rw [transaction_process hp he, hfailed] at h
        by_cases hc : clock.startedAt ≤ clock.finishedAt
        · exact hdone (.alreadyFailed hfailed hc)
        · simp [hx, hc] at h
      have hs := isFinal_eq_false hprocessed hfailed
      have hx := exec_applyProcessingRules input clock d e (isSome_get_apply_save he ⟨.processing, none, none⟩)
      rw [transaction_unfinished hp he hs] at h
      rw [judge_apply_save] at hx
      cases hj : judge d e with
      | error x =>
        rw [hj] at hx
        simp [hx] at h
      | ok v =>
        rw [hj] at hx
        obtain ⟨x, hx⟩ := hx
        rw [admissible_apply_save] at hx
        by_cases ha : v.admissible clock d = true
        · exact hdone (.judged v hs hj ha)
        · simp [hx, ha] at h

end Transaction

end EventGateway.WebhookEventProcessor
