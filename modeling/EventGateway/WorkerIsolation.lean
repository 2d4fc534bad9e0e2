import EventGateway.Settlement
import EventGateway.StatementStability

namespace EventGateway

open KeyedTable TransactionProgram Interleaving RelyGuarantee Statements

theorem Db.Evolves.get_eq_none {d d' : Db} (h : d.Evolves d') {id : Uuid} (hn : d'.webhookEvents.get id = none) :
    d.webhookEvents.get id = none := by
  by_contra hsome
  obtain ⟨e, he⟩ := Option.ne_none_iff_exists'.mp hsome
  obtain ⟨e', he', hee'⟩ := h.webhookEvents e (Table.mem_of_get he)
  have hid : e'.id = id := by
    rw [hee'.1]
    exact Table.key_of_get he
  rw [Table.get_eq_some.mpr ⟨he', hid⟩] at hn
  cases hn

theorem Db.Evolves.intent_eq_none {d d' : Db} (h : d.Evolves d') {id : Uuid} (hn : d'.paymentIntents.get id = none) :
    d.paymentIntents.get id = none := by
  by_contra hsome
  obtain ⟨i, hi⟩ := Option.ne_none_iff_exists'.mp hsome
  obtain ⟨i', hi', hii'⟩ := h.paymentIntents i (Table.mem_of_get hi)
  have hid : i'.id = i.id := by
    rcases hii' with rfl | ⟨-, txHash, now, rfl⟩ <;> rfl
  rw [Table.get_eq_some.mpr ⟨hi', hid.trans (Table.key_of_get hi)⟩] at hn
  cases hn

namespace WebhookEventProcessor

variable (input : ProcessWebhookEventInput) (clock : Clock)

structure Needs (e : WebhookEvent) (k : Uuid) : Prop where
  type : e.payload.text "type" = some transactionConfirmed
  hash : ∃ hash, e.payload.text "txHash" = some hash ∧ Text.trim hash ≠ []
  intent : e.paymentIntentId = some k

def StaleUnknown (r : ProcessingResult) (w : World Db JobData) (d : Db) : Prop :=
  ∃ id e, Uuid.parse input.webhookEventId = some id ∧ w.db.webhookEvents.get id = some e ∧ e.isFinal = false ∧
    r = .failed .unknownPaymentIntent ∧
    d = settle w.db e.id (failedPatch clock .unknownPaymentIntent)
      (attempt input clock e.id .failed (some ProcessingFailureReason.unknownPaymentIntent.text))

def Overtaken (began : World Db JobData) (r : ProcessingResult) (w : World Db JobData) (d : Db) : Prop :=
  ∃ e k, Uuid.parse input.webhookEventId = some e.id ∧ w.db.webhookEvents.get e.id = some e ∧ e.isFinal = false ∧
    Needs e k ∧ began.db.paymentIntents.get k = none ∧ clock.startedAt ≤ clock.finishedAt ∧
    r = .failed .unknownPaymentIntent ∧
    d = settle w.db e.id (failedPatch clock .unknownPaymentIntent)
      (attempt input clock e.id .failed (some ProcessingFailureReason.unknownPaymentIntent.text))

section Tracked

variable {input clock} {R : Type} {whole : Script R} {Q : R → (Lock → Prop) → List Write → World Db JobData → Prop}
  {X : Failure → (Lock → Prop) → List Write → World Db JobData → Prop}
  (hret : ∀ r held ws w, Tracks discipline whole (.ret r) held ws w → Q r held ws w)

include hret

theorem wp_insertAttempt {id : Uuid} {status : WebhookProcessingAttemptStatus} {msg : Option Text} {r : R}
    {held : Lock → Prop} {ws : List Write} {w : World Db JobData}
    (ht : Tracks discipline whole (insertAttempt input clock id status msg >>= fun _ => .ret r) held ws w) :
    wp discipline (insertAttempt input clock id status msg >>= fun _ => .ret r) held ws w Q X := by
  apply Tracks.wp_call ht
  · intro w' others a ws' ls hr he hs
    exact hret _ _ _ _ (hs (stable_insertAttempt he))
  · exact eval_not_refused (by simp)
  · exact eval_faults _

theorem wp_settle {id : Uuid} {p : WebhookEventPatch} {status : WebhookProcessingAttemptStatus} {msg : Option Text}
    {r : R} {held : Lock → Prop} {ws : List Write} {w : World Db JobData}
    (ht : Tracks discipline whole
      (query (.saveWebhookEvent id p) >>= fun _ => insertAttempt input clock id status msg >>= fun _ => .ret r) held ws w) :
    wp discipline (query (.saveWebhookEvent id p) >>= fun _ => insertAttempt input clock id status msg >>= fun _ => .ret r)
      held ws w Q X := by
  apply Tracks.wp_call ht
  · intro w' others a ws' ls hr he hs
    exact wp_insertAttempt hret (hs (stable_saveWebhookEvent he))
  · exact eval_not_refused (by simp)
  · exact eval_faults _

end Tracked

section Confirm

variable {input clock} {R : Type} {whole : Script R} {held : Lock → Prop} {ws : List Write}

theorem find_txHash_none {d : Db} {others : Lock → Bool} {txHash : Text} {ws' : List Write} {ls : List Lock}
    (h : engine.eval (.lockPaymentIntentByTxHash txHash) d others = .ok none ws' ls) :
    (∀ i ∈ d.paymentIntents, i.confirmedTxHash ≠ some txHash) ∧ ws' = [] := by
  simp only [engine_eval, eval] at h
  cases hf : d.paymentIntents.find (fun i => i.confirmedTxHash = some txHash) with
  | some x => simp [hf] at h
  | none =>
    simp only [hf] at h
    cases h
    refine ⟨?_, rfl⟩
    intro i hi hh
    have hp := Table.find_eq_none.mp hf i hi
    simp [hh] at hp

theorem eval_lockByTxHash_none {d : Db} {txHash : Text} (h : ∀ i ∈ d.paymentIntents, i.confirmedTxHash ≠ some txHash) :
    engine.eval (.lockPaymentIntentByTxHash txHash) d (fun _ => false) = .ok none [] [] := by
  have hf : d.paymentIntents.find (fun i => i.confirmedTxHash = some txHash) = none :=
    Table.find_eq_none.mpr (fun i hi => by simpa using h i hi)
  simp only [engine_eval, eval, hf]

theorem eval_savePaymentIntent {d : Db} {others : Lock → Bool} {id : Uuid} {txHash : Text} {a : Unit}
    {ws' : List Write} {ls : List Lock}
    (h : engine.eval (.savePaymentIntent id (confirmation clock txHash)) d others = .ok a ws' ls) :
    isTooLong maxVarchar txHash = false ∧ isTxHashTaken d (some txHash) id = false ∧
      ws' = [.savePaymentIntent id (confirmation clock txHash)] ∧
      ls = [.paymentIntent id, .confirmedTxHash txHash] := by
  simp only [engine_eval, eval, confirmation, Option.any_some] at h
  split_ifs at h with hlen htaken
  cases h
  exact ⟨Bool.eq_false_iff.mpr hlen, Bool.eq_false_iff.mpr htaken, rfl, rfl⟩

theorem isTxHashTaken_of_free {d : Db} {txHash : Text} (id : Uuid)
    (h : ∀ i ∈ d.paymentIntents, i.confirmedTxHash ≠ some txHash) : isTxHashTaken d (some txHash) id = false := by
  simp only [isTxHashTaken, Option.isSome_some, Bool.true_and, Option.isSome_eq_false_iff, Option.isNone_iff_eq_none]
  exact Table.find_eq_none.mpr (fun i hi => by simp [h i hi])

theorem eval_savePaymentIntent_free (clock : Clock) {d : Db} {id : Uuid} {txHash : Text}
    (hlen : isTooLong maxVarchar txHash = false) (hfree : isTxHashTaken d (some txHash) id = false) :
    engine.eval (.savePaymentIntent id (confirmation clock txHash)) d (fun _ => false) =
      .ok () [.savePaymentIntent id (confirmation clock txHash)] [.paymentIntent id, .confirmedTxHash txHash] := by
  simp only [engine_eval, eval, confirmation, Option.any_some, hlen, hfree,
    Bool.false_eq_true, ↓reduceIte]
  rfl

theorem id_of_txHash_kept {id : Uuid} {txHash : Text} {ws : List Write} {w w' : World Db JobData}
    (hws : ∀ d, (engine.view d ws).paymentIntents = d.paymentIntents)
    (hfree : isTxHashTaken (engine.view w.db ws) (some txHash) id = false) {held : Lock → Prop}
    (hr : discipline.Rely held w w') (hlock : held (.confirmedTxHash txHash)) {i : PaymentIntent}
    (hi : i ∈ w'.db.paymentIntents) (hh : i.confirmedTxHash = some txHash) : i.id = id := by
  have hout : Table.KeepsOut (fun i => i.confirmedTxHash = some txHash) w.db.paymentIntents w'.db.paymentIntents :=
    hr.2.2 (.confirmedTxHash txHash) hlock
  obtain ⟨j, hj, hji, hjh⟩ := hout i hi hh
  have hjid : j.id = id := by
    apply Db.Indexes.isTxHashTaken_eq_false hfree j _ hjh
    rw [hws]
    exact hj
  exact hji.symm.trans hjid

theorem stable_savePaymentIntent {id : Uuid} {txHash : Text} {g : Unit → Script R} {w : World Db JobData}
    {others : Lock → Bool} {a : Unit} {ws' : List Write} {ls : List Lock}
    (hws : ∀ d, (engine.view d ws).paymentIntents = d.paymentIntents)
    (h : engine.eval (.savePaymentIntent id (confirmation clock txHash)) (engine.view w.db ws) others = .ok a ws' ls) :
    Stable discipline (.savePaymentIntent id (confirmation clock txHash)) g (fun l => held l ∨ l ∈ ls) ws a ws' w := by
  obtain ⟨hlen, hfree, rfl, rfl⟩ := eval_savePaymentIntent h
  intro w' hr
  refine ⟨(), _, eval_savePaymentIntent_free clock hlen ?_, rfl⟩
  simp only [isTxHashTaken, Option.isSome_some, Bool.true_and, Option.isSome_eq_false_iff, Option.isNone_iff_eq_none]
  rw [Table.find_eq_none, hws]
  intro i hi
  by_cases hh : i.confirmedTxHash = some txHash
  · have hiid : i.id = id := id_of_txHash_kept hws hfree hr (Or.inr (by simp)) hi hh
    simp [hiid]
  · simp [hh]

theorem tracks_confirm (js : List JobData) {id : Uuid} {txHash : Text} {f : Option PaymentIntentEntity → Script R}
    {g : Unit → Script R} {w w₁ w₂ : World Db JobData} {others₁ others₂ : Lock → Bool} {a : Unit} {ws₁ ws₂ : List Write}
    {ls₁ ls₂ : List Lock} (hws : ∀ d, (engine.view d ws).paymentIntents = d.paymentIntents)
    (hf : f none = query (.savePaymentIntent id (confirmation clock txHash)) >>= g)
    (ht : Tracks discipline whole (query (.lockPaymentIntentByTxHash txHash) >>= f) held ws w)
    (hid : held (.paymentIntent id)) (hr₁ : discipline.Rely held w w₁)
    (he₁ : engine.eval (.lockPaymentIntentByTxHash txHash) (engine.view w₁.db ws) others₁ = .ok none ws₁ ls₁)
    (hr₂ : discipline.Rely held w₁ w₂)
    (he₂ : engine.eval (.savePaymentIntent id (confirmation clock txHash)) (engine.view w₂.db ws) others₂ =
      .ok a ws₂ ls₂) :
    Tracks discipline whole (g a) (fun l => held l ∨ l ∈ ls₂) (ws ++ ws₂) (w₂.emit js) := by
  -- the hash that was not found is still not there when its entry is made, nor later
  obtain ⟨hnone, _⟩ := find_txHash_none he₁
  obtain ⟨hlen, hfree, rfl, rfl⟩ := eval_savePaymentIntent he₂
  rw [hws] at hnone
  intro w₃ hr₃
  have hr₃' : discipline.Rely (fun l => held l ∨ l ∈ [Lock.paymentIntent id, .confirmedTxHash txHash]) w₂ w₃ :=
    hr₃.of_emitted
  have hrely : discipline.Rely held w₁ w₃ := hr₂.trans (hr₃'.weaken (fun _ hl => Or.inl hl))
  have hgone : ∀ i ∈ w₃.db.paymentIntents, i.confirmedTxHash ≠ some txHash := by
    intro i hi hh
    have hiid : i.id = id := id_of_txHash_kept hws hfree hr₃' (Or.inr (by simp)) hi hh
    have hrow : w₃.db.paymentIntents.get id = w₁.db.paymentIntents.get id := hrely.2.2 (.paymentIntent id) hid
    have hi₁ : w₁.db.paymentIntents.get id = some i := by
      rw [← hrow]
      exact Table.get_eq_some.mpr ⟨hi, hiid⟩
    exact hnone i (Table.mem_of_get hi₁) hh
  have hview : ∀ i ∈ (engine.view w₃.db ws).paymentIntents, i.confirmedTxHash ≠ some txHash := by
    rw [hws]
    exact hgone
  have hsave := eval_savePaymentIntent_free clock hlen (isTxHashTaken_of_free id hview)
  obtain ⟨hres, hdb⟩ := ht w₃ (hr₁.trans hrely)
  rw [query, Engine.exec_call_bind, eval_lockByTxHash_none hview] at hres hdb
  simp only [Outcome.emit_result, Outcome.emit_db, hf, query, Engine.exec_call_bind, Engine.view_nil, hsave] at hres hdb
  rw [Engine.view_append]
  exact ⟨hres, hdb⟩

end Confirm

def Post (r : ProcessingResult) (w : World Db JobData) (d : Db) : Prop :=
  Serial (processWebhookEvent input clock) r w d ∨ StaleUnknown input clock r w d

def Ends (began : World Db JobData) (r : ProcessingResult) (held : Lock → Prop) (ws : List Write) (w : World Db JobData) :
    Prop :=
  ∀ w', discipline.Rely held w w' → Serial (processWebhookEvent input clock) r w' (engine.view w'.db ws) ∨
    Overtaken input clock began r w' (engine.view w'.db ws)

def Throws (began : World Db JobData) (x : Failure) (held : Lock → Prop) (_ : List Write) (w : World Db JobData) : Prop :=
  (x = .webhookEventNotFound ∧ ∀ id, Uuid.parse input.webhookEventId = some id → began.db.webhookEvents.get id = none) ∨
    ∀ w', discipline.Rely held w w' → (engine.transaction (processWebhookEvent input clock) w'.db).result = .error x

section Worker

variable {input clock} {held : Lock → Prop} {ws : List Write} {w began : World Db JobData}

theorem ends_of_tracks (r : ProcessingResult) (held : Lock → Prop) (ws : List Write) (w : World Db JobData)
    (ht : Tracks discipline (processWebhookEvent input clock) (.ret r) held ws w) : Ends input clock began r held ws w :=
  fun _ hr => Or.inl (ht.result hr)

theorem wp_confirm {e : WebhookEvent} {i : PaymentIntentEntity} {txHash : Text}
    (hws : ∀ d, (engine.view d ws).paymentIntents = d.paymentIntents) (hid : held (.paymentIntent i.id))
    (ht : Tracks discipline (processWebhookEvent input clock) (confirm input clock e i txHash) held ws w) :
    wp discipline (confirm input clock e i txHash) held ws w (Ends input clock began) (Throws input clock began) := by
  unfold confirm
  apply Tracks.wp_call ht
  · intro w₁ others a ws₁ ls hr₁ he₁ hs
    cases a with
    | some existing =>
      have ht₁ := hs (stable_lockPaymentIntentByTxHash hws he₁)
      have hws₁ : ws₁ = [] := by
        simp only [engine_eval, eval] at he₁
        split at he₁ <;> cases he₁
        rfl
      subst hws₁
      rw [List.append_nil] at ht₁ ⊢
      simp only at ht₁ ⊢
      split_ifs at ht₁ ⊢
      · exact wp_settle ends_of_tracks ht₁
      · apply Tracks.wp_call ht₁
        · intro w₂ others₂ a ws₂ ls₂ hr₂ he₂ hs₂
          exact wp_settle ends_of_tracks (hs₂ (stable_savePaymentIntent hws he₂))
        · exact eval_not_refused (by simp)
        · exact eval_faults _
    | none =>
      obtain ⟨_, rfl⟩ := find_txHash_none he₁
      rw [List.append_nil]
      apply wp_call
      · intro w₂ others₂ a ws₂ ls₂ hr₂ he₂
        have hr₂' : discipline.Rely held w₁ w₂ := hr₂.of_emitted.weaken (fun _ hl => Or.inl hl)
        have ht₂ := tracks_confirm [] hws rfl ht hid hr₁ he₁ hr₂' he₂
        exact wp_settle ends_of_tracks (ht₂.strengthen (fun l hl => hl.imp_left Or.inl))
      · exact fun _ _ e _ he => absurd he (eval_not_refused (by simp) _ _ e)
      · exact eval_faults _
  · exact eval_not_refused (by simp)
  · exact eval_faults _

theorem wp_matching {e : WebhookEvent} {i : PaymentIntentEntity} {txHash : Text}
    (hws : ∀ d, (engine.view d ws).paymentIntents = d.paymentIntents) (hid : held (.paymentIntent i.id))
    (ht : Tracks discipline (processWebhookEvent input clock) (applyToMatchingIntent input clock e i txHash) held ws w) :
    wp discipline (applyToMatchingIntent input clock e i txHash) held ws w (Ends input clock began)
      (Throws input clock began) := by
  unfold applyToMatchingIntent at ht ⊢
  cases hs : i.status with
  | confirmed =>
    simp only [hs] at ht ⊢
    split_ifs at ht ⊢ <;> exact wp_settle ends_of_tracks ht
  | failed | expired =>
    simp only [hs] at ht ⊢
    exact wp_settle ends_of_tracks ht
  | created | processing =>
    simp only [hs] at ht ⊢
    exact wp_confirm hws hid ht

theorem wp_unknown {e : WebhookEvent} {k : Uuid} (hp : Uuid.parse input.webhookEventId = some e.id)
    (he : w.db.webhookEvents.get e.id = some e) (hs : e.isFinal = false) (hheld : held (.webhookEvent e.id))
    (hneeds : Needs e k) (hk : began.db.paymentIntents.get k = none) :
    wp discipline (failWebhookEvent input clock e .unknownPaymentIntent) held
      [.saveWebhookEvent e.id ⟨.processing, none, none⟩] w (Ends input clock began) (Throws input clock began) := by
  -- the event stays locked, so it is as it was when the session ends
  unfold failWebhookEvent
  apply wp_call
  · intro w₁ others₁ a₁ ws₁ ls₁ hr₁ he₁
    cases he₁
    apply wp_call
    · intro w₂ others₂ a₂ ws₂ ls₂ hr₂ he₂ w₃ hr₃
      have hws₂ : clock.startedAt ≤ clock.finishedAt ∧ ws₂ = [.insertAttempt (attempt input clock e.id .failed
          (some ProcessingFailureReason.unknownPaymentIntent.text))] := by
        simp only [engine_eval, eval] at he₂
        split_ifs at he₂ with hc
        cases he₂
        exact ⟨not_lt.mp hc, rfl⟩
      obtain ⟨hc, rfl⟩ := hws₂
      have hrow : w₃.db.webhookEvents.get e.id = some e := by
        have h₁ : w₁.db.webhookEvents.get e.id = w.db.webhookEvents.get e.id := hr₁.2.2 (.webhookEvent e.id) hheld
        have h₂ : w₂.db.webhookEvents.get e.id = w₁.db.webhookEvents.get e.id :=
          hr₂.of_emitted.2.2 (.webhookEvent e.id) (Or.inl hheld)
        have h₃ : w₃.db.webhookEvents.get e.id = w₂.db.webhookEvents.get e.id :=
          hr₃.of_emitted.2.2 (.webhookEvent e.id) (Or.inl (Or.inl hheld))
        rw [h₃, h₂, h₁, he]
      exact Or.inr ⟨e, k, hp, hrow, hs, hneeds, hk, hc, rfl, view_fail input clock w₃.db e.id .unknownPaymentIntent⟩
    · exact fun _ _ x _ hx => absurd hx (eval_not_refused (by simp) _ _ x)
    · exact eval_faults _
  · exact fun _ _ x _ hx => absurd hx (eval_not_refused (by simp) _ _ x)
  · exact eval_faults _

theorem wp_withIntent {e : WebhookEvent} {txHash : Text} {i : PaymentIntentEntity}
    (hws : ∀ d, (engine.view d ws).paymentIntents = d.paymentIntents) (hid : held (.paymentIntent i.id))
    (ht : Tracks discipline (processWebhookEvent input clock)
      (match validatePayloadMatchesPaymentIntent e.payload i with
        | .error x => throw x
        | .ok (some reason) => failWebhookEvent input clock e reason
        | .ok none => applyToMatchingIntent input clock e i txHash) held ws w) :
    wp discipline (match validatePayloadMatchesPaymentIntent e.payload i with
        | .error x => throw x
        | .ok (some reason) => failWebhookEvent input clock e reason
        | .ok none => applyToMatchingIntent input clock e i txHash) held ws w (Ends input clock began)
      (Throws input clock began) := by
  cases hv : validatePayloadMatchesPaymentIntent e.payload i with
  | error x =>
    rw [hv] at ht
    exact Or.inr (fun _ hr => ht.error hr)
  | ok failure =>
    rw [hv] at ht
    cases failure with
    | some reason => exact wp_settle ends_of_tracks ht
    | none => exact wp_matching hws hid ht

theorem wp_rules {e : WebhookEvent} (hb : began.db.Evolves w.db) (hp : Uuid.parse input.webhookEventId = some e.id)
    (he : w.db.webhookEvents.get e.id = some e) (hs : e.isFinal = false) (hheld : held (.webhookEvent e.id))
    (ht : Tracks discipline (processWebhookEvent input clock) (applyProcessingRules input clock e) held
      [.saveWebhookEvent e.id ⟨.processing, none, none⟩] w) :
    wp discipline (applyProcessingRules input clock e) held [.saveWebhookEvent e.id ⟨.processing, none, none⟩] w
      (Ends input clock began) (Throws input clock began) := by
  unfold applyProcessingRules at ht ⊢
  by_cases htype : e.payload.text "type" = some transactionConfirmed
  swap
  · simp only [htype, ne_eq, not_false_eq_true, ↓reduceIte] at ht ⊢
    exact wp_settle ends_of_tracks ht
  simp only [htype, ne_eq, not_true_eq_false, ↓reduceIte] at ht ⊢
  cases htx : e.payload.text "txHash" with
  | none =>
    simp only [htx] at ht ⊢
    exact wp_settle ends_of_tracks ht
  | some hash =>
    simp only [htx] at ht ⊢
    by_cases hblank : Text.trim hash = []
    · simp only [hblank, ↓reduceIte] at ht ⊢
      exact wp_settle ends_of_tracks ht
    simp only [hblank, ↓reduceIte] at ht ⊢
    unfold lockPaymentIntent at ht ⊢
    cases hi : e.paymentIntentId with
    | none =>
      simp only [hi] at ht ⊢
      exact wp_settle ends_of_tracks ht
    | some intentId =>
      simp only [hi] at ht ⊢
      apply Tracks.wp_call ht
      · intro w₁ others a ws₁ ls hr he₁ hstable
        cases a with
        | none =>
          have hnone : w₁.db.paymentIntents.get intentId = none ∧ ws₁ = [] := by
            simp only [engine_eval, eval] at he₁
            split at he₁
            · rename_i hnone
              cases he₁
              exact ⟨hnone, rfl⟩
            · cases he₁
          obtain ⟨hnone, rfl⟩ := hnone
          have hrow : w₁.db.webhookEvents.get e.id = w.db.webhookEvents.get e.id := hr.2.2 (.webhookEvent e.id) hheld
          exact wp_unknown hp (hrow.trans he) hs (Or.inl hheld) ⟨htype, ⟨hash, htx, hblank⟩, hi⟩
            ((hb.trans hr.2.1.1).intent_eq_none hnone)
        | some i =>
          have ht₁ := hstable (stable_lockPaymentIntent he₁)
          simp only [engine_eval, eval] at he₁
          split at he₁
          · cases he₁
          · rename_i row hrow
            cases he₁
            have hid : row.id = intentId := Table.key_of_get hrow
            exact wp_withIntent (fun _ => rfl) (Or.inr (by simp [PaymentIntent.load, hid])) ht₁
      · exact eval_not_refused (by simp)
      · exact eval_faults _

theorem wp_locked {e : WebhookEvent} (hb : began.db.Evolves w.db) (hp : Uuid.parse input.webhookEventId = some e.id)
    (he : w.db.webhookEvents.get e.id = some e) (hheld : held (.webhookEvent e.id))
    (ht : Tracks discipline (processWebhookEvent input clock) (processLockedEvent input clock e) held [] w) :
    wp discipline (processLockedEvent input clock e) held [] w (Ends input clock began) (Throws input clock began) := by
  unfold processLockedEvent at ht ⊢
  cases hs : e.status with
  | processed | failed =>
    simp only [hs] at ht ⊢
    exact wp_insertAttempt ends_of_tracks ht
  | received | queued | processing | rejected =>
    simp only [hs] at ht ⊢
    have hfinal : e.isFinal = false := by simp [WebhookEvent.isFinal, hs]
    apply Tracks.wp_call ht
    · intro w₁ others a ws₁ ls hr he₁ hstable
      have ht₁ := hstable (stable_saveWebhookEvent he₁)
      cases he₁
      have hrow : w₁.db.webhookEvents.get e.id = w.db.webhookEvents.get e.id := hr.2.2 (.webhookEvent e.id) hheld
      exact wp_rules (hb.trans hr.2.1.1) hp (hrow.trans he) hfinal (Or.inl hheld) ht₁
    · exact eval_not_refused (by simp)
    · exact eval_faults _

theorem wp_process (w : World Db JobData) :
    wp discipline (processWebhookEvent input clock) (fun _ => False) [] w (Ends input clock w) (Throws input clock w) := by
  obtain ⟨rest, hprog, hnone, hsome⟩ : ∃ rest : Option WebhookEvent → Script ProcessingResult,
      processWebhookEvent input clock = query (.lockWebhookEvent input.webhookEventId) >>= rest ∧
      rest none = .throw .webhookEventNotFound ∧ ∀ e, rest (some e) = processLockedEvent input clock e := by
    unfold processWebhookEvent lockWebhookEvent
    exact ⟨_, Prog.bind_assoc _ _ _, rfl, fun _ => rfl⟩
  have ht : Tracks discipline (processWebhookEvent input clock) _ (fun _ => False) [] w := Tracks.start hprog _ _
  conv => arg 2; rw [hprog]
  apply Tracks.wp_call ht
  · intro w₁ others a ws₁ ls hr he₁ hstable
    cases a with
    | none =>
      rw [hnone]
      refine Or.inl ⟨rfl, fun id hp => ?_⟩
      simp only [engine_eval, eval, hp] at he₁
      split at he₁
      · rename_i hmissing
        exact hr.2.1.1.get_eq_none hmissing
      · cases he₁
    | some e =>
      have ht₁ := hstable (stable_lockWebhookEvent he₁)
      rw [hsome] at ht₁ ⊢
      simp only [engine_eval, eval] at he₁
      cases hp : Uuid.parse input.webhookEventId with
      | none => simp [hp] at he₁
      | some id =>
        simp only [hp] at he₁
        split at he₁
        · cases he₁
        rename_i row hrow
        cases he₁
        obtain rfl : e.id = id := Table.key_of_get hrow
        exact wp_locked hr.2.1.1 hp hrow (Or.inr (by simp)) ht₁
  · exact eval_not_refused (by simp)
  · exact eval_faults _

theorem Overtaken.stale {r : ProcessingResult} {d : Db} (h : Overtaken input clock began r w d) :
    StaleUnknown input clock r w d := by
  obtain ⟨e, k, hp, he, hs, -, -, -, hr, hd⟩ := h
  exact ⟨e.id, e, hp, he, hs, hr, hd⟩

theorem Ends.post {r : ProcessingResult} (h : Ends input clock began r held ws w) {w' : World Db JobData}
    (hr : discipline.Rely held w w') : Post input clock r w' (engine.view w'.db ws) :=
  (h w' hr).imp_right Overtaken.stale

theorem Post.settles {r : ProcessingResult} {d : Db} (h : Post input clock r w d) :
    ∃ id e, Uuid.parse input.webhookEventId = some id ∧ w.db.webhookEvents.get id = some e ∧
      Settles input clock w.db e r d := by
  rcases h with ⟨hres, rfl⟩ | ⟨id, e, hp, he, hs, rfl, rfl⟩
  · obtain ⟨id, e, hp, he, hpost⟩ := processed_of_transaction hres
    exact ⟨id, e, hp, he, hpost.settles⟩
  · exact ⟨id, e, hp, he, .failed .unknownPaymentIntent hs⟩

end Worker

end WebhookEventProcessor

end EventGateway
