import EventGateway.RepeatedDelivery
import Mathlib.Logic.Function.Basic

namespace EventGateway

open KeyedTable TransactionProgram TxHash Statements
open WebhookEventProcessor (Verdict ProcessingFailureReason ProcessWebhookEventInput Clock transactionConfirmed
  validatePayloadMatchesPaymentIntent)

def PaymentIntent.timeless (i : PaymentIntent) : PaymentIntent := { i with updatedAt := 0 }

def WebhookEvent.timeless (e : WebhookEvent) : WebhookEvent := { e with processedAt := none }

structure Ledger where
  intents : Uuid → Option PaymentIntent
  events : Uuid → Option WebhookEvent

namespace Ledger

def ofDb (d : Db) : Ledger where
  intents k := (d.paymentIntents.get k).map PaymentIntent.timeless
  events k := (d.webhookEvents.get k).map WebhookEvent.timeless

variable (L : Ledger)

def Taken (txHash : Text) (id : Uuid) : Prop := ∃ k i, L.intents k = some i ∧ i.confirmedTxHash = some txHash ∧ k ≠ id

open Classical in
noncomputable def judgeMatching (id : Uuid) (i : PaymentIntent) (txHash : Text) : Verdict :=
  match i.status with
  | .confirmed =>
    if i.confirmedTxHash.map normalizeTxHash = some txHash then .confirmedBefore else .fail .paymentIntentTerminal
  | .failed | .expired => .fail .paymentIntentTerminal
  | .created | .processing => if L.Taken txHash id then .fail .confirmedTxHashConflict else .confirm id txHash

noncomputable def judgeIntent (e : WebhookEvent) (id : Uuid) (txHash : Text) : Except Failure Verdict :=
  match L.intents id with
  | none => .ok (.fail .unknownPaymentIntent)
  | some i =>
    match validatePayloadMatchesPaymentIntent e.payload i.load with
    | .error x => .error x
    | .ok (some reason) => .ok (.fail reason)
    | .ok none => .ok (L.judgeMatching id i txHash)

noncomputable def judge (e : WebhookEvent) : Except Failure Verdict :=
  if e.payload.text "type" ≠ some transactionConfirmed then .ok (.fail .unsupportedEventType)
  else
    match e.payload.text "txHash" with
    | none => .ok (.fail .missingTxHash)
    | some hash =>
      if Text.trim hash = [] then .ok (.fail .missingTxHash)
      else
        match e.paymentIntentId with
        | none => .ok (.fail .unknownPaymentIntent)
        | some id => L.judgeIntent e id (normalizeTxHash hash)

def settled (e : WebhookEvent) : Verdict → WebhookEvent
  | .fail reason => { e with status := .failed, failureReason := some reason.text, processedAt := none }
  | _ => { e with status := .processed, failureReason := none, processedAt := none }

def confirmed (txHash : Text) (i : PaymentIntent) : PaymentIntent :=
  { i with status := .confirmed, confirmedTxHash := some txHash, failureReason := none, updatedAt := 0 }

def settle (id : Uuid) (e : WebhookEvent) (v : Verdict) : Ledger where
  intents :=
    match v with
    | .confirm k txHash => Function.update L.intents k ((L.intents k).map (confirmed txHash))
    | _ => L.intents
  events := Function.update L.events id (some (settled e v))

def fits : Verdict → Bool
  | .confirm _ txHash => !isTooLong maxVarchar txHash
  | _ => true

/-- What processing an event comes to, if anything; `inTime` says that the attempt ends after it began,
without which nothing is committed. -/
noncomputable def decision (inTime : Bool) (id : Uuid) : Option (WebhookEvent × Verdict) :=
  match L.events id with
  | none => none
  | some e =>
    if e.isFinal || !inTime then none
    else
      match L.judge e with
      | .error _ => none
      | .ok v => if fits v then some (e, v) else none

def carryOut (id : Uuid) : Option (WebhookEvent × Verdict) → Ledger
  | none => L
  | some (e, v) => L.settle id e v

noncomputable def process (inTime : Bool) (id : Uuid) : Ledger := L.carryOut id (L.decision inTime id)

end Ledger

section Simulation

variable {d : Db}

theorem taken_iff (hd : d.Indexes) (txHash : Text) (id : Uuid) :
    (d.paymentIntents.find (fun j => j.confirmedTxHash = some txHash)).any (fun j => j.id ≠ id) = true ↔
      (Ledger.ofDb d).Taken txHash id := by
  constructor
  · intro h
    obtain ⟨j, hj, hne⟩ := (Option.any_eq_true _ _).mp h
    have hget : d.paymentIntents.get j.id = some j := Table.get_of_mem (Table.mem_of_find hj)
    have hh := Table.find_holds hj
    rw [decide_eq_true_eq] at hh hne
    refine ⟨j.id, j.timeless, ?_, hh, hne⟩
    simp only [Ledger.ofDb, hget, Option.map_some]
  · rintro ⟨k, i, hi, hh, hne⟩
    obtain ⟨j, hj, rfl⟩ := Option.map_eq_some_iff.mp hi
    have hkey : j.id = k := Table.key_of_get hj
    have hh : j.confirmedTxHash = some txHash := hh
    have hfind : d.paymentIntents.find (fun j => j.confirmedTxHash = some txHash) = some j := by
      refine Table.find_eq_some_of_unique (Table.mem_of_get hj) (decide_eq_true hh) ?_
      intro x hx hxh
      exact hd.confirmedTxHash x hx j (Table.mem_of_get hj) txHash (of_decide_eq_true hxh) hh
    rw [hfind]
    simpa [hkey] using hne

theorem judgeIntent_ledger (hd : d.Indexes) (e : WebhookEvent) (id : Uuid) (txHash : Text) :
    (Ledger.ofDb d).judgeIntent e.timeless id txHash =
      match d.paymentIntents.get id with
      | none => .ok (.fail .unknownPaymentIntent)
      | some i => WebhookEventProcessor.judgeIntent d e i txHash := by
  unfold Ledger.judgeIntent
  cases hi : d.paymentIntents.get id with
  | none => simp only [Ledger.ofDb, hi, Option.map_none]
  | some i =>
    obtain rfl : i.id = id := Table.key_of_get hi
    have hmatching : (Ledger.ofDb d).judgeMatching i.id i.timeless txHash =
        WebhookEventProcessor.judgeMatching d i txHash := by
      have htaken := taken_iff hd txHash i.id
      have hstatus : i.timeless.status = i.status := rfl
      unfold Ledger.judgeMatching WebhookEventProcessor.judgeMatching
      rw [hstatus]
      cases i.status with
      | confirmed | failed | expired => rfl
      | created | processing =>
        simp only
        by_cases ht : (Ledger.ofDb d).Taken txHash i.id
        · rw [if_pos ht, if_pos (htaken.mpr ht)]
        · rw [if_neg ht, if_neg (fun h => ht (htaken.mp h))]
    have hvalid : validatePayloadMatchesPaymentIntent e.timeless.payload i.timeless.load =
        validatePayloadMatchesPaymentIntent e.payload i.load := rfl
    simp only [Ledger.ofDb, hi, Option.map_some, WebhookEventProcessor.judgeIntent]
    rw [hvalid]
    cases validatePayloadMatchesPaymentIntent e.payload i.load with
    | error x => rfl
    | ok r =>
      cases r with
      | some reason => rfl
      | none => exact congrArg Except.ok hmatching

theorem judge_ledger (hd : d.Indexes) (e : WebhookEvent) :
    (Ledger.ofDb d).judge e.timeless = WebhookEventProcessor.judge d e := by
  have hpayload : e.timeless.payload = e.payload := rfl
  have hintent : e.timeless.paymentIntentId = e.paymentIntentId := rfl
  unfold Ledger.judge WebhookEventProcessor.judge
  rw [hpayload, hintent]
  cases e.paymentIntentId with
  | none => rfl
  | some id =>
    by_cases htype : e.payload.text "type" ≠ some transactionConfirmed
    · rw [if_pos htype, if_pos htype]
    rw [if_neg htype, if_neg htype]
    cases e.payload.text "txHash" with
    | none => rfl
    | some hash =>
      by_cases htrim : Text.trim hash = []
      · simp only [if_pos htrim]
      · simp only [if_neg htrim]
        exact judgeIntent_ledger hd e id _

variable {input : ProcessWebhookEventInput} {clock : Clock}

theorem admissible_of_judge (hd : d.Indexes) {e : WebhookEvent} {v : Verdict} (h : WebhookEventProcessor.judge d e = .ok v) :
    v.admissible clock d = (Ledger.fits v && decide (clock.startedAt ≤ clock.finishedAt)) := by
  cases v with
  | fail reason => rfl
  | confirmedBefore => rfl
  | confirm id txHash => simp [Verdict.admissible, Ledger.fits, WebhookEventProcessor.isTxHashTaken_of_judge hd h]

theorem ofDb_settle {id : Uuid} {e : WebhookEvent} (he : d.webhookEvents.get id = some e) (p : WebhookEventPatch)
    (a : WebhookProcessingAttempt) : Ledger.ofDb (WebhookEventProcessor.settle d id p a) =
      { Ledger.ofDb d with events := Function.update (Ledger.ofDb d).events id (some (e.patch p).timeless) } := by
  have hevents (k : Uuid) : ((d.webhookEvents.update id p.change).get k).map WebhookEvent.timeless =
      Function.update (fun k => (d.webhookEvents.get k).map WebhookEvent.timeless) id (some (e.patch p).timeless) k := by
    by_cases hk : k = id
    · subst hk
      rw [Table.get_update_self, he, Function.update_self]
      rfl
    · rw [Table.get_update_of_ne _ hk, Function.update_of_ne hk]
  exact congrArg (Ledger.mk _) (funext hevents)

theorem ofDb_confirmIntent (id : Uuid) (clock : Clock) (txHash : Text) :
    Ledger.ofDb (WebhookEventProcessor.confirmIntent d id (WebhookEventProcessor.confirmation clock txHash)) =
      { Ledger.ofDb d with
        intents := Function.update (Ledger.ofDb d).intents id
          (((Ledger.ofDb d).intents id).map (Ledger.confirmed txHash)) } := by
  have hintents (k : Uuid) :
      ((d.paymentIntents.update id (WebhookEventProcessor.confirmation clock txHash).change).get k).map PaymentIntent.timeless =
        Function.update (Ledger.ofDb d).intents id (((Ledger.ofDb d).intents id).map (Ledger.confirmed txHash)) k := by
    by_cases hk : k = id
    · subst hk
      rw [Table.get_update_self, Function.update_self]
      cases h : d.paymentIntents.get k with
      | none => simp only [Ledger.ofDb, h, Option.map_none]
      | some i =>
        simp only [Ledger.ofDb, h, Option.map_some]
        rfl
    · rw [Table.get_update_of_ne _ hk, Function.update_of_ne hk]
      rfl
  exact congrArg (fun f => Ledger.mk f _) (funext hintents)

theorem ofDb_view_writes {id : Uuid} {e : WebhookEvent} (he : d.webhookEvents.get id = some e) (v : Verdict) :
    Ledger.ofDb (engine.view d (.saveWebhookEvent id ⟨.processing, none, none⟩ :: v.writes input clock id)) =
      (Ledger.ofDb d).settle id e.timeless v := by
  cases v with
  | fail reason =>
    rw [WebhookEventProcessor.view_fail, ofDb_settle he]
    rfl
  | confirmedBefore =>
    rw [WebhookEventProcessor.view_confirmedBefore, ofDb_settle he]
    rfl
  | confirm k txHash =>
    have he' : (WebhookEventProcessor.confirmIntent d k
        (WebhookEventProcessor.confirmation clock txHash)).webhookEvents.get id = some e := he
    rw [WebhookEventProcessor.view_confirm, ofDb_settle he', ofDb_confirmIntent]
    rfl

theorem ofDb_unfinished (hd : d.Indexes) {id : Uuid} {e : WebhookEvent} (hp : Uuid.parse input.webhookEventId = some id)
    (he : d.webhookEvents.get id = some e) (hf : e.isFinal = false) :
    Ledger.ofDb (engine.transaction (WebhookEventProcessor.processWebhookEvent input clock) d).db =
      (Ledger.ofDb d).process (decide (clock.startedAt ≤ clock.finishedAt)) id := by
  obtain rfl : e.id = id := Table.key_of_get he
  have hx := WebhookEventProcessor.exec_applyProcessingRules input clock d e
    (WebhookEventProcessor.isSome_get_apply_save he ⟨.processing, none, none⟩)
  have hevent : (Ledger.ofDb d).events e.id = some e.timeless := by simp only [Ledger.ofDb, he, Option.map_some]
  have hfinal : e.timeless.isFinal = false := hf
  rw [WebhookEventProcessor.judge_apply_save] at hx
  rw [WebhookEventProcessor.transaction_unfinished hp he hf]
  simp only [Ledger.process, Ledger.decision, hevent, hfinal, Bool.false_or, judge_ledger hd]
  cases hj : WebhookEventProcessor.judge d e with
  | error x =>
    rw [hj] at hx
    rw [hx]
    split_ifs <;> rfl
  | ok v =>
    rw [hj] at hx
    obtain ⟨x, hx⟩ := hx
    rw [WebhookEventProcessor.admissible_apply_save, admissible_of_judge hd hj] at hx
    rw [hx]
    by_cases hc : clock.startedAt ≤ clock.finishedAt
    swap
    · simp only [hc, decide_false, Bool.and_false, Bool.false_eq_true, ↓reduceIte, Bool.not_false, Ledger.carryOut]
    cases hfits : Ledger.fits v with
    | false =>
      simp only [hc, hfits, decide_true, Bool.and_true, Bool.false_eq_true, ↓reduceIte, Bool.not_true, Ledger.carryOut]
    | true =>
      simp only [hc, hfits, decide_true, Bool.and_true, Bool.false_eq_true, ↓reduceIte, Bool.not_true]
      exact ofDb_view_writes he v

theorem ofDb_process (hd : d.Indexes) {id : Uuid} (hp : Uuid.parse input.webhookEventId = some id) :
    Ledger.ofDb (engine.transaction (WebhookEventProcessor.processWebhookEvent input clock) d).db =
      (Ledger.ofDb d).process (decide (clock.startedAt ≤ clock.finishedAt)) id := by
  cases he : d.webhookEvents.get id with
  | none =>
    have hevent : (Ledger.ofDb d).events id = none := by simp only [Ledger.ofDb, he, Option.map_none]
    rw [Engine.transaction, WebhookEventProcessor.processWebhookEvent, WebhookEventProcessor.lockWebhookEvent,
      Prog.bind_assoc, query, Engine.exec_call_bind]
    simp only [engine_eval, eval, hp, he, Ledger.process, Ledger.decision, hevent]
    rfl
  | some e =>
    cases hf : e.isFinal with
    | false => exact ofDb_unfinished hd hp he hf
    | true =>
      obtain rfl : e.id = id := Table.key_of_get he
      have hevent : (Ledger.ofDb d).events e.id = some e.timeless := by simp only [Ledger.ofDb, he, Option.map_some]
      have hfinal : e.timeless.isFinal = true := hf
      obtain ⟨a, -, ha⟩ := WebhookEventProcessor.transaction_final clock hp he hf
      rw [ha]
      simp only [Ledger.process, Ledger.decision, hevent, hfinal, Bool.true_or, ↓reduceIte]
      split_ifs <;> rfl

end Simulation

end EventGateway
