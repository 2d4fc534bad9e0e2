import EventGateway.ProcessingRules
import EventGateway.RowEvolution

namespace EventGateway.WebhookEventProcessor

open KeyedTable TransactionProgram TxHash Statements

structure Matches (e : WebhookEvent) (i : PaymentIntent) (txHash : Text) : Prop where
  type : e.payload.text "type" = some transactionConfirmed
  hash : ∃ hash, e.payload.text "txHash" = some hash ∧ Text.trim hash ≠ [] ∧ normalizeTxHash hash = txHash
  intent : e.paymentIntentId = some i.id
  payload : validatePayloadMatchesPaymentIntent e.payload i.load = .ok none

theorem judge_matching {d : Db} {e : WebhookEvent} {v : Verdict} (h : judge d e = .ok v)
    (hv : ∀ reason, v ≠ .fail reason) :
    ∃ i ∈ d.paymentIntents, ∃ txHash, Matches e i txHash ∧ v = judgeMatching d i txHash := by
  unfold judge at h
  split_ifs at h with htype
  · exact absurd (Except.ok.inj h).symm (hv _)
  rw [not_not] at htype
  split at h
  · exact absurd (Except.ok.inj h).symm (hv _)
  rename_i hash htx
  split_ifs at h with hblank
  · exact absurd (Except.ok.inj h).symm (hv _)
  split at h
  · exact absurd (Except.ok.inj h).symm (hv _)
  rename_i i hi
  obtain ⟨id, hid, hget⟩ := Option.bind_eq_some_iff.mp hi
  unfold judgeIntent at h
  split at h
  · cases h
  · exact absurd (Except.ok.inj h).symm (hv _)
  rename_i hpayload
  refine ⟨i, Table.mem_of_get hget, normalizeTxHash hash, ⟨htype, ⟨hash, htx, hblank, rfl⟩, ?_, hpayload⟩, ?_⟩
  · have hkey : i.id = id := Table.key_of_get hget
    rw [hid, hkey]
  · exact (Except.ok.inj h).symm

theorem judgeMatching_confirmedBefore {d : Db} {i : PaymentIntent} {txHash : Text}
    (h : judgeMatching d i txHash = .confirmedBefore) :
    i.status = .confirmed ∧ i.confirmedTxHash.map normalizeTxHash = some txHash := by
  unfold judgeMatching at h
  split at h
  · rename_i hs
    split_ifs at h with hh
    exact ⟨hs, hh⟩
  all_goals (try split_ifs at h) <;> cases h

theorem judgeMatching_confirm {d : Db} {i : PaymentIntent} {txHash : Text} {id : Uuid} {h : Text}
    (hj : judgeMatching d i txHash = .confirm id h) :
    (i.status = .created ∨ i.status = .processing) ∧ id = i.id ∧ h = txHash := by
  unfold judgeMatching at hj
  split at hj
  · split_ifs at hj
  · cases hj
  · cases hj
  · rename_i hs
    split_ifs at hj
    cases hj
    exact ⟨Or.inl hs, rfl, rfl⟩
  · rename_i hs
    split_ifs at hj
    cases hj
    exact ⟨Or.inr hs, rfl, rfl⟩

theorem isTxHashTaken_of_judge {d : Db} (hd : d.Indexes) {e : WebhookEvent} {id : Uuid} {txHash : Text}
    (h : judge d e = .ok (.confirm id txHash)) : isTxHashTaken d (some txHash) id = false := by
  -- the intent that the lookup by hash would have found is the only one that could hold the hash
  obtain ⟨i, _, x, _, hv⟩ := judge_matching h (by simp)
  obtain ⟨hstatus, rfl, rfl⟩ := judgeMatching_confirm hv.symm
  have hfind : (d.paymentIntents.find (fun j => j.confirmedTxHash = some txHash)).any (fun j => j.id ≠ i.id) = false := by
    rcases hstatus with hs | hs <;> simpa [judgeMatching, hs] using hv.symm
  rw [Bool.eq_false_iff]
  intro htaken
  simp only [isTxHashTaken, Option.isSome_some, Bool.true_and] at htaken
  obtain ⟨j, hj⟩ := Option.isSome_iff_exists.mp htaken
  have hmem := Table.mem_of_find hj
  have hp := Table.find_holds hj
  simp only [Bool.and_eq_true, decide_eq_true_eq] at hp
  cases hf : d.paymentIntents.find (fun j => j.confirmedTxHash = some txHash) with
  | none => simpa [hp.1] using Table.find_eq_none.mp hf j hmem
  | some k =>
    have hkh := Table.find_holds hf
    have hkj : k = j := hd.confirmedTxHash k (Table.mem_of_find hf) j hmem txHash (by simpa using hkh) hp.1
    rw [hf, Option.any_some, hkj] at hfind
    simp [hp.2] at hfind

def addAttempt (d : Db) (a : WebhookProcessingAttempt) : Db :=
  { d with webhookProcessingAttempts := d.webhookProcessingAttempts ++ [a] }

def settle (d : Db) (id : Uuid) (p : WebhookEventPatch) (a : WebhookProcessingAttempt) : Db :=
  { d with
    webhookEvents := d.webhookEvents.update id p.change
    webhookProcessingAttempts := d.webhookProcessingAttempts ++ [a] }

def confirmIntent (d : Db) (id : Uuid) (p : PaymentIntentPatch) : Db :=
  { d with paymentIntents := d.paymentIntents.update id p.change }

variable (input : ProcessWebhookEventInput) (clock : Clock)

def failedPatch (reason : ProcessingFailureReason) : WebhookEventPatch :=
  ⟨.failed, some reason.text, some clock.processedAt⟩

def processedPatch : WebhookEventPatch := ⟨.processed, none, some clock.processedAt⟩

theorem settle_processing (d : Db) (id : Uuid) (p q : WebhookEventPatch) (a : WebhookProcessingAttempt) :
    settle (d.apply (.saveWebhookEvent id p)) id q a = settle d id q a := by
  have hpatch (e : WebhookEvent) : q.change.apply (p.change.apply e) = q.change.apply e := rfl
  simp only [settle, Db.apply]
  rw [Table.update_update hpatch]

theorem view_fail (d : Db) (id : Uuid) (reason : ProcessingFailureReason) :
    engine.view d (.saveWebhookEvent id ⟨.processing, none, none⟩ :: (Verdict.fail reason).writes input clock id) =
      settle d id (failedPatch clock reason) (attempt input clock id .failed (some reason.text)) :=
  settle_processing d id ⟨.processing, none, none⟩ (failedPatch clock reason) _

theorem view_confirmedBefore (d : Db) (id : Uuid) :
    engine.view d (.saveWebhookEvent id ⟨.processing, none, none⟩ :: Verdict.confirmedBefore.writes input clock id) =
      settle d id (processedPatch clock) (attempt input clock id .succeeded none) :=
  settle_processing d id ⟨.processing, none, none⟩ (processedPatch clock) _

theorem view_confirm (d : Db) (id intentId : Uuid) (txHash : Text) :
    engine.view d (.saveWebhookEvent id ⟨.processing, none, none⟩ ::
        (Verdict.confirm intentId txHash).writes input clock id) =
      settle (confirmIntent d intentId (confirmation clock txHash)) id (processedPatch clock)
        (attempt input clock id .succeeded none) :=
  settle_processing (confirmIntent d intentId (confirmation clock txHash)) id ⟨.processing, none, none⟩
    (processedPatch clock) _

inductive Settles (d : Db) (e : WebhookEvent) : ProcessingResult → Db → Prop
  | alreadyProcessed (hs : e.status = .processed) :
      Settles d e .alreadyProcessed (addAttempt d (attempt input clock e.id .succeeded none))
  | alreadyFailed (hs : e.status = .failed) :
      Settles d e (.alreadyFailed e.failureReason) (addAttempt d (attempt input clock e.id .failed e.failureReason))
  | failed (reason : ProcessingFailureReason) (hs : e.isFinal = false) :
      Settles d e (.failed reason)
        (settle d e.id (failedPatch clock reason) (attempt input clock e.id .failed (some reason.text)))
  | confirmedBefore (i : PaymentIntent) (txHash : Text) (hs : e.isFinal = false) (hi : i ∈ d.paymentIntents)
      (hm : Matches e i txHash) (hstatus : i.status = .confirmed)
      (hh : i.confirmedTxHash.map normalizeTxHash = some txHash) :
      Settles d e .processed (settle d e.id (processedPatch clock) (attempt input clock e.id .succeeded none))
  | confirmed (i : PaymentIntent) (txHash : Text) (hs : e.isFinal = false) (hi : i ∈ d.paymentIntents)
      (hm : Matches e i txHash) (hstatus : i.status = .created ∨ i.status = .processing)
      (hfree : isTxHashTaken d (some txHash) i.id = false) :
      Settles d e .processed (settle (confirmIntent d i.id (confirmation clock txHash)) e.id (processedPatch clock)
        (attempt input clock e.id .succeeded none))

variable {input clock}

theorem Processed.settles {d d' : Db} {e : WebhookEvent} {r : ProcessingResult}
    (h : Processed input clock d e r d') : Settles input clock d e r d' := by
  cases h with
  | alreadyProcessed hs _ => exact .alreadyProcessed hs
  | alreadyFailed hs _ => exact .alreadyFailed hs
  | judged v hs hj ha =>
    cases v with
    | fail reason =>
      rw [view_fail]
      exact .failed reason hs
    | confirmedBefore =>
      obtain ⟨i, hi, txHash, hm, hv⟩ := judge_matching hj (by simp)
      obtain ⟨hstatus, hh⟩ := judgeMatching_confirmedBefore hv.symm
      rw [view_confirmedBefore]
      exact .confirmedBefore i txHash hs hi hm hstatus hh
    | confirm id h =>
      obtain ⟨i, hi, txHash, hm, hv⟩ := judge_matching hj (by simp)
      obtain ⟨hstatus, rfl, rfl⟩ := judgeMatching_confirm hv.symm
      have hfree : isTxHashTaken d (some h) i.id = false := by
        simp only [Verdict.admissible, Bool.and_eq_true, Bool.not_eq_true'] at ha
        exact ha.1.2
      rw [view_confirm]
      exact .confirmed i h hs hi hm hstatus hfree

theorem indexes_settle {d : Db} (h : d.Indexes) (id : Uuid) (p : WebhookEventPatch) (a : WebhookProcessingAttempt) :
    (settle d id p a).Indexes :=
  (h.saveWebhookEvent id p).insertAttempt a

theorem evolves_settle {d : Db} {e : WebhookEvent} {p : WebhookEventPatch} {a : WebhookProcessingAttempt}
    (he : d.webhookEvents.get e.id = some e) (hs : e.isFinal = false) (hp : p.status ≠ .received) :
    d.Evolves (settle d e.id p a) := by
  have hsaved : d.Evolves (d.apply (.saveWebhookEvent e.id p)) := by
    apply Db.Evolves.saveWebhookEvent hp
    intro f hf
    rw [he] at hf
    rw [← Option.some.inj hf, hs]
  exact hsaved.trans Db.Evolves.insertAttempt

theorem Settles.indexes {d d' : Db} {e : WebhookEvent} {r : ProcessingResult} (h : Settles input clock d e r d')
    (hd : d.Indexes) : d'.Indexes := by
  cases h with
  | alreadyProcessed hs => exact hd.insertAttempt _
  | alreadyFailed hs => exact hd.insertAttempt _
  | failed reason hs => exact indexes_settle hd _ _ _
  | confirmedBefore i txHash hs hi hm hstatus hh => exact indexes_settle hd _ _ _
  | confirmed i txHash hs hi hm hstatus hfree =>
    have hconfirm : (confirmIntent d i.id (confirmation clock txHash)).Indexes :=
      hd.savePaymentIntent i.id (confirmation clock txHash) rfl hfree
    exact indexes_settle hconfirm _ _ _

theorem Settles.evolves {d d' : Db} {e : WebhookEvent} {r : ProcessingResult} (h : Settles input clock d e r d')
    (he : d.webhookEvents.get e.id = some e) : d.Evolves d' := by
  cases h with
  | alreadyProcessed hs => exact Db.Evolves.insertAttempt
  | alreadyFailed hs => exact Db.Evolves.insertAttempt
  | failed reason hs => exact evolves_settle he hs (by simp [failedPatch])
  | confirmedBefore i txHash hs hi hm hstatus hh => exact evolves_settle he hs (by simp [processedPatch])
  | confirmed i txHash hs hi hm hstatus hfree =>
    have hconfirm : d.Evolves (confirmIntent d i.id (confirmation clock txHash)) := by
      apply Db.Evolves.savePaymentIntent
      intro j hj
      rw [Table.eq_of_key (Table.mem_of_get hj) hi (Table.key_of_get hj)]
      exact hstatus
    exact hconfirm.trans (evolves_settle he hs (by simp [processedPatch]))

end EventGateway.WebhookEventProcessor
