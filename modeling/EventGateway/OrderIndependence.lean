import EventGateway.ConfirmationSafety
import EventGateway.Ledger
import EventGateway.Reordering

namespace EventGateway

open KeyedTable TransactionProgram Interleaving Reordering TxHash
open WebhookEventProcessor (Verdict ProcessWebhookEventInput Clock)

namespace WebhookEvent

def normalizedTxHash (e : WebhookEvent) : Option Text := (e.payload.text "txHash").map normalizeTxHash

inductive Related (e f : WebhookEvent) : Prop
  | paymentIntentId (id : Uuid) (he : e.paymentIntentId = some id) (hf : f.paymentIntentId = some id)
  | txHash (h : Text) (he : e.normalizedTxHash = some h) (hf : f.normalizedTxHash = some h)

theorem Related.symm {e f : WebhookEvent} (h : e.Related f) : f.Related e := by
  cases h with
  | paymentIntentId id he hf => exact .paymentIntentId id hf he
  | txHash x he hf => exact .txHash x hf he

end WebhookEvent

namespace Ledger

def HashesConfirmed (L : Ledger) : Prop :=
  ∀ k i, L.intents k = some i → i.confirmedTxHash.isSome = true → i.status = .confirmed

variable {L : Ledger}

theorem judge_confirm {e : WebhookEvent} {k : Uuid} {txHash : Text} (h : L.judge e = .ok (.confirm k txHash)) :
    e.paymentIntentId = some k ∧ e.normalizedTxHash = some txHash ∧ ∀ i, L.intents k = some i → i.status ≠ .confirmed := by
  unfold judge at h
  split_ifs at h with htype
  · cases h
  split at h
  · cases h
  rename_i hash htx
  split_ifs at h with hblank
  · cases h
  split at h
  · cases h
  rename_i id hid
  unfold judgeIntent at h
  split at h
  · cases h
  rename_i i hi
  split at h
  · cases h
  · cases h
  unfold judgeMatching at h
  have hnorm : e.normalizedTxHash = some (normalizeTxHash hash) := by rw [WebhookEvent.normalizedTxHash, htx]; rfl
  have hstatus (hs : i.status ≠ .confirmed) (j : PaymentIntent) (hj : L.intents id = some j) : j.status ≠ .confirmed := by
    rw [hi] at hj
    exact Option.some.inj hj ▸ hs
  split at h
  · split_ifs at h <;> cases h
  · cases h
  · cases h
  · rename_i hs
    split_ifs at h
    · cases h
    · cases h
      exact ⟨hid, hnorm, hstatus (by simp [hs])⟩
  · rename_i hs
    split_ifs at h
    · cases h
    · cases h
      exact ⟨hid, hnorm, hstatus (by simp [hs])⟩

theorem intents_settle_of_ne (id : Uuid) (e : WebhookEvent) {v : Verdict} {k : Uuid} (h : ∀ txHash, v ≠ .confirm k txHash) :
    (L.settle id e v).intents k = L.intents k := by
  cases v with
  | fail reason => rfl
  | confirmedBefore => rfl
  | confirm j txHash =>
    apply Function.update_of_ne
    rintro rfl
    exact h txHash rfl

theorem intents_settle_self (id : Uuid) (e : WebhookEvent) (k : Uuid) (txHash : Text) :
    (L.settle id e (.confirm k txHash)).intents k = (L.intents k).map (confirmed txHash) := Function.update_self _ _ _

theorem hashesConfirmed_settle (h : L.HashesConfirmed) (id : Uuid) (e : WebhookEvent) (v : Verdict) :
    (L.settle id e v).HashesConfirmed := by
  intro k i hi hsome
  by_cases hk : ∃ txHash, v = .confirm k txHash
  · obtain ⟨txHash, rfl⟩ := hk
    rw [intents_settle_self] at hi
    obtain ⟨j, -, rfl⟩ := Option.map_eq_some_iff.mp hi
    rfl
  · rw [intents_settle_of_ne id e (fun txHash he => hk ⟨txHash, he⟩)] at hi
    exact h k i hi hsome

theorem taken_settle (h : L.HashesConfirmed) {id : Uuid} {e : WebhookEvent} {v : Verdict} (hv : L.judge e = .ok v)
    {txHash : Text} (hne : e.normalizedTxHash ≠ some txHash) (k : Uuid) :
    (L.settle id e v).Taken txHash k ↔ L.Taken txHash k := by
  -- a confirmation with another transaction neither takes nor frees this one: the intent it confirms held
  -- none
  constructor
  · rintro ⟨j, i, hi, hh, hj⟩
    by_cases hc : ∃ x, v = .confirm j x
    · obtain ⟨x, rfl⟩ := hc
      obtain ⟨-, hx, -⟩ := judge_confirm hv
      rw [intents_settle_self] at hi
      obtain ⟨i₀, -, rfl⟩ := Option.map_eq_some_iff.mp hi
      obtain rfl : x = txHash := Option.some.inj hh
      exact absurd hx hne
    · rw [intents_settle_of_ne id e (fun x hx => hc ⟨x, hx⟩)] at hi
      exact ⟨j, i, hi, hh, hj⟩
  · rintro ⟨j, i, hi, hh, hj⟩
    refine ⟨j, i, ?_, hh, hj⟩
    rw [intents_settle_of_ne id e, hi]
    rintro x rfl
    obtain ⟨-, -, hs⟩ := judge_confirm hv
    exact hs i hi (h j i hi (by rw [hh]; rfl))

theorem judgeMatching_congr {L' : Ledger} {txHash : Text} {k : Uuid} (h : L'.Taken txHash k ↔ L.Taken txHash k)
    (i : PaymentIntent) : L'.judgeMatching k i txHash = L.judgeMatching k i txHash := by
  unfold judgeMatching
  cases i.status with
  | confirmed | failed | expired => rfl
  | created | processing =>
    simp only
    by_cases ht : L.Taken txHash k
    · rw [if_pos ht, if_pos (h.mpr ht)]
    · rw [if_neg ht, if_neg (fun h' => ht (h.mp h'))]

theorem judge_settle (h : L.HashesConfirmed) {id : Uuid} {e f : WebhookEvent} {v : Verdict} (hv : L.judge e = .ok v)
    (hu : ¬ e.Related f) : (L.settle id e v).judge f = L.judge f := by
  unfold judge
  split_ifs with htype
  · rfl
  cases htx : f.payload.text "txHash" with
  | none => rfl
  | some hash =>
    simp only
    split_ifs with hblank
    · rfl
    cases hk : f.paymentIntentId with
    | none => rfl
    | some k =>
      have hne : e.normalizedTxHash ≠ some (normalizeTxHash hash) := by
        intro he
        refine hu (.txHash _ he ?_)
        rw [WebhookEvent.normalizedTxHash, htx]
        rfl
      have hintent : (L.settle id e v).intents k = L.intents k := by
        apply intents_settle_of_ne
        rintro x rfl
        exact hu (.paymentIntentId k (judge_confirm hv).1 hk)
      simp only [judgeIntent, hintent, judgeMatching_congr (taken_settle h hv hne k)]

variable {inTime inTime' : Bool} {a b : Uuid}

theorem decision_eq_some {e : WebhookEvent} {v : Verdict} (h : L.decision inTime a = some (e, v)) :
    L.events a = some e ∧ L.judge e = .ok v := by
  unfold decision at h
  split at h
  · cases h
  rename_i e' he
  split_ifs at h
  split at h
  · cases h
  rename_i v' hv
  split_ifs at h
  cases h
  exact ⟨he, hv⟩

theorem decision_settle (h : L.HashesConfirmed) {e : WebhookEvent} {v : Verdict} (hd : L.decision inTime a = some (e, v))
    (hab : a ≠ b) (hu : ∀ f, L.events b = some f → ¬ e.Related f) :
    (L.settle a e v).decision inTime' b = L.decision inTime' b := by
  have hevents : (L.settle a e v).events b = L.events b := Function.update_of_ne hab.symm _ _
  unfold decision
  rw [hevents]
  cases hf : L.events b with
  | none => rfl
  | some f => simp only [judge_settle h (decision_eq_some hd).2 (hu f hf)]

theorem settle_comm {e f : WebhookEvent} {v w : Verdict} (hab : a ≠ b)
    (hk : ∀ k x y, v = .confirm k x → w ≠ .confirm k y) :
    (L.settle a e v).settle b f w = (L.settle b f w).settle a e v := by
  have hevents : (Function.update (Function.update L.events a (some (settled e v))) b (some (settled f w))) =
      Function.update (Function.update L.events b (some (settled f w))) a (some (settled e v)) :=
    Function.update_comm hab _ _ _
  cases v with
  | fail r => exact congrArg (Ledger.mk _) hevents
  | confirmedBefore => exact congrArg (Ledger.mk _) hevents
  | confirm k x =>
    cases w with
    | fail r => exact congrArg (Ledger.mk _) hevents
    | confirmedBefore => exact congrArg (Ledger.mk _) hevents
    | confirm j y =>
      have hkj : k ≠ j := by
        rintro rfl
        exact hk k x y rfl rfl
      simp only [settle, hevents, Function.update_of_ne hkj, Function.update_of_ne hkj.symm]
      rw [Function.update_comm hkj]

theorem process_comm (h : L.HashesConfirmed) (hab : a ≠ b)
    (hu : ∀ e f, L.events a = some e → L.events b = some f → ¬ e.Related f) :
    (L.process inTime a).process inTime' b = (L.process inTime' b).process inTime a := by
  unfold process
  cases hda : L.decision inTime a with
  | none =>
    cases hdb : L.decision inTime' b with
    | none => simp only [carryOut, hda, hdb]
    | some p =>
      obtain ⟨f, w⟩ := p
      have hf := (decision_eq_some hdb).1
      have hkeep : (L.settle b f w).decision inTime a = L.decision inTime a :=
        decision_settle h hdb hab.symm (fun e he hr => hu e f he hf hr.symm)
      simp only [carryOut, hdb, hkeep, hda]
  | some p =>
    obtain ⟨e, v⟩ := p
    obtain ⟨he, hv⟩ := decision_eq_some hda
    have hkeep : (L.settle a e v).decision inTime' b = L.decision inTime' b :=
      decision_settle h hda hab (fun f hf => hu e f he hf)
    cases hdb : L.decision inTime' b with
    | none => simp only [carryOut, hda, hkeep, hdb]
    | some p =>
      obtain ⟨f, w⟩ := p
      obtain ⟨hf, hw⟩ := decision_eq_some hdb
      have hkeep' : (L.settle b f w).decision inTime a = L.decision inTime a :=
        decision_settle h hdb hab.symm (fun e he hr => hu e f he hf hr.symm)
      simp only [carryOut, hkeep, hkeep', hda, hdb]
      apply settle_comm hab
      rintro k x y rfl rfl
      exact hu e f he hf (.paymentIntentId k (judge_confirm hv).1 (judge_confirm hw).1)

def SamePayloads (L₀ L : Ledger) : Prop :=
  ∀ id, (L.events id).map (fun e => (e.paymentIntentId, e.payload)) =
    (L₀.events id).map (fun e => (e.paymentIntentId, e.payload))

theorem samePayloads_process {L₀ : Ledger} (h : L₀.SamePayloads L) (inTime : Bool) (id : Uuid) :
    L₀.SamePayloads (L.process inTime id) := by
  unfold process
  cases hd : L.decision inTime id with
  | none => exact h
  | some p =>
    obtain ⟨e, v⟩ := p
    intro k
    by_cases hk : k = id
    · subst hk
      have hself : (L.settle k e v).events k = some (settled e v) := Function.update_self _ _ _
      have hkeep : (some (settled e v)).map (fun e => (e.paymentIntentId, e.payload)) =
          (some e).map (fun e => (e.paymentIntentId, e.payload)) := by
        cases v <;> rfl
      rw [carryOut, hself, hkeep, ← h k, (decision_eq_some hd).1]
    · have hother : (L.settle id e v).events k = L.events k := Function.update_of_ne hk _ _
      rw [carryOut, hother, h k]

theorem hashesConfirmed_process (h : L.HashesConfirmed) (inTime : Bool) (id : Uuid) :
    (L.process inTime id).HashesConfirmed := by
  unfold process
  cases L.decision inTime id with
  | none => exact h
  | some p => exact hashesConfirmed_settle h id p.1 p.2

theorem related_of_samePayloads {L₀ : Ledger} (h : L₀.SamePayloads L) {e f : WebhookEvent} (he : L.events a = some e)
    (hf : L.events b = some f) (hr : e.Related f) : ∃ e₀ f₀, L₀.events a = some e₀ ∧ L₀.events b = some f₀ ∧ e₀.Related f₀ := by
  have hold {k : Uuid} {x : WebhookEvent} (hx : L.events k = some x) : ∃ x₀, L₀.events k = some x₀ ∧
      x₀.paymentIntentId = x.paymentIntentId ∧ x₀.normalizedTxHash = x.normalizedTxHash := by
    have hk := h k
    rw [hx, Option.map_some] at hk
    obtain ⟨x₀, hx₀, hpair⟩ := Option.map_eq_some_iff.mp hk.symm
    obtain ⟨hintent, hpayload⟩ := Prod.mk.inj hpair
    exact ⟨x₀, hx₀, hintent, by rw [WebhookEvent.normalizedTxHash, hpayload]; rfl⟩
  obtain ⟨e₀, he₀, hei, heh⟩ := hold he
  obtain ⟨f₀, hf₀, hfi, hfh⟩ := hold hf
  refine ⟨e₀, f₀, he₀, hf₀, ?_⟩
  cases hr with
  | paymentIntentId id hi hj => exact .paymentIntentId id (hei.trans hi) (hfi.trans hj)
  | txHash x hi hj => exact .txHash x (heh.trans hi) (hfh.trans hj)

theorem perform_process_eq {L : Ledger} (h : L.HashesConfirmed) (inTime : Uuid → Bool) {xs ys : List Uuid}
    (hperm : xs.Perm ys) (hnodup : xs.Nodup)
    (horder : ∀ a b e f, L.events a = some e → L.events b = some f → e.Related f → (Before xs a b ↔ Before ys a b)) :
    perform (fun id L => L.process (inTime id) id) xs L = perform (fun id L => L.process (inTime id) id) ys L := by
  have hgood (L' : Ledger) (a : Uuid) (hL' : L'.HashesConfirmed ∧ L.SamePayloads L') :
      (L'.process (inTime a) a).HashesConfirmed ∧ L.SamePayloads (L'.process (inTime a) a) :=
    ⟨hashesConfirmed_process hL'.1 _ a, samePayloads_process hL'.2 _ a⟩
  have hcomm (L' : Ledger) (a b : Uuid) (hL' : L'.HashesConfirmed ∧ L.SamePayloads L') (hab : a ≠ b)
      (hdep : ¬ ∃ e f, L.events a = some e ∧ L.events b = some f ∧ e.Related f) :
      (L'.process (inTime a) a).process (inTime b) b = (L'.process (inTime b) b).process (inTime a) a := by
    apply process_comm hL'.1 hab
    intro e f he hf hr
    exact hdep (related_of_samePayloads hL'.2 he hf hr)
  apply perform_eq_of_order hgood hcomm ⟨h, fun _ => rfl⟩ hperm hnodup
  rintro a b ⟨e, f, he, hf, hr⟩
  exact horder a b e f he hf hr

end Ledger

theorem hashesConfirmed_ofDb {d : Db} (h : ConfirmationInv d) : (Ledger.ofDb d).HashesConfirmed := by
  intro k i hi hsome
  obtain ⟨j, hj, rfl⟩ := Option.map_eq_some_iff.mp hi
  rcases h.intents j (Table.mem_of_get hj) with ⟨-, hnone⟩ | ⟨e, -, hc⟩
  · have hnone' : j.timeless.confirmedTxHash = none := hnone
    rw [hnone'] at hsome
    cases hsome
  · exact hc.confirmed

def processAll (rt : Runtime) (input : Uuid → ProcessWebhookEventInput) (clock : Uuid → Clock) (d : Db) (order : List Uuid) :
    Db :=
  SerialStep.performAll rt d (order.map (fun id => .finished (.processWebhookEvent (input id) (clock id))))

theorem ofDb_processAll {rt : Runtime} {input : Uuid → ProcessWebhookEventInput} {clock : Uuid → Clock} {d : Db}
    (hd : d.Indexes) {inTime : Uuid → Bool} {order : List Uuid}
    (hinput : ∀ id ∈ order, Uuid.parse (input id).webhookEventId = some id)
    (htime : ∀ id ∈ order, ((clock id).startedAt ≤ (clock id).finishedAt ↔ inTime id = true)) :
    Ledger.ofDb (processAll rt input clock d order) = perform (fun id L => L.process (inTime id) id) order (Ledger.ofDb d) := by
  induction order generalizing d with
  | nil => rfl
  | cons id order ih =>
    have hstep : Ledger.ofDb ((SerialStep.finished (.processWebhookEvent (input id) (clock id))).perform rt d) =
        (Ledger.ofDb d).process (inTime id) id := by
      have hin : decide ((clock id).startedAt ≤ (clock id).finishedAt) = inTime id := by
        rw [Bool.eq_iff_iff, decide_eq_true_eq]
        exact htime id List.mem_cons_self
      rw [← hin, ← ofDb_process hd (hinput id List.mem_cons_self)]
      exact congrArg (fun o => Ledger.ofDb (Outcome.db o)) (Engine.exec_bind_ret _ _ _ _)
    rw [perform_cons, ← hstep]
    exact ih (SerialStep.indexes_perform hd _) (fun k hk => hinput k (List.mem_cons_of_mem id hk))
      (fun k hk => htime k (List.mem_cons_of_mem id hk))

section Orders

variable {ι : Type} [DecidableEq ι] {rt : Runtime} {req : ι → Request}

structure SameResults (d d' : Db) : Prop where
  webhookEvents : ∀ id, (d.webhookEvents.get id).map (fun e => (e.status, e.failureReason)) =
    (d'.webhookEvents.get id).map (fun e => (e.status, e.failureReason))
  paymentIntents : ∀ id, (d.paymentIntents.get id).map (fun i => (i.status, i.confirmedTxHash)) =
    (d'.paymentIntents.get id).map (fun i => (i.status, i.confirmedTxHash))

theorem sameResults_of_ofDb {d d' : Db} (h : Ledger.ofDb d = Ledger.ofDb d') : SameResults d d' := by
  obtain ⟨hintents, hevents⟩ := Ledger.mk.inj h
  constructor
  · intro id
    have hid := congrArg (Option.map (fun e : WebhookEvent => (e.status, e.failureReason))) (congrFun hevents id)
    rw [Option.map_map, Option.map_map] at hid
    exact hid
  · intro id
    have hid := congrArg (Option.map (fun i : PaymentIntent => (i.status, i.confirmedTxHash))) (congrFun hintents id)
    rw [Option.map_map, Option.map_map] at hid
    exact hid

theorem order_independence {ls : List (Label ι)} {σ : SystemState ι} (h : runs rt req (State.init Db.empty) ls = some σ)
    {xs ys : List Uuid} (hperm : xs.Perm ys) (hnodup : xs.Nodup)
    (horder : ∀ e ∈ σ.world.db.webhookEvents, ∀ f ∈ σ.world.db.webhookEvents, e.Related f →
      (Before xs e.id f.id ↔ Before ys e.id f.id))
    {input input' : Uuid → ProcessWebhookEventInput} {clock clock' : Uuid → Clock}
    (hinput : ∀ id ∈ xs, Uuid.parse (input id).webhookEventId = some id)
    (hinput' : ∀ id ∈ xs, Uuid.parse (input' id).webhookEventId = some id)
    (hclock : ∀ id ∈ xs, (clock id).startedAt ≤ (clock id).finishedAt ↔ (clock' id).startedAt ≤ (clock' id).finishedAt) :
    SameResults (processAll rt input clock σ.world.db xs) (processAll rt input' clock' σ.world.db ys) := by
  have hd := reachable_indexes h
  have hrow {k : Uuid} {e : WebhookEvent} (he : (Ledger.ofDb σ.world.db).events k = some e) :
      ∃ e₀ ∈ σ.world.db.webhookEvents, e₀.id = k ∧ e = e₀.timeless := by
    obtain ⟨e₀, he₀, rfl⟩ := Option.map_eq_some_iff.mp he
    exact ⟨e₀, Table.mem_of_get he₀, Table.key_of_get he₀, rfl⟩
  let inTime (id : Uuid) : Bool := decide ((clock id).startedAt ≤ (clock id).finishedAt)
  have hxs : Ledger.ofDb (processAll rt input clock σ.world.db xs) =
      perform (fun id L => L.process (inTime id) id) xs (Ledger.ofDb σ.world.db) :=
    ofDb_processAll hd hinput (fun id _ => decide_eq_true_iff.symm)
  have hys : Ledger.ofDb (processAll rt input' clock' σ.world.db ys) =
      perform (fun id L => L.process (inTime id) id) ys (Ledger.ofDb σ.world.db) :=
    ofDb_processAll hd (fun id hid => hinput' id (hperm.mem_iff.mpr hid))
      (fun id hid => (hclock id (hperm.mem_iff.mpr hid)).symm.trans decide_eq_true_iff.symm)
  apply sameResults_of_ofDb
  rw [hxs, hys]
  apply Ledger.perform_process_eq (hashesConfirmed_ofDb (reachable_confirmationInv h)) inTime hperm hnodup
  intro a b e f he hf hr
  obtain ⟨e₀, he₀, rfl, rfl⟩ := hrow he
  obtain ⟨f₀, hf₀, rfl, rfl⟩ := hrow hf
  apply horder e₀ he₀ f₀ hf₀
  cases hr with
  | paymentIntentId id hi hj => exact .paymentIntentId id hi hj
  | txHash x hi hj => exact .txHash x hi hj

end Orders

namespace Sample

def otherIntentId : Uuid := 0x00000000000040008000000000000005

def otherEventId : Uuid := 0x00000000000040008000000000000006

def otherBody : Json :=
  .obj [("eventId".toList, .str "evt-2".toList), ("type".toList, .str "transaction.confirmed".toList),
    ("paymentIntentId".toList, .str otherIntentId.render),
    ("txHash".toList, .str "0xABC2".toList), ("amount".toList, .str "25.5".toList), ("asset".toList, .str "USDC".toList)]

def otherRawBody : Bytes := WebhookSecurity.utf8 (CanonicalJson.stringify runtime otherBody)

def ordersRuntime : Runtime where
  numberToString := runtime.numberToString
  toISOString := runtime.toISOString
  sha256Hex text :=
    if text = "\x7b\"amount\":\"25.5\",\"asset\":\"USDC\",\"eventId\":\"evt-2\",".toList ++
        "\"paymentIntentId\":\"00000000-0000-4000-8000-000000000005\",\"txHash\":\"0xabc2\",".toList ++
        "\"type\":\"transaction.confirmed\"\x7d".toList then
      "1fd15dfbafc735c5fd5e2c7bf6d13a1a2fe607b1b98641c3003a66e411ed635e".toList
    else runtime.sha256Hex text
  hmacSha256Hex secret message :=
    if message = WebhookSecurity.signedMessage "1767225600".toList "nonce-2".toList otherRawBody then
      "25a9ff24ad7fb0e3d57cd586d7f46224e80c2b4b6314fcf3182a03385ae63bb4".toList
    else runtime.hmacSha256Hex secret message

def otherWebhook : WebhookEvents.AcceptBlockchainWebhookRequest where
  headers := ⟨some "application/json".toList, some "1767225600".toList, some "nonce-2".toList,
    some "v1=25a9ff24ad7fb0e3d57cd586d7f46224e80c2b4b6314fcf3182a03385ae63bb4".toList⟩
  rawBody := otherRawBody
  body := otherBody

def twoEvents : Fin 3 → Request
  | 0 => create
  | 1 => accept
  | 2 => .acceptBlockchainWebhook ⟨some "secret".toList, 300⟩ otherWebhook
    ⟨time, time, time, otherEventId, 0x00000000000040008000000000000007, none⟩

def twoEventsLabels : List (Label (Fin 3)) := completesThree 4 2 2

def job (id : Uuid) : ProcessWebhookEventInput := ⟨id.render, none⟩

def clock (_ : Uuid) : Clock := ⟨time, time, time, time⟩

theorem not_related_twoEvents {d : Db}
    (hrows : d.webhookEvents.rows.map (fun e => (e.id, e.paymentIntentId, e.normalizedTxHash)) =
      [(eventId, some intentId, some "0xabc1".toList), (otherEventId, some otherIntentId, some "0xabc2".toList)])
    {e f : WebhookEvent} (he : e ∈ d.webhookEvents) (hf : f ∈ d.webhookEvents) (hr : e.Related f) : e.id = f.id := by
  have hcases {x : WebhookEvent} (hx : x ∈ d.webhookEvents) :
      (x.id = eventId ∧ x.paymentIntentId = some intentId ∧ x.normalizedTxHash = some "0xabc1".toList) ∨
      (x.id = otherEventId ∧ x.paymentIntentId = some otherIntentId ∧ x.normalizedTxHash = some "0xabc2".toList) := by
    have hmem := List.mem_map_of_mem (f := fun e : WebhookEvent => (e.id, e.paymentIntentId, e.normalizedTxHash)) hx
    rw [hrows] at hmem
    simpa using hmem
  have hintents : (some intentId : Option Uuid) ≠ some otherIntentId := by decide
  have hhashes : (some "0xabc1".toList : Option Text) ≠ some "0xabc2".toList := by decide
  rcases hcases he with ⟨hi, hp, hh⟩ | ⟨hi, hp, hh⟩ <;> rcases hcases hf with ⟨hi', hp', hh'⟩ | ⟨hi', hp', hh'⟩
  · rw [hi, hi']
  · cases hr with
    | paymentIntentId id h h' => exact absurd (hp.symm.trans (h.trans (h'.symm.trans hp'))) hintents
    | txHash x h h' => exact absurd (hh.symm.trans (h.trans (h'.symm.trans hh'))) hhashes
  · cases hr with
    | paymentIntentId id h h' => exact absurd (hp'.symm.trans (h'.trans (h.symm.trans hp))) hintents
    | txHash x h h' => exact absurd (hh'.symm.trans (h'.trans (h.symm.trans hh))) hhashes
  · rw [hi, hi']

end Sample

theorem order_independence_sample : ∃ σ : SystemState (Fin 3),
    runs Sample.ordersRuntime Sample.twoEvents (State.init Db.empty) Sample.twoEventsLabels = some σ ∧
      (processAll Sample.ordersRuntime Sample.job Sample.clock σ.world.db
        [Sample.eventId, Sample.otherEventId]).webhookEvents.rows.map (fun e => e.status) = [.processed, .failed] ∧
      SameResults (processAll Sample.ordersRuntime Sample.job Sample.clock σ.world.db [Sample.eventId, Sample.otherEventId])
        (processAll Sample.ordersRuntime Sample.job Sample.clock σ.world.db [Sample.otherEventId, Sample.eventId]) := by
  have hrun : (runs Sample.ordersRuntime Sample.twoEvents (State.init Db.empty) Sample.twoEventsLabels).any (fun σ =>
      decide (σ.world.db.webhookEvents.rows.map (fun e => (e.id, e.paymentIntentId, e.normalizedTxHash)) =
        [(Sample.eventId, some Sample.intentId, some "0xabc1".toList),
          (Sample.otherEventId, some Sample.otherIntentId, some "0xabc2".toList)]) &&
      decide ((processAll Sample.ordersRuntime Sample.job Sample.clock σ.world.db
        [Sample.eventId, Sample.otherEventId]).webhookEvents.rows.map (fun e => e.status) = [.processed, .failed])) = true := by
    decide +kernel
  obtain ⟨σ, hσ, hchecks⟩ := (Option.any_eq_true _ _).mp hrun
  rw [Bool.and_eq_true, decide_eq_true_eq, decide_eq_true_eq] at hchecks
  refine ⟨σ, hσ, hchecks.2, ?_⟩
  apply order_independence hσ (List.Perm.swap _ _ _) (by decide)
  · intro e he f hf hr
    have hself (order : List Uuid) (hnodup : order.Nodup) : ¬ Before order f.id f.id := by
      intro h
      have hpair := hnodup.sublist h
      simp at hpair
    rw [Sample.not_related_twoEvents hchecks.1 he hf hr]
    exact ⟨fun h => absurd h (hself _ (by decide)), fun h => absurd h (hself _ (by decide))⟩
  · exact fun id _ => Uuid.parse_render id
  · exact fun id _ => Uuid.parse_render id
  · exact fun id _ => Iff.rfl

end EventGateway
