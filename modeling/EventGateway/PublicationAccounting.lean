import EventGateway.JobTally
import EventGateway.OutboxDelivery
import EventGateway.SessionInvariants

namespace EventGateway

open KeyedTable TransactionProgram Interleaving RelyGuarantee Statements
open OutboxDispatcher

namespace Write

def publishes (id : Uuid) : Write → Bool
  | .updateOutboxEvent j (.published _) _ => j = id
  | _ => false

def requeues (id : Uuid) : Write → Bool
  | .updateOutboxEvent j (.requeued _ _) _ => j = id
  | _ => false

def updates (id : Uuid) : Write → Bool
  | .updateOutboxEvent j _ _ => j = id
  | _ => false

end Write

def JobData.isFor (k : Uuid) (data : JobData) : Bool := data.webhookEventId = k.render

def Announces (id k : Uuid) (o : OutboxEvent) : Prop :=
  (∃ c, toJobData o = .ok ⟨o.aggregateId.render, c⟩) ∧ (o.aggregateId = k ↔ o.id = id)

section Tallies

variable {id k : Uuid} {ws : List Write} {n : ℕ}

def Accounted {α : Type} (id : Uuid) (_ : α) (ws : List Write) (n : ℕ) : Prop :=
  ws.countP (Write.publishes id) = n ∧ ws.countP (Write.updates id) ≤ 1

theorem tally_update {α : Type} {Q : α → List Write → ℕ → Prop} {X : Failure → List Write → ℕ → Prop} {Good : Db → Prop}
    {o : Uuid} {p : OutboxEventPatch} {now : Time} {f : Unit → Script α}
    (h : Tally engine Good (JobData.isFor k) Q X (f ()) (ws ++ [.updateOutboxEvent o p now]) n) :
    Tally engine Good (JobData.isFor k) Q X (query (.updateOutboxEvent o p now) >>= f) ws n := by
  apply tally_call
  · intro d held a ws' ls _ he
    cases he
    exact h
  · intro d held e _ he
    cases he

theorem countP_isFor {o : OutboxEvent} (h : Announces id k o) (c : Option Text) :
    [(⟨o.aggregateId.render, c⟩ : JobData)].countP (JobData.isFor k) = if o.id = id then 1 else 0 := by
  rw [List.countP_singleton]
  have hrender : o.aggregateId.render = k.render ↔ o.aggregateId = k := ⟨Uuid.render_inj, congrArg Uuid.render⟩
  simp only [JobData.isFor, decide_eq_true_eq, hrender, h.2]

variable {run : DispatchRun} {Good : Db → Prop}

theorem tally_publish {o : OutboxEvent} {c : Option Text} (h : Announces id k o)
    (hout : ∀ message, run.outcome o.id ≠ .failed message true) {Q : Bool → List Write → ℕ → Prop}
    {X : Failure → List Write → ℕ → Prop}
    (htrue : ∀ ws', ws'.countP (Write.publishes id) = ws.countP (Write.publishes id) + (if o.id = id then 1 else 0) →
      ws'.countP (Write.updates id) = ws.countP (Write.updates id) + (if o.id = id then 1 else 0) →
      Q true ws' (n + if o.id = id then 1 else 0))
    (hfalse : ∀ ws', ws'.countP (Write.publishes id) = ws.countP (Write.publishes id) →
      ws'.countP (Write.updates id) = ws.countP (Write.updates id) + (if o.id = id then 1 else 0) → Q false ws' n) :
    Tally engine Good (JobData.isFor k) Q X (publishOutboxEvent run o ⟨o.aggregateId.render, c⟩) ws n := by
  apply tally_tryCatch
  apply tally_call
  · intro d held a ws₁ ls _ he
    cases hrun : run.outcome o.id with
    | failed message reached =>
      rw [hrun] at he
      cases he
    | added =>
      rw [hrun] at he
      cases he
      have hjobs : (engine.emits (.publishProcessWebhookEvent ⟨o.aggregateId.render, c⟩ .added)).countP (JobData.isFor k) =
          if o.id = id then 1 else 0 := countP_isFor h c
      rw [hjobs, List.append_nil]
      apply tally_call
      · intro d' held' a' ws₂ ls₂ _ he₂
        have hquiet : ws₂.countP (Write.publishes id) = 0 ∧ ws₂.countP (Write.updates id) = 0 := by
          rcases received_of_eval he₂ with ⟨rfl, -⟩ | ⟨j, e, rfl, -⟩
          · exact ⟨rfl, rfl⟩
          · exact ⟨rfl, rfl⟩
        have hnone : (engine.emits (.markWebhookQueued o.aggregateId.render)).countP (JobData.isFor k) = 0 := rfl
        rw [hnone, Nat.add_zero]
        apply tally_update
        apply htrue
        · simp [List.countP_append, hquiet.1, Write.publishes, List.countP_singleton]
        · simp [List.countP_append, hquiet.2, Write.updates, List.countP_singleton]
      · intro d' held' e _ he₂
        exact absurd he₂ (eval_not_refused (by simp) _ _ e)
  · intro d held e _ he
    have hnone : (engine.emits (.publishProcessWebhookEvent ⟨o.aggregateId.render, c⟩ (run.outcome o.id))).countP
        (JobData.isFor k) = 0 := by
      cases hrun : run.outcome o.id with
      | added =>
        rw [hrun] at he
        cases he
      | failed message reached =>
        cases reached with
        | true => exact absurd hrun (hout message)
        | false => rfl
    rw [hnone, Nat.add_zero]
    apply tally_update
    apply hfalse
    · simp [List.countP_append, Write.publishes]
    · simp [List.countP_append, Write.updates, List.countP_singleton]

theorem tally_dispatchEvents (hout : ∀ id message, run.outcome id ≠ .failed message true) {rows : List OutboxEvent}
    {result : OutboxDispatchBatchResult} (hrows : ∀ o ∈ rows, Announces id k o)
    (hpub : ws.countP (Write.publishes id) = n)
    (hupd : ws.countP (Write.updates id) + rows.countP (fun o => o.id = id) ≤ 1) :
    Tally engine Good (JobData.isFor k) (Accounted id) (fun _ _ _ => True) (dispatchEvents run rows result) ws n := by
  induction rows generalizing ws n result with
  | nil => exact ⟨hpub, by simpa using hupd⟩
  | cons o rows ih =>
    have ho := hrows o List.mem_cons_self
    obtain ⟨c, hc⟩ := ho.1
    have htail : ∀ o ∈ rows, Announces id k o := fun o' ho' => hrows o' (List.mem_cons_of_mem o ho')
    rw [List.countP_cons] at hupd
    simp only [decide_eq_true_eq] at hupd
    unfold dispatchEvents
    rw [hc]
    apply tally_bind
    apply tally_publish ho (hout o.id)
    · intro ws' hpub' hupd'
      exact ih htail (by rw [hpub', hpub]) (by omega)
    · intro ws' hpub' hupd'
      exact ⟨by rw [hpub', hpub], by omega⟩

theorem countP_id_le_one {rows : List OutboxEvent} (h : (rows.map (fun o => o.id)).Nodup) (id : Uuid) :
    rows.countP (fun o => o.id = id) ≤ 1 := by
  have hcount := List.nodup_iff_count_le_one.mp h id
  rw [List.count, List.countP_map] at hcount
  refine le_trans (le_of_eq (List.countP_congr fun o _ => ?_)) hcount
  simp

theorem nodup_selected {t : Table OutboxEvent} (p : OutboxEvent → Bool) (r : OutboxEvent → OutboxEvent → Prop) [DecidableRel r]
    (limit : ℕ) : ((((t.rows.filter p).insertionSort r).take limit).map (fun o => o.id)).Nodup := by
  have hsub : (((t.rows.filter p).insertionSort r).take limit).Sublist ((t.rows.filter p).insertionSort r) :=
    List.take_sublist _ _
  refine List.Nodup.sublist (hsub.map _) ?_
  rw [((List.perm_insertionSort r _).map _).nodup_iff]
  exact t.nodup.sublist (List.filter_sublist.map _)

theorem nodup_eligibleEvents (d : Db) (held : Lock → Bool) (type : Text) (limit : ℕ) (now : Time) (hidden : Uuid → Bool) :
    ((eligibleEvents d held type limit now hidden).map (fun o => o.id)).Nodup := nodup_selected _ _ _

theorem nodup_staleEvents (d : Db) (held : Lock → Bool) (aggregateType type : Text) (publishedBefore : Time) (limit : ℕ)
    (hidden : Uuid → Bool) :
    ((staleEvents d held aggregateType type publishedBefore limit hidden).map (fun o => o.id)).Nodup := nodup_selected _ _ _

theorem tally_dispatchBatch (hout : ∀ id message, run.outcome id ≠ .failed message true)
    (hgood : ∀ d, Good d → ∀ o ∈ d.outboxEvents, Announces id k o) :
    Tally engine Good (JobData.isFor k) (Accounted id) (fun _ _ _ => True) (dispatchBatch run) [] 0 := by
  apply tally_call
  · intro d held rows ws' ls hd he
    cases he
    apply tally_dispatchEvents hout
    · intro o ho
      exact hgood d hd o (mem_eligibleEvents ho).1
    · rfl
    · rw [List.nil_append, List.countP_nil, Nat.zero_add]
      exact countP_id_le_one (nodup_eligibleEvents _ _ _ _ _ _) id
  · exact fun _ _ _ _ _ => trivial

theorem tally_reconcile (run : ReconcileRun) :
    Tally engine Good (JobData.isFor k) (Accounted id) (fun _ _ _ => True) (reconcileStalePublishedEvents run) [] 0 := by
  apply tally_call
  · intro d held rows ws' ls hd he
    cases he
    refine ⟨?_, ?_⟩
    · rw [List.nil_append, List.countP_map]
      exact List.countP_eq_zero.mpr (fun o _ => by simp [Write.publishes])
    · rw [List.nil_append, List.countP_map]
      exact countP_id_le_one (nodup_staleEvents _ _ _ _ _ _ _) id
  · exact fun _ _ _ _ _ => trivial

end Tallies

section Rows

variable {id : Uuid} {d : Db} {ws : List Write}

def publishable (id : Uuid) (d : Db) : ℕ := if (d.outboxEvents.get id).any (fun o => o.status = .published) then 0 else 1

theorem publishable_le_one (id : Uuid) (d : Db) : publishable id d ≤ 1 := by
  unfold publishable
  split_ifs <;> omega

theorem publishable_of_published {o : OutboxEvent} (h : d.outboxEvents.get id = some o) (hs : o.status = .published) :
    publishable id d = 0 := by
  simp [publishable, h, hs]

theorem publishable_of_not_published {o : OutboxEvent} (h : d.outboxEvents.get id = some o) (hs : o.status ≠ .published) :
    publishable id d = 1 := by
  simp [publishable, h, hs]

inductive Allowed (d : Db) : Write → Prop
  | queued (id : Uuid) : Allowed d (.markWebhookQueued id)
  | requeued (o : OutboxEvent) (ho : o ∈ d.outboxEvents) (hs : o.status = .published) (message : Text) (t now : Time) :
      Allowed d (.updateOutboxEvent o.id (.requeued message t) now)
  | updated (o : OutboxEvent) (ho : o ∈ d.outboxEvents) (hs : o.status ≠ .published) (p : OutboxEventPatch) (now : Time)
      (hp : ∀ message t, p ≠ .requeued message t) : Allowed d (.updateOutboxEvent o.id p now)

theorem not_published_of_eligible {type : Text} {now : Time} {o : OutboxEvent} (h : isEligible type now o = true) :
    o.status ≠ .published := by
  intro hs
  simp [isEligible, hs] at h

theorem DispatchWrite.allowed {run : DispatchRun} {w : World Db JobData} {x : Write} (h : DispatchWrite run w x) :
    Allowed w.db x := by
  cases h with
  | queued id e he hs => exact .queued id
  | published o data ho hs hd hj => exact .updated o ho (not_published_of_eligible hs) _ _ (by simp)
  | transientFailure o message ho hs => exact .updated o ho (not_published_of_eligible hs) _ _ (by simp)
  | nonRetryableFailure o message ho hs hd => exact .updated o ho (not_published_of_eligible hs) _ _ (by simp)

theorem ReconcileWrite.allowed {run : ReconcileRun} {w : World Db JobData} {x : Write} (h : ReconcileWrite run w x) :
    Allowed w.db x := by
  cases h with
  | requeued o ho hs =>
    refine .requeued o ho ?_ _ _ _
    simp only [isStale, Bool.and_eq_true, decide_eq_true_eq] at hs
    exact hs.1.1.1.2

theorem get_view_of_not_updated (h : ∀ x ∈ ws, Allowed d x) (hid : ∀ x ∈ ws, Write.updates id x = false) (d' : Db) :
    (engine.view d' ws).outboxEvents.get id = d'.outboxEvents.get id := by
  induction ws generalizing d' with
  | nil => rfl
  | cons x ws ih =>
    have hrest := ih (fun y hy => h y (List.mem_cons_of_mem x hy)) (fun y hy => hid y (List.mem_cons_of_mem x hy))
    refine (hrest (d'.apply x)).trans ?_
    have hx := hid x List.mem_cons_self
    cases h x List.mem_cons_self with
    | queued j => rfl
    | requeued o ho hs message t now =>
      have hne : o.id ≠ id := by simpa [Write.updates] using hx
      exact Table.get_update_of_ne _ (Ne.symm hne)
    | updated o ho hs p now hp =>
      have hne : o.id ≠ id := by simpa [Write.updates] using hx
      exact Table.get_update_of_ne _ (Ne.symm hne)

theorem counts_of_not_updated (hid : ∀ x ∈ ws, Write.updates id x = false) :
    ws.countP (Write.publishes id) = 0 ∧ ws.countP (Write.requeues id) = 0 := by
  constructor <;> rw [List.countP_eq_zero] <;> intro x hx hp
  · have := hid x hx
    unfold Write.publishes at hp
    split at hp
    · simp [Write.updates] at this hp
      exact this hp
    · cases hp
  · have := hid x hx
    unfold Write.requeues at hp
    split at hp
    · simp [Write.updates] at this hp
      exact this hp
    · cases hp

theorem exists_update (h : ws.countP (Write.updates id) ≤ 1) (hx : ∃ x ∈ ws, Write.updates id x = true) :
    ∃ us x vs, ws = us ++ x :: vs ∧ Write.updates id x = true ∧ (∀ y ∈ us, Write.updates id y = false) ∧
      ∀ y ∈ vs, Write.updates id y = false := by
  obtain ⟨x, hmem, hx⟩ := hx
  obtain ⟨us, vs, rfl⟩ := List.append_of_mem hmem
  rw [List.countP_append, List.countP_cons, if_pos hx] at h
  have hus : us.countP (Write.updates id) = 0 := by omega
  have hvs : vs.countP (Write.updates id) = 0 := by omega
  rw [List.countP_eq_zero] at hus hvs
  exact ⟨us, x, vs, rfl, hx, fun y hy => Bool.eq_false_iff.mpr (hus y hy), fun y hy => Bool.eq_false_iff.mpr (hvs y hy)⟩

theorem publishable_view (h : ∀ x ∈ ws, Allowed d x) (hone : ws.countP (Write.updates id) ≤ 1) :
    ws.countP (Write.publishes id) + publishable id (engine.view d ws) ≤
      publishable id d + ws.countP (Write.requeues id) := by
  by_cases hupd : ∃ x ∈ ws, Write.updates id x = true
  swap
  · push Not at hupd
    have hnone : ∀ x ∈ ws, Write.updates id x = false := fun x hx => Bool.eq_false_iff.mpr (hupd x hx)
    obtain ⟨hp, hq⟩ := counts_of_not_updated hnone
    have hrow : publishable id (engine.view d ws) = publishable id d := by
      rw [publishable, get_view_of_not_updated h hnone d]
      rfl
    omega
  obtain ⟨us, x, vs, rfl, hx, hus, hvs⟩ := exists_update hone hupd
  obtain ⟨hpu, hqu⟩ := counts_of_not_updated hus
  obtain ⟨hpv, hqv⟩ := counts_of_not_updated hvs
  have hus' : ∀ y ∈ us, Allowed d y := fun y hy => h y (List.mem_append_left _ hy)
  have hvs' : ∀ y ∈ vs, Allowed d y := fun y hy => h y (List.mem_append_right us (List.mem_cons_of_mem x hy))
  have hbefore := get_view_of_not_updated hus' hus d
  have hafter (d' : Db) := get_view_of_not_updated hvs' hvs d'
  have hview : engine.view d (us ++ x :: vs) = engine.view ((engine.view d us).apply x) vs := by
    rw [Engine.view_append]
    rfl
  rw [hview, List.countP_append, List.countP_cons, List.countP_append, List.countP_cons, hpu, hqu, hpv, hqv]
  have hle := publishable_le_one id (engine.view ((engine.view d us).apply x) vs)
  cases h x (by simp) with
  | queued j => cases hx
  | requeued o ho hs message t now =>
    have hid : o.id = id := by simpa [Write.updates] using hx
    have hp : Write.publishes id (.updateOutboxEvent o.id (.requeued message t) now) = false := rfl
    have hq : Write.requeues id (.updateOutboxEvent o.id (.requeued message t) now) = true := by simp [Write.requeues, hid]
    rw [hp, hq]
    simp only [Bool.false_eq_true, ↓reduceIte]
    omega
  | updated o ho hs p now hp =>
    have hid : o.id = id := by simpa [Write.updates] using hx
    have hget : d.outboxEvents.get id = some o := hid ▸ Table.get_of_mem ho
    rw [publishable_of_not_published hget hs]
    have hq : Write.requeues id (.updateOutboxEvent o.id p now) = false := by
      cases p with
      | requeued message t => exact absurd rfl (hp message t)
      | _ => rfl
    rw [hq]
    cases p with
    | published t =>
      have hrow : (engine.view ((engine.view d us).apply (.updateOutboxEvent o.id (.published t) now)) vs).outboxEvents.get id =
          some (o.patch (.published t) now) := by
        rw [hafter]
        refine (congrArg _ hid.symm).trans ((Table.get_update_self _ _).trans ?_)
        rw [hid, hbefore, hget]
        rfl
      rw [publishable_of_published hrow rfl]
      simp [Write.publishes, hid]
    | _ =>
      simp only [Write.publishes, Bool.false_eq_true, ↓reduceIte]
      omega

end Rows

section Selections

variable {ι : Type}

inductive Selects (σ : SystemState ι) [DecidableEq ι] (i : ι) (id : Uuid) : Prop
  | dispatcher {type : Text} {limit : ℕ} {now : Time} {hidden : Uuid → Bool}
      {k : Except Failure (List OutboxEvent) → Script Response} {ws ws' : List Write} {rows : List OutboxEvent} {ls : List Lock}
      (hi : σ.phase i = .running ⟨.stmt (.findEligibleEvents type limit now hidden) k, ws, false⟩)
      (he : eval (.findEligibleEvents type limit now hidden) (engine.view σ.world.db ws) (σ.heldByOther i) = .ok rows ws' ls)
      (hid : ∃ o ∈ rows, o.id = id)
  | reconciler {aggregateType type lastError : Text} {publishedBefore : Time} {limit : ℕ} {now : Time} {hidden : Uuid → Bool}
      {k : Except Failure (List OutboxEvent) → Script Response} {ws ws' : List Write} {rows : List OutboxEvent} {ls : List Lock}
      (hi : σ.phase i =
        .running ⟨.stmt (.requeueStale aggregateType type lastError publishedBefore limit now hidden) k, ws, false⟩)
      (he : eval (.requeueStale aggregateType type lastError publishedBefore limit now hidden) (engine.view σ.world.db ws)
        (σ.heldByOther i) = .ok rows ws' ls)
      (hid : ∃ o ∈ rows, o.id = id)

variable [DecidableEq ι] {rt : Runtime} {req : ι → Request} {σ σ' : SystemState ι} {i : ι} {id : Uuid}

theorem Selects.free (h : Selects σ i id) : σ.heldByOther i (.outboxEvent id) = false := by
  cases h with
  | dispatcher hi he hid =>
    cases he
    obtain ⟨o, ho, rfl⟩ := hid
    have hm := List.mem_filter.mp ((List.mem_insertionSort _).mp (List.mem_of_mem_take ho))
    simp only [Bool.and_eq_true, Bool.not_eq_true'] at hm
    exact hm.2.1.2
  | reconciler hi he hid =>
    cases he
    obtain ⟨o, ho, rfl⟩ := hid
    have hm := List.mem_filter.mp ((List.mem_insertionSort _).mp (List.mem_of_mem_take ho))
    simp only [Bool.and_eq_true, Bool.not_eq_true'] at hm
    exact hm.2.1.1.2

theorem Selects.locks (h : Selects σ i id) (hs : step engine (scripts rt req) σ (.exec i) = some σ') :
    σ'.holder (.outboxEvent id) = some i := by
  cases h with
  | dispatcher hi he hid =>
    apply (step_answered hs hi he).2
    cases he
    obtain ⟨o, ho, rfl⟩ := hid
    exact List.mem_map_of_mem ho
  | reconciler hi he hid =>
    apply (step_answered hs hi he).2
    cases he
    obtain ⟨o, ho, rfl⟩ := hid
    exact List.mem_flatMap.mpr ⟨o, ho, by simp⟩

end Selections

end EventGateway
