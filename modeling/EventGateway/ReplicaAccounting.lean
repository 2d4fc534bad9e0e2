import EventGateway.PublicationAccounting

namespace EventGateway

open KeyedTable TransactionProgram Interleaving RelyGuarantee Statements
open OutboxDispatcher

section Outbox

variable {rt : Runtime} {js : List JobData} {ι : Type} [DecidableEq ι] {req : ι → Request} {d : Db}
  {ls : List (Label ι)} {σ : SystemState ι}

theorem runs_outboxInv (hd : d.Indexes) (h0 : OutboxInv d js) (h : runs rt req (State.init d) ls = some σ) :
    OutboxInv σ.world.db (js ++ σ.world.emitted) := by
  refine (runs_invariant (P := fun σ => OutboxInv σ.world.db (js ++ σ.world.emitted)) hd ?_ ?_ h).2
  · exact h0.mono (fun j hj => List.mem_append_left _ hj)
  · intro σ σ' _ hinv hstep
    cases hstep with
    | quiet js' hw _ _ =>
      rw [hw]
      apply hinv.mono
      intro j hj
      rw [World.emit_emitted, ← List.append_assoc]
      exact List.mem_append_left js' hj
    | commit i r s _ hc he _ =>
      rw [he]
      exact hc.outboxInv_after hinv (fun j hj => List.mem_append_right js hj)
    | reject i e s _ _ hw _ =>
      rw [hw]
      exact hinv

theorem runs_announces (hd : d.Indexes) (h0 : OutboxInv d js) {o : OutboxEvent} (ho : o ∈ d.outboxEvents)
    (h : runs rt req (State.init d) ls = some σ) : ∀ o' ∈ σ.world.db.outboxEvents, Announces o.id o.aggregateId o' := by
  intro o' ho'
  have hinv := runs_outboxInv hd h0 h
  have hev : d.Evolves σ.world.db := (run_evolves (sound_init (spec rt req) hd) h).1
  obtain ⟨o₁, ho₁, hevo⟩ := hev.outboxEvents o ho
  refine ⟨toJobData_of_deliverable (hinv.rows o' ho'), ?_, ?_⟩
  · intro hk
    obtain rfl : o' = o₁ := hinv.unique o' ho' o₁ ho₁ (hk.trans hevo.2.2.2.1.symm)
    exact hevo.1
  · intro hid
    exact aggregateId_of_evolves hev ho ho' hid

theorem runs_not_faulted (hd : d.Indexes) (h : runs rt req (State.init d) ls = some σ) (i : ι) (r : Response)
    (own : List Write) : σ.phase i ≠ .running ⟨.ret r, own, true⟩ := by
  intro hi
  have hsound := (runs_sound hd h).session i _ hi
  simp only [SessionSound, ↓reduceIte, Fails] at hsound

end Outbox

section Accounts

inductive IsReplica : Request → Prop
  | dispatcher (run : DispatchRun) (h : ∀ id message, run.outcome id ≠ .failed message true) : IsReplica (.dispatchBatch run)
  | reconciler (run : ReconcileRun) : IsReplica (.reconcileStalePublishedEvents run)

variable {ι : Type} [DecidableEq ι]

def committed (rt : Runtime) (req : ι → Request) (d : Db) (ls : List (Label ι)) : List Write :=
  (log engine (scripts rt req) commits (State.init d) ls).map Prod.snd

variable {rt : Runtime} {req : ι → Request} {d : Db} {js : List JobData} {ls : List (Label ι)} {σ : SystemState ι}
  {o : OutboxEvent}

theorem tally_script {q : Request} (hq : IsReplica q) (id k : Uuid) :
    Tally engine (fun d => ∀ o ∈ d.outboxEvents, Announces id k o) (JobData.isFor k) (Accounted id) (fun _ _ _ => True)
      (q.script rt) [] 0 := by
  cases hq with
  | dispatcher run hout =>
    apply tally_bind
    apply tally_mono (tally_dispatchBatch hout (fun d hd => hd))
    · exact fun _ _ _ h => h
    · exact fun _ _ _ h => h
  | reconciler run =>
    apply tally_bind
    apply tally_mono (tally_reconcile run)
    · exact fun _ _ _ h => h
    · exact fun _ _ _ h => h

theorem runs_tallied (hd : d.Indexes) (h0 : OutboxInv d js) (hreq : ∀ i, IsReplica (req i)) (ho : o ∈ d.outboxEvents)
    (h : runs rt req (State.init d) ls = some σ) (i : ι) :
    Tallied engine (fun d => ∀ o' ∈ d.outboxEvents, Announces o.id o.aggregateId o') (JobData.isFor o.aggregateId)
      (fun _ => Accounted o.id) σ (log engine (scripts rt req) (sends engine) (State.init d) ls)
      (log engine (scripts rt req) commits (State.init d) ls) i := by
  apply tally_run
  · exact fun i => tally_script (hreq i) o.id o.aggregateId
  · exact fun us τ hτ => ⟨runs_announces hd h0 ho hτ, runs_not_faulted hd hτ⟩
  · exact h

theorem jobs_eq_publications (hd : d.Indexes) (h0 : OutboxInv d js) (hreq : ∀ i, IsReplica (req i))
    (ho : o ∈ d.outboxEvents) (h : runs rt req (State.init d) ls = some σ)
    (hend : ∀ i, σ.phase i = .idle ∨ ∃ r, σ.phase i = .committed r) :
    σ.world.emitted.countP (JobData.isFor o.aggregateId) = (committed rt req d ls).countP (Write.publishes o.id) := by
  have hemitted : σ.world.emitted = (log engine (scripts rt req) (sends engine) (State.init d) ls).map Prod.snd :=
    emitted_eq_log h
  rw [hemitted, committed, List.countP_map, List.countP_map]
  apply countP_eq_of_actors
  intro i
  have htallied := runs_tallied hd h0 hreq ho h i
  rw [← countP_written i _ (Write.publishes o.id)]
  unfold Tallied at htallied
  rcases hend i with hi | ⟨r, hi⟩
  · rw [hi] at htallied
    rw [htallied.2]
    exact htallied.1
  · rw [hi] at htallied
    exact htallied.1.symm

theorem wp_allowed {q : Request} (hq : IsReplica q) (w : World Db JobData) :
    wp discipline (q.script rt) (fun _ => False) [] w
      (fun _ held ws w => ∀ w', discipline.Rely held w w' → ∀ x ∈ ws, Allowed w'.db x)
      (fun _ held _ w => ∀ w', discipline.Rely held w w' → True) := by
  cases hq with
  | dispatcher run hout =>
    apply wp_bind
    apply wp_mono (wp_dispatchBatch run w)
    · exact fun r held ws w h w' hr x hx => DispatchWrite.allowed (h w' hr x hx)
    · exact fun _ _ _ _ _ _ _ => trivial
  | reconciler run =>
    apply wp_bind
    apply wp_mono (wp_reconcile run w)
    · exact fun r held ws w h w' hr x hx => ReconcileWrite.allowed (h w' hr x hx)
    · exact fun _ _ _ _ _ _ _ => trivial

def allowedWrites (rt : Runtime) (hreq : ∀ i, IsReplica (req i)) : SessionProperty (spec rt req) (fun _ => True) :=
  .ofWp (spec rt req) (fun _ _ ws w => ∀ x ∈ ws, Allowed w.db x) (fun _ _ _ => True) (fun {i w} _ => wp_allowed (hreq i) w)

theorem commits_allowed (hd : d.Indexes) (hreq : ∀ i, IsReplica (req i)) (h : runs rt req (State.init d) ls = some σ)
    (l : Label ι) : ∀ x ∈ (commits σ l).map Prod.snd, Allowed σ.world.db x := by
  obtain ⟨hsound, -, heverywhere⟩ := run_sessions (allowedWrites rt hreq) (fun _ _ _ _ _ _ => trivial)
    (sound_init (spec rt req) hd) trivial ((allowedWrites rt hreq).everywhere_init d) h
  rcases commits_cases σ l with hnone | ⟨i, r, ws, rfl, hi, hws⟩
  · rw [hnone]
    intro x hx
    cases hx
  · rw [hws, List.map_map]
    intro x hx
    have hx : x ∈ ws := by simpa using hx
    exact heverywhere i _ hi rfl σ.world (Discipline.Rely.refl hsound.inv) x hx

theorem commits_update_once (hd : d.Indexes) (h0 : OutboxInv d js) (hreq : ∀ i, IsReplica (req i))
    (ho : o ∈ d.outboxEvents) (h : runs rt req (State.init d) ls = some σ) (l : Label ι) :
    ((commits σ l).map Prod.snd).countP (Write.updates o.id) ≤ 1 := by
  rcases commits_cases σ l with hnone | ⟨i, r, ws, rfl, hi, hws⟩
  · rw [hnone]
    simp
  · have htallied := runs_tallied hd h0 hreq ho h i
    unfold Tallied at htallied
    rw [hi] at htallied
    rw [hws, List.map_map]
    have hws' : ws.map (Prod.snd ∘ fun w => (i, w)) = ws := List.map_id ws
    rw [hws']
    exact (htallied.2 rfl).2

theorem committed_snoc (h : runs rt req (State.init d) ls = some σ) (l : Label ι) :
    committed rt req d (ls ++ [l]) = committed rt req d ls ++ (commits σ l).map Prod.snd := by
  unfold committed
  rw [log_snoc h, List.map_append]

theorem publications_le (hd : d.Indexes) (h0 : OutboxInv d js) (hreq : ∀ i, IsReplica (req i))
    (ho : o ∈ d.outboxEvents) (h : runs rt req (State.init d) ls = some σ) :
    (committed rt req d ls).countP (Write.publishes o.id) ≤ 1 + (committed rt req d ls).countP (Write.requeues o.id) := by
  have hbound : (committed rt req d ls).countP (Write.publishes o.id) + publishable o.id σ.world.db ≤
      1 + (committed rt req d ls).countP (Write.requeues o.id) := by
    refine (run_history (P := fun ls σ => runs rt req (State.init d) ls = some σ ∧
      (committed rt req d ls).countP (Write.publishes o.id) + publishable o.id σ.world.db ≤
        1 + (committed rt req d ls).countP (Write.requeues o.id)) ?_ ?_ h).2
    · rintro ls σ l σ' ⟨hrun, hle⟩ hs
      refine ⟨?_, ?_⟩
      · unfold runs at *
        rw [run_append, hrun]
        simp [run, hs]
      · have hview := publishable_view (commits_allowed hd hreq hrun l) (commits_update_once hd h0 hreq ho hrun l)
        rw [← db_step hs] at hview
        rw [committed_snoc hrun, List.countP_append, List.countP_append]
        omega
    · have hle := publishable_le_one o.id d
      refine ⟨rfl, ?_⟩
      simp only [committed, log, List.map_nil, List.countP_nil, State.init]
      omega
  omega

theorem ended_of_selects {us vs : List (Label ι)} {i j : ι} {id : Uuid} {σ₁ σ₂ : SystemState ι}
    (h₁ : runs rt req (State.init d) us = some σ₁) (hi : Selects σ₁ i id)
    (h₂ : runs rt req (State.init d) (us ++ .exec i :: vs) = some σ₂) (hj : Selects σ₂ j id) (hij : i ≠ j) :
    (σ₂.phase i).ended = true := by
  unfold runs at h₁ h₂
  rw [run_append, h₁, Option.bind_some] at h₂
  obtain ⟨τ, hs, hr⟩ := Option.bind_eq_some_iff.mp h₂
  rcases holder_run hr (hi.locks hs) with hheld | hend
  · have hfree := hj.free
    simp [State.heldByOther, hheld, hij] at hfree
  · exact hend

end Accounts

section Reconciler

structure RequeuesOnly (run : ReconcileRun) (d d' : Db) : Prop where
  paymentIntents : d'.paymentIntents = d.paymentIntents
  idempotencyRecords : d'.idempotencyRecords = d.idempotencyRecords
  webhookEvents : d'.webhookEvents = d.webhookEvents
  webhookProcessingAttempts : d'.webhookProcessingAttempts = d.webhookProcessingAttempts
  outboxEvents : ∀ id, d'.outboxEvents.get id = d.outboxEvents.get id ∨
    ∃ o t e, d.outboxEvents.get id = some o ∧ o.status = .published ∧ o.publishedAt = some t ∧
      t < run.now - run.olderThanMs ∧ d.webhookEvents.get o.aggregateId = some e ∧
      (e.status = .received ∨ e.status = .queued) ∧
      d'.outboxEvents.get id = some { o with
        status := .failed, nextAttemptAt := some run.now, lastError := some stalePublishedWebhookRequeued
        updatedAt := run.now, writtenAt := run.now }

variable {run : ReconcileRun} {w : World Db JobData} {ws : List Write}

theorem RequeuesOnly.refl (d : Db) : RequeuesOnly run d d := ⟨rfl, rfl, rfl, rfl, fun _ => Or.inl rfl⟩

theorem requeuesOnly_view (h : ∀ x ∈ ws, ReconcileWrite run w x) : RequeuesOnly run w.db (engine.view w.db ws) := by
  induction ws using List.reverseRecOn with
  | nil => exact .refl w.db
  | append_singleton ws x ih =>
    have hrest := ih (fun y hy => h y (List.mem_append_left _ hy))
    rw [Engine.view_append]
    cases h x (by simp) with
    | requeued o ho hs =>
      refine ⟨hrest.paymentIntents, hrest.idempotencyRecords, hrest.webhookEvents, hrest.webhookProcessingAttempts, ?_⟩
      intro id
      by_cases hid : id = o.id
      swap
      · have hkeep := Table.get_update_of_ne (engine.view w.db ws).outboxEvents hid
          (f := (OutboxEventPatch.requeued stalePublishedWebhookRequeued run.now).change run.now)
        have hget := hrest.outboxEvents id
        rw [← hkeep] at hget
        exact hget
      subst hid
      simp only [isStale, Bool.and_eq_true, decide_eq_true_eq, Option.any_eq_true, Bool.or_eq_true] at hs
      obtain ⟨⟨⟨⟨⟨-, -⟩, hstatus⟩, -⟩, t, ht, hlt⟩, e, he, hes⟩ := hs
      have hget : w.db.outboxEvents.get o.id = some o := Table.get_of_mem ho
      refine Or.inr ⟨o, t, e, hget, hstatus, ht, hlt, he, hes, ?_⟩
      refine (Table.get_update_self _ _).trans ?_
      rcases hrest.outboxEvents o.id with hsame | ⟨o', -, -, ho', -, -, -, -, -, hnew⟩
      · rw [hsame, hget]
        rfl
      · rw [hget] at ho'
        cases ho'
        rw [hnew]
        rfl

variable {ι : Type} [DecidableEq ι] {rt : Runtime} {req : ι → Request} {d : Db} {ls : List (Label ι)}
  {σ σ' : SystemState ι}

theorem requeuesOnly_step (hd : d.Indexes) (h : runs rt req (State.init d) ls = some σ) {l : Label ι}
    (hl : req l.actor = .reconcileStalePublishedEvents run) (hs : step engine (scripts rt req) σ l = some σ') :
    RequeuesOnly run σ.world.db σ'.world.db := by
  cases (step_effect (runs_sound hd h) hs).2 with
  | quiet js hw hc hr =>
    rw [hw]
    exact .refl _
  | commit i r s hrun hpost he hp =>
    simp only [Label.actor] at hl
    have hcommits := Request.Post.commits (q := req i) hpost
    rw [hl] at hcommits
    generalize σ'.world.db = d' at hcommits
    cases hcommits with
    | reconciled hws => exact requeuesOnly_view hws
  | reject i e s hrun hrej hw hp =>
    rw [hw]
    exact .refl _

end Reconciler

theorem publication_accounting {ι₀ ι : Type} [DecidableEq ι₀] [DecidableEq ι] {rt : Runtime} {req₀ : ι₀ → Request}
    {req : ι → Request} {ls₀ : List (Label ι₀)} {ls : List (Label ι)} {σ₀ : SystemState ι₀} {σ : SystemState ι}
    (h₀ : runs rt req₀ (State.init Db.empty) ls₀ = some σ₀) (hreq : ∀ i, IsReplica (req i))
    (h : runs rt req (State.init σ₀.world.db) ls = some σ) :
    (∀ e ∈ σ₀.world.db.webhookEvents, ∃ o ∈ σ₀.world.db.outboxEvents, IsOutboxRowOf e o ∧
      ((∀ i, σ.phase i = .idle ∨ ∃ r, σ.phase i = .committed r) →
        σ.world.emitted.countP (JobData.isFor e.id) =
          (committed rt req σ₀.world.db ls).countP (Write.publishes o.id)) ∧
      (committed rt req σ₀.world.db ls).countP (Write.publishes o.id) ≤
        1 + (committed rt req σ₀.world.db ls).countP (Write.requeues o.id)) ∧
    (∀ us vs i j id σ₁ σ₂, i ≠ j → runs rt req (State.init σ₀.world.db) us = some σ₁ → Selects σ₁ i id →
      runs rt req (State.init σ₀.world.db) (us ++ .exec i :: vs) = some σ₂ → Selects σ₂ j id →
      (σ₂.phase i).ended = true) ∧
    (∀ us l σ₁ σ₂ run, req l.actor = .reconcileStalePublishedEvents run →
      runs rt req (State.init σ₀.world.db) us = some σ₁ → step engine (scripts rt req) σ₁ l = some σ₂ →
      RequeuesOnly run σ₁.world.db σ₂.world.db) := by
  have hd := reachable_indexes h₀
  have hinv := reachable_outboxInv h₀
  refine ⟨?_, ?_, ?_⟩
  · intro e he
    have hget : σ₀.world.db.webhookEvents.get e.id = some e := Table.get_of_mem he
    obtain ⟨o, ho, hoe⟩ := (hinv.linked e.id).mp (by rw [hget]; rfl)
    refine ⟨o, ho, ⟨(hinv.rows o ho).type, (hinv.rows o ho).aggregateType, hoe⟩, ?_, publications_le hd hinv hreq ho h⟩
    intro hend
    rw [← hoe]
    exact jobs_eq_publications hd hinv hreq ho h hend
  · intro us vs i j id σ₁ σ₂ hij h₁ hi h₂ hj
    exact ended_of_selects h₁ hi h₂ hj hij
  · intro us l σ₁ σ₂ run hl h₁ hs
    exact requeuesOnly_step hd h₁ hl hs

namespace Sample

def replicas : Fin 3 → Request
  | 0 => dispatch
  | 1 => .reconcileStalePublishedEvents ⟨500, 10, time + 1000, fun _ => false⟩
  | 2 => .dispatchBatch ⟨10, time + 2000, fun _ => false, fun _ => .added, fun _ => time + 2000⟩

def replicaLabels : List (Label (Fin 3)) := completesThree 4 1 4

def isCommitted {ι : Type} (σ : SystemState ι) (i : ι) : Bool :=
  match σ.phase i with
  | .committed _ => true
  | _ => false

theorem isReplica_replicas (i : Fin 3) : IsReplica (replicas i) := by
  match i with
  | 0 => exact .dispatcher _ (fun _ _ h => by cases h)
  | 1 => exact .reconciler _
  | 2 => exact .dispatcher _ (fun _ _ h => by cases h)

end Sample

theorem publication_accounting_sample : ∃ (σ₀ : SystemState Sample.Party) (σ : SystemState (Fin 3)),
    runs Sample.runtime Sample.requests (State.init Db.empty)
      (Sample.completes .merchant 4 ++ Sample.completes .provider 2) = some σ₀ ∧
    runs Sample.runtime Sample.replicas (State.init σ₀.world.db) Sample.replicaLabels = some σ ∧
    σ.world.emitted.length = 2 ∧
    ∀ e ∈ σ₀.world.db.webhookEvents, ∃ o ∈ σ₀.world.db.outboxEvents, IsOutboxRowOf e o ∧
      σ.world.emitted.countP (JobData.isFor e.id) =
        (committed Sample.runtime Sample.replicas σ₀.world.db Sample.replicaLabels).countP (Write.publishes o.id) := by
  have hrun : (runs Sample.runtime Sample.requests (State.init Db.empty)
      (Sample.completes .merchant 4 ++ Sample.completes .provider 2)).any (fun σ₀ =>
        (runs Sample.runtime Sample.replicas (State.init σ₀.world.db) Sample.replicaLabels).any (fun σ =>
          decide (σ.world.emitted.length = 2) && decide (∀ i, Sample.isCommitted σ i = true))) = true := by
    decide +kernel
  obtain ⟨σ₀, h₀, hrun⟩ := (Option.any_eq_true _ _).mp hrun
  obtain ⟨σ, h, hchecks⟩ := (Option.any_eq_true _ _).mp hrun
  rw [Bool.and_eq_true, decide_eq_true_eq, decide_eq_true_eq] at hchecks
  have hend (i : Fin 3) : σ.phase i = .idle ∨ ∃ r, σ.phase i = .committed r := by
    have hi := hchecks.2 i
    unfold Sample.isCommitted at hi
    split at hi
    · rename_i r hr
      exact Or.inr ⟨r, hr⟩
    · cases hi
  refine ⟨σ₀, σ, h₀, h, hchecks.1, ?_⟩
  intro e he
  obtain ⟨o, ho, hrow, hjobs, -⟩ := (publication_accounting h₀ Sample.isReplica_replicas h).1 e he
  exact ⟨o, ho, hrow, hjobs hend⟩

end EventGateway
