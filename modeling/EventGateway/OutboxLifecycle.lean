import EventGateway.DatabaseFaults
import EventGateway.ReplicaAccounting

namespace EventGateway

open KeyedTable TransactionProgram Interleaving RelyGuarantee Statements
open OutboxDispatcher

inductive Moves (o : OutboxEvent) : Request → OutboxEventPatch → Time → Prop
  | published (run : DispatchRun) (hs : isEligible processWebhookOutboxType run.now o = true) :
      Moves o (.dispatchBatch run) (.published (run.dateNow o.id)) run.now
  | failed (run : DispatchRun) (error : Failure) (hs : isEligible processWebhookOutboxType run.now o = true) :
      Moves o (.dispatchBatch run) (.transientFailure (o.attempts + 1)
        (run.dateNow o.id + calculateOutboxBackoffMs (o.attempts + 1)) (sanitizeErrorMessage error) (run.dateNow o.id)) run.now
  | requeued (run : ReconcileRun) (hs : o.status = .published)
      (hold : o.publishedAt.any (fun t => t < run.now - run.olderThanMs) = true) :
      Moves o (.reconcileStalePublishedEvents run) (.requeued stalePublishedWebhookRequeued run.now) run.now

structure RowUpdate (ι : Type) where
  actor : ι
  patch : OutboxEventPatch
  now : Time

namespace RowUpdate

variable {ι : Type}

def isPublication (e : RowUpdate ι) : Bool :=
  match e.patch with
  | .published _ => true
  | _ => false

def isFailure (e : RowUpdate ι) : Bool :=
  match e.patch with
  | .transientFailure _ _ _ _ => true
  | _ => false

def isRequeue (e : RowUpdate ι) : Bool :=
  match e.patch with
  | .requeued _ _ => true
  | _ => false

def of (id : Uuid) : ι × Write → Option (RowUpdate ι)
  | (i, .updateOutboxEvent j p now) => if j = id then some ⟨i, p, now⟩ else none
  | _ => none

end RowUpdate

section Trails

variable {ι : Type} {req : ι → Request} {o₀ o : OutboxEvent} {es : List (RowUpdate ι)}

inductive Trail (req : ι → Request) (o₀ : OutboxEvent) : List (RowUpdate ι) → OutboxEvent → Prop
  | created : Trail req o₀ [] o₀
  | moved {es : List (RowUpdate ι)} {o : OutboxEvent} {e : RowUpdate ι} (h : Trail req o₀ es o)
      (hm : Moves o (req e.actor) e.patch e.now) : Trail req o₀ (es ++ [e]) (o.patch e.patch e.now)

def isErrorText (message : Text) : Bool :=
  !message.isEmpty && decide (message.length ≤ 500) && message.all (fun c => '\x20' ≤ c && c ≤ '\x7e')

structure RowShape (es : List (RowUpdate ι)) (o : OutboxEvent) : Prop where
  attempts : o.attempts = es.countP RowUpdate.isFailure
  publications : es.countP RowUpdate.isPublication =
    es.countP RowUpdate.isRequeue + if o.status = .published then 1 else 0
  alive : o.deadAt = none
  pending : o.status = .pending ↔ es = []
  due : o.status = .failed ↔ o.nextAttemptAt.isSome = true
  erred : o.status = .failed ↔ o.lastError.isSome = true
  error : o.lastError.all isErrorText = true
  published : o.status = .published → o.publishedAt.isSome = true

structure Spaced (req : ι → Request) (es : List (RowUpdate ι)) : Prop where
  retried : ∀ us e e' vs n next message failedAt, es = us ++ e :: e' :: vs →
    e.patch = .transientFailure n next message failedAt →
      n = us.countP RowUpdate.isFailure + 1 ∧ next = failedAt + min (5000 * 2 ^ (n - 1)) 300000 ∧ next ≤ e'.now
  requeued : ∀ us e e' vs publishedAt, es = us ++ e :: e' :: vs → e.patch = .published publishedAt →
    ∃ run, req e'.actor = .reconcileStalePublishedEvents run ∧ publishedAt < run.now - run.olderThanMs

theorem mem_collapseSpaces {s : Text} {c : Char} (h : c ∈ collapseSpaces s) : c ∈ s ∨ c = ' ' := by
  induction s with
  | nil => cases h
  | cons a s ih =>
    unfold collapseSpaces at h
    split_ifs at h
    · split at h
      · rename_i rest hrest
        rcases List.mem_cons.mp h with rfl | h
        · exact Or.inr rfl
        · rcases ih (hrest ▸ List.mem_cons_of_mem ' ' h) with hs | hs
          · exact Or.inl (List.mem_cons_of_mem a hs)
          · exact Or.inr hs
      · rcases List.mem_cons.mp h with rfl | h
        · exact Or.inr rfl
        · rcases ih h with hs | hs
          · exact Or.inl (List.mem_cons_of_mem a hs)
          · exact Or.inr hs
    · rcases List.mem_cons.mp h with rfl | h
      · exact Or.inl List.mem_cons_self
      · rcases ih h with hs | hs
        · exact Or.inl (List.mem_cons_of_mem a hs)
        · exact Or.inr hs

theorem isErrorText_sanitizeErrorMessage (error : Failure) : isErrorText (sanitizeErrorMessage error) = true := by
  unfold sanitizeErrorMessage
  simp only
  split_ifs with hempty
  · decide
  · simp only [isErrorText, Bool.and_eq_true, decide_eq_true_eq, List.all_eq_true]
    refine ⟨⟨by simpa using hempty, List.length_take_le _ _⟩, ?_⟩
    intro c hc
    have htrim := (List.rdropWhile_prefix _ _).subset (List.mem_of_mem_take hc)
    rcases mem_collapseSpaces ((List.dropWhile_suffix _).subset htrim) with hc | rfl
    · obtain ⟨a, -, rfl⟩ := List.mem_map.mp hc
      split_ifs with hprint
      · simpa using hprint
      · decide
    · decide

theorem eligible_cases {type : Text} {now : Time} (h : isEligible type now o = true) :
    o.status = .pending ∨ o.status = .failed ∧ o.nextAttemptAt.all (fun t => t ≤ now) = true := by
  simp only [isEligible, Bool.and_eq_true, Bool.or_eq_true, decide_eq_true_eq] at h
  exact h.2

theorem RowShape.moved {q : Request} {e : RowUpdate ι} (h : RowShape es o) (hm : Moves o q e.patch e.now) :
    RowShape (es ++ [e]) (o.patch e.patch e.now) := by
  obtain ⟨i, p, now⟩ := e
  have hnil : es ++ [(⟨i, p, now⟩ : RowUpdate ι)] ≠ [] := by simp
  have hpubs := h.publications
  change Moves o q p now at hm
  change RowShape _ (o.patch p now)
  cases hm with
  | published run hs =>
    rw [if_neg (not_published_of_eligible hs)] at hpubs
    constructor
    case attempts => simp [List.countP_append, RowUpdate.isFailure, OutboxEvent.patch, h.attempts]
    case publications =>
      simp only [List.countP_append, List.countP_singleton, RowUpdate.isPublication, RowUpdate.isRequeue, OutboxEvent.patch,
        ↓reduceIte, hpubs, Bool.false_eq_true]
    case pending => simp [OutboxEvent.patch]
    case alive => exact h.alive
    all_goals simp [OutboxEvent.patch]
  | failed run error hs =>
    rw [if_neg (not_published_of_eligible hs)] at hpubs
    constructor
    case attempts => simp [List.countP_append, RowUpdate.isFailure, OutboxEvent.patch, h.attempts]
    case publications =>
      simp [List.countP_append, RowUpdate.isPublication, RowUpdate.isRequeue, OutboxEvent.patch, hpubs]
    case pending => simp [OutboxEvent.patch]
    case error => simpa [OutboxEvent.patch] using isErrorText_sanitizeErrorMessage error
    all_goals simp [OutboxEvent.patch]
  | requeued run hs hold =>
    rw [if_pos hs] at hpubs
    constructor
    case attempts => simp [List.countP_append, RowUpdate.isFailure, OutboxEvent.patch, h.attempts]
    case publications =>
      simp [List.countP_append, RowUpdate.isPublication, RowUpdate.isRequeue, OutboxEvent.patch, hpubs]
    case pending => simp [OutboxEvent.patch]
    case alive => exact h.alive
    case error => exact (by decide : isErrorText stalePublishedWebhookRequeued = true)
    all_goals simp [OutboxEvent.patch]

theorem Trail.shape (h : Trail req o₀ es o) (h₀ : RowShape ([] : List (RowUpdate ι)) o₀) : RowShape es o := by
  induction h with
  | created => exact h₀
  | moved _ hm ih => exact ih.moved hm

theorem Trail.last {e : RowUpdate ι} (h : Trail req o₀ (es ++ [e]) o) :
    ∃ o', Trail req o₀ es o' ∧ Moves o' (req e.actor) e.patch e.now ∧ o = o'.patch e.patch e.now := by
  generalize hes : es ++ [e] = es' at h
  cases h with
  | created => simp at hes
  | @moved es₁ o₁ e₁ htrail hm =>
    obtain ⟨rfl, he⟩ := List.append_inj' hes rfl
    obtain rfl : e = e₁ := by simpa using he
    exact ⟨o₁, htrail, hm, rfl⟩

theorem Trail.before {us vs : List (RowUpdate ι)} (h : Trail req o₀ (us ++ vs) o) : ∃ o', Trail req o₀ us o' := by
  induction vs using List.reverseRecOn generalizing o with
  | nil => exact ⟨o, by simpa using h⟩
  | append_singleton vs e ih =>
    rw [← List.append_assoc] at h
    obtain ⟨o', htrail, -⟩ := h.last
    exact ih htrail

theorem Trail.next {us vs : List (RowUpdate ι)} {e e' : RowUpdate ι} (h : Trail req o₀ (us ++ e :: e' :: vs) o) :
    ∃ o', Trail req o₀ us o' ∧ Moves o' (req e.actor) e.patch e.now ∧
      Moves (o'.patch e.patch e.now) (req e'.actor) e'.patch e'.now := by
  have hsplit : us ++ e :: e' :: vs = (us ++ [e] ++ [e']) ++ vs := by simp
  rw [hsplit] at h
  obtain ⟨o₂, h₂⟩ := h.before
  obtain ⟨o₁, h₁, hm', -⟩ := h₂.last
  obtain ⟨o', h', hm, rfl⟩ := h₁.last
  exact ⟨o', h', hm, hm'⟩

theorem Moves.of_transientFailure {q : Request} {n : ℕ} {next failedAt now : Time} {message : Text}
    (h : Moves o q (.transientFailure n next message failedAt) now) :
    n = o.attempts + 1 ∧ next = failedAt + calculateOutboxBackoffMs n := by
  cases h with
  | failed run error hs => exact ⟨rfl, rfl⟩

theorem Moves.guard {q : Request} {p : OutboxEventPatch} {now : Time} (h : Moves o q p now) :
    isEligible processWebhookOutboxType now o = true ∨ o.status = .published ∧
      ∃ run, q = .reconcileStalePublishedEvents run ∧ o.publishedAt.any (fun t => t < run.now - run.olderThanMs) = true := by
  cases h with
  | published run hs => exact Or.inl hs
  | failed run error hs => exact Or.inl hs
  | requeued run hs hold => exact Or.inr ⟨hs, run, rfl, hold⟩

theorem Trail.spaced (h : Trail req o₀ es o) (h₀ : RowShape ([] : List (RowUpdate ι)) o₀) : Spaced req es := by
  constructor
  · intro us e e' vs n next message failedAt hes hp
    rw [hes] at h
    obtain ⟨o', h', hm, hm'⟩ := h.next
    rw [hp] at hm hm'
    obtain ⟨rfl, rfl⟩ := hm.of_transientFailure
    refine ⟨by rw [(h'.shape h₀).attempts], ?_, ?_⟩
    · simp [calculateOutboxBackoffMs, outboxRetryBaseDelayMs, outboxRetryMaxDelayMs]
    · rcases hm'.guard with hs | ⟨hs, -⟩
      · rcases eligible_cases hs with hs | ⟨-, hdue⟩
        · cases hs
        · simpa [OutboxEvent.patch] using hdue
      · cases hs
  · intro us e e' vs publishedAt hes hp
    rw [hes] at h
    obtain ⟨o', -, -, hm'⟩ := h.next
    rw [hp] at hm'
    rcases hm'.guard with hs | ⟨-, run, hq, hold⟩
    · exact absurd rfl (not_published_of_eligible hs)
    · exact ⟨run, hq, by simpa [OutboxEvent.patch] using hold⟩

end Trails

section Writes

variable {ws : List Write} {n : ℕ} {run : DispatchRun} {counts : JobData → Bool} {Good : Db → Prop}

def Write.isClean : Write → Prop
  | .updateOutboxEvent _ (.transientFailure _ _ message _) _ => ∃ error, message = sanitizeErrorMessage error
  | _ => True

structure Tidy (q : Request) (ws : List Write) : Prop where
  once : ∀ id, ws.countP (Write.updates id) ≤ 1
  task : ∀ id, ∀ x ∈ ws, Write.updates id x = true → q.isOutboxTask = true
  clean : ∀ x ∈ ws, x.isClean

def Unwritten (ws : List Write) (rows : List OutboxEvent) : Prop :=
  (∀ id, ws.countP (Write.updates id) + rows.countP (fun o => o.id = id) ≤ 1) ∧ ∀ x ∈ ws, x.isClean

theorem Unwritten.tidy {rows : List OutboxEvent} (h : Unwritten ws rows) : Tidy (.dispatchBatch run) ws :=
  ⟨fun id => le_trans (Nat.le_add_right _ _) (h.1 id), fun _ _ _ _ => rfl, h.2⟩

theorem Unwritten.update {o : OutboxEvent} {rows : List OutboxEvent} {p : OutboxEventPatch} {now : Time}
    (h : Unwritten ws (o :: rows)) (hp : (Write.updateOutboxEvent o.id p now).isClean) :
    Unwritten (ws ++ [.updateOutboxEvent o.id p now]) rows := by
  refine ⟨fun id => ?_, fun x hx => ?_⟩
  · have hid := h.1 id
    simp only [List.countP_cons, List.countP_append, List.countP_nil, Write.updates, decide_eq_true_eq] at hid ⊢
    omega
  · rcases List.mem_append.mp hx with hx | hx
    · exact h.2 x hx
    · rw [List.mem_singleton.mp hx]
      exact hp

theorem Unwritten.queued {rows : List OutboxEvent} {ws' : List Write} (h : Unwritten ws rows)
    (hws : ws' = [] ∨ ∃ id, ws' = [.markWebhookQueued id]) : Unwritten (ws ++ ws') rows := by
  rcases hws with rfl | ⟨id, rfl⟩
  · rwa [List.append_nil]
  · refine ⟨fun j => ?_, fun x hx => ?_⟩
    · have hj := h.1 j
      simpa [List.countP_append, Write.updates] using hj
    · rcases List.mem_append.mp hx with hx | hx
      · exact h.2 x hx
      · rw [List.mem_singleton.mp hx]
        trivial

theorem tidy_publish {o : OutboxEvent} {data : JobData} {rows : List OutboxEvent} {Q : Bool → List Write → ℕ → Prop}
    (h : Unwritten ws (o :: rows)) (hQ : ∀ b ws' n', Unwritten ws' rows → Q b ws' n') :
    Tally engine Good counts Q (fun _ _ _ => True) (publishOutboxEvent run o data) ws n := by
  apply tally_tryCatch
  apply tally_call
  · intro d held a ws₁ ls _ he
    have hnone : ws₁ = [] := by
      cases hout : run.outcome o.id with
      | failed message reached =>
        rw [hout] at he
        cases he
      | added =>
        rw [hout] at he
        cases he
        rfl
    rw [hnone, List.append_nil]
    apply tally_call
    · intro d' held' a' ws₂ ls₂ _ he₂
      have hqueued : ws₂ = [] ∨ ∃ id, ws₂ = [.markWebhookQueued id] := by
        rcases received_of_eval he₂ with ⟨rfl, -⟩ | ⟨id, -, rfl, -⟩
        · exact Or.inl rfl
        · exact Or.inr ⟨id, rfl⟩
      apply tally_call
      · intro d'' held'' a'' ws₃ ls₃ _ he₃
        cases he₃
        exact hQ _ _ _ ((h.queued hqueued).update trivial)
      · intro _ _ e _ he₃
        cases he₃
    · exact fun _ _ e _ he₂ => absurd he₂ (eval_not_refused (by simp) _ _ e)
  · intro d held e _ he
    apply tally_call
    · intro d' held' a ws₁ ls _ he₁
      cases he₁
      exact hQ _ _ _ (h.update ⟨e, rfl⟩)
    · intro _ _ e' _ he₁
      cases he₁

theorem tidy_dispatchEvents {rows : List OutboxEvent} {result : OutboxDispatchBatchResult} (h : Unwritten ws rows) :
    Tally engine Good counts (fun _ ws _ => Tidy (.dispatchBatch run) ws) (fun _ _ _ => True)
      (dispatchEvents run rows result) ws n := by
  induction rows generalizing ws n result with
  | nil => exact h.tidy
  | cons o rows ih =>
    unfold dispatchEvents
    cases hd : toJobData o with
    | error error =>
      obtain rfl := toJobData_error hd
      apply tally_call
      · intro d held a ws₁ ls _ he
        cases he
        exact ih (h.update trivial)
      · intro _ _ e _ he
        cases he
    | ok data =>
      apply tally_bind
      apply tidy_publish h
      intro b ws' n' h'
      cases b with
      | true => exact ih h'
      | false => exact h'.tidy

theorem tidy_reconcile (run : ReconcileRun) :
    Tally engine Good counts (fun _ ws _ => Tidy (.reconcileStalePublishedEvents run) ws) (fun _ _ _ => True)
      (reconcileStalePublishedEvents run) [] 0 := by
  apply tally_call
  · intro d held rows ws' ls _ he
    cases he
    refine ⟨fun id => ?_, fun _ _ _ _ => rfl, fun x hx => ?_⟩
    · rw [List.nil_append, List.countP_map]
      exact countP_id_le_one (nodup_staleEvents _ _ _ _ _ _ _) id
    · obtain ⟨o, -, rfl⟩ := List.mem_map.mp hx
      trivial
  · exact fun _ _ _ _ _ => trivial

def Write.updatesOutbox : Write → Bool
  | .updateOutboxEvent _ _ _ => true
  | _ => false

theorem updatesOutbox_of_eval {s : Stmt} {d : Db} {held : Lock → Bool} {a : s.Answer} {ws : List Write} {ls : List Lock}
    (h : eval s d held = .ok a ws ls) (hs : s.servesOutbox = false) : ∀ x ∈ ws, x.updatesOutbox = false := by
  intro x hx
  cases LockDiscipline.writes_of_eval h with
  | nothing => cases hx
  | updateOutboxEvent | requeueStale => cases hs
  | saveWebhookEvent | saveIdempotencyRecord | insertAttempt | insertOutboxEvent | markWebhookQueued
  | savePaymentIntent | insertIdempotencyRecord | insertPaymentIntent | insertWebhookEvent =>
    rw [List.mem_singleton.mp hx]
    rfl

theorem Tidy.of_quiet {q : Request} (h : ∀ x ∈ ws, x.updatesOutbox = false) : Tidy q ws := by
  have hquiet (id : Uuid) (x : Write) (hx : x ∈ ws) : Write.updates id x = false := by
    cases x with
    | updateOutboxEvent => cases h _ hx
    | _ => rfl
  refine ⟨fun id => ?_, fun id x hx hupd => ?_, fun x hx => ?_⟩
  · have hnone : ws.countP (Write.updates id) = 0 := List.countP_eq_zero.mpr (fun x hx => by simp [hquiet id x hx])
    omega
  · rw [hquiet id x hx] at hupd
    cases hupd
  · cases x with
    | updateOutboxEvent => cases h _ hx
    | _ => trivial

theorem tidy_quiet {rt : Runtime} {q : Request} (hq : q.isOutboxTask = false) :
    Tally engine Good counts (fun _ ws _ => Tidy q ws) (fun _ _ _ => True) (q.script rt) [] 0 := by
  have hprop : Propagates (fun s => s.servesOutbox = true → q.isOutboxTask = true) (q.script rt) := by
    apply q.propagates
    rintro run rfl
    cases hq
  apply tally_mono (hprop.tally (V := fun x => x.updatesOutbox = false) ?_ (fun x hx => by cases hx))
  · exact fun _ ws _ h => Tidy.of_quiet h
  · exact fun _ _ _ _ => trivial
  · intro s d held a ws ls hs he
    apply updatesOutbox_of_eval he
    by_contra hupd
    rw [hs (Bool.eq_true_of_not_eq_false hupd)] at hq
    cases hq

theorem tidy_script {rt : Runtime} (q : Request) :
    Tally engine Good counts (fun _ ws _ => Tidy q ws) (fun _ _ _ => True) (q.script rt) [] 0 := by
  cases q with
  | dispatchBatch run =>
    apply tally_bind
    apply tally_call
    · intro d held rows ws' ls _ he
      cases he
      refine tally_mono (tidy_dispatchEvents ⟨fun id => ?_, fun x hx => by cases hx⟩) (fun _ _ _ h => h) (fun _ _ _ h => h)
      rw [List.nil_append, List.countP_nil, Nat.zero_add]
      exact countP_id_le_one (nodup_eligibleEvents _ _ _ _ _ _) id
    · exact fun _ _ _ _ _ => trivial
  | reconcileStalePublishedEvents run =>
    apply tally_bind
    exact tally_mono (tidy_reconcile run) (fun _ _ _ h => h) (fun _ _ _ h => h)
  | createPaymentIntent | acceptBlockchainWebhook | processWebhookEvent => exact tidy_quiet rfl

end Writes

section Runs

variable {ι : Type} {rt : Runtime} {req : ι → Request} {ls : List (Label ι)} {σ σ' : SystemState ι}

theorem of_eq_none {id : Uuid} {i : ι} {x : Write} (h : Write.updates id x = false) : RowUpdate.of id (i, x) = none := by
  cases x with
  | updateOutboxEvent j p now => simpa [Write.updates, RowUpdate.of] using h
  | _ => rfl

theorem rowUpdates_nil {id : Uuid} (i : ι) {ws : List Write} (h : ∀ x ∈ ws, Write.updates id x = false) :
    (ws.map (fun x => (i, x))).filterMap (RowUpdate.of id) = [] := by
  rw [List.filterMap_eq_nil_iff]
  intro y hy
  obtain ⟨x, hx, rfl⟩ := List.mem_map.mp hy
  exact of_eq_none (h x hx)

def Request.Justifies (q : Request) (w : World Db JobData) (x : Write) : Prop :=
  match q with
  | .dispatchBatch run => DispatchWrite run w x
  | .reconcileStalePublishedEvents run => ReconcileWrite run w x
  | _ => True

theorem wp_justifies (q : Request) (w : World Db JobData) :
    wp discipline (q.script rt) (fun _ => False) [] w
      (fun _ held ws w => ∀ w', discipline.Rely held w w' → ∀ x ∈ ws, q.Justifies w' x)
      (fun _ held _ w => ∀ w', discipline.Rely held w w' → True) := by
  cases q with
  | dispatchBatch run =>
    apply wp_bind
    exact wp_mono (wp_dispatchBatch run w) (fun _ _ _ _ h => h) (fun _ _ _ _ _ _ _ => trivial)
  | reconcileStalePublishedEvents run =>
    apply wp_bind
    exact wp_mono (wp_reconcile run w) (fun _ _ _ _ h => h) (fun _ _ _ _ _ _ _ => trivial)
  | createPaymentIntent | acceptBlockchainWebhook | processWebhookEvent =>
    exact wp_mono (Request.pending _ w : Request.Pending rt _ w) (fun _ _ _ _ _ _ _ _ _ => trivial)
      (fun _ _ _ _ _ _ _ => trivial)

variable (rt req) in
def justifiedWrites : SessionProperty (spec rt req) (fun _ => True) :=
  .ofWp (spec rt req) (fun i _ ws w => ∀ x ∈ ws, (req i).Justifies w x) (fun _ _ _ => True)
    (fun {i w} _ => wp_justifies (req i) w)

theorem Request.Justifies.allowed {q : Request} {w : World Db JobData} {x : Write} (h : q.Justifies w x)
    (hq : q.isOutboxTask = true) : Allowed w.db x := by
  cases q with
  | dispatchBatch run => exact DispatchWrite.allowed h
  | reconcileStalePublishedEvents run => exact ReconcileWrite.allowed h
  | createPaymentIntent | acceptBlockchainWebhook | processWebhookEvent => cases hq

theorem get_view_updated {d : Db} {us vs : List Write} {id : Uuid} {p : OutboxEventPatch} {now : Time} {o : OutboxEvent}
    (h : ∀ x ∈ us ++ .updateOutboxEvent id p now :: vs, Allowed d x) (hus : ∀ x ∈ us, Write.updates id x = false)
    (hvs : ∀ x ∈ vs, Write.updates id x = false) (ho : d.outboxEvents.get id = some o) :
    (engine.view d (us ++ .updateOutboxEvent id p now :: vs)).outboxEvents.get id = some (o.patch p now) := by
  have hview : engine.view d (us ++ .updateOutboxEvent id p now :: vs) =
      engine.view ((engine.view d us).apply (.updateOutboxEvent id p now)) vs := by
    rw [Engine.view_append]
    rfl
  have hbefore := get_view_of_not_updated (fun x hx => h x (List.mem_append_left _ hx)) hus d
  rw [hview, get_view_of_not_updated (fun x hx => h x (List.mem_append_right us (List.mem_cons_of_mem _ hx))) hvs]
  refine (Table.get_update_self _ _).trans ?_
  rw [hbefore, ho]
  rfl

theorem Request.Justifies.moves {q : Request} {w : World Db JobData} {id : Uuid} {p : OutboxEventPatch} {now : Time}
    (h : q.Justifies w (.updateOutboxEvent id p now)) (hq : q.isOutboxTask = true)
    (hclean : (Write.updateOutboxEvent id p now).isClean) (hinv : OutboxInv w.db w.emitted) :
    ∃ o, w.db.outboxEvents.get id = some o ∧ Moves o q p now := by
  cases q with
  | dispatchBatch run =>
    cases h with
    | published o data ho hs hd hj => exact ⟨o, Table.get_of_mem ho, .published run hs⟩
    | transientFailure o message ho hs =>
      obtain ⟨error, rfl⟩ := hclean
      exact ⟨o, Table.get_of_mem ho, .failed run error hs⟩
    | nonRetryableFailure o message ho hs hd =>
      obtain ⟨c, hc⟩ := toJobData_of_deliverable (hinv.rows o ho)
      rw [hd] at hc
      cases hc
  | reconcileStalePublishedEvents run =>
    cases h with
    | requeued o ho hs =>
      simp only [isStale, Bool.and_eq_true, decide_eq_true_eq] at hs
      exact ⟨o, Table.get_of_mem ho, .requeued run hs.1.1.1.2 hs.1.2⟩
  | createPaymentIntent | acceptBlockchainWebhook | processWebhookEvent => cases hq

inductive RowStep (req : ι → Request) (σ σ' : SystemState ι) (id : Uuid) : List (RowUpdate ι) → Prop
  | kept (h : σ'.world.db.outboxEvents.get id = σ.world.db.outboxEvents.get id) : RowStep req σ σ' id []
  | moved (o : OutboxEvent) (e : RowUpdate ι) (ho : σ.world.db.outboxEvents.get id = some o)
      (hm : Moves o (req e.actor) e.patch e.now)
      (ho' : σ'.world.db.outboxEvents.get id = some (o.patch e.patch e.now)) : RowStep req σ σ' id [e]
  | created (j : ι) (config : WebhookEvents.WebhookConfig) (request : WebhookEvents.AcceptBlockchainWebhookRequest)
      (fresh : WebhookEvents.Fresh) (eventId : Text) (hq : req j = .acceptBlockchainWebhook config request fresh)
      (hj : σ'.phase j = .committed (.acceptance ⟨eventId, .accepted⟩)) (hid : fresh.outboxEventId = id)
      (hnone : σ.world.db.outboxEvents.get id = none)
      (ho' : σ'.world.db.outboxEvents.get id = some (WebhookEvents.newOutboxEvent fresh.webhookEventId fresh)) :
      RowStep req σ σ' id []

theorem rowStep_task {σ' : SystemState ι} {i : ι} {ws : List Write} (id : Uuid) (hq : (req i).isOutboxTask = true)
    (hjust : ∀ x ∈ ws, (req i).Justifies σ.world x) (htidy : Tidy (req i) ws)
    (hinv : OutboxInv σ.world.db σ.world.emitted) (hdb : σ'.world.db = engine.view σ.world.db ws) :
    RowStep req σ σ' id ((ws.map (fun x => (i, x))).filterMap (RowUpdate.of id)) := by
  have hallowed (x : Write) (hx : x ∈ ws) : Allowed σ.world.db x := (hjust x hx).allowed hq
  by_cases hupd : ∃ x ∈ ws, Write.updates id x = true
  swap
  · push Not at hupd
    have hnone : ∀ x ∈ ws, Write.updates id x = false := fun x hx => Bool.eq_false_iff.mpr (hupd x hx)
    rw [rowUpdates_nil i hnone]
    apply RowStep.kept
    rw [hdb, get_view_of_not_updated hallowed hnone]
  obtain ⟨us, x, vs, rfl, hx, hus, hvs⟩ := exists_update (htidy.once id) hupd
  cases x with
  | updateOutboxEvent j p now =>
    obtain rfl : j = id := by simpa [Write.updates] using hx
    have hmem : .updateOutboxEvent j p now ∈ us ++ .updateOutboxEvent j p now :: vs := by simp
    obtain ⟨o, ho, hm⟩ := (hjust _ hmem).moves hq (htidy.clean _ hmem) hinv
    have hentries : ((us ++ .updateOutboxEvent j p now :: vs).map (fun x => (i, x))).filterMap (RowUpdate.of j) =
        [⟨i, p, now⟩] := by
      rw [List.map_append, List.filterMap_append, rowUpdates_nil i hus, List.map_cons, List.filterMap_cons,
        rowUpdates_nil i hvs]
      simp [RowUpdate.of]
    rw [hentries]
    refine .moved o ⟨i, p, now⟩ ho hm ?_
    rw [hdb]
    exact get_view_updated hallowed hus hvs ho
  | _ => cases hx

theorem rowStep_quiet {i : ι} {r : Response} (id : Uuid) (hq : (req i).isOutboxTask = false)
    (hc : Commits rt σ.world (req i) r σ'.world.db) (hi : σ'.phase i = .committed r) : RowStep req σ σ' id [] := by
  generalize hreq : req i = q at hc hq
  generalize hd : σ'.world.db = d at hc
  cases hc with
  | paymentIntent hc =>
    apply RowStep.kept
    rw [hd]
    cases hc <;> rfl
  | acceptance hv ha =>
    cases ha with
    | alreadyAccepted =>
      apply RowStep.kept
      rw [hd]
    | accepted paymentIntentId hp he hn hid ho hfit =>
      rename_i config request fresh nonce dto
      by_cases hrow : fresh.outboxEventId = id
      · refine .created i config request fresh _ hreq hi hrow (hrow ▸ ho) ?_
        rw [hd, ← hrow]
        exact Table.get_insert_self ho
      · apply RowStep.kept
        rw [hd]
        exact Table.get_insert_of_ne _ _ (Ne.symm hrow)
  | dispatched | reconciled => cases hq
  | processed hp he hs =>
    apply RowStep.kept
    rw [hd]
    cases hs <;> rfl

def Originates (req : ι → Request) (σ : SystemState ι) (id : Uuid) (o₀ : OutboxEvent) : Prop :=
  ∃ j config request fresh eventId, req j = .acceptBlockchainWebhook config request fresh ∧
    σ.phase j = .committed (.acceptance ⟨eventId, .accepted⟩) ∧ fresh.outboxEventId = id ∧
    o₀ = WebhookEvents.newOutboxEvent fresh.webhookEventId fresh

theorem rowShape_new {id : Uuid} {o₀ : OutboxEvent} (h : Originates req σ id o₀) :
    RowShape ([] : List (RowUpdate ι)) o₀ := by
  obtain ⟨j, config, request, fresh, eventId, -, -, -, rfl⟩ := h
  constructor <;> simp [WebhookEvents.newOutboxEvent]

variable [DecidableEq ι]

theorem reachable_justified (h : runs rt req (State.init Db.empty) ls = some σ) {i : ι} {r : Response} {ws : List Write}
    (hi : σ.phase i = .running ⟨.ret r, ws, false⟩) : ∀ x ∈ ws, (req i).Justifies σ.world x := by
  obtain ⟨hsound, -, heverywhere⟩ := run_sessions (justifiedWrites rt req) (fun _ _ _ _ _ _ => trivial)
    (sound_init (spec rt req) Db.indexes_empty) trivial ((justifiedWrites rt req).everywhere_init Db.empty) h
  exact heverywhere i _ hi rfl σ.world (Discipline.Rely.refl hsound.inv)

theorem reachable_tidy (h : runs rt req (State.init Db.empty) ls = some σ) {i : ι} {r : Response} {ws : List Write}
    (hi : σ.phase i = .running ⟨.ret r, ws, false⟩) : Tidy (req i) ws := by
  have hprog (i : ι) : Tally engine (fun _ => True) (fun _ => false) (fun _ ws _ => Tidy (req i) ws) (fun _ _ _ => True)
      (scripts rt req i) [] 0 := tidy_script (req i)
  have htallied := tally_run hprog (fun us τ hτ => ⟨trivial, runs_not_faulted Db.indexes_empty hτ⟩) h i
  unfold Tallied at htallied
  rw [hi] at htallied
  exact htallied.2 rfl

theorem rowStep_of_step (h : runs rt req (State.init Db.empty) ls = some σ) {l : Label ι}
    (hs : step engine (scripts rt req) σ l = some σ') (id : Uuid) :
    RowStep req σ σ' id ((commits σ l).filterMap (RowUpdate.of id)) := by
  have hdb := db_step hs
  rcases commits_cases σ l with hnone | ⟨i, r, ws, rfl, hi, hws⟩
  · rw [hnone] at hdb ⊢
    apply RowStep.kept
    rw [hdb]
    rfl
  rw [hws, List.map_map] at hdb
  have hws' : ws.map (Prod.snd ∘ fun x => (i, x)) = ws := List.map_id ws
  rw [hws'] at hdb
  rw [hws]
  have htidy := reachable_tidy h hi
  cases hq : (req i).isOutboxTask with
  | true => exact rowStep_task id hq (reachable_justified h hi) htidy (reachable_outboxInv h) hdb
  | false =>
    rw [rowUpdates_nil i]
    · have hc : Commits rt σ.world (req i) r (engine.view σ.world.db ws) :=
        Request.Post.commits ((runs_sound Db.indexes_empty h).post hi)
      rw [← hdb] at hc
      apply rowStep_quiet id hq hc
      simp only [step, hi] at hs
      cases hs
      simp [State.close]
    · intro x hx
      by_contra hupd
      have htask := htidy.task id x hx (Bool.eq_true_of_not_eq_false hupd)
      rw [hq] at htask
      cases htask

variable (rt req) in
def rowHistory (ls : List (Label ι)) (id : Uuid) : List (RowUpdate ι) :=
  (log engine (scripts rt req) commits (State.init Db.empty) ls).filterMap (RowUpdate.of id)

def RowInv (req : ι → Request) (σ : SystemState ι) (id : Uuid) (es : List (RowUpdate ι)) : Prop :=
  match σ.world.db.outboxEvents.get id with
  | none => es = []
  | some o => ∃ o₀, Originates req σ id o₀ ∧ Trail req o₀ es o

theorem Originates.step {id : Uuid} {o₀ : OutboxEvent} (h : Originates req σ id o₀) {l : Label ι}
    (hs : step engine (scripts rt req) σ l = some σ') : Originates req σ' id o₀ := by
  obtain ⟨j, config, request, fresh, eventId, hq, hj, hid, ho⟩ := h
  have hrun : run engine (scripts rt req) σ [l] = some σ' := by simp [run, hs]
  have hj' : σ'.phase j = .committed (.acceptance ⟨eventId, .accepted⟩) := by rw [run_ended hrun (by rw [hj]; rfl), hj]
  exact ⟨j, config, request, fresh, eventId, hq, hj', hid, ho⟩

theorem RowInv.step {id : Uuid} {es es' : List (RowUpdate ι)} (h : RowInv req σ id es) {l : Label ι}
    (hs : step engine (scripts rt req) σ l = some σ') (hrow : RowStep req σ σ' id es') : RowInv req σ' id (es ++ es') := by
  unfold RowInv at h ⊢
  cases hrow with
  | kept hget =>
    rw [hget, List.append_nil]
    cases ho : σ.world.db.outboxEvents.get id with
    | none =>
      rw [ho] at h
      exact h
    | some o =>
      rw [ho] at h
      obtain ⟨o₀, horigin, htrail⟩ := h
      exact ⟨o₀, horigin.step hs, htrail⟩
  | moved o e ho hm ho' =>
    rw [ho] at h
    rw [ho']
    obtain ⟨o₀, horigin, htrail⟩ := h
    exact ⟨o₀, horigin.step hs, htrail.moved hm⟩
  | created j config request fresh eventId hq hj hid hnone ho' =>
    rw [hnone] at h
    subst h
    rw [ho']
    exact ⟨_, ⟨j, config, request, fresh, eventId, hq, hj, hid, rfl⟩, .created⟩

theorem reachable_rowInv (h : runs rt req (State.init Db.empty) ls = some σ) (id : Uuid) :
    RowInv req σ id (rowHistory rt req ls id) := by
  refine (run_history (P := fun ls σ => runs rt req (State.init Db.empty) ls = some σ ∧
    RowInv req σ id (rowHistory rt req ls id)) ?_ ⟨rfl, rfl⟩ h).2
  rintro ls σ l σ' ⟨hrun, hinv⟩ hs
  refine ⟨?_, ?_⟩
  · unfold runs at *
    rw [run_append, hrun]
    simp [run, hs]
  · have hsnoc : rowHistory rt req (ls ++ [l]) id = rowHistory rt req ls id ++ (commits σ l).filterMap (RowUpdate.of id) := by
      unfold rowHistory
      rw [log_snoc hrun, List.filterMap_append]
    rw [hsnoc]
    exact hinv.step hs (rowStep_of_step hrun hs id)

theorem outbox_row_lifecycle (h : runs rt req (State.init Db.empty) ls = some σ) {o : OutboxEvent}
    (ho : o ∈ σ.world.db.outboxEvents) :
    ∃ o₀, Originates req σ o.id o₀ ∧ Trail req o₀ (rowHistory rt req ls o.id) o ∧
      RowShape (rowHistory rt req ls o.id) o ∧ Spaced req (rowHistory rt req ls o.id) := by
  have hinv := reachable_rowInv h o.id
  have hget : σ.world.db.outboxEvents.get o.id = some o := Table.get_of_mem ho
  unfold RowInv at hinv
  rw [hget] at hinv
  obtain ⟨o₀, horigin, htrail⟩ := hinv
  have h₀ := rowShape_new horigin
  exact ⟨o₀, horigin, htrail, htrail.shape h₀, htrail.spaced h₀⟩

namespace Sample

inductive Attendant
  | provider
  | declined
  | retried
  | reconciler
deriving DecidableEq

def attendants : Attendant → Request
  | .provider => accept
  | .declined =>
    .dispatchBatch ⟨10, time, fun _ => false, fun _ => .failed "Connection is closed.".toList false, fun _ => time⟩
  | .retried => .dispatchBatch ⟨10, time + 5000, fun _ => false, fun _ => .added, fun _ => time + 5000⟩
  | .reconciler => .reconcileStalePublishedEvents ⟨500, 10, time + 10000, fun _ => false⟩

def attendance : List (Label Attendant) :=
  completes .provider 2 ++ completes .declined 3 ++ completes .retried 4 ++ completes .reconciler 1

end Sample

theorem outbox_row_lifecycle_sample : ∃ σ : SystemState Sample.Attendant,
    σ.world.db.outboxEvents.rows.map (fun o => (o.status, o.attempts)) = [(.failed, 1)] ∧
      ∀ o ∈ σ.world.db.outboxEvents, ∃ o₀, Originates Sample.attendants σ o.id o₀ ∧
        Trail Sample.attendants o₀ (rowHistory Sample.runtime Sample.attendants Sample.attendance o.id) o := by
  have hrun : (runs Sample.runtime Sample.attendants (State.init Db.empty) Sample.attendance).any (fun σ =>
      σ.world.db.outboxEvents.rows.map (fun o => (o.status, o.attempts)) = [(.failed, 1)]) = true := by
    decide +kernel
  obtain ⟨σ, hσ, hrows⟩ := (Option.any_eq_true _ _).mp hrun
  refine ⟨σ, of_decide_eq_true hrows, fun o ho => ?_⟩
  obtain ⟨o₀, horigin, htrail, -⟩ := outbox_row_lifecycle hσ ho
  exact ⟨o₀, horigin, htrail⟩

end Runs

end EventGateway
