import EventGateway.LockGuards

/-!
The transactions of the gateway never wait for each other in a circle. There is no
order of the locks behind this: a transaction that holds a confirmed intent or a
hash waits no more, and dispatchers wait for workers but not for dispatchers.
-/

namespace EventGateway

open KeyedTable TransactionProgram Interleaving RelyGuarantee Statements

def rank (d : Db) : Stmt → ℕ
  | .lockWebhookEvent _ | .insertIdempotencyRecord _ | .insertWebhookEvent _ _ => 4
  | .markWebhookQueued _ => 3
  | .lockPaymentIntent id => if (d.paymentIntents.get id).any (fun i => i.confirmedTxHash = none) then 2 else 1
  | _ => 1

inductive Awaits (d : Db) (held : Lock → Prop) (s : Stmt) (l : Lock) : Prop
  | first (hr : rank d s = 4)
  | event (o : OutboxEvent) (ho : o ∈ d.outboxEvents) (hlock : held (.outboxEvent o.id)) (hr : rank d s = 3)
      (hl : l = .webhookEvent o.aggregateId)
  | openIntent (id : Uuid) (hr : rank d s = 2) (hl : l = .paymentIntent id)
  | confirmedIntent (i : PaymentIntent) (hi : i ∈ d.paymentIntents) (hh : i.confirmedTxHash ≠ none)
      (hl : l = .paymentIntent i.id)
  | newIntent (id : Uuid) (hnone : d.paymentIntents.get id = none) (hl : l = .paymentIntent id)
  | newRow (id : Uuid) (hnone : d.outboxEvents.get id = none) (hl : l = .outboxEvent id)
  | txHash (h : Text) (hl : l = .confirmedTxHash h)

inductive Retains (d : Db) (held : Lock → Prop) (s : Stmt) (l : Lock) : Prop
  | event (id : Uuid) (hr : rank d s ≤ 2) (hl : l = .webhookEvent id)
  | openIntent (i : PaymentIntent) (hi : i ∈ d.paymentIntents) (hh : i.confirmedTxHash = none) (hr : rank d s ≤ 1)
      (hl : l = .paymentIntent i.id)
  | row (o : OutboxEvent) (ho : o ∈ d.outboxEvents) (hl : l = .outboxEvent o.id)
  | rowEvent (o : OutboxEvent) (ho : o ∈ d.outboxEvents) (hlock : held (.outboxEvent o.id))
      (hl : l = .webhookEvent o.aggregateId)
  | newEvent (id : Uuid) (hnone : d.webhookEvents.get id = none) (hl : l = .webhookEvent id)
  | idempotencyRecord (id : Uuid) (hl : l = .idempotencyRecord id)
  | idempotencyKey (scope key : Text) (hl : l = .idempotencyKey scope key)
  | externalEventId (provider eventId : Text) (hl : l = .externalEventId provider eventId)
  | nonce (provider nonce : Text) (hl : l = .nonce provider nonce)

section Ranks

variable {d : Db} {held held' : Lock → Prop} {s s' : Stmt} {l : Lock}

theorem Awaits.rank_lt (h : Awaits d held s l) (h' : Retains d held' s' l) (hle : rank d s' ≤ 3) (hinv : ∃ js, OutboxInv d js)
    (hdisjoint : ∀ x, held x → ¬ held' x) : rank d s' < rank d s := by
  obtain ⟨js, hinv⟩ := hinv
  cases h with
  | first hr => omega
  | event o ho hlock hr hl =>
    subst hl
    cases h' with
    | event id hr' hl' => omega
    | rowEvent o' ho' hlock' hl' =>
      -- one row announces the event, and it cannot be locked by both
      obtain rfl := hinv.unique o ho o' ho' (Lock.webhookEvent.inj hl')
      exact absurd hlock' (hdisjoint _ hlock)
    | newEvent id hnone hl' =>
      have hsome := (hinv.linked o.aggregateId).mpr ⟨o, ho, rfl⟩
      rw [Lock.webhookEvent.inj hl', hnone] at hsome
      cases hsome
    | openIntent _ _ _ _ hl' | row _ _ hl' | idempotencyRecord _ hl' | idempotencyKey _ _ hl'
    | externalEventId _ _ hl' | nonce _ _ hl' => cases hl'
  | openIntent id hr hl =>
    subst hl
    cases h' with
    | openIntent i hi hh hr' hl' => omega
    | event _ _ hl' | rowEvent _ _ _ hl' | newEvent _ _ hl' | row _ _ hl' | idempotencyRecord _ hl' | idempotencyKey _ _ hl'
    | externalEventId _ _ hl' | nonce _ _ hl' => cases hl'
  | confirmedIntent i hi hh hl =>
    subst hl
    cases h' with
    | openIntent i' hi' hh' hr' hl' =>
      obtain rfl : i = i' := Table.eq_of_key hi hi' (Lock.paymentIntent.inj hl')
      exact absurd hh' hh
    | event _ _ hl' | rowEvent _ _ _ hl' | newEvent _ _ hl' | row _ _ hl' | idempotencyRecord _ hl' | idempotencyKey _ _ hl'
    | externalEventId _ _ hl' | nonce _ _ hl' => cases hl'
  | newIntent id hnone hl =>
    subst hl
    cases h' with
    | openIntent i' hi' hh' hr' hl' =>
      have hget : d.paymentIntents.get i'.id = some i' := Table.get_of_mem hi'
      rw [← Lock.paymentIntent.inj hl', hnone] at hget
      cases hget
    | event _ _ hl' | rowEvent _ _ _ hl' | newEvent _ _ hl' | row _ _ hl' | idempotencyRecord _ hl' | idempotencyKey _ _ hl'
    | externalEventId _ _ hl' | nonce _ _ hl' => cases hl'
  | newRow id hnone hl =>
    subst hl
    cases h' with
    | row o ho hl' =>
      have hget : d.outboxEvents.get o.id = some o := Table.get_of_mem ho
      rw [← Lock.outboxEvent.inj hl', hnone] at hget
      cases hget
    | openIntent _ _ _ _ hl' | event _ _ hl' | rowEvent _ _ _ hl' | newEvent _ _ hl' | idempotencyRecord _ hl'
    | idempotencyKey _ _ hl' | externalEventId _ _ hl' | nonce _ _ hl' => cases hl'
  | txHash x hl =>
    subst hl
    cases h' with
    | openIntent _ _ _ _ hl' | event _ _ hl' | rowEvent _ _ _ hl' | newEvent _ _ hl' | row _ _ hl' | idempotencyRecord _ hl'
    | idempotencyKey _ _ hl' | externalEventId _ _ hl' | nonce _ _ hl' => cases hl'

end Ranks

section Waiting

def mayWait : Stmt → Bool
  | .lockWebhookEvent _ | .insertIdempotencyRecord _ | .insertWebhookEvent _ _ | .lockPaymentIntent _
  | .lockPaymentIntentByTxHash _ | .savePaymentIntent _ _ | .insertPaymentIntent _ | .insertOutboxEvent _
  | .markWebhookQueued _ => true
  | _ => false

variable {held : Lock → Prop} {ws ws' : List Write} {w : World Db JobData} {others : Lock → Bool} {s : Stmt} {a : s.Answer}
  {ls : List Lock} {l : Lock}

theorem mayWait_of_guard (hg : Guard s held ws w) (he : eval s (engine.view w.db ws) others = .ok a ws' ls) (hl : l ∈ ls)
    (hother : others l = true) (hself : ∀ x, held x → others x = false) : mayWait s = true := by
  have hown {x : Lock} (hx : l ∈ [x]) (h : held x) : False := by
    rw [List.mem_singleton.mp hx, hself x h] at hother
    cases hother
  have hskipped (h : others l = false) : False := by
    rw [h] at hother
    cases hother
  cases s with
  | lockWebhookEvent | insertIdempotencyRecord | insertWebhookEvent | lockPaymentIntent | lockPaymentIntentByTxHash
  | savePaymentIntent | insertPaymentIntent | insertOutboxEvent | markWebhookQueued => rfl
  | saveWebhookEvent | saveIdempotencyRecord | updateOutboxEvent =>
    cases he
    exact (hown hl hg).elim
  | insertAttempt row =>
    simp only [eval] at he
    split_ifs at he
    cases he
    exact (hown hl hg).elim
  | findEligibleEvents type limit now hidden =>
    cases he
    obtain ⟨o, ho, rfl⟩ := List.mem_map.mp hl
    have hm := List.mem_filter.mp ((List.mem_insertionSort _).mp (List.mem_of_mem_take ho))
    simp only [Bool.and_eq_true, Bool.not_eq_true'] at hm
    exact (hskipped hm.2.1.2).elim
  | requeueStale aggregateType type lastError publishedBefore limit now hidden =>
    cases he
    obtain ⟨o, ho, hl⟩ := List.mem_flatMap.mp hl
    have hm := List.mem_filter.mp ((List.mem_insertionSort _).mp (List.mem_of_mem_take ho))
    simp only [Bool.and_eq_true, Bool.not_eq_true'] at hm
    rcases List.mem_cons.mp hl with rfl | hl
    · exact (hskipped hm.2.1.1.2).elim
    · rw [List.mem_singleton.mp hl] at hskipped
      exact (hskipped hm.2.1.2).elim
  | publishProcessWebhookEvent data outcome =>
    cases outcome <;> cases he
    cases hl
  | findIdempotencyRecordById | findIdempotencyRecord | findWebhookEventByEventId | findWebhookEventByNonce =>
    cases he
    cases hl

theorem awaits_txHash {h : Option Text} (hl : l ∈ txHashLock h) : Awaits w.db held s l := by
  simp only [txHashLock, Option.mem_toList, Option.map_eq_some_iff] at hl
  obtain ⟨x, -, rfl⟩ := hl
  exact .txHash x rfl

theorem awaits_of_guard (hw : mayWait s = true) (hg : Guard s held ws w)
    (he : eval s (engine.view w.db ws) others = .ok a ws' ls) (hl : l ∈ ls) (hother : ¬ held l) : Awaits w.db held s l := by
  cases s with
  | lockWebhookEvent | insertIdempotencyRecord | insertWebhookEvent => exact .first rfl
  | lockPaymentIntent id =>
    simp only [eval, hg.2] at he
    split at he
    · cases he
      cases hl
    · rename_i i hget
      cases he
      by_cases hh : i.confirmedTxHash = none
      · exact .openIntent id (by simp [rank, hget, hh]) (List.mem_singleton.mp hl)
      · have hid : i.id = id := Table.key_of_get hget
        refine .confirmedIntent i (Table.mem_of_get hget) hh ?_
        rw [List.mem_singleton.mp hl, hid]
  | lockPaymentIntentByTxHash txHash =>
    simp only [eval, hg.2] at he
    split at he
    · cases he
      cases hl
    · rename_i i hfind
      cases he
      refine .confirmedIntent i (Table.mem_of_find hfind) ?_ (List.mem_singleton.mp hl)
      have hhash := Table.find_holds hfind
      simp only [decide_eq_true_eq] at hhash
      rw [hhash]
      simp
  | savePaymentIntent id p =>
    simp only [eval] at he
    split_ifs at he
    cases he
    rcases List.mem_cons.mp hl with rfl | hl
    · exact absurd hg.2 hother
    · exact awaits_txHash hl
  | insertPaymentIntent entity =>
    simp only [eval, hg.2] at he
    split at he
    · cases he
    split_ifs at he with hlong htaken
    cases he
    rcases List.mem_cons.mp hl with rfl | hl
    · simp only [Bool.or_eq_true, not_or, Bool.not_eq_true, Option.isSome_eq_false_iff, Option.isNone_iff_eq_none] at htaken
      exact .newIntent _ htaken.1 rfl
    · exact awaits_txHash hl
  | insertOutboxEvent row =>
    simp only [eval, hg.2] at he
    split_ifs at he with hrow
    cases he
    exact .newRow row.id (by simpa using hrow) (List.mem_singleton.mp hl)
  | markWebhookQueued t =>
    obtain ⟨-, o, ho, hlock, hparse⟩ := hg
    simp only [eval, hparse] at he
    split_ifs at he
    · cases he
      exact .event o ho hlock rfl (List.mem_singleton.mp hl)
    · cases he
      cases hl
  | _ => cases hw

theorem rank_lockPaymentIntent_le (d : Db) (id : Uuid) : rank d (.lockPaymentIntent id) ≤ 2 := by
  simp only [rank]
  split_ifs <;> omega

theorem retains_of_guard (hw : mayWait s = true) (hg : Guard s held ws w) (hl : held l) :
    Retains w.db held s l ∧ rank w.db s ≤ 3 := by
  have hintents (h : HoldsIntents held w.db) (hr : rank w.db s = 1) : Retains w.db held s l ∧ rank w.db s ≤ 3 := by
    refine ⟨?_, by omega⟩
    rcases h l hl with ⟨id, hl'⟩ | ⟨i, hi, hl', hh⟩
    · exact .event id (by omega) hl'
    · exact .openIntent i hi hh (by omega) hl'
  cases s with
  | lockWebhookEvent | insertIdempotencyRecord | insertWebhookEvent => exact absurd hl (hg l)
  | lockPaymentIntent id =>
    have hr := rank_lockPaymentIntent_le w.db id
    obtain ⟨id', hl'⟩ := hg.1 l hl
    exact ⟨.event id' hr hl', by omega⟩
  | lockPaymentIntentByTxHash txHash => exact hintents hg.1 rfl
  | savePaymentIntent id p => exact hintents hg.1 rfl
  | insertPaymentIntent entity =>
    refine ⟨?_, by simp [rank]⟩
    rcases hg.1 l hl with ⟨id, hl'⟩ | ⟨scope, key, hl'⟩
    · exact .idempotencyRecord id hl'
    · exact .idempotencyKey scope key hl'
  | insertOutboxEvent row =>
    refine ⟨?_, by simp [rank]⟩
    rcases hg.1 l hl with ⟨id, hl', hnone⟩ | ⟨provider, eventId, hl'⟩ | ⟨provider, nonce, hl'⟩
    · exact .newEvent id hnone hl'
    · exact .externalEventId provider eventId hl'
    · exact .nonce provider nonce hl'
  | markWebhookQueued t =>
    refine ⟨?_, by simp [rank]⟩
    obtain ⟨o, ho, hlock, hl' | hl'⟩ := hg.1 l hl
    · exact .row o ho hl'
    · exact .rowEvent o ho hlock hl'
  | _ => cases hw

end Waiting

section Runs

variable {ι₀ ι : Type} [DecidableEq ι₀] [DecidableEq ι] {rt : Runtime} {req : ι → Request} {d : Db} {ls : List (Label ι)}
  {σ σ' : SystemState ι}

theorem consistent_step {l : Label ι} (h : Consistent σ.world) (he : Effect (spec rt req) σ l σ') : Consistent σ'.world := by
  obtain ⟨⟨js, hinv⟩, hconf⟩ := h
  cases he with
  | quiet js' hw _ _ =>
    rw [hw]
    exact ⟨⟨js, hinv⟩, hconf⟩
  | commit i r s hrun hpost hem hp =>
    have hc := Request.Post.commits hpost
    refine ⟨⟨js ++ σ.world.emitted, ?_⟩, hc.confirmationInv hconf⟩
    have hinv' := hinv.mono (fun j hj => List.mem_append_left σ.world.emitted hj)
    exact hc.outboxInv_after hinv' (fun j hj => List.mem_append_right js hj)
  | reject i e s hrun hrej hw hp =>
    rw [hw]
    exact ⟨⟨js, hinv⟩, hconf⟩

theorem runs_guarded (hd : d.Indexes) (h0 : Consistent ⟨d, []⟩) (h : runs rt req (State.init d) ls = some σ) :
    Consistent σ.world ∧ ∀ i s k ws, σ.phase i = .running ⟨.stmt s k, ws, false⟩ →
      Guard s (fun l => σ.holder l = some i) ws σ.world := by
  let Φ : SessionProperty (spec rt req) Consistent := .ofGuarded (spec rt req) (fun i w _ => (req i).guarded w)
  obtain ⟨hsound, hcons, heverywhere⟩ := run_sessions Φ (fun _ _ _ _ hG he => consistent_step hG he)
    (sound_init (spec rt req) hd) h0 (Φ.everywhere_init d) h
  refine ⟨hcons, fun i s k ws hi => ?_⟩
  exact (heverywhere i _ hi rfl σ.world (Discipline.Rely.refl hsound.inv) hcons).1

def standing (σ : SystemState ι) (i : ι) : ℕ :=
  match σ.phase i with
  | .running ⟨.stmt s _, _, _⟩ => rank σ.world.db s
  | _ => 0

theorem standing_lt (hcons : Consistent σ.world) (hguard : ∀ i s k ws, σ.phase i = .running ⟨.stmt s k, ws, false⟩ →
    Guard s (fun l => σ.holder l = some i) ws σ.world) {i j k : ι} (hij : WaitsFor engine σ i j)
    (hjk : WaitsFor engine σ j k) : standing σ j < standing σ i := by
  have hwaits {i j : ι} (h : WaitsFor engine σ i j) : ∃ s k ws, σ.phase i = .running ⟨.stmt s k, ws, false⟩ ∧
      mayWait s = true ∧ ∃ l, σ.holder l = some j ∧ j ≠ i ∧ Awaits σ.world.db (fun l => σ.holder l = some i) s l := by
    cases h with
    | @lock s k ws a ws' ls l hi he hl hj hne =>
      have hg := hguard i s k ws hi
      have hother : σ.heldByOther i l = true := by simp [State.heldByOther, hj, hne]
      have hw := mayWait_of_guard hg he hl hother (fun x hx => heldByOther_self hx)
      refine ⟨s, k, ws, hi, hw, l, hj, hne, awaits_of_guard hw hg he hl ?_⟩
      rw [hj]
      exact fun h => hne (Option.some.inj h)
  obtain ⟨s, f, ws, hi, -, l, hl, hne, hawaits⟩ := hwaits hij
  obtain ⟨s', f', ws', hj, hw', -⟩ := hwaits hjk
  obtain ⟨hretains, hle⟩ := retains_of_guard hw' (hguard j s' f' ws' hj) hl
  simp only [standing, hi, hj]
  refine hawaits.rank_lt hretains hle hcons.1 ?_
  intro x hx hx'
  rw [hx] at hx'
  exact hne (Option.some.inj hx').symm

theorem runs_progress (hd : d.Indexes) (h0 : Consistent ⟨d, []⟩) (h : runs rt req (State.init d) ls = some σ) {i : ι}
    {t : Session Stmt Stmt.Answer Failure Write Response} (hi : σ.phase i = .running t) :
    ∃ j, (step engine (scripts rt req) σ (.exec j)).isSome = true ∨
      (step engine (scripts rt req) σ (.finish j)).isSome = true := by
  obtain ⟨hcons, hguard⟩ := runs_guarded hd h0 h
  have howner := (runs_sound hd h).owner
  -- a chain of waiting transactions goes down in rank, so it ends
  induction hn : standing σ i using Nat.strong_induction_on generalizing i t with
  | _ n ih =>
    obtain ⟨p, ws, f⟩ := t
    cases p with
    | ret r => exact ⟨i, Or.inr (by cases f <;> simp [step, hi])⟩
    | throw e => exact ⟨i, Or.inr (by simp [step, hi])⟩
    | stmt s k =>
      by_cases hstep : step engine (scripts rt req) σ (.exec i) = none
      swap
      · exact ⟨i, Or.inl (Option.isSome_iff_ne_none.mpr hstep)⟩
      obtain ⟨j, hij⟩ := waitsFor_of_stuck hi hstep
      obtain ⟨t', hj⟩ : ∃ t', σ.phase j = .running t' := by
        cases hij with
        | lock l _ _ _ hl _ => exact howner l j hl
      obtain ⟨p', ws', f'⟩ := t'
      cases p' with
      | ret r => exact ⟨j, Or.inr (by cases f' <;> simp [step, hj])⟩
      | throw e => exact ⟨j, Or.inr (by simp [step, hj])⟩
      | stmt s' k' =>
        by_cases hstep' : step engine (scripts rt req) σ (.exec j) = none
        · obtain ⟨m, hjm⟩ := waitsFor_of_stuck hj hstep'
          exact ih (standing σ j) (hn ▸ standing_lt hcons hguard hij hjm) hj rfl
        · exact ⟨j, Or.inl (Option.isSome_iff_ne_none.mpr hstep')⟩

theorem no_deadlock {req₀ : ι₀ → Request} {ls₀ : List (Label ι₀)} {σ₀ : SystemState ι₀}
    (h₀ : runs rt req₀ (State.init Db.empty) ls₀ = some σ₀) (h : runs rt req (State.init σ₀.world.db) ls = some σ) (i : ι) :
    ¬ Relation.TransGen (WaitsFor engine σ) i i := by
  have h0 : Consistent ⟨σ₀.world.db, []⟩ := ⟨⟨_, reachable_outboxInv h₀⟩, reachable_confirmationInv h₀⟩
  obtain ⟨hcons, hguard⟩ := runs_guarded (reachable_indexes h₀) h0 h
  apply not_transGen_of_rank (standing σ)
  intro i j k hij hjk
  exact standing_lt hcons hguard hij hjk

end Runs

namespace Sample

def deliveries : Fin 2 → Request := fun _ => process

def isAtStatement {ι : Type} (σ : SystemState ι) (i : ι) : Bool :=
  match σ.phase i with
  | .running ⟨.stmt _ _, _, _⟩ => true
  | _ => false

end Sample

theorem no_deadlock_sample : ∃ (σ₀ : SystemState Sample.Party) (σ : SystemState (Fin 2)),
    runs Sample.runtime Sample.requests (State.init Db.empty)
      (Sample.completes .merchant 4 ++ Sample.completes .provider 2) = some σ₀ ∧
    runs Sample.runtime Sample.deliveries (State.init σ₀.world.db) [.start 0, .exec 0, .start 1] = some σ ∧
    (∃ j, WaitsFor engine σ 1 j) ∧ ∀ i, ¬ Relation.TransGen (WaitsFor engine σ) i i := by
  have hrun : (runs Sample.runtime Sample.requests (State.init Db.empty)
      (Sample.completes .merchant 4 ++ Sample.completes .provider 2)).any (fun σ₀ =>
        (runs Sample.runtime Sample.deliveries (State.init σ₀.world.db) [.start 0, .exec 0, .start 1]).any (fun σ =>
          Sample.isAtStatement σ 1 &&
            (step engine (scripts Sample.runtime Sample.deliveries) σ (.exec 1)).isNone)) = true := by
    decide +kernel
  obtain ⟨σ₀, h₀, hrun⟩ := (Option.any_eq_true _ _).mp hrun
  obtain ⟨σ, h, hchecks⟩ := (Option.any_eq_true _ _).mp hrun
  rw [Bool.and_eq_true, Option.isNone_iff_eq_none] at hchecks
  refine ⟨σ₀, σ, h₀, h, ?_, no_deadlock h₀ h⟩
  have hphase := hchecks.1
  unfold Sample.isAtStatement at hphase
  split at hphase
  · rename_i hi
    exact waitsFor_of_stuck hi hchecks.2
  · cases hphase

end EventGateway
