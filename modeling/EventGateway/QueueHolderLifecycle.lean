import EventGateway.WebhookEventsQueueHolder

namespace EventGateway.WebhookEventsQueueHolder

open LabelledSteps

section Holder

variable {ν : Type} {h h' : Holder ν} {queue : ν} {built : Option ν}

structure Sound (h : Holder ν) : Prop where
  instances : h.created.Perm (h.currentQueue.toList ++ h.closed)
  nodup : h.created.Nodup
  marked : ∀ queue ∈ h.marked, queue ∈ h.created
  poisoned : ∀ queue, h.currentQueue = some queue → queue ∈ h.marked → h.poisoned = true

structure Evolves (h h' : Holder ν) : Prop where
  sound : Sound h'
  created : ∀ queue ∈ h.created, queue ∈ h'.created
  marked : ∀ queue ∈ h.marked, queue ∈ h'.marked
  destroyed : h.destroyed = true → h'.destroyed = true ∧ h'.created = h.created
  taken : h.destroyed = true → h.currentQueue = none → h'.currentQueue = none

def Handed (h : Holder ν) (queue : ν) : Prop := h.currentQueue = some queue ∧ h.poisoned = false

theorem Sound.evolves_of_fields (hs : Sound h) (hcurrent : h'.currentQueue = h.currentQueue)
    (hpoisoned : h'.poisoned = h.poisoned) (hcreated : h'.created = h.created) (hclosed : h'.closed = h.closed)
    (hmarked : h'.marked = h.marked) (hdestroyed : h.destroyed = true → h'.destroyed = true) : Evolves h h' := by
  constructor
  · constructor
    · rw [hcreated, hcurrent, hclosed]
      exact hs.instances
    · rw [hcreated]
      exact hs.nodup
    · rw [hmarked, hcreated]
      exact hs.marked
    · rw [hcurrent, hmarked, hpoisoned]
      exact hs.poisoned
  · rw [hcreated]
    exact fun _ => id
  · rw [hmarked]
    exact fun _ => id
  · exact fun hd => ⟨hdestroyed hd, hcreated⟩
  · rw [hcurrent]
    exact fun _ => id

theorem Sound.evolves_refl (hs : Sound h) : Evolves h h := hs.evolves_of_fields rfl rfl rfl rfl rfl id

theorem Evolves.trans {h'' : Holder ν} (h₁ : Evolves h h') (h₂ : Evolves h' h'') : Evolves h h'' := by
  constructor
  · exact h₂.sound
  · exact fun queue hq => h₂.created queue (h₁.created queue hq)
  · exact fun queue hq => h₂.marked queue (h₁.marked queue hq)
  · intro hd
    obtain ⟨hd', hcreated⟩ := h₁.destroyed hd
    exact ⟨(h₂.destroyed hd').1, (h₂.destroyed hd').2.trans hcreated⟩
  · exact fun hd hnone => h₂.taken (h₁.destroyed hd).1 (h₁.taken hd hnone)

theorem Sound.current_mem (hs : Sound h) (hcurrent : h.currentQueue = some queue) : queue ∈ h.created := by
  rw [hs.instances.mem_iff, hcurrent]
  simp

theorem Handed.not_marked (hs : Sound h) (hq : Handed h queue) : queue ∉ h.marked := by
  intro hm
  have hp := hs.poisoned queue hq.1 hm
  rw [hq.2] at hp
  cases hp

theorem Sound.takeQueue (hs : Sound h) : Evolves h (takeQueue h) := by
  constructor
  · constructor
    · exact hs.instances
    · exact hs.nodup
    · exact hs.marked
    · exact nofun
  · exact fun _ => id
  · exact fun _ => id
  · exact fun hd => ⟨hd, rfl⟩
  · exact fun _ _ => rfl

theorem Sound.recreateQueue (hs : Sound h) {queueToReplace : Option ν} (hok : recreateQueue h queueToReplace = .ok h') :
    Evolves h h' := by
  unfold WebhookEventsQueueHolder.recreateQueue at hok
  split_ifs at hok
  split at hok
  · obtain rfl := Except.ok.inj hok
    exact hs.evolves_refl
  · obtain rfl := Except.ok.inj hok
    exact hs.evolves_of_fields rfl rfl rfl rfl rfl id

theorem Sound.getHealthyQueueForPublish (hs : Sound h) {result : Option ν}
    (hok : getHealthyQueueForPublish h = .ok (result, h')) : Evolves h h' ∧ ∀ queue, result = some queue → Handed h' queue := by
  unfold WebhookEventsQueueHolder.getHealthyQueueForPublish at hok
  split_ifs at hok
  split at hok
  · rename_i q hcurrent hpoisoned
    simp only [Except.ok.injEq, Prod.mk.injEq] at hok
    obtain ⟨rfl, rfl⟩ := hok
    refine ⟨hs.evolves_refl, ?_⟩
    intro queue hq
    obtain rfl := Option.some.inj hq
    exact ⟨hcurrent, hpoisoned⟩
  · cases hrecreate : WebhookEventsQueueHolder.recreateQueue h h.currentQueue with
    | error e =>
      rw [hrecreate] at hok
      cases hok
    | ok h₁ =>
      rw [hrecreate] at hok
      simp only [Except.map, Except.ok.injEq, Prod.mk.injEq] at hok
      obtain ⟨rfl, rfl⟩ := hok
      exact ⟨hs.recreateQueue hrecreate, nofun⟩

variable [DecidableEq ν]

theorem Sound.evolves_markPoisoned (hs : Sound h) (hq : queue ∈ h.created) : Evolves h (markPoisoned h queue) := by
  constructor
  · constructor
    · exact hs.instances
    · exact hs.nodup
    · intro q hm
      rcases List.mem_cons.mp hm with rfl | hm
      · exact hq
      · exact hs.marked q hm
    · intro q hcurrent hm
      change h.currentQueue = some q at hcurrent
      simp only [markPoisoned]
      split_ifs with heq
      · rfl
      · rcases List.mem_cons.mp hm with rfl | hm
        · exact absurd hcurrent heq
        · exact hs.poisoned q hcurrent hm
  · exact fun _ => id
  · exact fun q hm => List.mem_cons_of_mem queue hm
  · exact fun hd => ⟨hd, rfl⟩
  · exact fun _ => id

theorem Sound.replaceQueue (hs : Sound h) (hfresh : isFresh h built = true)
    (hok : replaceQueue h h.currentQueue built = .ok (queue, h')) : Evolves h h' ∧ Handed h' queue := by
  unfold WebhookEventsQueueHolder.replaceQueue at hok
  split_ifs at hok with hdestroyed
  cases built with
  | none => cases hok
  | some new =>
    simp only [Except.ok.injEq, Prod.mk.injEq] at hok
    obtain ⟨rfl, rfl⟩ := hok
    have hnew : new ∉ h.created := by simpa [isFresh] using hfresh
    have hold : h.currentQueue.filter (fun old => old ≠ new) = h.currentQueue := by
      cases hcurrent : h.currentQueue with
      | none => rfl
      | some old =>
        have hne : old ≠ new := by
          rintro rfl
          exact hnew (hs.current_mem hcurrent)
        simp [Option.filter, hne]
    refine ⟨?_, rfl, rfl⟩
    constructor
    · constructor
      · rw [hold]
        exact hs.instances.cons new
      · exact List.nodup_cons.mpr ⟨hnew, hs.nodup⟩
      · exact fun q hm => List.mem_cons_of_mem new (hs.marked q hm)
      · intro q hcurrent hm
        obtain rfl : new = q := Option.some.inj hcurrent
        exact absurd (hs.marked new hm) hnew
    · exact fun q hq => List.mem_cons_of_mem new hq
    · exact fun _ => id
    · exact fun hd => absurd hd hdestroyed
    · exact fun hd => absurd hd hdestroyed

theorem Sound.getQueue (hs : Sound h) (hfresh : isFresh h built = true)
    (hok : getQueue h built = .ok (queue, h')) : Evolves h h' ∧ Handed h' queue := by
  unfold WebhookEventsQueueHolder.getQueue at hok
  split_ifs at hok
  split at hok
  · rename_i q hcurrent hpoisoned
    simp only [Except.ok.injEq, Prod.mk.injEq] at hok
    obtain ⟨rfl, rfl⟩ := hok
    exact ⟨hs.evolves_refl, hcurrent, hpoisoned⟩
  · exact hs.replaceQueue hfresh hok

theorem Sound.recreateCallback (hs : Sound h) {queueToReplace : Option ν} (hfresh : isFresh h built = true)
    (hok : recreateCallback h queueToReplace built = .ok (queue, h')) : Evolves h h' ∧ Handed h' queue := by
  unfold WebhookEventsQueueHolder.recreateCallback at hok
  split at hok
  · rename_i old current hcurrent
    split_ifs at hok with hkeep
    · simp only [Except.ok.injEq, Prod.mk.injEq] at hok
      obtain ⟨rfl, rfl⟩ := hok
      exact ⟨hs.evolves_refl, hcurrent, hkeep.2⟩
    · exact hs.replaceQueue hfresh hok
  · exact hs.replaceQueue hfresh hok

theorem Sound.recreate (hs : Sound h) {queueToReplace : Option ν} {result : Except HolderError ν}
    (hfresh : isFresh h built = true) (hok : recreate h queueToReplace built = (result, h')) :
    Evolves h h' ∧ ∀ queue, result = .ok queue → Handed h' queue := by
  unfold WebhookEventsQueueHolder.recreate at hok
  split at hok
  · rename_i q h₁ hcallback
    simp only [Prod.mk.injEq] at hok
    obtain ⟨rfl, rfl⟩ := hok
    obtain ⟨hevolves, hhanded⟩ := hs.recreateCallback hfresh hcallback
    refine ⟨hevolves.trans (hevolves.sound.evolves_of_fields rfl rfl rfl rfl rfl id), ?_⟩
    intro queue hq
    obtain rfl := Except.ok.inj hq
    exact hhanded
  · simp only [Prod.mk.injEq] at hok
    obtain ⟨rfl, rfl⟩ := hok
    exact ⟨hs.evolves_of_fields rfl rfl rfl rfl rfl id, nofun⟩

end Holder

section Calls

variable {ν : Type} {h h' : Holder ν} {call call' : PublishCall ν}

def CallOk (h : Holder ν) (call : PublishCall ν) : Prop :=
  match call.phase with
  | .idle | .awaitsFirst => call.adds = []
  | .hasFirst firstQueue => call.adds = [] ∧ firstQueue ∈ h.created
  | .addsFirst firstQueue => call.adds = [(firstQueue, .pending)] ∧ firstQueue ∈ h.created
  | .awaitsRecreation firstQueue | .recreated firstQueue | .awaitsRetry firstQueue =>
    call.adds = [(firstQueue, .rejected)] ∧ firstQueue ∈ h.marked
  | .hasRetry firstQueue retryQueue =>
    call.adds = [(firstQueue, .rejected)] ∧ firstQueue ≠ retryQueue ∧ retryQueue ∈ h.created
  | .addsRetry firstQueue retryQueue =>
    call.adds = [(firstQueue, .rejected), (retryQueue, .pending)] ∧ firstQueue ≠ retryQueue ∧ retryQueue ∈ h.created
  | .resolved => (∃ queue, call.adds = [(queue, .resolved)]) ∨
    ∃ firstQueue retryQueue, firstQueue ≠ retryQueue ∧ call.adds = [(firstQueue, .rejected), (retryQueue, .resolved)]
  | .rejected _ => call.adds = [] ∨ (∃ queue, call.adds = [(queue, .rejected)]) ∨
    ∃ firstQueue retryQueue, firstQueue ≠ retryQueue ∧ call.adds = [(firstQueue, .rejected), (retryQueue, .rejected)]

theorem CallOk.evolves (hc : CallOk h call) (he : Evolves h h') : CallOk h' call := by
  unfold CallOk at hc ⊢
  cases hphase : call.phase with
  | idle => simpa only [hphase] using hc
  | awaitsFirst => simpa only [hphase] using hc
  | hasFirst q =>
    simp only [hphase] at hc ⊢
    exact ⟨hc.1, he.created q hc.2⟩
  | addsFirst q =>
    simp only [hphase] at hc ⊢
    exact ⟨hc.1, he.created q hc.2⟩
  | awaitsRecreation q =>
    simp only [hphase] at hc ⊢
    exact ⟨hc.1, he.marked q hc.2⟩
  | recreated q =>
    simp only [hphase] at hc ⊢
    exact ⟨hc.1, he.marked q hc.2⟩
  | awaitsRetry q =>
    simp only [hphase] at hc ⊢
    exact ⟨hc.1, he.marked q hc.2⟩
  | hasRetry q r =>
    simp only [hphase] at hc ⊢
    exact ⟨hc.1, hc.2.1, he.created r hc.2.2⟩
  | addsRetry q r =>
    simp only [hphase] at hc ⊢
    exact ⟨hc.1, hc.2.1, he.created r hc.2.2⟩
  | resolved => simpa only [hphase] using hc
  | rejected e => simpa only [hphase] using hc

structure RetriesOnce (call : PublishCall ν) : Prop where
  atMostTwo : call.adds.length ≤ 2
  retry : ∀ first second, call.adds = [first, second] → first.2 = .rejected ∧ first.1 ≠ second.1
  resolved : call.phase = .resolved → ∃ last, call.adds.getLast? = some last ∧ last.2 = .resolved

theorem retriesOnce_nil (hadds : call.adds = []) (hphase : call.phase ≠ .resolved) :
    RetriesOnce call := by
  constructor
  · simp [hadds]
  · simp [hadds]
  · exact fun h => absurd h hphase

theorem retriesOnce_single {add : ν × AddOutcome} (hadds : call.adds = [add])
    (hphase : call.phase = .resolved → add.2 = .resolved) : RetriesOnce call := by
  constructor
  · simp [hadds]
  · simp [hadds]
  · exact fun h => ⟨add, by rw [hadds]; rfl, hphase h⟩

theorem retriesOnce_pair {first retry : ν} {outcome : AddOutcome}
    (hadds : call.adds = [(first, .rejected), (retry, outcome)]) (hne : first ≠ retry)
    (hphase : call.phase = .resolved → outcome = .resolved) : RetriesOnce call := by
  constructor
  · simp [hadds]
  · intro a b h
    rw [hadds] at h
    simp only [List.cons.injEq, and_true] at h
    obtain ⟨rfl, rfl⟩ := h
    exact ⟨rfl, hne⟩
  · exact fun h => ⟨(retry, outcome), by rw [hadds]; rfl, hphase h⟩

theorem CallOk.retriesOnce (hc : CallOk h call) : RetriesOnce call := by
  unfold CallOk at hc
  split at hc
  all_goals rename_i hphase
  · exact retriesOnce_nil hc (by simp [hphase])
  · exact retriesOnce_nil hc (by simp [hphase])
  · exact retriesOnce_nil hc.1 (by simp [hphase])
  · exact retriesOnce_single hc.1 (by simp [hphase])
  · exact retriesOnce_single hc.1 (by simp [hphase])
  · exact retriesOnce_single hc.1 (by simp [hphase])
  · exact retriesOnce_single hc.1 (by simp [hphase])
  · exact retriesOnce_single hc.1 (by simp [hphase])
  · exact retriesOnce_pair hc.1 hc.2.1 (by simp [hphase])
  · obtain ⟨queue, hadds⟩ | ⟨first, retry, hne, hadds⟩ := hc
    · exact retriesOnce_single hadds (fun _ => rfl)
    · exact retriesOnce_pair hadds hne (fun _ => rfl)
  · obtain hadds | ⟨queue, hadds⟩ | ⟨first, retry, hne, hadds⟩ := hc
    · exact retriesOnce_nil hadds (by simp [hphase])
    · exact retriesOnce_single hadds (by simp [hphase])
    · exact retriesOnce_pair hadds hne (by simp [hphase])

def Phase.received : Phase ν → Option ν
  | .hasFirst firstQueue | .addsFirst firstQueue | .awaitsRecreation firstQueue | .recreated firstQueue
  | .awaitsRetry firstQueue => some firstQueue
  | .hasRetry _ retryQueue | .addsRetry _ retryQueue => some retryQueue
  | _ => none

structure Advances (h' : Holder ν) (call call' : PublishCall ν) : Prop where
  ok : CallOk h' call'
  received : ∀ queue, call'.phase.received = some queue → call.phase.received = some queue ∨ queue ∉ h'.marked

theorem CallOk.advances (hc : CallOk h call) : Advances h call call := ⟨hc, fun _ hq => .inl hq⟩

theorem advances_promiseSettles (hs : Sound h') (hc : CallOk h' call) {result : Except HolderError ν}
    (hhanded : ∀ queue, result = .ok queue → Handed h' queue) :
    Advances h' call { call with phase := promiseSettles result call.phase } := by
  obtain ⟨phase, adds⟩ := call
  unfold CallOk at hc
  cases phase with
  | awaitsFirst =>
    cases result with
    | error e => exact ⟨.inl hc, nofun⟩
    | ok queue =>
      have hq := hhanded queue rfl
      refine ⟨⟨hc, hs.current_mem hq.1⟩, ?_⟩
      intro q hreceived
      obtain rfl : queue = q := Option.some.inj hreceived
      exact .inr (hq.not_marked hs)
  | awaitsRecreation firstQueue =>
    cases result with
    | error e => exact ⟨.inr (.inl ⟨firstQueue, hc.1⟩), nofun⟩
    | ok queue => exact ⟨hc, fun q hq => .inl hq⟩
  | awaitsRetry firstQueue =>
    cases result with
    | error e => exact ⟨.inr (.inl ⟨firstQueue, hc.1⟩), nofun⟩
    | ok queue =>
      have hq := hhanded queue rfl
      have hnot := hq.not_marked hs
      have hne : firstQueue ≠ queue := by
        rintro rfl
        exact hnot hc.2
      refine ⟨⟨hc.1, hne, hs.current_mem hq.1⟩, ?_⟩
      intro q hreceived
      obtain rfl : queue = q := Option.some.inj hreceived
      exact .inr hnot
  | idle => exact ⟨hc, fun q hq => .inl hq⟩
  | hasFirst firstQueue => exact ⟨hc, fun q hq => .inl hq⟩
  | addsFirst firstQueue => exact ⟨hc, fun q hq => .inl hq⟩
  | recreated firstQueue => exact ⟨hc, fun q hq => .inl hq⟩
  | hasRetry firstQueue retryQueue => exact ⟨hc, fun q hq => .inl hq⟩
  | addsRetry firstQueue retryQueue => exact ⟨hc, fun q hq => .inl hq⟩
  | resolved => exact ⟨hc, fun q hq => .inl hq⟩
  | rejected e => exact ⟨hc, fun q hq => .inl hq⟩

theorem publishStarts_cases (hs : Sound h) {has : ν → Phase ν} {awaits : Phase ν}
    (hstart : publishStarts call h has awaits = (call', h')) : Evolves h h' ∧
      ((∃ queue, call' = { call with phase := has queue } ∧ queue ∉ h'.marked ∧ queue ∈ h'.created) ∨
        call' = { call with phase := awaits } ∨ ∃ error, call' = { call with phase := .rejected error }) := by
  unfold publishStarts at hstart
  split at hstart
  all_goals
    simp only [Prod.mk.injEq] at hstart
    obtain ⟨rfl, rfl⟩ := hstart
  · rename_i queue h₁ hget
    obtain ⟨hevolves, hhanded⟩ := hs.getHealthyQueueForPublish hget
    have hq := hhanded queue rfl
    exact ⟨hevolves, .inl ⟨queue, rfl, hq.not_marked hevolves.sound, hevolves.sound.current_mem hq.1⟩⟩
  · rename_i h₁ hget
    exact ⟨(hs.getHealthyQueueForPublish hget).1, .inr (.inl rfl)⟩
  · exact ⟨hs.evolves_refl, .inr (.inr ⟨_, rfl⟩)⟩

theorem advances_publish (hs : Sound h) (hadds : call.adds = [])
    (hstart : publishStarts call h .hasFirst .awaitsFirst = (call', h')) : Evolves h h' ∧ Advances h' call call' := by
  obtain ⟨hevolves, ⟨queue, rfl, hnot, hmem⟩ | rfl | ⟨error, rfl⟩⟩ := publishStarts_cases hs hstart
  · refine ⟨hevolves, ⟨hadds, hmem⟩, ?_⟩
    intro q hreceived
    obtain rfl : queue = q := Option.some.inj hreceived
    exact .inr hnot
  · exact ⟨hevolves, hadds, nofun⟩
  · exact ⟨hevolves, .inl hadds, nofun⟩

theorem advances_retry (hs : Sound h) {firstQueue : ν} (hphase : call.phase = .recreated firstQueue)
    (hadds : call.adds = [(firstQueue, .rejected)]) (hmarked : firstQueue ∈ h.marked)
    (hstart : publishStarts call h (.hasRetry firstQueue) (.awaitsRetry firstQueue) = (call', h')) :
    Evolves h h' ∧ Advances h' call call' := by
  obtain ⟨hevolves, ⟨queue, rfl, hnot, hmem⟩ | rfl | ⟨error, rfl⟩⟩ := publishStarts_cases hs hstart
  · have hne : firstQueue ≠ queue := by
      rintro rfl
      exact hnot (hevolves.marked firstQueue hmarked)
    refine ⟨hevolves, ⟨hadds, hne, hmem⟩, ?_⟩
    intro q hreceived
    obtain rfl : queue = q := Option.some.inj hreceived
    exact .inr hnot
  · refine ⟨hevolves, ⟨hadds, hevolves.marked firstQueue hmarked⟩, ?_⟩
    intro q hreceived
    rw [hphase]
    exact .inl hreceived
  · exact ⟨hevolves, .inr (.inl ⟨firstQueue, hadds⟩), nofun⟩

theorem advances_resume (hs : Sound h) (hc : CallOk h call) (hresume : publishResumes call h = some (call', h')) :
    Evolves h h' ∧ Advances h' call call' := by
  obtain ⟨phase, adds⟩ := call
  unfold publishResumes at hresume
  unfold CallOk at hc
  split at hresume
  · rename_i firstQueue hphase
    simp only at hphase
    subst hphase
    simp only [Option.some.injEq, Prod.mk.injEq] at hresume
    obtain ⟨rfl, rfl⟩ := hresume
    obtain ⟨rfl, hmem⟩ := hc
    exact ⟨hs.evolves_refl, ⟨rfl, hmem⟩, fun q hq => .inl hq⟩
  · rename_i firstQueue hphase
    simp only at hphase
    subst hphase
    exact advances_retry hs rfl hc.1 hc.2 (Option.some.inj hresume)
  · rename_i firstQueue retryQueue hphase
    simp only at hphase
    subst hphase
    simp only [Option.some.injEq, Prod.mk.injEq] at hresume
    obtain ⟨rfl, rfl⟩ := hresume
    obtain ⟨rfl, hne, hmem⟩ := hc
    exact ⟨hs.evolves_refl, ⟨rfl, hne, hmem⟩, fun q hq => .inl hq⟩
  · cases hresume

variable [DecidableEq ν]

theorem advances_addSettles (hs : Sound h) (hc : CallOk h call) {resolves : Bool}
    (hsettles : publishAddSettles call h resolves = some (call', h')) : Evolves h h' ∧ Advances h' call call' := by
  obtain ⟨phase, adds⟩ := call
  unfold publishAddSettles at hsettles
  unfold CallOk at hc
  split at hsettles
  · rename_i firstQueue hphase
    simp only at hphase
    subst hphase
    obtain ⟨rfl, hmem⟩ := hc
    cases resolves with
    | true =>
      simp only [↓reduceIte, Option.some.injEq, Prod.mk.injEq] at hsettles
      obtain ⟨rfl, rfl⟩ := hsettles
      exact ⟨hs.evolves_refl, .inl ⟨firstQueue, rfl⟩, nofun⟩
    | false =>
      have hmark := hs.evolves_markPoisoned hmem
      simp only [Bool.false_eq_true, ↓reduceIte] at hsettles
      split at hsettles
      all_goals
        simp only [Option.some.injEq, Prod.mk.injEq] at hsettles
        obtain ⟨rfl, rfl⟩ := hsettles
      · rename_i h₁ hrecreate
        have hevolves := hmark.sound.recreateQueue hrecreate
        refine ⟨hmark.trans hevolves, ⟨rfl, hevolves.marked firstQueue List.mem_cons_self⟩, fun q hq => .inl hq⟩
      · exact ⟨hmark, .inr (.inl ⟨firstQueue, rfl⟩), nofun⟩
  · rename_i firstQueue retryQueue hphase
    simp only at hphase
    subst hphase
    obtain ⟨rfl, hne, hmem⟩ := hc
    cases resolves with
    | true =>
      simp only [↓reduceIte, Option.some.injEq, Prod.mk.injEq] at hsettles
      obtain ⟨rfl, rfl⟩ := hsettles
      exact ⟨hs.evolves_refl, .inr ⟨firstQueue, retryQueue, hne, rfl⟩, nofun⟩
    | false =>
      simp only [Bool.false_eq_true, ↓reduceIte, Option.some.injEq, Prod.mk.injEq] at hsettles
      obtain ⟨rfl, rfl⟩ := hsettles
      exact ⟨hs.evolves_markPoisoned hmem, .inr (.inr ⟨firstQueue, retryQueue, hne, rfl⟩), nofun⟩
  · cases hsettles

end Calls

section Runs

variable {ν κ : Type}

structure DestroyOk (h : Holder ν) (phase : DestroyPhase) : Prop where
  destroyed : phase ≠ .idle → h.destroyed = true
  taken : phase ≠ .idle → phase ≠ .awaitsRecreation → h.currentQueue = none

structure Inv (s : System ν κ) : Prop where
  sound : Sound s.holder
  publishes : ∀ call, CallOk s.holder (s.publishes call)
  destroys : ∀ call, DestroyOk s.holder (s.destroys call)

structure Moves (s s' : System ν κ) : Prop where
  holder : Evolves s.holder s'.holder
  publishes : ∀ call, Advances s'.holder (s.publishes call) (s'.publishes call)
  destroys : ∀ call, DestroyOk s'.holder (s'.destroys call)

theorem Moves.inv {s s' : System ν κ} (h : Moves s s') : Inv s' :=
  ⟨h.holder.sound, fun call => (h.publishes call).ok, h.destroys⟩

theorem DestroyOk.evolves {h h' : Holder ν} {phase : DestroyPhase} (hd : DestroyOk h phase) (he : Evolves h h') :
    DestroyOk h' phase := by
  constructor
  · exact fun hne => (he.destroyed (hd.destroyed hne)).1
  · exact fun hne hawaits => he.taken (hd.destroyed hne) (hd.taken hne hawaits)

theorem Inv.moves_holder {s : System ν κ} (hi : Inv s) {h : Holder ν} (he : Evolves s.holder h) :
    Moves s { s with holder := h } :=
  ⟨he, fun call => ((hi.publishes call).evolves he).advances, fun call => (hi.destroys call).evolves he⟩

theorem inv_initial : Inv (System.initial : System ν κ) := by
  constructor
  · exact ⟨.refl _, List.nodup_nil, nofun, nofun⟩
  · exact fun _ => rfl
  · exact fun _ => ⟨fun h => absurd rfl h, fun h => absurd rfl h⟩

variable [DecidableEq κ]

theorem Inv.moves_publish {s : System ν κ} (hi : Inv s) {h : Holder ν} {call : κ} {publish : PublishCall ν}
    (hadvances : Evolves s.holder h ∧ Advances h (s.publishes call) publish) :
    Moves s { s with holder := h, publishes := Function.update s.publishes call publish } := by
  refine ⟨hadvances.1, ?_, fun c => (hi.destroys c).evolves hadvances.1⟩
  intro c
  by_cases hc : c = call
  · subst hc
    simp only [Function.update_self]
    exact hadvances.2
  · simp only [Function.update_of_ne hc]
    exact ((hi.publishes c).evolves hadvances.1).advances

theorem Inv.moves_destroy {s : System ν κ} (hi : Inv s) {h : Holder ν} {call : κ} {phase : DestroyPhase}
    (he : Evolves s.holder h) (hphase : DestroyOk h phase) :
    Moves s { s with holder := h, destroys := Function.update s.destroys call phase } := by
  refine ⟨he, fun c => ((hi.publishes c).evolves he).advances, ?_⟩
  intro c
  by_cases hc : c = call
  · subst hc
    simp only [Function.update_self]
    exact hphase
  · simp only [Function.update_of_ne hc]
    exact (hi.destroys c).evolves he

theorem destroyOk_takeQueue {h : Holder ν} (hd : h.destroyed = true) (phase : DestroyPhase) : DestroyOk (takeQueue h) phase :=
  ⟨fun _ => hd, fun _ _ => rfl⟩

variable [DecidableEq ν]

theorem Inv.moves {s s' : System ν κ} (hi : Inv s) {label : Label ν κ} (hstep : step s label = some s') : Moves s s' := by
  cases label with
  | getQueue built =>
    simp only [step] at hstep
    split_ifs at hstep with hfresh
    split at hstep
    · rename_i queue h hget
      obtain rfl := Option.some.inj hstep
      exact hi.moves_holder (hi.sound.getQueue hfresh hget).1
    · obtain rfl := Option.some.inj hstep
      exact hi.moves_holder hi.sound.evolves_refl
  | publish call =>
    simp only [step] at hstep
    split at hstep
    · rename_i hphase
      obtain rfl := Option.some.inj hstep
      have hadds : (s.publishes call).adds = [] := by
        have hok := hi.publishes call
        unfold CallOk at hok
        rwa [hphase] at hok
      exact hi.moves_publish (advances_publish hi.sound hadds rfl)
    · cases hstep
  | resume call =>
    obtain ⟨⟨publish, h⟩, hresume, rfl⟩ := Option.map_eq_some_iff.mp hstep
    exact hi.moves_publish (advances_resume hi.sound (hi.publishes call) hresume)
  | addSettles call resolves =>
    obtain ⟨⟨publish, h⟩, hsettles, rfl⟩ := Option.map_eq_some_iff.mp hstep
    exact hi.moves_publish (advances_addSettles hi.sound (hi.publishes call) hsettles)
  | error queue =>
    simp only [step] at hstep
    split_ifs at hstep with hmem
    obtain rfl := Option.some.inj hstep
    exact hi.moves_holder (hi.sound.evolves_markPoisoned hmem)
  | recreate built =>
    simp only [step] at hstep
    split at hstep
    · rename_i queueToReplace hpending
      split_ifs at hstep with hfresh
      obtain rfl := Option.some.inj hstep
      obtain ⟨hevolves, hhanded⟩ := hi.sound.recreate hfresh (show recreate s.holder queueToReplace built = (_, _) from rfl)
      refine ⟨hevolves, ?_, fun call => (hi.destroys call).evolves hevolves⟩
      intro call
      exact advances_promiseSettles hevolves.sound ((hi.publishes call).evolves hevolves) hhanded
    · cases hstep
  | destroy call =>
    have hdestroy : Evolves s.holder { s.holder with destroyed := true } :=
      hi.sound.evolves_of_fields rfl rfl rfl rfl rfl (fun _ => rfl)
    simp only [step] at hstep
    split_ifs at hstep with hidle hpending
    · obtain rfl := Option.some.inj hstep
      exact hi.moves_destroy hdestroy ⟨fun _ => rfl, fun _ h => absurd rfl h⟩
    · obtain rfl := Option.some.inj hstep
      exact hi.moves_destroy (hdestroy.trans hdestroy.sound.takeQueue) (destroyOk_takeQueue rfl _)
  | destroyResumes call =>
    simp only [step] at hstep
    split_ifs at hstep with hawaits
    obtain rfl := Option.some.inj hstep
    have hd : s.holder.destroyed = true := (hi.destroys call).destroyed (by rw [hawaits.1]; exact nofun)
    exact hi.moves_destroy hi.sound.takeQueue (destroyOk_takeQueue hd _)
  | closeSettles call resolves =>
    simp only [step] at hstep
    by_cases hclosing : s.destroys call = .closing
    swap
    · rw [if_neg hclosing] at hstep
      cases hstep
    rw [if_pos hclosing] at hstep
    obtain rfl := Option.some.inj hstep
    have hd := hi.destroys call
    rw [hclosing] at hd
    exact hi.moves_destroy hi.sound.evolves_refl ⟨fun _ => hd.destroyed nofun, fun _ _ => hd.taken nofun nofun⟩

theorem inv_of_reachable {s : System ν κ} (hr : (machine ν κ).Reachable s) : Inv s :=
  hr.invariant inv_initial (fun _ _ _ hi hstep => (hi.moves hstep).inv)

theorem created_of_run {s s' : System ν κ} (hi : Inv s) (hd : s.holder.destroyed = true) (hrun : (machine ν κ).Runs s s') :
    s'.holder.created = s.holder.created := by
  have hkeep : Inv s' ∧ s'.holder.destroyed = true ∧ s'.holder.created = s.holder.created := by
    apply hrun.invariant (P := fun s' => Inv s' ∧ s'.holder.destroyed = true ∧ s'.holder.created = s.holder.created)
      ⟨hi, hd, rfl⟩
    intro s₁ label s₂ ih hstep
    have hmoves := ih.1.moves hstep
    obtain ⟨hd', hcreated⟩ := hmoves.holder.destroyed ih.2.1
    exact ⟨hmoves.inv, hd', hcreated.trans ih.2.2⟩
  exact hkeep.2.2

theorem Sound.count_closed {h : Holder ν} (hs : Sound h) {queue : ν} (hq : queue ∈ h.created) :
    h.closed.count queue = if h.currentQueue = some queue then 0 else 1 := by
  have hone : h.created.count queue = 1 := List.count_eq_one_of_mem hs.nodup hq
  rw [hs.instances.count_eq, List.count_append] at hone
  cases hcurrent : h.currentQueue with
  | none => simpa [hcurrent] using hone
  | some current =>
    by_cases heq : current = queue
    · subst heq
      simpa [hcurrent] using hone
    · simpa [hcurrent, heq] using hone

theorem queue_holder_lifecycle {s : System ν κ} (hr : (machine ν κ).Reachable s) :
    (∀ queue ∈ s.holder.created,
        s.holder.closed.count queue = if s.holder.currentQueue = some queue then 0 else 1) ∧
      (∀ call, s.destroys call ≠ .idle → ∀ s', (machine ν κ).Runs s s' → s'.holder.created = s.holder.created) ∧
      (∀ call, s.destroys call = .resolved → ∀ queue ∈ s.holder.created, s.holder.closed.count queue = 1) ∧
      (∀ call, RetriesOnce (s.publishes call)) ∧
      (∀ built queue h, isFresh s.holder built = true → getQueue s.holder built = .ok (queue, h) → queue ∉ h.marked) ∧
      (∀ label s' call queue, (machine ν κ).step s label = some s' → (s'.publishes call).phase.received = some queue →
        (s.publishes call).phase.received = some queue ∨ queue ∉ s'.holder.marked) := by
  have hi := inv_of_reachable hr
  refine ⟨fun queue hq => hi.sound.count_closed hq, ?_, ?_, ?_, ?_, ?_⟩
  · intro call hcall s' hrun
    exact created_of_run hi ((hi.destroys call).destroyed hcall) hrun
  · intro call hcall queue hq
    have hnone : s.holder.currentQueue = none :=
      (hi.destroys call).taken (by rw [hcall]; exact nofun) (by rw [hcall]; exact nofun)
    rw [hi.sound.count_closed hq, hnone, if_neg nofun]
  · exact fun call => (hi.publishes call).retriesOnce
  · intro built queue h hfresh hget
    obtain ⟨hevolves, hhanded⟩ := hi.sound.getQueue hfresh hget
    exact hhanded.not_marked hevolves.sound
  · intro label s' call queue hstep hreceived
    exact ((hi.moves hstep).publishes call).received queue hreceived

def sampleLabels : List (Label ℕ ℕ) :=
  [.publish 0, .recreate (some 0), .resume 0, .error 0, .addSettles 0 false, .recreate (some 1), .resume 0, .resume 0,
    .addSettles 0 true, .destroy 0, .closeSettles 0 true]

theorem queue_holder_lifecycle_sample : ∃ s : System ℕ ℕ, (machine ℕ ℕ).Reachable s ∧ s.destroys 0 = .resolved ∧
    s.holder.created = [1, 0] ∧ ∀ queue ∈ s.holder.created, s.holder.closed.count queue = 1 := by
  have hr := Machine.reachable_of_labels (m := machine ℕ ℕ) sampleLabels rfl
  exact ⟨_, hr, rfl, rfl, (queue_holder_lifecycle hr).2.2.1 0 rfl⟩

end Runs

end EventGateway.WebhookEventsQueueHolder
