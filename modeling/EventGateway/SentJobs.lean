import EventGateway.FaultPropagation

namespace Interleaving

open TransactionProgram RelyGuarantee

variable {S : Type} {A : S → Type} {E D W L J R α β ι : Type}

def SendsOnly (eng : Engine S A E D W L J) (K : J → Prop) : Prog S A E α → Prop
  | .ret _ | .throw _ => True
  | .stmt s k => (∀ j ∈ eng.emits s, K j) ∧ ∀ r, SendsOnly eng K (k r)

def SendsRead (eng : Engine S A E D W L J) (K : World D J → J → Prop) : Prog S A E α → Prop
  | .ret _ | .throw _ => True
  | .stmt s k => eng.emits s = [] ∧ (∀ w e, SendsOnly eng (K w) (k (.error e))) ∧
      ∀ w held a ws ls, eng.eval s (eng.view w.db []) held = .ok a ws ls → SendsOnly eng (K w) (k (.ok a))

section Rules

variable {eng : Engine S A E D W L J} {K K' : J → Prop}

theorem SendsOnly.mono {p : Prog S A E α} (h : SendsOnly eng K p) (hK : ∀ j, K j → K' j) : SendsOnly eng K' p := by
  induction p with
  | ret a => trivial
  | throw e => trivial
  | stmt s k ih => exact ⟨fun j hj => hK j (h.1 j hj), fun r => ih r (h.2 r)⟩

theorem SendsOnly.bind {p : Prog S A E α} {f : α → Prog S A E β} (hp : SendsOnly eng K p) (hf : ∀ a, SendsOnly eng K (f a)) :
    SendsOnly eng K (p >>= f) := by
  induction p with
  | ret a => exact hf a
  | throw e => trivial
  | stmt s k ih => exact ⟨hp.1, fun r => ih r (hp.2 r)⟩

theorem SendsOnly.tryCatch {p : Prog S A E α} {f : E → Prog S A E α} (hp : SendsOnly eng K p)
    (hf : ∀ e, SendsOnly eng K (f e)) : SendsOnly eng K (p.tryCatch f) := by
  induction p with
  | ret a => trivial
  | throw e => exact hf e
  | stmt s k ih => exact ⟨hp.1, fun r => ih r (hp.2 r)⟩

theorem sendsOnly_call {s : S} (hs : ∀ j ∈ eng.emits s, K j) : SendsOnly eng K (Prog.call s : Prog S A E (A s)) := by
  refine ⟨hs, fun r => ?_⟩
  cases r <;> trivial

theorem sendsOnly_call_bind {s : S} {f : A s → Prog S A E β} (hs : ∀ j ∈ eng.emits s, K j) (hf : ∀ a, SendsOnly eng K (f a)) :
    SendsOnly eng K (Prog.call s >>= f) :=
  (sendsOnly_call hs).bind hf

theorem Propagates.sendsOnly {P : S → Prop} {p : Prog S A E α} (hp : Propagates P p) (hP : ∀ s, P s → eng.emits s = []) :
    SendsOnly eng K p := by
  induction p with
  | ret a => trivial
  | throw e => trivial
  | stmt s k ih =>
    refine ⟨fun j hj => ?_, fun r => ?_⟩
    · rw [hP s hp.1] at hj
      cases hj
    · cases r with
      | error e =>
        rw [hp.2.1 e]
        trivial
      | ok a => exact ih _ (hp.2.2 a)

theorem SendsOnly.sendsRead {K : World D J → J → Prop} {p : Prog S A E α} (h : SendsOnly eng (fun _ => False) p) :
    SendsRead eng K p := by
  cases p with
  | ret a => trivial
  | throw e => trivial
  | stmt s k =>
    have hnone (r : Except E (A s)) (w : World D J) : SendsOnly eng (K w) (k r) := (h.2 r).mono fun _ hj => hj.elim
    exact ⟨List.eq_nil_iff_forall_not_mem.mpr h.1, fun w e => hnone _ w, fun w _ a _ _ _ => hnone _ w⟩

end Rules

section Runs

variable [DecidableEq ι] [DecidableEq L] {eng : Engine S A E D W L J} {disc : Discipline eng} {prog : ι → Prog S A E R}
  {spec : Specification disc prog} {K : World D J → J → Prop} {σ σ' : State S A E D W L J R ι}

structure Sourced (eng : Engine S A E D W L J) (prog : ι → Prog S A E R) (K : World D J → J → Prop)
    (σ : State S A E D W L J R ι) : Prop where
  emitted : ∀ j ∈ σ.world.emitted, K σ.world j
  sessions : ∀ i t, σ.phase i = .running t → t = ⟨prog i, [], false⟩ ∨ SendsOnly eng (K σ.world) t.rest

omit [DecidableEq ι] [DecidableEq L] in
theorem Sourced.emits (h : Sourced eng prog K σ) (hprog : ∀ i, SendsRead eng K (prog i)) {i : ι} {s : S}
    {k : Except E (A s) → Prog S A E R} {ws : List W} {f : Bool} (hi : σ.phase i = .running ⟨.stmt s k, ws, f⟩) :
    ∀ j ∈ eng.emits s, K σ.world j := by
  rcases h.sessions i _ hi with hstart | hsends
  · obtain ⟨hrest, -, -⟩ := Session.mk.inj hstart
    have hread := hprog i
    rw [← hrest] at hread
    rw [hread.1]
    exact fun j hj => by cases hj
  · exact hsends.1

theorem Sourced.step (h : Sourced eng prog K σ) (hsound : Sound spec σ)
    (hK : ∀ w w' j, disc.Evolves w w' → K w j → K w' j) (hprog : ∀ i, SendsRead eng K (prog i)) {l : Label ι}
    (hs : step eng prog σ l = some σ') : Sourced eng prog K σ' := by
  have hev : disc.Evolves σ.world σ'.world := (step_effect hsound hs).2.evolves hsound
  have hlater {p : Prog S A E R} (hp : SendsOnly eng (K σ.world) p) : SendsOnly eng (K σ'.world) p :=
    hp.mono fun j => hK _ _ j hev
  have hkept (j : J) (hj : j ∈ σ.world.emitted) : K σ'.world j := hK _ _ j hev (h.emitted j hj)
  refine ⟨?_, fun i t hi => ?_⟩
  · cases step_cases hs with
    | answered hi | refused hi | faulted hi | drained hi =>
      intro j hj
      rcases List.mem_append.mp hj with hj | hj
      · exact hkept j hj
      · exact hK _ _ j hev (h.emits hprog hi j hj)
    | start | committed | returned | rejected | aborted => exact hkept
  by_cases hil : i ≠ l.actor
  · rw [(step_frame hs).1 i hil] at hi
    exact (h.sessions i t hi).imp_right hlater
  obtain rfl : i = l.actor := not_not.mp hil
  -- the session that moved goes on with an answer, from the rows of the moment if it was its first
  have hnext {i : ι} {s : S} {k : Except E (A s) → Prog S A E R} {ws : List W} {f : Bool}
      (hi : σ.phase i = .running ⟨.stmt s k, ws, f⟩) (r : Except E (A s))
      (hr : f = false → ∀ a, r = .ok a → ∃ held ws' ls, eng.eval s (eng.view σ.world.db ws) held = .ok a ws' ls) :
      SendsOnly eng (K σ'.world) (k r) := by
    apply hlater
    rcases h.sessions i _ hi with hstart | hsends
    · obtain ⟨hrest, rfl, rfl⟩ := Session.mk.inj hstart
      have hread := hprog i
      rw [← hrest] at hread
      cases r with
      | error e => exact hread.2.1 _ e
      | ok a =>
        obtain ⟨held, ws', ls, heval⟩ := hr rfl a rfl
        exact hread.2.2 _ held a ws' ls heval
    · exact hsends.2 r
  cases step_cases hs with
  | start =>
    simp only [Label.actor, State.setPhase, Function.update_self, Phase.running.injEq] at hi
    exact .inl hi.symm
  | answered hrun heval =>
    simp only [Label.actor, State.setPhase, Function.update_self, Phase.running.injEq] at hi
    subst hi
    refine .inr (hnext hrun _ fun _ a ha => ?_)
    cases ha
    exact ⟨_, _, _, heval⟩
  | refused hrun | faulted hrun =>
    simp only [Label.actor, State.setPhase, Function.update_self, Phase.running.injEq] at hi
    subst hi
    exact .inr (hnext hrun _ fun _ a ha => by cases ha)
  | drained hrun =>
    simp only [Label.actor, State.setPhase, Function.update_self, Phase.running.injEq] at hi
    subst hi
    exact .inr (hnext hrun _ fun hf => by cases hf)
  | committed | returned | rejected | aborted => simp [Label.actor, State.close] at hi

theorem run_sent (hK : ∀ w w' j, disc.Evolves w w' → K w j → K w' j) (hprog : ∀ i, SendsRead eng K (prog i)) {d : D}
    (h : Sound spec (State.init d)) {ls : List (Label ι)} (hr : run eng prog (State.init d) ls = some σ) :
    ∀ j ∈ σ.world.emitted, K σ.world j := by
  have hrun : Sound spec σ ∧ Sourced eng prog K σ := by
    refine run_invariant (P := fun σ => Sound spec σ ∧ Sourced eng prog K σ) ?_ ⟨h, ?_, ?_⟩ hr
    · exact fun σ l σ' hP hs => ⟨(step_effect hP.1 hs).1, hP.2.step hP.1 hK hprog hs⟩
    · exact fun j hj => by cases hj
    · exact fun i t ht => by cases ht
  exact hrun.2.emitted

end Runs

end Interleaving
