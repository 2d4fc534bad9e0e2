import EventGateway.TransactionSoundness

namespace RelyGuarantee

open TransactionProgram Interleaving

variable {S : Type} {A : S → Type} {E D W L J R ι : Type} {eng : Engine S A E D W L J} {disc : Discipline eng}
  {prog : ι → Prog S A E R}

/-- `Holds i p held ws w` speaks of transaction `i` with `p` still to do, the locks `held` and the writes
`ws`, on the committed rows `w`. Every world of the run meets `G`. -/
structure SessionProperty (spec : Specification disc prog) (G : World D J → Prop) where
  Holds : ι → Prog S A E R → (L → Prop) → List W → World D J → Prop
  start : ∀ {i w}, G w → Holds i (prog i) (fun _ => False) [] w
  later : ∀ {i p held ws w w'}, Holds i p held ws w → disc.Rely held w w' → G w' → Holds i p held ws w'
  answered : ∀ {i s k held ws w others a ws' ls}, Holds i (.stmt s k) held ws w → disc.Inv w → G w →
    (∀ l, held l → others l = false) → eng.eval s (eng.view w.db ws) others = .ok a ws' ls →
    (∀ l ∈ ls, others l = false) →
    Holds i (k (.ok a)) (fun l => held l ∨ l ∈ ls) (ws ++ ws') (w.emit (eng.emits s))
  refused : ∀ {i s k held ws w others e}, Holds i (.stmt s k) held ws w → disc.Inv w → G w →
    (∀ l, held l → others l = false) → eng.eval s (eng.view w.db ws) others = .refused e →
    Holds i (k (.error e)) held ws (w.emit (eng.emits s))

variable {spec : Specification disc prog} {G : World D J → Prop}

def SessionProperty.Everywhere (Φ : SessionProperty spec G) (σ : State S A E D W L J R ι) : Prop :=
  ∀ i s, σ.phase i = .running s → s.faulted = false →
    Φ.Holds i s.rest (fun l => σ.holder l = some i) s.writes σ.world

theorem SessionProperty.everywhere_init (Φ : SessionProperty spec G) (d : D) :
    Φ.Everywhere (State.init d : State S A E D W L J R ι) := by
  intro i s hi
  cases hi

variable [DecidableEq ι] [DecidableEq L] {σ σ' : State S A E D W L J R ι}

theorem step_others (h : Sound spec σ) {l : Label ι} (hs : step eng prog σ l = some σ') {j : ι} (hj : j ≠ l.actor) :
    (∀ x, σ'.holder x = some j ↔ σ.holder x = some j) ∧
      disc.Rely (fun x => σ.holder x = some j) σ.world σ'.world := by
  obtain ⟨h', heff⟩ := step_effect h hs
  have hrely (hk : ∀ x, σ.holder x = some j → disc.Keeps x σ.world.db σ'.world.db) :
      disc.Rely (fun x => σ.holder x = some j) σ.world σ'.world := ⟨h'.inv, heff.evolves h, hk⟩
  have hsame (hdb : σ'.world.db = σ.world.db) (x : L) : disc.Keeps x σ.world.db σ'.world.db := by
    rw [hdb]
    exact disc.keeps_refl _ _
  cases step_cases hs with
  | start hi | refused hi | faulted hi | drained hi => exact ⟨fun _ => Iff.rfl, hrely (fun x _ => hsame rfl x)⟩
  | answered hi he hfree => exact ⟨lock_holder hfree hj, hrely (fun x _ => hsame rfl x)⟩
  | committed hi => exact ⟨fun x => (close_holder _ x).trans (and_iff_right hj), hrely (fun x hx => h.keeps hi hj hx)⟩
  | returned hi | rejected hi | aborted hi =>
    exact ⟨fun x => (close_holder _ x).trans (and_iff_right hj), hrely (fun x _ => hsame rfl x)⟩

theorem step_sessions (Φ : SessionProperty spec G) (h : Sound spec σ) (hG : G σ.world) (hG' : G σ'.world)
    (hΦ : Φ.Everywhere σ) {l : Label ι} (hs : step eng prog σ l = some σ') : Φ.Everywhere σ' := by
  intro j t hj hf
  by_cases hja : j ≠ l.actor
  · obtain ⟨hh, hr⟩ := step_others h hs hja
    have hheld : (fun x => σ'.holder x = some j) = (fun x => σ.holder x = some j) := funext fun x => propext (hh x)
    rw [(step_frame hs).1 j hja] at hj
    rw [hheld]
    exact Φ.later (hΦ j t hj hf) hr hG'
  obtain rfl : j = l.actor := not_not.mp hja
  cases step_cases hs with
  | @start i hi =>
    simp only [Label.actor, State.setPhase, Function.update_self, Phase.running.injEq] at hj
    subst hj
    have hnone : (fun x => σ.holder x = some i) = (fun _ => False) := by
      funext x
      refine eq_false (fun hx => ?_)
      obtain ⟨s, hs⟩ := h.owner x i hx
      rw [hi] at hs
      cases hs
    simp only [Label.actor, State.setPhase, hnone]
    exact Φ.start hG
  | @answered i s k ws ws' a ls hi he hfree =>
    simp only [Label.actor, State.setPhase, Function.update_self, Phase.running.injEq] at hj
    subst hj
    have hheld : (fun l => (σ.lock i ls).holder l = some i) = (fun l => σ.holder l = some i ∨ l ∈ ls) :=
      funext fun l => propext (lock_holder_self l)
    have hnext := Φ.answered (hΦ i _ hi rfl) h.inv hG (fun l hl => heldByOther_self hl) he hfree
    rw [← hheld] at hnext
    exact hnext
  | refused hi he =>
    simp only [Label.actor, State.setPhase, Function.update_self, Phase.running.injEq] at hj
    subst hj
    exact Φ.refused (hΦ _ _ hi rfl) h.inv hG (fun l hl => heldByOther_self hl) he
  | faulted hi | drained hi =>
    simp only [Label.actor, State.setPhase, Function.update_self, Phase.running.injEq] at hj
    subst hj
    cases hf
  | committed hi | returned hi | rejected hi | aborted hi => simp [Label.actor, State.close] at hj

theorem run_sessions (Φ : SessionProperty spec G)
    (hstep : ∀ σ l σ', Sound spec σ → G σ.world → Effect spec σ l σ' → G σ'.world) {ls : List (Label ι)}
    (h : Sound spec σ) (hG : G σ.world) (hΦ : Φ.Everywhere σ) (hr : run eng prog σ ls = some σ') :
    Sound spec σ' ∧ G σ'.world ∧ Φ.Everywhere σ' := by
  refine run_invariant (P := fun σ => Sound spec σ ∧ G σ.world ∧ Φ.Everywhere σ) ?_ ⟨h, hG, hΦ⟩ hr
  rintro σ l σ' ⟨hs, hw, hall⟩ he
  obtain ⟨hs', heff⟩ := step_effect hs he
  have hw' := hstep σ l σ' hs hw heff
  exact ⟨hs', hw', step_sessions Φ hs hw hw' hall he⟩

theorem step_committed (Φ : SessionProperty spec G) (h : Sound spec σ) (hΦ : Φ.Everywhere σ) {l : Label ι}
    (hs : step eng prog σ l = some σ') {j : ι} {r : R} (hj : σ'.phase j = .committed r) :
    σ.phase j = .committed r ∨ ∃ ws, l = .finish j ∧ σ'.world.db = eng.view σ.world.db ws ∧
      Φ.Holds j (.ret r) (fun x => σ.holder x = some j) ws σ.world := by
  by_cases hja : j ≠ l.actor
  · rw [(step_frame hs).1 j hja] at hj
    exact Or.inl hj
  obtain rfl : j = l.actor := not_not.mp hja
  cases step_cases hs with
  | committed hi =>
    simp only [Label.actor, State.close, Function.update_self, Phase.committed.injEq] at hj
    subst hj
    exact Or.inr ⟨_, rfl, rfl, hΦ _ _ hi rfl⟩
  | returned hi => exact (h.fails hi).elim
  | start hi | answered hi | refused hi | faulted hi | drained hi => simp [Label.actor, State.setPhase] at hj
  | rejected hi | aborted hi => simp [Label.actor, State.close] at hj

theorem step_rejected (Φ : SessionProperty spec G) (h : Sound spec σ) (hΦ : Φ.Everywhere σ) {l : Label ι}
    (hs : step eng prog σ l = some σ') {j : ι} {e : E} (hj : σ'.phase j = .rejected e) :
    σ.phase j = .rejected e ∨ disc.Fault e ∨
      ∃ ws, Φ.Holds j (.throw e) (fun x => σ.holder x = some j) ws σ.world := by
  by_cases hja : j ≠ l.actor
  · rw [(step_frame hs).1 j hja] at hj
    exact Or.inl hj
  obtain rfl : j = l.actor := not_not.mp hja
  cases step_cases hs with
  | @rejected i e' ws f hi =>
    simp only [Label.actor, State.close, Function.update_self, Phase.rejected.injEq] at hj
    subst hj
    cases f with
    | true => exact Or.inr (Or.inl (h.fails hi))
    | false => exact Or.inr (Or.inr ⟨ws, hΦ i _ hi rfl⟩)
  | start hi | answered hi | refused hi | faulted hi | drained hi => simp [Label.actor, State.setPhase] at hj
  | committed hi | returned hi | aborted hi => simp [Label.actor, State.close] at hj

def SessionProperty.ofWp (spec : Specification disc prog) {G : World D J → Prop} (Q : ι → R → List W → World D J → Prop)
    (X : ι → E → World D J → Prop)
    (hstart : ∀ {i w}, G w → wp disc (prog i) (fun _ => False) [] w
      (fun r held ws w => ∀ w', disc.Rely held w w' → Q i r ws w')
      (fun e held _ w => ∀ w', disc.Rely held w w' → X i e w')) : SessionProperty spec G where
  Holds i p held ws w := wp disc p held ws w
    (fun r held ws w => ∀ w', disc.Rely held w w' → Q i r ws w')
    (fun e held _ w => ∀ w', disc.Rely held w w' → X i e w')
  start hG := hstart hG
  later {i p held ws w w'} h hr _ := by
    cases p with
    | ret r => exact fun w₁ h₁ => h w₁ (hr.trans h₁)
    | throw e => exact fun w₁ h₁ => h w₁ (hr.trans h₁)
    | stmt s k => exact fun w₁ h₁ => h w₁ (hr.trans h₁)
  answered {i s k held ws w others a ws' ls} h hi _ ho he hl := by
    have hs := h w (Discipline.Rely.refl hi) others ho
    rw [he] at hs
    exact hs hl
  refused {i s k held ws w others e} h hi _ ho he := by
    have hs := h w (Discipline.Rely.refl hi) others ho
    rw [he] at hs
    exact hs

end RelyGuarantee
