import EventGateway.JobTally
import EventGateway.StatementGuards

namespace RelyGuarantee

open TransactionProgram Interleaving

variable {S : Type} {A : S → Type} {E D W L J R α β ι : Type} {eng : Engine S A E D W L J} {disc : Discipline eng}
  {prog : ι → Prog S A E R}

def SessionProperty.ofGuards (spec : Specification disc prog) {G : World D J → Prop}
    (I : ι → S → (L → Prop) → List W → World D J → Prop) (X : ι → E → Prop)
    (hstart : ∀ i w, G w → guarded disc G (I i) (prog i) (fun _ => False) [] w (fun _ _ _ _ => True) (fun e _ _ _ => X i e)) :
    SessionProperty spec G where
  Holds i p held ws w := guarded disc G (I i) p held ws w (fun _ _ _ _ => True) (fun e _ _ _ => X i e)
  start hG := hstart _ _ hG
  later {i p held ws w w'} h hr _ := by
    cases p with
    | ret r => trivial
    | throw e => exact h
    | stmt s k => exact fun w₁ h₁ => h w₁ (hr.trans h₁)
  answered {i s k held ws w others a ws' ls} h hi hG ho he hl := by
    have hs := (h w (Discipline.Rely.refl hi) hG).2 others ho
    rw [he] at hs
    exact hs hl
  refused {i s k held ws w others e} h hi hG ho he := by
    have hs := (h w (Discipline.Rely.refl hi) hG).2 others ho
    rw [he] at hs
    exact hs

end RelyGuarantee

namespace Interleaving

open TransactionProgram

variable {S : Type} {A : S → Type} {E D W L J R α β ι : Type}

def Propagates (P : S → Prop) : Prog S A E α → Prop
  | .ret _ | .throw _ => True
  | .stmt s k => P s ∧ (∀ e, k (.error e) = .throw e) ∧ ∀ a, Propagates P (k (.ok a))

section Rules

variable {P : S → Prop}

theorem propagates_call {s : S} (hs : P s) : Propagates P (Prog.call s : Prog S A E (A s)) :=
  ⟨hs, fun _ => rfl, fun _ => trivial⟩

theorem Propagates.bind {p : Prog S A E α} {f : α → Prog S A E β} (hp : Propagates P p) (hf : ∀ a, Propagates P (f a)) :
    Propagates P (p >>= f) := by
  induction p with
  | ret a => exact hf a
  | throw e => trivial
  | stmt s k ih =>
    refine ⟨hp.1, fun e => ?_, fun a => ih _ (hp.2.2 a)⟩
    change (k (.error e)).bind f = .throw e
    rw [hp.2.1 e]
    rfl

theorem propagates_call_bind {s : S} {f : A s → Prog S A E β} (hs : P s) (hf : ∀ a, Propagates P (f a)) :
    Propagates P (Prog.call s >>= f) :=
  (propagates_call hs).bind hf

theorem Propagates.tally {eng : Engine S A E D W L J} {Good : D → Prop} {counts : J → Bool} {V : W → Prop}
    {p : Prog S A E α} (hp : Propagates P p)
    (hV : ∀ s d held a ws ls, P s → eng.eval s d held = .ok a ws ls → ∀ x ∈ ws, V x) {ws : List W} {n : ℕ}
    (hws : ∀ x ∈ ws, V x) :
    Tally eng Good counts (fun _ ws _ => ∀ x ∈ ws, V x) (fun _ _ _ => True) p ws n := by
  induction p generalizing ws n with
  | ret a => exact hws
  | throw e => trivial
  | stmt s k ih =>
    intro d hd held
    cases he : eng.eval s (eng.view d ws) held with
    | ok a ws' ls =>
      apply ih _ (hp.2.2 a)
      intro x hx
      rcases List.mem_append.mp hx with hx | hx
      · exact hws x hx
      · exact hV s _ held a ws' ls hp.1 he x hx
    | refused e =>
      change Tally _ _ _ _ _ (k (.error e)) _ _
      rw [hp.2.1 e]
      trivial
    | fault e => trivial

end Rules

variable [DecidableEq ι] [DecidableEq L] {eng : Engine S A E D W L J} {prog : ι → Prog S A E R}
  {σ σ' : State S A E D W L J R ι}

def Faults (eng : Engine S A E D W L J) (σ : State S A E D W L J R ι) (i : ι) (s : S) (e : E) : Prop :=
  ∃ k ws, σ.phase i = .running ⟨.stmt s k, ws, false⟩ ∧ eng.eval s (eng.view σ.world.db ws) (σ.heldByOther i) = .fault e

theorem run_unfaulted {i : ι} {d : D} {ls : List (Label ι)} (h : run eng prog (State.init d) ls = some σ)
    (hF : ∀ us τ s e, run eng prog (State.init d) us = some τ → ¬ Faults eng τ i s e) {t : Session S A E W R}
    (ht : σ.phase i = .running t) : t.faulted = false := by
  refine (run_history (P := fun us τ => run eng prog (State.init d) us = some τ ∧
    ∀ t, τ.phase i = .running t → t.faulted = false) ?_ ⟨rfl, fun t ht => by cases ht⟩ h).2 t ht
  rintro us τ l τ' ⟨hrun, hinv⟩ hstep
  refine ⟨by rw [run_append, hrun]; simp [run, hstep], ?_⟩
  intro t ht
  by_cases hil : i ≠ l.actor
  · rw [(step_frame hstep).1 i hil] at ht
    exact hinv t ht
  obtain rfl : i = l.actor := not_not.mp hil
  cases step_cases hstep with
  | start | answered | refused =>
    simp only [Label.actor, State.setPhase, Function.update_self, Phase.running.injEq] at ht
    subst ht
    rfl
  | @faulted _ s k ws e hrun' heval => exact absurd ⟨k, ws, hrun', heval⟩ (hF us τ s e hrun)
  | drained hrun' => cases hinv _ hrun'
  | committed | returned | rejected | aborted => simp [Label.actor, State.close] at ht

def Remainder (P : S → Prop) (F : E → Prop) (t : Session S A E W R) : Prop :=
  if t.faulted then ∃ e, F e ∧ t.rest = .throw e else Propagates P t.rest

theorem run_remainder {P : S → Prop} {F : E → Prop} {i : ι} (hi : Propagates P (prog i)) {d : D} {ls : List (Label ι)}
    (h : run eng prog (State.init d) ls = some σ)
    (hF : ∀ us τ s e, run eng prog (State.init d) us = some τ → Faults eng τ i s e → F e)
    {t : Session S A E W R} (ht : σ.phase i = .running t) : Remainder P F t := by
  refine (run_history (P := fun us τ => run eng prog (State.init d) us = some τ ∧
    ∀ t, τ.phase i = .running t → Remainder P F t) ?_ ⟨rfl, fun t ht => by cases ht⟩ h).2 t ht
  rintro us τ l τ' ⟨hrun, hinv⟩ hstep
  refine ⟨by rw [run_append, hrun]; simp [run, hstep], ?_⟩
  intro t ht
  by_cases hil : i ≠ l.actor
  · rw [(step_frame hstep).1 i hil] at ht
    exact hinv t ht
  obtain rfl : i = l.actor := not_not.mp hil
  cases step_cases hstep with
  | start hidle =>
    simp only [Label.actor, State.setPhase, Function.update_self, Phase.running.injEq] at ht
    subst ht
    exact hi
  | answered hrun' heval hfree =>
    simp only [Label.actor, State.setPhase, Function.update_self, Phase.running.injEq] at ht
    subst ht
    exact (hinv _ hrun').2.2 _
  | @refused _ _ _ _ e hrun' heval =>
    simp only [Label.actor, State.setPhase, Function.update_self, Phase.running.injEq] at ht
    subst ht
    have hthrow := (hinv _ hrun').2.1 e
    simp only [Remainder, Bool.false_eq_true, ↓reduceIte, hthrow]
    trivial
  | @faulted _ s k ws e hrun' heval =>
    simp only [Label.actor, State.setPhase, Function.update_self, Phase.running.injEq] at ht
    subst ht
    exact ⟨e, hF us τ s e hrun ⟨k, ws, hrun', heval⟩, (hinv _ hrun').2.1 e⟩
  | drained hrun' =>
    obtain ⟨e, -, hthrow⟩ := hinv _ hrun'
    cases hthrow
  | committed | returned | rejected | aborted => simp [Label.actor, State.close] at ht

end Interleaving
