import EventGateway.RelyGuarantee
import Mathlib.Tactic.SplitIfs

namespace RelyGuarantee

open TransactionProgram Interleaving

variable {S : Type} {A : S → Type} {E D W L J R ι : Type}

structure Specification {eng : Engine S A E D W L J} (disc : Discipline eng) (prog : ι → Prog S A E R) where
  Post : ι → R → World D J → D → Prop
  Reject : ι → E → World D J → Prop
  sound : ∀ i w, disc.Inv w → wp disc (prog i) (fun _ => False) [] w
    (fun r held ws w => ∀ w', disc.Rely held w w' → Post i r w' (eng.view w'.db ws))
    (fun e held _ w => ∀ w', disc.Rely held w w' → Reject i e w')
  inv_post : ∀ {i r w d}, Post i r w d → disc.Inv w → disc.Inv ⟨d, w.emitted⟩
  evolves_post : ∀ {i r w d}, Post i r w d → disc.Inv w → disc.Evolves w ⟨d, w.emitted⟩

variable {eng : Engine S A E D W L J} {disc : Discipline eng} {prog : ι → Prog S A E R}

def Pending (spec : Specification disc prog) (i : ι) (p : Prog S A E R) (held : L → Prop) (ws : List W)
    (w : World D J) : Prop :=
  wp disc p held ws w
    (fun r held ws w => ∀ w', disc.Rely held w w' → spec.Post i r w' (eng.view w'.db ws))
    (fun e held _ w => ∀ w', disc.Rely held w w' → spec.Reject i e w')

theorem Pending.later {spec : Specification disc prog} {i : ι} {p : Prog S A E R} {held : L → Prop}
    {ws : List W} {w w' : World D J} (h : Pending spec i p held ws w) (hr : disc.Rely held w w') :
    Pending spec i p held ws w' := by
  cases p with
  | ret r => exact fun w₁ h₁ => h w₁ (hr.trans h₁)
  | throw e => exact fun w₁ h₁ => h w₁ (hr.trans h₁)
  | stmt s k => exact fun w₁ h₁ => h w₁ (hr.trans h₁)

def SessionSound (spec : Specification disc prog) (σ : State S A E D W L J R ι) (i : ι)
    (s : Session S A E W R) : Prop :=
  if s.faulted then Fails eng disc.Fault s.rest
  else Pending spec i s.rest (fun l => σ.holder l = some i) s.writes σ.world ∧
    ∀ w ∈ s.writes, ∀ l ∈ disc.touches w, σ.holder l = some i

structure Sound (spec : Specification disc prog) (σ : State S A E D W L J R ι) : Prop where
  inv : disc.Inv σ.world
  session : ∀ i s, σ.phase i = .running s → SessionSound spec σ i s
  owner : ∀ l i, σ.holder l = some i → ∃ s, σ.phase i = .running s

theorem sound_init (spec : Specification disc prog) {d : D} (h : disc.Inv ⟨d, []⟩) :
    Sound spec (State.init d) :=
  ⟨h, fun _ _ hp => (by cases hp), fun _ _ hl => (by cases hl)⟩

section Sessions

variable {spec : Specification disc prog} {σ σ' : State S A E D W L J R ι}

theorem Sound.pending (h : Sound spec σ) {i : ι} {p : Prog S A E R} {ws : List W}
    (hi : σ.phase i = .running ⟨p, ws, false⟩) :
    Pending spec i p (fun l => σ.holder l = some i) ws σ.world ∧
      ∀ w ∈ ws, ∀ l ∈ disc.touches w, σ.holder l = some i := by
  have hsound := h.session i _ hi
  simpa only [SessionSound, Bool.false_eq_true, ↓reduceIte] using hsound

theorem Sound.fails (h : Sound spec σ) {i : ι} {p : Prog S A E R} {ws : List W}
    (hi : σ.phase i = .running ⟨p, ws, true⟩) : Fails eng disc.Fault p := by
  have hsound := h.session i _ hi
  simpa only [SessionSound, ↓reduceIte] using hsound

theorem Sound.post (h : Sound spec σ) {i : ι} {r : R} {ws : List W} (hi : σ.phase i = .running ⟨.ret r, ws, false⟩) :
    spec.Post i r σ.world (eng.view σ.world.db ws) := (h.pending hi).1 σ.world (Discipline.Rely.refl h.inv)

theorem Sound.keeps (h : Sound spec σ) {i j : ι} {p : Prog S A E R} {ws : List W}
    (hi : σ.phase i = .running ⟨p, ws, false⟩) (hj : j ≠ i) {l : L} (hl : σ.holder l = some j) :
    disc.Keeps l σ.world.db (eng.view σ.world.db ws) := by
  apply disc.keeps_view
  intro w hw hm
  have hown := (h.pending hi).2 w hw l hm
  rw [hl] at hown
  exact hj (Option.some.inj hown)

theorem Sound.rejects (h : Sound spec σ) {i : ι} {e : E} {ws : List W} {f : Bool}
    (hi : σ.phase i = .running ⟨.throw e, ws, f⟩) : spec.Reject i e σ.world ∨ disc.Fault e := by
  cases f with
  | true => exact Or.inr (h.fails hi)
  | false => exact Or.inl ((h.pending hi).1 σ.world (Discipline.Rely.refl h.inv))

end Sessions

inductive Effect (spec : Specification disc prog) [DecidableEq ι] (σ : State S A E D W L J R ι) :
    Label ι → State S A E D W L J R ι → Prop
  | quiet {l : Label ι} {σ' : State S A E D W L J R ι} (js : List J) (hw : σ'.world = σ.world.emit js)
      (hc : ∀ i r, σ'.phase i = .committed r ↔ σ.phase i = .committed r)
      (hr : ∀ i e, σ'.phase i = .rejected e ↔ σ.phase i = .rejected e) : Effect spec σ l σ'
  | commit {σ' : State S A E D W L J R ι} (i : ι) (r : R) (s : Session S A E W R)
      (hrun : σ.phase i = .running s) (hpost : spec.Post i r σ.world σ'.world.db)
      (he : σ'.world.emitted = σ.world.emitted) (hp : σ'.phase = Function.update σ.phase i (.committed r)) :
      Effect spec σ (.finish i) σ'
  | reject {σ' : State S A E D W L J R ι} (i : ι) (e : E) (s : Session S A E W R)
      (hrun : σ.phase i = .running s) (hrej : spec.Reject i e σ.world ∨ disc.Fault e)
      (hw : σ'.world = σ.world) (hp : σ'.phase = Function.update σ.phase i (.rejected e)) :
      Effect spec σ (.finish i) σ'

theorem SessionSound.transfer {spec : Specification disc prog} {σ σ' : State S A E D W L J R ι} {j : ι}
    {s : Session S A E W R} (h : SessionSound spec σ j s)
    (hh : ∀ l, σ'.holder l = some j ↔ σ.holder l = some j)
    (hr : disc.Rely (fun l => σ.holder l = some j) σ.world σ'.world) : SessionSound spec σ' j s := by
  unfold SessionSound at *
  split_ifs with hf
  · simpa [hf] using h
  · simp only [hf, Bool.false_eq_true, ↓reduceIte] at h
    have he : (fun l => σ'.holder l = some j) = (fun l => σ.holder l = some j) := funext fun l => propext (hh l)
    refine ⟨?_, fun w hw l hl => (hh l).mpr (h.2 w hw l hl)⟩
    rw [he]
    exact h.1.later hr

variable [DecidableEq ι]

theorem Sound.advance {spec : Specification disc prog} {σ σ' : State S A E D W L J R ι} (h : Sound spec σ)
    (i : ι) (s' : Session S A E W R) (js : List J) (hw : σ'.world = σ.world.emit js)
    (hp : σ'.phase = Function.update σ.phase i (.running s'))
    (hh : ∀ l j, j ≠ i → (σ'.holder l = some j ↔ σ.holder l = some j))
    (hs : SessionSound spec σ' i s') : Sound spec σ' := by
  have hrely (held : L → Prop) : disc.Rely held σ.world σ'.world := by
    rw [hw]
    exact Discipline.Rely.of_emit h.inv js
  refine ⟨(hrely (fun _ => False)).1, ?_, ?_⟩
  · intro j s hj
    by_cases hji : j = i
    · subst hji
      rw [hp, Function.update_self] at hj
      cases hj
      exact hs
    · rw [hp, Function.update_of_ne hji] at hj
      exact (h.session j s hj).transfer (fun l => hh l j hji) (hrely _)
  · intro l j hl
    by_cases hji : j = i
    · exact ⟨s', by rw [hji, hp, Function.update_self]⟩
    · rw [hp, Function.update_of_ne hji]
      exact h.owner l j ((hh l j hji).mp hl)

theorem Sound.ended {spec : Specification disc prog} {σ : State S A E D W L J R ι} (h : Sound spec σ)
    (i : ι) (d : D) (p : Phase S A E W R) (hp : ∀ s, p ≠ .running s) (hinv : disc.Inv ⟨d, σ.world.emitted⟩)
    (hev : disc.Evolves σ.world ⟨d, σ.world.emitted⟩)
    (hkeep : ∀ l j, j ≠ i → σ.holder l = some j → disc.Keeps l σ.world.db d) :
    Sound spec ({ σ with world := ⟨d, σ.world.emitted⟩ }.close i p) := by
  refine ⟨hinv, ?_, ?_⟩
  · intro j s hj
    by_cases hji : j = i
    · subst hji
      simp only [State.close, Function.update_self] at hj
      exact absurd hj (hp s)
    · simp only [State.close, Function.update_of_ne hji] at hj
      apply (h.session j s hj).transfer
      · intro l
        rw [close_holder]
        exact and_iff_right hji
      · exact ⟨hinv, hev, fun l hl => hkeep l j hji hl⟩
  · intro l j hl
    rw [close_holder] at hl
    obtain ⟨s, hs⟩ := h.owner l j hl.2
    exact ⟨s, by simpa [State.close, Function.update_of_ne hl.1] using hs⟩

theorem Effect.of_update {spec : Specification disc prog} {σ σ' : State S A E D W L J R ι} {l : Label ι} {i : ι}
    {p : Phase S A E W R} (js : List J) (hw : σ'.world = σ.world.emit js) (hp : σ'.phase = Function.update σ.phase i p)
    (hc : ∀ r, p ≠ .committed r ∧ σ.phase i ≠ .committed r) (hr : ∀ e, p ≠ .rejected e ∧ σ.phase i ≠ .rejected e) :
    Effect spec σ l σ' := by
  refine .quiet js hw ?_ ?_
  · intro j r
    rw [hp]
    by_cases hj : j = i
    · subst hj
      simp [hc r]
    · rw [Function.update_of_ne hj]
  · intro j e
    rw [hp]
    by_cases hj : j = i
    · subst hj
      simp [hr e]
    · rw [Function.update_of_ne hj]

theorem Effect.evolves {spec : Specification disc prog} {σ σ' : State S A E D W L J R ι} (h : Sound spec σ)
    {l : Label ι} (he : Effect spec σ l σ') :
    disc.Evolves σ.world σ'.world := by
  cases he with
  | quiet js hw hc hr => rw [hw]; exact disc.evolves_emit _ _
  | commit i r s hrun hpost he hp =>
    have hw : σ'.world = ⟨σ'.world.db, σ.world.emitted⟩ := by rw [← he]
    rw [hw]
    exact spec.evolves_post hpost h.inv
  | reject i e s hrun hrej hw hp => rw [hw]; exact disc.evolves_refl _

section Steps

variable {spec : Specification disc prog} {σ σ' : State S A E D W L J R ι}

theorem Sound.start (h : Sound spec σ) {i : ι} (hi : σ.phase i = .idle) :
    Sound spec (σ.setPhase i (.running ⟨prog i, [], false⟩)) := by
  have hheld : (fun l => σ.holder l = some i) = (fun _ => False) := by
    funext l
    refine eq_false (fun hl => ?_)
    obtain ⟨s, hs⟩ := h.owner l i hl
    rw [hi] at hs
    cases hs
  refine h.advance i _ [] (World.emit_nil _).symm rfl (fun _ _ _ => Iff.rfl) ?_
  simp only [SessionSound, Bool.false_eq_true, ↓reduceIte, State.setPhase, hheld]
  exact ⟨spec.sound i σ.world h.inv, fun w hw => by cases hw⟩

theorem Sound.refused (h : Sound spec σ) {i : ι} {s : S} {k : Except E (A s) → Prog S A E R} {ws : List W} {e : E}
    (hi : σ.phase i = .running ⟨.stmt s k, ws, false⟩)
    (he : eng.eval s (eng.view σ.world.db ws) (σ.heldByOther i) = .refused e) :
    Sound spec ({ σ with world := σ.world.emit (eng.emits s) }.setPhase i (.running ⟨k (.error e), ws, false⟩)) := by
  obtain ⟨hp, hcov⟩ := h.pending hi
  have hstep := hp σ.world (Discipline.Rely.refl h.inv) (σ.heldByOther i) (fun l hl => heldByOther_self hl)
  rw [he] at hstep
  refine h.advance i _ (eng.emits s) rfl rfl (fun _ _ _ => Iff.rfl) ?_
  simp only [SessionSound, Bool.false_eq_true, ↓reduceIte]
  exact ⟨hstep, hcov⟩

theorem Sound.faulted (h : Sound spec σ) {i : ι} {s : S} {k : Except E (A s) → Prog S A E R} {ws : List W} {e : E}
    (hi : σ.phase i = .running ⟨.stmt s k, ws, false⟩)
    (he : eng.eval s (eng.view σ.world.db ws) (σ.heldByOther i) = .fault e) :
    Sound spec ({ σ with world := σ.world.emit (eng.emits s) }.setPhase i (.running ⟨k (.error e), ws, true⟩)) := by
  have hstep := (h.pending hi).1 σ.world (Discipline.Rely.refl h.inv) (σ.heldByOther i) (fun l hl => heldByOther_self hl)
  rw [he] at hstep
  refine h.advance i _ (eng.emits s) rfl rfl (fun _ _ _ => Iff.rfl) ?_
  simpa only [SessionSound, ↓reduceIte] using hstep

theorem Sound.drained (h : Sound spec σ) {i : ι} {s : S} {k : Except E (A s) → Prog S A E R} {ws : List W}
    (hi : σ.phase i = .running ⟨.stmt s k, ws, true⟩) :
    Sound spec ({ σ with world := σ.world.emit (eng.emits s) }.setPhase i
      (.running ⟨k (eng.afterFault s), ws, true⟩)) := by
  have hf := h.fails hi
  refine h.advance i _ (eng.emits s) rfl rfl (fun _ _ _ => Iff.rfl) ?_
  simp only [SessionSound, ↓reduceIte]
  exact hf

variable [DecidableEq L]

theorem Sound.answered (h : Sound spec σ) {i : ι} {s : S} {k : Except E (A s) → Prog S A E R} {ws ws' : List W} {a : A s}
    {ls : List L} (hi : σ.phase i = .running ⟨.stmt s k, ws, false⟩)
    (he : eng.eval s (eng.view σ.world.db ws) (σ.heldByOther i) = .ok a ws' ls)
    (hfree : ∀ l ∈ ls, σ.heldByOther i l = false) :
    Sound spec (({ σ with world := σ.world.emit (eng.emits s) }.lock i ls).setPhase i
      (.running ⟨k (.ok a), ws ++ ws', false⟩)) := by
  obtain ⟨hp, hcov⟩ := h.pending hi
  have hstep := hp σ.world (Discipline.Rely.refl h.inv) (σ.heldByOther i) (fun l hl => heldByOther_self hl)
  rw [he] at hstep
  refine h.advance i _ (eng.emits s) rfl rfl (fun l j hji => lock_holder hfree hji l) ?_
  have hnext : Pending spec i (k (.ok a)) (fun l => σ.holder l = some i ∨ l ∈ ls) (ws ++ ws')
      (σ.world.emit (eng.emits s)) := hstep hfree
  have hheld : (fun l => σ.holder l = some i ∨ l ∈ ls) = (fun l => (σ.lock i ls).holder l = some i) :=
    funext fun l => propext (lock_holder_self l).symm
  rw [hheld] at hnext
  simp only [SessionSound, Bool.false_eq_true, ↓reduceIte]
  constructor
  · exact hnext
  · intro w hw l hl
    apply (lock_holder_self l).mpr
    rcases List.mem_append.mp hw with hw | hw
    · exact Or.inl (hcov w hw l hl)
    · exact Or.inr (disc.eval_touches he w hw l hl)

theorem step_effect (h : Sound spec σ) {l : Label ι} (he : step eng prog σ l = some σ') :
    Sound spec σ' ∧ Effect spec σ l σ' := by
  have hstay (i : ι) (p : Phase S A E W R) (hp : ∀ s, p ≠ .running s) : Sound spec (σ.close i p) :=
    h.ended i σ.world.db p hp h.inv (disc.evolves_refl _) (fun l _ _ _ => disc.keeps_refl l _)
  cases step_cases he with
  | start hi => exact ⟨h.start hi, .of_update [] (World.emit_nil _).symm rfl (by simp [hi]) (by simp [hi])⟩
  | answered hi heval hfree =>
    exact ⟨h.answered hi heval hfree, .of_update _ rfl rfl (by simp [hi]) (by simp [hi])⟩
  | refused hi heval => exact ⟨h.refused hi heval, .of_update _ rfl rfl (by simp [hi]) (by simp [hi])⟩
  | faulted hi heval => exact ⟨h.faulted hi heval, .of_update _ rfl rfl (by simp [hi]) (by simp [hi])⟩
  | drained hi => exact ⟨h.drained hi, .of_update _ rfl rfl (by simp [hi]) (by simp [hi])⟩
  | committed hi =>
    have hpost := h.post hi
    refine ⟨h.ended _ _ _ (by simp) (spec.inv_post hpost h.inv) (spec.evolves_post hpost h.inv) ?_,
      .commit _ _ _ hi hpost rfl rfl⟩
    exact fun l j hj hl => h.keeps hi hj hl
  | returned hi => exact (h.fails hi).elim
  | rejected hi => exact ⟨hstay _ _ (by simp), .reject _ _ _ hi (h.rejects hi) rfl rfl⟩
  | aborted hi =>
    exact ⟨hstay _ _ (by simp), .of_update [] (World.emit_nil _).symm rfl (by simp [hi]) (by simp [hi])⟩

theorem run_effect {P : State S A E D W L J R ι → Prop}
    (hP : ∀ σ l σ', Sound spec σ → P σ → Effect spec σ l σ' → P σ') {ls : List (Label ι)}
    (h : Sound spec σ) (h0 : P σ) (hr : run eng prog σ ls = some σ') : Sound spec σ' ∧ P σ' := by
  refine run_invariant (P := fun σ => Sound spec σ ∧ P σ) ?_ ⟨h, h0⟩ hr
  rintro σ l σ' ⟨hs, hp⟩ he
  obtain ⟨hs', heff⟩ := step_effect hs he
  exact ⟨hs', hP σ l σ' hs hp heff⟩

theorem run_evolves {ls : List (Label ι)} (h : Sound spec σ) (hr : run eng prog σ ls = some σ') :
    disc.Evolves σ.world σ'.world := by
  have := run_effect (P := fun τ => disc.Evolves σ.world τ.world)
    (fun _ _ _ hs hp he => disc.evolves_trans hp (he.evolves hs)) h (disc.evolves_refl _) hr
  exact this.2

end Steps

end RelyGuarantee
