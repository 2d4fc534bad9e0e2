import EventGateway.SessionInvariants
import Mathlib.Data.Nat.Notation
import Mathlib.Logic.Relation

namespace RelyGuarantee

open TransactionProgram Interleaving

variable {S : Type} {A : S → Type} {E D W L J R α β ι : Type} {eng : Engine S A E D W L J} (disc : Discipline eng)
  (G : World D J → Prop) (I : S → (L → Prop) → List W → World D J → Prop)

def guarded : Prog S A E α → (L → Prop) → List W → World D J → (α → (L → Prop) → List W → World D J → Prop) →
    (E → (L → Prop) → List W → World D J → Prop) → Prop
  | .ret a, held, ws, w, Q, _ => Q a held ws w
  | .throw e, held, ws, w, _, X => X e held ws w
  | .stmt s k, held, ws, w, Q, X => ∀ w', disc.Rely held w w' → G w' → I s held ws w' ∧
      ∀ others : L → Bool, (∀ l, held l → others l = false) →
        match eng.eval s (eng.view w'.db ws) others with
        | .ok a ws' ls => (∀ l ∈ ls, others l = false) →
            guarded (k (.ok a)) (fun l => held l ∨ l ∈ ls) (ws ++ ws') (w'.emit (eng.emits s)) Q X
        | .refused e => guarded (k (.error e)) held ws (w'.emit (eng.emits s)) Q X
        | .fault _ => True

variable {disc G I} {held : L → Prop} {ws : List W} {w : World D J}

theorem guarded_stmt {s : S} {k : Except E (A s) → Prog S A E α} {k' : Except E (A s) → Prog S A E β}
    {Q : α → (L → Prop) → List W → World D J → Prop} {Q' : β → (L → Prop) → List W → World D J → Prop}
    {X X' : E → (L → Prop) → List W → World D J → Prop} (h : guarded disc G I (.stmt s k) held ws w Q X)
    (hk : ∀ r {held ws w}, guarded disc G I (k r) held ws w Q X → guarded disc G I (k' r) held ws w Q' X') :
    guarded disc G I (.stmt s k') held ws w Q' X' := by
  intro w' hr hG
  obtain ⟨hI, hs⟩ := h w' hr hG
  refine ⟨hI, fun others ho => ?_⟩
  have hs := hs others ho
  cases he : eng.eval s (eng.view w'.db ws) others with
  | ok a ws' ls =>
    rw [he] at hs
    intro hl
    exact hk _ (hs hl)
  | refused e =>
    rw [he] at hs
    exact hk _ hs
  | fault e => trivial

theorem guarded_mono {p : Prog S A E α} {Q Q' : α → (L → Prop) → List W → World D J → Prop}
    {X X' : E → (L → Prop) → List W → World D J → Prop} (h : guarded disc G I p held ws w Q X)
    (hQ : ∀ a held ws w, Q a held ws w → Q' a held ws w) (hX : ∀ e held ws w, X e held ws w → X' e held ws w) :
    guarded disc G I p held ws w Q' X' := by
  induction p generalizing held ws w with
  | ret a => exact hQ _ _ _ _ h
  | throw e => exact hX _ _ _ _ h
  | stmt s k ih =>
    exact guarded_stmt h (fun r => ih r)

theorem guarded_bind {p : Prog S A E α} {f : α → Prog S A E β} {Q : β → (L → Prop) → List W → World D J → Prop}
    {X : E → (L → Prop) → List W → World D J → Prop}
    (h : guarded disc G I p held ws w (fun a held ws w => guarded disc G I (f a) held ws w Q X) X) :
    guarded disc G I (p >>= f) held ws w Q X := by
  induction p generalizing held ws w with
  | ret a => exact h
  | throw e => exact h
  | stmt s k ih =>
    exact guarded_stmt h (fun r => ih r)

theorem guarded_tryCatch {p : Prog S A E α} {h : E → Prog S A E α} {Q : α → (L → Prop) → List W → World D J → Prop}
    {X : E → (L → Prop) → List W → World D J → Prop}
    (hp : guarded disc G I p held ws w Q (fun e held ws w => guarded disc G I (h e) held ws w Q X)) :
    guarded disc G I (p.tryCatch h) held ws w Q X := by
  induction p generalizing held ws w with
  | ret a => exact hp
  | throw e => exact hp
  | stmt s k ih =>
    exact guarded_stmt hp (fun r => ih r)

theorem guarded_call {s : S} {f : A s → Prog S A E α} {Q : α → (L → Prop) → List W → World D J → Prop}
    {X : E → (L → Prop) → List W → World D J → Prop}
    (hI : ∀ w', disc.Rely held w w' → G w' → I s held ws w')
    (hok : ∀ w' others a ws' ls, disc.Rely held w w' → G w' → eng.eval s (eng.view w'.db ws) others = .ok a ws' ls →
      guarded disc G I (f a) (fun l => held l ∨ l ∈ ls) (ws ++ ws') (w'.emit (eng.emits s)) Q X)
    (hrefused : ∀ w' others e, disc.Rely held w w' → G w' → eng.eval s (eng.view w'.db ws) others = .refused e →
      X e held ws (w'.emit (eng.emits s))) :
    guarded disc G I (Prog.call s >>= f) held ws w Q X := by
  intro w' hr hG
  refine ⟨hI w' hr hG, fun others ho => ?_⟩
  cases he : eng.eval s (eng.view w'.db ws) others with
  | ok a ws' ls => exact fun _ => hok w' others a ws' ls hr hG he
  | refused e => exact hrefused w' others e hr hG he
  | fault e => trivial

variable {prog : ι → Prog S A E R}

def SessionProperty.ofGuarded (spec : Specification disc prog)
    (hstart : ∀ i w, G w →
      guarded disc G I (prog i) (fun _ => False) [] w (fun _ _ _ _ => True) (fun _ _ _ _ => True)) :
    SessionProperty spec G where
  Holds _ p held ws w := guarded disc G I p held ws w (fun _ _ _ _ => True) (fun _ _ _ _ => True)
  start hG := hstart _ _ hG
  later {i p held ws w w'} h hr _ := by
    cases p with
    | ret r => trivial
    | throw e => trivial
    | stmt s k => exact fun w₁ h₁ => h w₁ (hr.trans h₁)
  answered {i s k held ws w others a ws' ls} h hi hG ho he hl := by
    have hs := (h w (Discipline.Rely.refl hi) hG).2 others ho
    rw [he] at hs
    exact hs hl
  refused {i s k held ws w others e} h hi hG ho he := by
    have hs := (h w (Discipline.Rely.refl hi) hG).2 others ho
    rw [he] at hs
    exact hs

end RelyGuarantee

namespace Interleaving

open TransactionProgram

variable {S : Type} {A : S → Type} {E D W L J R ι : Type} [DecidableEq ι] (eng : Engine S A E D W L J)

inductive WaitsFor (σ : State S A E D W L J R ι) (i j : ι) : Prop
  | lock {s : S} {k : Except E (A s) → Prog S A E R} {ws : List W} {a : A s} {ws' : List W} {ls : List L} (l : L)
      (hi : σ.phase i = .running ⟨.stmt s k, ws, false⟩)
      (he : eng.eval s (eng.view σ.world.db ws) (σ.heldByOther i) = .ok a ws' ls) (hl : l ∈ ls)
      (hj : σ.holder l = some j) (hij : j ≠ i)

variable {eng} {σ : State S A E D W L J R ι} [DecidableEq L] {prog : ι → Prog S A E R}

theorem waitsFor_of_stuck {i : ι} {s : S} {k : Except E (A s) → Prog S A E R} {ws : List W} {f : Bool}
    (hi : σ.phase i = .running ⟨.stmt s k, ws, f⟩) (h : step eng prog σ (.exec i) = none) : ∃ j, WaitsFor eng σ i j := by
  cases f with
  | true =>
    simp only [step, hi] at h
    cases h
  | false =>
    simp only [step, hi, execStmt] at h
    split at h
    · rename_i a ws' ls he
      split_ifs at h with hfree
      simp only [List.all_eq_true, Bool.not_eq_true', not_forall, Bool.not_eq_false] at hfree
      obtain ⟨l, hl, hheld⟩ := hfree
      unfold State.heldByOther at hheld
      split at hheld
      · cases hheld
      · rename_i j hj
        exact ⟨j, .lock l hi he hl hj (of_decide_eq_true hheld)⟩
    · cases h
    · cases h

omit [DecidableEq ι] in
theorem not_transGen_of_rank {waits : ι → ι → Prop} (rank : ι → ℕ)
    (h : ∀ i j k, waits i j → waits j k → rank j < rank i) (i : ι) : ¬ Relation.TransGen waits i i := by
  intro hcycle
  have hlt (j k : ι) (hj : Relation.TransGen waits i j) (hk : waits j k) : rank j < rank i := by
    induction hj generalizing k with
    | single hij => exact h i _ k hij hk
    | tail hpath hjk ih => exact Nat.lt_trans (h _ _ k hjk hk) (ih _ hjk)
  obtain ⟨k, hk, -⟩ := Relation.TransGen.head'_iff.mp hcycle
  exact Nat.lt_irrefl _ (hlt i k hcycle hk)

end Interleaving
