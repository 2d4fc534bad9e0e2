import EventGateway.Interleaving

/-!
Pre- and postconditions for interleaved transactions. A held lock keeps the
others from changing what it covers, so what a transaction has learned under a
lock still holds when it commits.
-/

namespace RelyGuarantee

open TransactionProgram Interleaving

variable {S : Type} {A : S → Type} {E D W L J R α β ι : Type}

structure Discipline (eng : Engine S A E D W L J) where
  touches : W → List L
  Keeps : L → D → D → Prop
  keeps_refl : ∀ l d, Keeps l d d
  keeps_trans : ∀ {l d₁ d₂ d₃}, Keeps l d₁ d₂ → Keeps l d₂ d₃ → Keeps l d₁ d₃
  keeps_apply : ∀ {l w} d, l ∉ touches w → Keeps l d (eng.apply d w)
  eval_touches : ∀ {s d held a ws ls}, eng.eval s d held = .ok a ws ls → ∀ w ∈ ws, ∀ l ∈ touches w, l ∈ ls
  Inv : World D J → Prop
  Evolves : World D J → World D J → Prop
  evolves_refl : ∀ w, Evolves w w
  evolves_trans : ∀ {w₁ w₂ w₃}, Evolves w₁ w₂ → Evolves w₂ w₃ → Evolves w₁ w₃
  inv_emit : ∀ {w} js, Inv w → Inv (w.emit js)
  evolves_emit : ∀ w js, Evolves w (w.emit js)
  Fault : E → Prop

variable {eng : Engine S A E D W L J} (disc : Discipline eng)

namespace Discipline

def Rely (held : L → Prop) (w w' : World D J) : Prop :=
  disc.Inv w' ∧ disc.Evolves w w' ∧ ∀ l, held l → disc.Keeps l w.db w'.db

theorem keeps_view {l : L} {ws : List W} (d : D) (h : ∀ w ∈ ws, l ∉ disc.touches w) :
    disc.Keeps l d (eng.view d ws) := by
  induction ws generalizing d with
  | nil => exact disc.keeps_refl l d
  | cons w ws ih =>
    have hw := disc.keeps_apply d (h w (by simp))
    exact disc.keeps_trans hw (ih (eng.apply d w) (fun w' hw' => h w' (by simp [hw'])))

variable {disc}

theorem Rely.trans {held : L → Prop} {w₁ w₂ w₃ : World D J} (h : disc.Rely held w₁ w₂)
    (h' : disc.Rely held w₂ w₃) : disc.Rely held w₁ w₃ :=
  ⟨h'.1, disc.evolves_trans h.2.1 h'.2.1, fun l hl => disc.keeps_trans (h.2.2 l hl) (h'.2.2 l hl)⟩

theorem Rely.of_emit {held : L → Prop} {w : World D J} (hi : disc.Inv w) (js : List J) :
    disc.Rely held w (w.emit js) :=
  ⟨disc.inv_emit js hi, disc.evolves_emit w js, fun l _ => disc.keeps_refl l w.db⟩

theorem Rely.refl {held : L → Prop} {w : World D J} (hi : disc.Inv w) : disc.Rely held w w :=
  ⟨hi, disc.evolves_refl w, fun l _ => disc.keeps_refl l w.db⟩

end Discipline

def Fails (eng : Engine S A E D W L J) (fault : E → Prop) : Prog S A E α → Prop
  | .ret _ => False
  | .throw e => fault e
  | .stmt s k => Fails eng fault (k (eng.afterFault s))

def wp : Prog S A E α → (L → Prop) → List W → World D J →
    (α → (L → Prop) → List W → World D J → Prop) → (E → (L → Prop) → List W → World D J → Prop) → Prop
  | .ret a, held, ws, w, Q, _ => Q a held ws w
  | .throw e, held, ws, w, _, X => X e held ws w
  | .stmt s k, held, ws, w, Q, X =>
    ∀ w', disc.Rely held w w' → ∀ others : L → Bool, (∀ l, held l → others l = false) →
      match eng.eval s (eng.view w'.db ws) others with
      | .ok a ws' ls => (∀ l ∈ ls, others l = false) →
          wp (k (.ok a)) (fun l => held l ∨ l ∈ ls) (ws ++ ws') (w'.emit (eng.emits s)) Q X
      | .refused e => wp (k (.error e)) held ws (w'.emit (eng.emits s)) Q X
      | .fault e => Fails eng disc.Fault (k (.error e))

variable {disc}

theorem Fails.bind {fault : E → Prop} {p : Prog S A E α} (h : Fails eng fault p) (f : α → Prog S A E β) :
    Fails eng fault (p >>= f) := by
  induction p with
  | ret a => exact h.elim
  | throw e => exact h
  | stmt s k ih => exact ih _ h

theorem wp_stmt {s : S} {k : Except E (A s) → Prog S A E α} {k' : Except E (A s) → Prog S A E β} {held : L → Prop}
    {ws : List W} {w : World D J} {Q : α → (L → Prop) → List W → World D J → Prop}
    {Q' : β → (L → Prop) → List W → World D J → Prop} {X X' : E → (L → Prop) → List W → World D J → Prop}
    (h : wp disc (.stmt s k) held ws w Q X)
    (hk : ∀ r {held ws w}, wp disc (k r) held ws w Q X → wp disc (k' r) held ws w Q' X')
    (hfault : ∀ e, Fails eng disc.Fault (k (.error e)) → Fails eng disc.Fault (k' (.error e))) :
    wp disc (.stmt s k') held ws w Q' X' := by
  intro w' hr others ho
  have hs := h w' hr others ho
  cases he : eng.eval s (eng.view w'.db ws) others with
  | ok a ws' ls =>
    rw [he] at hs
    intro hl
    exact hk _ (hs hl)
  | refused e =>
    rw [he] at hs
    exact hk _ hs
  | fault e =>
    rw [he] at hs
    exact hfault e hs

theorem wp_mono {p : Prog S A E α} {held : L → Prop} {ws : List W} {w : World D J}
    {Q Q' : α → (L → Prop) → List W → World D J → Prop} {X X' : E → (L → Prop) → List W → World D J → Prop}
    (h : wp disc p held ws w Q X) (hQ : ∀ a held ws w, Q a held ws w → Q' a held ws w)
    (hX : ∀ e held ws w, X e held ws w → X' e held ws w) : wp disc p held ws w Q' X' := by
  induction p generalizing held ws w with
  | ret a => exact hQ _ _ _ _ h
  | throw e => exact hX _ _ _ _ h
  | stmt s k ih =>
    exact wp_stmt h (fun r => ih r) (fun _ hs => hs)

theorem wp_bind {p : Prog S A E α} {f : α → Prog S A E β} {held : L → Prop} {ws : List W} {w : World D J}
    {Q : β → (L → Prop) → List W → World D J → Prop} {X : E → (L → Prop) → List W → World D J → Prop}
    (h : wp disc p held ws w (fun a held ws w => wp disc (f a) held ws w Q X) X) :
    wp disc (p >>= f) held ws w Q X := by
  induction p generalizing held ws w with
  | ret a => exact h
  | throw e => exact h
  | stmt s k ih =>
    exact wp_stmt h (fun r => ih r) (fun _ hs => hs.bind f)

theorem Fails.tryCatch {p : Prog S A E α} {h : E → Prog S A E α} (hp : Fails eng disc.Fault p)
    (hh : ∀ e, disc.Fault e → Fails eng disc.Fault (h e)) : Fails eng disc.Fault (p.tryCatch h) := by
  induction p with
  | ret a => exact hp.elim
  | throw e => exact hh e hp
  | stmt s k ih => exact ih _ hp

theorem wp_tryCatch {p : Prog S A E α} {h : E → Prog S A E α} {held : L → Prop} {ws : List W} {w : World D J}
    {Q : α → (L → Prop) → List W → World D J → Prop} {X : E → (L → Prop) → List W → World D J → Prop}
    (hp : wp disc p held ws w Q (fun e held ws w => wp disc (h e) held ws w Q X))
    (hh : ∀ e, disc.Fault e → Fails eng disc.Fault (h e)) : wp disc (p.tryCatch h) held ws w Q X := by
  induction p generalizing held ws w with
  | ret a => exact hp
  | throw e => exact hp
  | stmt s k ih =>
    exact wp_stmt hp (fun r => ih r) (fun _ hs => hs.tryCatch hh)

theorem Fails.drain {fault : E → Prop} {p : Prog S A E α} (h : Fails eng fault p) (origin : D) :
    (∃ e, (eng.drain origin p).result = .error e) ∧ (eng.drain origin p).db = origin := by
  induction p with
  | ret a => exact h.elim
  | throw e => exact ⟨⟨e, rfl⟩, rfl⟩
  | stmt s k ih => exact ih _ h

theorem wp_exec {p : Prog S A E α} {held : L → Prop} {ws : List W} {w : World D J}
    {Q : α → (L → Prop) → List W → World D J → Prop} {X : E → (L → Prop) → List W → World D J → Prop}
    (h : wp disc p held ws w Q X) (hi : disc.Inv w) :
    (∃ a held' ws' js, (eng.exec w.db p (eng.view w.db ws)).result = .ok a ∧
      (eng.exec w.db p (eng.view w.db ws)).db = eng.view w.db ws' ∧ Q a held' ws' (w.emit js)) ∨
    (∃ e, (eng.exec w.db p (eng.view w.db ws)).result = .error e) ∧
      (eng.exec w.db p (eng.view w.db ws)).db = w.db := by
  induction p generalizing held ws w with
  | ret a => exact Or.inl ⟨a, held, ws, [], rfl, rfl, (World.emit_nil w).symm ▸ h⟩
  | throw e => exact Or.inr ⟨⟨e, rfl⟩, rfl⟩
  | stmt s k ih =>
    have hs := h w (Discipline.Rely.refl hi) (fun _ => false) (fun _ _ => rfl)
    have hi' := disc.inv_emit (eng.emits s) hi
    cases he : eng.eval s (eng.view w.db ws) (fun _ => false) with
    | ok a ws' ls =>
      rw [he] at hs
      rw [Engine.exec_ok he, ← Engine.view_append]
      rcases ih _ (hs (fun _ _ => rfl)) hi' with ⟨b, held₁, ws₁, js, hr, hd, hq⟩ | herr
      · exact Or.inl ⟨b, held₁, ws₁, eng.emits s ++ js, hr, hd, (World.emit_append w _ js).symm ▸ hq⟩
      · exact Or.inr herr
    | refused e =>
      rw [he] at hs
      rw [Engine.exec_refused he]
      rcases ih _ hs hi' with ⟨b, held₁, ws₁, js, hr, hd, hq⟩ | herr
      · exact Or.inl ⟨b, held₁, ws₁, eng.emits s ++ js, hr, hd, (World.emit_append w _ js).symm ▸ hq⟩
      · exact Or.inr herr
    | fault e =>
      rw [he] at hs
      rw [Engine.exec_fault he]
      exact Or.inr (hs.drain w.db)

end RelyGuarantee
