import EventGateway.RunHistory
import Mathlib.Data.List.Perm.Basic

namespace Interleaving

open TransactionProgram

variable {S : Type} {A : S → Type} {E D W L J R α β ι : Type}

def Tally (eng : Engine S A E D W L J) (Good : D → Prop) (counts : J → Bool) (Q : α → List W → ℕ → Prop)
    (X : E → List W → ℕ → Prop) : Prog S A E α → List W → ℕ → Prop
  | .ret a, ws, n => Q a ws n
  | .throw e, ws, n => X e ws n
  | .stmt s k, ws, n => ∀ d, Good d → ∀ held : L → Bool,
      match eng.eval s (eng.view d ws) held with
      | .ok a ws' _ => Tally eng Good counts Q X (k (.ok a)) (ws ++ ws') (n + (eng.emits s).countP counts)
      | .refused e => Tally eng Good counts Q X (k (.error e)) ws (n + (eng.emits s).countP counts)
      | .fault _ => True

section Rules

variable {eng : Engine S A E D W L J} {Good : D → Prop} {counts : J → Bool} {ws : List W} {n : ℕ}

theorem tally_stmt {Q : α → List W → ℕ → Prop} {Q' : β → List W → ℕ → Prop} {X X' : E → List W → ℕ → Prop} {s : S}
    {k : Except E (A s) → Prog S A E α} {k' : Except E (A s) → Prog S A E β}
    (h : Tally eng Good counts Q X (.stmt s k) ws n)
    (hk : ∀ r {ws n}, Tally eng Good counts Q X (k r) ws n → Tally eng Good counts Q' X' (k' r) ws n) :
    Tally eng Good counts Q' X' (.stmt s k') ws n := by
  intro d hd held
  have hs := h d hd held
  cases he : eng.eval s (eng.view d ws) held with
  | ok a ws' ls =>
    rw [he] at hs
    exact hk _ hs
  | refused e =>
    rw [he] at hs
    exact hk _ hs
  | fault e => trivial

theorem tally_mono {Q Q' : α → List W → ℕ → Prop} {X X' : E → List W → ℕ → Prop} {p : Prog S A E α}
    (h : Tally eng Good counts Q X p ws n) (hQ : ∀ a ws n, Q a ws n → Q' a ws n) (hX : ∀ e ws n, X e ws n → X' e ws n) :
    Tally eng Good counts Q' X' p ws n := by
  induction p generalizing ws n with
  | ret a => exact hQ _ _ _ h
  | throw e => exact hX _ _ _ h
  | stmt s k ih =>
    exact tally_stmt h (fun r => ih r)

theorem tally_bind {Q : β → List W → ℕ → Prop} {X : E → List W → ℕ → Prop} {p : Prog S A E α} {f : α → Prog S A E β}
    (h : Tally eng Good counts (fun a ws n => Tally eng Good counts Q X (f a) ws n) X p ws n) :
    Tally eng Good counts Q X (p >>= f) ws n := by
  induction p generalizing ws n with
  | ret a => exact h
  | throw e => exact h
  | stmt s k ih =>
    exact tally_stmt h (fun r => ih r)

theorem tally_tryCatch {Q : α → List W → ℕ → Prop} {X : E → List W → ℕ → Prop} {p : Prog S A E α} {h : E → Prog S A E α}
    (hp : Tally eng Good counts Q (fun e ws n => Tally eng Good counts Q X (h e) ws n) p ws n) :
    Tally eng Good counts Q X (p.tryCatch h) ws n := by
  induction p generalizing ws n with
  | ret a => exact hp
  | throw e => exact hp
  | stmt s k ih =>
    exact tally_stmt hp (fun r => ih r)

theorem tally_call {Q : α → List W → ℕ → Prop} {X : E → List W → ℕ → Prop} {s : S} {f : A s → Prog S A E α}
    (hok : ∀ d held a ws' ls, Good d → eng.eval s (eng.view d ws) held = .ok a ws' ls →
      Tally eng Good counts Q X (f a) (ws ++ ws') (n + (eng.emits s).countP counts))
    (hrefused : ∀ d held e, Good d → eng.eval s (eng.view d ws) held = .refused e →
      X e ws (n + (eng.emits s).countP counts)) :
    Tally eng Good counts Q X (Prog.call s >>= f) ws n := by
  intro d hd held
  cases he : eng.eval s (eng.view d ws) held with
  | ok a ws' ls => exact hok d held a ws' ls hd he
  | refused e => exact hrefused d held e hd he
  | fault e => trivial

end Rules

section Runs

variable [DecidableEq ι]

def sent (counts : J → Bool) (i : ι) (es : List (ι × J)) : ℕ := es.countP (fun p => decide (p.1 = i) && counts p.2)

def written (i : ι) (ws : List (ι × W)) : List W := (ws.filter (fun p => p.1 = i)).map Prod.snd

theorem sent_append (counts : J → Bool) (i : ι) (es es' : List (ι × J)) :
    sent counts i (es ++ es') = sent counts i es + sent counts i es' := List.countP_append

theorem written_append (i : ι) (ws ws' : List (ι × W)) : written i (ws ++ ws') = written i ws ++ written i ws' := by
  simp [written]

theorem sent_tagged (counts : J → Bool) (i j : ι) (js : List J) :
    sent counts i (js.map (fun x => (j, x))) = if j = i then js.countP counts else 0 := by
  unfold sent
  rw [List.countP_map]
  split_ifs with h
  · simp [h, Function.comp_def]
  · simp [h, Function.comp_def]

theorem written_tagged (i j : ι) (ws : List W) : written i (ws.map (fun x => (j, x))) = if j = i then ws else [] := by
  unfold written
  split_ifs with h
  · subst h
    simp [List.filter_map, Function.comp_def]
  · simp [List.filter_map, Function.comp_def, h]

theorem countP_written (i : ι) (ws : List (ι × W)) (q : W → Bool) :
    (written i ws).countP q = ws.countP (fun x => decide (x.1 = i) && q x.2) := by
  unfold written
  rw [List.countP_map, List.countP_filter]
  apply List.countP_congr
  intro x _
  simp [and_comm]

theorem countP_eq_of_actors {γ δ : Type} {es : List (ι × γ)} {ws : List (ι × δ)} {p : γ → Bool} {q : δ → Bool}
    (h : ∀ i, es.countP (fun x => decide (x.1 = i) && p x.2) = ws.countP (fun x => decide (x.1 = i) && q x.2)) :
    es.countP (fun x => p x.2) = ws.countP (fun x => q x.2) := by
  have hcount {ε : Type} (xs : List (ι × ε)) (r : ε → Bool) (i : ι) :
      ((xs.filter (fun x => r x.2)).map Prod.fst).count i = xs.countP (fun x => decide (x.1 = i) && r x.2) := by
    rw [List.count, List.countP_map, List.countP_filter]
    apply List.countP_congr
    intro x _
    simp
  have hperm : ((es.filter (fun x => p x.2)).map Prod.fst).Perm ((ws.filter (fun x => q x.2)).map Prod.fst) := by
    rw [List.perm_iff_count]
    intro i
    rw [hcount, hcount, h i]
  have hlen := hperm.length_eq
  rwa [List.length_map, List.length_map, ← List.countP_eq_length_filter, ← List.countP_eq_length_filter] at hlen

variable [DecidableEq L] (eng : Engine S A E D W L J) (Good : D → Prop) (counts : J → Bool)
  (Q : ι → R → List W → ℕ → Prop)

def Tallied (σ : State S A E D W L J R ι) (es : List (ι × J)) (ws : List (ι × W)) (i : ι) : Prop :=
  match σ.phase i with
  | .idle => sent counts i es = 0 ∧ written i ws = []
  | .running s => written i ws = [] ∧
      (s.faulted = false → Tally eng Good counts (Q i) (fun _ _ _ => True) s.rest s.writes (sent counts i es))
  | .committed r => Q i r (written i ws) (sent counts i es)
  | .rejected _ | .aborted => True

variable {eng Good counts Q} {prog : ι → Prog S A E R} {σ σ' : State S A E D W L J R ι} {es : List (ι × J)}
  {ws : List (ι × W)} {i : ι}

theorem tallied_other {l : Label ι} (h : Tallied eng Good counts Q σ es ws i) (hs : step eng prog σ l = some σ')
    (hi : i ≠ l.actor) : Tallied eng Good counts Q σ' (es ++ sends eng σ l) (ws ++ commits σ l) i := by
  have hphase := (step_frame hs).1 i hi
  have hsent : sent counts i (es ++ sends eng σ l) = sent counts i es := by
    rw [sent_append]
    cases l with
    | exec j =>
      have hj : j ≠ i := fun he => hi he.symm
      simp only [sends]
      split <;> simp [hj, sent]
    | _ => simp [sends, sent]
  have hwritten : written i (ws ++ commits σ l) = written i ws := by
    rw [written_append]
    cases l with
    | finish j =>
      have hj : j ≠ i := fun he => hi he.symm
      simp only [commits]
      split <;> simp [hj, written]
    | _ => simp [commits, written]
  unfold Tallied at *
  rw [hphase, hsent, hwritten]
  exact h

omit [DecidableEq L] in
theorem sent_exec {s : S} {k : Except E (A s) → Prog S A E R} {own : List W} {f : Bool}
    (hi : σ.phase i = .running ⟨.stmt s k, own, f⟩) :
    sent counts i (es ++ sends eng σ (.exec i)) = sent counts i es + (eng.emits s).countP counts := by
  simp only [sends, hi]
  rw [sent_append, sent_tagged, if_pos rfl]

theorem tallied_self {l : Label ι} (hprog : ∀ i, Tally eng Good counts (Q i) (fun _ _ _ => True) (prog i) [] 0)
    (h : Tallied eng Good counts Q σ es ws l.actor) (hgood : Good σ.world.db)
    (hfault : ∀ i r own, σ.phase i ≠ .running ⟨.ret r, own, true⟩) (hs : step eng prog σ l = some σ') :
    Tallied eng Good counts Q σ' (es ++ sends eng σ l) (ws ++ commits σ l) l.actor := by
  cases step_cases hs with
  | start hi =>
    simp only [Label.actor, Tallied, hi] at h
    simp only [Label.actor, Tallied, State.setPhase, Function.update_self, sends, commits, List.append_nil, h.1]
    exact ⟨h.2, fun _ => hprog _⟩
  | @answered i s k own own' a ls hi he hfree =>
    simp only [Label.actor, Tallied, hi] at h
    have hstmt := h.2 trivial σ.world.db hgood (σ.heldByOther i)
    rw [he] at hstmt
    simp only [Label.actor, Tallied, State.setPhase, Function.update_self, sent_exec hi, commits, List.append_nil]
    exact ⟨h.1, fun _ => hstmt⟩
  | @refused i s k own e hi he =>
    simp only [Label.actor, Tallied, hi] at h
    have hstmt := h.2 trivial σ.world.db hgood (σ.heldByOther i)
    rw [he] at hstmt
    simp only [Label.actor, Tallied, State.setPhase, Function.update_self, sent_exec hi, commits, List.append_nil]
    exact ⟨h.1, fun _ => hstmt⟩
  | faulted hi | drained hi =>
    simp only [Label.actor, Tallied, hi] at h
    simp only [Label.actor, Tallied, State.setPhase, Function.update_self, commits, List.append_nil]
    exact ⟨h.1, fun hf => by cases hf⟩
  | @committed i r own hi =>
    simp only [Label.actor, Tallied, hi] at h
    have hwritten : written i (ws ++ commits σ (.finish i)) = own := by
      rw [written_append, h.1, List.nil_append]
      simp only [commits, hi]
      rw [written_tagged, if_pos rfl]
    simp only [Label.actor, Tallied, State.close, Function.update_self, hwritten, sends, List.append_nil]
    exact h.2 trivial
  | returned hi => exact absurd hi (hfault _ _ _)
  | rejected hi | aborted hi => simp only [Label.actor, Tallied, State.close, Function.update_self]

theorem tally_run {d : D} {ls : List (Label ι)}
    (hprog : ∀ i, Tally eng Good counts (Q i) (fun _ _ _ => True) (prog i) [] 0)
    (hworld : ∀ us τ, run eng prog (State.init d) us = some τ →
      Good τ.world.db ∧ ∀ i r own, τ.phase i ≠ .running ⟨.ret r, own, true⟩)
    (h : run eng prog (State.init d) ls = some σ) (i : ι) :
    Tallied eng Good counts Q σ (log eng prog (sends eng) (State.init d) ls) (log eng prog commits (State.init d) ls) i := by
  refine (run_history (P := fun ls σ => run eng prog (State.init d) ls = some σ ∧ ∀ i, Tallied eng Good counts Q σ
    (log eng prog (sends eng) (State.init d) ls) (log eng prog commits (State.init d) ls) i) ?_ ?_ h).2 i
  · rintro ls σ l σ' ⟨hrun, hall⟩ hs
    obtain ⟨hgood, hfault⟩ := hworld ls σ hrun
    refine ⟨?_, fun i => ?_⟩
    · rw [run_append, hrun]
      simp [run, hs]
    · rw [log_snoc hrun, log_snoc hrun]
      by_cases hi : i = l.actor
      · subst hi
        exact tallied_self hprog (hall _) hgood hfault hs
      · exact tallied_other (hall i) hs hi
  · exact ⟨rfl, fun i => ⟨rfl, rfl⟩⟩

end Runs

end Interleaving
