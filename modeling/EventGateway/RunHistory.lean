import EventGateway.Interleaving

namespace Interleaving

open TransactionProgram

variable {S : Type} {A : S → Type} {E D W L J R ι : Type}

def EndedBefore (ls : List (Label ι)) (x y : ι) : Prop := ∃ us vs, ls = us ++ vs ∧ .finish x ∈ us ∧ .start y ∈ vs

theorem EndedBefore.finish_mem {ls : List (Label ι)} {x y : ι} (h : EndedBefore ls x y) : .finish x ∈ ls := by
  obtain ⟨us, vs, rfl, hx, -⟩ := h
  exact List.mem_append_left vs hx

theorem endedBefore_snoc {ls : List (Label ι)} {l : Label ι} {x y : ι} (h : EndedBefore (ls ++ [l]) x y) :
    EndedBefore ls x y ∨ l = .start y ∧ .finish x ∈ ls := by
  obtain ⟨us, vs, hls, hx, hy⟩ := h
  rcases List.eq_nil_or_concat vs with rfl | ⟨vs, l', rfl⟩
  · cases hy
  · rw [List.concat_eq_append, ← List.append_assoc] at hls
    rw [List.concat_eq_append] at hy
    obtain ⟨rfl, hl⟩ := List.append_inj' hls rfl
    obtain rfl : l = l' := by simpa using hl
    rcases List.mem_append.mp hy with hy | hy
    · exact Or.inl ⟨us, vs, rfl, hx, hy⟩
    · exact Or.inr ⟨(List.mem_singleton.mp hy).symm, List.mem_append_left vs hx⟩

variable [DecidableEq ι] [DecidableEq L] {eng : Engine S A E D W L J} {prog : ι → Prog S A E R}
  {σ σ' : State S A E D W L J R ι}

theorem run_history {P : List (Label ι) → State S A E D W L J R ι → Prop}
    (hstep : ∀ ls σ l σ', P ls σ → step eng prog σ l = some σ' → P (ls ++ [l]) σ') {ls : List (Label ι)}
    (h0 : P [] σ) (h : run eng prog σ ls = some σ') : P ls σ' := by
  have hgen (us : List (Label ι)) (hus : P us σ) : P (us ++ ls) σ' := by
    clear h0
    induction ls generalizing σ us with
    | nil =>
      cases h
      rw [List.append_nil]
      exact hus
    | cons l ls ih =>
      obtain ⟨σ₁, hs, hr⟩ := Option.bind_eq_some_iff.mp h
      have := ih hr (us ++ [l]) (hstep us σ l σ₁ hus hs)
      rwa [List.append_assoc] at this
  exact hgen [] h0

theorem idle_of_start {i : ι} (h : step eng prog σ (.start i) = some σ') : σ.phase i = .idle := by
  cases step_cases h with
  | start hi => exact hi

theorem running_of_step {l : Label ι} (h : step eng prog σ l = some σ') {j : ι} {s' : Session S A E W R}
    (hj : σ'.phase j = .running s') : (∃ s, σ.phase j = .running s) ∨ l = .start j := by
  by_cases hja : j ≠ l.actor
  · rw [(step_frame h).1 j hja] at hj
    exact Or.inl ⟨s', hj⟩
  obtain rfl : j = l.actor := not_not.mp hja
  cases step_cases h with
  | start hi => exact Or.inr rfl
  | answered hi | refused hi | faulted hi | drained hi => exact Or.inl ⟨_, hi⟩
  | committed hi | returned hi | rejected hi | aborted hi => exact Or.inl ⟨_, hi⟩

theorem ended_of_finish {i : ι} (h : step eng prog σ (.finish i) = some σ') : (σ'.phase i).ended = true := by
  cases step_cases h with
  | committed hi | returned hi | rejected hi => simp [State.close, Phase.ended]

theorem ended_of_finish_mem {d : D} {ls : List (Label ι)} (h : run eng prog (State.init d) ls = some σ) {x : ι}
    (hx : .finish x ∈ ls) : (σ.phase x).ended = true := by
  refine run_history (P := fun ls τ => .finish x ∈ ls → (τ.phase x).ended = true) ?_ (fun hx => by cases hx) h hx
  intro ls τ l τ' hold hs hmem
  rcases List.mem_append.mp hmem with hmem | hmem
  · have hrun : run eng prog τ [l] = some τ' := by simp [run, hs]
    rw [run_ended hrun (hold hmem)]
    exact hold hmem
  · obtain rfl := List.mem_singleton.mp hmem
    exact ended_of_finish hs

theorem holder_step {l : Label ι} (h : step eng prog σ l = some σ') {x : L} {i : ι} (hx : σ.holder x = some i) :
    σ'.holder x = some i ∨ (σ'.phase i).ended = true := by
  have hclose (j : ι) (p : Phase S A E W R) (hp : p.ended = true) :
      (σ.close j p).holder x = some i ∨ ((σ.close j p).phase i).ended = true := by
    by_cases hj : i = j
    · subst hj
      exact Or.inr (by simp [State.close, hp])
    · exact Or.inl ((close_holder p x).mpr ⟨hj, hx⟩)
  cases step_cases h with
  | start hi | refused hi | faulted hi | drained hi => exact Or.inl hx
  | @answered j s k ws ws' a ls hi he hfree =>
    left
    by_cases hj : i = j
    · subst hj
      exact (lock_holder_self x).mpr (Or.inl hx)
    · exact (lock_holder hfree hj x).mpr hx
  | committed hi | returned hi | rejected hi | aborted hi => exact hclose _ _ rfl

theorem holder_run {ls : List (Label ι)} (h : run eng prog σ ls = some σ') {x : L} {i : ι} (hx : σ.holder x = some i) :
    σ'.holder x = some i ∨ (σ'.phase i).ended = true := by
  refine run_invariant (P := fun τ => τ.holder x = some i ∨ (τ.phase i).ended = true) ?_ (Or.inl hx) h
  rintro τ l τ' (hold | hend) hs
  · exact holder_step hs hold
  · have hrun : run eng prog τ [l] = some τ' := by simp [run, hs]
    rw [run_ended hrun hend]
    exact Or.inr hend

section Log

variable {β : Type}

def log (eng : Engine S A E D W L J) (prog : ι → Prog S A E R) (f : State S A E D W L J R ι → Label ι → List β)
    (σ : State S A E D W L J R ι) : List (Label ι) → List β
  | [] => []
  | l :: ls => f σ l ++
    match step eng prog σ l with
    | none => []
    | some σ' => log eng prog f σ' ls

def sends (eng : Engine S A E D W L J) (σ : State S A E D W L J R ι) : Label ι → List (ι × J)
  | .exec i =>
    match σ.phase i with
    | .running ⟨.stmt s _, _, _⟩ => (eng.emits s).map (fun j => (i, j))
    | _ => []
  | _ => []

def commits (σ : State S A E D W L J R ι) : Label ι → List (ι × W)
  | .finish i =>
    match σ.phase i with
    | .running ⟨.ret _, ws, false⟩ => ws.map (fun w => (i, w))
    | _ => []
  | _ => []

omit [DecidableEq ι] [DecidableEq L] in
theorem commits_cases (σ : State S A E D W L J R ι) (l : Label ι) :
    commits σ l = [] ∨ ∃ i r ws, l = .finish i ∧ σ.phase i = .running ⟨.ret r, ws, false⟩ ∧
      commits σ l = ws.map (fun w => (i, w)) := by
  cases l with
  | finish i =>
    simp only [commits]
    split
    · rename_i r ws hi
      exact Or.inr ⟨i, r, ws, rfl, hi, rfl⟩
    · exact Or.inl rfl
  | _ => exact Or.inl rfl

theorem db_step {l : Label ι} (h : step eng prog σ l = some σ') :
    σ'.world.db = eng.view σ.world.db ((commits σ l).map Prod.snd) := by
  cases step_cases h with
  | committed hi => simp only [commits, hi, List.map_map, Function.comp_def, List.map_id', State.close]
  | returned hi | rejected hi =>
    simp only [commits, hi]
    rfl
  | start hi | answered hi | refused hi | faulted hi | drained hi | aborted hi => rfl

theorem log_snoc {f : State S A E D W L J R ι → Label ι → List β} {ls : List (Label ι)}
    (h : run eng prog σ ls = some σ') (l : Label ι) :
    log eng prog f σ (ls ++ [l]) = log eng prog f σ ls ++ f σ' l := by
  induction ls generalizing σ with
  | nil =>
    cases h
    simp only [List.nil_append, log]
    split <;> simp
  | cons l' ls ih =>
    obtain ⟨σ₁, hs, hr⟩ := Option.bind_eq_some_iff.mp h
    simp only [List.cons_append, log, hs, ih hr, List.append_assoc]

theorem emitted_step {l : Label ι} (h : step eng prog σ l = some σ') :
    σ'.world.emitted = σ.world.emitted ++ (sends eng σ l).map Prod.snd := by
  have hpair (i : ι) (js : List J) : (js.map (fun j => (i, j))).map Prod.snd = js := by
    rw [List.map_map]
    exact List.map_id js
  cases step_cases h with
  | answered hi | refused hi | faulted hi | drained hi =>
    simp only [sends, hi, hpair]
    rfl
  | start hi => simp [sends, State.setPhase]
  | committed hi | returned hi | rejected hi | aborted hi => simp [sends, State.close]

theorem emitted_eq_log {ls : List (Label ι)} (h : run eng prog σ ls = some σ') :
    σ'.world.emitted = σ.world.emitted ++ (log eng prog (sends eng) σ ls).map Prod.snd := by
  induction ls generalizing σ with
  | nil =>
    cases h
    simp [log]
  | cons l ls ih =>
    obtain ⟨σ₁, hs, hr⟩ := Option.bind_eq_some_iff.mp h
    rw [ih hr, emitted_step hs]
    simp [log, hs]

end Log

end Interleaving
