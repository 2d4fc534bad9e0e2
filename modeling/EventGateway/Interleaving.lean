import EventGateway.TransactionProgram
import Mathlib.Tactic.SplitIfs

/-!
Transactions run statement by statement at READ COMMITTED. A statement sees the
committed rows and its own transaction's writes; locks are held to the end of
the transaction, and a statement that needs one held elsewhere has to wait.
-/

namespace Interleaving

open TransactionProgram

variable {S : Type} {A : S → Type} {E D W L J R ι : Type}

structure World (D J : Type) where
  db : D
  emitted : List J

def World.emit (w : World D J) (js : List J) : World D J := { w with emitted := w.emitted ++ js }

@[simp] theorem World.emit_db (w : World D J) (js : List J) : (w.emit js).db = w.db := rfl

@[simp] theorem World.emit_emitted (w : World D J) (js : List J) : (w.emit js).emitted = w.emitted ++ js := rfl

@[simp] theorem World.emit_nil (w : World D J) : w.emit [] = w := by
  simp [emit]

theorem World.emit_append (w : World D J) (js js' : List J) : w.emit (js ++ js') = (w.emit js).emit js' := by
  simp [emit, List.append_assoc]

structure Session (S : Type) (A : S → Type) (E W R : Type) where
  rest : Prog S A E R
  writes : List W
  faulted : Bool

inductive Phase (S : Type) (A : S → Type) (E W R : Type)
  | idle
  | running (s : Session S A E W R)
  | committed (r : R)
  | rejected (e : E)
  | aborted

structure State (S : Type) (A : S → Type) (E D W L J R ι : Type) where
  world : World D J
  holder : L → Option ι
  phase : ι → Phase S A E W R

inductive Label (ι : Type)
  | start (i : ι)
  | exec (i : ι)
  | finish (i : ι)
  | abort (i : ι)

def Label.actor : Label ι → ι
  | .start i | .exec i | .finish i | .abort i => i

def Phase.ended : Phase S A E W R → Bool
  | .committed _ | .rejected _ | .aborted => true
  | .idle | .running _ => false

namespace State

def init (d : D) : State S A E D W L J R ι := ⟨⟨d, []⟩, fun _ => none, fun _ => .idle⟩

variable [DecidableEq ι] [DecidableEq L]

def heldByOther (σ : State S A E D W L J R ι) (i : ι) (l : L) : Bool :=
  match σ.holder l with
  | none => false
  | some j => decide (j ≠ i)

def setPhase (σ : State S A E D W L J R ι) (i : ι) (p : Phase S A E W R) : State S A E D W L J R ι :=
  { σ with phase := Function.update σ.phase i p }

def lock (σ : State S A E D W L J R ι) (i : ι) (ls : List L) : State S A E D W L J R ι :=
  { σ with holder := fun l => if l ∈ ls then some i else σ.holder l }

def close (σ : State S A E D W L J R ι) (i : ι) (p : Phase S A E W R) : State S A E D W L J R ι :=
  { σ with
    holder := fun l => if σ.holder l = some i then none else σ.holder l
    phase := Function.update σ.phase i p }

end State

variable [DecidableEq ι] [DecidableEq L]

def execStmt (eng : Engine S A E D W L J) (σ : State S A E D W L J R ι) (i : ι) (s : S)
    (k : Except E (A s) → Prog S A E R) (ws : List W) : Option (State S A E D W L J R ι) :=
  let σ' := { σ with world := σ.world.emit (eng.emits s) }
  match eng.eval s (eng.view σ.world.db ws) (σ.heldByOther i) with
  | .ok a ws' ls =>
    if ls.all (fun l => !σ.heldByOther i l) then
      some ((σ'.lock i ls).setPhase i (.running ⟨k (.ok a), ws ++ ws', false⟩))
    else none
  | .refused e => some (σ'.setPhase i (.running ⟨k (.error e), ws, false⟩))
  | .fault e => some (σ'.setPhase i (.running ⟨k (.error e), ws, true⟩))

def step (eng : Engine S A E D W L J) (prog : ι → Prog S A E R) (σ : State S A E D W L J R ι) :
    Label ι → Option (State S A E D W L J R ι)
  | .start i =>
    match σ.phase i with
    | .idle => some (σ.setPhase i (.running ⟨prog i, [], false⟩))
    | _ => none
  | .exec i =>
    match σ.phase i with
    | .running ⟨.stmt s k, ws, false⟩ => execStmt eng σ i s k ws
    | .running ⟨.stmt s k, ws, true⟩ =>
      some ({ σ with world := σ.world.emit (eng.emits s) }.setPhase i
        (.running ⟨k (eng.afterFault s), ws, true⟩))
    | _ => none
  | .finish i =>
    match σ.phase i with
    | .running ⟨.ret r, ws, false⟩ =>
      some ({ σ with world := { σ.world with db := eng.view σ.world.db ws } }.close i (.committed r))
    | .running ⟨.ret r, _, true⟩ => some (σ.close i (.committed r))
    | .running ⟨.throw e, _, _⟩ => some (σ.close i (.rejected e))
    | _ => none
  | .abort i =>
    match σ.phase i with
    | .running _ => some (σ.close i .aborted)
    | _ => none

def run (eng : Engine S A E D W L J) (prog : ι → Prog S A E R) (σ : State S A E D W L J R ι) :
    List (Label ι) → Option (State S A E D W L J R ι)
  | [] => some σ
  | l :: ls => (step eng prog σ l).bind (fun σ' => run eng prog σ' ls)

theorem run_append {eng : Engine S A E D W L J} {prog : ι → Prog S A E R} {σ : State S A E D W L J R ι}
    (xs ys : List (Label ι)) :
    run eng prog σ (xs ++ ys) = (run eng prog σ xs).bind (fun σ' => run eng prog σ' ys) := by
  induction xs generalizing σ with
  | nil => rfl
  | cons l xs ih =>
    simp only [List.cons_append, run]
    cases step eng prog σ l with
    | none => rfl
    | some σ' => simpa using ih

theorem run_invariant {eng : Engine S A E D W L J} {prog : ι → Prog S A E R}
    {P : State S A E D W L J R ι → Prop}
    (hstep : ∀ σ l σ', P σ → step eng prog σ l = some σ' → P σ')
    {σ σ' : State S A E D W L J R ι} {ls : List (Label ι)} (h0 : P σ) (h : run eng prog σ ls = some σ') : P σ' := by
  induction ls generalizing σ with
  | nil => cases h; exact h0
  | cons l ls ih =>
    obtain ⟨σ₁, hs, hr⟩ := Option.bind_eq_some_iff.mp h
    exact ih (hstep σ l σ₁ h0 hs) hr

section Steps

variable {eng : Engine S A E D W L J} {prog : ι → Prog S A E R} {σ σ' : State S A E D W L J R ι}

inductive Transition (eng : Engine S A E D W L J) (prog : ι → Prog S A E R) (σ : State S A E D W L J R ι) :
    Label ι → State S A E D W L J R ι → Prop
  | start {i : ι} (hi : σ.phase i = .idle) :
      Transition eng prog σ (.start i) (σ.setPhase i (.running ⟨prog i, [], false⟩))
  | answered {i : ι} {s : S} {k : Except E (A s) → Prog S A E R} {ws ws' : List W} {a : A s} {ls : List L}
      (hi : σ.phase i = .running ⟨.stmt s k, ws, false⟩)
      (he : eng.eval s (eng.view σ.world.db ws) (σ.heldByOther i) = .ok a ws' ls)
      (hfree : ∀ l ∈ ls, σ.heldByOther i l = false) :
      Transition eng prog σ (.exec i) (({ σ with world := σ.world.emit (eng.emits s) }.lock i ls).setPhase i
        (.running ⟨k (.ok a), ws ++ ws', false⟩))
  | refused {i : ι} {s : S} {k : Except E (A s) → Prog S A E R} {ws : List W} {e : E}
      (hi : σ.phase i = .running ⟨.stmt s k, ws, false⟩)
      (he : eng.eval s (eng.view σ.world.db ws) (σ.heldByOther i) = .refused e) :
      Transition eng prog σ (.exec i) ({ σ with world := σ.world.emit (eng.emits s) }.setPhase i
        (.running ⟨k (.error e), ws, false⟩))
  | faulted {i : ι} {s : S} {k : Except E (A s) → Prog S A E R} {ws : List W} {e : E}
      (hi : σ.phase i = .running ⟨.stmt s k, ws, false⟩)
      (he : eng.eval s (eng.view σ.world.db ws) (σ.heldByOther i) = .fault e) :
      Transition eng prog σ (.exec i) ({ σ with world := σ.world.emit (eng.emits s) }.setPhase i
        (.running ⟨k (.error e), ws, true⟩))
  | drained {i : ι} {s : S} {k : Except E (A s) → Prog S A E R} {ws : List W}
      (hi : σ.phase i = .running ⟨.stmt s k, ws, true⟩) :
      Transition eng prog σ (.exec i) ({ σ with world := σ.world.emit (eng.emits s) }.setPhase i
        (.running ⟨k (eng.afterFault s), ws, true⟩))
  | committed {i : ι} {r : R} {ws : List W} (hi : σ.phase i = .running ⟨.ret r, ws, false⟩) :
      Transition eng prog σ (.finish i)
        ({ σ with world := { σ.world with db := eng.view σ.world.db ws } }.close i (.committed r))
  | returned {i : ι} {r : R} {ws : List W} (hi : σ.phase i = .running ⟨.ret r, ws, true⟩) :
      Transition eng prog σ (.finish i) (σ.close i (.committed r))
  | rejected {i : ι} {e : E} {ws : List W} {f : Bool} (hi : σ.phase i = .running ⟨.throw e, ws, f⟩) :
      Transition eng prog σ (.finish i) (σ.close i (.rejected e))
  | aborted {i : ι} {s : Session S A E W R} (hi : σ.phase i = .running s) :
      Transition eng prog σ (.abort i) (σ.close i .aborted)

theorem transition_of_execStmt {i : ι} {s : S} {k : Except E (A s) → Prog S A E R} {ws : List W}
    (hi : σ.phase i = .running ⟨.stmt s k, ws, false⟩) (h : execStmt eng σ i s k ws = some σ') :
    Transition eng prog σ (.exec i) σ' := by
  unfold execStmt at h
  cases he : eng.eval s (eng.view σ.world.db ws) (σ.heldByOther i) with
  | ok a ws' ls =>
    simp only [he] at h
    split_ifs at h with hfree
    cases h
    exact .answered hi he (by simpa using hfree)
  | refused e =>
    simp only [he] at h
    cases h
    exact .refused hi he
  | fault e =>
    simp only [he] at h
    cases h
    exact .faulted hi he

theorem step_cases {l : Label ι} (h : step eng prog σ l = some σ') : Transition eng prog σ l σ' := by
  cases l with
  | start i =>
    simp only [step] at h
    split at h
    · cases h
      exact .start ‹_›
    · cases h
  | exec i =>
    simp only [step] at h
    split at h
    · exact transition_of_execStmt ‹_› h
    · cases h
      exact .drained ‹_›
    · cases h
  | finish i =>
    simp only [step] at h
    split at h
    · cases h
      exact .committed ‹_›
    · cases h
      exact .returned ‹_›
    · cases h
      exact .rejected ‹_›
    · cases h
  | abort i =>
    simp only [step] at h
    split at h
    · cases h
      exact .aborted ‹_›
    · cases h

omit [DecidableEq L] in
theorem heldByOther_eq_false {i : ι} {l : L} :
    σ.heldByOther i l = false ↔ σ.holder l = none ∨ σ.holder l = some i := by
  unfold State.heldByOther
  cases σ.holder l with
  | none => simp
  | some j => simp

omit [DecidableEq L] in
theorem heldByOther_self {i : ι} {l : L} (h : σ.holder l = some i) : σ.heldByOther i l = false :=
  heldByOther_eq_false.mpr (Or.inr h)

theorem lock_holder {i j : ι} {ls : List L} (hfree : ∀ l ∈ ls, σ.heldByOther i l = false) (hj : j ≠ i) (x : L) :
    (σ.lock i ls).holder x = some j ↔ σ.holder x = some j := by
  simp only [State.lock]
  split_ifs with hx
  · rcases heldByOther_eq_false.mp (hfree x hx) with hn | hn
    · simp [hn, hj.symm]
    · simp [hn]
  · rfl

omit [DecidableEq ι] in
theorem lock_holder_self {i : ι} {ls : List L} (x : L) :
    (σ.lock i ls).holder x = some i ↔ σ.holder x = some i ∨ x ∈ ls := by
  simp only [State.lock]
  split_ifs with hx
  · simp [hx]
  · simp [hx]

omit [DecidableEq L] in
theorem close_holder {i j : ι} (p : Phase S A E W R) (l : L) :
    (σ.close i p).holder l = some j ↔ j ≠ i ∧ σ.holder l = some j := by
  simp only [State.close]
  split_ifs with h
  · simp only [h, Option.some.injEq, false_iff, not_and, ne_eq]
    exact fun hne he => hne he.symm
  · constructor
    · intro hj
      exact ⟨fun he => h (he ▸ hj), hj⟩
    · exact fun hj => hj.2

theorem step_answered {i : ι} {s : S} {k : Except E (A s) → Prog S A E R} {ws ws' : List W} {a : A s} {ls : List L}
    (h : step eng prog σ (.exec i) = some σ') (hi : σ.phase i = .running ⟨.stmt s k, ws, false⟩)
    (he : eng.eval s (eng.view σ.world.db ws) (σ.heldByOther i) = .ok a ws' ls) :
    σ'.phase i = .running ⟨k (.ok a), ws ++ ws', false⟩ ∧ ∀ l ∈ ls, σ'.holder l = some i := by
  simp only [step, hi, execStmt, he] at h
  split_ifs at h
  cases h
  exact ⟨Function.update_self _ _ _, fun l hl => (lock_holder_self l).mpr (Or.inr hl)⟩

theorem step_frame {l : Label ι} (h : step eng prog σ l = some σ') :
    (∀ j, j ≠ l.actor → σ'.phase j = σ.phase j) ∧ (σ.phase l.actor).ended = false ∧
      (σ'.world.db = σ.world.db ∨ ∃ r, σ'.phase l.actor = .committed r) := by
  cases step_cases h with
  | committed hi =>
    refine ⟨fun j hj => Function.update_of_ne hj _ _, ?_, Or.inr ⟨_, Function.update_self _ _ _⟩⟩
    simp [Label.actor, hi, Phase.ended]
  | start hi | answered hi | refused hi | faulted hi | drained hi | returned hi | rejected hi | aborted hi =>
    refine ⟨fun j hj => Function.update_of_ne hj _ _, ?_, Or.inl rfl⟩
    simp [Label.actor, hi, Phase.ended]

theorem run_ended {ls : List (Label ι)} (h : run eng prog σ ls = some σ') {j : ι}
    (hj : (σ.phase j).ended = true) : σ'.phase j = σ.phase j := by
  refine run_invariant (P := fun τ => τ.phase j = σ.phase j) ?_ rfl h
  intro τ l τ' hτ hs
  obtain ⟨hother, hactive, _⟩ := step_frame hs
  rw [← hτ]
  apply hother
  rintro rfl
  rw [hτ, hj] at hactive
  cases hactive

theorem step_db_of_not_committed {l : Label ι} {ls : List (Label ι)} {τ : State S A E D W L J R ι}
    (h : step eng prog σ l = some σ') (hr : run eng prog σ' ls = some τ) (hj : ∀ r, τ.phase l.actor ≠ .committed r) :
    σ'.world.db = σ.world.db := by
  obtain ⟨_, _, hdb | ⟨r, hc⟩⟩ := step_frame h
  · exact hdb
  · have hend : (σ'.phase l.actor).ended = true := by rw [hc]; rfl
    exact absurd ((run_ended hr hend).trans hc) (hj r)

end Steps

end Interleaving
