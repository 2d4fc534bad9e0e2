import EventGateway.LabelledSteps
import EventGateway.Schema
import Mathlib.Algebra.BigOperators.Intervals
import Mathlib.Tactic.IntervalCases
import Mathlib.Tactic.Linarith

/-!
The runner of the outbox dispatcher under every interleaving of its timers, the batches
they start and its shutdown, with any clock. Its timers tick at any time; what the
dispatcher does in a batch is not looked at, only how its promise settles.
-/

namespace EventGateway.OutboxDispatcherRunner

open LabelledSteps

def runnerBackoffBaseMs : ℕ := 1000

def runnerBackoffMaxMs : ℕ := 30000

inductive ConfigValue
  | boolean (value : Bool)
  | text (value : Text)
  | other

/-- The promise that a call of the dispatcher returns, with the callbacks chained to it: `handled` once that of
`then` or `catch` has run, `finished` once that of `finally` has. -/
inductive RunPhase
  | idle
  | pending
  | settled (resolved : Bool)
  | handled
  | finished
deriving DecidableEq

def RunPhase.isActive : RunPhase → Bool
  | .idle | .finished => false
  | .pending | .settled _ | .handled => true

structure Runner (ρ : Type) where
  timer : Bool
  reconcileTimer : Bool
  inFlightDispatch : Option ρ
  inFlightReconcile : Option ρ
  consecutiveFailures : ℕ
  cooldownUntilMs : Time

section Code

variable {ρ : Type}

def isEnabled : ConfigValue → Bool
  | .boolean value => value
  | .text value => Text.toLowerCase value = "true".toList
  | .other => true

def calculateCooldownMs (consecutiveFailures : ℕ) : ℕ :=
  min (runnerBackoffBaseMs * 2 ^ (consecutiveFailures - 1)) runnerBackoffMaxMs

def onApplicationBootstrap (config : ConfigValue) (r : Runner ρ) : Runner ρ :=
  if isEnabled config then { r with timer := true, reconcileTimer := true } else r

/-- `onApplicationShutdown` up to its `await`. -/
def clearTimers (r : Runner ρ) : Runner ρ := { r with timer := false, reconcileTimer := false }

/-- `none` where it returns without starting a batch. -/
def dispatchOnce (r : Runner ρ) (run : ρ) (now : Time) : Option (Runner ρ) :=
  if r.inFlightDispatch.isSome then none
  else if now < r.cooldownUntilMs then none
  else some { r with inFlightDispatch := some run }

def dispatchHandled (r : Runner ρ) (resolved : Bool) (now : Time) : Runner ρ :=
  if resolved then { r with consecutiveFailures := 0, cooldownUntilMs := 0 }
  else
    { r with
      consecutiveFailures := r.consecutiveFailures + 1
      cooldownUntilMs := now + calculateCooldownMs (r.consecutiveFailures + 1) }

def reconcileOnce (r : Runner ρ) (run : ρ) : Option (Runner ρ) :=
  if r.inFlightReconcile.isSome then none else some { r with inFlightReconcile := some run }

end Code

inductive Stage
  | constructed
  | bootstrapped
  | stopped
deriving DecidableEq

inductive Shutdown (ρ : Type)
  | idle
  | awaits (dispatch reconcile : Option ρ)
  | resolved

inductive Event
  | bootstrapped
  | dispatchStarted (now : Time)
  | dispatchSucceeded
  | dispatchFailed (now : Time)
  | reconcileStarted
  | stopped
deriving DecidableEq

structure System (ρ κ : Type) where
  runner : Runner ρ
  stage : Stage
  dispatches : ρ → RunPhase
  reconciles : ρ → RunPhase
  shutdowns : κ → Shutdown ρ
  history : List Event

inductive Label (ρ κ : Type)
  | bootstrap
  | dispatchTick (run : ρ) (now : Time)
  | dispatchSettles (run : ρ) (resolves : Bool)
  | dispatchHandled (run : ρ) (now : Time)
  | dispatchFinally (run : ρ)
  | reconcileTick (run : ρ)
  | reconcileSettles (run : ρ) (resolves : Bool)
  | reconcileHandled (run : ρ)
  | reconcileFinally (run : ρ)
  | shutdown (call : κ)
  | shutdownResumes (call : κ)

section Steps

variable {ρ κ : Type} [DecidableEq ρ] [DecidableEq κ]

def System.initial : System ρ κ where
  runner := ⟨false, false, none, none, 0, 0⟩
  stage := .constructed
  dispatches := fun _ => .idle
  reconciles := fun _ => .idle
  shutdowns := fun _ => .idle
  history := []

def isFinished (runs : ρ → RunPhase) (promise : Option ρ) : Bool := promise.all (fun run => runs run = .finished)

def step (config : ConfigValue) (s : System ρ κ) : Label ρ κ → Option (System ρ κ)
  | .bootstrap =>
    if s.stage = .constructed then
      some { s with
        runner := onApplicationBootstrap config s.runner
        stage := .bootstrapped
        history := .bootstrapped :: s.history }
    else none
  | .dispatchTick run now =>
    if s.runner.timer = true ∧ s.dispatches run = .idle then
      match dispatchOnce s.runner run now with
      | some runner =>
        some { s with
          runner := runner
          dispatches := Function.update s.dispatches run .pending
          history := .dispatchStarted now :: s.history }
      | none => some s
    else none
  | .dispatchSettles run resolves =>
    if s.dispatches run = .pending then
      some { s with dispatches := Function.update s.dispatches run (.settled resolves) }
    else none
  | .dispatchHandled run now =>
    match s.dispatches run with
    | .settled resolved =>
      some { s with
        runner := dispatchHandled s.runner resolved now
        dispatches := Function.update s.dispatches run .handled
        history := (if resolved then .dispatchSucceeded else .dispatchFailed now) :: s.history }
    | _ => none
  | .dispatchFinally run =>
    if s.dispatches run = .handled then
      some { s with
        runner := { s.runner with inFlightDispatch := none }
        dispatches := Function.update s.dispatches run .finished }
    else none
  | .reconcileTick run =>
    if s.runner.reconcileTimer = true ∧ s.reconciles run = .idle then
      match reconcileOnce s.runner run with
      | some runner =>
        some { s with
          runner := runner
          reconciles := Function.update s.reconciles run .pending
          history := .reconcileStarted :: s.history }
      | none => some s
    else none
  | .reconcileSettles run resolves =>
    if s.reconciles run = .pending then
      some { s with reconciles := Function.update s.reconciles run (.settled resolves) }
    else none
  | .reconcileHandled run =>
    match s.reconciles run with
    | .settled _ => some { s with reconciles := Function.update s.reconciles run .handled }
    | _ => none
  | .reconcileFinally run =>
    if s.reconciles run = .handled then
      some { s with
        runner := { s.runner with inFlightReconcile := none }
        reconciles := Function.update s.reconciles run .finished }
    else none
  | .shutdown call =>
    match s.shutdowns call with
    | .idle =>
      some { s with
        runner := clearTimers s.runner
        stage := .stopped
        shutdowns := Function.update s.shutdowns call (.awaits s.runner.inFlightDispatch s.runner.inFlightReconcile)
        history := .stopped :: s.history }
    | _ => none
  | .shutdownResumes call =>
    match s.shutdowns call with
    | .awaits dispatch reconcile =>
      if isFinished s.dispatches dispatch ∧ isFinished s.reconciles reconcile then
        some { s with shutdowns := Function.update s.shutdowns call .resolved }
      else none
    | _ => none

def machine (ρ κ : Type) [DecidableEq ρ] [DecidableEq κ] (config : ConfigValue) : Machine (System ρ κ) (Label ρ κ) :=
  ⟨.initial, step config⟩

end Steps

section History

def streak : List Event → ℕ
  | [] => 0
  | .dispatchFailed _ :: past => streak past + 1
  | .dispatchSucceeded :: _ => 0
  | _ :: past => streak past

def cooldownEnd : List Event → Time
  | [] => 0
  | .dispatchFailed now :: past => now + calculateCooldownMs (streak past + 1)
  | .dispatchSucceeded :: _ => 0
  | _ :: past => cooldownEnd past

def openStart : List Event → Option Time
  | [] => none
  | .dispatchStarted now :: _ => some now
  | .dispatchFailed _ :: _ | .dispatchSucceeded :: _ => none
  | _ :: past => openStart past

def outageStart : List Event → Option Time
  | [] => none
  | .dispatchFailed now :: past => some ((outageStart past).getD now)
  | .dispatchSucceeded :: _ => none
  | _ :: past => outageStart past

def Event.isLifecycle : Event → Bool
  | .bootstrapped | .stopped => true
  | _ => false

structure IsRunning (config : ConfigValue) (history : List Event) : Prop where
  enabled : isEnabled config = true
  bootstrapped : .bootstrapped ∈ history
  stopped : .stopped ∉ history

def Event.Admitted (config : ConfigValue) (past : List Event) : Event → Prop
  | .bootstrapped => .bootstrapped ∉ past ∧ .stopped ∉ past
  | .dispatchStarted now => IsRunning config past ∧ openStart past = none ∧ cooldownEnd past ≤ now
  | .dispatchSucceeded | .dispatchFailed _ => (openStart past).isSome = true
  | .reconcileStarted => IsRunning config past
  | .stopped => True

def AllAdmitted (config : ConfigValue) (history : List Event) : Prop :=
  ∀ later e past, history = later ++ e :: past → e.Admitted config past

theorem AllAdmitted.nil {config : ConfigValue} : AllAdmitted config [] := by
  intro later e past h
  cases later <;> cases h

theorem AllAdmitted.cons {config : ConfigValue} {e : Event} {past : List Event} (he : e.Admitted config past)
    (h : AllAdmitted config past) : AllAdmitted config (e :: past) := by
  intro later e' past' heq
  cases later with
  | nil =>
    cases heq
    exact he
  | cons x later =>
    cases heq
    exact h later e' past' rfl

theorem AllAdmitted.tail {config : ConfigValue} {e : Event} {past : List Event} (h : AllAdmitted config (e :: past)) :
    AllAdmitted config past := by
  rintro later e' past' rfl
  exact h (e :: later) e' past' rfl

end History

section Invariant

variable {ρ κ : Type}

def Tracks (inFlight : Option ρ) (runs : ρ → RunPhase) : Prop := ∀ run, (runs run).isActive = true ↔ inFlight = some run

def IsOpen (phase : RunPhase) : Prop := phase = .pending ∨ ∃ resolved, phase = .settled resolved

structure Awaits (promise : Option ρ) (runs : ρ → RunPhase) : Prop where
  started : ∀ run, promise = some run → runs run ≠ .idle
  active : ∀ run, (runs run).isActive = true → promise = some run

def Drains (dispatches reconciles : ρ → RunPhase) : Shutdown ρ → Prop
  | .idle => True
  | .awaits dispatch reconcile => Awaits dispatch dispatches ∧ Awaits reconcile reconciles
  | .resolved => Awaits none dispatches ∧ Awaits none reconciles

structure Inv (config : ConfigValue) (s : System ρ κ) : Prop where
  dispatches : Tracks s.runner.inFlightDispatch s.dispatches
  reconciles : Tracks s.runner.inFlightReconcile s.reconciles
  failures : s.runner.consecutiveFailures = streak s.history
  cooldown : s.runner.cooldownUntilMs = cooldownEnd s.history
  timer : s.runner.timer = true ↔ IsRunning config s.history
  reconcileTimer : s.runner.reconcileTimer = true ↔ IsRunning config s.history
  stage : s.stage = .constructed → .bootstrapped ∉ s.history ∧ .stopped ∉ s.history
  outcome : (openStart s.history).isSome = true ↔ ∃ run, IsOpen (s.dispatches run)
  admitted : AllAdmitted config s.history
  stopped : ∀ call, s.shutdowns call ≠ .idle → .stopped ∈ s.history
  drains : ∀ call, Drains s.dispatches s.reconciles (s.shutdowns call)

section Runs

variable [DecidableEq ρ] {inFlight promise : Option ρ} {runs : ρ → RunPhase} {run : ρ} {phase : RunPhase}

theorem isActive_update (other : ρ) : (Function.update runs run phase other).isActive =
    if other = run then phase.isActive else (runs other).isActive := by
  rw [Function.update_apply]
  split_ifs
  · rfl
  · rfl

theorem Tracks.start (h : Tracks none runs) : Tracks (some run) (Function.update runs run .pending) := by
  intro other
  rw [isActive_update]
  split_ifs with ho
  · simp [ho, RunPhase.isActive]
  · have hnone := h other
    simp only [reduceCtorEq, iff_false] at hnone
    simp [hnone, Ne.symm ho]

theorem Tracks.advance (h : Tracks inFlight runs) (hrun : (runs run).isActive = true) (hphase : phase.isActive = true) :
    Tracks inFlight (Function.update runs run phase) := by
  intro other
  rw [isActive_update]
  split_ifs with ho
  · rw [hphase, ho, ← h run, hrun]
  · exact h other

theorem Tracks.finish (h : Tracks inFlight runs) (hrun : (runs run).isActive = true) :
    Tracks none (Function.update runs run .finished) := by
  intro other
  rw [isActive_update]
  split_ifs with ho
  · simp [RunPhase.isActive]
  · have hin : inFlight = some run := (h run).mp hrun
    simp only [h other, hin, Option.some.injEq, Ne.symm ho]

omit [DecidableEq ρ] in
theorem Tracks.unique (h : Tracks inFlight runs) {a b : ρ} (ha : (runs a).isActive = true) (hb : (runs b).isActive = true) :
    a = b := by
  have hab := ((h a).mp ha).symm.trans ((h b).mp hb)
  exact Option.some.inj hab

omit [DecidableEq ρ] in
theorem Tracks.awaits (h : Tracks inFlight runs) : Awaits inFlight runs := by
  constructor
  · intro run hrun hidle
    have hactive := (h run).mpr hrun
    rw [hidle] at hactive
    cases hactive
  · exact fun run hrun => (h run).mp hrun

theorem Awaits.update (h : Awaits promise runs) (hidle : phase ≠ .idle)
    (hphase : phase.isActive = true → (runs run).isActive = true) : Awaits promise (Function.update runs run phase) := by
  constructor
  · intro other ho
    rw [Function.update_apply]
    split_ifs
    · exact hidle
    · exact h.started other ho
  · intro other ho
    rw [isActive_update] at ho
    split_ifs at ho with heq
    · rw [heq]
      exact h.active run (hphase ho)
    · exact h.active other ho

theorem Drains.update_dispatches {reconciles : ρ → RunPhase} {shutdown : Shutdown ρ} (h : Drains runs reconciles shutdown)
    (hidle : phase ≠ .idle) (hphase : phase.isActive = true → (runs run).isActive = true) :
    Drains (Function.update runs run phase) reconciles shutdown := by
  cases shutdown with
  | idle => trivial
  | awaits dispatch reconcile => exact ⟨h.1.update hidle hphase, h.2⟩
  | resolved => exact ⟨h.1.update hidle hphase, h.2⟩

theorem Drains.update_reconciles {dispatches : ρ → RunPhase} {shutdown : Shutdown ρ} (h : Drains dispatches runs shutdown)
    (hidle : phase ≠ .idle) (hphase : phase.isActive = true → (runs run).isActive = true) :
    Drains dispatches (Function.update runs run phase) shutdown := by
  cases shutdown with
  | idle => trivial
  | awaits dispatch reconcile => exact ⟨h.1, h.2.update hidle hphase⟩
  | resolved => exact ⟨h.1, h.2.update hidle hphase⟩

theorem exists_isOpen_update (hrun : IsOpen (runs run)) (hphase : IsOpen phase) :
    (∃ other, IsOpen (Function.update runs run phase other)) ↔ ∃ other, IsOpen (runs other) := by
  constructor
  · exact fun _ => ⟨run, hrun⟩
  · exact fun _ => ⟨run, by rwa [Function.update_self]⟩

theorem IsOpen.isActive (h : IsOpen phase) : phase.isActive = true := by
  rcases h with rfl | ⟨resolved, rfl⟩
  · rfl
  · rfl

theorem Tracks.not_isOpen_update (h : Tracks inFlight runs) (hrun : (runs run).isActive = true) (hphase : ¬ IsOpen phase) :
    ¬ ∃ other, IsOpen (Function.update runs run phase other) := by
  rintro ⟨other, ho⟩
  rw [Function.update_apply] at ho
  split_ifs at ho with heq
  · exact hphase ho
  · exact heq (h.unique ho.isActive hrun)

end Runs

variable {config : ConfigValue} {s s' : System ρ κ}

theorem inv_initial [DecidableEq ρ] [DecidableEq κ] : Inv config (System.initial : System ρ κ) := by
  have hrunning : ¬ IsRunning config [] := fun h => absurd h.bootstrapped List.not_mem_nil
  constructor
  · intro run
    simp [System.initial, RunPhase.isActive]
  · intro run
    simp [System.initial, RunPhase.isActive]
  · rfl
  · rfl
  · simpa [System.initial] using hrunning
  · simpa [System.initial] using hrunning
  · intro _
    exact ⟨List.not_mem_nil, List.not_mem_nil⟩
  · simp [System.initial, openStart, IsOpen]
  · exact .nil
  · exact fun call h => absurd rfl h
  · exact fun _ => trivial

theorem mem_cons_of_isLifecycle {e e' : Event} {past : List Event} (he : e.isLifecycle = false) (he' : e'.isLifecycle = true) :
    e' ∈ e :: past ↔ e' ∈ past := by
  have hne : e' ≠ e := by
    rintro rfl
    rw [he] at he'
    cases he'
  simp [hne]

theorem isRunning_cons {e : Event} {past : List Event} (he : e.isLifecycle = false) :
    IsRunning config past ↔ IsRunning config (e :: past) := by
  constructor
  · intro h
    exact ⟨h.enabled, (mem_cons_of_isLifecycle he rfl).mpr h.bootstrapped, (mem_cons_of_isLifecycle he rfl).not.mpr h.stopped⟩
  · intro h
    exact ⟨h.enabled, (mem_cons_of_isLifecycle he rfl).mp h.bootstrapped, (mem_cons_of_isLifecycle he rfl).not.mp h.stopped⟩

theorem Inv.stage_cons (hi : Inv config s) {e : Event} (he : e.isLifecycle = false) (h : s.stage = .constructed) :
    .bootstrapped ∉ e :: s.history ∧ .stopped ∉ e :: s.history := by
  rw [mem_cons_of_isLifecycle he rfl, mem_cons_of_isLifecycle he rfl]
  exact hi.stage h

theorem Inv.stopped_cons (hi : Inv config s) (e : Event) (call : κ) (h : s.shutdowns call ≠ .idle) :
    .stopped ∈ e :: s.history :=
  List.mem_cons_of_mem e (hi.stopped call h)

theorem Inv.drains_of_isRunning (hi : Inv config s) (hrunning : IsRunning config s.history)
    (dispatches reconciles : ρ → RunPhase) (call : κ) : Drains dispatches reconciles (s.shutdowns call) := by
  have hidle : s.shutdowns call = .idle := by
    by_contra h
    exact hrunning.stopped (hi.stopped call h)
  rw [hidle]
  trivial

theorem dispatchOnce_eq_some {r r' : Runner ρ} {run : ρ} {now : Time} : dispatchOnce r run now = some r' ↔
    r.inFlightDispatch = none ∧ r.cooldownUntilMs ≤ now ∧ r' = { r with inFlightDispatch := some run } := by
  unfold dispatchOnce
  split_ifs with hin hcooldown
  · simp [Option.isSome_iff_ne_none.mp hin]
  · simp [hcooldown]
  · simp only [Option.not_isSome_iff_eq_none] at hin
    simp [hin, not_lt.mp hcooldown, eq_comm]

theorem drains_update [DecidableEq κ] {dispatches reconciles : ρ → RunPhase} {shutdowns : κ → Shutdown ρ} {call : κ}
    {shutdown : Shutdown ρ} (h : ∀ other, Drains dispatches reconciles (shutdowns other))
    (hnew : Drains dispatches reconciles shutdown) (other : κ) :
    Drains dispatches reconciles (Function.update shutdowns call shutdown other) := by
  rw [Function.update_apply]
  split_ifs
  · exact hnew
  · exact h other

section Steps

variable [DecidableEq ρ] [DecidableEq κ]

theorem Inv.bootstrap (hi : Inv config s) (hstep : step config s .bootstrap = some s') : Inv config s' := by
  simp only [step] at hstep
  split_ifs at hstep with hstage
  obtain rfl := Option.some.inj hstep
  obtain ⟨hbootstrapped, hstopped⟩ := hi.stage hstage
  have hrunning : IsRunning config (.bootstrapped :: s.history) ↔ isEnabled config = true := by
    constructor
    · exact fun h => h.enabled
    · exact fun h => ⟨h, List.mem_cons_self, by simpa using hstopped⟩
  have hnot : ¬ IsRunning config s.history := fun h => hbootstrapped h.bootstrapped
  have htimers : ∀ config, (onApplicationBootstrap config s.runner).inFlightDispatch = s.runner.inFlightDispatch ∧
      (onApplicationBootstrap config s.runner).inFlightReconcile = s.runner.inFlightReconcile ∧
      (onApplicationBootstrap config s.runner).consecutiveFailures = s.runner.consecutiveFailures ∧
      (onApplicationBootstrap config s.runner).cooldownUntilMs = s.runner.cooldownUntilMs := by
    intro config
    unfold onApplicationBootstrap
    split_ifs
    · exact ⟨rfl, rfl, rfl, rfl⟩
    · exact ⟨rfl, rfl, rfl, rfl⟩
  obtain ⟨hdispatch, hreconcile, hfailures, hcooldown⟩ := htimers config
  constructor
  · exact hdispatch ▸ hi.dispatches
  · exact hreconcile ▸ hi.reconciles
  · exact hfailures.trans hi.failures
  · exact hcooldown.trans hi.cooldown
  · rw [hrunning]
    unfold onApplicationBootstrap
    split_ifs with he
    · simp [he]
    · simp [he, hi.timer, hnot]
  · rw [hrunning]
    unfold onApplicationBootstrap
    split_ifs with he
    · simp [he]
    · simp [he, hi.reconcileTimer, hnot]
  · intro h
    cases h
  · exact hi.outcome
  · exact hi.admitted.cons ⟨hbootstrapped, hstopped⟩
  · exact hi.stopped_cons .bootstrapped
  · exact hi.drains

theorem Inv.dispatchTick (hi : Inv config s) {run : ρ} {now : Time} (hstep : step config s (.dispatchTick run now) = some s') :
    Inv config s' := by
  simp only [step] at hstep
  split_ifs at hstep with htick
  have hrunning := hi.timer.mp htick.1
  split at hstep
  · rename_i runner honce
    obtain ⟨hnone, hcooldown, rfl⟩ := dispatchOnce_eq_some.mp honce
    obtain rfl := Option.some.inj hstep
    have htracks := hi.dispatches
    rw [hnone] at htracks
    have hopen : openStart s.history = none := by
      rw [← Option.not_isSome_iff_eq_none, hi.outcome]
      rintro ⟨other, hother⟩
      cases (htracks other).mp hother.isActive
    constructor
    · exact htracks.start
    · exact hi.reconciles
    · exact hi.failures
    · exact hi.cooldown
    · exact hi.timer.trans (isRunning_cons rfl)
    · exact hi.reconcileTimer.trans (isRunning_cons rfl)
    · exact hi.stage_cons rfl
    · simp only [openStart, Option.isSome_some, true_iff]
      exact ⟨run, .inl (Function.update_self _ _ _)⟩
    · exact hi.admitted.cons ⟨hrunning, hopen, hi.cooldown ▸ hcooldown⟩
    · exact hi.stopped_cons _
    · exact hi.drains_of_isRunning hrunning _ _
  · obtain rfl := Option.some.inj hstep
    exact hi

theorem Inv.dispatchSettles (hi : Inv config s) {run : ρ} {resolves : Bool}
    (hstep : step config s (.dispatchSettles run resolves) = some s') : Inv config s' := by
  simp only [step] at hstep
  split_ifs at hstep with hpending
  obtain rfl := Option.some.inj hstep
  have hopen : IsOpen (s.dispatches run) := .inl hpending
  refine { hi with dispatches := hi.dispatches.advance hopen.isActive rfl, outcome := ?_, drains := ?_ }
  · rw [exists_isOpen_update hopen (.inr ⟨resolves, rfl⟩)]
    exact hi.outcome
  · exact fun call => (hi.drains call).update_dispatches (fun h => by cases h) (fun _ => hopen.isActive)

theorem Inv.dispatchHandled (hi : Inv config s) {run : ρ} {now : Time}
    (hstep : step config s (.dispatchHandled run now) = some s') : Inv config s' := by
  simp only [step] at hstep
  split at hstep
  · rename_i resolved hsettled
    obtain rfl := Option.some.inj hstep
    have hopen : IsOpen (s.dispatches run) := .inr ⟨resolved, hsettled⟩
    have hclosed : ¬ ∃ other, IsOpen (Function.update s.dispatches run .handled other) := by
      apply hi.dispatches.not_isOpen_update hopen.isActive
      rintro (h | ⟨resolved, h⟩)
      · cases h
      · cases h
    have hstarted := hi.outcome.mpr ⟨run, hopen⟩
    have hdrains (call : κ) : Drains (Function.update s.dispatches run .handled) s.reconciles (s.shutdowns call) :=
      (hi.drains call).update_dispatches (fun h => by cases h) (fun _ => hopen.isActive)
    cases resolved with
    | true =>
      constructor
      · exact hi.dispatches.advance hopen.isActive rfl
      · exact hi.reconciles
      · rfl
      · rfl
      · exact hi.timer.trans (isRunning_cons rfl)
      · exact hi.reconcileTimer.trans (isRunning_cons rfl)
      · exact hi.stage_cons rfl
      · simpa [openStart] using hclosed
      · exact hi.admitted.cons hstarted
      · exact hi.stopped_cons _
      · exact hdrains
    | false =>
      constructor
      · exact hi.dispatches.advance hopen.isActive rfl
      · exact hi.reconciles
      · exact congrArg (· + 1) hi.failures
      · simp [OutboxDispatcherRunner.dispatchHandled, cooldownEnd, hi.failures]
      · exact hi.timer.trans (isRunning_cons rfl)
      · exact hi.reconcileTimer.trans (isRunning_cons rfl)
      · exact hi.stage_cons rfl
      · simpa [openStart] using hclosed
      · exact hi.admitted.cons hstarted
      · exact hi.stopped_cons _
      · exact hdrains
  · cases hstep

theorem Inv.dispatchFinally (hi : Inv config s) {run : ρ} (hstep : step config s (.dispatchFinally run) = some s') :
    Inv config s' := by
  simp only [step] at hstep
  split_ifs at hstep with hhandled
  obtain rfl := Option.some.inj hstep
  have hactive : (s.dispatches run).isActive = true := by rw [hhandled]; rfl
  have hclosed (phase : RunPhase) (hphase : ¬ IsOpen phase) :
      ¬ ∃ other, IsOpen (Function.update s.dispatches run phase other) :=
    hi.dispatches.not_isOpen_update hactive hphase
  have hsame : (∃ other, IsOpen (s.dispatches other)) ↔ ∃ other, IsOpen (Function.update s.dispatches run .finished other) := by
    have hbefore := hclosed .handled (by rintro (h | ⟨resolved, h⟩) <;> cases h)
    have hafter := hclosed .finished (by rintro (h | ⟨resolved, h⟩) <;> cases h)
    rw [← hhandled, Function.update_eq_self] at hbefore
    exact iff_of_false hbefore hafter
  refine { hi with dispatches := hi.dispatches.finish hactive, outcome := hi.outcome.trans hsame, drains := ?_ }
  exact fun call => (hi.drains call).update_dispatches (fun h => by cases h) (fun _ => hactive)

theorem Inv.reconcileTick (hi : Inv config s) {run : ρ} (hstep : step config s (.reconcileTick run) = some s') :
    Inv config s' := by
  simp only [step] at hstep
  split_ifs at hstep with htick
  have hrunning := hi.reconcileTimer.mp htick.1
  unfold reconcileOnce at hstep
  split at hstep
  · rename_i runner honce
    split_ifs at honce with hnone
    simp only [Option.not_isSome_iff_eq_none] at hnone
    obtain rfl := Option.some.inj honce
    obtain rfl := Option.some.inj hstep
    have htracks := hi.reconciles
    rw [hnone] at htracks
    constructor
    · exact hi.dispatches
    · exact htracks.start
    · exact hi.failures
    · exact hi.cooldown
    · exact hi.timer.trans (isRunning_cons rfl)
    · exact hi.reconcileTimer.trans (isRunning_cons rfl)
    · exact hi.stage_cons rfl
    · exact hi.outcome
    · exact hi.admitted.cons hrunning
    · exact hi.stopped_cons _
    · exact hi.drains_of_isRunning hrunning _ _
  · obtain rfl := Option.some.inj hstep
    exact hi

omit [DecidableEq κ] in
theorem Inv.advance_reconcile (hi : Inv config s) {run : ρ} {phase : RunPhase} (hrun : (s.reconciles run).isActive = true)
    (hphase : phase.isActive = true) : Inv config { s with reconciles := Function.update s.reconciles run phase } := by
  refine { hi with reconciles := hi.reconciles.advance hrun hphase, drains := ?_ }
  intro call
  apply (hi.drains call).update_reconciles
  · rintro rfl
    cases hphase
  · exact fun _ => hrun

theorem Inv.reconcileFinally (hi : Inv config s) {run : ρ} (hstep : step config s (.reconcileFinally run) = some s') :
    Inv config s' := by
  simp only [step] at hstep
  split_ifs at hstep with hhandled
  obtain rfl := Option.some.inj hstep
  have hactive : (s.reconciles run).isActive = true := by rw [hhandled]; rfl
  refine { hi with reconciles := hi.reconciles.finish hactive, drains := ?_ }
  exact fun call => (hi.drains call).update_reconciles (fun h => by cases h) (fun _ => hactive)

theorem Inv.shutdown (hi : Inv config s) {call : κ} (hstep : step config s (.shutdown call) = some s') : Inv config s' := by
  simp only [step] at hstep
  split at hstep
  · obtain rfl := Option.some.inj hstep
    have hrunning : ¬ IsRunning config (.stopped :: s.history) := fun h => h.stopped List.mem_cons_self
    constructor
    · exact hi.dispatches
    · exact hi.reconciles
    · exact hi.failures
    · exact hi.cooldown
    · simpa [clearTimers] using hrunning
    · simpa [clearTimers] using hrunning
    · intro h
      cases h
    · exact hi.outcome
    · exact hi.admitted.cons trivial
    · exact fun _ _ => List.mem_cons_self
    · exact drains_update hi.drains ⟨hi.dispatches.awaits, hi.reconciles.awaits⟩
  · cases hstep

omit [DecidableEq ρ] in
theorem Awaits.finished {promise : Option ρ} {runs : ρ → RunPhase} (h : Awaits promise runs)
    (hfinished : isFinished runs promise = true) : Awaits none runs := by
  constructor
  · intro run hrun
    cases hrun
  · intro run hrun
    obtain rfl := h.active run hrun
    simp only [isFinished, Option.all_some, decide_eq_true_eq] at hfinished
    rw [hfinished] at hrun
    cases hrun

theorem Inv.shutdownResumes (hi : Inv config s) {call : κ} (hstep : step config s (.shutdownResumes call) = some s') :
    Inv config s' := by
  simp only [step] at hstep
  split at hstep
  · rename_i dispatch reconcile hawaits
    split_ifs at hstep with hfinished
    obtain rfl := Option.some.inj hstep
    have hdrains := hi.drains call
    rw [hawaits] at hdrains
    have hstopped : .stopped ∈ s.history := hi.stopped call (by rw [hawaits]; intro h; cases h)
    have hresolved : Drains s.dispatches s.reconciles .resolved :=
      ⟨hdrains.1.finished hfinished.1, hdrains.2.finished hfinished.2⟩
    exact { hi with stopped := fun _ _ => hstopped, drains := drains_update hi.drains hresolved }
  · cases hstep

theorem Inv.preserved (hi : Inv config s) {label : Label ρ κ} (hstep : step config s label = some s') : Inv config s' := by
  cases label with
  | bootstrap => exact hi.bootstrap hstep
  | dispatchTick run now => exact hi.dispatchTick hstep
  | dispatchSettles run resolves => exact hi.dispatchSettles hstep
  | dispatchHandled run now => exact hi.dispatchHandled hstep
  | dispatchFinally run => exact hi.dispatchFinally hstep
  | reconcileTick run => exact hi.reconcileTick hstep
  | reconcileSettles run resolves =>
    simp only [OutboxDispatcherRunner.step] at hstep
    split_ifs at hstep with hpending
    obtain rfl := Option.some.inj hstep
    exact hi.advance_reconcile (by rw [hpending]; rfl) rfl
  | reconcileHandled run =>
    simp only [OutboxDispatcherRunner.step] at hstep
    split at hstep
    · rename_i resolved hsettled
      obtain rfl := Option.some.inj hstep
      exact hi.advance_reconcile (by rw [hsettled]; rfl) rfl
    · cases hstep
  | reconcileFinally run => exact hi.reconcileFinally hstep
  | shutdown call => exact hi.shutdown hstep
  | shutdownResumes call => exact hi.shutdownResumes hstep

theorem inv_of_reachable (h : (machine ρ κ config).Reachable s) : Inv config s :=
  h.invariant inv_initial (fun _ _ _ hi hstep => hi.preserved hstep)

theorem Inv.starts_iff (hi : Inv config s) {run : ρ} {now : Time} (hstep : step config s (.dispatchTick run now) = some s') :
    s'.dispatches run = .pending ↔ (∀ other, (s.dispatches other).isActive = false) ∧ cooldownEnd s.history ≤ now := by
  have hfree : (∀ other, (s.dispatches other).isActive = false) ↔ s.runner.inFlightDispatch = none := by
    simp only [← Bool.not_eq_true, hi.dispatches _, Option.eq_none_iff_forall_ne_some]
  rw [hfree, ← hi.cooldown]
  simp only [step] at hstep
  split_ifs at hstep with htick
  split at hstep
  · rename_i runner honce
    obtain ⟨hnone, hcooldown, -⟩ := dispatchOnce_eq_some.mp honce
    obtain rfl := Option.some.inj hstep
    simp [hnone, hcooldown]
  · rename_i honce
    obtain rfl := Option.some.inj hstep
    rw [htick.2]
    constructor
    · intro h
      cases h
    · intro h
      have hsome : dispatchOnce s.runner run now = some _ := dispatchOnce_eq_some.mpr ⟨h.1, h.2, rfl⟩
      rw [honce] at hsome
      cases hsome

omit [DecidableEq ρ] in
theorem Awaits.isFinished {promise : Option ρ} {runs : ρ → RunPhase} (h : Awaits promise runs)
    (hinactive : ∀ run, (runs run).isActive = false) : isFinished runs promise = true := by
  cases promise with
  | none => rfl
  | some run =>
    have hstarted := h.started run rfl
    have hrun := hinactive run
    simp only [OutboxDispatcherRunner.isFinished, Option.all_some, decide_eq_true_eq]
    cases hphase : runs run with
    | finished => rfl
    | idle => exact absurd hphase hstarted
    | pending => rw [hphase] at hrun; cases hrun
    | settled resolved => rw [hphase] at hrun; cases hrun
    | handled => rw [hphase] at hrun; cases hrun

theorem Inv.shutdown_resolves (hi : Inv config s) {call : κ} {dispatch reconcile : Option ρ}
    (hawaits : s.shutdowns call = .awaits dispatch reconcile)
    (hinactive : ∀ run, (s.dispatches run).isActive = false ∧ (s.reconciles run).isActive = false) :
    ∃ s', step config s (.shutdownResumes call) = some s' ∧ s'.shutdowns call = .resolved := by
  have hdrains := hi.drains call
  rw [hawaits] at hdrains
  have hdispatch := hdrains.1.isFinished (fun run => (hinactive run).1)
  have hreconcile := hdrains.2.isFinished (fun run => (hinactive run).2)
  refine ⟨{ s with shutdowns := Function.update s.shutdowns call .resolved }, ?_, Function.update_self _ _ _⟩
  simp only [step, hawaits, hdispatch, hreconcile, and_self, ↓reduceIte]

structure Orderly (config : ConfigValue) (s : System ρ κ) : Prop where
  dispatches : ∀ a b, (s.dispatches a).isActive = true → (s.dispatches b).isActive = true → a = b
  reconciles : ∀ a b, (s.reconciles a).isActive = true → (s.reconciles b).isActive = true → a = b
  admitted : AllAdmitted config s.history
  starts : ∀ run now s', step config s (.dispatchTick run now) = some s' →
    (s'.dispatches run = .pending ↔ (∀ other, (s.dispatches other).isActive = false) ∧ cooldownEnd s.history ≤ now)
  drained : ∀ call, s.shutdowns call = .resolved →
    ∀ run, (s.dispatches run).isActive = false ∧ (s.reconciles run).isActive = false
  resolves : ∀ call dispatch reconcile, s.shutdowns call = .awaits dispatch reconcile →
    (∀ run, (s.dispatches run).isActive = false ∧ (s.reconciles run).isActive = false) →
    ∃ s', step config s (.shutdownResumes call) = some s' ∧ s'.shutdowns call = .resolved

theorem runner_orderly (hrun : (machine ρ κ config).Reachable s) : Orderly config s := by
  have hi := inv_of_reachable hrun
  constructor
  · exact fun a b => hi.dispatches.unique
  · exact fun a b => hi.reconciles.unique
  · exact hi.admitted
  · exact fun run now s' => hi.starts_iff
  · intro call hresolved run
    have hdrains := hi.drains call
    rw [hresolved] at hdrains
    constructor
    · by_contra hactive
      cases hdrains.1.active run (by simpa using hactive)
    · by_contra hactive
      cases hdrains.2.active run (by simpa using hactive)
  · exact fun call dispatch reconcile => hi.shutdown_resolves

end Steps

end Invariant

section Sample

def failingLabels : List (Label ℕ ℕ) :=
  [.bootstrap, .dispatchTick 0 1000, .reconcileTick 0, .dispatchSettles 0 false, .dispatchHandled 0 1500,
    .dispatchFinally 0, .dispatchTick 1 2499, .dispatchTick 1 2500, .dispatchSettles 1 false, .dispatchHandled 1 2600]

def stoppingLabels : List (Label ℕ ℕ) :=
  failingLabels ++ [.shutdown 0, .dispatchFinally 1, .reconcileSettles 0 true, .reconcileHandled 0, .reconcileFinally 0,
    .shutdownResumes 0]

theorem runner_orderly_sample : ∃ s : System ℕ ℕ, s.shutdowns 0 = .resolved ∧ s.runner.consecutiveFailures = 2 ∧
    Orderly .other s := by
  have hrun := Machine.reachable_of_labels (m := machine ℕ ℕ .other) stoppingLabels rfl
  exact ⟨_, rfl, rfl, runner_orderly hrun⟩

end Sample

section Outage

variable {config : ConfigValue} {history : List Event}

def Event.time : Event → Option Time
  | .dispatchStarted now | .dispatchFailed now => some now
  | _ => none

def Chronological (history : List Event) : Prop :=
  history.Pairwise (fun later earlier => ∀ t ∈ later.time, ∀ t' ∈ earlier.time, t' ≤ t)

def cooldownsMs (failures : ℕ) : ℕ := ∑ i ∈ Finset.range failures, calculateCooldownMs (i + 1)

theorem cooldownEnd_le_openStart (h : AllAdmitted config history) {start : Time} (hstart : openStart history = some start) :
    cooldownEnd history ≤ start ∧ ∃ e ∈ history, e.time = some start := by
  induction history with
  | nil => cases hstart
  | cons e past ih =>
    cases e with
    | dispatchStarted now =>
      obtain rfl := Option.some.inj hstart
      exact ⟨(h [] _ past rfl).2.2, _, List.mem_cons_self, rfl⟩
    | dispatchFailed now => cases hstart
    | dispatchSucceeded => cases hstart
    | bootstrapped =>
      obtain ⟨hle, e, he, ht⟩ := ih h.tail hstart
      exact ⟨hle, e, List.mem_cons_of_mem _ he, ht⟩
    | reconcileStarted =>
      obtain ⟨hle, e, he, ht⟩ := ih h.tail hstart
      exact ⟨hle, e, List.mem_cons_of_mem _ he, ht⟩
    | stopped =>
      obtain ⟨hle, e, he, ht⟩ := ih h.tail hstart
      exact ⟨hle, e, List.mem_cons_of_mem _ he, ht⟩

theorem cooldownEnd_le_of_failed {past : List Event} {now : Time} (h : AllAdmitted config (.dispatchFailed now :: past))
    (hclock : Chronological (.dispatchFailed now :: past)) : cooldownEnd past ≤ now := by
  obtain ⟨start, hstart⟩ := Option.isSome_iff_exists.mp (h [] _ past rfl)
  obtain ⟨hle, e, he, ht⟩ := cooldownEnd_le_openStart h.tail hstart
  exact hle.trans ((List.pairwise_cons.mp hclock).1 e he now rfl start ht)

theorem streak_of_outageStart_none (h : outageStart history = none) : streak history = 0 := by
  induction history with
  | nil => rfl
  | cons e past ih =>
    cases e with
    | dispatchFailed now => cases h
    | dispatchSucceeded => rfl
    | dispatchStarted now => exact ih h
    | bootstrapped => exact ih h
    | reconcileStarted => exact ih h
    | stopped => exact ih h

theorem outageStart_add_cooldownsMs (h : AllAdmitted config history) (hclock : Chronological history) {first : Time}
    (hfirst : outageStart history = some first) : first + cooldownsMs (streak history) ≤ cooldownEnd history := by
  induction history with
  | nil => cases hfirst
  | cons e past ih =>
    have hpast := (List.pairwise_cons.mp hclock).2
    cases e with
    | dispatchFailed now =>
      have hle := cooldownEnd_le_of_failed h hclock
      have hbefore : first + cooldownsMs (streak past) ≤ now := by
        cases hprev : outageStart past with
        | none =>
          simp only [outageStart, hprev, Option.getD_none, Option.some.injEq] at hfirst
          rw [streak_of_outageStart_none hprev, hfirst]
          simp [cooldownsMs]
        | some first' =>
          simp only [outageStart, hprev, Option.getD_some, Option.some.injEq] at hfirst
          rw [hfirst] at hprev
          exact (ih h.tail hpast hprev).trans hle
      have hsum : cooldownsMs (streak past + 1) = cooldownsMs (streak past) + calculateCooldownMs (streak past + 1) :=
        Finset.sum_range_succ _ _
      simp only [streak, cooldownEnd, hsum, Nat.cast_add]
      linarith
    | dispatchSucceeded => cases hfirst
    | dispatchStarted now => exact ih h.tail hpast hfirst
    | bootstrapped => exact ih h.tail hpast hfirst
    | reconcileStarted => exact ih h.tail hpast hfirst
    | stopped => exact ih h.tail hpast hfirst

theorem cooldownsMs_ge (failures : ℕ) : runnerBackoffMaxMs * failures ≤ cooldownsMs failures + runnerBackoffMaxMs * 4 := by
  induction failures with
  | zero => decide
  | succ n ih =>
    have hsum : cooldownsMs (n + 1) = cooldownsMs n + calculateCooldownMs (n + 1) := Finset.sum_range_succ _ _
    by_cases hn : 5 ≤ n
    · have hpow : 2 ^ 5 ≤ 2 ^ n := Nat.pow_le_pow_right (by decide) hn
      have hmax : calculateCooldownMs (n + 1) = runnerBackoffMaxMs := by
        simp only [calculateCooldownMs, runnerBackoffBaseMs, runnerBackoffMaxMs, Nat.add_sub_cancel]
        omega
      rw [hsum, hmax]
      simp only [runnerBackoffMaxMs] at ih ⊢
      omega
    · interval_cases n
      · decide
      · decide
      · decide
      · decide
      · decide

theorem streak_le_of_cooldowns {n total : ℕ} {first now : ℤ}
    (hcooldowns : runnerBackoffMaxMs * n ≤ total + runnerBackoffMaxMs * 4) (hle : first + total ≤ now) :
    ((n + 1 : ℕ) : ℤ) ≤ 5 + (now - first) / runnerBackoffMaxMs := by
  simp only [runnerBackoffMaxMs] at hcooldowns ⊢
  omega

theorem outage_failures_bounded {ρ κ : Type} [DecidableEq ρ] [DecidableEq κ] {s : System ρ κ}
    (hrun : (machine ρ κ config).Reachable s) (hclock : Chronological s.history) {later past : List Event} {now : Time}
    (hfailed : s.history = later ++ .dispatchFailed now :: past) :
    ∃ first, outageStart (.dispatchFailed now :: past) = some first ∧
      (streak (.dispatchFailed now :: past) : ℤ) ≤ 5 + (now - first) / runnerBackoffMaxMs := by
  have hadmitted : AllAdmitted config (.dispatchFailed now :: past) := by
    intro later' e past' heq
    exact (inv_of_reachable hrun).admitted (later ++ later') e past' (by rw [hfailed, heq, List.append_assoc])
  have hclock' : Chronological (.dispatchFailed now :: past) := by
    rw [Chronological, hfailed] at hclock
    exact (List.pairwise_append.mp hclock).2.1
  refine ⟨_, rfl, streak_le_of_cooldowns (cooldownsMs_ge (streak past)) ?_⟩
  have hend := outageStart_add_cooldownsMs hadmitted hclock' rfl
  have hsum : cooldownsMs (streak past + 1) = cooldownsMs (streak past) + calculateCooldownMs (streak past + 1) :=
    Finset.sum_range_succ _ _
  simp only [streak, cooldownEnd, hsum, Nat.cast_add] at hend
  linarith

def failingHistory : List Event :=
  [.dispatchFailed 2600, .dispatchStarted 2500, .dispatchFailed 1500, .reconcileStarted, .dispatchStarted 1000, .bootstrapped]

theorem outage_failures_bounded_sample : ∃ s : System ℕ ℕ, (machine ℕ ℕ .other).Reachable s ∧ s.history = failingHistory ∧
    ∃ first, outageStart failingHistory = some first ∧
      (streak failingHistory : ℤ) ≤ 5 + (2600 - first) / runnerBackoffMaxMs := by
  have hrun := Machine.reachable_of_labels (m := machine ℕ ℕ .other) failingLabels rfl
  have hclock : Chronological failingHistory := by
    simp [Chronological, failingHistory, Event.time]
  exact ⟨_, hrun, rfl, outage_failures_bounded hrun hclock (show failingHistory = [] ++ _ from rfl)⟩

end Outage

end EventGateway.OutboxDispatcherRunner
