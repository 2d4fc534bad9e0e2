import EventGateway.LabelledSteps
import Mathlib.Data.List.Basic
import Mathlib.Logic.Function.Basic

/-!
The Redis health check under every interleaving of checks and clients. The callback
that clears `connectPromise` does not look whose attempt the promise is, so the one
of a client that was replaced can clear the attempt of its successor.
-/

namespace EventGateway.RedisHealthCheck

open LabelledSteps

inductive Status
  | wait
  | connecting
  | ready
  | close
  | ended
deriving DecidableEq

/-- The promise of `connect()`; `settled` until the callback of `finally` has run. -/
inductive Attempt
  | none
  | unsettled
  | settled (resolved : Bool)
  | finished (resolved : Bool)
deriving DecidableEq

structure Client where
  status : Status
  attempt : Attempt
deriving DecidableEq

inductive CheckFailure (ν : Type)
  | notReady
  | connect (client : ν)
  | ping (client : ν)

inductive Phase (ν : Type)
  | idle
  | awaitsConnect (client attempt : ν)
  | connected (client : ν)
  | connectThrew (client : ν)
  | pings (client : ν)
  | succeeded
  | failed (client : ν) (failure : CheckFailure ν)

/-- The fields of the service, the clients, the checks, and the clients that checks have disconnected with the
status each had then. `connectPromise` is known by the client whose attempt it is. -/
structure Service (ν κ : Type) where
  client : Option ν
  connectPromise : Option ν
  clients : ν → Client
  created : List ν
  checks : κ → Phase ν
  disconnected : List (ν × Status)

section Code

variable {ν κ : Type} [DecidableEq ν] [DecidableEq κ]

def Service.initial : Service ν κ := ⟨none, none, fun _ => ⟨.wait, .none⟩, [], fun _ => .idle, []⟩

def isOver (status : Status) : Bool := status = .ended || status = .close

def resetClient (s : Service ν κ) (client : ν) : Service ν κ :=
  { s with
    client := if s.client = some client then none else s.client
    connectPromise := if s.client = some client then none else s.connectPromise
    disconnected := (client, (s.clients client).status) :: s.disconnected }

def getClient (s : Service ν κ) (built : ν) : ν × Service ν κ :=
  let s := match s.client with
    | some client => if isOver (s.clients client).status then resetClient s client else s
    | none => s
  match s.client with
  | some client => (client, s)
  | none => (built,
    { s with
      client := some built
      clients := Function.update s.clients built ⟨.wait, .none⟩
      created := built :: s.created })

def connect (s : Service ν κ) (client : ν) : Phase ν × Service ν κ :=
  if (s.clients client).status = .ready then (.connected client, s)
  else
    match s.connectPromise with
    | some attempt => (.awaitsConnect client attempt, s)
    | none =>
      if (s.clients client).status ≠ .wait then (.connectThrew client, s)
      else (.awaitsConnect client client,
        { s with
          clients := Function.update s.clients client ⟨.connecting, .unsettled⟩
          connectPromise := some client })

/-- The part of `check` after an await that is settled. -/
def resume (s : Service ν κ) : Phase ν → Option (Phase ν × Service ν κ)
  | .awaitsConnect client attempt =>
    match (s.clients attempt).attempt with
    | .finished true => some (.pings client, s)
    | .finished false => some (.failed client (.connect attempt), resetClient s client)
    | _ => none
  | .connected client => some (.pings client, s)
  | .connectThrew client => some (.failed client .notReady, resetClient s client)
  | _ => none

def onModuleDestroy (s : Service ν κ) : Service ν κ := { s with client := none, connectPromise := none }

inductive Label (ν κ : Type)
  | check (call : κ) (built : ν)
  | resume (call : κ)
  | pingSettles (call : κ) (resolves : Bool)
  | becomes (client : ν) (status : Status)
  | settles (client : ν) (resolves : Bool)
  | finallyRuns (client : ν)
  | destroy

def canBecome : Status → Status → Bool
  | .connecting, .ready | .connecting, .close | .connecting, .ended => true
  | .ready, .close | .ready, .ended => true
  | .close, .ended => true
  | _, _ => false

def step (s : Service ν κ) : Label ν κ → Option (Service ν κ)
  | .check call built =>
    match s.checks call with
    | .idle =>
      if built ∈ s.created then none
      else
        let (client, s₁) := getClient s built
        let (phase, s₂) := connect s₁ client
        some { s₂ with checks := Function.update s₂.checks call phase }
    | _ => none
  | .resume call =>
    (resume s (s.checks call)).map fun (phase, s') => { s' with checks := Function.update s'.checks call phase }
  | .pingSettles call resolves =>
    match s.checks call with
    | .pings client =>
      if resolves then some { s with checks := Function.update s.checks call .succeeded }
      else
        let s' := resetClient s client
        some { s' with checks := Function.update s'.checks call (.failed client (.ping client)) }
    | _ => none
  | .becomes client status =>
    if client ∈ s.created ∧ canBecome (s.clients client).status status = true then
      some { s with clients := Function.update s.clients client { s.clients client with status := status } }
    else none
  | .settles client resolves =>
    if (s.clients client).attempt = .unsettled ∧ (s.clients client).status ≠ .connecting then
      some { s with clients := Function.update s.clients client { s.clients client with attempt := .settled resolves } }
    else none
  | .finallyRuns client =>
    match (s.clients client).attempt with
    | .settled resolved =>
      some { s with
        clients := Function.update s.clients client { s.clients client with attempt := .finished resolved }
        connectPromise := none }
    | _ => none
  | .destroy => some (onModuleDestroy s)

def machine (ν κ : Type) [DecidableEq ν] [DecidableEq κ] : Machine (Service ν κ) (Label ν κ) := ⟨.initial, step⟩

end Code

def SharesAttempt {ν κ : Type} (s : Service ν κ) : Prop :=
  ∀ client, s.client = some client → (s.clients client).attempt = .unsettled → s.connectPromise = some client

structure FailsByItself {ν κ : Type} (s : Service ν κ) : Prop where
  threw : ∀ call client, s.checks call ≠ .connectThrew client
  failed : ∀ call client failure, s.checks call = .failed client failure →
    failure = .connect client ∧ (s.clients client).attempt = .finished false ∨ failure = .ping client
  disconnected : ∀ entry ∈ s.disconnected, entry.2 ≠ .connecting

def isTimely {ν κ : Type} [DecidableEq ν] (s : Service ν κ) : Label ν κ → Bool
  | .finallyRuns client =>
    match s.connectPromise with
    | some other => other = client || (s.clients other).attempt ≠ .unsettled
    | none => true
  | _ => true

def IsSettledStatus (status : Status) : Prop := status ≠ .wait ∧ status ≠ .connecting

def PhaseOk {ν : Type} (clients : ν → Client) : Phase ν → Prop
  | .awaitsConnect client attempt => attempt = client ∧ (clients client).attempt ≠ .none
  | .connected client | .pings client => IsSettledStatus (clients client).status
  | .connectThrew _ => False
  | .failed client failure =>
    failure = .connect client ∧ (clients client).attempt = .finished false ∨ failure = .ping client
  | .idle | .succeeded => True

structure Inv {ν κ : Type} (s : Service ν κ) : Prop where
  promise : ∀ client, s.connectPromise = some client → s.client = some client
  shares : SharesAttempt s
  fresh : ∀ client, client ∉ s.created → s.clients client = ⟨.wait, .none⟩
  connecting : ∀ client, (s.clients client).status = .connecting → (s.clients client).attempt = .unsettled
  started : ∀ client, (s.clients client).attempt ≠ .none → (s.clients client).status ≠ .wait
  current : ∀ client, s.client = some client → (s.clients client).attempt ≠ .none
  checks : ∀ call, PhaseOk s.clients (s.checks call)
  disconnected : ∀ entry ∈ s.disconnected, entry.2 ≠ .connecting

structure ClientEvolves (c c' : Client) : Prop where
  attempt : c.attempt ≠ .none → c'.attempt ≠ .none
  finished : ∀ resolved, c.attempt = .finished resolved → c'.attempt = .finished resolved
  status : IsSettledStatus c.status → IsSettledStatus c'.status

section Invariant

variable {ν κ : Type} {s s' : Service ν κ}

theorem ClientEvolves.refl (c : Client) : ClientEvolves c c := ⟨id, fun _ => id, id⟩

theorem PhaseOk.evolves {clients clients' : ν → Client} {phase : Phase ν} (hp : PhaseOk clients phase)
    (he : ∀ client, ClientEvolves (clients client) (clients' client)) : PhaseOk clients' phase := by
  cases phase with
  | idle => trivial
  | succeeded => trivial
  | connectThrew client => exact hp
  | awaitsConnect client attempt => exact ⟨hp.1, (he client).attempt hp.2⟩
  | connected client => exact (he client).status hp
  | pings client => exact (he client).status hp
  | failed client failure =>
    rcases hp with ⟨hf, hfinished⟩ | hf
    · exact .inl ⟨hf, (he client).finished false hfinished⟩
    · exact .inr hf

theorem Inv.isSettledStatus (hi : Inv s) {client : ν} (hstarted : (s.clients client).attempt ≠ .none)
    (hsettled : (s.clients client).attempt ≠ .unsettled) : IsSettledStatus (s.clients client).status :=
  ⟨hi.started client hstarted, fun h => hsettled (hi.connecting client h)⟩

theorem isSettledStatus_of_canBecome {status status' : Status} (h : canBecome status status' = true) :
    IsSettledStatus status' := by
  cases status' with
  | wait => cases status <;> cases h
  | connecting => cases status <;> cases h
  | ready => exact ⟨nofun, nofun⟩
  | close => exact ⟨nofun, nofun⟩
  | ended => exact ⟨nofun, nofun⟩

theorem Inv.mem_created (hi : Inv s) {client : ν} (h : (s.clients client).attempt ≠ .none) : client ∈ s.created := by
  by_contra hnot
  rw [hi.fresh client hnot] at h
  exact h rfl

theorem Inv.failsByItself (hi : Inv s) : FailsByItself s := by
  constructor
  · intro call client h
    have hp := hi.checks call
    rw [h] at hp
    exact hp
  · intro call client failure h
    have hp := hi.checks call
    rwa [h] at hp
  · exact hi.disconnected

theorem inv_initial [DecidableEq ν] [DecidableEq κ] : Inv (Service.initial : Service ν κ) := by
  constructor
  · exact nofun
  · exact nofun
  · exact fun _ _ => rfl
  · exact nofun
  · exact fun _ h => absurd rfl h
  · exact nofun
  · exact fun _ => trivial
  · exact nofun

theorem Inv.update_check [DecidableEq κ] (hi : Inv s) {call : κ} {phase : Phase ν} (hp : PhaseOk s.clients phase) :
    Inv { s with checks := Function.update s.checks call phase } := by
  refine { hi with checks := ?_ }
  intro c
  by_cases hc : c = call
  · subst hc
    simpa only [Function.update_self] using hp
  · simpa only [Function.update_of_ne hc] using hi.checks c

variable [DecidableEq ν]

theorem Inv.resetClient (hi : Inv s) {client : ν} (hstatus : (s.clients client).status ≠ .connecting) :
    Inv (resetClient s client) := by
  have hdisconnected : ∀ entry ∈ (client, (s.clients client).status) :: s.disconnected, entry.2 ≠ .connecting := by
    intro entry hentry
    rcases List.mem_cons.mp hentry with rfl | hentry
    · exact hstatus
    · exact hi.disconnected entry hentry
  unfold RedisHealthCheck.resetClient
  by_cases hcurrent : s.client = some client
  · simp only [if_pos hcurrent]
    exact { hi with promise := nofun, shares := nofun, current := nofun, disconnected := hdisconnected }
  · simp only [if_neg hcurrent]
    exact { hi with disconnected := hdisconnected }

theorem Inv.update_client (hi : Inv s) {client : ν} {c : Client} (hmem : client ∈ s.created)
    (hevolves : ClientEvolves (s.clients client) c) (hconnecting : c.status = .connecting → c.attempt = .unsettled)
    (hstarted : c.attempt ≠ .none → c.status ≠ .wait)
    (hshares : s.client = some client → c.attempt = .unsettled → (s.clients client).attempt = .unsettled) :
    Inv { s with clients := Function.update s.clients client c } := by
  have hupdate : ∀ other, other = client ∧ Function.update s.clients client c other = c ∨
      other ≠ client ∧ Function.update s.clients client c other = s.clients other := by
    intro other
    by_cases ho : other = client
    · exact .inl ⟨ho, by rw [ho, Function.update_self]⟩
    · exact .inr ⟨ho, Function.update_of_ne ho _ _⟩
  constructor
  · exact hi.promise
  · intro other hcurrent hunsettled
    obtain ⟨rfl, heq⟩ | ⟨-, heq⟩ := hupdate other
    · exact hi.shares other hcurrent (hshares hcurrent (heq ▸ hunsettled))
    · exact hi.shares other hcurrent (heq ▸ hunsettled)
  · intro other hother
    obtain ⟨rfl, -⟩ | ⟨-, heq⟩ := hupdate other
    · exact absurd hmem hother
    · exact heq.trans (hi.fresh other hother)
  · intro other
    obtain ⟨-, heq⟩ | ⟨-, heq⟩ := hupdate other
    · simpa only [heq] using hconnecting
    · simpa only [heq] using hi.connecting other
  · intro other
    obtain ⟨-, heq⟩ | ⟨-, heq⟩ := hupdate other
    · simpa only [heq] using hstarted
    · simpa only [heq] using hi.started other
  · intro other hcurrent
    obtain ⟨rfl, heq⟩ | ⟨-, heq⟩ := hupdate other
    · simpa only [heq] using hevolves.attempt (hi.current other hcurrent)
    · simpa only [heq] using hi.current other hcurrent
  · intro call
    apply (hi.checks call).evolves
    intro other
    obtain ⟨rfl, heq⟩ | ⟨-, heq⟩ := hupdate other
    · simpa only [heq] using hevolves
    · simpa only [heq] using ClientEvolves.refl (s.clients other)
  · exact hi.disconnected

theorem Inv.getClient_cases (hi : Inv s) (built : ν) :
    (∃ client, s.client = some client ∧ isOver (s.clients client).status = false ∧ getClient s built = (client, s)) ∨
      ∃ disconnected, (∀ entry ∈ disconnected, entry.2 ≠ .connecting) ∧ getClient s built = (built,
        { client := some built
          connectPromise := none
          clients := Function.update s.clients built ⟨.wait, .none⟩
          created := built :: s.created
          checks := s.checks
          disconnected := disconnected }) := by
  cases hclient : s.client with
  | none =>
    have hpromise : s.connectPromise = none := by
      cases hp : s.connectPromise with
      | none => rfl
      | some client =>
        have hcurrent := hi.promise client hp
        rw [hclient] at hcurrent
        cases hcurrent
    refine .inr ⟨s.disconnected, hi.disconnected, ?_⟩
    simp only [getClient, hclient, hpromise]
  | some client =>
    cases hover : isOver (s.clients client).status with
    | false =>
      refine .inl ⟨client, rfl, hover, ?_⟩
      simp only [getClient, hclient, hover, Bool.false_eq_true, ↓reduceIte]
    | true =>
      have hstatus : (s.clients client).status ≠ .connecting := by
        intro h
        rw [h] at hover
        cases hover
      refine .inr ⟨_, (hi.resetClient hstatus).disconnected, ?_⟩
      simp only [getClient, RedisHealthCheck.resetClient, hclient, hover, ↓reduceIte]

variable [DecidableEq κ]

theorem Inv.check_cases (hi : Inv s) {call : κ} {built : ν} (hstep : step s (.check call built) = some s') :
    (∃ client, (s.clients client).status = .ready ∧
        s' = { s with checks := Function.update s.checks call (.connected client) }) ∨
      (∃ client, (s.clients client).attempt = .unsettled ∧
        s' = { s with checks := Function.update s.checks call (.awaitsConnect client client) }) ∨
      built ∉ s.created ∧ ∃ disconnected, (∀ entry ∈ disconnected, entry.2 ≠ .connecting) ∧
        s' =
          { client := some built
            connectPromise := some built
            clients := Function.update s.clients built ⟨.connecting, .unsettled⟩
            created := built :: s.created
            checks := Function.update s.checks call (.awaitsConnect built built)
            disconnected := disconnected } := by
  simp only [step] at hstep
  split at hstep
  · split_ifs at hstep with hbuilt
    obtain rfl := Option.some.inj hstep
    obtain ⟨client, hcurrent, hover, hget⟩ | ⟨disconnected, hdisconnected, hget⟩ := hi.getClient_cases built
    · rw [hget]
      -- a current client that is not over is ready or has an open attempt
      by_cases hready : (s.clients client).status = .ready
      · exact .inl ⟨client, hready, by simp only [connect, if_pos hready]⟩
      · have hwait := hi.started client (hi.current client hcurrent)
        have hconnecting : (s.clients client).status = .connecting := by
          cases hstatus : (s.clients client).status with
          | wait => exact absurd hstatus hwait
          | connecting => rfl
          | ready => exact absurd hstatus hready
          | close => rw [hstatus] at hover; cases hover
          | ended => rw [hstatus] at hover; cases hover
        have hunsettled := hi.connecting client hconnecting
        have hpromise := hi.shares client hcurrent hunsettled
        exact .inr (.inl ⟨client, hunsettled, by simp only [connect, if_neg hready, hpromise]⟩)
    · rw [hget]
      refine .inr (.inr ⟨hbuilt, disconnected, hdisconnected, ?_⟩)
      simp [connect]
  · cases hstep

theorem Inv.check (hi : Inv s) {call : κ} {built : ν} (hstep : step s (.check call built) = some s') : Inv s' := by
  obtain ⟨client, hready, rfl⟩ | ⟨client, hunsettled, rfl⟩ | ⟨hbuilt, disconnected, hdisconnected, rfl⟩ :=
    hi.check_cases hstep
  · exact hi.update_check (show IsSettledStatus _ by rw [hready]; exact ⟨nofun, nofun⟩)
  · exact hi.update_check ⟨rfl, by rw [hunsettled]; exact nofun⟩
  · have hempty : Inv { s with
        client := none, connectPromise := none, created := built :: s.created, disconnected := disconnected } := by
      refine { hi with promise := nofun, shares := nofun, current := nofun, fresh := ?_, disconnected := hdisconnected }
      exact fun client hclient => hi.fresh client (fun h => hclient (List.mem_cons_of_mem built h))
    have hevolves : ClientEvolves (s.clients built) ⟨.connecting, .unsettled⟩ := by
      rw [hi.fresh built hbuilt]
      exact ⟨fun h => absurd rfl h, nofun, fun h => absurd rfl h.1⟩
    have hopened := hempty.update_client List.mem_cons_self hevolves (fun _ => rfl) (fun _ => nofun) nofun
    have hunsettled : (Function.update s.clients built ⟨.connecting, .unsettled⟩ built).attempt = .unsettled := by
      rw [Function.update_self]
    have hphase : PhaseOk (Function.update s.clients built ⟨.connecting, .unsettled⟩) (.awaitsConnect built built) :=
      ⟨rfl, by rw [hunsettled]; exact nofun⟩
    refine { hopened.update_check hphase with promise := ?_, shares := ?_, current := ?_ }
    · exact fun client h => h
    · exact fun client h _ => h
    · rintro client h
      obtain rfl := Option.some.inj h
      rw [hunsettled]
      exact nofun

theorem Inv.resume (hi : Inv s) {call : κ} (hstep : step s (.resume call) = some s') : Inv s' := by
  obtain ⟨⟨phase, s₁⟩, hresume, rfl⟩ := Option.map_eq_some_iff.mp hstep
  have hp := hi.checks call
  unfold RedisHealthCheck.resume at hresume
  split at hresume
  · rename_i client attempt hphase
    rw [hphase] at hp
    obtain ⟨rfl, hstarted⟩ := hp
    split at hresume
    · rename_i hfinished
      simp only [Option.some.injEq, Prod.mk.injEq] at hresume
      obtain ⟨rfl, rfl⟩ := hresume
      exact hi.update_check (hi.isSettledStatus hstarted (by rw [hfinished]; exact nofun))
    · rename_i hfinished
      simp only [Option.some.injEq, Prod.mk.injEq] at hresume
      obtain ⟨rfl, rfl⟩ := hresume
      have hstatus := hi.isSettledStatus hstarted (by rw [hfinished]; exact nofun)
      exact (hi.resetClient hstatus.2).update_check (.inl ⟨rfl, hfinished⟩)
    · cases hresume
  · rename_i client hphase
    rw [hphase] at hp
    simp only [Option.some.injEq, Prod.mk.injEq] at hresume
    obtain ⟨rfl, rfl⟩ := hresume
    exact hi.update_check hp
  · rename_i client hphase
    rw [hphase] at hp
    exact absurd hp id
  · cases hresume

theorem Inv.pingSettles (hi : Inv s) {call : κ} {resolves : Bool} (hstep : step s (.pingSettles call resolves) = some s') :
    Inv s' := by
  have hp := hi.checks call
  simp only [step] at hstep
  split at hstep
  · rename_i client hphase
    rw [hphase] at hp
    split_ifs at hstep
    · obtain rfl := Option.some.inj hstep
      exact hi.update_check trivial
    · obtain rfl := Option.some.inj hstep
      exact (hi.resetClient hp.2).update_check (.inr rfl)
  · cases hstep

theorem Inv.step_timely (hi : Inv s) {label : Label ν κ} (htimely : isTimely s label = true) (hstep : step s label = some s') :
    Inv s' := by
  cases label with
  | check call built => exact hi.check hstep
  | resume call => exact hi.resume hstep
  | pingSettles call resolves => exact hi.pingSettles hstep
  | becomes client status =>
    simp only [step] at hstep
    split_ifs at hstep with hbecomes
    obtain rfl := Option.some.inj hstep
    have hsettled := isSettledStatus_of_canBecome hbecomes.2
    exact hi.update_client hbecomes.1 ⟨id, fun _ => id, fun _ => hsettled⟩ (fun h => absurd h hsettled.2)
      (fun _ => hsettled.1) (fun _ => id)
  | settles client resolves =>
    simp only [step] at hstep
    split_ifs at hstep with hsettles
    obtain rfl := Option.some.inj hstep
    have hstarted : (s.clients client).attempt ≠ .none := by
      rw [hsettles.1]
      exact nofun
    refine hi.update_client (hi.mem_created hstarted) ⟨fun _ => nofun, ?_, id⟩ (fun h => absurd h hsettles.2)
      (fun _ => hi.started client hstarted) nofun
    intro resolved hfinished
    rw [hsettles.1] at hfinished
    cases hfinished
  | finallyRuns client =>
    simp only [step] at hstep
    split at hstep
    · rename_i resolved hsettled
      obtain rfl := Option.some.inj hstep
      have hstarted : (s.clients client).attempt ≠ .none := by
        rw [hsettled]
        exact nofun
      have hfinished : Inv { s with
          clients := Function.update s.clients client { s.clients client with attempt := .finished resolved } } := by
        refine hi.update_client (hi.mem_created hstarted) ⟨fun _ => nofun, ?_, id⟩ ?_
          (fun _ => hi.started client hstarted) nofun
        · intro resolved' h
          rw [hsettled] at h
          cases h
        · intro h
          have hunsettled := hi.connecting client h
          rw [hsettled] at hunsettled
          cases hunsettled
      refine { hfinished with promise := nofun, shares := ?_ }
      intro other hcurrent hunsettled
      have hpromise := hfinished.shares other hcurrent hunsettled
      have hne : other ≠ client := by
        rintro rfl
        simp at hunsettled
      simp only [Function.update_of_ne hne] at hunsettled
      simp only [isTimely, show s.connectPromise = some other from hpromise, Bool.or_eq_true, decide_eq_true_eq] at htimely
      exact absurd hunsettled (htimely.resolve_left hne)
    · cases hstep
  | destroy =>
    obtain rfl := Option.some.inj hstep
    exact { hi with promise := nofun, shares := nofun, current := nofun }

theorem Inv.not_shares_of_untimely (hi : Inv s) {label : Label ν κ} (huntimely : isTimely s label = false)
    (hstep : step s label = some s') : ¬ SharesAttempt s' := by
  cases label with
  | finallyRuns client =>
    simp only [isTimely] at huntimely
    split at huntimely
    · rename_i other hpromise
      simp only [Bool.or_eq_false_iff, decide_eq_false_iff_not, not_not] at huntimely
      simp only [step] at hstep
      split at hstep
      · obtain rfl := Option.some.inj hstep
        intro hshares
        have hnone := hshares other (hi.promise other hpromise)
          (by simpa only [Function.update_of_ne huntimely.1] using huntimely.2)
        cases hnone
      · cases hstep
    · cases huntimely
  | check call built => cases huntimely
  | resume call => cases huntimely
  | pingSettles call resolves => cases huntimely
  | becomes client status => cases huntimely
  | settles client resolves => cases huntimely
  | destroy => cases huntimely

theorem inv_of_timely_run (hrun : ((machine ν κ).restrict isTimely).Reachable s) : Inv s := by
  apply hrun.invariant inv_initial
  intro s label s' hi hstep
  obtain ⟨htimely, hstep⟩ := Machine.step_of_restrict hstep
  exact hi.step_timely htimely hstep

theorem checks_share_attempt_iff_timely (hrun : ((machine ν κ).restrict isTimely).Reachable s) :
    SharesAttempt s ∧ FailsByItself s ∧
      ∀ label s', (machine ν κ).step s label = some s' → (SharesAttempt s' ↔ isTimely s label = true) := by
  have hi := inv_of_timely_run hrun
  refine ⟨hi.shares, hi.failsByItself, ?_⟩
  intro label s' hstep
  constructor
  · intro hshares
    by_contra huntimely
    exact hi.not_shares_of_untimely (Bool.not_eq_true _ ▸ huntimely) hstep hshares
  · intro htimely
    exact (hi.step_timely htimely hstep).shares

end Invariant

section Sample

def failingLabels : List (Label ℕ ℕ) :=
  [.check 0 0, .check 1 1, .becomes 0 .ended, .settles 0 false, .finallyRuns 0, .resume 0, .resume 1]

theorem checks_share_attempt_iff_timely_sample : ∃ s : Service ℕ ℕ, s.checks 1 = .failed 0 (.connect 0) ∧
    SharesAttempt s ∧ FailsByItself s := by
  have hrun := Machine.reachable_of_labels (m := (machine ℕ ℕ).restrict isTimely) failingLabels rfl
  exact ⟨_, rfl, (checks_share_attempt_iff_timely hrun).1, (checks_share_attempt_iff_timely hrun).2.1⟩

def staleLabels : List (Label ℕ ℕ) :=
  [.check 0 0, .becomes 0 .ended, .check 1 1, .settles 0 false, .finallyRuns 0]

theorem stale_finally_breaks_sharing : (∃ s : Service ℕ ℕ, (machine ℕ ℕ).Reachable s ∧ ¬ SharesAttempt s) ∧
    ∃ s : Service ℕ ℕ, (machine ℕ ℕ).Reachable s ∧ s.checks 1 = .awaitsConnect 1 1 ∧ (s.clients 1).attempt = .unsettled ∧
      s.checks 2 = .failed 1 .notReady ∧ (1, .connecting) ∈ s.disconnected := by
  constructor
  · refine ⟨_, Machine.reachable_of_labels staleLabels rfl, ?_⟩
    intro hshares
    cases hshares 1 rfl rfl
  · refine ⟨_, Machine.reachable_of_labels (staleLabels ++ [.check 2 2, .resume 2]) rfl, rfl, rfl, rfl, ?_⟩
    exact List.mem_cons_self

end Sample

end EventGateway.RedisHealthCheck
