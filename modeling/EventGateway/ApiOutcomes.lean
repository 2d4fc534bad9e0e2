import EventGateway.AcceptanceSafety
import EventGateway.DatabaseFaults
import EventGateway.IdempotencySafety

namespace EventGateway

open KeyedTable TransactionProgram Interleaving RelyGuarantee Statements

section Runs

variable {ι : Type} [DecidableEq ι] {rt : Runtime} {req : ι → Request} {ls : List (Label ι)} {σ : SystemState ι}

structure Supplied (req : ι → Request) : Prop where
  keys : ∀ i, (req i).HasValidKey
  distinct : ∀ i j l, l ∈ (req i).newRows → l ∈ (req j).newRows → i = j

theorem row_named (h : runs rt req (State.init Db.empty) ls = some σ) {l : Lock} (hl : σ.world.db.hasRow l = true) :
    ∃ j r, σ.phase j = .committed r ∧ l ∈ (req j).newRows := by
  revert hl
  apply reachable_invariant (P := fun σ => σ.world.db.hasRow l = true →
    ∃ j r, σ.phase j = .committed r ∧ l ∈ (req j).newRows) _ _ h
  · intro hl
    cases l <;> cases hl
  · intro σ σ' _ hinv hstep hl
    cases hstep with
    | quiet js hw hc hr =>
      rw [hw] at hl
      obtain ⟨j, r, hj, hrow⟩ := hinv hl
      exact ⟨j, r, (hc j r).mpr hj, hrow⟩
    | commit i r s hrun hcom he hp =>
      rw [hp]
      rcases hcom.hasRow hl with hold | hnew
      · obtain ⟨j, r', hj, hrow⟩ := hinv hold
        have hji : j ≠ i := by
          rintro rfl
          rw [hrun] at hj
          cases hj
        exact ⟨j, r', by rw [Function.update_of_ne hji, hj], hrow⟩
      · exact ⟨i, r, Function.update_self _ _ _, hnew⟩
    | reject i e s hrun hrej hw hp =>
      rw [hw] at hl
      obtain ⟨j, r, hj, hrow⟩ := hinv hl
      have hji : j ≠ i := by
        rintro rfl
        rw [hrun] at hj
        cases hj
      exact ⟨j, r, by rw [hp, Function.update_of_ne hji, hj], hrow⟩

section Faults

variable (hreq : Supplied req)

include hreq

variable (rt) in
def faultProperty : SessionProperty (spec rt req) Consistent :=
  .ofGuards (spec rt req) (fun i => MayFault rt (req i)) (fun _ => NotDatabase)
    (fun i w _ => Request.faultless (hreq.keys i) w)

theorem reachable_faultProperty (h : runs rt req (State.init Db.empty) ls = some σ) :
    Sound (spec rt req) σ ∧ Consistent σ.world ∧ (faultProperty rt hreq).Everywhere σ := by
  have h0 : Consistent ⟨Db.empty, []⟩ := ⟨⟨[], outboxInv_empty⟩, confirmationInv_empty⟩
  exact run_sessions (faultProperty rt hreq) (fun _ _ _ _ hG he => consistent_step hG he)
    (sound_init (spec rt req) Db.indexes_empty) h0 ((faultProperty rt hreq).everywhere_init Db.empty) h

theorem excused_of_fault (h : runs rt req (State.init Db.empty) ls = some σ) {i : ι} {s : Stmt} {e : Failure}
    (hf : Faults engine σ i s e) : Excused rt (req i) σ.world.db s e := by
  obtain ⟨hsound, hcons, heverywhere⟩ := reachable_faultProperty hreq h
  obtain ⟨k, ws, hi, heval⟩ := hf
  have hguard := (heverywhere i _ hi rfl σ.world (Discipline.Rely.refl hsound.inv) hcons).1
  rcases hguard _ e heval with ⟨l, hl, hrow⟩ | hexcused
  · obtain ⟨j, r, hj, hjl⟩ := row_named h hrow
    obtain rfl := hreq.distinct i j l hl hjl
    rw [hi] at hj
    cases hj
  · exact hexcused

theorem faulted_session (h : runs rt req (State.init Db.empty) ls = some σ) {i : ι}
    {t : Session Stmt Stmt.Answer Failure Write Response} (ht : σ.phase i = .running t) (hf : t.faulted = true) :
    ∃ x, (req i).Refusable rt x ∧ t.rest = .throw (.database x) := by
  have hrefusable {us : List (Label ι)} {τ : SystemState ι} {s : Stmt} {e : Failure}
      (hus : run engine (scripts rt req) (State.init Db.empty) us = some τ) (he : Faults engine τ i s e) :
      ∃ x, (req i).Refusable rt x ∧ e = .database x := by
    obtain ⟨x, hx, hrefusable, -⟩ := excused_of_fault hreq hus he
    exact ⟨x, hrefusable, hx⟩
  by_cases hq : ∀ run, req i ≠ .dispatchBatch run
  · have hprop : Propagates _ (scripts rt req i) := (req i).propagates hq
    have hrest := run_remainder hprop h (fun us τ s e hus he => hrefusable hus he) ht
    simp only [Remainder, hf, ↓reduceIte] at hrest
    obtain ⟨e, ⟨x, hx, rfl⟩, hrest⟩ := hrest
    exact ⟨x, hx, hrest⟩
  · push Not at hq
    obtain ⟨run, hrun⟩ := hq
    have hnone := run_unfaulted h (fun us τ s e hus he => ?_) ht
    · rw [hnone] at hf
      cases hf
    · obtain ⟨x, hx, -⟩ := hrefusable hus he
      rw [hrun] at hx
      cases hx with
      | overlong hq => cases hq

theorem database_rejection (h : runs rt req (State.init Db.empty) ls = some σ) {i : ι} {x : DbError}
    (hx : σ.phase i = .rejected (.database x)) : (req i).Refusable rt x := by
  refine (run_history (P := fun us τ => runs rt req (State.init Db.empty) us = some τ ∧
    (τ.phase i = .rejected (.database x) → (req i).Refusable rt x)) ?_ ⟨rfl, fun hx => by cases hx⟩ h).2 hx
  rintro us τ l τ' ⟨hrun, hinv⟩ hstep
  refine ⟨?_, fun hx => ?_⟩
  · unfold runs at hrun ⊢
    rw [run_append, hrun]
    simp [run, hstep]
  by_cases hil : i ≠ l.actor
  · rw [(step_frame hstep).1 i hil] at hx
    exact hinv hx
  obtain rfl : i = l.actor := not_not.mp hil
  cases step_cases hstep with
  | @rejected i e ws f hi =>
    simp only [Label.actor, State.close, Function.update_self, Phase.rejected.injEq] at hx
    subst hx
    cases f with
    | false => exact absurd rfl ((reachable_faultProperty hreq hrun).2.2 i _ hi rfl x)
    | true =>
      obtain ⟨y, hy, hrest⟩ := faulted_session hreq hrun hi rfl
      cases hrest
      exact hy
  | start | answered | refused | faulted | drained => simp [Label.actor, State.setPhase] at hx
  | committed | returned | aborted => simp [Label.actor, State.close] at hx

theorem database_refusals_explained (h : runs rt req (State.init Db.empty) ls = some σ) :
    (∀ i s e, Faults engine σ i s e →
      ∃ x, e = .database x ∧ (req i).Refusable rt x ∧ (x = .uniqueViolation → IsRaced σ.world.db s)) ∧
    (∀ i x, σ.phase i = .rejected (.database x) → (req i).Refusable rt x) ∧
    ∀ i, (req i).isOverlong rt = true →
      ∃ s ∈ (req i).columnTexts rt, ∃ c ∈ s, PaymentIntents.isVariationSelector c = true :=
  ⟨fun _ _ _ hf => excused_of_fault hreq h hf, fun _ _ hx => database_rejection hreq h hx,
    fun _ hlong => Request.selector_of_isOverlong hlong⟩

end Faults

end Runs

namespace Sample

def contention : List (Label (Role × Bool)) :=
  List.flatten [completes (.merchant, false) 4, completes (.merchant, true) 4, completes (.provider, false) 2,
    completes (.provider, true) 2, .start (.worker, true) :: List.replicate 4 (.exec (.worker, true)),
    completes (.worker, false) 7, [.exec (.worker, true), .finish (.worker, true)]]

section Endings

variable {ι : Type} {σ : SystemState ι} {i : ι}

def isRefused (x : DbError) (σ : SystemState ι) (i : ι) : Bool :=
  match σ.phase i with
  | .rejected (.database y) => y = x
  | _ => false

theorem rejected_of_isRefused {x : DbError} (h : isRefused x σ i = true) : σ.phase i = .rejected (.database x) := by
  unfold isRefused at h
  split at h
  · rename_i y hphase
    rw [hphase, of_decide_eq_true h]
  · cases h

end Endings

theorem contendingRequests_supplied : Supplied contendingRequests := by
  constructor
  · rintro ⟨role, second⟩ key dto fresh hq
    refine ⟨some key, ?_⟩
    cases role with
    | merchant => cases second <;> cases hq <;> decide +kernel
    | provider | worker => cases hq
  · have hdistinct : ∀ role second role' second', ∀ l ∈ (contendingRequests (role, second)).newRows,
        l ∈ (contendingRequests (role', second')).newRows → (role, second) = (role', second') := by
      intro role second role' second'
      cases role <;> cases second <;> cases role' <;> cases second' <;> decide +kernel
    exact fun i j l hi hj => hdistinct i.1 i.2 j.1 j.2 l hi hj

end Sample

theorem database_refusals_explained_sample : ∃ σ : SystemState (Sample.Role × Bool),
    σ.phase (.worker, true) = .rejected (.database .uniqueViolation) ∧
      (Sample.contendingRequests (.worker, true)).Refusable Sample.runtime .uniqueViolation := by
  have hrun : (runs Sample.runtime Sample.contendingRequests (State.init Db.empty) Sample.contention).any
      (fun σ => Sample.isRefused .uniqueViolation σ (.worker, true)) = true := by
    decide +kernel
  obtain ⟨σ, hσ, hloses⟩ := (Option.any_eq_true _ _).mp hrun
  have hphase := Sample.rejected_of_isRefused hloses
  exact ⟨σ, hphase, (database_refusals_explained Sample.contendingRequests_supplied hσ).2.1 _ _ hphase⟩

end EventGateway
