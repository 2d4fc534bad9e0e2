import EventGateway.Text
import Mathlib.Algebra.Order.Group.Unbundled.Abs
import Mathlib.Algebra.BigOperators.Group.List.Basic
import Mathlib.Data.List.AList
import Mathlib.Tactic.Linarith

namespace EventGateway

structure LogThrottle (τ : Type) where
  lastEmittedAt : AList (fun _ : Text => τ)
  suppressedCounts : AList (fun _ : Text => ℕ)

namespace LogThrottle

variable {τ : Type}

def new : LogThrottle τ := ⟨∅, ∅⟩

def suppressedCount (throttle : LogThrottle τ) (key : Text) : ℕ := (throttle.suppressedCounts.lookup key).getD 0

def total (counts : AList (fun _ : Text => ℕ)) : ℕ := (counts.entries.map (fun entry => entry.2)).sum

inductive Call (τ : Type)
  | shouldEmit (key : Text) (now : τ)
  | reset

inductive Answer
  | emitted (suppressedCount : ℕ)
  | suppressed
  | total (count : ℕ)
deriving DecidableEq

section Code

variable [Sub τ] [LT τ] [DecidableLT τ] (intervalMs : τ)

def isTooSoon (throttle : LogThrottle τ) (key : Text) (timestamp : τ) : Bool :=
  match throttle.lastEmittedAt.lookup key with
  | some lastEmittedAt => timestamp - lastEmittedAt < intervalMs
  | none => false

def shouldEmit (throttle : LogThrottle τ) (key : Text) (timestamp : τ) : Answer × LogThrottle τ :=
  if isTooSoon intervalMs throttle key timestamp then
    (.suppressed,
      { throttle with suppressedCounts := throttle.suppressedCounts.insert key (throttle.suppressedCount key + 1) })
  else
    (.emitted (throttle.suppressedCount key),
      ⟨throttle.lastEmittedAt.insert key timestamp, throttle.suppressedCounts.insert key 0⟩)

def reset (throttle : LogThrottle τ) : Answer × LogThrottle τ := (.total (total throttle.suppressedCounts), .new)

def answer (throttle : LogThrottle τ) : Call τ → Answer × LogThrottle τ
  | .shouldEmit key timestamp => shouldEmit intervalMs throttle key timestamp
  | .reset => reset throttle

abbrev History (τ : Type) := List (Call τ × Answer)

def run (calls : List (Call τ)) : History τ × LogThrottle τ :=
  calls.foldl (fun s call => (s.1 ++ [(call, (answer intervalMs s.2 call).1)], (answer intervalMs s.2 call).2)) ([], .new)

end Code

section Counts

variable {counts : AList (fun _ : Text => ℕ)}

theorem sum_kerase (key : Text) (entries : List (Sigma (fun _ : Text => ℕ))) :
    ((entries.kerase key).map (fun entry => entry.2)).sum + (entries.dlookup key).getD 0 =
      (entries.map (fun entry => entry.2)).sum := by
  induction entries with
  | nil => rfl
  | cons entry entries ih =>
    obtain ⟨k, n⟩ := entry
    by_cases h : key = k
    · subst h
      have herase : (⟨key, n⟩ :: entries : List (Sigma (fun _ : Text => ℕ))).kerase key = entries := List.kerase_cons_eq rfl
      rw [herase, List.dlookup_cons_eq]
      simp only [List.map_cons, List.sum_cons, Option.getD_some]
      omega
    · have herase : (⟨k, n⟩ :: entries : List (Sigma (fun _ : Text => ℕ))).kerase key = ⟨k, n⟩ :: entries.kerase key :=
        List.kerase_cons_ne h
      rw [herase, List.dlookup_cons_ne entries ⟨k, n⟩ h]
      simp only [List.map_cons, List.sum_cons]
      omega

theorem total_insert (key : Text) (n : ℕ) : total (counts.insert key n) + (counts.lookup key).getD 0 = total counts + n := by
  have hsum := sum_kerase key counts.entries
  simp only [total, AList.entries_insert, List.map_cons, List.sum_cons, AList.lookup] at hsum ⊢
  omega

end Counts

section Events

variable (key : Text)

def isSuppressed : Call τ × Answer → Bool
  | (_, .suppressed) => true
  | _ => false

def suppresses : Call τ × Answer → Bool
  | (.shouldEmit k _, .suppressed) => k = key
  | _ => false

def emits : Call τ × Answer → Bool
  | (.shouldEmit k _, .emitted _) => k = key
  | _ => false

def isReset : Call τ × Answer → Bool
  | (.reset, _) => true
  | _ => false

def mentions : Call τ × Answer → Bool
  | (.shouldEmit k _, _) => k = key
  | _ => false

def reported : Call τ × Answer → ℕ
  | (_, .emitted n) => n
  | (_, .total n) => n
  | (_, .suppressed) => 0

def pending (h : History τ) : ℕ :=
  h.foldl (fun n e => if suppresses key e then n + 1 else if emits key e || isReset e then 0 else n) 0

def lastEmission (h : History τ) : Option τ :=
  h.foldl (fun last e =>
    match e with
    | (.shouldEmit k timestamp, .emitted _) => if k = key then some timestamp else last
    | (.reset, _) => none
    | _ => last) none

def Settled (h : History τ) : Prop := ∀ e, h.getLast? = some e → emits key e = true ∨ isReset e = true

variable {key}

theorem pending_snoc (h : History τ) (e : Call τ × Answer) : pending key (h ++ [e]) =
    if suppresses key e then pending key h + 1 else if emits key e || isReset e then 0 else pending key h := by
  simp only [pending, List.foldl_append, List.foldl_cons, List.foldl_nil]

theorem suppresses_eq_false {e : Call τ × Answer} (h : emits key e = true ∨ isReset e = true) : suppresses key e = false := by
  obtain ⟨call, a⟩ := e
  cases call <;> cases a <;> simp [emits, isReset, suppresses] at h ⊢

theorem emits_eq_false {e : Call τ × Answer} (h : mentions key e = false) : emits key e = false := by
  obtain ⟨call, a⟩ := e
  cases call with
  | reset => rfl
  | shouldEmit k t =>
    have hk : k ≠ key := by simpa [mentions] using h
    cases a <;> simp [emits, hk]

theorem suppresses_eq_false_of_mentions {e : Call τ × Answer} (h : mentions key e = false) : suppresses key e = false := by
  obtain ⟨call, a⟩ := e
  cases call with
  | reset => rfl
  | shouldEmit k t =>
    have hk : k ≠ key := by simpa [mentions] using h
    cases a <;> simp [suppresses, hk]

theorem pending_of_settled {h : History τ} (hs : Settled key h) : pending key h = 0 := by
  induction h using List.reverseRecOn with
  | nil => rfl
  | append_singleton h e ih =>
    have he := hs e (by simp)
    rw [pending_snoc, suppresses_eq_false he]
    simp only [Bool.false_eq_true, ↓reduceIte, Bool.or_eq_true, if_pos he]

theorem pending_append {xs ys : History τ} (hxs : Settled key xs) (hys : ∀ e ∈ ys, emits key e = false ∧ isReset e = false) :
    pending key (xs ++ ys) = ys.countP (suppresses key) := by
  induction ys using List.reverseRecOn with
  | nil =>
    rw [List.append_nil]
    exact pending_of_settled hxs
  | append_singleton ys e ih =>
    have he := hys e (by simp)
    have hrest := ih (fun e' he' => hys e' (List.mem_append_left _ he'))
    rw [← List.append_assoc, pending_snoc, hrest, List.countP_append, List.countP_singleton, he.1, he.2]
    cases suppresses key e <;> simp

theorem lastEmission_snoc_emitted (h : History τ) (t : τ) (n : ℕ) :
    lastEmission key (h ++ [(.shouldEmit key t, .emitted n)]) = some t := by
  simp [lastEmission]

theorem lastEmission_eq_none {xs ys : History τ} (hxs : ∀ e, xs.getLast? = some e → isReset e = true)
    (hys : ∀ e ∈ ys, mentions key e = false ∧ isReset e = false) : lastEmission key (xs ++ ys) = none := by
  induction ys using List.reverseRecOn with
  | nil =>
    rw [List.append_nil]
    induction xs using List.reverseRecOn with
    | nil => rfl
    | append_singleton xs e =>
      obtain ⟨call, a⟩ := e
      have he := hxs (call, a) (by simp)
      cases call with
      | shouldEmit k t => cases he
      | reset => simp [lastEmission]
  | append_singleton ys e ih =>
    obtain ⟨call, a⟩ := e
    have he := hys (call, a) (by simp)
    have hrest := ih (fun e' he' => hys e' (List.mem_append_left _ he'))
    simp only [lastEmission, ← List.append_assoc, List.foldl_append, List.foldl_cons, List.foldl_nil] at hrest ⊢
    rw [hrest]
    cases call with
    | reset => rfl
    | shouldEmit k t =>
      have hk : k ≠ key := by simpa [mentions] using he.1
      cases a <;> simp [hk]

end Events

section Runs

variable [Sub τ] [LT τ] [DecidableLT τ] {intervalMs : τ} {key : Text}

theorem run_snoc (calls : List (Call τ)) (call : Call τ) : run intervalMs (calls ++ [call]) =
    ((run intervalMs calls).1 ++ [(call, (answer intervalMs (run intervalMs calls).2 call).1)],
      (answer intervalMs (run intervalMs calls).2 call).2) := by
  simp only [run, List.foldl_append, List.foldl_cons, List.foldl_nil]

theorem exists_run_of_history {calls : List (Call τ)} {us zs : History τ} {e : Call τ × Answer}
    (h : (run intervalMs calls).1 = us ++ e :: zs) :
    ∃ before, (run intervalMs before).1 = us ∧ e.2 = (answer intervalMs (run intervalMs before).2 e.1).1 ∧
      (run intervalMs (before ++ [e.1])).1 = us ++ [e] := by
  induction calls using List.reverseRecOn generalizing zs with
  | nil =>
    have hnil : ([] : History τ) = us ++ e :: zs := h
    simp at hnil
  | append_singleton calls call ih =>
    rw [run_snoc] at h
    rcases List.eq_nil_or_concat zs with rfl | ⟨zs, last, rfl⟩
    · obtain ⟨hus, he⟩ := List.append_inj' h rfl
      obtain rfl := List.head_eq_of_cons_eq he
      exact ⟨calls, hus, rfl, by rw [run_snoc, hus]⟩
    · rw [List.concat_eq_append, ← List.cons_append, ← List.append_assoc] at h
      exact ih (List.append_inj' h rfl).1

theorem count_run (calls : List (Call τ)) : (run intervalMs calls).1.countP isSuppressed =
    ((run intervalMs calls).1.map reported).sum + total (run intervalMs calls).2.suppressedCounts := by
  induction calls using List.reverseRecOn with
  | nil => rfl
  | append_singleton calls call ih =>
    rw [run_snoc]
    generalize run intervalMs calls = s at ih
    simp only [List.countP_append, List.countP_singleton, List.map_append, List.sum_append, List.map_singleton,
      List.sum_singleton, ih]
    cases call with
    | reset => simp [answer, reset, isSuppressed, reported, new, total]
    | shouldEmit k t =>
      simp only [answer, shouldEmit]
      by_cases hsoon : isTooSoon intervalMs s.2 k t = true
      · have hinsert : total (s.2.suppressedCounts.insert k (s.2.suppressedCount k + 1)) + s.2.suppressedCount k =
            total s.2.suppressedCounts + (s.2.suppressedCount k + 1) := total_insert k _
        simp only [if_pos hsoon, isSuppressed, reported, ↓reduceIte]
        omega
      · have hinsert : total (s.2.suppressedCounts.insert k 0) + s.2.suppressedCount k =
            total s.2.suppressedCounts + 0 := total_insert k _
        simp only [if_neg hsoon, isSuppressed, reported, Bool.false_eq_true, ↓reduceIte]
        omega

theorem suppressedCount_run (calls : List (Call τ)) :
    (run intervalMs calls).2.suppressedCount key = pending key (run intervalMs calls).1 := by
  induction calls using List.reverseRecOn with
  | nil => rfl
  | append_singleton calls call ih =>
    rw [run_snoc, pending_snoc, ← ih]
    generalize (run intervalMs calls).2 = s
    cases call with
    | reset => simp [answer, reset, suppresses, emits, isReset, new, suppressedCount]
    | shouldEmit k t =>
      simp only [answer, shouldEmit]
      by_cases hk : k = key
      · subst hk
        split_ifs <;> simp_all [suppresses, emits, isReset, suppressedCount]
      · have hne : key ≠ k := fun h => hk h.symm
        split_ifs <;> simp_all [suppresses, emits, isReset, suppressedCount, AList.lookup_insert_ne]

theorem lastEmittedAt_run (calls : List (Call τ)) :
    (run intervalMs calls).2.lastEmittedAt.lookup key = lastEmission key (run intervalMs calls).1 := by
  induction calls using List.reverseRecOn with
  | nil => rfl
  | append_singleton calls call ih =>
    rw [run_snoc]
    simp only [lastEmission, List.foldl_append, List.foldl_cons, List.foldl_nil] at ih ⊢
    rw [← ih]
    generalize (run intervalMs calls).2 = s
    cases call with
    | reset => rfl
    | shouldEmit k t =>
      simp only [answer, shouldEmit]
      by_cases hk : k = key
      · subst hk
        split_ifs <;> simp
      · have hne : key ≠ k := fun h => hk h.symm
        split_ifs <;> simp [hk, AList.lookup_insert_ne hne]

end Runs

section Clock

variable [AddCommGroup τ] [LinearOrder τ] {intervalMs : τ} {key : Text} {calls : List (Call τ)}

theorem interval_le_of_emitted {t last : τ} {n : ℕ} (hlast : lastEmission key (run intervalMs calls).1 = some last)
    (hanswer : .emitted n = (answer intervalMs (run intervalMs calls).2 (.shouldEmit key t)).1) : intervalMs ≤ t - last := by
  by_contra hlt
  have hsoon : isTooSoon intervalMs (run intervalMs calls).2 key t = true := by
    simpa [isTooSoon, lastEmittedAt_run, hlast] using hlt
  simp [answer, shouldEmit, hsoon] at hanswer

variable [IsOrderedAddMonoid τ]

theorem interval_le_sub {t₁ t t₂ : τ} (hinterval : 0 ≤ intervalMs) (hnext : intervalMs ≤ t₂ - t)
    (hapart : t = t₁ ∨ intervalMs ≤ t - t₁) : intervalMs ≤ t₂ - t₁ := by
  rcases hapart with rfl | hapart
  · exact hnext
  · calc intervalMs ≤ intervalMs + intervalMs := le_add_of_nonneg_left hinterval
      _ ≤ (t₂ - t) + (t - t₁) := add_le_add hnext hapart
      _ = t₂ - t₁ := sub_add_sub_cancel t₂ t t₁

theorem lastEmission_after {xs ys : History τ} {t₁ : τ} {n₁ : ℕ} (hinterval : 0 ≤ intervalMs)
    (hrun : (run intervalMs calls).1 = xs ++ (.shouldEmit key t₁, .emitted n₁) :: ys) (hys : ∀ e ∈ ys, isReset e = false) :
    ∃ t, lastEmission key (run intervalMs calls).1 = some t ∧ (t = t₁ ∨ intervalMs ≤ t - t₁) := by
  induction ys using List.reverseRecOn generalizing calls with
  | nil =>
    rw [hrun]
    exact ⟨t₁, lastEmission_snoc_emitted xs t₁ n₁, .inl rfl⟩
  | append_singleton ys e ih =>
    rw [← List.cons_append, ← List.append_assoc] at hrun
    obtain ⟨before, hbefore, hanswer, -⟩ := exists_run_of_history hrun
    obtain ⟨t, ht, hapart⟩ := ih hbefore (fun e' he' => hys e' (List.mem_append_left _ he'))
    obtain ⟨call, a⟩ := e
    have hreset := hys (call, a) (by simp)
    have hsnoc : ∀ last, lastEmission key ((run intervalMs before).1 ++ [(call, a)]) = last →
        lastEmission key (run intervalMs calls).1 = last := by
      intro last hlast
      rwa [hrun, ← hbefore]
    cases call with
    | reset => cases hreset
    | shouldEmit k t₂ =>
      by_cases hk : k = key
      · subst hk
        cases a with
        | emitted n =>
          have hnext := interval_le_of_emitted ht hanswer
          exact ⟨t₂, hsnoc _ (lastEmission_snoc_emitted _ t₂ n), .inr (interval_le_sub hinterval hnext hapart)⟩
        | suppressed => exact ⟨t, hsnoc _ (by simpa [lastEmission] using ht), hapart⟩
        | total n => exact ⟨t, hsnoc _ (by simpa [lastEmission] using ht), hapart⟩
      · refine ⟨t, hsnoc _ ?_, hapart⟩
        cases a <;> simpa [lastEmission, hk] using ht

theorem throttle_loses_no_count (intervalMs : τ) (calls : List (Call τ)) :
    (run intervalMs calls).1.countP isSuppressed =
        ((run intervalMs calls).1.map reported).sum + total (run intervalMs calls).2.suppressedCounts ∧
      (∀ key xs ys t n zs, (run intervalMs calls).1 = xs ++ ys ++ (.shouldEmit key t, .emitted n) :: zs → Settled key xs →
        (∀ e ∈ ys, emits key e = false ∧ isReset e = false) → n = ys.countP (suppresses key)) ∧
      (∀ key xs ys zs t₁ n₁ t₂ n₂, (run intervalMs calls).1 =
          xs ++ (.shouldEmit key t₁, .emitted n₁) :: ys ++ (.shouldEmit key t₂, .emitted n₂) :: zs →
        (∀ e ∈ ys, isReset e = false) → intervalMs ≤ |t₂ - t₁|) ∧
      (∀ key xs ys t a zs, (run intervalMs calls).1 = xs ++ ys ++ (.shouldEmit key t, a) :: zs →
        (∀ e, xs.getLast? = some e → isReset e = true) → (∀ e ∈ ys, mentions key e = false ∧ isReset e = false) →
        a = .emitted 0) := by
  refine ⟨count_run calls, ?_, ?_, ?_⟩
  · intro key xs ys t n zs hrun hxs hys
    obtain ⟨before, hbefore, hanswer, -⟩ := exists_run_of_history hrun
    have hcount : (run intervalMs before).2.suppressedCount key = ys.countP (suppresses key) := by
      rw [suppressedCount_run, hbefore, pending_append hxs hys]
    simp only [answer, shouldEmit] at hanswer
    split_ifs at hanswer
    rw [← hcount]
    exact Answer.emitted.inj hanswer
  · intro key xs ys zs t₁ n₁ t₂ n₂ hrun hys
    obtain ⟨before, hbefore, hanswer, -⟩ := exists_run_of_history hrun
    rcases le_or_gt intervalMs 0 with hinterval | hinterval
    · exact hinterval.trans (abs_nonneg _)
    · obtain ⟨t, ht, hapart⟩ := lastEmission_after hinterval.le hbefore hys
      have hnext := interval_le_of_emitted ht hanswer
      exact (interval_le_sub hinterval.le hnext hapart).trans (le_abs_self _)
  · intro key xs ys t a zs hrun hxs hys
    obtain ⟨before, hbefore, hanswer, -⟩ := exists_run_of_history hrun
    have hlast : lastEmission key (run intervalMs before).1 = none := by
      rw [hbefore]
      exact lastEmission_eq_none hxs hys
    have hcount : (run intervalMs before).2.suppressedCount key = 0 := by
      have hmentions : ∀ e ∈ ys, emits key e = false ∧ isReset e = false := by
        intro e he
        exact ⟨emits_eq_false (hys e he).1, (hys e he).2⟩
      rw [suppressedCount_run, hbefore, pending_append (fun e he => .inr (hxs e he)) hmentions, List.countP_eq_zero]
      intro e he
      simp [suppresses_eq_false_of_mentions (hys e he).1]
    simpa [answer, shouldEmit, isTooSoon, lastEmittedAt_run, hlast, hcount] using hanswer

theorem throttle_loses_no_count_sample :
    (run (30000 : ℤ) [.shouldEmit [] 0, .shouldEmit [] 1000, .shouldEmit [] 30000, .reset]).1.countP isSuppressed =
      ((run (30000 : ℤ) [.shouldEmit [] 0, .shouldEmit [] 1000, .shouldEmit [] 30000, .reset]).1.map reported).sum +
        total (run (30000 : ℤ) [.shouldEmit [] 0, .shouldEmit [] 1000, .shouldEmit [] 30000, .reset]).2.suppressedCounts :=
  (throttle_loses_no_count (30000 : ℤ) _).1

end Clock

end LogThrottle

end EventGateway
