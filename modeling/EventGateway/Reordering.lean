import Mathlib.Data.List.Nodup
import Mathlib.Data.List.Perm.Basic

namespace Reordering

variable {α S : Type}

def perform (act : α → S → S) (order : List α) (s : S) : S := order.foldl (fun s a => act a s) s

def Before (order : List α) (a b : α) : Prop := List.Sublist [a, b] order

theorem perform_cons (act : α → S → S) (a : α) (order : List α) (s : S) :
    perform act (a :: order) s = perform act order (act a s) := rfl

theorem before_cons {order : List α} {a b x : α} (hax : a ≠ x) : Before (x :: order) a b ↔ Before order a b := by
  constructor
  · intro h
    rcases List.sublist_cons_iff.mp h with h | ⟨r, hr, -⟩
    · exact h
    · exact absurd (List.cons.inj hr).1 hax
  · exact fun h => h.cons x

theorem before_head {order : List α} {a b : α} (h : b ∈ order) : Before (a :: order) a b :=
  List.cons_sublist_cons.mpr (List.singleton_sublist.mpr h)

theorem mem_of_before {us vs : List α} {a b : α} (hnodup : (us ++ a :: vs).Nodup) (h : Before (us ++ a :: vs) a b) :
    b ∈ vs := by
  have ha : a ∉ us := by
    intro hm
    exact List.disjoint_of_nodup_append hnodup hm List.mem_cons_self
  obtain ⟨l₁, l₂, hl, h₁, h₂⟩ := List.sublist_append_iff.mp h
  cases l₁ with
  | nil =>
    rw [List.nil_append] at hl
    rw [← hl, List.cons_sublist_cons, List.singleton_sublist] at h₂
    exact h₂
  | cons c l₁ =>
    obtain ⟨rfl, -⟩ := List.cons.inj hl
    exact absurd (h₁.subset List.mem_cons_self) ha

theorem before_insert {us vs : List α} {a b : α} (h : Before (us ++ vs) a b) (x : α) : Before (us ++ x :: vs) a b :=
  h.trans (List.Sublist.append (List.Sublist.refl us) (List.sublist_cons_self x vs))

theorem before_inserted {us : List α} {a : α} (ha : a ∈ us) (x : α) (vs : List α) : Before (us ++ x :: vs) a x :=
  List.Sublist.append (List.singleton_sublist.mpr ha) (List.cons_sublist_cons.mpr (List.nil_sublist vs))

theorem before_middle [DecidableEq α] {us vs : List α} {a b x : α} (hx : x ∉ us ++ vs) (hax : a ≠ x) (hbx : b ≠ x) :
    Before (us ++ x :: vs) a b ↔ Before (us ++ vs) a b := by
  constructor
  · intro h
    have hkeep : (us ++ x :: vs).filter (fun c => c ≠ x) = us ++ vs := by
      have hself {l : List α} (hl : x ∉ l) : l.filter (fun c => c ≠ x) = l := by
        rw [List.filter_eq_self]
        exact fun c hc => decide_eq_true (fun he => hl (he ▸ hc))
      rw [List.mem_append, not_or] at hx
      rw [List.filter_append, List.filter_cons, hself hx.1, hself hx.2]
      simp
    have hpair : [a, b].filter (fun c => c ≠ x) = [a, b] := by simp [hax, hbx]
    have hsub := List.Sublist.filter (fun c => decide (c ≠ x)) h
    rw [hpair, hkeep] at hsub
    exact hsub
  · intro h
    exact before_insert h x

variable {act : α → S → S} {Good : S → Prop} {Dep : α → α → Prop}

section

variable (hgood : ∀ s a, Good s → Good (act a s))
  (hcomm : ∀ s a b, Good s → a ≠ b → ¬ Dep a b → act b (act a s) = act a (act b s))

include hgood hcomm

theorem perform_front {us vs : List α} {a : α} {s : S} (hs : Good s) (h : ∀ u ∈ us, a ≠ u ∧ ¬ Dep a u) :
    perform act (us ++ a :: vs) s = perform act (a :: (us ++ vs)) s := by
  induction us generalizing s with
  | nil => rfl
  | cons u us ih =>
    obtain ⟨hne, hdep⟩ := h u List.mem_cons_self
    have hus := ih (hgood s u hs) (fun u hu => h u (List.mem_cons_of_mem _ hu))
    calc perform act (u :: us ++ a :: vs) s = perform act (a :: (us ++ vs)) (act u s) := hus
      _ = perform act (us ++ vs) (act u (act a s)) := by rw [perform_cons, hcomm s a u hs hne hdep]
      _ = perform act (a :: (u :: us ++ vs)) s := rfl

theorem perform_eq_of_order [DecidableEq α] {xs ys : List α} {s : S} (hs : Good s) (hperm : xs.Perm ys) (hnodup : xs.Nodup)
    (horder : ∀ a b, Dep a b → (Before xs a b ↔ Before ys a b)) : perform act xs s = perform act ys s := by
  induction xs generalizing ys s with
  | nil => rw [hperm.nil_eq]
  | cons x xs ih =>
    obtain ⟨us, vs, rfl⟩ := List.append_of_mem (hperm.subset List.mem_cons_self)
    have hnodup' : (us ++ x :: vs).Nodup := hperm.nodup_iff.mp hnodup
    have hrest : xs.Perm (us ++ vs) := (hperm.trans List.perm_middle).cons_inv
    have hx : x ∉ xs := (List.nodup_cons.mp hnodup).1
    have hx' : x ∉ us ++ vs := fun hm => hx (hrest.mem_iff.mpr hm)
    -- in `xs` the action `x` comes first, so it commutes with whatever comes before it in `ys`
    have hfront : ∀ u ∈ us, x ≠ u ∧ ¬ Dep x u := by
      intro u hu
      refine ⟨fun he => hx' (he ▸ List.mem_append_left vs hu), fun hdep => ?_⟩
      have hbefore := before_head (a := x) (hrest.mem_iff.mpr (List.mem_append_left vs hu))
      have huv := mem_of_before hnodup' ((horder x u hdep).mp hbefore)
      exact List.disjoint_of_nodup_append hnodup' hu (List.mem_cons_of_mem x huv)
    rw [perform_front hgood hcomm hs hfront, perform_cons, perform_cons]
    refine ih (hgood s x hs) hrest (List.nodup_cons.mp hnodup).2 fun a b hdep => ?_
    have hmem {l : List α} {a b : α} (h : Before l a b) : a ∈ l ∧ b ∈ l :=
      ⟨h.subset List.mem_cons_self, h.subset (List.mem_cons_of_mem _ List.mem_cons_self)⟩
    by_cases hax : a = x
    · subst hax
      exact ⟨fun h => absurd (hmem h).1 hx, fun h => absurd (hmem h).1 hx'⟩
    by_cases hbx : b = x
    · subst hbx
      exact ⟨fun h => absurd (hmem h).2 hx, fun h => absurd (hmem h).2 hx'⟩
    rw [← before_cons hax, horder a b hdep, before_middle hx' hax hbx]

end

end Reordering
