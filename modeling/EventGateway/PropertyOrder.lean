import EventGateway.JsonPrinting
import Mathlib.Data.List.Sort

namespace JsonPrinting

variable {K V : Type}

section Enumerate

variable (index : K → Option ℕ)

def enumerate (es : List (K × V)) : List (K × V) :=
  (es.filter (fun e => (index e.1).isSome)).insertionSort
      (fun a b => (index a.1).getD 0 ≤ (index b.1).getD 0) ++
    es.filter (fun e => (index e.1).isNone)

theorem enumerate_perm (es : List (K × V)) : (enumerate index es).Perm es := by
  have hnone : (fun e : K × V => (index e.1).isNone) = (fun e => !(index e.1).isSome) := by
    funext e
    simp
  unfold enumerate
  rw [hnone]
  exact ((List.perm_insertionSort _ _).append_right _).trans (List.filter_append_perm _ _)

end Enumerate

section Relations

variable {V' : Type} {R : V → V' → Prop} {es : List (K × V)} {fs : List (K × V')}

abbrev SameKeys (R : V → V' → Prop) (e : K × V) (f : K × V') : Prop := e.1 = f.1 ∧ R e.2 f.2

theorem forall₂_filter (p : K → Bool) (h : List.Forall₂ (SameKeys R) es fs) :
    List.Forall₂ (SameKeys R) (es.filter (fun e => p e.1)) (fs.filter (fun e => p e.1)) := by
  induction h with
  | nil => exact .nil
  | @cons e f es fs hef _ ih =>
    obtain ⟨hkey, hvalue⟩ := hef
    simp only [List.filter_cons, ← hkey]
    split_ifs
    · exact .cons ⟨hkey, hvalue⟩ ih
    · exact ih

theorem forall₂_insertionSort (le : K → K → Prop) [DecidableRel le] (h : List.Forall₂ (SameKeys R) es fs) :
    List.Forall₂ (SameKeys R) (es.insertionSort (fun a b => le a.1 b.1)) (fs.insertionSort (fun a b => le a.1 b.1)) := by
  have hinsert {e : K × V} {f : K × V'} {es : List (K × V)} {fs : List (K × V')} (hef : SameKeys R e f)
      (h : List.Forall₂ (SameKeys R) es fs) :
      List.Forall₂ (SameKeys R) (es.orderedInsert (fun a b => le a.1 b.1) e)
        (fs.orderedInsert (fun a b => le a.1 b.1) f) := by
    induction h with
    | nil => exact .cons hef .nil
    | @cons e' f' es fs hef' htail ih =>
      simp only [List.orderedInsert, hef.1, hef'.1]
      split_ifs
      · exact .cons hef (.cons hef' htail)
      · exact .cons hef' ih
  induction h with
  | nil => exact .nil
  | cons hef _ ih => exact hinsert hef ih

theorem forall₂_enumerate (index : K → Option ℕ) (h : List.Forall₂ (SameKeys R) es fs) :
    List.Forall₂ (SameKeys R) (enumerate index es) (enumerate index fs) := by
  have hsome := forall₂_filter (fun k => (index k).isSome) h
  have hnone := forall₂_filter (fun k => (index k).isNone) h
  exact List.rel_append (forall₂_insertionSort (fun a b => (index a).getD 0 ≤ (index b).getD 0) hsome) hnone

theorem forall₂_sortedProperties (le : K → K → Prop) [DecidableRel le] (index : K → Option ℕ) (kept : K → Bool)
    (h : List.Forall₂ (SameKeys R) es fs) :
    List.Forall₂ (SameKeys R)
      (enumerate index ((es.insertionSort (fun a b => le a.1 b.1)).filter (fun e => kept e.1)))
      (enumerate index ((fs.insertionSort (fun a b => le a.1 b.1)).filter (fun e => kept e.1))) :=
  forall₂_enumerate index (forall₂_filter kept (forall₂_insertionSort le h))

end Relations

def sortedProperties (le : K → K → Prop) [DecidableRel le] [Std.Total le] [IsTrans K le] [Std.Antisymm le]
    (index : K → Option ℕ) (kept : K → Bool) : Arrangement K V where
  arrange es := enumerate index ((es.insertionSort (fun a b => le a.1 b.1)).filter (fun e => kept e.1))
  Allowed k := kept k = true
  perm {es} h := by
    have hall : (es.insertionSort (fun a b => le a.1 b.1)).filter (fun e => kept e.1) =
        es.insertionSort (fun a b => le a.1 b.1) := by
      rw [List.filter_eq_self]
      intro e he
      exact h e ((List.mem_insertionSort _).mp he)
    rw [hall]
    exact (enumerate_perm index _).trans (List.perm_insertionSort _ es)
  eq_of_perm {es fs} hnodup hperm := by
    have : Std.Total (fun a b : K × V => le a.1 b.1) := ⟨fun a b => Std.Total.total a.1 b.1⟩
    have : IsTrans (K × V) (fun a b => le a.1 b.1) := ⟨fun a b c h h' => IsTrans.trans a.1 b.1 c.1 h h'⟩
    have hsort : es.insertionSort (fun a b => le a.1 b.1) = fs.insertionSort (fun a b => le a.1 b.1) := by
      have hes := List.pairwise_insertionSort (fun a b : K × V => le a.1 b.1) es
      have hfs := List.pairwise_insertionSort (fun a b : K × V => le a.1 b.1) fs
      refine List.Perm.eq_of_pairwise ?_ hes hfs ?_
      · intro a b ha hb hab hba
        have hkey : a.1 = b.1 := Std.Antisymm.antisymm a.1 b.1 hab hba
        have ha' := (List.mem_insertionSort _).mp ha
        have hb' := hperm.symm.subset ((List.mem_insertionSort _).mp hb)
        exact List.inj_on_of_nodup_map hnodup ha' hb' hkey
      · exact (List.perm_insertionSort _ es).trans (hperm.trans (List.perm_insertionSort _ fs).symm)
    rw [hsort]
  forall₂ h := forall₂_sortedProperties le index kept h

end JsonPrinting
