import Mathlib.Data.List.Perm.Basic

namespace JsonPrinting

variable {K N C : Type}

inductive Tree (K N : Type)
  | null
  | bool (b : Bool)
  | num (n : N)
  | str (s : K)
  | arr (items : List (Tree K N))
  | obj (entries : List (K × Tree K N))

namespace Tree

theorem induction {P : Tree K N → Prop} (null : P .null) (bool : ∀ b, P (.bool b)) (num : ∀ n, P (.num n))
    (str : ∀ s, P (.str s)) (arr : ∀ items, (∀ t ∈ items, P t) → P (.arr items))
    (obj : ∀ entries : List (K × Tree K N), (∀ e ∈ entries, P e.2) → P (.obj entries)) (t : Tree K N) : P t := by
  refine @Tree.rec K N P (fun items => ∀ t ∈ items, P t) (fun entries => ∀ e ∈ entries, P e.2) (fun e => P e.2)
    null bool num str arr obj ?_ ?_ ?_ ?_ ?_ t
  · intro t ht
    cases ht
  · intro t items ht hitems x hx
    rcases List.mem_cons.mp hx with rfl | hx
    · exact ht
    · exact hitems x hx
  · intro e he
    cases he
  · intro e entries he hentries x hx
    rcases List.mem_cons.mp hx with rfl | hx
    · exact he
    · exact hentries x hx
  · exact fun _ _ h => h

section Same

variable (eqn : N → N → Prop)

mutual
def Same : Tree K N → Tree K N → Prop
  | .null, .null => True
  | .bool a, .bool b => a = b
  | .num n, .num m => eqn n m
  | .str s, .str t => s = t
  | .arr xs, .arr ys => SameItems xs ys
  | .obj es, .obj fs => ∃ fs', fs'.Perm fs ∧ SameEntries es fs'
  | _, _ => False

def SameItems : List (Tree K N) → List (Tree K N) → Prop
  | [], [] => True
  | x :: xs, y :: ys => Same x y ∧ SameItems xs ys
  | _, _ => False

def SameEntries : List (K × Tree K N) → List (K × Tree K N) → Prop
  | [], [] => True
  | (k, x) :: es, (l, y) :: fs => (k = l ∧ Same x y) ∧ SameEntries es fs
  | _, _ => False
end

variable {eqn}

theorem sameItems_iff {xs ys : List (Tree K N)} : SameItems eqn xs ys ↔ List.Forall₂ (Same eqn) xs ys := by
  induction xs generalizing ys with
  | nil => cases ys <;> simp [SameItems]
  | cons x xs ih => cases ys <;> simp [SameItems, ih]

theorem sameEntries_iff {es fs : List (K × Tree K N)} :
    SameEntries eqn es fs ↔ List.Forall₂ (fun e f => e.1 = f.1 ∧ Same eqn e.2 f.2) es fs := by
  induction es generalizing fs with
  | nil => cases fs <;> simp [SameEntries]
  | cons e es ih => cases fs <;> simp [SameEntries, ih]

theorem eq_of_perm_of_keys {es fs : List (K × Tree K N)} (h : es.Perm fs) (hkeys : es.map Prod.fst = fs.map Prod.fst)
    (hnodup : (fs.map Prod.fst).Nodup) : es = fs := by
  induction es generalizing fs with
  | nil => exact (List.Perm.nil_eq h).symm ▸ rfl
  | cons e es ih =>
    cases fs with
    | nil => exact h.eq_nil
    | cons f fs =>
      simp only [List.map_cons, List.cons.injEq, List.nodup_cons] at hkeys hnodup
      obtain rfl : e = f := by
        rcases List.mem_cons.mp (h.subset (List.mem_cons_self)) with he | he
        · exact he
        · exact absurd (hkeys.1 ▸ List.mem_map_of_mem he) hnodup.1
      rw [ih h.cons_inv hkeys.2 hnodup.2]

theorem same_obj_iff {es fs : List (K × Tree K N)} (hkeys : es.map Prod.fst = fs.map Prod.fst)
    (hnodup : (fs.map Prod.fst).Nodup) : Same eqn (.obj es) (.obj fs) ↔ SameEntries eqn es fs := by
  constructor
  · rintro ⟨fs', hperm, hsame⟩
    have hkeys' : es.map Prod.fst = fs'.map Prod.fst := by
      rw [← List.forall₂_eq_eq_eq, List.forall₂_map_left_iff, List.forall₂_map_right_iff]
      exact (sameEntries_iff.mp hsame).imp (fun _ _ h => h.1)
    rw [← eq_of_perm_of_keys hperm (hkeys'.symm.trans hkeys) hnodup]
    exact hsame
  · exact fun hsame => ⟨fs, List.Perm.refl fs, hsame⟩

theorem same_obj_of_perm {es fs gs : List (K × Tree K N)} (h : fs.Perm gs) :
    Same eqn (.obj es) (.obj fs) ↔ Same eqn (.obj es) (.obj gs) := by
  constructor
  · rintro ⟨fs', hperm, hsame⟩
    exact ⟨fs', hperm.trans h, hsame⟩
  · rintro ⟨fs', hperm, hsame⟩
    exact ⟨fs', hperm.trans h.symm, hsame⟩

end Same

section WellFormed

variable (Finite : N → Prop) (Allowed : K → Prop)

mutual
def WellFormed : Tree K N → Prop
  | .num n => Finite n
  | .arr items => WellFormedItems items
  | .obj entries => (entries.map Prod.fst).Nodup ∧ WellFormedEntries entries
  | _ => True

def WellFormedItems : List (Tree K N) → Prop
  | [] => True
  | item :: items => WellFormed item ∧ WellFormedItems items

def WellFormedEntries : List (K × Tree K N) → Prop
  | [] => True
  | (key, value) :: entries => (Allowed key ∧ WellFormed value) ∧ WellFormedEntries entries
end

variable {Finite Allowed}

theorem wellFormedItems_iff {items : List (Tree K N)} :
    WellFormedItems Finite Allowed items ↔ ∀ t ∈ items, WellFormed Finite Allowed t := by
  induction items with
  | nil => simp [WellFormedItems]
  | cons t items ih => simp [WellFormedItems, ih]

theorem wellFormedEntries_iff {entries : List (K × Tree K N)} :
    WellFormedEntries Finite Allowed entries ↔ ∀ e ∈ entries, Allowed e.1 ∧ WellFormed Finite Allowed e.2 := by
  induction entries with
  | nil => simp [WellFormedEntries]
  | cons e entries ih => simp [WellFormedEntries, ih]

theorem WellFormed.mono {Finite' : N → Prop} {Allowed' : K → Prop} (hn : ∀ n, Finite n → Finite' n)
    (hk : ∀ k, Allowed k → Allowed' k) {t : Tree K N} (h : WellFormed Finite Allowed t) : WellFormed Finite' Allowed' t := by
  induction t using Tree.induction with
  | null => trivial
  | bool b => trivial
  | num n => exact hn n h
  | str s => trivial
  | arr items ih => exact wellFormedItems_iff.mpr (fun t ht => ih t ht (wellFormedItems_iff.mp h t ht))
  | obj entries ih =>
    refine ⟨h.1, wellFormedEntries_iff.mpr (fun e he => ?_)⟩
    obtain ⟨hkey, hvalue⟩ := wellFormedEntries_iff.mp h.2 e he
    exact ⟨hk e.1 hkey, ih e he hvalue⟩

end WellFormed

end Tree

open JsonPrinting.Tree

structure Arrangement (K V : Type) where
  arrange : List (K × V) → List (K × V)
  Allowed : K → Prop
  perm : ∀ {es}, (∀ e ∈ es, Allowed e.1) → (arrange es).Perm es
  eq_of_perm : ∀ {es fs}, (es.map Prod.fst).Nodup → es.Perm fs → arrange es = arrange fs
  forall₂ : ∀ {R : V → V → Prop} {es fs}, List.Forall₂ (fun e f => e.1 = f.1 ∧ R e.2 f.2) es fs →
    List.Forall₂ (fun e f => e.1 = f.1 ∧ R e.2 f.2) (arrange es) (arrange fs)

section Canonical

variable (arrange : List (K × Tree K N) → List (K × Tree K N))

mutual
def canonicalize : Tree K N → Tree K N
  | .arr items => .arr (canonicalizeItems items)
  | .obj entries => .obj (arrange (canonicalizeEntries entries))
  | value => value

def canonicalizeItems : List (Tree K N) → List (Tree K N)
  | [] => []
  | item :: items => canonicalize item :: canonicalizeItems items

def canonicalizeEntries : List (K × Tree K N) → List (K × Tree K N)
  | [] => []
  | (key, value) :: entries => (key, canonicalize value) :: canonicalizeEntries entries
end

theorem canonicalizeItems_eq (items : List (Tree K N)) :
    canonicalizeItems arrange items = items.map (canonicalize arrange) := by
  induction items with
  | nil => rfl
  | cons t items ih => simp [canonicalizeItems, ih]

theorem canonicalizeEntries_eq (entries : List (K × Tree K N)) :
    canonicalizeEntries arrange entries = entries.map (fun e => (e.1, canonicalize arrange e.2)) := by
  induction entries with
  | nil => rfl
  | cons e entries ih => simp [canonicalizeEntries, ih]

end Canonical

structure Printer (K N C : Type) where
  lit : Char → C
  quote : K → List C
  number : N → List C

namespace Printer

variable (pr : Printer K N C)

def text (s : String) : List C := s.toList.map pr.lit

def joined : List (List C) → List C
  | [] => []
  | t :: ts => t ++ ts.flatMap (fun t => pr.lit ',' :: t)

mutual
def print : Tree K N → List C
  | .null => pr.text "null"
  | .bool true => pr.text "true"
  | .bool false => pr.text "false"
  | .num n => pr.number n
  | .str s => pr.quote s
  | .arr items => pr.lit '[' :: (joined pr (printItems items) ++ [pr.lit ']'])
  | .obj entries => pr.lit '{' :: (joined pr (printEntries entries) ++ [pr.lit '}'])

def printItems : List (Tree K N) → List (List C)
  | [] => []
  | item :: items => print item :: printItems items

def printEntries : List (K × Tree K N) → List (List C)
  | [] => []
  | (key, value) :: entries => (pr.quote key ++ pr.lit ':' :: print value) :: printEntries entries
end

theorem printItems_eq (items : List (Tree K N)) : pr.printItems items = items.map pr.print := by
  induction items with
  | nil => rfl
  | cons t items ih => simp [printItems, ih]

def printEntry (e : K × Tree K N) : List C := pr.quote e.1 ++ pr.lit ':' :: pr.print e.2

theorem printEntries_eq (entries : List (K × Tree K N)) : pr.printEntries entries = entries.map pr.printEntry := by
  induction entries with
  | nil => rfl
  | cons e entries ih => simp [printEntries, printEntry, ih]

def numeric : List Char := "0123456789+-.e".toList

def format : List Char := "[]\x7b\x7d,:\"ntf".toList ++ numeric

theorem format_of_numeric {c : Char} (h : c ∈ numeric) : c ∈ format := List.mem_append_right _ h

theorem format_of_close {c : Char} (h : c ∈ [']', '}']) : c ∈ format :=
  List.forall_iff_forall_mem.mp (show List.Forall (· ∈ format) [']', '}'] by decide) c h

structure Readable (Finite : N → Prop) (eqn : N → N → Prop) : Prop where
  lit_inj : ∀ {c d}, c ∈ format → d ∈ format → pr.lit c = pr.lit d → c = d
  quote_head : ∀ s, ∃ t, pr.quote s = pr.lit '"' :: t
  quote_inj : ∀ {s t x y}, pr.quote s ++ x = pr.quote t ++ y → s = t ∧ x = y
  number_ne : ∀ {n}, Finite n → pr.number n ≠ []
  number_numeric : ∀ {n}, Finite n → ∀ c ∈ pr.number n, ∃ d ∈ numeric, c = pr.lit d
  number_eq : ∀ {n m}, Finite n → Finite m → (pr.number n = pr.number m ↔ eqn n m)

def Stops (x : List C) : Prop := ∀ c rest, x = c :: rest → ∃ d ∈ [',', ']', '}'], c = pr.lit d

theorem stops_nil : pr.Stops [] := by
  intro c rest h
  cases h

theorem stops_cons {d : Char} (h : d ∈ [',', ']', '}']) (x : List C) : pr.Stops (pr.lit d :: x) := by
  intro c rest hc
  exact ⟨d, h, (List.cons.inj hc).1.symm⟩

variable {pr} {Finite : N → Prop} {eqn : N → N → Prop}

section Lists

variable {α : Type} {f : α → List C} {R : α → α → Prop} {P : α → Prop} {xs ys : List α} {x y : List C} {close : Char}

theorem stops_tail (hclose : close ∈ [']', '}']) (xs : List α) (x : List C) :
    pr.Stops ((xs.map f).flatMap (fun t => pr.lit ',' :: t) ++ pr.lit close :: x) := by
  cases xs with
  | nil => exact pr.stops_cons (List.mem_cons_of_mem _ hclose) x
  | cons a xs => exact pr.stops_cons (by simp) _

theorem tail_read (hlit : ∀ {c d}, c ∈ format → d ∈ format → pr.lit c = pr.lit d → c = d) (hclose : close ∈ [']', '}'])
    (hread : ∀ a ∈ xs, ∀ b, P b → ∀ x y, pr.Stops x → pr.Stops y → f a ++ x = f b ++ y → R a b ∧ x = y)
    (hy : ∀ b ∈ ys, P b)
    (h : (xs.map f).flatMap (fun t => pr.lit ',' :: t) ++ pr.lit close :: x =
      (ys.map f).flatMap (fun t => pr.lit ',' :: t) ++ pr.lit close :: y) : List.Forall₂ R xs ys ∧ x = y := by
  have hcomma : pr.lit close ≠ pr.lit ',' := by
    intro he
    rw [hlit (format_of_close hclose) (by decide) he] at hclose
    simp at hclose
  induction xs generalizing ys with
  | nil =>
    cases ys with
    | nil => exact ⟨.nil, (List.cons.inj h).2⟩
    | cons b ys => exact absurd (List.cons.inj h).1 hcomma
  | cons a xs ih =>
    cases ys with
    | nil => exact absurd (List.cons.inj h).1.symm hcomma
    | cons b ys =>
      simp only [List.map_cons, List.flatMap_cons, List.cons_append, List.append_assoc, List.cons.injEq, true_and] at h
      obtain ⟨hab, hrest⟩ := hread a (by simp) b (hy b (by simp)) _ _ (stops_tail hclose xs x) (stops_tail hclose ys y) h
      obtain ⟨htail, hxy⟩ := ih (fun a ha => hread a (by simp [ha])) (fun b hb => hy b (by simp [hb])) hrest
      exact ⟨.cons hab htail, hxy⟩

theorem joined_read (hlit : ∀ {c d}, c ∈ format → d ∈ format → pr.lit c = pr.lit d → c = d) (hclose : close ∈ [']', '}'])
    (hopen : ∀ a, P a → ∀ u v, f a ++ u ≠ pr.lit close :: v)
    (hread : ∀ a ∈ xs, ∀ b, P b → ∀ x y, pr.Stops x → pr.Stops y → f a ++ x = f b ++ y → R a b ∧ x = y)
    (hx : ∀ a ∈ xs, P a) (hy : ∀ b ∈ ys, P b)
    (h : joined pr (xs.map f) ++ pr.lit close :: x = joined pr (ys.map f) ++ pr.lit close :: y) :
    List.Forall₂ R xs ys ∧ x = y := by
  cases xs with
  | nil =>
    cases ys with
    | nil => exact ⟨.nil, (List.cons.inj h).2⟩
    | cons b ys =>
      simp only [joined, List.map_cons, List.append_assoc] at h
      exact absurd h.symm (hopen b (hy b (by simp)) _ _)
  | cons a xs =>
    cases ys with
    | nil =>
      simp only [joined, List.map_cons, List.append_assoc] at h
      exact absurd h (hopen a (hx a (by simp)) _ _)
    | cons b ys =>
      simp only [joined, List.map_cons, List.append_assoc] at h
      obtain ⟨hab, hrest⟩ := hread a (by simp) b (hy b (by simp)) _ _ (stops_tail hclose xs x) (stops_tail hclose ys y) h
      obtain ⟨htail, hxy⟩ := tail_read hlit hclose (fun a ha => hread a (by simp [ha])) (fun b hb => hy b (by simp [hb])) hrest
      exact ⟨.cons hab htail, hxy⟩

end Lists

theorem eq_of_append_eq {p : C → Prop} {s t x y : List C} (hs : ∀ c ∈ s, p c) (ht : ∀ c ∈ t, p c)
    (hx : ∀ c rest, x = c :: rest → ¬ p c) (hy : ∀ c rest, y = c :: rest → ¬ p c) (h : s ++ x = t ++ y) :
    s = t ∧ x = y := by
  induction s generalizing t with
  | nil =>
    cases t with
    | nil => exact ⟨rfl, h⟩
    | cons c t => exact absurd (ht c (by simp)) (hx c _ h)
  | cons c s ih =>
    cases t with
    | nil => exact absurd (hs c (by simp)) (hy c _ h.symm)
    | cons d t =>
      obtain ⟨rfl, h'⟩ := List.cons.inj h
      obtain ⟨rfl, hxy⟩ := ih (fun c hc => hs c (by simp [hc])) (fun c hc => ht c (by simp [hc])) h'
      exact ⟨rfl, hxy⟩

def initial : Tree K N → Char
  | .null => 'n'
  | .bool true => 't'
  | .bool false => 'f'
  | .num _ => '0'
  | .str _ => '"'
  | .arr _ => '['
  | .obj _ => '{'

def leading (c : Char) : Char := if c ∈ numeric then '0' else c

section Read

variable {arr : Arrangement K (Tree K N)} (hr : pr.Readable Finite eqn)

include hr

theorem print_initial {t : Tree K N} (ht : WellFormed Finite arr.Allowed t) :
    ∃ c ∈ format, leading c = initial t ∧ ∃ rest, pr.print (canonicalize arr.arrange t) = pr.lit c :: rest := by
  cases t with
  | null => exact ⟨'n', by decide, rfl, _, rfl⟩
  | bool b =>
    cases b with
    | true => exact ⟨'t', by decide, rfl, _, rfl⟩
    | false => exact ⟨'f', by decide, rfl, _, rfl⟩
  | num n =>
    obtain ⟨c, rest, hn⟩ := List.exists_cons_of_ne_nil (hr.number_ne ht)
    obtain ⟨d, hd, rfl⟩ := hr.number_numeric ht c (by simp [hn])
    exact ⟨d, format_of_numeric hd, by simp [leading, hd, initial], rest, hn⟩
  | str s =>
    obtain ⟨t, hq⟩ := hr.quote_head s
    exact ⟨'"', by decide, rfl, t, hq⟩
  | arr items => exact ⟨'[', by decide, rfl, _, rfl⟩
  | obj entries => exact ⟨'{', by decide, rfl, _, rfl⟩

theorem initial_eq {a b : Tree K N} (ha : WellFormed Finite arr.Allowed a) (hb : WellFormed Finite arr.Allowed b)
    {x y : List C} (h : pr.print (canonicalize arr.arrange a) ++ x = pr.print (canonicalize arr.arrange b) ++ y) :
    initial a = initial b := by
  obtain ⟨c, hcf, hc, s, hs⟩ := print_initial hr ha
  obtain ⟨d, hdf, hd, t, ht⟩ := print_initial hr hb
  rw [hs, ht] at h
  obtain rfl : c = d := hr.lit_inj hcf hdf (List.cons.inj h).1
  exact hc.symm.trans hd

theorem print_ne_close {a : Tree K N} (ha : WellFormed Finite arr.Allowed a) {close : Char} (hclose : close ∈ [']', '}'])
    (u v : List C) : pr.print (canonicalize arr.arrange a) ++ u ≠ pr.lit close :: v := by
  intro h
  obtain ⟨c, hcf, hc, s, hs⟩ := print_initial hr ha
  rw [hs] at h
  obtain rfl : c = close := hr.lit_inj hcf (format_of_close hclose) (List.cons.inj h).1
  have hlead : leading c = c := List.forall_iff_forall_mem.mp
    (show List.Forall (fun c => leading c = c) [']', '}'] by decide) c hclose
  rw [hlead] at hc
  subst hc
  rcases a with _ | (_ | _) | _ | _ | _ | _ <;> simp [initial] at hclose

theorem number_read {n m : N} {x y : List C} (hn : Finite n) (hm : Finite m) (hx : pr.Stops x) (hy : pr.Stops y)
    (h : pr.number n ++ x = pr.number m ++ y) : eqn n m ∧ x = y := by
  have hstop {z : List C} (hz : pr.Stops z) (c : C) (rest : List C) (hc : z = c :: rest) :
      ¬ ∃ d ∈ numeric, c = pr.lit d := by
    rintro ⟨d, hd, hcd⟩
    obtain ⟨e, he, hce⟩ := hz c rest hc
    obtain ⟨hef, hen⟩ := List.forall_iff_forall_mem.mp
      (show List.Forall (fun e => e ∈ format ∧ e ∉ numeric) [',', ']', '}'] by decide) e he
    rw [hr.lit_inj (format_of_numeric hd) hef (hcd.symm.trans hce)] at hd
    exact hen hd
  obtain ⟨hnm, hxy⟩ := eq_of_append_eq (hr.number_numeric hn) (hr.number_numeric hm) (hstop hx) (hstop hy) h
  exact ⟨(hr.number_eq hn hm).mp hnm, hxy⟩

theorem entry_ne_close (e : K × Tree K N) {close : Char} (hclose : close ∈ [']', '}']) (u v : List C) :
    pr.printEntry (e.1, canonicalize arr.arrange e.2) ++ u ≠ pr.lit close :: v := by
  intro h
  obtain ⟨t, hq⟩ := hr.quote_head e.1
  simp only [printEntry, hq, List.cons_append] at h
  rw [← hr.lit_inj (by decide) (format_of_close hclose) (List.cons.inj h).1] at hclose
  simp at hclose

theorem entry_read {e f : K × Tree K N} {x y : List C}
    (hread : pr.print (canonicalize arr.arrange e.2) ++ x = pr.print (canonicalize arr.arrange f.2) ++ y →
      Same eqn e.2 f.2 ∧ x = y)
    (h : pr.printEntry (e.1, canonicalize arr.arrange e.2) ++ x =
      pr.printEntry (f.1, canonicalize arr.arrange f.2) ++ y) : (e.1 = f.1 ∧ Same eqn e.2 f.2) ∧ x = y := by
  simp only [printEntry, List.append_assoc, List.cons_append] at h
  obtain ⟨hkey, hrest⟩ := hr.quote_inj h
  obtain ⟨hvalue, hxy⟩ := hread (List.cons.inj hrest).2
  exact ⟨⟨hkey, hvalue⟩, hxy⟩

omit hr in
theorem exists_arranged {es : List (K × Tree K N)} (h : WellFormedEntries Finite arr.Allowed es) :
    ∃ es' : List (K × Tree K N), es'.Perm es ∧ arr.arrange (canonicalizeEntries arr.arrange es) =
      es'.map (fun e => (e.1, canonicalize arr.arrange e.2)) := by
  have hperm : (arr.arrange (canonicalizeEntries arr.arrange es)).Perm
      (es.map (fun e => (e.1, canonicalize arr.arrange e.2))) := by
    rw [canonicalizeEntries_eq]
    apply arr.perm
    intro e he
    obtain ⟨e', he', rfl⟩ := List.mem_map.mp he
    exact (wellFormedEntries_iff.mp h e' he').1
  have hmap : List.Forall₂ (fun a b => a = (b.1, canonicalize arr.arrange b.2))
      (es.map (fun e => (e.1, canonicalize arr.arrange e.2))) es := by
    rw [List.forall₂_map_left_iff]
    exact List.forall₂_same.mpr (fun _ _ => rfl)
  obtain ⟨es', hes', hp⟩ := List.perm_comp_forall₂ hperm hmap
  refine ⟨es', hp, ?_⟩
  rw [← List.forall₂_eq_eq_eq, List.forall₂_map_right_iff]
  exact hes'

theorem print_read {a b : Tree K N} {x y : List C} (ha : WellFormed Finite arr.Allowed a)
    (hb : WellFormed Finite arr.Allowed b) (hx : pr.Stops x) (hy : pr.Stops y)
    (h : pr.print (canonicalize arr.arrange a) ++ x = pr.print (canonicalize arr.arrange b) ++ y) :
    Same eqn a b ∧ x = y := by
  have hinit := initial_eq hr ha hb h
  induction a using Tree.induction generalizing b x y with
  | null =>
    cases b with
    | null => exact ⟨trivial, List.append_cancel_left h⟩
    | bool w => cases w <;> simp [initial] at hinit
    | _ => simp [initial] at hinit
  | bool v =>
    cases b with
    | bool w =>
      cases v <;> cases w <;> simp only [initial, Char.reduceEq] at hinit
      · exact ⟨rfl, List.append_cancel_left h⟩
      · exact ⟨rfl, List.append_cancel_left h⟩
    | _ => cases v <;> simp [initial] at hinit
  | num n =>
    cases b with
    | num m => exact number_read hr ha hb hx hy h
    | bool w => cases w <;> simp [initial] at hinit
    | _ => simp [initial] at hinit
  | str s =>
    cases b with
    | str t => exact hr.quote_inj h
    | bool w => cases w <;> simp [initial] at hinit
    | _ => simp [initial] at hinit
  | arr xs ih =>
    cases b with
    | bool w => cases w <;> simp [initial] at hinit
    | arr ys =>
      have hxs := wellFormedItems_iff.mp ha
      have hys := wellFormedItems_iff.mp hb
      simp only [canonicalize, print, printItems_eq, canonicalizeItems_eq, List.map_map, List.cons_append,
        List.append_assoc, List.nil_append, List.cons.injEq, true_and] at h
      obtain ⟨hsame, hxy⟩ := joined_read hr.lit_inj (by simp) (fun t ht => print_ne_close hr ht (by simp))
        (fun a ha b hb x y hx hy h => ih a ha (hxs a ha) hb hx hy h (initial_eq hr (hxs a ha) hb h)) hxs hys h
      exact ⟨sameItems_iff.mpr hsame, hxy⟩
    | _ => simp [initial] at hinit
  | obj es ih =>
    cases b with
    | bool w => cases w <;> simp [initial] at hinit
    | obj fs =>
      obtain ⟨es', hes, hes'⟩ := exists_arranged ha.2
      obtain ⟨fs', hfs, hfs'⟩ := exists_arranged hb.2
      have hwe : ∀ e ∈ es', WellFormed Finite arr.Allowed e.2 :=
        fun e he => (wellFormedEntries_iff.mp ha.2 e (hes.subset he)).2
      have hwf : ∀ f ∈ fs', WellFormed Finite arr.Allowed f.2 :=
        fun f hf => (wellFormedEntries_iff.mp hb.2 f (hfs.subset hf)).2
      simp only [canonicalize, print, printEntries_eq, hes', hfs', List.map_map, List.cons_append,
        List.append_assoc, List.nil_append, List.cons.injEq, true_and] at h
      obtain ⟨hsame, hxy⟩ := joined_read (P := fun e : K × Tree K N => WellFormed Finite arr.Allowed e.2) hr.lit_inj
        (by simp) (fun e _ => entry_ne_close hr e (by simp))
        (fun e he f hf x y hx hy h => entry_read hr
          (fun h => ih e (hes.subset he) (hwe e he) hf hx hy h (initial_eq hr (hwe e he) hf h)) h) hwe hwf h
      obtain ⟨gs, hgs, hperm⟩ := List.perm_comp_forall₂ hes.symm hsame
      exact ⟨⟨gs, hperm.trans hfs, sameEntries_iff.mpr hgs⟩, hxy⟩
    | _ => simp [initial] at hinit

end Read

section Print

variable {arr : Arrangement K (Tree K N)} (hr : pr.Readable Finite eqn)

omit hr in
theorem forall₂_of_mem {α β : Type} {R S : α → β → Prop} {xs : List α} {ys : List β} (h : List.Forall₂ R xs ys)
    (hS : ∀ a ∈ xs, ∀ b ∈ ys, R a b → S a b) : List.Forall₂ S xs ys := by
  induction h with
  | nil => exact .nil
  | cons hab _ ih =>
    exact .cons (hS _ (by simp) _ (by simp) hab) (ih (fun a ha b hb => hS a (by simp [ha]) b (by simp [hb])))

omit hr in
theorem map_eq_map {α β : Type} {f : α → β} {xs ys : List α} (h : List.Forall₂ (fun a b => f a = f b) xs ys) :
    xs.map f = ys.map f := by
  rw [← List.forall₂_eq_eq_eq, List.forall₂_map_left_iff, List.forall₂_map_right_iff]
  exact h

omit hr in
theorem nodup_canonicalizeEntries {es : List (K × Tree K N)} (h : (es.map Prod.fst).Nodup) :
    ((canonicalizeEntries arr.arrange es).map Prod.fst).Nodup := by
  rw [canonicalizeEntries_eq, List.map_map]
  exact h

include hr

theorem print_eq_of_same {a b : Tree K N} (ha : WellFormed Finite arr.Allowed a) (hb : WellFormed Finite arr.Allowed b)
    (h : Same eqn a b) : pr.print (canonicalize arr.arrange a) = pr.print (canonicalize arr.arrange b) := by
  induction a using Tree.induction generalizing b with
  | null => cases b <;> first | rfl | exact h.elim
  | bool v =>
    cases b with
    | bool w =>
      obtain rfl : v = w := h
      rfl
    | _ => exact h.elim
  | num n =>
    cases b with
    | num m => exact (hr.number_eq ha hb).mpr h
    | _ => exact h.elim
  | str s =>
    cases b with
    | str t =>
      obtain rfl : s = t := h
      rfl
    | _ => exact h.elim
  | arr xs ih =>
    cases b with
    | arr ys =>
      have hxs := wellFormedItems_iff.mp ha
      have hys := wellFormedItems_iff.mp hb
      have hsame : List.Forall₂ (Same eqn) xs ys := sameItems_iff.mp h
      have htexts : xs.map (pr.print ∘ canonicalize arr.arrange) = ys.map (pr.print ∘ canonicalize arr.arrange) :=
        map_eq_map (forall₂_of_mem hsame (fun a ha b hb h => ih a ha (hxs a ha) (hys b hb) h))
      simp only [canonicalize, print, printItems_eq, canonicalizeItems_eq, List.map_map, htexts]
    | _ => exact h.elim
  | obj es ih =>
    cases b with
    | obj fs =>
      obtain ⟨gs, hgs, hsame⟩ := h
      have hes := wellFormedEntries_iff.mp ha.2
      have hfs := wellFormedEntries_iff.mp hb.2
      have hvalues : List.Forall₂ (fun e f => e.1 = f.1 ∧ pr.print e.2 = pr.print f.2)
          (canonicalizeEntries arr.arrange es) (canonicalizeEntries arr.arrange gs) := by
        rw [canonicalizeEntries_eq, canonicalizeEntries_eq, List.forall₂_map_left_iff, List.forall₂_map_right_iff]
        apply forall₂_of_mem (sameEntries_iff.mp hsame)
        rintro e he f hf ⟨hkey, hvalue⟩
        exact ⟨hkey, ih e he (hes e he).2 (hfs f (hgs.subset hf)).2 hvalue⟩
      have horder : arr.arrange (canonicalizeEntries arr.arrange gs) = arr.arrange (canonicalizeEntries arr.arrange fs) := by
        apply arr.eq_of_perm (nodup_canonicalizeEntries _)
        · rw [canonicalizeEntries_eq, canonicalizeEntries_eq]
          exact hgs.map _
        · exact (hgs.map Prod.fst).nodup_iff.mpr hb.1
      have htexts : (arr.arrange (canonicalizeEntries arr.arrange es)).map pr.printEntry =
          (arr.arrange (canonicalizeEntries arr.arrange fs)).map pr.printEntry := by
        rw [← horder]
        apply map_eq_map
        apply (arr.forall₂ (R := fun v w => pr.print v = pr.print w) hvalues).imp
        rintro ⟨k, v⟩ ⟨l, w⟩ ⟨hkey, hvalue⟩
        simp only [printEntry] at hkey hvalue ⊢
        rw [hkey, hvalue]
      simp only [canonicalize, print, printEntries_eq, htexts]
    | _ => exact h.elim

theorem print_eq_iff {a b : Tree K N} (ha : WellFormed Finite arr.Allowed a) (hb : WellFormed Finite arr.Allowed b) :
    pr.print (canonicalize arr.arrange a) = pr.print (canonicalize arr.arrange b) ↔ Same eqn a b := by
  constructor
  · intro h
    exact (print_read hr ha hb pr.stops_nil pr.stops_nil (by rw [h])).1
  · exact print_eq_of_same hr ha hb

end Print

end Printer

section Quoting

variable {mark escape unicode : C} {Lead : C → Prop}

inductive IsToken (mark escape unicode : C) (Lead : C → Prop) : List C → Prop
  | plain {c : C} (hm : c ≠ mark) (hc : c ≠ escape) (hl : ¬ Lead c) : IsToken mark escape unicode Lead [c]
  | pair {c d : C} (hm : c ≠ mark) (hc : c ≠ escape) (hl : Lead c) : IsToken mark escape unicode Lead [c, d]
  | short {c : C} (hc : c ≠ unicode) : IsToken mark escape unicode Lead [escape, c]
  | code (a b c d : C) : IsToken mark escape unicode Lead [escape, unicode, a, b, c, d]

theorem IsToken.append_inj {s t x y : List C} (hs : IsToken mark escape unicode Lead s)
    (ht : IsToken mark escape unicode Lead t) (h : s ++ x = t ++ y) : s = t ∧ x = y := by
  cases hs with
  | plain _ hc hl =>
    cases ht with
    | plain _ _ _ => simpa using h
    | pair _ _ hl' =>
      simp only [List.cons_append, List.nil_append, List.cons.injEq] at h
      exact absurd (h.1 ▸ hl') hl
    | short _ => exact absurd (List.cons.inj h).1 hc
    | code _ _ _ _ => exact absurd (List.cons.inj h).1 hc
  | pair _ hc hl =>
    cases ht with
    | plain _ _ hl' =>
      simp only [List.cons_append, List.nil_append, List.cons.injEq] at h
      exact absurd (h.1 ▸ hl) hl'
    | pair _ _ _ => simpa [and_assoc] using h
    | short _ => exact absurd (List.cons.inj h).1 hc
    | code _ _ _ _ => exact absurd (List.cons.inj h).1 hc
  | short hc =>
    cases ht with
    | plain _ hc' _ => exact absurd (List.cons.inj h).1.symm hc'
    | pair _ hc' _ => exact absurd (List.cons.inj h).1.symm hc'
    | short _ => simpa using h
    | code _ _ _ _ =>
      simp only [List.cons_append, List.nil_append, List.cons.injEq, true_and] at h
      exact absurd h.1 hc
  | code _ _ _ _ =>
    cases ht with
    | plain _ hc' _ => exact absurd (List.cons.inj h).1.symm hc'
    | pair _ hc' _ => exact absurd (List.cons.inj h).1.symm hc'
    | short hc' =>
      simp only [List.cons_append, List.nil_append, List.cons.injEq, true_and] at h
      exact absurd h.1.symm hc'
    | code _ _ _ _ => simpa [and_assoc] using h

theorem IsToken.append_ne {t : List C} (ht : IsToken mark escape unicode Lead t) (hm : escape ≠ mark) (x y : List C) :
    t ++ x ≠ mark :: y := by
  cases ht with
  | plain h _ _ => simp [h]
  | pair h _ _ => simp [h]
  | short _ => simp [hm]
  | code _ _ _ _ => simp [hm]

theorem flatten_read (hm : escape ≠ mark) {ts us : List (List C)} {x y : List C}
    (hts : ∀ t ∈ ts, IsToken mark escape unicode Lead t) (hus : ∀ t ∈ us, IsToken mark escape unicode Lead t)
    (h : ts.flatten ++ mark :: x = us.flatten ++ mark :: y) : ts = us ∧ x = y := by
  induction ts generalizing us with
  | nil =>
    cases us with
    | nil => exact ⟨rfl, (List.cons.inj h).2⟩
    | cons u us =>
      rw [List.flatten_cons, List.append_assoc] at h
      exact absurd h.symm ((hus u (by simp)).append_ne hm _ _)
  | cons t ts ih =>
    cases us with
    | nil =>
      rw [List.flatten_cons, List.append_assoc] at h
      exact absurd h ((hts t (by simp)).append_ne hm _ _)
    | cons u us =>
      rw [List.flatten_cons, List.flatten_cons, List.append_assoc, List.append_assoc] at h
      obtain ⟨rfl, hrest⟩ := (hts t (by simp)).append_inj (hus u (by simp)) h
      obtain ⟨rfl, hxy⟩ := ih (fun t ht => hts t (by simp [ht])) (fun u hu => hus u (by simp [hu])) hrest
      exact ⟨rfl, hxy⟩

end Quoting

end JsonPrinting
