import Mathlib.Data.List.Nodup

namespace KeyedTable

class Keyed (ρ : Type) (κ : outParam Type) where
  key : ρ → κ

export Keyed (key)

variable {ρ κ : Type} [Keyed ρ κ]

variable (ρ) in
structure Table where
  rows : List ρ
  nodup : (rows.map key).Nodup

structure Change (ρ : Type) {κ : Type} [Keyed ρ κ] where
  apply : ρ → ρ
  key_apply : ∀ r, key (apply r) = key r

namespace Table

@[ext] theorem ext {s t : Table ρ} (h : s.rows = t.rows) : s = t := by
  cases s; cases t; simpa using h

def empty : Table ρ := ⟨[], by simp⟩

instance : Membership ρ (Table ρ) := ⟨fun t r => r ∈ t.rows⟩

theorem mem_rows {t : Table ρ} {r : ρ} : r ∈ t.rows ↔ r ∈ t := Iff.rfl

@[simp] theorem not_mem_empty (r : ρ) : r ∉ (empty : Table ρ) := List.not_mem_nil

theorem eq_of_key {t : Table ρ} {r s : ρ} (hr : r ∈ t) (hs : s ∈ t) (hk : key r = key s) : r = s :=
  List.inj_on_of_nodup_map t.nodup hr hs hk

def find (t : Table ρ) (p : ρ → Bool) : Option ρ := t.rows.find? p

theorem mem_of_find {t : Table ρ} {p : ρ → Bool} {r : ρ} (h : t.find p = some r) : r ∈ t :=
  List.mem_of_find?_eq_some h

theorem find_holds {t : Table ρ} {p : ρ → Bool} {r : ρ} (h : t.find p = some r) : p r = true :=
  List.find?_some h

theorem find_eq_none {t : Table ρ} {p : ρ → Bool} : t.find p = none ↔ ∀ r ∈ t, p r = false := by
  simp only [find, List.find?_eq_none, Bool.not_eq_true]
  rfl

theorem find_eq_some_of_unique {t : Table ρ} {p : ρ → Bool} {r : ρ} (hr : r ∈ t) (hp : p r = true)
    (hu : ∀ s ∈ t, p s = true → s = r) : t.find p = some r := by
  cases hf : t.find p with
  | none => simp [find_eq_none.mp hf r hr] at hp
  | some s => rw [hu s (mem_of_find hf) (find_holds hf)]

variable [DecidableEq κ]

def get (t : Table ρ) (k : κ) : Option ρ := t.rows.find? (fun r => key r = k)

theorem get_eq_some {t : Table ρ} {k : κ} {r : ρ} : t.get k = some r ↔ r ∈ t ∧ key r = k := by
  constructor
  · intro h
    exact ⟨List.mem_of_find?_eq_some h, by simpa using List.find?_some h⟩
  · rintro ⟨hr, rfl⟩
    cases hg : t.get (key r) with
    | none => exact absurd (List.find?_eq_none.mp hg r hr) (by simp)
    | some s =>
      have hk : key s = key r := by simpa using List.find?_some hg
      rw [eq_of_key (List.mem_of_find?_eq_some hg) hr hk]

theorem get_eq_none {t : Table ρ} {k : κ} : t.get k = none ↔ ∀ r ∈ t, key r ≠ k := by
  simp only [get, List.find?_eq_none, decide_eq_true_eq]
  rfl

theorem mem_of_get {t : Table ρ} {k : κ} {r : ρ} (h : t.get k = some r) : r ∈ t := (get_eq_some.mp h).1

theorem key_of_get {t : Table ρ} {k : κ} {r : ρ} (h : t.get k = some r) : key r = k := (get_eq_some.mp h).2

theorem get_of_mem {t : Table ρ} {r : ρ} (h : r ∈ t) : t.get (key r) = some r := get_eq_some.mpr ⟨h, rfl⟩

def insert (t : Table ρ) (r : ρ) : Table ρ :=
  if h : t.get (key r) = none then
    ⟨t.rows ++ [r], by
      rw [List.map_append, List.map_singleton, List.nodup_append]
      refine ⟨t.nodup, by simp, ?_⟩
      intro a ha b hb
      obtain ⟨x, hx, rfl⟩ := List.mem_map.mp ha
      rw [List.mem_singleton.mp hb]
      exact get_eq_none.mp h x hx⟩
  else t

theorem insert_rows {t : Table ρ} {r : ρ} (h : t.get (key r) = none) : (t.insert r).rows = t.rows ++ [r] := by
  simp [insert, h]

theorem mem_insert {t : Table ρ} {r x : ρ} (h : t.get (key r) = none) : x ∈ t.insert r ↔ x ∈ t ∨ x = r := by
  rw [← mem_rows, insert_rows h]
  simp [mem_rows]

theorem mem_of_mem_insert {t : Table ρ} {r x : ρ} (h : x ∈ t.insert r) : x ∈ t ∨ x = r := by
  by_cases hg : t.get (key r) = none
  · exact (mem_insert hg).mp h
  · simp only [insert, hg, ↓reduceDIte] at h
    exact Or.inl h

theorem mem_insert_of_mem {t : Table ρ} {r x : ρ} (h : x ∈ t) : x ∈ t.insert r := by
  by_cases hg : t.get (key r) = none
  · exact (mem_insert hg).mpr (Or.inl h)
  · simpa only [insert, hg, ↓reduceDIte] using h

theorem get_insert_self {t : Table ρ} {r : ρ} (h : t.get (key r) = none) : (t.insert r).get (key r) = some r :=
  get_of_mem ((mem_insert h).mpr (Or.inr rfl))

theorem get_insert_of_ne (t : Table ρ) (r : ρ) {k : κ} (h : k ≠ key r) : (t.insert r).get k = t.get k := by
  cases hg : t.get k with
  | none =>
    rw [get_eq_none] at hg ⊢
    intro x hx
    rcases mem_of_mem_insert hx with hx | rfl
    · exact hg x hx
    · exact h.symm
  | some x => exact get_eq_some.mpr ⟨mem_insert_of_mem (mem_of_get hg), key_of_get hg⟩

theorem get_insert (t : Table ρ) (r : ρ) (k : κ) :
    (t.insert r).get k = if k = key r then some ((t.get k).getD r) else t.get k := by
  split_ifs with hk
  · subst hk
    cases hg : t.get (key r) with
    | none => exact get_insert_self hg
    | some x =>
      have hi : t.insert r = t := by simp [insert, hg]
      rw [hi, hg]
      rfl
  · exact get_insert_of_ne t r hk

theorem unique_insert {t : Table ρ} {r : ρ} {R : ρ → ρ → Prop} (hR : ∀ a b, R a b → R b a)
    (h : ∀ a ∈ t, ∀ b ∈ t, R a b → a = b) (hnew : ∀ a ∈ t, ¬ R a r) :
    ∀ a ∈ t.insert r, ∀ b ∈ t.insert r, R a b → a = b := by
  intro a ha b hb hab
  rcases mem_of_mem_insert ha with hat | rfl
  · rcases mem_of_mem_insert hb with hbt | rfl
    · exact h a hat b hbt hab
    · exact absurd hab (hnew a hat)
  · rcases mem_of_mem_insert hb with hbt | rfl
    · exact absurd (hR _ _ hab) (hnew b hbt)
    · rfl

theorem linked_insert {τ θ : Type} [Keyed τ θ] [DecidableEq θ] {t : Table ρ} {u : Table τ} {r : ρ} {x : τ}
    {Names : τ → κ → Prop} (hx : u.get (key x) = none) (hnames : ∀ k, Names x k ↔ k = key r)
    (h : ∀ k, (t.get k).isSome = true ↔ ∃ y ∈ u, Names y k) (k : κ) :
    ((t.insert r).get k).isSome = true ↔ ∃ y ∈ u.insert x, Names y k := by
  rw [get_insert]
  split_ifs with hk
  · simp only [Option.isSome_some, true_iff]
    exact ⟨x, (mem_insert hx).mpr (Or.inr rfl), (hnames k).mpr hk⟩
  · rw [h k]
    constructor
    · rintro ⟨y, hy, hyk⟩
      exact ⟨y, mem_insert_of_mem hy, hyk⟩
    · rintro ⟨y, hy, hyk⟩
      rcases mem_of_mem_insert hy with hy | rfl
      · exact ⟨y, hy, hyk⟩
      · exact absurd ((hnames k).mp hyk) hk

section Update

def update (t : Table ρ) (k : κ) (f : Change ρ) : Table ρ :=
  ⟨t.rows.map (fun r => if key r = k then f.apply r else r), by
    have hk : (fun r => key (if key r = k then f.apply r else r)) = (key : ρ → κ) := by
      funext r
      split_ifs
      · exact f.key_apply r
      · rfl
    rw [List.map_map, Function.comp_def, hk]
    exact t.nodup⟩

variable {f : Change ρ}

theorem mem_update {t : Table ρ} {k : κ} {x : ρ} :
    x ∈ t.update k f ↔ ∃ r ∈ t, x = if key r = k then f.apply r else r := by
  rw [← mem_rows]
  simp only [update, List.mem_map]
  exact exists_congr fun r => and_congr_right fun _ => eq_comm

theorem keys_update (t : Table ρ) (k : κ) : (t.update k f).rows.map key = t.rows.map key := by
  simp only [update, List.map_map]
  apply List.map_congr_left
  intro r _
  rw [Function.comp_apply]
  split_ifs
  · exact f.key_apply r
  · rfl

theorem mem_update_self {t : Table ρ} {r : ρ} (hr : r ∈ t) : f.apply r ∈ t.update (key r) f :=
  mem_update.mpr ⟨r, hr, (if_pos rfl).symm⟩

theorem mem_update_cases {t : Table ρ} {r x : ρ} (hr : r ∈ t) (hx : x ∈ t.update (key r) f) :
    x ∈ t ∧ key x ≠ key r ∨ x = f.apply r := by
  obtain ⟨y, hy, rfl⟩ := mem_update.mp hx
  split_ifs with hk
  · rw [eq_of_key hy hr hk]
    exact Or.inr rfl
  · exact Or.inl ⟨hy, hk⟩

theorem exists_mem_update {t : Table ρ} {k : κ} {R : ρ → ρ → Prop} (hrefl : ∀ r, R r r)
    (h : ∀ r, t.get k = some r → R r (f.apply r)) : ∀ r ∈ t, ∃ r' ∈ t.update k f, R r r' := by
  intro r hr
  refine ⟨_, mem_update.mpr ⟨r, hr, rfl⟩, ?_⟩
  split_ifs with hk
  · exact h r (get_eq_some.mpr ⟨hr, hk⟩)
  · exact hrefl r

theorem unique_update {t : Table ρ} {k : κ} {R : ρ → ρ → Prop} (hR : ∀ a b, R (f.apply a) b → R a b)
    (hR' : ∀ a b, R a (f.apply b) → R a b) (h : ∀ a ∈ t, ∀ b ∈ t, R a b → a = b) :
    ∀ a ∈ t.update k f, ∀ b ∈ t.update k f, R a b → a = b := by
  intro a ha b hb hab
  obtain ⟨x, hx, rfl⟩ := mem_update.mp ha
  obtain ⟨y, hy, rfl⟩ := mem_update.mp hb
  have hxy : R x y := by
    split_ifs at hab
    · exact hR _ _ (hR' _ _ hab)
    · exact hR _ _ hab
    · exact hR' _ _ hab
    · exact hab
  rw [h x hx y hy hxy]

theorem get_update (t : Table ρ) (k j : κ) :
    (t.update k f).get j = (t.get j).map (fun r => if j = k then f.apply r else r) := by
  cases hg : t.get j with
  | none =>
    rw [get_eq_none] at hg
    simp only [Option.map_none, get_eq_none]
    intro x hx
    obtain ⟨r, hr, rfl⟩ := mem_update.mp hx
    split_ifs
    · rw [f.key_apply]; exact hg r hr
    · exact hg r hr
  | some r =>
    obtain ⟨hr, rfl⟩ := get_eq_some.mp hg
    simp only [Option.map_some, get_eq_some]
    refine ⟨mem_update.mpr ⟨r, hr, rfl⟩, ?_⟩
    split_ifs
    · exact f.key_apply r
    · rfl

theorem get_update_self (t : Table ρ) (k : κ) : (t.update k f).get k = (t.get k).map f.apply := by
  rw [get_update]
  simp

theorem get_update_of_ne (t : Table ρ) {k j : κ} (h : j ≠ k) : (t.update k f).get j = t.get j := by
  rw [get_update]
  simp [h]

theorem update_comm {t : Table ρ} {k j : κ} {f g : Change ρ} (h : k ≠ j) :
    (t.update k f).update j g = (t.update j g).update k f := by
  apply ext
  simp only [update, List.map_map]
  apply List.map_congr_left
  intro r _
  by_cases hk : key r = k
  · have hj : key r ≠ j := hk ▸ h
    simp [hk, f.key_apply, h]
  · by_cases hj : key r = j
    · simp [hj, g.key_apply, h.symm]
    · simp [hk, hj]

theorem update_update {t : Table ρ} {k : κ} {f g : Change ρ} (h : ∀ r, g.apply (f.apply r) = g.apply r) :
    (t.update k f).update k g = t.update k g := by
  apply ext
  simp only [update, List.map_map]
  apply List.map_congr_left
  intro r _
  by_cases hk : key r = k
  · simp [hk, f.key_apply, h]
  · simp [hk]

theorem update_insert_self {t : Table ρ} {s : ρ} (h : t.get (key s) = none) :
    (t.insert s).update (key s) f = t.insert (f.apply s) := by
  have hs : t.get (key (f.apply s)) = none := by rw [f.key_apply, h]
  apply ext
  rw [insert_rows hs]
  simp only [update, insert_rows h, List.map_append, List.map_cons, List.map_nil, ↓reduceIte, List.append_left_inj]
  rw [List.map_congr_left (g := id), List.map_id]
  intro r hr
  simp [get_eq_none.mp h r hr]

end Update

section Keeps

def KeepsRow (k : κ) (t t' : Table ρ) : Prop := t'.get k = t.get k

def KeepsOut (p : ρ → Prop) (t t' : Table ρ) : Prop := ∀ r ∈ t', p r → ∃ q ∈ t, key q = key r ∧ p q

@[refl] theorem KeepsRow.refl (k : κ) (t : Table ρ) : KeepsRow k t t := rfl

omit [DecidableEq κ] in
@[refl] theorem KeepsOut.refl (p : ρ → Prop) (t : Table ρ) : KeepsOut p t t := fun r hr hp => ⟨r, hr, rfl, hp⟩

theorem KeepsRow.trans {k : κ} {t₁ t₂ t₃ : Table ρ} (h : KeepsRow k t₁ t₂) (h' : KeepsRow k t₂ t₃) :
    KeepsRow k t₁ t₃ := Eq.trans h' h

omit [DecidableEq κ] in
theorem KeepsOut.trans {p : ρ → Prop} {t₁ t₂ t₃ : Table ρ} (h : KeepsOut p t₁ t₂) (h' : KeepsOut p t₂ t₃) :
    KeepsOut p t₁ t₃ := by
  intro r hr hp
  obtain ⟨q, hq, hk, hpq⟩ := h' r hr hp
  obtain ⟨x, hx, hkx, hpx⟩ := h q hq hpq
  exact ⟨x, hx, hkx.trans hk, hpx⟩

theorem KeepsRow.insert {k : κ} {t : Table ρ} {r : ρ} (h : k ≠ key r) : KeepsRow k t (t.insert r) :=
  get_insert_of_ne t r h

theorem KeepsRow.update {k j : κ} {t : Table ρ} {f : Change ρ} (h : j ≠ k) : KeepsRow j t (t.update k f) :=
  get_update_of_ne t h

theorem KeepsOut.insert {p : ρ → Prop} {t : Table ρ} {r : ρ} (h : ¬ p r) : KeepsOut p t (t.insert r) := by
  intro x hx hp
  rcases mem_of_mem_insert hx with hx | rfl
  · exact ⟨x, hx, rfl, hp⟩
  · exact absurd hp h

theorem KeepsOut.update {p : ρ → Prop} {t : Table ρ} {k : κ} {f : Change ρ} (h : ∀ r, p (f.apply r) → p r) :
    KeepsOut p t (t.update k f) := by
  intro x hx hp
  obtain ⟨r, hr, rfl⟩ := mem_update.mp hx
  split_ifs at hp ⊢
  · exact ⟨r, hr, (f.key_apply r).symm, h r hp⟩
  · exact ⟨r, hr, rfl, hp⟩

theorem KeepsRow.insert_both {k : κ} {t t' : Table ρ} (h : KeepsRow k t t') (r : ρ) :
    KeepsRow k (t.insert r) (t'.insert r) := by
  rw [KeepsRow, get_insert, get_insert, h]

theorem KeepsRow.update_both {k : κ} {t t' : Table ρ} (h : KeepsRow k t t') (j : κ) (f : Change ρ) :
    KeepsRow k (t.update j f) (t'.update j f) := by
  rw [KeepsRow, get_update, get_update, h]

end Keeps

end Table

end KeyedTable
