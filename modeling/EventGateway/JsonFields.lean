import EventGateway.JsonPrinting
import Mathlib.Data.List.Nodup

namespace JsonPrinting.Tree

variable {K L N : Type}

section MapStrings

variable (f : K → L)

mutual
def mapStrings : Tree K N → Tree L N
  | .null => .null
  | .bool b => .bool b
  | .num n => .num n
  | .str s => .str (f s)
  | .arr items => .arr (mapItems items)
  | .obj entries => .obj (mapEntries entries)

def mapItems : List (Tree K N) → List (Tree L N)
  | [] => []
  | item :: items => mapStrings item :: mapItems items

def mapEntries : List (K × Tree K N) → List (L × Tree L N)
  | [] => []
  | (key, value) :: entries => (f key, mapStrings value) :: mapEntries entries
end

variable {f}

theorem mapItems_eq (items : List (Tree K N)) : mapItems f items = items.map (mapStrings f) := by
  induction items with
  | nil => rfl
  | cons t items ih => simp [mapItems, ih]

theorem mapEntries_eq (entries : List (K × Tree K N)) :
    mapEntries f entries = entries.map (fun e => (f e.1, mapStrings f e.2)) := by
  induction entries with
  | nil => rfl
  | cons e entries ih => simp [mapEntries, ih]

theorem Same.mapStrings {eqn : N → N → Prop} {t u : Tree K N} (h : Same eqn t u) :
    Same eqn (t.mapStrings f) (u.mapStrings f) := by
  induction t using Tree.induction generalizing u with
  | null => cases u <;> exact h
  | bool b => cases u <;> exact h
  | num n => cases u <;> exact h
  | str s =>
    cases u with
    | str s' => exact congrArg f h
    | _ => exact h.elim
  | arr items ih =>
    cases u with
    | arr items' =>
      have hitems := sameItems_iff.mp h
      apply sameItems_iff.mpr
      rw [mapItems_eq, mapItems_eq, List.forall₂_map_left_iff, List.forall₂_map_right_iff]
      clear h
      induction hitems with
      | nil => exact .nil
      | cons hxy _ ihitems =>
        exact .cons (ih _ List.mem_cons_self hxy) (ihitems fun t ht => ih t (List.mem_cons_of_mem _ ht))
    | _ => exact h.elim
  | obj entries ih =>
    cases u with
    | obj entries' =>
      obtain ⟨fs, hperm, hsame⟩ := h
      refine ⟨mapEntries f fs, ?_, ?_⟩
      · rw [mapEntries_eq, mapEntries_eq]
        exact hperm.map _
      · have hentries := sameEntries_iff.mp hsame
        apply sameEntries_iff.mpr
        rw [mapEntries_eq, mapEntries_eq, List.forall₂_map_left_iff, List.forall₂_map_right_iff]
        clear hsame hperm
        induction hentries with
        | nil => exact .nil
        | cons hef _ ihentries =>
          exact .cons ⟨congrArg f hef.1, ih _ List.mem_cons_self hef.2⟩
            (ihentries fun e he => ih e (List.mem_cons_of_mem _ he))
    | _ => exact h.elim

theorem WellFormed.of_mapStrings {Finite : N → Prop} {Allowed : L → Prop} {t : Tree K N}
    (h : WellFormed Finite Allowed (t.mapStrings f)) : WellFormed Finite (fun k => Allowed (f k)) t := by
  induction t using Tree.induction with
  | null => trivial
  | bool b => trivial
  | num n => exact h
  | str s => trivial
  | arr items ih =>
    have hitems := wellFormedItems_iff.mp h
    rw [mapItems_eq] at hitems
    exact wellFormedItems_iff.mpr (fun t ht => ih t ht (hitems _ (List.mem_map_of_mem ht)))
  | obj entries ih =>
    obtain ⟨hnodup, hentries⟩ := h
    rw [mapEntries_eq] at hnodup
    rw [wellFormedEntries_iff, mapEntries_eq] at hentries
    refine ⟨?_, wellFormedEntries_iff.mpr (fun e he => ?_)⟩
    · rw [List.map_map] at hnodup
      have hkeys : (entries.map Prod.fst).map f = entries.map (Prod.fst ∘ fun e => (f e.1, mapStrings f e.2)) := by
        rw [List.map_map]
        rfl
      rw [← hkeys] at hnodup
      exact List.Nodup.of_map f hnodup
    · obtain ⟨hkey, hvalue⟩ := hentries _ (List.mem_map_of_mem he)
      exact ⟨hkey, ih e he hvalue⟩

end MapStrings

theorem sameEntries_of_keys {eqn : N → N → Prop} {es fs : List (K × Tree K N)} (keys : List K) (hnodup : keys.Nodup)
    (hes : es.map Prod.fst = keys) (hfs : fs.map Prod.fst = keys) (h : Same eqn (.obj es) (.obj fs)) :
    SameEntries eqn es fs :=
  (same_obj_iff (hes.trans hfs.symm) (hfs ▸ hnodup)).mp h

section Fields

variable [DecidableEq K] {eqn : N → N → Prop}

def field (entries : List (K × Tree K N)) (key : K) : Option (Tree K N) :=
  (entries.find? (fun e => e.1 = key)).map Prod.snd

theorem field_cons (e : K × Tree K N) (entries : List (K × Tree K N)) (key : K) :
    field (e :: entries) key = if e.1 = key then some e.2 else field entries key := by
  rw [field, List.find?_cons]
  split_ifs with h
  · simp [h]
  · simp [h, field]

theorem field_append (es fs : List (K × Tree K N)) (key : K) : field (es ++ fs) key = (field es key).or (field fs key) := by
  rw [field, List.find?_append]
  cases h : es.find? (fun e => e.1 = key) with
  | none => simp [field, h]
  | some e => simp [field, h]

theorem field_eq_none_iff {entries : List (K × Tree K N)} {key : K} :
    field entries key = none ↔ key ∉ entries.map Prod.fst := by
  rw [field, Option.map_eq_none_iff, List.find?_eq_none]
  constructor
  · intro h hm
    obtain ⟨e, he, hk⟩ := List.mem_map.mp hm
    exact h e he (by simpa using hk)
  · intro h e he hk
    exact h (List.mem_map.mpr ⟨e, he, by simpa using hk⟩)

theorem mem_of_field {entries : List (K × Tree K N)} {key : K} {value : Tree K N}
    (h : field entries key = some value) : (key, value) ∈ entries := by
  obtain ⟨⟨k, v⟩, hfind, hv⟩ := Option.map_eq_some_iff.mp h
  have hk : k = key := by simpa using List.find?_some hfind
  subst hk hv
  exact List.mem_of_find?_eq_some hfind

theorem field_of_mem {entries : List (K × Tree K N)} (hnodup : (entries.map Prod.fst).Nodup) {e : K × Tree K N}
    (he : e ∈ entries) : field entries e.1 = some e.2 := by
  induction entries with
  | nil => cases he
  | cons e' entries ih =>
    simp only [List.map_cons, List.nodup_cons] at hnodup
    rw [field_cons]
    rcases List.mem_cons.mp he with rfl | he
    · rw [if_pos rfl]
    · rw [if_neg, ih hnodup.2 he]
      exact fun hk => hnodup.1 (hk ▸ List.mem_map_of_mem he)

theorem field_perm {es fs : List (K × Tree K N)} (hperm : es.Perm fs) (hnodup : (es.map Prod.fst).Nodup) (key : K) :
    field es key = field fs key := by
  cases h : field es key with
  | none =>
    rw [field_eq_none_iff] at h
    exact (field_eq_none_iff.mpr fun hm => h ((hperm.map _).mem_iff.mpr hm)).symm
  | some value =>
    exact (field_of_mem ((hperm.map _).nodup_iff.mp hnodup) (hperm.mem_iff.mp (mem_of_field h))).symm

theorem same_obj_of_field {es fs : List (K × Tree K N)} (hes : (es.map Prod.fst).Nodup)
    (hfs : (fs.map Prod.fst).Nodup) (h : ∀ key, Option.Rel (Same eqn) (field es key) (field fs key)) :
    Same eqn (.obj es) (.obj fs) := by
  induction es generalizing fs with
  | nil =>
    cases fs with
    | nil => exact ⟨[], List.Perm.refl [], trivial⟩
    | cons f fs =>
      have hf := h f.1
      rw [field_cons, if_pos rfl] at hf
      cases hf
  | cons e es ih =>
    obtain ⟨key, x⟩ := e
    have hhead := h key
    rw [field_cons, if_pos rfl] at hhead
    cases hy : field fs key with
    | none =>
      rw [hy] at hhead
      cases hhead
    | some y =>
      rw [hy] at hhead
      cases hhead with
      | some hxy =>
        -- the entry that matches the first one is taken out of the other object
        obtain ⟨before, after, rfl⟩ := List.append_of_mem (mem_of_field hy)
        have hperm : ((key, y) :: (before ++ after)).Perm (before ++ (key, y) :: after) := List.perm_middle.symm
        have hnodup : (((key, y) :: (before ++ after)).map Prod.fst).Nodup := (hperm.map _).nodup_iff.mpr hfs
        have hrest : ∀ k, Option.Rel (Same eqn) (field es k) (field (before ++ after) k) := by
          intro k
          by_cases hk : key = k
          · subst hk
            simp only [List.map_cons, List.nodup_cons] at hes hnodup
            rw [field_eq_none_iff.mpr hes.1, field_eq_none_iff.mpr hnodup.1]
            exact .none
          · have hk' := h k
            rw [← field_perm hperm hnodup, field_cons, field_cons, if_neg hk, if_neg hk] at hk'
            exact hk'
        simp only [List.map_cons, List.nodup_cons] at hes
        obtain ⟨gs, hgs, hsame⟩ := ih hes.2 (List.nodup_cons.mp hnodup).2 hrest
        exact ⟨(key, y) :: gs, (hgs.cons _).trans hperm, ⟨rfl, hxy⟩, hsame⟩

def withDefault (key : K) (value : Tree K N) (entries : List (K × Tree K N)) : List (K × Tree K N) :=
  if key ∈ entries.map Prod.fst then entries else entries ++ [(key, value)]

theorem nodup_withDefault {key : K} {value : Tree K N} {entries : List (K × Tree K N)}
    (h : (entries.map Prod.fst).Nodup) : ((withDefault key value entries).map Prod.fst).Nodup := by
  unfold withDefault
  split_ifs with hm
  · exact h
  · rw [List.map_append, List.nodup_append]
    refine ⟨h, List.nodup_singleton _, fun a ha b hb => ?_⟩
    obtain rfl : b = key := by simpa using hb
    rintro rfl
    exact hm ha

theorem field_withDefault (key : K) (value : Tree K N) (entries : List (K × Tree K N)) (k : K) :
    field (withDefault key value entries) k = (field entries k).or (if key = k then some value else none) := by
  unfold withDefault
  split_ifs with hm hk hk
  · subst hk
    cases hf : field entries key with
    | none => exact absurd hm (field_eq_none_iff.mp hf)
    | some v => rfl
  · simp
  · subst hk
    rw [field_append, field_eq_none_iff.mpr hm, field_cons, if_pos rfl]
  · rw [field_append, field_cons, if_neg hk]
    rfl

theorem mapEntries_withDefault [DecidableEq L] {f : K → L} (hf : Function.Injective f) (key : K) (value : Tree K N)
    (entries : List (K × Tree K N)) :
    mapEntries f (withDefault key value entries) = withDefault (f key) (value.mapStrings f) (mapEntries f entries) := by
  have hmem : f key ∈ (mapEntries f entries).map Prod.fst ↔ key ∈ entries.map Prod.fst := by
    rw [mapEntries_eq, List.map_map]
    simp only [List.mem_map, Function.comp_apply]
    exact ⟨fun ⟨e, he, hk⟩ => ⟨e, he, hf hk⟩, fun ⟨e, he, hk⟩ => ⟨e, he, congrArg f hk⟩⟩
  unfold withDefault
  simp only [hmem]
  split_ifs
  · rfl
  · simp [mapEntries_eq]

end Fields

end JsonPrinting.Tree
