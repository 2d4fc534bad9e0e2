import EventGateway.CanonicalJson
import Mathlib.Data.UInt

namespace EventGateway

abbrev JsString := List UInt16

namespace JsString

open CanonicalJson

def isHighSurrogate (u : UInt16) : Bool := 0xd800 ≤ u.toNat && u.toNat ≤ 0xdbff

def isLowSurrogate (u : UInt16) : Bool := 0xdc00 ≤ u.toNat && u.toNat ≤ 0xdfff

def charUnits (c : Char) : List ℕ :=
  if c.toNat < 0x10000 then [c.toNat]
  else [0xd800 + (c.toNat - 0x10000) / 0x400, 0xdc00 + (c.toNat - 0x10000) % 0x400]

theorem utf16Units_eq (s : Text) : utf16Units s = s.flatMap charUnits := rfl

def ofText (s : Text) : JsString := (utf16Units s).map UInt16.ofNat

theorem toNat_valid (c : Char) : c.toNat < 0xd800 ∨ 0xdfff < c.toNat ∧ c.toNat < 0x110000 := by
  have h : c.toNat.isValidChar := c.valid
  simpa [Nat.isValidChar] using h

theorem charUnits_lt (c : Char) : ∀ n ∈ charUnits c, n < 0x10000 := by
  intro n hn
  have hc := toNat_valid c
  unfold charUnits at hn
  split_ifs at hn
  · simp only [List.mem_singleton] at hn
    omega
  · simp only [List.mem_cons, List.not_mem_nil, or_false] at hn
    omega

theorem charUnits_inj {c d : Char} {x y : List ℕ} (h : charUnits c ++ x = charUnits d ++ y) : c = d ∧ x = y := by
  have hc := toNat_valid c
  have hd := toNat_valid d
  have heq (hn : c.toNat = d.toNat) : c = d := Char.toNat_inj.mp hn
  unfold charUnits at h
  split_ifs at h
  · simp only [List.cons_append, List.nil_append, List.cons.injEq] at h
    exact ⟨heq h.1, h.2⟩
  · simp only [List.cons_append, List.nil_append, List.cons.injEq] at h
    omega
  · simp only [List.cons_append, List.nil_append, List.cons.injEq] at h
    omega
  · simp only [List.cons_append, List.nil_append, List.cons.injEq] at h
    exact ⟨heq (by omega), h.2.2⟩

theorem charUnits_ne_nil (c : Char) : charUnits c ≠ [] := by
  unfold charUnits
  split_ifs <;> simp

theorem utf16Units_injective : Function.Injective utf16Units := by
  intro s t h
  induction s generalizing t with
  | nil =>
    cases t with
    | nil => rfl
    | cons d t =>
      rw [utf16Units_eq, utf16Units_eq, List.flatMap_cons] at h
      exact absurd (List.append_eq_nil_iff.mp h.symm).1 (charUnits_ne_nil d)
  | cons c s ih =>
    cases t with
    | nil =>
      rw [utf16Units_eq, utf16Units_eq, List.flatMap_cons] at h
      exact absurd (List.append_eq_nil_iff.mp h).1 (charUnits_ne_nil c)
    | cons d t =>
      rw [utf16Units_eq, utf16Units_eq, List.flatMap_cons, List.flatMap_cons] at h
      obtain ⟨rfl, hst⟩ := charUnits_inj h
      rw [ih hst]

def wellPaired : JsString → Bool
  | [] => true
  | [u] => !isHighSurrogate u && !isLowSurrogate u
  | u :: v :: rest =>
    if isHighSurrogate u then isLowSurrogate v && wellPaired rest
    else !isLowSurrogate u && wellPaired (v :: rest)

theorem ofText_cons (c : Char) (s : Text) : ofText (c :: s) = (charUnits c).map UInt16.ofNat ++ ofText s := by
  simp [ofText, utf16Units_eq]

theorem toNat_ofNat_unit {n : ℕ} (h : n < 0x10000) : (UInt16.ofNat n).toNat = n := by
  simp only [UInt16.toNat_ofNat']
  omega

theorem map_toNat_ofText (s : Text) : (ofText s).map UInt16.toNat = utf16Units s := by
  rw [ofText, List.map_map]
  conv_rhs => rw [← List.map_id (utf16Units s)]
  apply List.map_congr_left
  intro n hn
  rw [utf16Units_eq] at hn
  obtain ⟨c, _, hn⟩ := List.mem_flatMap.mp hn
  exact toNat_ofNat_unit (charUnits_lt c n hn)

theorem ofText_injective : Function.Injective ofText := by
  intro s t h
  apply utf16Units_injective
  rw [← map_toNat_ofText, ← map_toNat_ofText, h]

theorem wellPaired_cons_of_not {u : UInt16} (hh : isHighSurrogate u = false) (hl : isLowSurrogate u = false)
    (s : JsString) : wellPaired (u :: s) = wellPaired s := by
  cases s with
  | nil => simp [wellPaired, hh, hl]
  | cons v s => simp [wellPaired, hh, hl]

theorem wellPaired_pair {u v : UInt16} (hh : isHighSurrogate u = true) (s : JsString) :
    wellPaired (u :: v :: s) = (isLowSurrogate v && wellPaired s) := by
  simp [wellPaired, hh]

theorem wellPaired_ofText (s : Text) : wellPaired (ofText s) = true := by
  induction s with
  | nil => rfl
  | cons c s ih =>
    have hc := toNat_valid c
    rw [ofText_cons, charUnits]
    split_ifs with h
    · have hu := toNat_ofNat_unit h
      simp only [List.map_cons, List.map_nil, List.cons_append, List.nil_append]
      rw [wellPaired_cons_of_not, ih]
      · simp only [isHighSurrogate, hu, Bool.and_eq_false_iff, decide_eq_false_iff_not]
        omega
      · simp only [isLowSurrogate, hu, Bool.and_eq_false_iff, decide_eq_false_iff_not]
        omega
    · have hu : (UInt16.ofNat (0xd800 + (c.toNat - 0x10000) / 0x400)).toNat = 0xd800 + (c.toNat - 0x10000) / 0x400 :=
        toNat_ofNat_unit (by omega)
      have hv : (UInt16.ofNat (0xdc00 + (c.toNat - 0x10000) % 0x400)).toNat = 0xdc00 + (c.toNat - 0x10000) % 0x400 :=
        toNat_ofNat_unit (by omega)
      simp only [List.map_cons, List.map_nil, List.cons_append, List.nil_append]
      rw [wellPaired_pair, ih]
      · simp only [isLowSurrogate, hv, Bool.and_true, Bool.and_eq_true, decide_eq_true_eq]
        omega
      · simp only [isHighSurrogate, hu, Bool.and_eq_true, decide_eq_true_eq]
        omega

theorem toNat_ofNat_char {n : ℕ} (h : n < 0xd800 ∨ 0xdfff < n ∧ n < 0x110000) : (Char.ofNat n).toNat = n := by
  have hv : n.isValidChar := by simpa [Nat.isValidChar] using h
  rw [Char.ofNat, dif_pos hv]
  rfl

theorem exists_char_of_unit {u : UInt16} (hh : isHighSurrogate u = false) (hl : isLowSurrogate u = false) :
    ∃ c, charUnits c = [u.toNat] := by
  have hlt := u.toNat_lt
  simp only [isHighSurrogate, isLowSurrogate, Bool.and_eq_false_iff, decide_eq_false_iff_not] at hh hl
  have hn : (Char.ofNat u.toNat).toNat = u.toNat := toNat_ofNat_char (by omega)
  refine ⟨Char.ofNat u.toNat, ?_⟩
  rw [charUnits, hn, if_pos (by omega)]

theorem exists_char_of_pair {u v : UInt16} (hh : isHighSurrogate u = true) (hl : isLowSurrogate v = true) :
    ∃ c, charUnits c = [u.toNat, v.toNat] := by
  simp only [isHighSurrogate, isLowSurrogate, Bool.and_eq_true, decide_eq_true_eq] at hh hl
  have hn : (Char.ofNat (0x10000 + (u.toNat - 0xd800) * 0x400 + (v.toNat - 0xdc00))).toNat =
      0x10000 + (u.toNat - 0xd800) * 0x400 + (v.toNat - 0xdc00) := toNat_ofNat_char (by omega)
  refine ⟨Char.ofNat (0x10000 + (u.toNat - 0xd800) * 0x400 + (v.toNat - 0xdc00)), ?_⟩
  rw [charUnits, hn, if_neg (by omega)]
  simp only [List.cons.injEq, and_true]
  omega

theorem wellPaired_iff (s : JsString) : wellPaired s = true ↔ ∃ t, s = ofText t := by
  constructor
  swap
  · rintro ⟨t, rfl⟩
    exact wellPaired_ofText t
  induction s using wellPaired.induct with
  | case1 => exact fun _ => ⟨[], rfl⟩
  | case2 u =>
    intro h
    simp only [wellPaired, Bool.and_eq_true, Bool.not_eq_true'] at h
    obtain ⟨c, hc⟩ := exists_char_of_unit h.1 h.2
    exact ⟨[c], by rw [ofText_cons, hc]; simp [ofText, utf16Units_eq]⟩
  | case3 u v rest hu ih =>
    intro h
    simp only [wellPaired, hu, ↓reduceIte, Bool.and_eq_true] at h
    obtain ⟨c, hc⟩ := exists_char_of_pair hu h.1
    obtain ⟨t, ht⟩ := ih h.2
    exact ⟨c :: t, by rw [ofText_cons, hc, ht]; simp⟩
  | case4 u v rest hu ih =>
    intro h
    simp only [wellPaired, hu, Bool.false_eq_true, ↓reduceIte, Bool.and_eq_true, Bool.not_eq_true'] at h
    obtain ⟨c, hc⟩ := exists_char_of_unit (by simpa using hu) h.1
    obtain ⟨t, ht⟩ := ih h.2
    exact ⟨c :: t, by rw [ofText_cons, hc, ← ht]; simp⟩

end JsString

end EventGateway
