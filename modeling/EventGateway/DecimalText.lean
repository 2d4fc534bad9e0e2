import Mathlib.Data.Rat.Defs
import Mathlib.Tactic.Ring
import Mathlib.Tactic.Positivity
import EventGateway.Text

namespace EventGateway.Text

def AllDigits (s : Text) : Prop := ∀ c ∈ s, c.isDigit = true

abbrev digitsValue (s : Text) : ℕ := Nat.ofDigitChars 10 s 0

def zeros (n : ℕ) : Text := List.replicate n '0'

theorem AllDigits.append {s t : Text} (hs : AllDigits s) (ht : AllDigits t) : AllDigits (s ++ t) := by
  intro c hc
  rcases List.mem_append.mp hc with h | h
  · exact hs c h
  · exact ht c h

theorem allDigits_zeros (n : ℕ) : AllDigits (zeros n) := by
  intro c hc
  rw [List.eq_of_mem_replicate hc]
  decide

theorem allDigits_toDigits (n : ℕ) : AllDigits (Nat.toDigits 10 n) :=
  fun _ hc => Nat.isDigit_of_mem_toDigits (by decide) (by decide) hc

theorem digit_le {c : Char} (h : c.isDigit = true) : 48 ≤ c.toNat ∧ c.toNat ≤ 57 := by
  simp only [Char.isDigit, Bool.and_eq_true, decide_eq_true_eq, UInt32.le_iff_toNat_le] at h
  exact h

theorem isWhiteSpace_of_digit {c : Char} (h : c.isDigit = true) : isWhiteSpace c = false := by
  have hc := digit_le h
  have hall : ∀ d ∈ (List.range ('9'.toNat + 1 - '0'.toNat)).map (fun n => Char.ofNat ('0'.toNat + n)),
      isWhiteSpace d = false := List.forall_iff_forall_mem.mp (by decide)
  exact hall c (mem_of_between hc.1 hc.2)

theorem digitsValue_cons (c : Char) (s : Text) :
    digitsValue (c :: s) = 10 ^ s.length * (c.toNat - '0'.toNat) + digitsValue s := by
  rw [digitsValue, Nat.ofDigitChars_cons, Nat.ofDigitChars_eq_ofDigitChars_zero]
  simp

theorem digitsValue_append (s t : Text) : digitsValue (s ++ t) = 10 ^ t.length * digitsValue s + digitsValue t := by
  rw [digitsValue, Nat.ofDigitChars_append, Nat.ofDigitChars_eq_ofDigitChars_zero]

theorem digitsValue_append_zeros (s : Text) (n : ℕ) : digitsValue (s ++ zeros n) = 10 ^ n * digitsValue s := by
  rw [digitsValue_append]
  simp [zeros]

theorem digitsValue_zeros_append (s : Text) (n : ℕ) : digitsValue (zeros n ++ s) = digitsValue s := by
  rw [digitsValue_append]
  simp [zeros]

theorem digitsValue_lt {s : Text} (h : AllDigits s) : digitsValue s < 10 ^ s.length := by
  induction s with
  | nil => simp
  | cons c s ih =>
    have hs := ih (fun d hd => h d (by simp [hd]))
    have hc := digit_le (h c (by simp))
    have hd : c.toNat - '0'.toNat ≤ 9 := by
      change c.toNat - 48 ≤ 9
      omega
    rw [digitsValue_cons, List.length_cons, Nat.pow_succ]
    have := Nat.mul_le_mul_left (10 ^ s.length) hd
    omega

theorem digitsValue_inj {s t : Text} (hs : AllDigits s) (ht : AllDigits t) (hl : s.length = t.length)
    (h : digitsValue s = digitsValue t) : s = t := by
  induction s generalizing t with
  | nil => exact (List.length_eq_zero_iff.mp hl.symm).symm
  | cons c s ih =>
    cases t with
    | nil => cases hl
    | cons d t =>
      have hl' : s.length = t.length := by simpa using hl
      have hs' : AllDigits s := fun x hx => hs x (by simp [hx])
      have ht' : AllDigits t := fun x hx => ht x (by simp [hx])
      rw [digitsValue_cons, digitsValue_cons, hl'] at h
      have hslt := digitsValue_lt hs'
      have htlt := digitsValue_lt ht'
      rw [hl'] at hslt
      have hmod : digitsValue s = digitsValue t := by
        have := congrArg (· % 10 ^ t.length) h
        simpa [Nat.mod_eq_of_lt hslt, Nat.mod_eq_of_lt htlt] using this
      have hdiv : c.toNat - '0'.toNat = d.toNat - '0'.toNat := by
        rw [hmod] at h
        exact Nat.eq_of_mul_eq_mul_left (show 0 < 10 ^ t.length by positivity) (Nat.add_right_cancel h)
      have hc := digit_le (hs c (by simp))
      have hd := digit_le (ht d (by simp))
      have hcd : c = d := by
        apply Char.toNat_inj.mp
        change c.toNat - 48 = d.toNat - 48 at hdiv
        omega
      rw [hcd, ih hs' ht' hl' hmod]

theorem toDigits_inj {m n : ℕ} (h : Nat.toDigits 10 m = Nat.toDigits 10 n) : m = n := by
  have := congrArg digitsValue h
  simpa using this

theorem dot_not_mem {s : Text} (h : AllDigits s) : '.' ∉ s := fun hm => by
  have := h '.' hm
  revert this
  decide

theorem split_of_not_mem {sep : Char} {s : Text} (h : sep ∉ s) : split sep s = [s] := by
  induction s with
  | nil => rfl
  | cons c s ih =>
    have hc : c ≠ sep := fun he => h (by simp [he])
    simp [split, hc, ih (fun hm => h (by simp [hm]))]

theorem split_append {sep : Char} {s t : Text} (h : sep ∉ s) : split sep (s ++ sep :: t) = s :: split sep t := by
  induction s with
  | nil => simp [split]
  | cons c s ih =>
    have hc : c ≠ sep := fun he => h (by simp [he])
    simp [split, hc, ih (fun hm => h (by simp [hm]))]

end EventGateway.Text
