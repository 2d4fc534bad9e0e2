import EventGateway.PaymentAmount

namespace EventGateway.PaymentAmount

open Text

theorem pow_le_digitsValue {c : Char} {s : Text} (hc : c.isDigit = true) (h0 : c ≠ '0') :
    10 ^ s.length ≤ digitsValue (c :: s) := by
  have hdigit := digit_le hc
  have hne : c.toNat ≠ 48 := fun h => h0 (Char.toNat_inj.mp h)
  have hpos : 1 ≤ c.toNat - '0'.toNat := by
    change 1 ≤ c.toNat - 48
    omega
  rw [digitsValue_cons]
  have := Nat.mul_le_mul_left (10 ^ s.length) hpos
  omega

theorem toDigits_digitsValue {c : Char} {s : Text} (h : AllDigits (c :: s)) (h0 : c ≠ '0') :
    Nat.toDigits 10 (digitsValue (c :: s)) = c :: s := by
  have hlt := digitsValue_lt h
  have hge := pow_le_digitsValue (s := s) (h c (by simp)) h0
  have hle : (Nat.toDigits 10 (digitsValue (c :: s))).length ≤ s.length + 1 :=
    (Nat.length_toDigits_le_iff (by norm_num) (by omega)).mpr hlt
  have hlen : (Nat.toDigits 10 (digitsValue (c :: s))).length = s.length + 1 := by
    have hpos : 0 < (Nat.toDigits 10 (digitsValue (c :: s))).length := Nat.length_toDigits_pos
    by_contra hne
    have hs : 0 < s.length := by omega
    have hle' : (Nat.toDigits 10 (digitsValue (c :: s))).length ≤ s.length := by omega
    have hlt' := (Nat.length_toDigits_le_iff (by norm_num) hs).mp hle'
    omega
  apply digitsValue_inj (allDigits_toDigits _) h
  · rw [hlen, List.length_cons]
  · exact Nat.ofDigitChars_ten_toDigits

def canonicalInteger (integerPart : Text) : Text :=
  match integerPart.dropWhile (· == '0') with
  | [] => integerPart.drop (integerPart.length - 1)
  | c :: cs =>
    if c.isDigit then c :: cs else integerPart.drop (integerPart.length - (c :: cs).length - 1)

theorem canonicalInteger_eq {i : Text} (hi : AllDigits i) (hne : i ≠ []) :
    canonicalInteger i = Nat.toDigits 10 (digitsValue i) := by
  unfold canonicalInteger
  have hvalue := digitsValue_dropWhile_zero i
  split
  · rename_i hd
    rw [hd] at hvalue
    have hzeros : ∀ c ∈ i, c = '0' := by simpa using List.dropWhile_eq_nil_iff.mp hd
    have hrep : i = zeros i.length := List.eq_replicate_of_mem hzeros
    have hpos : 0 < i.length := List.length_pos_iff.mpr hne
    rw [← hvalue, hrep]
    simp only [zeros, List.drop_replicate, List.length_replicate, Nat.ofDigitChars_nil, Nat.toDigits_zero]
    have hone : i.length - (i.length - 1) = 1 := by omega
    rw [hone]
    rfl
  · rename_i c cs hd
    have hall : AllDigits (c :: cs) := by
      intro x hx
      rw [← hd] at hx
      exact hi x ((List.dropWhile_suffix _).subset hx)
    have h0 : c ≠ '0' := by
      have hhead := List.head?_dropWhile_not (· == '0') i
      rw [hd] at hhead
      simpa using hhead
    rw [if_pos (hall c (by simp)), ← hvalue, hd]
    exact (toDigits_digitsValue hall h0).symm

theorem exists_zeros (f : Text) : ∃ n, f = f.rdropWhile (· == '0') ++ zeros n := by
  induction f using List.reverseRecOn with
  | nil => exact ⟨0, rfl⟩
  | append_singleton f c ih =>
    by_cases hc : c = '0'
    · subst hc
      obtain ⟨n, hn⟩ := ih
      refine ⟨n + 1, ?_⟩
      rw [List.rdropWhile_concat_pos _ _ _ (by simp)]
      conv_lhs => rw [hn]
      rw [List.append_assoc, zeros, zeros, List.replicate_succ']
    · refine ⟨0, ?_⟩
      rw [List.rdropWhile_concat_neg _ _ _ (by simpa using hc)]
      simp [zeros]

theorem rdropWhile_append_zeros (f : Text) (n : ℕ) :
    (f ++ zeros n).rdropWhile (· == '0') = f.rdropWhile (· == '0') := by
  induction n with
  | zero => simp [zeros]
  | succ n ih =>
    have hsucc : zeros (n + 1) = zeros n ++ ['0'] := List.replicate_succ'
    rw [hsucc, ← List.append_assoc, List.rdropWhile_concat_pos _ _ _ (by simp), ih]

def plain (i f : Text) : Text := if f.isEmpty then i else i ++ '.' :: f

theorem split_plain {i f : Text} (hi : AllDigits i) (hf : AllDigits f) :
    (split '.' (plain i f)).headD [] = i ∧ (split '.' (plain i f)).getD 1 [] = f ∧ (split '.' (plain i f)).length ≤ 2 := by
  unfold plain
  split_ifs with he
  · have hf' : f = [] := List.isEmpty_iff.mp he
    rw [split_of_not_mem (dot_not_mem hi), hf']
    exact ⟨rfl, rfl, by simp⟩
  · rw [split_append (dot_not_mem hi), split_of_not_mem (dot_not_mem hf)]
    exact ⟨rfl, rfl, by simp⟩

namespace Shape

variable {a i f : Text}

theorem toCanonicalAmount_eq (h : Shape a i f) :
    toCanonicalAmount a = plain (Nat.toDigits 10 (digitsValue i)) (f.rdropWhile (· == '0')) := by
  have hint := canonicalInteger_eq h.integer h.integer_ne
  unfold canonicalInteger at hint
  unfold toCanonicalAmount plain
  simp only [h.head, h.second]
  rw [← hint]
  cases i.dropWhile (· == '0') <;> rfl

theorem canonical (h : Shape a i f) :
    Shape (toCanonicalAmount a) (Nat.toDigits 10 (digitsValue i)) (f.rdropWhile (· == '0')) := by
  obtain ⟨n, hn⟩ := exists_zeros f
  have hf : AllDigits (f.rdropWhile (· == '0')) :=
    fun c hc => h.fraction c ((List.rdropWhile_prefix _ f).subset hc)
  obtain ⟨hhead, hsecond, hparts⟩ := split_plain (allDigits_toDigits (digitsValue i)) hf
  rw [← h.toCanonicalAmount_eq] at hhead hsecond hparts
  refine ⟨allDigits_toDigits _, Nat.toDigits_ne_nil, hf, ?_, hhead, hsecond, hparts, ?_, ?_⟩
  · exact (List.rdropWhile_prefix _ f).length_le.trans h.short
  · rw [digitsValue, Nat.ofDigitChars_ten_toDigits]
    exact h.small
  · rw [digitsValue, Nat.ofDigitChars_ten_toDigits]
    refine h.positive.imp_right (fun hpos => ?_)
    rw [hn, padded_value] at hpos
    exact Nat.pos_of_mul_pos_right hpos

theorem units_canonical (h : Shape a i f) :
    units (Nat.toDigits 10 (digitsValue i)) (f.rdropWhile (· == '0')) = units i f := by
  obtain ⟨n, hn⟩ := exists_zeros f
  have hlen : f.length = (f.rdropWhile (· == '0')).length + n := by
    conv_lhs => rw [hn]
    simp [zeros]
  have hshort := h.short
  have hpow : 18 - (f.rdropWhile (· == '0')).length = n + (18 - f.length) := by omega
  have hvalue : digitsValue f = digitsValue (f.rdropWhile (· == '0')) * 10 ^ n := by
    conv_lhs => rw [hn]
    rw [padded_value]
  unfold units
  rw [hpow, hvalue, digitsValue, Nat.ofDigitChars_ten_toDigits, pow_add, Nat.mul_assoc]

theorem decimalValue_canonical (h : Shape a i f) : decimalValue (toCanonicalAmount a) = decimalValue a := by
  rw [h.canonical.decimalValue_eq, h.decimalValue_eq, h.units_canonical]

end Shape

theorem toCanonicalAmount_inj {a i f b j g : Text} (ha : Shape a i f) (hb : Shape b j g) :
    toCanonicalAmount a = toCanonicalAmount b ↔ decimalValue a = decimalValue b := by
  constructor
  · intro h
    rw [← ha.decimalValue_canonical, ← hb.decimalValue_canonical, h]
  · intro h
    -- equal values have equal digits once the fractions are padded to 18 places
    have hnorm := (normalizeAmount_inj ha hb).mpr h
    rw [ha.normalizeAmount_eq, hb.normalizeAmount_eq] at hnorm
    obtain ⟨hint, hfrac⟩ := List.append_inj' (Option.some.inj hnorm) (by
      simp only [List.length_cons, ha.padded_length, hb.padded_length])
    have hstrip : f.rdropWhile (· == '0') = g.rdropWhile (· == '0') := by
      rw [← rdropWhile_append_zeros f (18 - f.length), (List.cons.inj hfrac).2, rdropWhile_append_zeros]
    rw [ha.toCanonicalAmount_eq, hb.toCanonicalAmount_eq, hint, hstrip]

theorem exists_nonzero {s : Text} (hs : AllDigits s) (h : 0 < digitsValue s) : ∃ c ∈ s, '1' ≤ c ∧ c ≤ '9' := by
  by_contra hnone
  have hzeros : ∀ c ∈ s, c = '0' := by
    intro c hc
    have hdigit := digit_le (hs c hc)
    have hnot : ¬ ('1' ≤ c) := fun hlo => hnone ⟨c, hc, hlo, hdigit.2⟩
    have hlt : c.toNat < 49 := not_le.mp hnot
    apply Char.toNat_inj.mp
    change c.toNat = 48
    omega
  rw [List.eq_replicate_of_mem hzeros, digitsValue, Nat.ofDigitChars_replicate_zero] at h
  omega

theorem toDigits_head (n : ℕ) : Nat.toDigits 10 n = ['0'] ∨ (Nat.toDigits 10 n).head?.any (· != '0') = true := by
  cases hd : Nat.toDigits 10 n with
  | nil => exact absurd hd Nat.toDigits_ne_nil
  | cons c s =>
    by_cases hc : c = '0'
    · left
      -- a leading zero could be dropped, which would leave too few digits for the value
      have hn : digitsValue (c :: s) = n := by rw [← hd]; exact Nat.ofDigitChars_ten_toDigits
      have hall : AllDigits (c :: s) := hd ▸ allDigits_toDigits n
      have hs : digitsValue (c :: s) = digitsValue s := by
        rw [digitsValue_cons, hc]
        simp
      cases s with
      | nil => rw [hc]
      | cons x s =>
        exfalso
        have hlt := digitsValue_lt (s := x :: s) (fun y hy => hall y (List.mem_cons_of_mem c hy))
        rw [← hs, hn] at hlt
        have hle := (Nat.length_toDigits_le_iff (by norm_num) (by simp)).mpr hlt
        rw [hd] at hle
        simp at hle
    · right
      simpa using hc

theorem decimalStringPattern_plain {i f : Text} (hi : AllDigits i) (hf : AllDigits f)
    (hhead : i = ['0'] ∨ i.head?.any (· != '0') = true) : decimalStringPattern (plain i f) = true := by
  have hint : (i == ['0'] || i.head?.any (· != '0')) = true := by
    rw [Bool.or_eq_true, beq_iff_eq]
    exact hhead
  have htake (rest : Text) (hrest : rest.takeWhile Char.isDigit = []) : (i ++ rest).takeWhile Char.isDigit = i := by
    rw [List.takeWhile_append_of_pos hi, hrest, List.append_nil]
  have hdrop (rest : Text) : (i ++ rest).dropWhile Char.isDigit = rest.dropWhile Char.isDigit :=
    List.dropWhile_append_of_pos hi
  have hdot : ('.' : Char).isDigit = false := by decide
  unfold plain
  split_ifs with he
  · have ht := htake [] rfl
    have hd := hdrop []
    rw [List.append_nil] at ht hd
    simp only [decimalStringPattern, ht, hd, List.dropWhile_nil, hint, Bool.and_true]
  · have ht := htake ('.' :: f) (by simp [hdot])
    have hall : f.all Char.isDigit = true := List.all_eq_true.mpr hf
    simp only [decimalStringPattern, ht, hdrop, List.dropWhile_cons, hdot, Bool.false_eq_true, ↓reduceIte, hint, he, hall,
      beq_self_eq_true, Bool.not_false, Bool.and_true]

theorem Shape.isValid_canonical {a i f : Text} (h : Shape a i f) : isValidPaymentAmount (toCanonicalAmount a) = true := by
  have hc := h.canonical
  have hpattern : decimalStringPattern (toCanonicalAmount a) = true := by
    rw [h.toCanonicalAmount_eq]
    exact decimalStringPattern_plain hc.integer hc.fraction (toDigits_head _)
  have hdigits : ((Nat.toDigits 10 (digitsValue i)).dropWhile (· == '0')).length ≤ 18 := by
    have hlen : (Nat.toDigits 10 (digitsValue i)).length ≤ 18 :=
      (Nat.length_toDigits_le_iff (by norm_num) (by norm_num)).mpr h.small
    exact ((List.dropWhile_suffix _).length_le).trans hlen
  simp only [isValidPaymentAmount, hpattern, hc.head, hc.second, numericFractionalDigits, numericIntegerDigits,
    Bool.and_eq_true, decide_eq_true_eq, Bool.or_eq_true, List.any_eq_true]
  exact ⟨trivial, ⟨hc.short, hdigits⟩,
    hc.positive.imp (exists_nonzero hc.integer) (exists_nonzero hc.fraction)⟩

def pg (a : Text) : Option Text := (parseNumeric a).map renderNumeric

theorem amount_codecs {a b : Text} (ha : isValidPaymentAmount a = true) (hb : isValidPaymentAmount b = true) :
    (0 < decimalValue a ∧ ∃ n, parseNumeric a = some n ∧ n.value = decimalValue a) ∧
    ((∃ p, pg a = some p ∧ toCanonicalAmount p = toCanonicalAmount a) ∧
      isValidPaymentAmount (toCanonicalAmount a) = true ∧ decimalValue (toCanonicalAmount a) = decimalValue a ∧
      (toCanonicalAmount a = toCanonicalAmount b ↔ decimalValue a = decimalValue b)) ∧
    ∃ p x y, pg b = some p ∧ normalizeAmount a = some x ∧ normalizeAmount p = some y ∧
      (x = y ↔ decimalValue a = decimalValue b) := by
  obtain ⟨i, f, hs⟩ := shape_of_valid ha
  obtain ⟨j, g, ht⟩ := shape_of_valid hb
  obtain ⟨n, hn, hnv⟩ := parseNumeric_of_valid ha
  obtain ⟨m, hm, hmv⟩ := parseNumeric_of_valid hb
  obtain ⟨f', hrn, -, -⟩ := renderNumeric_shape n
  obtain ⟨g', hrm, -, -⟩ := renderNumeric_shape m
  refine ⟨⟨?_, n, hn, hnv⟩, ⟨⟨renderNumeric n, ?_, ?_⟩, hs.isValid_canonical, hs.decimalValue_canonical, ?_⟩, ?_⟩
  · have hpos : (0 : ℚ) < Shape.units i f := by exact_mod_cast hs.units_pos
    rw [hs.decimalValue_eq]
    positivity
  · rw [pg, hn, Option.map_some]
  · rw [toCanonicalAmount_inj hrn hs, renderNumeric_value, hnv]
  · exact toCanonicalAmount_inj hs ht
  · refine ⟨renderNumeric m, _, _, by rw [pg, hm, Option.map_some], hs.normalizeAmount_eq, hrm.normalizeAmount_eq, ?_⟩
    rw [← Option.some_inj, ← hs.normalizeAmount_eq, ← hrm.normalizeAmount_eq, normalizeAmount_inj hs hrm,
      renderNumeric_value, hmv]

theorem amount_codecs_sample :
    toCanonicalAmount "0.50".toList = "0.5".toList ∧ pg "0.50".toList = some "0.500000000000000000".toList ∧
      ∃ p x y, pg "0.5".toList = some p ∧ normalizeAmount "0.50".toList = some x ∧ normalizeAmount p = some y ∧
        (x = y ↔ decimalValue "0.50".toList = decimalValue "0.5".toList) :=
  ⟨by decide, by decide +kernel, (amount_codecs (by decide) (by decide)).2.2⟩

end EventGateway.PaymentAmount
