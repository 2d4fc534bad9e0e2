import EventGateway.DecimalText
import Mathlib.Algebra.Order.Field.Rat
import Mathlib.Tactic.FieldSimp
import Mathlib.Tactic.NormNum

namespace EventGateway.PaymentAmount

open Text

def numericIntegerDigits : ℕ := 18

def numericFractionalDigits : ℕ := 18

/-- `/^(?:0|[1-9]\d*)(?:\.\d+)?$/` -/
def decimalStringPattern (s : Text) : Bool :=
  let integer := s.takeWhile Char.isDigit
  (integer == ['0'] || integer.head?.any (· != '0')) &&
    match s.dropWhile Char.isDigit with
    | [] => true
    | c :: fraction => c == '.' && !fraction.isEmpty && fraction.all Char.isDigit

def isValidPaymentAmount (value : Text) : Bool :=
  decimalStringPattern value &&
    let parts := split '.' value
    let integerPart := parts.headD []
    let fractionalPart := parts.getD 1 []
    decide (fractionalPart.length ≤ numericFractionalDigits) &&
      decide ((integerPart.dropWhile (· == '0')).length ≤ numericIntegerDigits) &&
      (integerPart.any (fun c => decide ('1' ≤ c) && decide (c ≤ '9')) ||
        fractionalPart.any (fun c => decide ('1' ≤ c) && decide (c ≤ '9')))

def toCanonicalAmount (amount : Text) : Text :=
  let parts := split '.' amount
  let integerPart := parts.headD []
  let fractionalPart := parts.getD 1 []
  let stripped := integerPart.dropWhile (· == '0')
  -- `/^0+(?=\d)/` keeps the last zero when no digit follows it
  let integer := match stripped with
    | [] => integerPart.drop (integerPart.length - 1)
    | c :: _ => if c.isDigit then stripped else integerPart.drop (integerPart.length - stripped.length - 1)
  let fraction := fractionalPart.rdropWhile (· == '0')
  if fraction.isEmpty then integer else integer ++ '.' :: fraction

def decimalLiteral (ds : Text) : Option ℤ :=
  if ds.isEmpty || !ds.all Char.isDigit then none else some (digitsValue ds)

def digitIn (radix : ℕ) (c : Char) : Option ℕ :=
  let d := if c.isDigit then c.toNat - '0'.toNat else if c.toLower.isAlpha then c.toLower.toNat - 'a'.toNat + 10 else radix
  if d < radix then some d else none

def radixLiteral (radix : ℕ) (ds : Text) : Option ℤ :=
  if ds.isEmpty then none
  else (ds.foldlM (fun acc c => (digitIn radix c).map (acc * radix + ·)) 0).map Int.ofNat

/-- `StringToBigInt`: white space is trimmed, nothing left is zero, and a sign needs decimal digits. -/
def bigInt (text : Text) : Option ℤ :=
  match trim text with
  | [] => some 0
  | '-' :: ds => (decimalLiteral ds).map (- ·)
  | '+' :: ds => decimalLiteral ds
  | '0' :: 'x' :: ds => radixLiteral 16 ds
  | '0' :: 'X' :: ds => radixLiteral 16 ds
  | '0' :: 'o' :: ds => radixLiteral 8 ds
  | '0' :: 'O' :: ds => radixLiteral 8 ds
  | '0' :: 'b' :: ds => radixLiteral 2 ds
  | '0' :: 'B' :: ds => radixLiteral 2 ds
  | ds => decimalLiteral ds

def integerText : ℤ → Text
  | .ofNat n => Nat.toDigits 10 n
  | .negSucc n => '-' :: Nat.toDigits 10 (n + 1)

/-- `none` where `BigInt` throws a `SyntaxError`. -/
def normalizeAmount (amount : Text) : Option Text :=
  let parts := split '.' amount
  let integerPart := parts.headD []
  let fractionalPart := parts.getD 1 []
  (bigInt integerPart).map (fun n => integerText n ++ '.' :: (fractionalPart ++ zeros 18).take 18)

/-- A value of `numeric(36, 18)` under the check `amount > 0`, in units of its last digit. -/
structure Numeric where
  units : ℕ
  positive : 0 < units
  fits : units < 10 ^ 36
deriving DecidableEq

def Numeric.ofUnits (n : ℕ) : Option Numeric :=
  if h : 0 < n ∧ n < 10 ^ 36 then some ⟨n, h.1, h.2⟩ else none

theorem Numeric.ofUnits_eq {n : ℕ} (h₁ : 0 < n) (h₂ : n < 10 ^ 36) : Numeric.ofUnits n = some ⟨n, h₁, h₂⟩ :=
  dif_pos ⟨h₁, h₂⟩

/-- The cast of a plain decimal text, rounded half away from zero at 18 fractional digits. -/
def parseNumeric (text : Text) : Option Numeric :=
  let parts := split '.' text
  let integerPart := parts.headD []
  let fractionalPart := parts.getD 1 []
  if parts.length ≤ 2 && !(integerPart ++ fractionalPart).isEmpty && (integerPart ++ fractionalPart).all Char.isDigit then
    let kept := digitsValue ((fractionalPart ++ zeros 18).take 18)
    let carry := if (fractionalPart.getD 18 '0').toNat ≥ '5'.toNat then 1 else 0
    Numeric.ofUnits (digitsValue integerPart * 10 ^ 18 + kept + carry)
  else none

def renderNumeric (n : Numeric) : Text :=
  let fraction := Nat.toDigits 10 (n.units % 10 ^ 18)
  Nat.toDigits 10 (n.units / 10 ^ 18) ++ '.' :: (zeros (18 - fraction.length) ++ fraction)

def decimalValue (text : Text) : ℚ :=
  let parts := split '.' text
  let fractionalPart := parts.getD 1 []
  digitsValue (parts.headD []) + digitsValue fractionalPart / 10 ^ fractionalPart.length

def Numeric.value (n : Numeric) : ℚ := n.units / 10 ^ 18

structure Shape (a i f : Text) : Prop where
  integer : AllDigits i
  integer_ne : i ≠ []
  fraction : AllDigits f
  short : f.length ≤ 18
  head : (split '.' a).headD [] = i
  second : (split '.' a).getD 1 [] = f
  parts : (split '.' a).length ≤ 2
  small : digitsValue i < 10 ^ 18
  positive : 0 < digitsValue i ∨ 0 < digitsValue f

theorem digitsValue_pos {s : Text} (hs : AllDigits s) (h : ∃ c ∈ s, '1' ≤ c ∧ c ≤ '9') : 0 < digitsValue s := by
  induction s with
  | nil => obtain ⟨c, hc, _⟩ := h; cases hc
  | cons c s ih =>
    rw [digitsValue_cons]
    obtain ⟨d, hd, hlo, hhi⟩ := h
    rcases List.mem_cons.mp hd with rfl | hd
    · have hlo' : 49 ≤ d.toNat := hlo
      have : 0 < d.toNat - '0'.toNat := by change 0 < d.toNat - 48; omega
      positivity
    · have := ih (fun x hx => hs x (by simp [hx])) ⟨d, hd, hlo, hhi⟩
      omega

theorem digitsValue_dropWhile_zero (s : Text) : digitsValue (s.dropWhile (· == '0')) = digitsValue s := by
  induction s with
  | nil => rfl
  | cons c s ih =>
    by_cases hc : c = '0'
    · subst hc
      rw [digitsValue_cons]
      simpa using ih
    · simp [hc]

theorem split_of_pattern {a : Text} (h : decimalStringPattern a = true) :
    ∃ i f, AllDigits i ∧ i ≠ [] ∧ AllDigits f ∧ (split '.' a = [i] ∧ f = [] ∨ split '.' a = [i, f]) := by
  simp only [decimalStringPattern, Bool.and_eq_true] at h
  obtain ⟨hint, hrest⟩ := h
  have hi : AllDigits (a.takeWhile Char.isDigit) := fun c hc => List.mem_takeWhile_imp hc
  have hne : a.takeWhile Char.isDigit ≠ [] := by
    intro he
    simp [he] at hint
  have happ : a.takeWhile Char.isDigit ++ a.dropWhile Char.isDigit = a := List.takeWhile_append_dropWhile
  cases hd : a.dropWhile Char.isDigit with
  | nil =>
    rw [hd, List.append_nil] at happ
    refine ⟨a.takeWhile Char.isDigit, [], hi, hne, by simp [AllDigits], Or.inl ⟨?_, rfl⟩⟩
    rw [happ, split_of_not_mem]
    rw [← happ]
    exact dot_not_mem hi
  | cons c f =>
    simp only [hd, Bool.and_eq_true, beq_iff_eq] at hrest
    obtain ⟨⟨rfl, _⟩, hf⟩ := hrest
    have hf' : AllDigits f := by simpa [AllDigits] using hf
    refine ⟨a.takeWhile Char.isDigit, f, hi, hne, hf', Or.inr ?_⟩
    conv_lhs => rw [← happ, hd]
    rw [split_append (dot_not_mem hi), split_of_not_mem (dot_not_mem hf')]

theorem shape_of_valid {a : Text} (h : isValidPaymentAmount a = true) : ∃ i f, Shape a i f := by
  simp only [isValidPaymentAmount, Bool.and_eq_true, decide_eq_true_eq, Bool.or_eq_true, List.any_eq_true,
    numericFractionalDigits, numericIntegerDigits] at h
  obtain ⟨hpat, ⟨hshort, hdig⟩, hpos⟩ := h
  obtain ⟨i, f, hi, hne, hf, hsplit⟩ := split_of_pattern hpat
  have hhead : (split '.' a).headD [] = i := by rcases hsplit with ⟨hs, _⟩ | hs <;> simp [hs]
  have hsecond : (split '.' a).getD 1 [] = f := by rcases hsplit with ⟨hs, he⟩ | hs <;> simp [*]
  have hparts : (split '.' a).length ≤ 2 := by rcases hsplit with ⟨hs, _⟩ | hs <;> simp [hs]
  rw [hhead] at hdig hpos
  rw [hsecond] at hshort hpos
  have hsmall : digitsValue i < 10 ^ 18 := by
    have hd : AllDigits (i.dropWhile (· == '0')) := fun c hc => hi c ((List.dropWhile_suffix _).subset hc)
    calc digitsValue i = digitsValue (i.dropWhile (· == '0')) := (digitsValue_dropWhile_zero i).symm
      _ < 10 ^ (i.dropWhile (· == '0')).length := digitsValue_lt hd
      _ ≤ 10 ^ 18 := Nat.pow_le_pow_right (by norm_num) (of_decide_eq_true hdig)
  refine ⟨i, f, hi, hne, hf, of_decide_eq_true hshort, hhead, hsecond, hparts, hsmall, ?_⟩
  exact hpos.imp (digitsValue_pos hi) (digitsValue_pos hf)

namespace Shape

variable {a i f : Text}

def units (i f : Text) : ℕ := digitsValue i * 10 ^ 18 + digitsValue f * 10 ^ (18 - f.length)

theorem padded (h : Shape a i f) : (f ++ zeros 18).take 18 = f ++ zeros (18 - f.length) := by
  rw [List.take_append, List.take_of_length_le h.short, zeros, List.take_replicate]
  congr 2
  omega

theorem padded_value (f : Text) (n : ℕ) : digitsValue (f ++ zeros n) = digitsValue f * 10 ^ n := by
  rw [digitsValue_append_zeros, Nat.mul_comm]

theorem padded_length (h : Shape a i f) : (f ++ zeros (18 - f.length)).length = 18 := by
  have := h.short
  simp only [List.length_append, zeros, List.length_replicate]
  omega

theorem fraction_lt (h : Shape a i f) : digitsValue f * 10 ^ (18 - f.length) < 10 ^ 18 := by
  have := digitsValue_lt (h.fraction.append (allDigits_zeros (18 - f.length)))
  rwa [padded_value, h.padded_length] at this

theorem units_pos (h : Shape a i f) : 0 < units i f := by
  have hp : 0 < 10 ^ (18 - f.length) := by positivity
  unfold units
  rcases h.positive with hi | hf
  · positivity
  · positivity

theorem units_lt (h : Shape a i f) : units i f < 10 ^ 36 := by
  have hf := h.fraction_lt
  have hi := h.small
  unfold units
  omega

theorem div_pow_eq (d : ℚ) {l n : ℕ} (h : l ≤ n) : d / 10 ^ l = d * 10 ^ (n - l) / 10 ^ n := by
  have hs : (10 : ℚ) ^ n = 10 ^ l * 10 ^ (n - l) := by rw [← pow_add, Nat.add_sub_cancel' h]
  rw [hs, mul_div_mul_right _ _ (by positivity)]

theorem decimalValue_eq (h : Shape a i f) : decimalValue a = (units i f : ℚ) / 10 ^ 18 := by
  simp only [decimalValue, h.head, h.second, units]
  rw [div_pow_eq _ h.short]
  push_cast
  ring

theorem parseNumeric_eq (h : Shape a i f) : parseNumeric a = some ⟨units i f, h.units_pos, h.units_lt⟩ := by
  have hall : (i ++ f).all Char.isDigit = true := List.all_eq_true.mpr (h.integer.append h.fraction)
  have hget : f.getD 18 '0' = '0' := by
    rw [List.getD_eq_getElem?_getD, List.getElem?_eq_none h.short]
    rfl
  have hne : (i ++ f).isEmpty = false := by simp [h.integer_ne]
  have hcarry : ¬ ('0' : Char).toNat ≥ ('5' : Char).toNat := by decide
  simp only [parseNumeric, h.head, h.second, h.parts, hall, hne, h.padded, padded_value, hget, if_neg hcarry,
    decide_true, Bool.not_false, Bool.and_true, ↓reduceIte, Nat.add_zero]
  exact Numeric.ofUnits_eq h.units_pos h.units_lt

theorem bigInt_eq (h : Shape a i f) : bigInt i = some (digitsValue i : ℤ) := by
  have htrim : trim i = i := trimBy_eq_self (fun c hc => isWhiteSpace_of_digit (h.integer c hc))
  have hnot (c : Char) (hc : c.isDigit = false) : c ∉ i := fun hm => by simp [h.integer c hm] at hc
  unfold bigInt
  rw [htrim]
  split
  · exact absurd rfl h.integer_ne
  · exact absurd (by simp) (hnot '-' (by decide))
  · exact absurd (by simp) (hnot '+' (by decide))
  · exact absurd (by simp) (hnot 'x' (by decide))
  · exact absurd (by simp) (hnot 'X' (by decide))
  · exact absurd (by simp) (hnot 'o' (by decide))
  · exact absurd (by simp) (hnot 'O' (by decide))
  · exact absurd (by simp) (hnot 'b' (by decide))
  · exact absurd (by simp) (hnot 'B' (by decide))
  · have hall : i.all Char.isDigit = true := List.all_eq_true.mpr h.integer
    simp [decimalLiteral, h.integer_ne, hall]

theorem normalizeAmount_eq (h : Shape a i f) : normalizeAmount a =
    some (Nat.toDigits 10 (digitsValue i) ++ '.' :: (f ++ zeros (18 - f.length))) := by
  simp only [normalizeAmount, h.head, h.second, h.bigInt_eq, h.padded, Option.map_some]
  rfl

end Shape

theorem renderNumeric_shape (n : Numeric) : ∃ f, Shape (renderNumeric n) (Nat.toDigits 10 (n.units / 10 ^ 18)) f ∧
    f.length = 18 ∧ digitsValue f = n.units % 10 ^ 18 := by
  let d := Nat.toDigits 10 (n.units % 10 ^ 18)
  let f := zeros (18 - d.length) ++ d
  have hmod : n.units % 10 ^ 18 < 10 ^ 18 := Nat.mod_lt _ (by positivity)
  have hd : d.length ≤ 18 := (Nat.length_toDigits_le_iff (by norm_num) (by norm_num)).mpr hmod
  have hf : AllDigits f := (allDigits_zeros _).append (allDigits_toDigits _)
  have hlen : f.length = 18 := by
    simp only [f, List.length_append, zeros, List.length_replicate]
    omega
  have hval : digitsValue f = n.units % 10 ^ 18 := by
    simp only [f, digitsValue_zeros_append, d, digitsValue, Nat.ofDigitChars_ten_toDigits]
  have hi := allDigits_toDigits (n.units / 10 ^ 18)
  have hsplit : split '.' (renderNumeric n) = [Nat.toDigits 10 (n.units / 10 ^ 18), f] := by
    change split '.' (Nat.toDigits 10 (n.units / 10 ^ 18) ++ '.' :: f) = _
    rw [split_append (dot_not_mem hi), split_of_not_mem (dot_not_mem hf)]
  refine ⟨f, ⟨hi, Nat.toDigits_ne_nil, hf, hlen.le, by simp [hsplit], by simp [hsplit], by simp [hsplit], ?_, ?_⟩, hlen, hval⟩
  · rw [digitsValue, Nat.ofDigitChars_ten_toDigits]
    have := n.fits
    omega
  · rw [hval, digitsValue, Nat.ofDigitChars_ten_toDigits]
    have := n.positive
    omega

theorem renderNumeric_units {n : Numeric} {f : Text} (hl : f.length = 18) (hv : digitsValue f = n.units % 10 ^ 18) :
    Shape.units (Nat.toDigits 10 (n.units / 10 ^ 18)) f = n.units := by
  simp only [Shape.units, hl, hv, digitsValue, Nat.ofDigitChars_ten_toDigits, Nat.sub_self, pow_zero, mul_one]
  omega

theorem normalizeAmount_inj {a i f b j g : Text} (ha : Shape a i f) (hb : Shape b j g) :
    normalizeAmount a = normalizeAmount b ↔ decimalValue a = decimalValue b := by
  rw [ha.normalizeAmount_eq, hb.normalizeAmount_eq, ha.decimalValue_eq, hb.decimalValue_eq]
  have hfa := ha.fraction_lt
  have hfb := hb.fraction_lt
  constructor
  · intro h
    obtain ⟨hint, hfrac⟩ := List.append_inj' (Option.some.inj h) (by
      simp only [List.length_cons, ha.padded_length, hb.padded_length])
    have hi : digitsValue i = digitsValue j := toDigits_inj hint
    have hf := congrArg digitsValue (List.cons.inj hfrac).2
    rw [Shape.padded_value, Shape.padded_value] at hf
    simp only [Shape.units, hi, hf]
  · intro h
    have hunits : Shape.units i f = Shape.units j g := by
      have := mul_right_cancel₀ (b := ((10 : ℚ) ^ 18)⁻¹) (by positivity) (by simpa only [div_eq_mul_inv] using h)
      exact_mod_cast this
    unfold Shape.units at hunits
    have hi : digitsValue i = digitsValue j := by omega
    have hf : digitsValue f * 10 ^ (18 - f.length) = digitsValue g * 10 ^ (18 - g.length) := by omega
    have hfrac : f ++ zeros (18 - f.length) = g ++ zeros (18 - g.length) := by
      apply digitsValue_inj (ha.fraction.append (allDigits_zeros _)) (hb.fraction.append (allDigits_zeros _))
      · rw [ha.padded_length, hb.padded_length]
      · rw [Shape.padded_value, Shape.padded_value, hf]
    rw [hi, hfrac]

theorem renderNumeric_value (n : Numeric) : decimalValue (renderNumeric n) = n.value := by
  obtain ⟨f, hs, hl, hv⟩ := renderNumeric_shape n
  rw [hs.decimalValue_eq, renderNumeric_units hl hv, Numeric.value]

theorem normalizeAmount_eq_iff {a : Text} (ha : isValidPaymentAmount a = true) (n : Numeric) :
    normalizeAmount a = normalizeAmount (renderNumeric n) ↔ decimalValue a = n.value := by
  obtain ⟨i, f, hs⟩ := shape_of_valid ha
  obtain ⟨g, hr, _⟩ := renderNumeric_shape n
  rw [normalizeAmount_inj hs hr, renderNumeric_value]

theorem parseNumeric_of_valid {a : Text} (ha : isValidPaymentAmount a = true) :
    ∃ n, parseNumeric a = some n ∧ n.value = decimalValue a := by
  obtain ⟨i, f, hs⟩ := shape_of_valid ha
  exact ⟨_, hs.parseNumeric_eq, hs.decimalValue_eq.symm⟩

end EventGateway.PaymentAmount
