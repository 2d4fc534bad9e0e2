import EventGateway.JsStrings
import EventGateway.PaymentAmount
import EventGateway.PropertyOrder
import Mathlib.Tactic.NormNum

namespace EventGateway

open JsonPrinting

abbrev JsValue := Tree JsString JsNumber

def IsDouble (q : ℚ) : Prop := ∃ m e : ℤ, |m| < 2 ^ 53 ∧ -1074 ≤ e ∧ e ≤ 971 ∧ q = m * 2 ^ e

namespace JsNumber

def normalized : JsNumber → JsNumber
  | .negativeZero => .finite 0
  | n => n

def Same (n m : JsNumber) : Prop := n.normalized = m.normalized

def IsFinite : JsNumber → Prop
  | .finite q => IsDouble q
  | .negativeZero => True
  | .infinity _ => False

end JsNumber

structure Runtime.PrintsNumbers (rt : Runtime) : Prop where
  zero : rt.numberToString 0 = ['0']
  nonempty : ∀ {q}, IsDouble q → rt.numberToString q ≠ []
  numeric : ∀ {q}, IsDouble q → ∀ c ∈ rt.numberToString q, c ∈ Printer.numeric
  injective : ∀ {p q}, IsDouble p → IsDouble q → rt.numberToString p = rt.numberToString q → p = q

theorem isDouble_zero : IsDouble 0 := ⟨0, 0, by norm_num, by norm_num, by norm_num, by norm_num⟩

section Numbers

variable {rt : Runtime} (h : rt.PrintsNumbers)

include h

theorem numberText_ne_nil {n : JsNumber} (hn : n.IsFinite) : CanonicalJson.numberText rt n ≠ [] := by
  cases n with
  | finite q => exact h.nonempty hn
  | negativeZero => simp [CanonicalJson.numberText]
  | infinity b => exact hn.elim

theorem numberText_numeric {n : JsNumber} (hn : n.IsFinite) :
    ∀ c ∈ CanonicalJson.numberText rt n, c ∈ Printer.numeric := by
  cases n with
  | finite q => exact h.numeric hn
  | negativeZero =>
    intro c hc
    rw [List.mem_singleton.mp hc]
    decide
  | infinity b => exact hn.elim

theorem numberText_eq_iff {n m : JsNumber} (hn : n.IsFinite) (hm : m.IsFinite) :
    CanonicalJson.numberText rt n = CanonicalJson.numberText rt m ↔ n.Same m := by
  cases n with
  | infinity b => exact hn.elim
  | finite p =>
    cases m with
    | infinity b => exact hm.elim
    | finite q =>
      simp only [CanonicalJson.numberText, JsNumber.Same, JsNumber.normalized, JsNumber.finite.injEq]
      exact ⟨h.injective hn hm, congrArg _⟩
    | negativeZero =>
      simp only [CanonicalJson.numberText, JsNumber.Same, JsNumber.normalized, JsNumber.finite.injEq]
      rw [← h.zero]
      exact ⟨h.injective hn isDouble_zero, congrArg _⟩
  | negativeZero =>
    cases m with
    | infinity b => exact hm.elim
    | finite q =>
      simp only [CanonicalJson.numberText, JsNumber.Same, JsNumber.normalized, JsNumber.finite.injEq]
      rw [← h.zero]
      exact ⟨h.injective isDouble_zero hm, congrArg _⟩
    | negativeZero => simp [JsNumber.Same]

end Numbers

namespace JsString

def unit (c : Char) : UInt16 := UInt16.ofNat c.toNat

def ofString (s : String) : JsString := ofText s.toList

def unicodeEscape (u : UInt16) : JsString :=
  [unit '\\', unit 'u', unit (CanonicalJson.hexDigit (u.toNat / 4096)), unit (CanonicalJson.hexDigit (u.toNat / 256 % 16)),
    unit (CanonicalJson.hexDigit (u.toNat / 16 % 16)), unit (CanonicalJson.hexDigit (u.toNat % 16))]

def escapeUnit (u : UInt16) : JsString :=
  if isHighSurrogate u || isLowSurrogate u then unicodeEscape u
  else if u.toNat < 0x80 then (CanonicalJson.escape (Char.ofNat u.toNat)).map unit
  else [u]

def quoteBody : JsString → JsString
  | [] => []
  | [u] => escapeUnit u
  | u :: v :: rest =>
    if isHighSurrogate u && isLowSurrogate v then u :: v :: quoteBody rest
    else escapeUnit u ++ quoteBody (v :: rest)

def quote (s : JsString) : JsString := unit '"' :: (quoteBody s ++ [unit '"'])

def KeyLe (a b : JsString) : Prop := a.map UInt16.toNat ≤ b.map UInt16.toNat

instance : DecidableRel KeyLe := fun a b => inferInstanceAs (Decidable (a.map UInt16.toNat ≤ b.map UInt16.toNat))

instance : Std.Total KeyLe := ⟨fun a b => le_total (a.map UInt16.toNat) (b.map UInt16.toNat)⟩

instance : IsTrans JsString KeyLe := ⟨fun _ _ _ h h' => le_trans h h'⟩

instance : Std.Antisymm KeyLe :=
  ⟨fun _ _ h h' => List.map_injective_iff.mpr (fun _ _ hu => UInt16.toNat_inj.mp hu) (le_antisymm h h')⟩

def arrayIndex (key : JsString) : Option ℕ :=
  if key.all (fun u => u.toNat < 0x80) then CanonicalJson.arrayIndex (key.map (fun u => Char.ofNat u.toNat)) else none

def tokens : JsString → List JsString
  | [] => []
  | [u] => [escapeUnit u]
  | u :: v :: rest =>
    if isHighSurrogate u && isLowSurrogate v then [u, v] :: tokens rest else escapeUnit u :: tokens (v :: rest)

theorem quoteBody_eq (s : JsString) : quoteBody s = (tokens s).flatten := by
  induction s using quoteBody.induct with
  | case1 => rfl
  | case2 u => simp [quoteBody, tokens]
  | case3 u v rest h ih => simp [quoteBody, tokens, h, ih]
  | case4 u v rest h ih => simp [quoteBody, tokens, h, ih]

def unhex (u : UInt16) : ℕ := ("0123456789abcdef".toList.map unit).idxOf u

def shortEscapes : List (UInt16 × UInt16) :=
  [('"', '"'), ('\\', '\\'), ('b', '\x08'), ('t', '\t'), ('n', '\n'), ('f', '\x0c'), ('r', '\r')].map
    (fun e => (unit e.1, unit e.2))

def unescape : JsString → Option UInt16
  | [u] => some u
  | [_, c] => shortEscapes.lookup c
  | [_, _, a, b, c, d] => some (UInt16.ofNat (unhex a * 4096 + unhex b * 256 + unhex c * 16 + unhex d))
  | _ => none

abbrev Token : JsString → Prop :=
  IsToken (unit '"') (unit '\\') (unit 'u') (fun u => isHighSurrogate u = true)

def isToken : JsString → Bool
  | [u] => u ≠ unit '"' && u ≠ unit '\\' && !isHighSurrogate u
  | [a, c] => a = unit '\\' && c ≠ unit 'u'
  | [a, b, _, _, _, _] => a = unit '\\' && b = unit 'u'
  | _ => false

theorem token_of_isToken {t : JsString} (h : isToken t = true) : Token t := by
  unfold isToken at h
  split at h
  · simp only [ne_eq, decide_not, Bool.and_eq_true, Bool.not_eq_true', decide_eq_false_iff_not] at h
    exact .plain h.1.1 h.1.2 (by simp [h.2])
  · simp only [ne_eq, decide_not, Bool.and_eq_true, Bool.not_eq_true', decide_eq_false_iff_not, decide_eq_true_eq] at h
    rw [h.1]
    exact .short h.2
  · simp only [Bool.and_eq_true, decide_eq_true_eq] at h
    rw [h.1, h.2]
    exact .code _ _ _ _
  · cases h

theorem unhex_hexDigit {n : ℕ} (h : n < 16) : unhex (unit (CanonicalJson.hexDigit n)) = n :=
  (show ∀ n < 16, unhex (unit (CanonicalJson.hexDigit n)) = n by decide) n h

theorem unescape_unicodeEscape (u : UInt16) : unescape (unicodeEscape u) = some u := by
  have hlt := u.toNat_lt
  simp only [unicodeEscape, unescape]
  rw [unhex_hexDigit (by omega), unhex_hexDigit (by omega), unhex_hexDigit (by omega), unhex_hexDigit (by omega),
    show u.toNat / 4096 * 4096 + u.toNat / 256 % 16 * 256 + u.toNat / 16 % 16 * 16 + u.toNat % 16 = u.toNat by omega,
    UInt16.ofNat_toNat]

theorem ascii_escape : ∀ n < 0x80, isToken ((CanonicalJson.escape (Char.ofNat n)).map unit) = true ∧
    unescape ((CanonicalJson.escape (Char.ofNat n)).map unit) = some (UInt16.ofNat n) := by
  decide +kernel

theorem escapeUnit_spec (u : UInt16) : isToken (escapeUnit u) = true ∧ unescape (escapeUnit u) = some u := by
  unfold escapeUnit
  split_ifs with hs ha
  · exact ⟨by simp [unicodeEscape, isToken], unescape_unicodeEscape u⟩
  · obtain ⟨ht, hu⟩ := ascii_escape u.toNat ha
    rw [UInt16.ofNat_toNat] at hu
    exact ⟨ht, hu⟩
  · refine ⟨?_, rfl⟩
    have hne {c : Char} (hc : c.toNat < 0x80) : u ≠ unit c := by
      intro he
      rw [he, unit, toNat_ofNat_unit (by omega)] at ha
      exact ha hc
    simp only [Bool.or_eq_true, not_or, Bool.not_eq_true] at hs
    simp [isToken, hne (c := '"') (by decide), hne (c := '\\') (by decide), hs.1]

theorem token_of_mem_tokens {s t : JsString} (h : t ∈ tokens s) : Token t := by
  have hescape (u : UInt16) : Token (escapeUnit u) := token_of_isToken (escapeUnit_spec u).1
  have hpair {u v : UInt16} (hu : isHighSurrogate u = true) : Token [u, v] := by
    have hne {c : Char} (hc : isHighSurrogate (unit c) = false) : u ≠ unit c := by
      rintro rfl
      rw [hc] at hu
      cases hu
    exact .pair (hne (by decide)) (hne (by decide)) hu
  induction s using tokens.induct with
  | case1 => cases h
  | case2 u =>
    rw [tokens, List.mem_singleton] at h
    exact h ▸ hescape u
  | case3 u v rest hp ih =>
    rw [tokens, if_pos hp] at h
    rcases List.mem_cons.mp h with rfl | h
    · exact hpair (by simp at hp; exact hp.1)
    · exact ih h
  | case4 u v rest hp ih =>
    rw [tokens, if_neg hp] at h
    rcases List.mem_cons.mp h with rfl | h
    · exact hescape u
    · exact ih h

def untoken (t : JsString) : JsString :=
  if t.head?.any isHighSurrogate then t else (unescape t).toList

theorem untoken_escapeUnit (u : UInt16) : untoken (escapeUnit u) = [u] := by
  have hhead : (escapeUnit u).head?.any isHighSurrogate = false := by
    have ht := token_of_isToken (escapeUnit_spec u).1
    cases he : escapeUnit u with
    | nil => rfl
    | cons a t =>
      rw [he] at ht
      cases ht with
      | plain _ _ hl => simpa using hl
      | pair _ _ hl =>
        have hspec := (escapeUnit_spec u).1
        simp only [he, isToken, Bool.and_eq_true, decide_eq_true_eq] at hspec
        rw [hspec.1] at hl
        exact absurd hl (by decide)
      | short _ => exact (show isHighSurrogate (unit '\\') = false by decide)
      | code _ _ _ _ => exact (show isHighSurrogate (unit '\\') = false by decide)
  simp [untoken, hhead, (escapeUnit_spec u).2]

theorem flatMap_untoken (s : JsString) : (tokens s).flatMap untoken = s := by
  induction s using tokens.induct with
  | case1 => rfl
  | case2 u => simp [tokens, untoken_escapeUnit]
  | case3 u v rest h ih =>
    have hu : isHighSurrogate u = true := by
      simp only [Bool.and_eq_true] at h
      exact h.1
    rw [tokens, if_pos h, List.flatMap_cons, ih]
    simp [untoken, hu]
  | case4 u v rest h ih =>
    rw [tokens, if_neg h, List.flatMap_cons, ih, untoken_escapeUnit]
    rfl

theorem map_unit_inj {s t : Text} (hs : ∀ c ∈ s, c ∈ Printer.numeric) (ht : ∀ c ∈ t, c ∈ Printer.numeric)
    (h : s.map unit = t.map unit) : s = t := by
  have hback {s : Text} (hs : ∀ c ∈ s, c ∈ Printer.numeric) : (s.map unit).map (fun u => Char.ofNat u.toNat) = s := by
    rw [List.map_map]
    conv_rhs => rw [← List.map_id s]
    apply List.map_congr_left
    intro c hc
    exact List.forall_iff_forall_mem.mp
      (show List.Forall (fun c => Char.ofNat (unit c).toNat = c) Printer.numeric by decide) c (hs c hc)
  rw [← hback hs, ← hback ht, h]

theorem quote_inj {s t x y : JsString} (h : quote s ++ x = quote t ++ y) : s = t ∧ x = y := by
  simp only [quote, List.cons_append, List.append_assoc, List.nil_append, List.cons.injEq, true_and, quoteBody_eq] at h
  obtain ⟨htokens, hxy⟩ := flatten_read (by decide) (fun _ ht => token_of_mem_tokens ht)
    (fun _ ht => token_of_mem_tokens ht) h
  refine ⟨?_, hxy⟩
  rw [← flatMap_untoken s, ← flatMap_untoken t, htokens]

end JsString

namespace JsValue

def proto : JsString := JsString.ofString "__proto__"

def fromSorted (entries : List (JsString × JsValue)) : List (JsString × JsValue) :=
  enumerate JsString.arrayIndex
    ((entries.insertionSort (fun a b => JsString.KeyLe a.1 b.1)).filter (fun e => e.1 ≠ proto))

def canonicalizeJsonValue : JsValue → JsValue := canonicalize fromSorted

def printer (rt : Runtime) : Printer JsString JsNumber UInt16 where
  lit := JsString.unit
  quote := JsString.quote
  number n := (CanonicalJson.numberText rt n).map JsString.unit

def serializeCanonicalJson (rt : Runtime) (value : JsValue) : JsString := (printer rt).print (canonicalizeJsonValue value)

def arrangement : Arrangement JsString JsValue :=
  sortedProperties JsString.KeyLe JsString.arrayIndex (fun k => k ≠ proto)

def WellFormed (value : JsValue) : Prop := Tree.WellFormed JsNumber.IsFinite (fun k => k ≠ proto) value

def Same (u v : JsValue) : Prop := Tree.Same JsNumber.Same u v

theorem printer_readable {rt : Runtime} (h : rt.PrintsNumbers) : (printer rt).Readable JsNumber.IsFinite JsNumber.Same where
  lit_inj {c d} hc hd := by
    have hall : List.Forall (fun c => List.Forall (fun d => JsString.unit c = JsString.unit d → c = d) Printer.format)
        Printer.format := by decide
    exact List.forall_iff_forall_mem.mp (List.forall_iff_forall_mem.mp hall c hc) d hd
  quote_head _ := ⟨_, rfl⟩
  quote_inj := JsString.quote_inj
  number_ne hn := by
    simpa [printer] using numberText_ne_nil h hn
  number_numeric hn c hc := by
    obtain ⟨d, hd, rfl⟩ := List.mem_map.mp hc
    exact ⟨d, numberText_numeric h hn d hd, rfl⟩
  number_eq {n m} hn hm := by
    rw [← numberText_eq_iff h hn hm]
    exact ⟨JsString.map_unit_inj (numberText_numeric h hn) (numberText_numeric h hm), congrArg _⟩

theorem WellFormed.allowed {v : JsValue} (h : v.WellFormed) :
    Tree.WellFormed JsNumber.IsFinite arrangement.Allowed v :=
  Tree.WellFormed.mono (fun _ hn => hn) (fun _ hk => decide_eq_true hk) h

theorem canonical_invariant {rt : Runtime} (h : rt.PrintsNumbers) {u v : JsValue} (hu : u.WellFormed) (hv : v.WellFormed) :
    serializeCanonicalJson rt u = serializeCanonicalJson rt v ↔ u.Same v := by
  have hiff : (printer rt).print (canonicalize arrangement.arrange u) =
      (printer rt).print (canonicalize arrangement.arrange v) ↔ Tree.Same JsNumber.Same u v :=
    Printer.print_eq_iff (printer_readable h) hu.allowed hv.allowed
  exact hiff

end JsValue

namespace Sample

def numberToString (q : ℚ) : Text :=
  PaymentAmount.integerText q.num ++ (if q.den = 1 then [] else 'e' :: Nat.toDigits 10 q.den)

theorem integerText_mem (n : ℤ) : ∀ c ∈ PaymentAmount.integerText n, c = '-' ∨ c.isDigit = true := by
  intro c hc
  cases n with
  | ofNat n => exact Or.inr (Text.allDigits_toDigits n c hc)
  | negSucc n =>
    rcases List.mem_cons.mp hc with rfl | hc
    · exact Or.inl rfl
    · exact Or.inr (Text.allDigits_toDigits (n + 1) c hc)

theorem integerText_inj {m n : ℤ} (h : PaymentAmount.integerText m = PaymentAmount.integerText n) : m = n := by
  have hne (m n : ℕ) : Nat.toDigits 10 m ≠ '-' :: Nat.toDigits 10 n := by
    intro he
    have hd := Text.allDigits_toDigits m '-' (by rw [he]; simp)
    cases hd
  cases m with
  | ofNat m =>
    cases n with
    | ofNat n => rw [Text.toDigits_inj h]
    | negSucc n => exact absurd h (hne m (n + 1))
  | negSucc m =>
    cases n with
    | ofNat n => exact absurd h.symm (hne n (m + 1))
    | negSucc n =>
      have hmn := Text.toDigits_inj (List.cons.inj h).2
      rw [show m = n by omega]

theorem numeric_of_digit {c : Char} (h : c.isDigit = true) : c ∈ Printer.numeric := by
  have hc := Text.digit_le h
  have hall : ∀ d ∈ (List.range ('9'.toNat + 1 - '0'.toNat)).map (fun n => Char.ofNat ('0'.toNat + n)),
      d ∈ Printer.numeric := List.forall_iff_forall_mem.mp (by decide)
  exact hall c (Text.mem_of_between hc.1 hc.2)

def printing (sha256Hex : Text → Text) : Runtime := ⟨numberToString, fun _ => [], sha256Hex, fun _ _ => []⟩

theorem printing_printsNumbers (sha256Hex : Text → Text) : (printing sha256Hex).PrintsNumbers where
  zero := show numberToString 0 = ['0'] by decide
  nonempty {q} _ := by
    have hne : PaymentAmount.integerText q.num ≠ [] := by
      cases q.num with
      | ofNat n => simp [PaymentAmount.integerText]
      | negSucc n => simp [PaymentAmount.integerText]
    simp [printing, numberToString, hne]
  numeric {q} _ c hc := by
    rcases List.mem_append.mp hc with hc | hc
    · rcases integerText_mem q.num c hc with rfl | hd
      · decide
      · exact numeric_of_digit hd
    · split_ifs at hc with h1
      · cases hc
      · rcases List.mem_cons.mp hc with rfl | hc
        · decide
        · exact numeric_of_digit (Text.allDigits_toDigits _ c hc)
  injective {p q} _ _ h := by
    have hhead (q : ℚ) (c : Char) (rest : Text)
        (hc : (if q.den = 1 then [] else 'e' :: Nat.toDigits 10 q.den) = c :: rest) : ¬ (c = '-' ∨ c.isDigit = true) := by
      split_ifs at hc
      rw [← (List.cons.inj hc).1]
      decide
    obtain ⟨hnum, hden⟩ := Printer.eq_of_append_eq (integerText_mem p.num) (integerText_mem q.num) (hhead p) (hhead q) h
    apply Rat.ext (integerText_inj hnum)
    split_ifs at hden with hp hq
    · rw [hp, hq]
    · exact Text.toDigits_inj (List.cons.inj hden).2

end Sample

namespace JsValue

theorem canonical_invariant_sample :
    let u : JsValue := .obj [(JsString.ofString "b", .num (.finite 10)),
      (JsString.ofString "9", .arr [.str [0xd83d], .num .negativeZero])]
    let v : JsValue := .obj [(JsString.ofString "9", .arr [.str [0xd83d], .num (.finite 0)]),
      (JsString.ofString "b", .num (.finite 10))]
    serializeCanonicalJson (Sample.printing id) u = serializeCanonicalJson (Sample.printing id) v := by
  have hten : IsDouble 10 := ⟨10, 0, by norm_num, by norm_num, by norm_num, by norm_num⟩
  intro u v
  apply (canonical_invariant (Sample.printing_printsNumbers id) ?_ ?_).mpr
  · refine ⟨[(JsString.ofString "b", .num (.finite 10)),
      (JsString.ofString "9", .arr [.str [0xd83d], .num (.finite 0)])], List.Perm.swap _ _ _, ?_⟩
    simp [Tree.SameEntries, Tree.Same, Tree.SameItems, JsNumber.Same, JsNumber.normalized]
  · refine ⟨by decide, ?_⟩
    simp only [Tree.WellFormedEntries, Tree.WellFormed, Tree.WellFormedItems, JsNumber.IsFinite, hten, and_true]
    decide
  · refine ⟨by decide, ?_⟩
    simp only [Tree.WellFormedEntries, Tree.WellFormed, Tree.WellFormedItems, JsNumber.IsFinite, hten, isDouble_zero,
      and_true]
    decide

end JsValue

end EventGateway
