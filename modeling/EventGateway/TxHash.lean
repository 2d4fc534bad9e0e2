import EventGateway.CanonicalJson
import Mathlib.Data.List.Flatten

namespace EventGateway.TxHash

open Text

def hexDigits : List Char := "0123456789abcdefABCDEF".toList

def isHexDigit (c : Char) : Bool := hexDigits.contains c

/-- `/^0x[0-9a-f]+$/i` -/
def hexTxHashPattern : Text → Bool
  | zero :: x :: digits => zero = '0' && (x = 'x' || x = 'X') && !digits.isEmpty && digits.all isHexDigit
  | _ => false

def normalizeTxHash (txHash : Text) : Text :=
  let trimmed := trim txHash
  if hexTxHashPattern trimmed then toLowerCase trimmed else trimmed

/-- `JS_WHITESPACE` of the migration, as `U&'...'` spells it. -/
def jsWhitespace : List Char :=
  [' ', '\u0009', '\u000a', '\u000b', '\u000c', '\u000d', '\u00a0', '\u1680', '\u2000', '\u2001', '\u2002', '\u2003',
    '\u2004', '\u2005', '\u2006', '\u2007', '\u2008', '\u2009', '\u200a', '\u2028', '\u2029', '\u202f', '\u205f',
    '\u3000', '\ufeff']

def btrim (s : Text) (characters : List Char) : Text := trimBy characters.contains s

/-- `~ '^0[xX][0-9a-fA-F]+$'` -/
def sqlHexPattern (s : Text) : Bool :=
  match s with
  | zero :: x :: d :: ds => zero = '0' && ['x', 'X'].contains x && (d :: ds).all isHexDigit
  | _ => false

def canonicalConfirmedTxHashSql (confirmedTxHash : Text) : Text :=
  let trimmed := btrim confirmedTxHash jsWhitespace
  if sqlHexPattern trimmed then trimmed.map Char.toLower else trimmed

theorem jsWhitespace_contains (c : Char) : jsWhitespace.contains c = isWhiteSpace c := by
  rw [Bool.eq_iff_iff, List.contains_iff_mem]
  constructor
  · intro h
    exact List.forall_iff_forall_mem.mp (show List.Forall (fun c => isWhiteSpace c = true) jsWhitespace by decide) c h
  · intro h
    simp only [isWhiteSpace, Bool.or_eq_true, Bool.and_eq_true, decide_eq_true_eq] at h
    have hspaces : ∀ d ∈ (List.range ('\u200a'.toNat + 1 - '\u2000'.toNat)).map (fun n => Char.ofNat ('\u2000'.toNat + n)),
        d ∈ jsWhitespace := List.forall_iff_forall_mem.mp (by decide)
    have hrange : '\u2000' ≤ c ∧ c ≤ '\u200a' → c ∈ jsWhitespace := fun hc => hspaces c (mem_of_between hc.1 hc.2)
    have hother : ¬ ('\u2000' ≤ c ∧ c ≤ '\u200a') → c ∈ jsWhitespace := by
      intro hn
      simp only [hn, or_false] at h
      rcases h with ((((((((((((h | h) | h) | h) | h) | h) | h) | h) | h) | h) | h) | h) | h) | h <;>
        subst h <;> decide
    exact (em _).elim hrange hother

theorem sqlHexPattern_eq (s : Text) : sqlHexPattern s = hexTxHashPattern s := by
  rcases s with _ | ⟨zero, _ | ⟨x, _ | ⟨d, ds⟩⟩⟩ <;> simp [sqlHexPattern, hexTxHashPattern]

theorem canonicalConfirmedTxHashSql_eq (s : Text) : canonicalConfirmedTxHashSql s = normalizeTxHash s := by
  have ht : btrim s jsWhitespace = trim s := trimBy_congr jsWhitespace_contains s
  simp only [canonicalConfirmedTxHashSql, normalizeTxHash, ht, sqlHexPattern_eq, toLowerCase]

theorem hexDigit_lower {c : Char} (h : isHexDigit c = true) :
    isHexDigit c.toLower = true ∧ isWhiteSpace c.toLower = false ∧ c.toLower.toLower = c.toLower := by
  have hall : ∀ c ∈ hexDigits, isHexDigit c.toLower = true ∧ isWhiteSpace c.toLower = false ∧
      c.toLower.toLower = c.toLower := List.forall_iff_forall_mem.mp (by decide)
  exact hall c (by simpa [isHexDigit] using h)

theorem hexTxHashPattern_lower {s : Text} (h : hexTxHashPattern s = true) :
    hexTxHashPattern (toLowerCase s) = true ∧ (∀ c ∈ toLowerCase s, isWhiteSpace c = false) ∧
      toLowerCase (toLowerCase s) = toLowerCase s := by
  rcases s with _ | ⟨zero, _ | ⟨x, ds⟩⟩
  · cases h
  · cases h
  · simp only [hexTxHashPattern, Bool.and_eq_true, Bool.or_eq_true, decide_eq_true_eq] at h
    obtain ⟨⟨⟨rfl, hx⟩, hne⟩, hds⟩ := h
    have hx' : x.toLower = 'x' := by rcases hx with rfl | rfl <;> decide
    have hd : ∀ c ∈ ds, isHexDigit c = true := by simpa using hds
    simp only [toLowerCase, List.map_cons, hx', show ('0' : Char).toLower = '0' by decide]
    refine ⟨?_, ?_, ?_⟩
    · simp only [hexTxHashPattern, decide_true, Bool.true_or, Bool.true_and, Bool.and_eq_true]
      refine ⟨by simpa using hne, ?_⟩
      simpa using fun c hc => (hexDigit_lower (hd c hc)).1
    · intro c hc
      rcases List.mem_cons.mp hc with rfl | hc
      · decide
      rcases List.mem_cons.mp hc with rfl | hc
      · decide
      obtain ⟨d, hd', rfl⟩ := List.mem_map.mp hc
      exact (hexDigit_lower (hd d hd')).2.1
    · simp only [List.map_map, List.cons.injEq, true_and, show ('x' : Char).toLower = 'x' by decide]
      apply List.map_congr_left
      intro c hc
      exact (hexDigit_lower (hd c hc)).2.2

theorem normalizeTxHash_idempotent (s : Text) : normalizeTxHash (normalizeTxHash s) = normalizeTxHash s := by
  by_cases h : hexTxHashPattern (trim s) = true
  · obtain ⟨hp, hw, hl⟩ := hexTxHashPattern_lower h
    have hn : normalizeTxHash s = toLowerCase (trim s) := by simp [normalizeTxHash, h]
    rw [hn]
    have ht : trim (toLowerCase (trim s)) = toLowerCase (trim s) := trimBy_eq_self hw
    simp only [normalizeTxHash, ht, hp, ↓reduceIte, hl]
  · have hn : normalizeTxHash s = trim s := by simp [normalizeTxHash, h]
    rw [hn]
    have ht : trim (trim s) = trim s := trimBy_trimBy _ s
    simp [normalizeTxHash, ht, h]

theorem normalizeTxHash_of_hex {s : Text} (h : hexTxHashPattern (trim s) = true) :
    normalizeTxHash s = toLowerCase (trim s) := by
  simp only [normalizeTxHash, h, ↓reduceIte]

theorem normalizeTxHash_of_not_hex {s : Text} (h : ¬ hexTxHashPattern (trim s) = true) : normalizeTxHash s = trim s := by
  simp only [normalizeTxHash, if_neg h]

theorem trim_sublist (s : Text) : (trim s).Sublist s := by
  have hleft : (s.dropWhile isWhiteSpace).Sublist s := (List.dropWhile_suffix isWhiteSpace).sublist
  have hright : (trim s).Sublist (s.dropWhile isWhiteSpace) := (List.rdropWhile_prefix isWhiteSpace _).sublist
  exact hright.trans hleft

theorem length_normalizeTxHash_le (s : Text) : (normalizeTxHash s).length ≤ s.length := by
  have htrim := (trim_sublist s).length_le
  by_cases h : hexTxHashPattern (trim s) = true
  · rwa [normalizeTxHash_of_hex h, toLowerCase, List.length_map]
  · rwa [normalizeTxHash_of_not_hex h]

theorem utf16Length_toLowerCase {s : Text} (h : hexTxHashPattern s = true) :
    (CanonicalJson.utf16Units (toLowerCase s)).length = (CanonicalJson.utf16Units s).length := by
  rcases s with _ | ⟨zero, _ | ⟨x, ds⟩⟩
  · rfl
  · cases h
  simp only [hexTxHashPattern, Bool.and_eq_true, Bool.or_eq_true, decide_eq_true_eq] at h
  obtain ⟨⟨⟨rfl, hx⟩, -⟩, hds⟩ := h
  have hall : ∀ c ∈ 'x' :: 'X' :: '0' :: hexDigits, c.toNat < 0x10000 ∧ c.toLower.toNat < 0x10000 :=
    List.forall_iff_forall_mem.mp (by decide)
  have hunits : ∀ c ∈ '0' :: x :: ds, c.toNat < 0x10000 ∧ c.toLower.toNat < 0x10000 := by
    intro c hc
    apply hall
    rcases List.mem_cons.mp hc with rfl | hc
    · decide
    rcases List.mem_cons.mp hc with rfl | hc
    · rcases hx with rfl | rfl <;> decide
    · have hdigit : isHexDigit c = true := List.all_eq_true.mp hds c hc
      have hmem : c ∈ hexDigits := by simpa [isHexDigit] using hdigit
      simp [hmem]
  simp only [CanonicalJson.utf16Units, toLowerCase, List.flatMap_map, List.length_flatMap]
  congr 1
  apply List.map_congr_left
  intro c hc
  simp [hunits c hc]

theorem utf16Length_normalizeTxHash_le (s : Text) :
    (CanonicalJson.utf16Units (normalizeTxHash s)).length ≤ (CanonicalJson.utf16Units s).length := by
  have htrim : (CanonicalJson.utf16Units (trim s)).length ≤ (CanonicalJson.utf16Units s).length :=
    ((trim_sublist s).flatMap _).length_le
  by_cases h : hexTxHashPattern (trim s) = true
  · rwa [normalizeTxHash_of_hex h, utf16Length_toLowerCase h]
  · rwa [normalizeTxHash_of_not_hex h]

theorem normalizeTxHash_eq_iff (s t : Text) : normalizeTxHash s = normalizeTxHash t ↔ trim s = trim t ∨
    hexTxHashPattern (trim s) = true ∧ hexTxHashPattern (trim t) = true ∧ toLowerCase (trim s) = toLowerCase (trim t) := by
  constructor
  · intro h
    by_cases hs : hexTxHashPattern (trim s) = true <;> by_cases ht : hexTxHashPattern (trim t) = true
    · rw [normalizeTxHash_of_hex hs, normalizeTxHash_of_hex ht] at h
      exact Or.inr ⟨hs, ht, h⟩
    · -- the lowercased hash would still be hexadecimal
      rw [normalizeTxHash_of_hex hs, normalizeTxHash_of_not_hex ht] at h
      rw [← h] at ht
      exact absurd (hexTxHashPattern_lower hs).1 ht
    · rw [normalizeTxHash_of_not_hex hs, normalizeTxHash_of_hex ht] at h
      rw [h] at hs
      exact absurd (hexTxHashPattern_lower ht).1 hs
    · rw [normalizeTxHash_of_not_hex hs, normalizeTxHash_of_not_hex ht] at h
      exact Or.inl h
  · rintro (h | ⟨hs, ht, h⟩)
    · simp only [normalizeTxHash, h]
    · rw [normalizeTxHash_of_hex hs, normalizeTxHash_of_hex ht, h]

theorem normalizers_agree :
    (∀ s, canonicalConfirmedTxHashSql s = normalizeTxHash s) ∧
    (∀ s, normalizeTxHash (normalizeTxHash s) = normalizeTxHash s) ∧
    (∀ s, (normalizeTxHash s).length ≤ s.length ∧
      (CanonicalJson.utf16Units (normalizeTxHash s)).length ≤ (CanonicalJson.utf16Units s).length) ∧
    ∀ s t, normalizeTxHash s = normalizeTxHash t ↔ trim s = trim t ∨
      hexTxHashPattern (trim s) = true ∧ hexTxHashPattern (trim t) = true ∧
        toLowerCase (trim s) = toLowerCase (trim t) :=
  ⟨canonicalConfirmedTxHashSql_eq, normalizeTxHash_idempotent,
    fun s => ⟨length_normalizeTxHash_le s, utf16Length_normalizeTxHash_le s⟩, normalizeTxHash_eq_iff⟩

end EventGateway.TxHash
