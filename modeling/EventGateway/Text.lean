import Mathlib.Data.List.DropRight

/-!
Texts are sequences of Unicode scalar values: the request body guard refuses
unpaired surrogates, and PostgreSQL stores no others.
-/

namespace EventGateway

abbrev Text := List Char

namespace Text

/-- ECMAScript WhiteSpace and LineTerminator, the characters of `String.prototype.trim`. -/
def isWhiteSpace (c : Char) : Bool :=
  c = '\t' || c = '\n' || c = '\x0b' || c = '\x0c' || c = '\r' || c = ' ' || c = '\u00a0' || c = '\u1680' ||
    ('\u2000' ≤ c && c ≤ '\u200a') || c = '\u2028' || c = '\u2029' || c = '\u202f' || c = '\u205f' ||
    c = '\u3000' || c = '\ufeff'

def trimBy (p : Char → Bool) (s : Text) : Text := (s.dropWhile p).rdropWhile p

def trim (s : Text) : Text := trimBy isWhiteSpace s

def toLowerCase (s : Text) : Text := s.map Char.toLower

def split (sep : Char) : Text → List Text
  | [] => [[]]
  | c :: cs =>
    if c = sep then [] :: split sep cs
    else match split sep cs with
      | [] => [[c]]
      | part :: parts => (c :: part) :: parts

theorem trimBy_congr {p q : Char → Bool} (h : ∀ c, p c = q c) (s : Text) : trimBy p s = trimBy q s := by
  rw [show p = q from funext h]

theorem trimBy_eq_self {p : Char → Bool} {s : Text} (h : ∀ c ∈ s, p c = false) : trimBy p s = s := by
  have hd : s.dropWhile p = s := by
    cases s with
    | nil => rfl
    | cons c cs => simp [h c (by simp)]
  rw [trimBy, hd, List.rdropWhile_eq_self_iff]
  intro hs
  simp [h _ (List.getLast_mem hs)]

theorem trimBy_trimBy (p : Char → Bool) (s : Text) : trimBy p (trimBy p s) = trimBy p s := by
  have hd : (trimBy p s).dropWhile p = trimBy p s := by
    rw [List.dropWhile_eq_self_iff]
    intro hl hp
    have hpre : trimBy p s <+: s.dropWhile p := List.rdropWhile_prefix p (s.dropWhile p)
    have hlen : 0 < (s.dropWhile p).length := lt_of_lt_of_le hl hpre.length_le
    have hget : (trimBy p s)[0] = (s.dropWhile p)[0] := hpre.getElem hl
    rw [hget] at hp
    exact List.dropWhile_get_zero_not p s hlen hp
  calc trimBy p (trimBy p s) = ((trimBy p s).dropWhile p).rdropWhile p := rfl
    _ = (trimBy p s).rdropWhile p := by rw [hd]
    _ = trimBy p s := List.rdropWhile_idempotent p _

theorem mem_of_between {c lo hi : Char} (h₁ : lo ≤ c) (h₂ : c ≤ hi) :
    c ∈ (List.range (hi.toNat + 1 - lo.toNat)).map (fun n => Char.ofNat (lo.toNat + n)) := by
  have h₁' : lo.toNat ≤ c.toNat := h₁
  have h₂' : c.toNat ≤ hi.toNat := h₂
  refine List.mem_map.mpr ⟨c.toNat - lo.toNat, List.mem_range.mpr (by omega), ?_⟩
  rw [show lo.toNat + (c.toNat - lo.toNat) = c.toNat by omega]
  exact Char.ofNat_toNat c

end Text

end EventGateway
