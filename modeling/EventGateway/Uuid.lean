import EventGateway.TxHash
import Mathlib.Tactic.Ring

/-!
The `uuid` type of PostgreSQL. Input is read as `string_to_uuid` reads it:
32 hexadecimal digits of either case, optionally in braces, with an optional
hyphen after every fourth digit; output is lowercase with hyphens.
-/

namespace EventGateway

abbrev Uuid := BitVec 128

namespace Uuid

open TxHash (hexDigits)

def hexValue (c : Char) : Option ℕ :=
  let i := hexDigits.idxOf c
  if i < 16 then some i else if i < 22 then some (i - 6) else none

/-- A hyphen may follow a byte when an even positive number of bytes remains. -/
def skipHyphen (left : ℕ) (s : Text) : Text :=
  match s with
  | '-' :: s' => if left % 2 = 0 ∧ 0 < left then s' else s
  | _ => s

def parseBytes : ℕ → ℕ → Text → Option (ℕ × Text)
  | 0, value, s => some (value, s)
  | left + 1, value, hi :: lo :: s =>
    match hexValue hi, hexValue lo with
    | some h, some l => parseBytes left (value * 256 + (h * 16 + l)) (skipHyphen left s)
    | _, _ => none
  | _ + 1, _, _ => none

def parse (s : Text) : Option Uuid :=
  match s with
  | '{' :: s' =>
    match parseBytes 16 0 s' with
    | some (value, ['}']) => some (BitVec.ofNat 128 value)
    | _ => none
  | _ =>
    match parseBytes 16 0 s with
    | some (value, []) => some (BitVec.ofNat 128 value)
    | _ => none

def hexChar (n : ℕ) : Char := hexDigits.getD n '0'

def renderBytes : ℕ → ℕ → Text
  | 0, _ => []
  | left + 1, value =>
    let byte := value / 256 ^ left % 256
    hexChar (byte / 16) :: hexChar (byte % 16) ::
      if left = 12 ∨ left = 10 ∨ left = 8 ∨ left = 6 then '-' :: renderBytes left value else renderBytes left value

def render (id : Uuid) : Text := renderBytes 16 id.toNat

theorem hexValue_hexChar {n : ℕ} (hn : n < 16) : hexValue (hexChar n) = some n :=
  (show ∀ n < 16, hexValue (hexChar n) = some n by decide) n hn

theorem hexChar_ne {n : ℕ} (hn : n < 16) : hexChar n ≠ '-' ∧ hexChar n ≠ '{' :=
  (show ∀ n < 16, hexChar n ≠ '-' ∧ hexChar n ≠ '{' by decide) n hn

theorem renderBytes_head (left value : ℕ) : ∀ s, renderBytes left value ≠ '-' :: s := by
  intro s h
  cases left with
  | zero => cases h
  | succ left =>
    have hc : hexChar (value / 256 ^ left % 256 / 16) = '-' := by
      simp only [renderBytes, List.cons.injEq] at h
      exact h.1
    exact (hexChar_ne (by omega)).1 hc

theorem skipHyphen_renderBytes (n left value : ℕ) : skipHyphen n (renderBytes left value) = renderBytes left value := by
  unfold skipHyphen
  split
  · rename_i s' hs
    exact absurd hs (renderBytes_head left value s')
  · rfl

theorem parseBytes_renderBytes (left acc value : ℕ) (hl : left ≤ 16) :
    parseBytes left acc (renderBytes left value) = some (acc * 256 ^ left + value % 256 ^ left, []) := by
  induction left generalizing acc with
  | zero => simp [parseBytes, renderBytes, Nat.mod_one]
  | succ left ih =>
    have hhi := hexValue_hexChar (n := value / 256 ^ left % 256 / 16) (by omega)
    have hlo := hexValue_hexChar (n := value / 256 ^ left % 256 % 16) (by omega)
    have hrec (acc' : ℕ) := ih acc' (by omega)
    have hvalue : (acc * 256 + (value / 256 ^ left % 256 / 16 * 16 + value / 256 ^ left % 256 % 16)) * 256 ^ left +
        value % 256 ^ left = acc * 256 ^ (left + 1) + value % 256 ^ (left + 1) := by
      have hbyte : value / 256 ^ left % 256 / 16 * 16 + value / 256 ^ left % 256 % 16 = value / 256 ^ left % 256 := by
        omega
      have hmod : value % 256 ^ (left + 1) = value % 256 ^ left + 256 ^ left * (value / 256 ^ left % 256) := by
        rw [pow_succ, Nat.mod_mul]
      rw [hbyte, hmod]
      ring
    simp only [renderBytes, parseBytes, hhi, hlo]
    by_cases hyphen : left = 12 ∨ left = 10 ∨ left = 8 ∨ left = 6
    · have hok : left % 2 = 0 ∧ 0 < left := by omega
      simp only [hyphen, ↓reduceIte, skipHyphen, hok, and_self]
      rw [hrec, hvalue]
    · simp only [hyphen, ↓reduceIte]
      rw [skipHyphen_renderBytes, hrec, hvalue]

theorem parse_render (id : Uuid) : parse (render id) = some id := by
  have hbytes := parseBytes_renderBytes 16 0 id.toNat (le_refl _)
  have hid : 0 * 256 ^ 16 + id.toNat % 256 ^ 16 = id.toNat := by
    have := id.isLt
    omega
  have hbrace : ∀ s, render id ≠ '{' :: s := by
    intro s h
    have hc : hexChar (id.toNat / 256 ^ 15 % 256 / 16) = '{' := by
      simp only [render, renderBytes, List.cons.injEq] at h
      exact h.1
    exact (hexChar_ne (by omega)).2 hc
  unfold parse
  split
  · rename_i s' hs
    exact absurd hs (hbrace s')
  · rw [render, hbytes, hid]
    simp

theorem render_inj {a b : Uuid} (h : render a = render b) : a = b := by
  have hp := congrArg parse h
  rw [parse_render, parse_render] at hp
  exact Option.some.inj hp

end Uuid

end EventGateway
