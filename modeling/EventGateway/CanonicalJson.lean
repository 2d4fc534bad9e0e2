import EventGateway.Text
import Mathlib.Algebra.Group.Nat.Defs
import Mathlib.Data.List.Lex
import Mathlib.Data.List.Sort
import Mathlib.Data.Rat.Defs

/-!
JSON values as `JSON.parse` builds them, and the canonical text that is hashed.
The entries of an object stand in the order in which JavaScript enumerates them.
-/

namespace EventGateway

inductive JsNumber
  | finite (value : ℚ)
  | negativeZero
  | infinity (negative : Bool)
deriving DecidableEq

inductive Json
  | null
  | bool (b : Bool)
  | num (n : JsNumber)
  | str (s : Text)
  | arr (items : List Json)
  | obj (entries : List (Text × Json))

abbrev JsonObject := List (Text × Json)

def JsonObject.field (o : JsonObject) (name : String) : Option Json :=
  (o.find? (fun e => e.1 = name.toList)).map Prod.snd

def JsonObject.text (o : JsonObject) (name : String) : Option Text :=
  match o.field name with
  | some (.str s) => some s
  | _ => none

abbrev Bytes := List UInt8

/-- What the code takes from Node and from the language runtime. -/
structure Runtime where
  numberToString : ℚ → Text
  toISOString : ℤ → Text
  sha256Hex : Text → Text
  hmacSha256Hex : Text → Bytes → Text

namespace CanonicalJson

def utf16Units (s : Text) : List ℕ :=
  s.flatMap (fun c =>
    if c.toNat < 0x10000 then [c.toNat]
    else [0xd800 + (c.toNat - 0x10000) / 0x400, 0xdc00 + (c.toNat - 0x10000) % 0x400])

/-- The order of `Array.prototype.sort`: by UTF-16 code units. -/
def KeyLe (a b : Text) : Prop := utf16Units a ≤ utf16Units b

instance : DecidableRel KeyLe := fun a b => inferInstanceAs (Decidable (utf16Units a ≤ utf16Units b))

/-- Array index keys, which every object enumerates first, in ascending order. -/
def arrayIndex (key : Text) : Option ℕ :=
  let n := Nat.ofDigitChars 10 key 0
  if key.all Char.isDigit && key = Nat.toDigits 10 n && n < 2 ^ 32 - 1 then some n else none

def enumerated (entries : JsonObject) : JsonObject :=
  (entries.filter (fun e => (arrayIndex e.1).isSome)).insertionSort
      (fun a b => (arrayIndex a.1).getD 0 ≤ (arrayIndex b.1).getD 0) ++
    entries.filter (fun e => (arrayIndex e.1).isNone)

/-- Assigning the sorted keys one by one to `{}`: an assignment to `__proto__` creates no property. -/
def fromSorted (entries : JsonObject) : JsonObject :=
  enumerated ((entries.insertionSort (fun a b => KeyLe a.1 b.1)).filter (fun e => e.1 ≠ "__proto__".toList))

mutual
def canonicalizeJsonValue : Json → Json
  | .arr items => .arr (canonicalizeItems items)
  | .obj entries => .obj (fromSorted (canonicalizeEntries entries))
  | value => value

def canonicalizeItems : List Json → List Json
  | [] => []
  | item :: items => canonicalizeJsonValue item :: canonicalizeItems items

def canonicalizeEntries : JsonObject → JsonObject
  | [] => []
  | (key, value) :: entries => (key, canonicalizeJsonValue value) :: canonicalizeEntries entries
end

def hexDigit (n : ℕ) : Char := "0123456789abcdef".toList.getD n '0'

def escape (c : Char) : Text :=
  if c = '"' then ['\\', '"']
  else if c = '\\' then ['\\', '\\']
  else if c = '\x08' then ['\\', 'b']
  else if c = '\t' then ['\\', 't']
  else if c = '\n' then ['\\', 'n']
  else if c = '\x0c' then ['\\', 'f']
  else if c = '\r' then ['\\', 'r']
  else if c.toNat < 0x20 then ['\\', 'u', '0', '0', hexDigit (c.toNat / 16), hexDigit (c.toNat % 16)]
  else [c]

def quote (s : Text) : Text := '"' :: s.flatMap escape ++ ['"']

variable (rt : Runtime)

def numberText : JsNumber → Text
  | .finite q => rt.numberToString q
  | .negativeZero => ['0']
  | .infinity _ => "null".toList

mutual
def stringify : Json → Text
  | .null => "null".toList
  | .bool true => "true".toList
  | .bool false => "false".toList
  | .num n => numberText rt n
  | .str s => quote s
  | .arr items => '[' :: (List.intercalate [','] (stringifyItems items) ++ [']'])
  | .obj entries => '{' :: (List.intercalate [','] (stringifyEntries entries) ++ ['}'])

def stringifyItems : List Json → List Text
  | [] => []
  | item :: items => stringify item :: stringifyItems items

def stringifyEntries : JsonObject → List Text
  | [] => []
  | (key, value) :: entries => (quote key ++ ':' :: stringify value) :: stringifyEntries entries
end

def serializeCanonicalJson (value : Json) : Text := stringify rt (canonicalizeJsonValue value)

def hashCanonicalJson (value : Json) : Text := rt.sha256Hex (serializeCanonicalJson rt value)

end CanonicalJson

end EventGateway
