import EventGateway.CanonicalJsValue

namespace EventGateway

open JsonPrinting

mutual
def Json.tree : Json → Tree Text JsNumber
  | .null => .null
  | .bool b => .bool b
  | .num n => .num n
  | .str s => .str s
  | .arr items => .arr (Json.trees items)
  | .obj entries => .obj (Json.entryTrees entries)

def Json.trees : List Json → List (Tree Text JsNumber)
  | [] => []
  | item :: items => item.tree :: Json.trees items

def Json.entryTrees : JsonObject → List (Text × Tree Text JsNumber)
  | [] => []
  | (key, value) :: entries => (key, value.tree) :: Json.entryTrees entries
end

def Json.Same (u v : Json) : Prop := Tree.Same JsNumber.Same u.tree v.tree

def Json.WellFormed (v : Json) : Prop := Tree.WellFormed JsNumber.IsFinite (fun k => k ≠ "__proto__".toList) v.tree

namespace CanonicalJson

abbrev Token : Text → Prop := IsToken '"' '\\' 'u' (fun _ => False)

def isToken : Text → Bool
  | [c] => c ≠ '"' && c ≠ '\\'
  | [a, c] => a = '\\' && c ≠ 'u'
  | [a, b, _, _, _, _] => a = '\\' && b = 'u'
  | _ => false

theorem token_of_isToken {t : Text} (h : isToken t = true) : Token t := by
  unfold isToken at h
  split at h
  · simp only [ne_eq, decide_not, Bool.and_eq_true, Bool.not_eq_true', decide_eq_false_iff_not] at h
    exact .plain h.1 h.2 (fun hf => hf)
  · simp only [ne_eq, decide_not, Bool.and_eq_true, Bool.not_eq_true', decide_eq_false_iff_not, decide_eq_true_eq] at h
    rw [h.1]
    exact .short h.2
  · simp only [Bool.and_eq_true, decide_eq_true_eq] at h
    rw [h.1, h.2]
    exact .code _ _ _ _
  · cases h

theorem ascii_escape : ∀ n < 0x80, isToken (escape (Char.ofNat n)) = true ∧
    (escape (Char.ofNat n)).Forall (fun c => c.toNat < 0x80) ∧
    JsString.unescape ((escape (Char.ofNat n)).map JsString.unit) = some (UInt16.ofNat n) := by
  -- below the first character that is never escaped, all cases by evaluation
  decide +kernel

theorem escape_eq_self {c : Char} (h : 0x80 ≤ c.toNat) : escape c = [c] := by
  have hne {d : Char} (hd : d.toNat < 0x80) : c ≠ d := by
    rintro rfl
    omega
  simp only [escape, hne (d := '"') (by decide), hne (d := '\\') (by decide), hne (d := '\x08') (by decide),
    hne (d := '\t') (by decide), hne (d := '\n') (by decide), hne (d := '\x0c') (by decide),
    hne (d := '\r') (by decide), show ¬ c.toNat < 0x20 by omega, ↓reduceIte]

theorem token_escape (c : Char) : Token (escape c) := by
  by_cases hc : c.toNat < 0x80
  · have h := (ascii_escape c.toNat hc).1
    rw [Char.ofNat_toNat] at h
    exact token_of_isToken h
  · have hne {d : Char} (hd : d.toNat < 0x80) : c ≠ d := by
      rintro rfl
      exact hc hd
    rw [escape_eq_self (not_lt.mp hc)]
    exact .plain (hne (by decide)) (hne (by decide)) (fun hf => hf)

theorem toNat_lt_of_mem_escape {c d : Char} (hc : c.toNat < 0x80) (hd : d ∈ escape c) : d.toNat < 0x80 := by
  have h := (ascii_escape c.toNat hc).2.1
  rw [Char.ofNat_toNat] at h
  exact List.forall_iff_forall_mem.mp h d hd

theorem escape_injective : Function.Injective escape := by
  intro c d h
  by_cases hc : c.toNat < 0x80
  · by_cases hd : d.toNat < 0x80
    · have hc' := (ascii_escape c.toNat hc).2.2
      have hd' := (ascii_escape d.toNat hd).2.2
      rw [Char.ofNat_toNat] at hc' hd'
      rw [h, hd', Option.some.injEq, ← UInt16.toNat_inj, JsString.toNat_ofNat_unit (by omega),
        JsString.toNat_ofNat_unit (by omega)] at hc'
      exact Char.toNat_inj.mp hc'.symm
    · rw [escape_eq_self (not_lt.mp hd)] at h
      exact absurd (toNat_lt_of_mem_escape hc (by rw [h]; simp)) hd
  · rw [escape_eq_self (not_lt.mp hc)] at h
    by_cases hd : d.toNat < 0x80
    · exact absurd (toNat_lt_of_mem_escape hd (by rw [← h]; simp)) hc
    · rw [escape_eq_self (not_lt.mp hd)] at h
      exact (List.cons.inj h).1

theorem quote_inj {s t x y : Text} (h : quote s ++ x = quote t ++ y) : s = t ∧ x = y := by
  simp only [quote, List.cons_append, List.append_assoc, List.nil_append, List.cons.injEq, true_and,
    List.flatMap_def] at h
  have htoken (s : Text) : ∀ t ∈ s.map escape, Token t := by
    intro t ht
    obtain ⟨c, _, rfl⟩ := List.mem_map.mp ht
    exact token_escape c
  obtain ⟨htokens, hxy⟩ := flatten_read (by decide) (htoken s) (htoken t) h
  exact ⟨escape_injective.list_map htokens, hxy⟩

def printer (rt : Runtime) : Printer Text JsNumber Char := ⟨id, quote, numberText rt⟩

theorem printer_readable {rt : Runtime} (h : rt.PrintsNumbers) : (printer rt).Readable JsNumber.IsFinite JsNumber.Same where
  lit_inj _ _ hcd := hcd
  quote_head _ := ⟨_, rfl⟩
  quote_inj := quote_inj
  number_ne := numberText_ne_nil h
  number_numeric hn c hc := ⟨c, numberText_numeric h hn c hc, rfl⟩
  number_eq := numberText_eq_iff h

instance : Std.Total KeyLe := ⟨fun a b => le_total (utf16Units a) (utf16Units b)⟩

instance : IsTrans Text KeyLe := ⟨fun _ _ _ h h' => le_trans h h'⟩

instance : Std.Antisymm KeyLe := ⟨fun _ _ h h' => JsString.utf16Units_injective (le_antisymm h h')⟩

def arrangement : Arrangement Text (Tree Text JsNumber) :=
  sortedProperties KeyLe arrayIndex (fun k => k ≠ "__proto__".toList)

theorem joined_eq (rt : Runtime) (ts : List Text) : (printer rt).joined ts = List.intercalate [','] ts := by
  cases ts with
  | nil => rfl
  | cons t ts =>
    simp only [Printer.joined, printer, id_eq]
    induction ts generalizing t with
    | nil => simp
    | cons u ts ih => rw [List.intercalate_cons_cons, ← ih]; simp

theorem entryTrees_eq (entries : JsonObject) : Json.entryTrees entries = entries.map (fun e => (e.1, e.2.tree)) := by
  induction entries with
  | nil => rfl
  | cons e entries ih => simp [Json.entryTrees, ih]

theorem entryTrees_fromSorted (entries : JsonObject) :
    Json.entryTrees (fromSorted entries) = arrangement.arrange (Json.entryTrees entries) := by
  have hentries : List.Forall₂ (SameKeys (fun v t => Json.tree v = t)) entries (Json.entryTrees entries) := by
    rw [entryTrees_eq, List.forall₂_map_right_iff]
    exact List.forall₂_same.mpr (fun _ _ => ⟨rfl, rfl⟩)
  have harranged := forall₂_sortedProperties KeyLe arrayIndex (fun k => k ≠ "__proto__".toList) hentries
  rw [entryTrees_eq, ← List.forall₂_eq_eq_eq, List.forall₂_map_left_iff]
  exact harranged.imp (fun _ _ h => Prod.ext h.1 h.2)

mutual
theorem tree_canonicalizeJsonValue : ∀ v : Json, (canonicalizeJsonValue v).tree = canonicalize arrangement.arrange v.tree
  | .null => rfl
  | .bool _ => rfl
  | .num _ => rfl
  | .str _ => rfl
  | .arr items => by
    simp only [canonicalizeJsonValue, Json.tree, canonicalize, trees_canonicalizeItems items]
  | .obj entries => by
    simp only [canonicalizeJsonValue, Json.tree, canonicalize, entryTrees_fromSorted,
      entryTrees_canonicalizeEntries entries]

theorem trees_canonicalizeItems : ∀ items : List Json,
    Json.trees (canonicalizeItems items) = JsonPrinting.canonicalizeItems arrangement.arrange (Json.trees items)
  | [] => rfl
  | item :: items => by
    simp only [canonicalizeItems, Json.trees, JsonPrinting.canonicalizeItems, tree_canonicalizeJsonValue item,
      trees_canonicalizeItems items]

theorem entryTrees_canonicalizeEntries : ∀ entries : JsonObject,
    Json.entryTrees (canonicalizeEntries entries) =
      JsonPrinting.canonicalizeEntries arrangement.arrange (Json.entryTrees entries)
  | [] => rfl
  | (key, value) :: entries => by
    simp only [canonicalizeEntries, Json.entryTrees, JsonPrinting.canonicalizeEntries, tree_canonicalizeJsonValue value,
      entryTrees_canonicalizeEntries entries]
end

mutual
theorem stringify_eq (rt : Runtime) : ∀ v : Json, stringify rt v = (printer rt).print v.tree
  | .null => rfl
  | .bool true => rfl
  | .bool false => rfl
  | .num _ => rfl
  | .str _ => rfl
  | .arr items => by
    simp only [stringify, Json.tree, Printer.print, joined_eq, stringifyItems_eq rt items]
    rfl
  | .obj entries => by
    simp only [stringify, Json.tree, Printer.print, joined_eq, stringifyEntries_eq rt entries]
    rfl

theorem stringifyItems_eq (rt : Runtime) : ∀ items : List Json,
    stringifyItems rt items = (printer rt).printItems (Json.trees items)
  | [] => rfl
  | item :: items => by
    simp only [stringifyItems, Json.trees, Printer.printItems, stringify_eq rt item, stringifyItems_eq rt items]

theorem stringifyEntries_eq (rt : Runtime) : ∀ entries : JsonObject,
    stringifyEntries rt entries = (printer rt).printEntries (Json.entryTrees entries)
  | [] => rfl
  | (key, value) :: entries => by
    simp only [stringifyEntries, Json.entryTrees, Printer.printEntries, stringify_eq rt value,
      stringifyEntries_eq rt entries]
    rfl
end

theorem serialize_eq_iff {rt : Runtime} {Finite : JsNumber → Prop} (hr : (printer rt).Readable Finite JsNumber.Same)
    {u v : Json} (hu : Tree.WellFormed Finite (fun k => k ≠ "__proto__".toList) u.tree)
    (hv : Tree.WellFormed Finite (fun k => k ≠ "__proto__".toList) v.tree) :
    serializeCanonicalJson rt u = serializeCanonicalJson rt v ↔ u.Same v := by
  have hallowed {v : Json} (h : Tree.WellFormed Finite (fun k => k ≠ "__proto__".toList) v.tree) :
      Tree.WellFormed Finite arrangement.Allowed v.tree :=
    Tree.WellFormed.mono (fun _ hn => hn) (fun _ hk => decide_eq_true hk) h
  rw [serializeCanonicalJson, serializeCanonicalJson, stringify_eq, stringify_eq, tree_canonicalizeJsonValue,
    tree_canonicalizeJsonValue]
  exact Printer.print_eq_iff hr (hallowed hu) (hallowed hv)

theorem serializeCanonicalJson_eq_iff {rt : Runtime} (h : rt.PrintsNumbers) {u v : Json} (hu : u.WellFormed)
    (hv : v.WellFormed) : serializeCanonicalJson rt u = serializeCanonicalJson rt v ↔ u.Same v :=
  serialize_eq_iff (printer_readable h) hu hv

theorem printer_readable_of_no_number (rt : Runtime) : (printer rt).Readable (fun _ => False) JsNumber.Same where
  lit_inj _ _ hcd := hcd
  quote_head _ := ⟨_, rfl⟩
  quote_inj := quote_inj
  number_ne hn := hn.elim
  number_numeric hn := hn.elim
  number_eq hn := hn.elim

end CanonicalJson

end EventGateway
