import Mathlib.Data.List.Basic
import Mathlib.Data.Option.Basic

namespace JsonGrammar

def isWs (c : Char) : Bool := [' ', '\t', '\n', '\r'].contains c

def isHex (c : Char) : Bool := "0123456789abcdefABCDEF".toList.contains c

def Ws (s : List Char) : Prop := ∀ c ∈ s, isWs c = true

def Digits (s : List Char) : Prop := s ≠ [] ∧ ∀ c ∈ s, c.isDigit = true

inductive Characters : List Char → Prop
  | nil : Characters []
  | plain {c : Char} {s : List Char} (hc : 0x20 ≤ c.toNat) (hq : c ≠ '"') (hb : c ≠ '\\') (hs : Characters s) :
      Characters (c :: s)
  | escape {c : Char} {s : List Char} (hc : c ∈ ['"', '\\', '/', 'b', 'f', 'n', 'r', 't']) (hs : Characters s) :
      Characters ('\\' :: c :: s)
  | unicode {x₁ x₂ x₃ x₄ : Char} {s : List Char} (hx : ∀ x ∈ [x₁, x₂, x₃, x₄], isHex x = true) (hs : Characters s) :
      Characters ('\\' :: 'u' :: x₁ :: x₂ :: x₃ :: x₄ :: s)

inductive Integer : List Char → Prop
  | zero : Integer ['0']
  | digits {d : Char} {ds : List Char} (hd : d.isDigit = true) (h0 : d ≠ '0') (hds : ∀ c ∈ ds, c.isDigit = true) :
      Integer (d :: ds)

inductive Fraction : List Char → Prop
  | nil : Fraction []
  | dot {ds : List Char} (h : Digits ds) : Fraction ('.' :: ds)

inductive Exponent : List Char → Prop
  | nil : Exponent []
  | e {e : Char} {sign ds : List Char} (he : e = 'e' ∨ e = 'E') (hs : sign = [] ∨ sign = ['+'] ∨ sign = ['-'])
      (h : Digits ds) : Exponent (e :: (sign ++ ds))

inductive Symbol
  | value
  | object
  | members
  | member
  | array
  | elements
  | element

inductive Derives : Symbol → List Char → Prop
  | null : Derives .value "null".toList
  | true : Derives .value "true".toList
  | false : Derives .value "false".toList
  | number {m i f e : List Char} (hm : m = [] ∨ m = ['-']) (hi : Integer i) (hf : Fraction f) (he : Exponent e) :
      Derives .value (m ++ i ++ f ++ e)
  | string {s : List Char} (h : Characters s) : Derives .value ('"' :: (s ++ ['"']))
  | ofObject {s : List Char} (h : Derives .object s) : Derives .value s
  | ofArray {s : List Char} (h : Derives .array s) : Derives .value s
  | emptyObject {w : List Char} (hw : Ws w) : Derives .object ('{' :: (w ++ ['}']))
  | object {s : List Char} (h : Derives .members s) : Derives .object ('{' :: (s ++ ['}']))
  | lastMember {s : List Char} (h : Derives .member s) : Derives .members s
  | members {s s' : List Char} (h : Derives .member s) (h' : Derives .members s') : Derives .members (s ++ ',' :: s')
  | member {w k w' s : List Char} (hw : Ws w) (hk : Characters k) (hw' : Ws w') (h : Derives .element s) :
      Derives .member (w ++ '"' :: (k ++ '"' :: (w' ++ ':' :: s)))
  | emptyArray {w : List Char} (hw : Ws w) : Derives .array ('[' :: (w ++ [']']))
  | array {s : List Char} (h : Derives .elements s) : Derives .array ('[' :: (s ++ [']']))
  | lastElement {s : List Char} (h : Derives .element s) : Derives .elements s
  | elements {s s' : List Char} (h : Derives .element s) (h' : Derives .elements s') :
      Derives .elements (s ++ ',' :: s')
  | element {w s w' : List Char} (hw : Ws w) (h : Derives .value s) (hw' : Ws w') : Derives .element (w ++ s ++ w')

def IsObjectText (s : List Char) : Prop := ∃ w o w', Ws w ∧ Derives .object o ∧ Ws w' ∧ s = w ++ o ++ w'

inductive Mode
  | out
  | dot
  | str
  | esc
deriving DecidableEq

def Mode.step : Mode → Char → Option Mode
  | .out, c => if c = '"' then some .str else if c = '.' then some .dot else if c = '\\' then none else some .out
  | .dot, c => if c.isDigit then some .out else none
  | .str, c => if c = '"' then some .out else if c = '\\' then some .esc else some .str
  | .esc, c => if ['"', '\\', '/', 'b', 'f', 'n', 'r', 't', 'u'].contains c then some .str else none

def scan : Mode → List Char → Option Mode
  | m, [] => some m
  | m, c :: s => (m.step c).bind (fun m' => scan m' s)

theorem scan_append (m : Mode) (s s' : List Char) : scan m (s ++ s') = (scan m s).bind (fun m' => scan m' s') := by
  induction s generalizing m with
  | nil => rfl
  | cons c s ih =>
    simp only [List.cons_append, scan]
    cases m.step c with
    | none => rfl
    | some m' => exact ih m'

def Closed (s : List Char) : Prop := scan .out s = some .out

theorem Closed.append {s s' : List Char} (h : Closed s) (h' : Closed s') : Closed (s ++ s') := by
  rw [Closed, scan_append, h]
  exact h'

theorem Closed.cons {c : Char} {s : List Char} (hc : Mode.out.step c = some .out) (h : Closed s) : Closed (c :: s) := by
  rw [Closed, scan, hc]
  exact h

theorem closed_of_forall {s : List Char} (h : ∀ c ∈ s, Mode.out.step c = some .out) : Closed s := by
  induction s with
  | nil => rfl
  | cons c s ih => exact Closed.cons (h c (by simp)) (ih (fun x hx => h x (by simp [hx])))

theorem step_isWs {c : Char} (h : isWs c = true) : Mode.out.step c = some .out := by
  have hall : ∀ c ∈ [' ', '\t', '\n', '\r'], Mode.out.step c = some .out := List.forall_iff_forall_mem.mp (by decide)
  exact hall c (by simpa [isWs] using h)

theorem step_isDigit {c : Char} (h : c.isDigit = true) : Mode.out.step c = some .out := by
  have hne {x : Char} (hx : x.isDigit = false) : c ≠ x := by
    rintro rfl
    rw [h] at hx
    cases hx
  simp [Mode.step, hne (x := '"') (by decide), hne (x := '.') (by decide), hne (x := '\\') (by decide)]

theorem Ws.closed {s : List Char} (h : Ws s) : Closed s := closed_of_forall (fun c hc => step_isWs (h c hc))

theorem Digits.closed {s : List Char} (h : Digits s) : Closed s := closed_of_forall (fun c hc => step_isDigit (h.2 c hc))

theorem Integer.closed {s : List Char} (h : Integer s) : Closed s := by
  cases h with
  | zero => rfl
  | digits hd h0 hds => exact Closed.cons (step_isDigit hd) (closed_of_forall (fun c hc => step_isDigit (hds c hc)))

theorem Fraction.closed {s : List Char} (h : Fraction s) : Closed s := by
  cases h with
  | nil => rfl
  | @dot ds h =>
    obtain ⟨hne, hds⟩ := h
    cases ds with
    | nil => exact absurd rfl hne
    | cons d ds =>
      have hrest : Closed ds := closed_of_forall (fun c hc => step_isDigit (hds c (by simp [hc])))
      have hd : Mode.dot.step d = some .out := by simp [Mode.step, hds d (by simp)]
      have hdot : Mode.out.step '.' = some .dot := by decide
      rw [Closed, scan, hdot, Option.bind_some, scan, hd]
      exact hrest

theorem Exponent.closed {s : List Char} (h : Exponent s) : Closed s := by
  cases h with
  | nil => rfl
  | e he hs h =>
    refine Closed.cons ?_ (Closed.append ?_ h.closed)
    · rcases he with rfl | rfl <;> decide
    · rcases hs with rfl | rfl | rfl <;> rfl

theorem Characters.scan_str {s : List Char} (h : Characters s) : scan .str s = some .str := by
  induction h with
  | nil => rfl
  | plain hc hq hb hs ih =>
    simp only [scan, Mode.step, hq, hb, ↓reduceIte, Option.bind_some]
    exact ih
  | escape hc hs ih =>
    have hesc : Mode.str.step '\\' = some .esc := by decide
    have hall : ∀ c ∈ ['"', '\\', '/', 'b', 'f', 'n', 'r', 't'], Mode.esc.step c = some .str :=
      List.forall_iff_forall_mem.mp (by decide)
    rw [scan, hesc, Option.bind_some, scan, hall _ hc]
    exact ih
  | unicode hx hs ih =>
    have hesc : Mode.str.step '\\' = some .esc := by decide
    have hu : Mode.esc.step 'u' = some .str := by decide
    have hhex {x : Char} (h : isHex x = true) : Mode.str.step x = some .str := by
      have hall : ∀ c ∈ "0123456789abcdefABCDEF".toList, Mode.str.step c = some .str :=
        List.forall_iff_forall_mem.mp (by decide)
      exact hall x (by simpa [isHex] using h)
    simp only [List.mem_cons, List.not_mem_nil, or_false, forall_eq_or_imp, forall_eq] at hx
    simp only [scan, hesc, hu, hhex hx.1, hhex hx.2.1, hhex hx.2.2.1, hhex hx.2.2.2, Option.bind_some]
    exact ih

theorem Characters.closed {k s : List Char} (hk : Characters k) (hs : Closed s) : Closed ('"' :: (k ++ '"' :: s)) := by
  have hopen : Mode.out.step '"' = some .str := by decide
  have hclose : Mode.str.step '"' = some .out := by decide
  rw [Closed, scan, hopen, Option.bind_some, scan_append, hk.scan_str, Option.bind_some, scan, hclose]
  exact hs

theorem Derives.closed {x : Symbol} {s : List Char} (h : Derives x s) : Closed s := by
  induction h with
  | null => rfl
  | true => rfl
  | false => rfl
  | @number m i f e hm hi hf he =>
    have hsign : Closed m := by rcases hm with rfl | rfl <;> rfl
    exact ((hsign.append hi.closed).append hf.closed).append he.closed
  | string h => exact h.closed rfl
  | ofObject h ih => exact ih
  | ofArray h ih => exact ih
  | emptyObject hw => exact Closed.cons (by decide) (hw.closed.append rfl)
  | object h ih => exact Closed.cons (by decide) (ih.append rfl)
  | lastMember h ih => exact ih
  | members h h' ih ih' => exact ih.append (Closed.cons (by decide) ih')
  | member hw hk hw' h ih => exact hw.closed.append (hk.closed (hw'.closed.append (Closed.cons (by decide) ih)))
  | emptyArray hw => exact Closed.cons (by decide) (hw.closed.append rfl)
  | array h ih => exact Closed.cons (by decide) (ih.append rfl)
  | lastElement h ih => exact ih
  | elements h h' ih ih' => exact ih.append (Closed.cons (by decide) ih')
  | element hw h hw' ih => exact (hw.closed.append ih).append hw'.closed

theorem IsObjectText.closed {s : List Char} (h : IsObjectText s) : Closed s := by
  obtain ⟨w, o, w', hw, ho, hw', rfl⟩ := h
  exact (hw.closed.append ho.closed).append hw'.closed

theorem IsObjectText.head {s : List Char} (h : IsObjectText s) : ∃ c r, s = c :: r ∧ c.isDigit = false := by
  obtain ⟨w, o, w', hw, ho, hw', rfl⟩ := h
  cases w with
  | cons c w =>
    have hall : ∀ c ∈ [' ', '\t', '\n', '\r'], c.isDigit = false := List.forall_iff_forall_mem.mp (by decide)
    exact ⟨c, w ++ o ++ w', rfl, hall c (by simpa [isWs] using hw c (by simp))⟩
  | nil =>
    cases ho with
    | emptyObject hw => exact ⟨'{', _, rfl, by decide⟩
    | object h => exact ⟨'{', _, rfl, by decide⟩

def Opposite (m m' : Mode) : Prop :=
  m = .str ∧ (m' = .out ∨ m' = .dot) ∨ m' = .str ∧ (m = .out ∨ m = .dot)

theorem Opposite.step {m m' n n' : Mode} {c : Char} (h : Opposite m m') (hn : m.step c = some n)
    (hn' : m'.step c = some n') : Opposite n n' := by
  have hcases {x : Mode} (hx : x = .out ∨ x = .dot) {a b : Mode} (ha : Mode.str.step c = some a)
      (hb : x.step c = some b) : Opposite a b := by
    by_cases hq : c = '"'
    · subst hq
      rcases hx with rfl | rfl
      · cases ha
        cases hb
        exact Or.inr ⟨rfl, Or.inl rfl⟩
      · cases hb
    · by_cases hb' : c = '\\'
      · subst hb'
        rcases hx with rfl | rfl <;> cases hb
      · simp only [Mode.step, hq, hb', ↓reduceIte] at ha
        cases ha
        refine Or.inl ⟨rfl, ?_⟩
        rcases hx with rfl | rfl
        · simp only [Mode.step, hq, hb', ↓reduceIte] at hb
          split_ifs at hb <;> cases hb
          · exact Or.inr rfl
          · exact Or.inl rfl
        · simp only [Mode.step] at hb
          split_ifs at hb
          cases hb
          exact Or.inl rfl
  rcases h with ⟨rfl, hx⟩ | ⟨rfl, hx⟩
  · exact hcases hx hn hn'
  · rcases hcases hx hn' hn with h | h
    · exact Or.inr h
    · exact Or.inl h

theorem Opposite.scan {m m' n n' : Mode} {s : List Char} (h : Opposite m m') (hn : scan m s = some n)
    (hn' : scan m' s = some n') : Opposite n n' := by
  induction s generalizing m m' with
  | nil =>
    cases hn
    cases hn'
    exact h
  | cons c s ih =>
    obtain ⟨a, ha, hn⟩ := Option.bind_eq_some_iff.mp hn
    obtain ⟨b, hb, hn'⟩ := Option.bind_eq_some_iff.mp hn'
    exact ih (h.step ha hb) hn hn'

theorem IsObjectText.not_suffix {s s' u : List Char} (h : IsObjectText s) (h' : IsObjectText s') :
    s ≠ u ++ '.' :: s' := by
  -- no object text ends with a dot and another object text: outside strings a digit follows the dot, and from
  -- inside a string the second text would be left inside one
  intro hs
  have hscan := h.closed
  rw [hs, Closed, scan_append] at hscan
  obtain ⟨m, _, hscan⟩ := Option.bind_eq_some_iff.mp hscan
  obtain ⟨n, hn, hscan⟩ := Option.bind_eq_some_iff.mp hscan
  cases m with
  | out =>
    cases hn
    obtain ⟨c, r, rfl, hc⟩ := h'.head
    simp [JsonGrammar.scan, Mode.step, hc] at hscan
  | dot => cases hn
  | esc => cases hn
  | str =>
    cases hn
    rcases Opposite.scan (Or.inr ⟨rfl, Or.inl rfl⟩) h'.closed hscan with ⟨h₁, _⟩ | ⟨h₁, _⟩
    · cases h₁
    · cases h₁

end JsonGrammar
