import EventGateway.CanonicalJsValue
import EventGateway.Statements

namespace EventGateway.RequestBodyGuard

open JsonPrinting

inductive RequestBodyViolation
  | depth
  | controlCharacter
  | loneSurrogate
  | reservedKey
deriving DecidableEq, Repr

def maxRequestBodyDepth : ℕ := 32

def objectPrototypeNames : List JsString :=
  ["constructor", "__defineGetter__", "__defineSetter__", "hasOwnProperty", "__lookupGetter__", "__lookupSetter__",
    "isPrototypeOf", "propertyIsEnumerable", "toString", "valueOf", "__proto__", "toLocaleString"].map JsString.ofString

def reservedKeys : List JsString := objectPrototypeNames ++ [JsString.ofString "prototype"]

def violationMessages : RequestBodyViolation → String
  | .depth => "Request body must not be nested deeper than 32 levels."
  | .controlCharacter =>
    "Request body must not contain control characters other than tab, line feed, and carriage return."
  | .loneSurrogate => "Request body must not contain unpaired UTF-16 surrogates."
  | .reservedKey =>
    "Request body must not use reserved property names such as __proto__, constructor, or prototype."

def isForbiddenControl (code : ℕ) : Bool := code < 0x20 && code ≠ 0x09 && code ≠ 0x0a && code ≠ 0x0d

/-- `charCodeAt` past the end is `NaN`, which is in no range. -/
def findStringViolation : JsString → Option RequestBodyViolation
  | [] => none
  | code :: rest =>
    if isForbiddenControl code.toNat then some .controlCharacter
    else if JsString.isHighSurrogate code then
      match rest with
      | [] => some .loneSurrogate
      | next :: rest => if JsString.isLowSurrogate next then findStringViolation rest else some .loneSurrogate
    else if JsString.isLowSurrogate code then some .loneSurrogate
    else findStringViolation rest

def entriesOf : JsValue → Option (List (Option JsString × JsValue))
  | .arr items => some (items.map (fun item => (none, item)))
  | .obj entries => some (entries.map (fun e => (some e.1, e.2)))
  | _ => none

abbrev Pending := List (JsValue × ℕ)

def findKeyViolation (key : JsString) : Option RequestBodyViolation :=
  if key ∈ reservedKeys then some .reservedKey else findStringViolation key

def scanEntry (depth : ℕ) (entry : Option JsString × JsValue) (pending : Pending) : Except RequestBodyViolation Pending :=
  match entry.1.bind findKeyViolation with
  | some violation => .error violation
  | none =>
    match entry.2 with
    | .str s =>
      match findStringViolation s with
      | some violation => .error violation
      | none => .ok pending
    | .arr _ | .obj _ => .ok ((entry.2, depth + 1) :: pending)
    | _ => .ok pending

def scanEntries (depth : ℕ) : List (Option JsString × JsValue) → Pending → Except RequestBodyViolation Pending
  | [], pending => .ok pending
  | entry :: entries, pending =>
    match scanEntry depth entry pending with
    | .error violation => .error violation
    | .ok pending => scanEntries depth entries pending

theorem scanEntry_ok {depth : ℕ} {entry : Option JsString × JsValue} {pending pending' : Pending}
    (h : scanEntry depth entry pending = .ok pending') :
    pending' = pending ∨ pending' = (entry.2, depth + 1) :: pending := by
  unfold scanEntry at h
  split at h
  · cases h
  · split at h
    · split at h
      · cases h
      · exact .inl (Except.ok.inj h).symm
    · exact .inr (Except.ok.inj h).symm
    · exact .inr (Except.ok.inj h).symm
    · exact .inl (Except.ok.inj h).symm

theorem sum_scanEntries {depth : ℕ} {entries : List (Option JsString × JsValue)} {pending pending' : Pending}
    (h : scanEntries depth entries pending = .ok pending') :
    (pending'.map (fun p => sizeOf p.1)).sum ≤
      (entries.map (fun e => sizeOf e.2)).sum + (pending.map (fun p => sizeOf p.1)).sum := by
  induction entries generalizing pending with
  | nil =>
    cases h
    exact Nat.le_add_left _ _
  | cons entry entries ih =>
    rw [scanEntries] at h
    split at h
    · cases h
    · rename_i next hnext
      have hle := ih h
      simp only [List.map_cons, List.sum_cons]
      rcases scanEntry_ok hnext with rfl | rfl
      · omega
      · simp only [List.map_cons, List.sum_cons] at hle
        omega

theorem sum_entriesOf {value : JsValue} {entries : List (Option JsString × JsValue)}
    (h : entriesOf value = some entries) : (entries.map (fun e => sizeOf e.2)).sum < sizeOf value := by
  unfold entriesOf at h
  split at h
  · rename_i items
    cases h
    have hle : ((items.map (fun item => ((none : Option JsString), item))).map (fun e => sizeOf e.2)).sum ≤
        sizeOf items := by
      induction items with
      | nil => simp
      | cons item items ih =>
        simp only [List.map_cons, List.sum_cons, List.cons.sizeOf_spec] at ih ⊢
        omega
    rw [Tree.arr.sizeOf_spec]
    exact lt_of_le_of_lt hle (by omega)
  · rename_i entries
    cases h
    have hle : ((entries.map (fun e => (some e.1, e.2))).map (fun e => sizeOf e.2)).sum ≤ sizeOf entries := by
      induction entries with
      | nil => simp
      | cons e entries ih =>
        obtain ⟨key, value⟩ := e
        simp only [List.map_cons, List.sum_cons, List.cons.sizeOf_spec, Prod.mk.sizeOf_spec] at ih ⊢
        omega
    rw [Tree.obj.sizeOf_spec]
    exact lt_of_le_of_lt hle (by omega)
  · cases h

theorem sizeOf_pos (value : JsValue) : 0 < sizeOf value := by
  cases value <;> simp

def walk (pending : Pending) : Option RequestBodyViolation :=
  match pending with
  | [] => none
  | (value, depth) :: pending =>
    match _he : entriesOf value with
    | none => walk pending
    | some entries =>
      if maxRequestBodyDepth < depth then some .depth
      else
        match _hs : scanEntries depth entries pending with
        | .error violation => some violation
        | .ok pending => walk pending
termination_by (pending.map (fun p => sizeOf p.1)).sum
decreasing_by
  · have := sizeOf_pos value
    simp only [List.map_cons, List.sum_cons]
    omega
  · have h₁ := sum_scanEntries _hs
    have h₂ := sum_entriesOf _he
    simp only [List.map_cons, List.sum_cons]
    omega

def findRequestBodyViolation (body : JsValue) : Option RequestBodyViolation :=
  match body with
  | .str s => findStringViolation s
  | _ => walk [(body, 1)]

def requestBodyGuardMiddleware (body : JsValue) : Except Failure Unit :=
  match findRequestBodyViolation body with
  | some violation => .error (.api (.validation (violationMessages violation)))
  | none => .ok ()

def HasControl (s : JsString) : Prop := ∃ u ∈ s, isForbiddenControl u.toNat = true

def LoneSurrogate (s : JsString) : Prop :=
  ∃ before u after, s = before ++ u :: after ∧
    (JsString.isHighSurrogate u = true ∧ (∀ v ∈ after.head?, JsString.isLowSurrogate v = false) ∨
      JsString.isLowSurrogate u = true ∧ ∀ v ∈ before.getLast?, JsString.isHighSurrogate v = false)

def IsStorableText (s : JsString) : Prop := ∃ t : Text, s = JsString.ofText t ∧ ∀ c ∈ t, isForbiddenControl c.toNat = false

inductive Occurs : JsValue → ℕ → ℕ → JsValue → Prop
  | self (value : JsValue) (l : ℕ) : Occurs value l l value
  | item {items : List JsValue} {x v : JsValue} {l n : ℕ} (hx : x ∈ items) (h : Occurs x (l + 1) n v) :
    Occurs (.arr items) l n v
  | value {entries : List (JsString × JsValue)} {key : JsString} {x v : JsValue} {l n : ℕ} (hx : (key, x) ∈ entries)
    (h : Occurs x (l + 1) n v) : Occurs (.obj entries) l n v

def IsContainer : JsValue → Prop
  | .arr _ | .obj _ => True
  | _ => False

def HasKey (value : JsValue) (l : ℕ) (key : JsString) : Prop :=
  ∃ n entries x, Occurs value l n (.obj entries) ∧ (key, x) ∈ entries

def HasString (value : JsValue) (l : ℕ) (s : JsString) : Prop := HasKey value l s ∨ ∃ n, Occurs value l n (.str s)

def Violates (value : JsValue) (l : ℕ) : RequestBodyViolation → Prop
  | .depth => ∃ n v, Occurs value l n v ∧ IsContainer v ∧ maxRequestBodyDepth < n
  | .reservedKey => ∃ key, HasKey value l key ∧ key ∈ reservedKeys
  | .controlCharacter => ∃ s, HasString value l s ∧ HasControl s
  | .loneSurrogate => ∃ s, HasString value l s ∧ LoneSurrogate s

section Strings

open JsString

theorem not_low_of_high {u : UInt16} (h : isHighSurrogate u = true) : isLowSurrogate u = false := by
  simp only [isHighSurrogate, isLowSurrogate, Bool.and_eq_true, decide_eq_true_eq, Bool.and_eq_false_iff,
    decide_eq_false_iff_not] at h ⊢
  omega

theorem not_control_of_low {u : UInt16} (h : isLowSurrogate u = true) : isForbiddenControl u.toNat = false := by
  simp only [isLowSurrogate, Bool.and_eq_true, decide_eq_true_eq] at h
  have hlt : ¬ u.toNat < 0x20 := by omega
  simp [isForbiddenControl, hlt]

theorem mem_getLast?_cons {u v : UInt16} {s : JsString} :
    v ∈ (u :: s).getLast? ↔ v ∈ s.getLast? ∨ s = [] ∧ v = u := by
  cases s with
  | nil => simp [eq_comm]
  | cons w s => simp [List.getLast?_cons_cons]

theorem loneSurrogate_cons {u : UInt16} {s : JsString} :
    LoneSurrogate (u :: s) ↔ isHighSurrogate u = true ∧ (∀ v ∈ s.head?, isLowSurrogate v = false) ∨
      isLowSurrogate u = true ∨ (∃ before w after, s = before ++ w :: after ∧
        (isHighSurrogate w = true ∧ (∀ v ∈ after.head?, isLowSurrogate v = false) ∨
          isLowSurrogate w = true ∧ ∀ v ∈ (u :: before).getLast?, isHighSurrogate v = false)) := by
  constructor
  · rintro ⟨before, w, after, hs, hw⟩
    cases before with
    | nil =>
      obtain ⟨rfl, rfl⟩ := List.cons.inj hs
      rcases hw with hw | hw
      · exact .inl hw
      · exact .inr (.inl hw.1)
    | cons b before =>
      obtain ⟨rfl, rfl⟩ := List.cons.inj hs
      exact .inr (.inr ⟨before, w, after, rfl, hw⟩)
  · rintro (h | h | ⟨before, w, after, rfl, hw⟩)
    · exact ⟨[], u, s, rfl, .inl h⟩
    · exact ⟨[], u, s, rfl, .inr ⟨h, fun _ hv => by cases hv⟩⟩
    · exact ⟨u :: before, w, after, rfl, hw⟩

theorem loneSurrogate_plain {u : UInt16} (hh : isHighSurrogate u = false) (hl : isLowSurrogate u = false) (s : JsString) :
    LoneSurrogate (u :: s) ↔ LoneSurrogate s := by
  rw [loneSurrogate_cons]
  simp only [hh, hl, Bool.false_eq_true, false_and, false_or]
  constructor
  · rintro ⟨before, w, after, rfl, hw | ⟨hw, hlast⟩⟩
    · exact ⟨before, w, after, rfl, .inl hw⟩
    · exact ⟨before, w, after, rfl, .inr ⟨hw, fun v hv => hlast v (mem_getLast?_cons.mpr (.inl hv))⟩⟩
  · rintro ⟨before, w, after, rfl, hw | ⟨hw, hlast⟩⟩
    · exact ⟨before, w, after, rfl, .inl hw⟩
    · refine ⟨before, w, after, rfl, .inr ⟨hw, fun v hv => ?_⟩⟩
      rcases mem_getLast?_cons.mp hv with hv | ⟨-, rfl⟩
      · exact hlast v hv
      · exact hh

theorem loneSurrogate_pair {u v : UInt16} (hu : isHighSurrogate u = true) (hv : isLowSurrogate v = true) (s : JsString) :
    LoneSurrogate (u :: v :: s) ↔ LoneSurrogate s := by
  have hv' : isHighSurrogate v = false := by
    by_contra h
    rw [not_low_of_high (by simpa using h)] at hv
    cases hv
  have hu' := not_low_of_high hu
  constructor
  · rintro ⟨before, w, after, hs, hw⟩
    match before with
    | [] =>
      obtain ⟨rfl, rfl⟩ := List.cons.inj hs
      simp [hu', hv] at hw
    | [b] =>
      simp only [List.cons_append, List.nil_append, List.cons.injEq] at hs
      obtain ⟨rfl, rfl, rfl⟩ := hs
      simp [hu, hv'] at hw
    | b :: c :: before =>
      simp only [List.cons_append, List.cons.injEq] at hs
      obtain ⟨rfl, rfl, rfl⟩ := hs
      refine ⟨before, w, after, rfl, hw.imp_right (And.imp_right fun hlast x hx => hlast x ?_)⟩
      exact mem_getLast?_cons.mpr (.inl (mem_getLast?_cons.mpr (.inl hx)))
  · rintro ⟨before, w, after, rfl, hw⟩
    refine ⟨u :: v :: before, w, after, rfl, hw.imp_right (And.imp_right fun hlast x hx => ?_)⟩
    rcases mem_getLast?_cons.mp hx with hx | ⟨hx, -⟩
    · rcases mem_getLast?_cons.mp hx with hx | ⟨-, rfl⟩
      · exact hlast x hx
      · exact hv'
    · cases hx

theorem hasControl_cons {u : UInt16} (h : isForbiddenControl u.toNat = false) (s : JsString) :
    HasControl (u :: s) ↔ HasControl s := by
  simp [HasControl, h]

def StringViolates (s : JsString) : RequestBodyViolation → Prop
  | .controlCharacter => HasControl s
  | .loneSurrogate => LoneSurrogate s
  | _ => False

structure Finds (result : Option RequestBodyViolation) (P : RequestBodyViolation → Prop) : Prop where
  sound : ∀ {violation}, result = some violation → P violation
  complete : result = none → ∀ violation, ¬ P violation

theorem Finds.of_some {violation : RequestBodyViolation} {P : RequestBodyViolation → Prop} (h : P violation) :
    Finds (some violation) P :=
  ⟨fun he => Option.some.inj he ▸ h, fun he => by cases he⟩

theorem Finds.of_none {P : RequestBodyViolation → Prop} (h : ∀ violation, ¬ P violation) : Finds none P :=
  ⟨fun he => (by cases he), fun _ => h⟩

theorem Finds.congr {result : Option RequestBodyViolation} {P Q : RequestBodyViolation → Prop} (h : Finds result P)
    (hiff : ∀ violation, P violation ↔ Q violation) : Finds result Q :=
  ⟨fun he => (hiff _).mp (h.sound he), fun he violation hq => h.complete he violation ((hiff violation).mpr hq)⟩

theorem Finds.eq_none_iff {result : Option RequestBodyViolation} {P : RequestBodyViolation → Prop} (h : Finds result P) :
    result = none ↔ ∀ violation, ¬ P violation := by
  refine ⟨h.complete, fun hnone => ?_⟩
  cases hr : result with
  | none => rfl
  | some violation => exact absurd (h.sound hr) (hnone violation)

theorem findStringViolation_finds (s : JsString) : Finds (findStringViolation s) (StringViolates s) := by
  fun_induction findStringViolation s with
  | case1 =>
    apply Finds.of_none
    rintro (_ | _ | _ | _) h
    · exact h
    · obtain ⟨u, hu, -⟩ := h
      cases hu
    · obtain ⟨before, u, after, h, -⟩ := h
      exact absurd h (by simp)
    · exact h
  | case2 code rest hc => exact Finds.of_some (show HasControl (code :: rest) from ⟨code, List.mem_cons_self, hc⟩)
  | case3 code hc hh =>
    exact Finds.of_some (show LoneSurrogate [code] from ⟨[], code, [], rfl, .inl ⟨hh, fun v hv => by cases hv⟩⟩)
  | case4 code hc hh next rest hl ih =>
    refine ih.congr fun violation => ?_
    cases violation with
    | controlCharacter =>
      exact ((hasControl_cons (by simpa using hc) _).trans (hasControl_cons (not_control_of_low hl) _)).symm
    | loneSurrogate => exact (loneSurrogate_pair hh hl rest).symm
    | depth => exact Iff.rfl
    | reservedKey => exact Iff.rfl
  | case5 code hc hh next rest hl =>
    refine Finds.of_some (show LoneSurrogate (code :: next :: rest) from
      ⟨[], code, next :: rest, rfl, .inl ⟨hh, fun v hv => ?_⟩⟩)
    obtain rfl : next = v := by simpa using hv
    simpa using hl
  | case6 code rest hc hh hl =>
    exact Finds.of_some (show LoneSurrogate (code :: rest) from ⟨[], code, rest, rfl, .inr ⟨hl, fun v hv => by cases hv⟩⟩)
  | case7 code rest hc hh hl ih =>
    refine ih.congr fun violation => ?_
    cases violation with
    | controlCharacter => exact (hasControl_cons (by simpa using hc) _).symm
    | loneSurrogate => exact (loneSurrogate_plain (by simpa using hh) (by simpa using hl) rest).symm
    | depth => exact Iff.rfl
    | reservedKey => exact Iff.rfl

theorem not_loneSurrogate_iff (s : JsString) : ¬ LoneSurrogate s ↔ wellPaired s = true := by
  induction s using wellPaired.induct with
  | case1 => simp [LoneSurrogate, wellPaired]
  | case2 u =>
    rw [loneSurrogate_cons]
    simp [wellPaired]
  | case3 u v rest hu ih =>
    rw [wellPaired_pair hu]
    cases hv : isLowSurrogate v with
    | false =>
      have hlone : LoneSurrogate (u :: v :: rest) := loneSurrogate_cons.mpr (.inl ⟨hu, by simpa using hv⟩)
      simp [hlone]
    | true => rw [loneSurrogate_pair hu hv, ih, Bool.true_and]
  | case4 u v rest hu ih =>
    have hu' : isHighSurrogate u = false := by simpa using hu
    cases hl : isLowSurrogate u with
    | true =>
      have hlone : LoneSurrogate (u :: v :: rest) := loneSurrogate_cons.mpr (.inr (.inl hl))
      simp [hlone, wellPaired, hu', hl]
    | false => rw [loneSurrogate_plain hu' hl, wellPaired_cons_of_not hu' hl, ih]

theorem hasControl_ofText (t : Text) : HasControl (ofText t) ↔ ∃ c ∈ t, isForbiddenControl c.toNat = true := by
  have hchar (c : Char) : (∃ u ∈ (charUnits c).map UInt16.ofNat, isForbiddenControl u.toNat = true) ↔
      isForbiddenControl c.toNat = true := by
    have hc := toNat_valid c
    unfold charUnits
    split_ifs with h
    · simp [toNat_ofNat_unit h]
    · have hhigh : ¬ (UInt16.ofNat (0xd800 + (c.toNat - 0x10000) / 0x400)).toNat < 0x20 := by
        rw [toNat_ofNat_unit (by omega)]
        omega
      have hlow : ¬ (UInt16.ofNat (0xdc00 + (c.toNat - 0x10000) % 0x400)).toNat < 0x20 := by
        rw [toNat_ofNat_unit (by omega)]
        omega
      have hself : ¬ c.toNat < 0x20 := by omega
      simp only [List.map_cons, List.map_nil, List.mem_cons, List.not_mem_nil, or_false, exists_eq_or_imp, exists_eq_left,
        isForbiddenControl, hhigh, hlow, hself, decide_false, Bool.false_and, Bool.false_eq_true]
  induction t with
  | nil => simp [HasControl, ofText, CanonicalJson.utf16Units]
  | cons c t ih =>
    have happend : HasControl (ofText (c :: t)) ↔
        (∃ u ∈ (charUnits c).map UInt16.ofNat, isForbiddenControl u.toNat = true) ∨ HasControl (ofText t) := by
      rw [ofText_cons]
      simp only [HasControl, List.mem_append, or_and_right, exists_or]
    simp only [happend, hchar, ih, List.mem_cons, exists_eq_or_imp]

theorem isStorableText_iff (s : JsString) : IsStorableText s ↔ ¬ HasControl s ∧ ¬ LoneSurrogate s := by
  rw [not_loneSurrogate_iff, wellPaired_iff]
  constructor
  · rintro ⟨t, rfl, ht⟩
    refine ⟨fun h => ?_, t, rfl⟩
    obtain ⟨c, hc, hforbidden⟩ := (hasControl_ofText t).mp h
    rw [ht c hc] at hforbidden
    cases hforbidden
  · rintro ⟨hcontrol, t, rfl⟩
    refine ⟨t, rfl, fun c hc => ?_⟩
    by_contra h
    exact hcontrol ((hasControl_ofText t).mpr ⟨c, hc, by simpa using h⟩)

end Strings

section Entries

def KeyViolates (key : JsString) (violation : RequestBodyViolation) : Prop :=
  violation = .reservedKey ∧ key ∈ reservedKeys ∨ StringViolates key violation

def EntryViolates (depth : ℕ) (entry : Option JsString × JsValue) (violation : RequestBodyViolation) : Prop :=
  (∃ key, entry.1 = some key ∧ KeyViolates key violation) ∨ Violates entry.2 (depth + 1) violation

variable {value : JsValue} {entries : List (Option JsString × JsValue)} {l : ℕ}

theorem isContainer_of_entriesOf (he : entriesOf value = some entries) : IsContainer value := by
  cases value <;> simp [entriesOf] at he <;> trivial

theorem occurs_iff (he : entriesOf value = some entries) {n : ℕ} {v : JsValue} :
    Occurs value l n v ↔ (n = l ∧ v = value) ∨ ∃ e ∈ entries, Occurs e.2 (l + 1) n v := by
  unfold entriesOf at he
  split at he
  · cases he
    constructor
    · rintro (_ | ⟨hx, h⟩)
      · exact .inl ⟨rfl, rfl⟩
      · exact .inr ⟨_, List.mem_map_of_mem hx, h⟩
    · rintro (⟨rfl, rfl⟩ | ⟨e, he, h⟩)
      · exact .self _ _
      · obtain ⟨x, hx, rfl⟩ := List.mem_map.mp he
        exact .item hx h
  · cases he
    constructor
    · rintro (_ | _ | ⟨hx, h⟩)
      · exact .inl ⟨rfl, rfl⟩
      · exact .inr ⟨_, List.mem_map_of_mem hx, h⟩
    · rintro (⟨rfl, rfl⟩ | ⟨e, he, h⟩)
      · exact .self _ _
      · obtain ⟨x, hx, rfl⟩ := List.mem_map.mp he
        exact .value hx h
  · cases he

theorem occurs_leaf (he : entriesOf value = none) {n : ℕ} {v : JsValue} (h : Occurs value l n v) : v = value := by
  cases h with
  | self => rfl
  | item _ _ => cases he
  | value _ _ => cases he

theorem hasKey_iff (he : entriesOf value = some entries) {key : JsString} :
    HasKey value l key ↔ ∃ e ∈ entries, e.1 = some key ∨ HasKey e.2 (l + 1) key := by
  constructor
  · rintro ⟨n, es, x, h, hx⟩
    rcases (occurs_iff he).mp h with ⟨-, rfl⟩ | ⟨e, hm, h⟩
    · cases he
      exact ⟨_, List.mem_map_of_mem hx, .inl rfl⟩
    · exact ⟨e, hm, .inr ⟨n, es, x, h, hx⟩⟩
  · rintro ⟨e, hm, hkey | ⟨n, es, x, h, hx⟩⟩
    · unfold entriesOf at he
      split at he
      · cases he
        obtain ⟨item, -, rfl⟩ := List.mem_map.mp hm
        cases hkey
      · cases he
        obtain ⟨⟨k, x⟩, hx, rfl⟩ := List.mem_map.mp hm
        cases hkey
        exact ⟨l, _, x, .self _ _, hx⟩
      · cases he
    · exact ⟨n, es, x, (occurs_iff he).mpr (.inr ⟨e, hm, h⟩), hx⟩

theorem hasString_iff (he : entriesOf value = some entries) {s : JsString} :
    HasString value l s ↔ ∃ e ∈ entries, e.1 = some s ∨ HasString e.2 (l + 1) s := by
  constructor
  · rintro (h | ⟨n, h⟩)
    · obtain ⟨e, hm, h⟩ := (hasKey_iff he).mp h
      exact ⟨e, hm, h.imp_right .inl⟩
    · rcases (occurs_iff he).mp h with ⟨-, rfl⟩ | ⟨e, hm, h⟩
      · cases he
      · exact ⟨e, hm, .inr (.inr ⟨n, h⟩)⟩
  · rintro ⟨e, hm, h | h | ⟨n, h⟩⟩
    · exact .inl ((hasKey_iff he).mpr ⟨e, hm, .inl h⟩)
    · exact .inl ((hasKey_iff he).mpr ⟨e, hm, .inr h⟩)
    · exact .inr ⟨n, (occurs_iff he).mpr (.inr ⟨e, hm, h⟩)⟩

theorem hasString_leaf (he : entriesOf value = none) {s : JsString} : HasString value l s ↔ value = .str s := by
  constructor
  · rintro (⟨n, es, x, h, -⟩ | ⟨n, h⟩)
    · rw [← occurs_leaf he h] at he
      cases he
    · exact (occurs_leaf he h).symm
  · rintro rfl
    exact .inr ⟨l, .self _ _⟩

theorem exists_hasString_iff (he : entriesOf value = some entries) (P : JsString → Prop) :
    (∃ s, HasString value l s ∧ P s) ↔
      ∃ e ∈ entries, (∃ key, e.1 = some key ∧ P key) ∨ ∃ s, HasString e.2 (l + 1) s ∧ P s := by
  simp only [hasString_iff he]
  constructor
  · rintro ⟨s, ⟨e, hm, h | h⟩, hs⟩
    · exact ⟨e, hm, .inl ⟨s, h, hs⟩⟩
    · exact ⟨e, hm, .inr ⟨s, h, hs⟩⟩
  · rintro ⟨e, hm, ⟨s, h, hs⟩ | ⟨s, h, hs⟩⟩
    · exact ⟨s, ⟨e, hm, .inl h⟩, hs⟩
    · exact ⟨s, ⟨e, hm, .inr h⟩, hs⟩

theorem violates_iff (he : entriesOf value = some entries) (violation : RequestBodyViolation) :
    Violates value l violation ↔
      violation = .depth ∧ maxRequestBodyDepth < l ∨ ∃ e ∈ entries, EntryViolates l e violation := by
  cases violation with
  | depth =>
    simp only [Violates, EntryViolates, KeyViolates, StringViolates, reduceCtorEq, false_and, or_self, and_false,
      exists_false, false_or, true_and, occurs_iff he]
    constructor
    · rintro ⟨n, v, ⟨rfl, rfl⟩ | ⟨e, hm, h⟩, hv⟩
      · exact .inl hv.2
      · exact .inr ⟨e, hm, n, v, h, hv⟩
    · rintro (hl | ⟨e, hm, n, v, h, hv⟩)
      · exact ⟨l, value, .inl ⟨rfl, rfl⟩, isContainer_of_entriesOf he, hl⟩
      · exact ⟨n, v, .inr ⟨e, hm, h⟩, hv⟩
  | reservedKey =>
    simp only [Violates, EntryViolates, KeyViolates, StringViolates, reduceCtorEq, false_and, or_false, true_and,
      false_or, hasKey_iff he]
    constructor
    · rintro ⟨key, ⟨e, hm, h | h⟩, hkey⟩
      · exact ⟨e, hm, .inl ⟨key, h, hkey⟩⟩
      · exact ⟨e, hm, .inr ⟨key, h, hkey⟩⟩
    · rintro ⟨e, hm, ⟨key, h, hkey⟩ | ⟨key, h, hkey⟩⟩
      · exact ⟨key, ⟨e, hm, .inl h⟩, hkey⟩
      · exact ⟨key, ⟨e, hm, .inr h⟩, hkey⟩
  | controlCharacter =>
    simp only [Violates, EntryViolates, KeyViolates, StringViolates, reduceCtorEq, false_and, false_or]
    exact exists_hasString_iff he HasControl
  | loneSurrogate =>
    simp only [Violates, EntryViolates, KeyViolates, StringViolates, reduceCtorEq, false_and, false_or]
    exact exists_hasString_iff he LoneSurrogate

theorem violates_leaf (he : entriesOf value = none) (violation : RequestBodyViolation) :
    Violates value l violation ↔ ∃ s, value = .str s ∧ StringViolates s violation := by
  have hnone {n : ℕ} {v : JsValue} (h : Occurs value l n v) : entriesOf v = none := (occurs_leaf he h).symm ▸ he
  cases violation with
  | depth =>
    simp only [Violates, StringViolates, and_false, exists_false, iff_false]
    rintro ⟨n, v, h, hv, -⟩
    have hv' := hnone h
    cases v <;> first | exact hv | cases hv'
  | reservedKey =>
    simp only [Violates, StringViolates, and_false, exists_false, iff_false]
    rintro ⟨key, ⟨n, es, x, h, -⟩, -⟩
    cases hnone h
  | controlCharacter => simp only [Violates, StringViolates, hasString_leaf he]
  | loneSurrogate => simp only [Violates, StringViolates, hasString_leaf he]

end Entries

section Walk

def PendingViolates (pending : Pending) (violation : RequestBodyViolation) : Prop :=
  ∃ p ∈ pending, Violates p.1 p.2 violation

def NoStrings (pending : Pending) : Prop := ∀ p ∈ pending, ∀ s, p.1 ≠ .str s

variable {depth : ℕ} {pending pending' : Pending}

theorem pendingViolates_cons {p : JsValue × ℕ} {violation : RequestBodyViolation} :
    PendingViolates (p :: pending) violation ↔ Violates p.1 p.2 violation ∨ PendingViolates pending violation := by
  simp [PendingViolates]

theorem findKeyViolation_finds (key : JsString) : Finds (findKeyViolation key) (KeyViolates key) := by
  unfold findKeyViolation
  split_ifs with h
  · exact Finds.of_some (.inl ⟨rfl, h⟩)
  · refine (findStringViolation_finds key).congr fun violation => ?_
    simp [KeyViolates, h]

theorem entryKey_finds (key : Option JsString) :
    Finds (key.bind findKeyViolation) (fun violation => ∃ k, key = some k ∧ KeyViolates k violation) := by
  cases key with
  | none => exact Finds.of_none fun _ ⟨_, h, _⟩ => by cases h
  | some key =>
    refine (findKeyViolation_finds key).congr fun violation => ?_
    simp

theorem scanEntry_spec (depth : ℕ) (entry : Option JsString × JsValue) (pending : Pending) :
    match scanEntry depth entry pending with
    | .error violation => EntryViolates depth entry violation
    | .ok pending' => (∀ violation, PendingViolates pending' violation ↔
        EntryViolates depth entry violation ∨ PendingViolates pending violation) ∧
        (NoStrings pending → NoStrings pending') := by
  obtain ⟨key, child⟩ := entry
  have hkey := entryKey_finds key
  simp only [scanEntry, EntryViolates]
  cases hk : key.bind findKeyViolation with
  | some violation => exact .inl (hkey.sound hk)
  | none =>
    have hnokey := hkey.complete hk
    have hpush (hs : ∀ s, child ≠ .str s) : (∀ violation, PendingViolates ((child, depth + 1) :: pending) violation ↔
        ((∃ k, key = some k ∧ KeyViolates k violation) ∨ Violates child (depth + 1) violation) ∨
          PendingViolates pending violation) ∧ (NoStrings pending → NoStrings ((child, depth + 1) :: pending)) := by
      refine ⟨fun violation => ?_, fun h => ?_⟩
      · rw [pendingViolates_cons]
        simp only [hnokey violation, false_or]
      · intro p hp
        rcases List.mem_cons.mp hp with rfl | hp
        · exact hs
        · exact h p hp
    have hskip (hc : ∀ violation, ¬ Violates child (depth + 1) violation) : (∀ violation,
        PendingViolates pending violation ↔
        ((∃ k, key = some k ∧ KeyViolates k violation) ∨ Violates child (depth + 1) violation) ∨
          PendingViolates pending violation) ∧ (NoStrings pending → NoStrings pending) :=
      ⟨fun violation => by simp only [hnokey violation, hc violation, false_or], id⟩
    have hleaf (he : entriesOf child = none) (hs : ∀ s, child ≠ .str s) (violation : RequestBodyViolation) :
        ¬ Violates child (depth + 1) violation := by
      rw [violates_leaf he]
      exact fun ⟨s, h, _⟩ => hs s h
    cases child with
    | str s =>
      have hstr := findStringViolation_finds s
      cases hv : findStringViolation s with
      | some violation =>
        dsimp only
        rw [hv]
        exact .inr ((violates_leaf rfl violation).mpr ⟨s, rfl, hstr.sound hv⟩)
      | none =>
        dsimp only
        rw [hv]
        refine hskip fun violation h => ?_
        obtain ⟨s', hs', h⟩ := (violates_leaf rfl violation).mp h
        cases hs'
        exact hstr.complete hv violation h
    | arr items => exact hpush (fun _ => by simp)
    | obj entries => exact hpush (fun _ => by simp)
    | null => exact hskip (hleaf rfl (fun _ => by simp))
    | bool b => exact hskip (hleaf rfl (fun _ => by simp))
    | num n => exact hskip (hleaf rfl (fun _ => by simp))

theorem scanEntries_spec (depth : ℕ) (entries : List (Option JsString × JsValue)) (pending : Pending) :
    match scanEntries depth entries pending with
    | .error violation => ∃ e ∈ entries, EntryViolates depth e violation
    | .ok pending' => (∀ violation, PendingViolates pending' violation ↔
        (∃ e ∈ entries, EntryViolates depth e violation) ∨ PendingViolates pending violation) ∧
        (NoStrings pending → NoStrings pending') := by
  induction entries generalizing pending with
  | nil => simp [scanEntries]
  | cons entry entries ih =>
    have hentry := scanEntry_spec depth entry pending
    rw [scanEntries]
    cases hs : scanEntry depth entry pending with
    | error violation =>
      rw [hs] at hentry
      exact ⟨entry, List.mem_cons_self, hentry⟩
    | ok next =>
      rw [hs] at hentry
      have hrest := ih next
      dsimp only
      split
      · rename_i violation hr
        rw [hr] at hrest
        obtain ⟨e, he, h⟩ := hrest
        exact ⟨e, List.mem_cons_of_mem _ he, h⟩
      · rename_i last hr
        rw [hr] at hrest
        refine ⟨fun violation => ?_, fun h => hrest.2 (hentry.2 h)⟩
        rw [hrest.1, hentry.1]
        simp only [List.mem_cons, exists_eq_or_imp]
        rw [or_left_comm, or_assoc]

theorem walk_finds (pending : Pending) (h : NoStrings pending) : Finds (walk pending) (PendingViolates pending) := by
  -- the loop invariant: the values on the stack have the violations of the body that are still to be found
  fun_induction walk pending with
  | case1 => exact Finds.of_none fun _ ⟨p, hp, _⟩ => by cases hp
  | case2 value depth pending he ih =>
    refine (ih fun p hp => h p (List.mem_cons_of_mem _ hp)).congr fun violation => ?_
    have hvalue : ¬ Violates value depth violation := by
      rw [violates_leaf he]
      exact fun ⟨s, hs, _⟩ => h (value, depth) List.mem_cons_self s hs
    rw [pendingViolates_cons]
    exact (or_iff_right hvalue).symm
  | case3 value depth pending entries he hdepth =>
    exact Finds.of_some (pendingViolates_cons.mpr (.inl ((violates_iff he _).mpr (.inl ⟨rfl, hdepth⟩))))
  | case4 value depth pending entries he hdepth violation hs =>
    have hscan := scanEntries_spec depth entries pending
    rw [hs] at hscan
    exact Finds.of_some (pendingViolates_cons.mpr (.inl ((violates_iff he _).mpr (.inr hscan))))
  | case5 value depth pending entries he hdepth next hs ih =>
    have hscan := scanEntries_spec depth entries pending
    rw [hs] at hscan
    refine (ih (hscan.2 fun p hp => h p (List.mem_cons_of_mem _ hp))).congr fun violation => ?_
    rw [hscan.1, pendingViolates_cons, violates_iff he]
    simp only [hdepth, and_false, false_or]

theorem findRequestBodyViolation_finds (body : JsValue) : Finds (findRequestBodyViolation body) (Violates body 1) := by
  unfold findRequestBodyViolation
  split
  · rename_i s
    refine (findStringViolation_finds s).congr fun violation => ?_
    rw [violates_leaf rfl]
    simp
  · rename_i hs
    have hno : NoStrings [(body, 1)] := by
      intro p hp s
      rw [List.mem_singleton.mp hp]
      exact fun he => hs s he
    refine (walk_finds [(body, 1)] hno).congr fun violation => ?_
    rw [pendingViolates_cons]
    simp [PendingViolates]

end Walk

structure Storable (body : JsValue) : Prop where
  depth : ∀ {n v}, Occurs body 1 n v → IsContainer v → n ≤ 32
  keys : ∀ {key}, HasKey body 1 key → key ∉ objectPrototypeNames ∧ key ≠ JsString.ofString "prototype"
  strings : ∀ {s}, HasString body 1 s → IsStorableText s

theorem storable_iff (body : JsValue) : Storable body ↔ ∀ violation, ¬ Violates body 1 violation := by
  constructor
  · rintro h (_ | _ | _ | _)
    · rintro ⟨n, v, hv, hc, hn⟩
      have := h.depth hv hc
      simp only [maxRequestBodyDepth] at hn
      omega
    · rintro ⟨s, hs, hcontrol⟩
      exact ((isStorableText_iff s).mp (h.strings hs)).1 hcontrol
    · rintro ⟨s, hs, hlone⟩
      exact ((isStorableText_iff s).mp (h.strings hs)).2 hlone
    · rintro ⟨key, hkey, hreserved⟩
      rcases List.mem_append.mp hreserved with hm | hm
      · exact (h.keys hkey).1 hm
      · exact (h.keys hkey).2 (List.mem_singleton.mp hm)
  · intro h
    refine ⟨fun {n v} hv hc => ?_, fun {key} hkey => ?_, fun {s} hs => ?_⟩
    · by_contra hn
      exact h .depth ⟨n, v, hv, hc, by simp only [maxRequestBodyDepth]; omega⟩
    · have hreserved : key ∉ reservedKeys := fun hm => h .reservedKey ⟨key, hkey, hm⟩
      simpa [reservedKeys, List.mem_append, not_or] using hreserved
    · exact (isStorableText_iff s).mpr
        ⟨fun hc => h .controlCharacter ⟨s, hs, hc⟩, fun hl => h .loneSurrogate ⟨s, hs, hl⟩⟩

theorem findRequestBodyViolation_eq_none_iff (body : JsValue) : findRequestBodyViolation body = none ↔ Storable body := by
  rw [(findRequestBodyViolation_finds body).eq_none_iff, storable_iff]

theorem requestBodyGuardMiddleware_ok_iff (body : JsValue) : requestBodyGuardMiddleware body = .ok () ↔ Storable body := by
  rw [← findRequestBodyViolation_eq_none_iff, requestBodyGuardMiddleware]
  cases findRequestBodyViolation body <;> simp

theorem requestBodyGuardMiddleware_error {body : JsValue} {e : Failure} (h : requestBodyGuardMiddleware body = .error e) :
    ∃ violation, Violates body 1 violation ∧ e = .api (.validation (violationMessages violation)) := by
  rw [requestBodyGuardMiddleware] at h
  cases hv : findRequestBodyViolation body with
  | none =>
    rw [hv] at h
    cases h
  | some violation =>
    rw [hv] at h
    cases h
    exact ⟨violation, (findRequestBodyViolation_finds body).sound hv, rfl⟩

theorem guard_accepts_storable (body : JsValue) :
    (findRequestBodyViolation body = none ↔ Storable body) ∧
      (∀ s, IsStorableText s ↔ (∀ u ∈ s, u.toNat < 0x20 → u.toNat = 9 ∨ u.toNat = 10 ∨ u.toNat = 13) ∧
        ¬ LoneSurrogate s) ∧
      ∀ violation, findRequestBodyViolation body = some violation → Violates body 1 violation := by
  refine ⟨findRequestBodyViolation_eq_none_iff body, fun s => ?_,
    fun violation h => (findRequestBodyViolation_finds body).sound h⟩
  rw [isStorableText_iff]
  refine and_congr_left fun _ => ?_
  simp only [HasControl, isForbiddenControl, not_exists, not_and, Bool.and_eq_true, decide_eq_true_eq]
  refine forall₂_congr fun u _ => ?_
  omega

end EventGateway.RequestBodyGuard
