import EventGateway.DatabaseError

namespace EventGateway

section Diagnostics

open JsString

variable {ν : Type} (heap : ν → ErrorObject ν)

def safeErrorNamePattern : JsString → Bool
  | u :: s => (char u).isAlpha && s.length ≤ 63 && s.all (fun u => (char u).isAlphanum || char u = '_')
  | [] => false

def safeCauseCodePattern (s : JsString) : Bool :=
  1 ≤ s.length && s.length ≤ 64 && s.all (fun u => (char u).isUpper || (char u).isDigit || char u = '_')

/-- `/^\s*at\s/` -/
def stackFramePattern (line : JsString) : Bool :=
  match line.dropWhile isWhiteSpace with
  | u :: v :: w :: _ => char u = 'a' && char v = 't' && isWhiteSpace w
  | _ => false

def includes (s pattern : JsString) : Bool := s.tails.any pattern.isPrefixOf

def nodeInternalFramePattern (line : JsString) : Bool :=
  includes line (ofString "(node:") || includes line (ofString "at node:")

def maxStackFrames : ℕ := 3

def maxCauseDepth : ℕ := 4

structure ErrorDiagnostics where
  errorName : Option JsString
  causeCode : Option JsString
  stackTop : Option JsString
deriving DecidableEq

def truthy (s : Option JsString) : Option JsString := s.filter (fun s => s ≠ [])

def resolveErrorName (error : ErrorObject ν) : Option JsString :=
  (error.name.string?.filter safeErrorNamePattern).or (error.constructorName.string?.filter safeErrorNamePattern)

def findCauseCode (error : ErrorValue ν) (depth : ℕ) : Option JsString :=
  if depth > maxCauseDepth then none
  else
    match error with
    | .object reference =>
      match (heap reference).code.string?.filter safeCauseCodePattern with
      | some code => some code
      | none => (nestedErrors (heap reference)).findSome? (fun nestedError => truthy (findCauseCode nestedError (depth + 1)))
    | _ => none
termination_by 5 - depth
decreasing_by simp only [maxCauseDepth] at *; omega

def lineFeed : UInt16 := 10

def stackTopLines (lines : List JsString) : List JsString :=
  ((lines.filter (fun line => stackFramePattern line && !nodeInternalFramePattern line)).take maxStackFrames).map trim

def extractStackTop (error : ErrorObject ν) : Option JsString :=
  error.stack.string?.bind fun stack =>
    let headerLineCount := (error.message.string?.map (fun message => (message.splitOn lineFeed).length)).getD 1
    let frames := stackTopLines ((stack.splitOn lineFeed).drop headerLineCount)
    if frames.length > 0 then some ((ofString " | ").intercalate frames) else none

def describeError : ErrorValue ν → ErrorDiagnostics
  | .object reference =>
    ⟨truthy (resolveErrorName (heap reference)), truthy (findCauseCode heap (.object reference) 0),
      truthy (extractStackTop (heap reference))⟩
  | _ => ⟨some (ofString "NonErrorValue"), none, none⟩

end Diagnostics

section SameSearch

variable {ν : Type} (heap : ν → ErrorObject ν)

theorem truthy_find? (codes : List JsString) :
    truthy (codes.find? safeCauseCodePattern) = codes.find? safeCauseCodePattern := by
  cases hfind : codes.find? safeCauseCodePattern with
  | none => rfl
  | some code =>
    have hsafe := List.find?_some hfind
    have hne : code ≠ [] := by
      rintro rfl
      simp [safeCauseCodePattern] at hsafe
    simp [truthy, hne]

theorem find?_toList (code : Option JsString) : code.toList.find? safeCauseCodePattern = code.filter safeCauseCodePattern := by
  cases code with
  | none => rfl
  | some code => simp [List.find?_singleton, Option.filter]

theorem findSome?_eq_of_forall_mem {α β : Type} {f g : α → Option β} {l : List α} (h : ∀ a ∈ l, f a = g a) :
    l.findSome? f = l.findSome? g := by
  induction l with
  | nil => rfl
  | cons a l ih =>
    simp only [List.findSome?_cons, h a (by simp)]
    rw [ih (fun b hb => h b (List.mem_cons_of_mem a hb))]

theorem findCauseCode_object (reference : ν) {depth : ℕ} (hdepth : depth ≤ maxCauseDepth) :
    findCauseCode heap (.object reference) depth = ((heap reference).code.string?.filter safeCauseCodePattern).or
      ((nestedErrors (heap reference)).findSome? (fun nestedError => truthy (findCauseCode heap nestedError (depth + 1)))) := by
  rw [findCauseCode.eq_def, if_neg (Nat.not_lt.mpr hdepth)]
  cases hcode : (heap reference).code.string?.filter safeCauseCodePattern with
  | none => simp only [hcode, Option.none_or]
  | some code => simp only [hcode, Option.some_or]

theorem findCauseCode_eq_none {error : ErrorValue ν} {depth : ℕ}
    (h : maxCauseDepth < depth ∨ ∀ reference, error ≠ .object reference) : findCauseCode heap error depth = none := by
  rw [findCauseCode.eq_def]
  split_ifs with hdepth
  · rfl
  · cases error with
    | object reference => exact absurd rfl ((h.resolve_left hdepth) reference)
    | string s => rfl
    | other => rfl

theorem findCauseCode_eq (error : ErrorValue ν) (depth : ℕ) :
    findCauseCode heap error depth = (collectErrorCodes heap error depth).find? safeCauseCodePattern := by
  have hcall : ∀ call : ErrorValue ν × ℕ,
      findCauseCode heap call.1 call.2 = (collectErrorCodes heap call.1 call.2).find? safeCauseCodePattern := by
    intro call
    induction call using (wellFounded_recursiveCalls heap).induction with
    | _ call ih =>
      obtain ⟨error, depth⟩ := call
      by_cases hleaf : maxCauseDepth < depth ∨ ∀ reference, error ≠ .object reference
      · rw [findCauseCode_eq_none heap hleaf, collectErrorCodes_eq_nil heap hleaf, List.find?_nil]
      · simp only [not_or, not_lt, not_forall, not_not] at hleaf
        obtain ⟨hdepth, reference, rfl⟩ := hleaf
        -- below this object both walk the same nested errors, one depth further down
        have hnested : ∀ nested ∈ nestedErrors (heap reference), truthy (findCauseCode heap nested (depth + 1)) =
            (collectErrorCodes heap nested (depth + 1)).find? safeCauseCodePattern := by
          intro nested hmem
          rw [ih (nested, depth + 1) (mem_recursiveCalls heap hdepth hmem), truthy_find?]
        rw [findCauseCode_object heap reference hdepth, collectErrorCodes_object heap reference hdepth,
          List.find?_append, find?_toList, List.find?_flatMap, findSome?_eq_of_forall_mem hnested]
  exact hcall (error, depth)

theorem findCauseCode_congr {heap heap' : ν → ErrorObject ν}
    (hcode : ∀ reference, (heap reference).code = (heap' reference).code)
    (hnested : ∀ reference, nestedErrors (heap reference) = nestedErrors (heap' reference)) (error : ErrorValue ν) (depth : ℕ) :
    findCauseCode heap error depth = findCauseCode heap' error depth := by
  have hcall : ∀ call : ErrorValue ν × ℕ, findCauseCode heap call.1 call.2 = findCauseCode heap' call.1 call.2 := by
    intro call
    induction call using (wellFounded_recursiveCalls heap).induction with
    | _ call ih =>
      obtain ⟨error, depth⟩ := call
      by_cases hleaf : maxCauseDepth < depth ∨ ∀ reference, error ≠ .object reference
      · rw [findCauseCode_eq_none heap hleaf, findCauseCode_eq_none heap' hleaf]
      · simp only [not_or, not_lt, not_forall, not_not] at hleaf
        obtain ⟨hdepth, reference, rfl⟩ := hleaf
        have hbelow : ∀ nested ∈ nestedErrors (heap reference), truthy (findCauseCode heap nested (depth + 1)) =
            truthy (findCauseCode heap' nested (depth + 1)) := by
          intro nested hmem
          rw [ih (nested, depth + 1) (mem_recursiveCalls heap hdepth hmem)]
        rw [findCauseCode_object heap reference hdepth, findCauseCode_object heap' reference hdepth, ← hcode, ← hnested,
          findSome?_eq_of_forall_mem hbelow]
  exact hcall (error, depth)

theorem describeError_causeCode (error : ErrorValue ν) :
    (describeError heap error).causeCode = (collectErrorCodes heap error 0).find? safeCauseCodePattern := by
  cases error with
  | string s => rw [collectErrorCodes_eq_nil heap (.inr (by simp))]; rfl
  | other => rw [collectErrorCodes_eq_nil heap (.inr (by simp))]; rfl
  | object reference => rw [← truthy_find?, ← findCauseCode_eq]; rfl

theorem safe_of_unavailable {code : JsString} (h : code ∈ databaseUnavailableCodes) : safeCauseCodePattern code = true := by
  have hall : ∀ code ∈ databaseUnavailableCodes, safeCauseCodePattern code = true :=
    List.forall_iff_forall_mem.mp (by decide)
  exact hall code h

theorem safe_of_dataException {code : JsString} (h : postgresDataExceptionPattern code = true) :
    safeCauseCodePattern code = true := by
  match code with
  | u :: v :: s =>
    simp only [postgresDataExceptionPattern, Bool.and_eq_true, decide_eq_true_eq] at h
    obtain ⟨⟨⟨rfl, rfl⟩, hlength⟩, hall⟩ := h
    have hrest : s.all (fun u => (JsString.char u).isUpper || (JsString.char u).isDigit || JsString.char u = '_') = true := by
      rw [List.all_eq_true] at hall ⊢
      intro u hu
      have := hall u hu
      grind
    have htwo : ((JsString.char 50).isUpper || (JsString.char 50).isDigit || JsString.char 50 = '_') = true := by decide
    simp [safeCauseCodePattern, hlength, hrest, htwo]

theorem cause_code_is_first_safe_code (error : ErrorValue ν) :
    WellFounded (fun callee caller => callee ∈ recursiveCalls heap caller) ∧
      findCauseCode heap error 0 = (collectErrorCodes heap error 0).find? safeCauseCodePattern ∧
      (findCauseCode heap error 0 = none ↔ ∀ code ∈ collectErrorCodes heap error 0, safeCauseCodePattern code = false) ∧
      (∀ before code after, collectErrorCodes heap error 0 = before ++ code :: after →
        code ∈ databaseUnavailableCodes ∨ findPostgresDataExceptionCode heap error = some code →
        (describeError heap error).causeCode.isSome = true ∧
          ((∀ other ∈ before, safeCauseCodePattern other = true → other = code) →
            (describeError heap error).causeCode = some code)) := by
  refine ⟨wellFounded_recursiveCalls heap, findCauseCode_eq heap error 0, ?_, ?_⟩
  · rw [findCauseCode_eq, List.find?_eq_none]
    simp only [Bool.not_eq_true]
  · intro before code after hcodes hcode
    have hsafe : safeCauseCodePattern code = true := by
      rcases hcode with hcode | hcode
      · exact safe_of_unavailable hcode
      · exact safe_of_dataException (List.find?_some hcode)
    rw [describeError_causeCode, hcodes]
    refine ⟨List.find?_isSome.mpr ⟨code, by simp, hsafe⟩, fun hbefore => ?_⟩
    rw [List.find?_append]
    cases hfind : before.find? safeCauseCodePattern with
    | none => simp [hsafe]
    | some other =>
      have hother := hbefore other (List.mem_of_find?_eq_some hfind) (List.find?_some hfind)
      simp [hother]

def shutdownError : ErrorObject Unit where
  name := .string (JsString.ofString "QueryFailedError")
  constructorName := .string (JsString.ofString "QueryFailedError")
  message := .string (JsString.ofString "terminating connection")
  stack := .other
  code := .string (JsString.ofString "57P01")
  driverError := .object ()
  cause := .object ()
  errors := some [.object (), .other]

theorem cause_code_is_first_safe_code_shutdown :
    (describeError (fun _ => shutdownError) (.object ())).causeCode = some (JsString.ofString "57P01") := by
  have hcodes := collectErrorCodes_object (fun _ => shutdownError) () (Nat.zero_le 4)
  have hcode : JsString.ofString "57P01" ∈ databaseUnavailableCodes ∨
      findPostgresDataExceptionCode (fun _ => shutdownError) (.object ()) = some (JsString.ofString "57P01") :=
    .inl (by decide)
  have hcause := (cause_code_is_first_safe_code (fun _ => shutdownError) (.object ())).2.2.2 [] _ _ hcodes hcode
  exact hcause.2 (by simp)

end SameSearch

section Messages

open JsString

variable {ν : Type} [DecidableEq ν]

abbrev Line := {line : JsString // lineFeed ∉ line}

def stackHeader (name message : JsString) : JsString :=
  if message = [] then name else if name = [] then message else name ++ ofString ": " ++ message

def renderStack (name : Line) (message : JsString) (frames : List Line) : JsString :=
  [lineFeed].intercalate (stackHeader name.1 message :: frames.map Subtype.val)

def withMessage (heap : ν → ErrorObject ν) (reference : ν) (name : Line) (frames : List Line) (message : JsString) :
    ν → ErrorObject ν :=
  Function.update heap reference
    { heap reference with message := .string message, stack := .string (renderStack name message frames) }

theorem length_splitOn_append {p : JsString} (hp : lineFeed ∉ p) (s : JsString) :
    ((p ++ s).splitOn lineFeed).length = (s.splitOn lineFeed).length := by
  induction p with
  | nil => rfl
  | cons u p ih =>
    have hu : (u == lineFeed) = false := by
      simp only [beq_eq_false_iff_ne]
      rintro rfl
      simp at hp
    rw [List.cons_append, List.splitOn_cons_eq_if_modifyHead, hu]
    simp only [Bool.false_eq_true, ↓reduceIte, List.length_modifyHead]
    exact ih (fun h => hp (List.mem_cons_of_mem u h))

theorem length_splitOn_stackHeader (name : Line) (message : JsString) :
    ((stackHeader name.1 message).splitOn lineFeed).length = (message.splitOn lineFeed).length := by
  rw [stackHeader]
  split_ifs with hmessage hname
  · rw [hmessage, List.splitOn_eq_singleton name.2, List.splitOn_nil]
    rfl
  · rfl
  · apply length_splitOn_append
    simpa using ⟨name.2, by decide⟩

theorem splitOn_renderStack (name : Line) (message : JsString) (frames : List Line) :
    (renderStack name message frames).splitOn lineFeed =
      (stackHeader name.1 message).splitOn lineFeed ++ frames.map Subtype.val := by
  cases frames with
  | nil => simp [renderStack]
  | cons frame frames =>
    have hlines : ∀ line ∈ (frame :: frames).map Subtype.val, lineFeed ∉ line := by
      intro line hline
      obtain ⟨frame, -, rfl⟩ := List.mem_map.mp hline
      exact frame.2
    have hframes := List.splitOn_intercalate lineFeed hlines (by simp)
    simp only [renderStack, List.map_cons, List.intercalate_cons_cons, List.append_assoc, List.singleton_append] at hframes ⊢
    rw [List.splitOn_append_cons_self, hframes]

theorem stackTopLines_sublist (frames : List JsString) : (stackTopLines frames).Sublist (frames.map trim) := by
  apply List.Sublist.map
  exact (List.take_sublist _ _).trans List.filter_sublist

theorem length_stackTopLines (frames : List JsString) : (stackTopLines frames).length ≤ 3 := by
  simp only [stackTopLines, List.length_map, List.length_take, maxStackFrames]
  omega

theorem trim_ne_nil_of_frame {line : JsString} (h : stackFramePattern line = true) : trim line ≠ [] := by
  intro htrim
  simp only [stackFramePattern] at h
  split at h
  · rename_i u v w rest hline
    simp only [Bool.and_eq_true, decide_eq_true_eq] at h
    have hspace : isWhiteSpace u = true := by
      simp only [trim, hline, List.rdropWhile_eq_nil_iff] at htrim
      exact htrim u (by simp)
    rw [isWhiteSpace, h.1.1] at hspace
    exact absurd hspace (by decide)
  · cases h

theorem intercalate_ne_nil {frames : List JsString} {line : JsString} {lines : List JsString}
    (h : stackTopLines frames = line :: lines) : (ofString " | ").intercalate (line :: lines) ≠ [] := by
  have hmem : line ∈ stackTopLines frames := by
    rw [h]
    exact List.mem_cons_self
  obtain ⟨frame, hframe, rfl⟩ := List.mem_map.mp hmem
  have hpattern := (List.mem_filter.mp (List.mem_of_mem_take hframe)).2
  simp only [Bool.and_eq_true] at hpattern
  have hne := trim_ne_nil_of_frame hpattern.1
  cases lines with
  | nil => simpa using hne
  | cons next lines => simp [List.intercalate_cons_cons, hne]

theorem extractStackTop_withMessage (heap : ν → ErrorObject ν) (reference : ν) (name : Line) (frames : List Line)
    (message : JsString) :
    truthy (extractStackTop (withMessage heap reference name frames message reference)) =
      if stackTopLines (frames.map Subtype.val) = [] then none
      else some ((ofString " | ").intercalate (stackTopLines (frames.map Subtype.val))) := by
  have hframes : ((renderStack name message frames).splitOn lineFeed).drop (message.splitOn lineFeed).length =
      frames.map Subtype.val := by
    rw [splitOn_renderStack, ← length_splitOn_stackHeader name message, List.drop_left]
  have htop : extractStackTop (withMessage heap reference name frames message reference) =
      if (stackTopLines (frames.map Subtype.val)).length > 0 then
        some ((ofString " | ").intercalate (stackTopLines (frames.map Subtype.val))) else none := by
    simp only [extractStackTop, withMessage, Function.update_self, ErrorValue.string?, Option.bind_some, Option.map_some,
      Option.getD_some, hframes]
  rw [htop]
  cases hlines : stackTopLines (frames.map Subtype.val) with
  | nil => rfl
  | cons line lines =>
    have hne := intercalate_ne_nil hlines
    simp [truthy, hne]

theorem withMessage_other {heap : ν → ErrorObject ν} {reference r : ν} {name : Line} {frames : List Line}
    {message : JsString} {α : Type} (read : ErrorObject ν → α)
    (hread : ∀ o message stack, read { o with message := message, stack := stack } = read o) :
    read (withMessage heap reference name frames message r) = read (heap r) := by
  by_cases hr : r = reference
  · subst hr
    rw [withMessage, Function.update_self]
    exact hread _ _ _
  · rw [withMessage, Function.update_of_ne hr]

theorem diagnostics_do_not_depend_on_message (heap : ν → ErrorObject ν) (reference : ν) (name : Line) (frames : List Line)
    (m₁ m₂ : JsString) :
    describeError (withMessage heap reference name frames m₁) (.object reference) =
        describeError (withMessage heap reference name frames m₂) (.object reference) ∧
      ∃ parts : List JsString, parts.Sublist (frames.map (fun frame => trim frame.1)) ∧ parts.length ≤ 3 ∧
        (describeError (withMessage heap reference name frames m₁) (.object reference)).stackTop =
          if parts = [] then none else some ((ofString " | ").intercalate parts) := by
  constructor
  · have hname : ∀ message, resolveErrorName (withMessage heap reference name frames message reference) =
        resolveErrorName (heap reference) := fun message => withMessage_other resolveErrorName (fun _ _ _ => rfl)
    have hcode : ∀ message, findCauseCode (withMessage heap reference name frames message) (.object reference) 0 =
        findCauseCode heap (.object reference) 0 := by
      intro message
      apply findCauseCode_congr
      · intro r
        exact withMessage_other ErrorObject.code (fun _ _ _ => rfl)
      · intro r
        exact withMessage_other nestedErrors (fun _ _ _ => rfl)
    simp only [describeError, hname, hcode, extractStackTop_withMessage]
  · refine ⟨stackTopLines (frames.map Subtype.val), ?_, length_stackTopLines _, ?_⟩
    · have hsub := stackTopLines_sublist (frames.map Subtype.val)
      rwa [List.map_map] at hsub
    · exact extractStackTop_withMessage heap reference name frames m₁

end Messages

end EventGateway
