import EventGateway.CanonicalJsValue

namespace EventGateway

namespace JsString

def char (u : UInt16) : Char := Char.ofNat u.toNat

def isWhiteSpace (u : UInt16) : Bool := Text.isWhiteSpace (char u)

def trim (s : JsString) : JsString := (s.dropWhile isWhiteSpace).rdropWhile isWhiteSpace

/-- `s.replace(/\s+/g, ' ')` -/
def collapseWhiteSpace : JsString → JsString
  | [] => []
  | [u] => if isWhiteSpace u then [32] else [u]
  | u :: v :: s =>
    if isWhiteSpace u then
      if isWhiteSpace v then collapseWhiteSpace (v :: s) else 32 :: collapseWhiteSpace (v :: s)
    else u :: collapseWhiteSpace (v :: s)

/-- Lower case on the ASCII letters. Outside them only U+212A has an ASCII lower case, `k`. -/
def toLowerCase (s : JsString) : JsString := s.map (fun u => if 65 ≤ u ∧ u ≤ 90 then u + 32 else u)

end JsString

inductive ErrorValue (ν : Type)
  | string (s : JsString)
  | object (reference : ν)
  | other

structure ErrorObject (ν : Type) where
  name : ErrorValue ν
  constructorName : ErrorValue ν
  message : ErrorValue ν
  stack : ErrorValue ν
  code : ErrorValue ν
  driverError : ErrorValue ν
  cause : ErrorValue ν
  errors : Option (List (ErrorValue ν))

def ErrorValue.string? {ν : Type} : ErrorValue ν → Option JsString
  | .string s => some s
  | _ => none

section Codes

variable {ν : Type} (heap : ν → ErrorObject ν)

def databaseUnavailableCodes : List JsString :=
  ["08000", "08001", "08003", "08004", "08006", "08007", "08P01", "57P01", "57P02", "57P03", "53300",
    "ECONNREFUSED", "ECONNRESET", "ETIMEDOUT", "ENOTFOUND", "EPIPE", "EHOSTUNREACH"].map JsString.ofString

def databaseUnavailableMessages : List JsString :=
  ["timeout exceeded when trying to connect",
    "connection terminated due to connection timeout",
    "connection terminated unexpectedly",
    "client has encountered a connection error and is not queryable"].map JsString.ofString

def nestedErrors (candidate : ErrorObject ν) : List (ErrorValue ν) :=
  candidate.driverError :: candidate.cause :: candidate.errors.getD []

def collectStrings (read : ErrorObject ν → ErrorValue ν) (error : ErrorValue ν) (depth : ℕ) : List JsString :=
  if depth > 4 then []
  else
    match error with
    | .object reference =>
      (read (heap reference)).string?.toList ++ collectStrings read (heap reference).driverError (depth + 1) ++
        collectStrings read (heap reference).cause (depth + 1) ++
        match (heap reference).errors with
        | some errors => errors.flatMap (fun nested => collectStrings read nested (depth + 1))
        | none => []
    | _ => []
termination_by 5 - depth

def collectErrorCodes (error : ErrorValue ν) (depth : ℕ) : List JsString := collectStrings heap ErrorObject.code error depth

def collectErrorMessages (error : ErrorValue ν) (depth : ℕ) : List JsString :=
  collectStrings heap ErrorObject.message error depth

def postgresDataExceptionPattern : JsString → Bool
  | u :: v :: s => u = 50 && v = 50 && s.length = 3 && s.all (fun u => (JsString.char u).isDigit || (JsString.char u).isUpper)
  | _ => false

def findPostgresDataExceptionCode (error : ErrorValue ν) : Option JsString :=
  (collectErrorCodes heap error 0).find? postgresDataExceptionPattern

def normalizeUnavailableMessage (message : JsString) : JsString :=
  JsString.toLowerCase (JsString.collapseWhiteSpace (JsString.trim message))

def isDatabaseUnavailableError (error : ErrorValue ν) : Bool :=
  let hasUnavailableCode := (collectErrorCodes heap error 0).any databaseUnavailableCodes.contains
  if hasUnavailableCode then true
  else (collectErrorMessages heap error 0).any
    (fun message => databaseUnavailableMessages.contains (normalizeUnavailableMessage message))

def recursiveCalls : ErrorValue ν × ℕ → List (ErrorValue ν × ℕ)
  | (.object reference, depth) =>
    if depth > 4 then [] else (nestedErrors (heap reference)).map (fun nested => (nested, depth + 1))
  | _ => []

theorem mem_recursiveCalls {nested : ErrorValue ν} {reference : ν} {depth : ℕ} (hdepth : depth ≤ 4)
    (hmem : nested ∈ nestedErrors (heap reference)) :
    (nested, depth + 1) ∈ recursiveCalls heap (.object reference, depth) := by
  rw [recursiveCalls, if_neg (Nat.not_lt.mpr hdepth)]
  exact List.mem_map.mpr ⟨nested, hmem, rfl⟩

theorem wellFounded_recursiveCalls : WellFounded (fun callee caller => callee ∈ recursiveCalls heap caller) := by
  refine Subrelation.wf ?_ (measure (fun call : ErrorValue ν × ℕ => 5 - call.2)).wf
  rintro callee ⟨error, depth⟩ hcall
  change 5 - callee.2 < 5 - depth
  cases error with
  | string s => cases hcall
  | other => cases hcall
  | object reference =>
    simp only [recursiveCalls] at hcall
    split_ifs at hcall with hdepth
    · cases hcall
    · obtain ⟨nested, -, rfl⟩ := List.mem_map.mp hcall
      omega

theorem collectErrorCodes_object (reference : ν) {depth : ℕ} (hdepth : depth ≤ 4) :
    collectErrorCodes heap (.object reference) depth = (heap reference).code.string?.toList ++
      (nestedErrors (heap reference)).flatMap (fun nested => collectErrorCodes heap nested (depth + 1)) := by
  rw [collectErrorCodes, collectStrings, if_neg (by omega)]
  cases herrors : (heap reference).errors with
  | none => simp [nestedErrors, herrors, collectErrorCodes]
  | some errors => simp [nestedErrors, herrors, collectErrorCodes]

theorem collectErrorCodes_eq_nil {error : ErrorValue ν} {depth : ℕ} (h : 4 < depth ∨ ∀ reference, error ≠ .object reference) :
    collectErrorCodes heap error depth = [] := by
  rw [collectErrorCodes, collectStrings.eq_def]
  split_ifs with hdepth
  · rfl
  · cases error with
    | object reference => exact absurd rfl ((h.resolve_left hdepth) reference)
    | string s => rfl
    | other => rfl

end Codes

end EventGateway
