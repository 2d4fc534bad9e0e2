import EventGateway.JsonFields
import EventGateway.StructuredLogger

namespace EventGateway

open JsString JsonPrinting StructuredLogger

inductive StatusNumber
  | finite (q : ℚ)
  | infinite (negative : Bool)
  | nan
deriving DecidableEq

structure ExceptionObject (ν : Type) extends ErrorObject ν where
  isError : Bool
  status : Option StatusNumber
  statusCode : Option StatusNumber
  httpException : Option (StatusNumber × JsValue)

namespace CorrelationIdExceptionFilter

abbrev Body := List (JsString × JsValue)

def textField (body : Body) (name : String) : Option JsString :=
  match Tree.field body (ofString name) with
  | some (.str s) => some s
  | _ => none

/-- `/^[A-Z0-9_:-]{1,128}$/` -/
def isSafeErrorCode (s : JsString) : Bool :=
  1 ≤ s.length && s.length ≤ 128 &&
    s.all (fun u => (char u).isUpper || (char u).isDigit || char u = '_' || char u = ':' || char u = '-')

structure ResolvedError where
  status : StatusNumber
  body : Body
  dataExceptionCode : Option JsString

def envelope (error message : String) : Body :=
  [(ofString "error", .str (ofString error)), (ofString "message", .str (ofString message))]

def statusErrorEnvelopes : List (ℚ × Body) :=
  [(400, envelope "VALIDATION_ERROR" "Request could not be processed."),
    (404, envelope "NOT_FOUND" "Resource not found."),
    (413, envelope "PAYLOAD_TOO_LARGE" "Request body exceeds the size limit."),
    (415, envelope "UNSUPPORTED_MEDIA_TYPE" "Request body encoding or charset is not supported."),
    (429, envelope "RATE_LIMITED" "Too many requests; retry after the delay in the Retry-After header.")]

def unexpected : Body := envelope "INTERNAL_SERVER_ERROR" "Unexpected server error."

def httpError : Body := envelope "HTTP_ERROR" "Request could not be processed."

def datastoreUnavailable : Body := envelope "SERVICE_UNAVAILABLE" "A required datastore is temporarily unavailable."

def isServerError : StatusNumber → Bool
  | .finite q => 500 ≤ q
  | .infinite negative => !negative
  | .nan => false

def envelopeForStatus (status : StatusNumber) : Body :=
  let known := match status with
    | .finite q => statusErrorEnvelopes.lookup q
    | _ => none
  match known with
  | some body => body
  | none => if isServerError status then unexpected else httpError

def isErrorEnvelope : JsValue → Bool
  | .obj entries => (textField entries "error").any isSafeErrorCode && (textField entries "message").isSome
  | _ => false

def spread : JsValue → Body
  | .obj entries => entries
  | _ => []

section Resolve

variable {ν : Type} (heap : ν → ExceptionObject ν)

def errors (reference : ν) : ErrorObject ν := (heap reference).toErrorObject

def httpException (exception : ErrorValue ν) : Option (StatusNumber × JsValue) :=
  match exception with
  | .object reference => (heap reference).httpException
  | _ => none

/-- Neither `NaN < 400` nor `NaN > 599`. -/
def isHttpErrorStatus : StatusNumber → Bool
  | .finite q => 400 ≤ q && q ≤ 599
  | .infinite _ => false
  | .nan => true

def extractHttpErrorStatus (exception : ErrorValue ν) : Option StatusNumber :=
  match exception with
  | .object reference => ((heap reference).status.or (heap reference).statusCode).filter isHttpErrorStatus
  | _ => none

def resolve (exception : ErrorValue ν) : ResolvedError :=
  match httpException heap exception with
  | some (status, response) =>
    ⟨status, if isErrorEnvelope response then spread response else envelopeForStatus status, none⟩
  | none =>
    if isDatabaseUnavailableError (errors heap) exception then ⟨.finite 503, datastoreUnavailable, none⟩
    else
      match findPostgresDataExceptionCode (errors heap) exception with
      | some code => ⟨.finite 400, envelope "VALIDATION_ERROR" "Request could not be processed.", some code⟩
      | none =>
        match extractHttpErrorStatus heap exception with
        | some status => ⟨status, envelopeForStatus status, none⟩
        | none => ⟨.finite 500, unexpected, none⟩

def getHttpExceptionErrorCode (error : ErrorValue ν) : Option JsString :=
  match httpException heap error with
  | some (_, .obj entries) => (textField entries "error").filter isSafeErrorCode
  | _ => none

def toSafeErrorCode (error : ErrorValue ν) (fallback : JsString) : JsString :=
  match getHttpExceptionErrorCode heap error with
  | some code => code
  | none =>
    match error with
    | .object reference =>
      if (heap reference).isError then (((heap reference).message.string?.filter isSafeErrorCode)).getD fallback else fallback
    | _ => fallback

def resolveLogErrorCode (exception : ErrorValue ν) (body : Body) : JsString :=
  toSafeErrorCode heap exception
    (((textField body "error").filter isSafeErrorCode).getD (ofString "INTERNAL_SERVER_ERROR"))

end Resolve

def resolveCorrelationId (active : Option RequestContext) (responseHeader requestHeader : Option Text)
    (fresh : FreshContext) : Text :=
  match (active.map RequestContext.correlationId).filter (fun c => c ≠ []) with
  | some c => c
  | none =>
    match responseHeader.filter (fun c => c ≠ []) with
    | some c => c
    | none => (createRequestContext requestHeader fresh).correlationId

structure Handled where
  logs : List (LogLevel × JsString × List (JsString × LogValue))
  status : StatusNumber
  header : Text
  body : Body

def statusField : StatusNumber → LogValue
  | .finite q => .number (.finite q)
  | .infinite negative => .number (.infinity negative)
  | .nan => .other

def optionalField : Option JsString → LogValue
  | some s => .string s
  | none => .other

def handle {ν : Type} (heap : ν → ExceptionObject ν) (exception : ErrorValue ν) (correlationId : Text) : Handled :=
  let resolved := resolve heap exception
  let body := assign resolved.body (ofString "correlationId") (.str (ofText correlationId))
  let shared := [(ofString "correlationId", LogValue.string (ofText correlationId)),
    (ofString "status", statusField resolved.status)]
  let logs :=
    if isServerError resolved.status then
      let diagnostics := describeError (errors heap) exception
      [(.error, ofString "http_request_failed", shared ++
        [(ofString "errorCode", .string (resolveLogErrorCode heap exception body)),
          (ofString "errorName", optionalField diagnostics.errorName),
          (ofString "causeCode", optionalField diagnostics.causeCode),
          (ofString "stackTop", optionalField diagnostics.stackTop)])]
    else
      match resolved.dataExceptionCode with
      | some code =>
        [(.warn, ofString "http_request_data_exception", shared ++
          [(ofString "errorCode", .string (ofString "DATABASE_DATA_EXCEPTION")), (ofString "causeCode", .string code)])]
      | none => []
  ⟨logs, resolved.status, correlationId, body⟩

section Bodies

theorem field_replace (entry : Body) (key : JsString) (value : JsValue) (name : JsString) :
    Tree.field (entry.map (fun e => if e.1 = key then (key, value) else e)) name =
      if name = key then (Tree.field entry name).map (fun _ => value) else Tree.field entry name := by
  induction entry with
  | nil => simp [Tree.field]
  | cons e entry ih =>
    rw [List.map_cons, Tree.field_cons, Tree.field_cons, ih]
    by_cases hkey : e.1 = key
    · by_cases hname : name = key
      · simp [hkey, hname]
      · simp [hkey, hname, Ne.symm hname]
    · by_cases hname : name = key
      · simp [hkey, hname]
      · simp [hkey, hname]

theorem field_assign (entry : Body) (key : JsString) (value : JsValue) (name : JsString) :
    Tree.field (assign entry key value) name = if name = key then some value else Tree.field entry name := by
  simp only [assign, List.contains_iff_mem]
  by_cases hmem : key ∈ entry.map Prod.fst
  · rw [if_pos hmem, field_replace]
    split_ifs with hname
    · have hsome : Tree.field entry name ≠ none := fun h => Tree.field_eq_none_iff.mp h (hname ▸ hmem)
      obtain ⟨v, hv⟩ := Option.ne_none_iff_exists'.mp hsome
      rw [hv, Option.map_some]
    · rfl
  · rw [if_neg hmem, Tree.field_append, Tree.field_cons]
    split_ifs with hname hname' hname'
    · rw [hname', Tree.field_eq_none_iff.mpr hmem, Option.none_or]
    · exact absurd hname.symm hname'
    · exact absurd hname'.symm hname
    · rw [show Tree.field ([] : Body) name = none from rfl, Option.or_none]

theorem textField_assign {entry : Body} {key : String} {value : JsValue} {name : String}
    (h : ofString name ≠ ofString key) : textField (assign entry (ofString key) value) name = textField entry name := by
  unfold textField
  rw [field_assign, if_neg h]

theorem textField_assign_self (entry : Body) (key : String) (s : JsString) :
    textField (assign entry (ofString key) (.str s)) key = some s := by
  unfold textField
  rw [field_assign, if_pos rfl]

def fixedEnvelopes : List Body := statusErrorEnvelopes.map Prod.snd ++ [unexpected, httpError, datastoreUnavailable]

theorem envelopeForStatus_fixed (status : StatusNumber) : envelopeForStatus status ∈ fixedEnvelopes := by
  have hunknown : (if isServerError status then unexpected else httpError) ∈ fixedEnvelopes := by
    split_ifs <;> simp [fixedEnvelopes]
  unfold envelopeForStatus
  cases status with
  | finite q =>
    cases hknown : statusErrorEnvelopes.lookup q with
    | some body =>
      obtain ⟨before, after, hsplit, -⟩ := List.lookup_eq_some_iff.mp hknown
      have hmem : (q, body) ∈ statusErrorEnvelopes := by simp [hsplit]
      simp only [hknown]
      exact List.mem_append_left _ (List.mem_map.mpr ⟨_, hmem, rfl⟩)
    | none => simpa only [hknown] using hunknown
  | _ => exact hunknown

theorem isErrorEnvelope_fixed : ∀ body ∈ fixedEnvelopes, isErrorEnvelope (.obj body) = true :=
  List.forall_iff_forall_mem.mp (by decide +kernel)

variable {ν : Type} {heap heap' : ν → ExceptionObject ν}

theorem resolve_source (exception : ErrorValue ν) :
    (∃ status entries, httpException heap exception = some (status, .obj entries) ∧
      isErrorEnvelope (.obj entries) = true ∧ (resolve heap exception).body = entries) ∨
      (resolve heap exception).body ∈ fixedEnvelopes := by
  unfold resolve
  cases hhttp : httpException heap exception with
  | some http =>
    obtain ⟨status, response⟩ := http
    cases henvelope : isErrorEnvelope response with
    | true =>
      cases response with
      | obj entries => exact .inl ⟨status, entries, rfl, henvelope, by simp [henvelope, spread]⟩
      | _ => cases henvelope
    | false => exact .inr (by simpa [henvelope] using envelopeForStatus_fixed status)
  | none =>
    refine .inr ?_
    simp only
    split_ifs
    · simp [fixedEnvelopes]
    · split
      · simp [fixedEnvelopes, statusErrorEnvelopes]
      · split
        · exact envelopeForStatus_fixed _
        · simp [fixedEnvelopes]

theorem isErrorEnvelope_resolve (exception : ErrorValue ν) : isErrorEnvelope (.obj (resolve heap exception).body) = true := by
  rcases resolve_source exception with ⟨status, entries, -, henvelope, hbody⟩ | hfixed
  · rw [hbody]
    exact henvelope
  · exact isErrorEnvelope_fixed _ hfixed

theorem isSafeErrorCode_toSafeErrorCode (error : ErrorValue ν) {fallback : JsString} (h : isSafeErrorCode fallback = true) :
    isSafeErrorCode (toSafeErrorCode heap error fallback) = true := by
  have hfilter (s : Option JsString) : isSafeErrorCode ((s.filter isSafeErrorCode).getD fallback) = true := by
    cases hs : s.filter isSafeErrorCode with
    | none => exact h
    | some code => exact (Option.filter_eq_some_iff.mp hs).2
  unfold toSafeErrorCode
  split
  · rename_i code hcode
    unfold getHttpExceptionErrorCode at hcode
    split at hcode
    · exact (Option.filter_eq_some_iff.mp hcode).2
    · cases hcode
  · split
    · split_ifs
      · exact hfilter _
      · exact h
    · exact h

theorem isSafeErrorCode_log (exception : ErrorValue ν) (body : Body) :
    isSafeErrorCode (resolveLogErrorCode heap exception body) = true := by
  apply isSafeErrorCode_toSafeErrorCode
  cases hcode : (textField body "error").filter isSafeErrorCode with
  | none => decide +kernel
  | some code => exact (Option.filter_eq_some_iff.mp hcode).2

end Bodies

section Skeletons

variable {ν γ : Type}

theorem collectStrings_object (heap : ν → ErrorObject ν) (read : ErrorObject ν → ErrorValue ν) (reference : ν) {depth : ℕ}
    (hdepth : depth ≤ 4) : collectStrings heap read (.object reference) depth = (read (heap reference)).string?.toList ++
      (nestedErrors (heap reference)).flatMap (fun nested => collectStrings heap read nested (depth + 1)) := by
  rw [collectStrings, if_neg (by omega)]
  cases herrors : (heap reference).errors with
  | none => simp [nestedErrors, herrors]
  | some errors => simp [nestedErrors, herrors]

theorem collectStrings_eq_nil (heap : ν → ErrorObject ν) (read : ErrorObject ν → ErrorValue ν) {error : ErrorValue ν}
    {depth : ℕ} (h : 4 < depth ∨ ∀ reference, error ≠ .object reference) : collectStrings heap read error depth = [] := by
  rw [collectStrings.eq_def]
  split_ifs with hdepth
  · rfl
  · cases error with
    | object reference => exact absurd rfl ((h.resolve_left hdepth) reference)
    | string s => rfl
    | other => rfl

theorem filterMap_collectStrings {heap heap' : ν → ErrorObject ν} (read : ErrorObject ν → ErrorValue ν)
    (g : JsString → Option γ)
    (hnested : ∀ reference, nestedErrors (heap reference) = nestedErrors (heap' reference))
    (hread : ∀ reference, (read (heap reference)).string?.toList.filterMap g =
      (read (heap' reference)).string?.toList.filterMap g) (error : ErrorValue ν) (depth : ℕ) :
    (collectStrings heap read error depth).filterMap g = (collectStrings heap' read error depth).filterMap g := by
  have hcall : ∀ call : ErrorValue ν × ℕ,
      (collectStrings heap read call.1 call.2).filterMap g = (collectStrings heap' read call.1 call.2).filterMap g := by
    intro call
    induction call using (wellFounded_recursiveCalls heap).induction with
    | _ call ih =>
      obtain ⟨error, depth⟩ := call
      by_cases hleaf : 4 < depth ∨ ∀ reference, error ≠ .object reference
      · rw [collectStrings_eq_nil heap read hleaf, collectStrings_eq_nil heap' read hleaf]
      · simp only [not_or, not_lt, not_forall, not_not] at hleaf
        obtain ⟨hdepth, reference, rfl⟩ := hleaf
        rw [collectStrings_object heap read reference hdepth, collectStrings_object heap' read reference hdepth,
          List.filterMap_append, List.filterMap_append, hread, List.filterMap_flatMap, List.filterMap_flatMap, ← hnested]
        congr 1
        apply List.flatMap_congr
        exact fun nested hmem => ih (nested, depth + 1) (mem_recursiveCalls heap hdepth hmem)
  exact hcall (error, depth)

def isUnavailableMessage (message : JsString) : Bool :=
  databaseUnavailableMessages.contains (normalizeUnavailableMessage message)

/-- The two heaps may differ in the names, the stacks and the messages of their errors, except that a message by
which an unavailable database is recognised stands in both or in neither. -/
structure SameSkeleton (heap heap' : ν → ExceptionObject ν) : Prop where
  code : ∀ reference, (heap reference).code = (heap' reference).code
  nested : ∀ reference, nestedErrors (errors heap reference) = nestedErrors (errors heap' reference)
  message : ∀ reference, (heap reference).message.string?.any isUnavailableMessage =
    (heap' reference).message.string?.any isUnavailableMessage
  status : ∀ reference, (heap reference).status = (heap' reference).status
  statusCode : ∀ reference, (heap reference).statusCode = (heap' reference).statusCode
  httpException : ∀ reference, (heap reference).httpException = (heap' reference).httpException

variable {heap heap' : ν → ExceptionObject ν}

theorem SameSkeleton.codes (h : SameSkeleton heap heap') (error : ErrorValue ν) :
    collectErrorCodes (errors heap) error 0 = collectErrorCodes (errors heap') error 0 := by
  have hcodes := filterMap_collectStrings ErrorObject.code some h.nested
    (fun reference => by rw [show (errors heap reference).code = (errors heap' reference).code from h.code reference]) error 0
  rwa [List.filterMap_some, List.filterMap_some] at hcodes

theorem SameSkeleton.unavailable (h : SameSkeleton heap heap') (error : ErrorValue ν) :
    isDatabaseUnavailableError (errors heap) error = isDatabaseUnavailableError (errors heap') error := by
  have hany (messages : List JsString) : messages.any isUnavailableMessage =
      !(messages.filterMap (fun m => if isUnavailableMessage m then some () else none)).isEmpty := by
    induction messages with
    | nil => rfl
    | cons m messages ih => cases hm : isUnavailableMessage m <;> simp [hm, ih]
  have hkept (message : Option JsString) : message.toList.filterMap
      (fun m => if isUnavailableMessage m then some () else none) = if message.any isUnavailableMessage then [()] else [] := by
    cases message with
    | none => rfl
    | some m => cases hm : isUnavailableMessage m <;> simp [hm]
  have hmessages := filterMap_collectStrings ErrorObject.message
    (fun m => if isUnavailableMessage m then some () else none) h.nested ?_ error 0
  · unfold isDatabaseUnavailableError
    rw [h.codes error]
    have hsame : (collectErrorMessages (errors heap) error 0).any isUnavailableMessage =
        (collectErrorMessages (errors heap') error 0).any isUnavailableMessage := by
      rw [hany, hany]
      exact congrArg (fun l => !l.isEmpty) hmessages
    unfold isUnavailableMessage at hsame
    rw [hsame]
  · intro reference
    rw [hkept, hkept]
    unfold errors
    rw [h.message reference]

theorem SameSkeleton.resolve_eq (h : SameSkeleton heap heap') (exception : ErrorValue ν) :
    resolve heap exception = resolve heap' exception := by
  have hhttp : CorrelationIdExceptionFilter.httpException heap exception =
      CorrelationIdExceptionFilter.httpException heap' exception := by
    cases exception with
    | object reference => exact h.httpException reference
    | _ => rfl
  have hstatus : extractHttpErrorStatus heap exception = extractHttpErrorStatus heap' exception := by
    cases exception with
    | object reference => simp only [extractHttpErrorStatus, h.status reference, h.statusCode reference]
    | _ => rfl
  have hdata : findPostgresDataExceptionCode (errors heap) exception =
      findPostgresDataExceptionCode (errors heap') exception := by
    simp only [findPostgresDataExceptionCode, h.codes exception]
  unfold resolve
  rw [hhttp, h.unavailable exception, hdata, hstatus]

end Skeletons

section Handling

variable {ν : Type} {heap heap' : ν → ExceptionObject ν} {exception : ErrorValue ν}

def catchException (heap : ν → ExceptionObject ν) (exception : ErrorValue ν) (active : Option RequestContext)
    (responseHeader requestHeader : Option Text) (fresh : FreshContext) : Handled :=
  handle heap exception (resolveCorrelationId active responseHeader requestHeader fresh)

structure Discreet (heap : ν → ExceptionObject ν) (exception : ErrorValue ν) (handled : Handled) : Prop where
  source : (∃ status entries, httpException heap exception = some (status, .obj entries) ∧
      isErrorEnvelope (.obj entries) = true ∧
      handled.body = assign entries (ofString "correlationId") (.str (ofText handled.header))) ∨
    ∃ fixed ∈ fixedEnvelopes, handled.body = assign fixed (ofString "correlationId") (.str (ofText handled.header))
  envelope : isErrorEnvelope (.obj handled.body) = true
  correlationId : textField handled.body "correlationId" = some (ofText handled.header)
  header : OutboxDispatcher.normalizeCorrelationId handled.header = some handled.header
  logs : ∀ log ∈ handled.logs, ∃ code, (ofString "errorCode", .string code) ∈ log.2.2 ∧ isSafeErrorCode code = true

theorem resolveCorrelationId_normalized {active : Option RequestContext} {responseHeader requestHeader : Option Text}
    {fresh : FreshContext}
    (hactive : ∀ context, active = some context → ∃ inbound fresh, context = createRequestContext inbound fresh)
    (hheader : ∀ c, responseHeader = some c → OutboxDispatcher.normalizeCorrelationId c = some c) :
    OutboxDispatcher.normalizeCorrelationId (resolveCorrelationId active responseHeader requestHeader fresh) =
      some (resolveCorrelationId active responseHeader requestHeader fresh) := by
  unfold resolveCorrelationId
  split
  · rename_i c hc
    obtain ⟨context, hcontext, rfl⟩ := Option.map_eq_some_iff.mp (Option.filter_eq_some_iff.mp hc).1
    obtain ⟨inbound, fresh, rfl⟩ := hactive context hcontext
    exact createRequestContext_normalized inbound fresh
  · split
    · rename_i c hc
      exact hheader c (Option.filter_eq_some_iff.mp hc).1
    · exact createRequestContext_normalized requestHeader fresh

theorem isErrorEnvelope_assign {entries : Body} {c : JsString} (h : isErrorEnvelope (.obj entries) = true) :
    isErrorEnvelope (.obj (assign entries (ofString "correlationId") (.str c))) = true := by
  have herror : ofString "error" ≠ ofString "correlationId" := by decide
  have hmessage : ofString "message" ≠ ofString "correlationId" := by decide
  simp only [isErrorEnvelope] at h ⊢
  rwa [textField_assign herror, textField_assign hmessage]

theorem error_responses_discreet {active : Option RequestContext} {responseHeader requestHeader : Option Text}
    {fresh : FreshContext}
    (hactive : ∀ context, active = some context → ∃ inbound fresh, context = createRequestContext inbound fresh)
    (hheader : ∀ c, responseHeader = some c → OutboxDispatcher.normalizeCorrelationId c = some c)
    (heap : ν → ExceptionObject ν) (exception : ErrorValue ν) :
    Discreet heap exception (catchException heap exception active responseHeader requestHeader fresh) ∧
    ∀ heap', SameSkeleton heap heap' →
      (catchException heap' exception active responseHeader requestHeader fresh).status =
        (catchException heap exception active responseHeader requestHeader fresh).status ∧
      (catchException heap' exception active responseHeader requestHeader fresh).body =
        (catchException heap exception active responseHeader requestHeader fresh).body := by
  refine ⟨⟨?_, ?_, ?_, ?_, ?_⟩, fun heap' h => ?_⟩
  · rcases resolve_source exception with ⟨status, entries, hhttp, henvelope, hbody⟩ | hfixed
    · refine .inl ⟨status, entries, hhttp, henvelope, ?_⟩
      simp only [catchException, handle, hbody]
    · exact .inr ⟨_, hfixed, rfl⟩
  · exact isErrorEnvelope_assign (isErrorEnvelope_resolve exception)
  · exact textField_assign_self _ _ _
  · exact resolveCorrelationId_normalized hactive hheader
  · intro log hlog
    simp only [catchException, handle] at hlog
    split_ifs at hlog
    · rw [List.mem_singleton.mp hlog]
      exact ⟨_, List.mem_append_right _ List.mem_cons_self, isSafeErrorCode_log exception _⟩
    · split at hlog
      · rw [List.mem_singleton.mp hlog]
        exact ⟨_, List.mem_append_right _ List.mem_cons_self, by decide +kernel⟩
      · cases hlog
  · simp only [catchException, handle, h.resolve_eq exception, and_self]

def numericOverflow (message : String) : ExceptionObject Unit where
  name := .string (ofString "QueryFailedError")
  constructorName := .string (ofString "QueryFailedError")
  message := .string (ofString message)
  stack := .other
  code := .string (ofString "22003")
  driverError := .other
  cause := .other
  errors := none
  isError := true
  status := none
  statusCode := none
  httpException := none

theorem error_responses_discreet_overflow :
    ((resolve (fun _ : Unit => numericOverflow "value 1e99 of order 17 overflows") (.object ())).status = .finite 400 ∧
      SameSkeleton (fun _ : Unit => numericOverflow "value 1e99 of order 17 overflows") (fun _ => numericOverflow "")) ∧
    (catchException (fun _ : Unit => numericOverflow "") (.object ()) (some Sample.context) none none
        ⟨Sample.intentId, Sample.eventId, Sample.time⟩).body =
      (catchException (fun _ : Unit => numericOverflow "value 1e99 of order 17 overflows") (.object ())
        (some Sample.context) none none ⟨Sample.intentId, Sample.eventId, Sample.time⟩).body := by
  have hsame : SameSkeleton (fun _ : Unit => numericOverflow "value 1e99 of order 17 overflows")
      (fun _ => numericOverflow "") := by
    constructor <;> intro _ <;> rfl
  refine ⟨⟨by decide +kernel, hsame⟩, ?_⟩
  refine ((error_responses_discreet ?_ ?_ _ _).2 _ hsame).2
  · intro context hcontext
    obtain rfl := Option.some.inj hcontext
    exact ⟨_, _, rfl⟩
  · intro c hc
    cases hc

end Handling

end CorrelationIdExceptionFilter

end EventGateway
