import EventGateway.DescribeError
import EventGateway.RequestContext

namespace EventGateway.StructuredLogger

open JsString JsonPrinting

/-- A field as it is passed; `other` is everything that is not logged, `NaN` included. -/
inductive LogValue
  | null
  | string (s : JsString)
  | number (n : JsNumber)
  | boolean (b : Bool)
  | other

abbrev LogEntry := List (JsString × JsValue)

def allowedLogFields : List JsString :=
  ["correlationId", "requestId", "paymentIntentId", "webhookEventId", "externalEventId", "provider", "jobId", "status",
    "errorCode", "method", "path", "durationMs", "suppressedCount", "errorName", "causeCode", "stackTop"].map ofString

def maxLogStringLength : ℕ := 500

def isPrintable (u : UInt16) : Bool := 0x20 ≤ u && u ≤ 0x7e

def sanitizeString (value : JsString) : JsString :=
  (trim (collapseWhiteSpace (value.map (fun u => if isPrintable u then u else 0x20)))).take maxLogStringLength

def normalizeLogValue : LogValue → Option JsValue
  | .null => some .null
  | .string s => some (.str (sanitizeString s))
  | .number (.infinity _) => none
  | .number n => some (.num n)
  | .boolean b => some (.bool b)
  | .other => none

def assign (entry : LogEntry) (key : JsString) (value : JsValue) : LogEntry :=
  if (entry.map Prod.fst).contains key then entry.map (fun e => if e.1 = key then (key, value) else e)
  else entry ++ [(key, value)]

def addField (entry : LogEntry) (field : JsString × LogValue) : LogEntry :=
  if !allowedLogFields.contains field.1 then entry
  else
    match normalizeLogValue field.2 with
    | none => entry
    | some value => assign entry field.1 value

def createStructuredLogEntry (requestContext : Option RequestContext) (event : JsString)
    (fields : List (JsString × LogValue)) : LogEntry :=
  let entry := [(ofString "event", .str (sanitizeString event))]
  let entry := match requestContext with
    | none => entry
    | some context =>
      assign (assign entry (ofString "correlationId") (.str (ofText context.correlationId))) (ofString "requestId")
        (.str (ofText context.requestId))
  fields.foldl addField entry

inductive LogLevel
  | verbose
  | debug
  | log
  | warn
  | error
  | fatal

def levelName : LogLevel → String
  | .verbose => "verbose"
  | .debug => "debug"
  | .log => "info"
  | .warn => "warn"
  | .error => "error"
  | .fatal => "fatal"

def objectPrototypeKeys : List JsString :=
  ["constructor", "__defineGetter__", "__defineSetter__", "hasOwnProperty", "__lookupGetter__", "__lookupSetter__",
    "isPrototypeOf", "propertyIsEnumerable", "toString", "valueOf", "__proto__", "toLocaleString"].map ofString

def logRecord (timestamp : Text) (level : LogLevel) (context : JsString) (message : LogEntry) : LogEntry :=
  let record := [(ofString "timestamp", .str (ofText timestamp)), (ofString "level", .str (ofString (levelName level)))]
  let record := if context = [] then record else record ++ [(ofString "context", .str context)]
  message.foldl (fun record e =>
    if (record.map Prod.fst).contains e.1 || objectPrototypeKeys.contains e.1 then record else record ++ [e]) record

def printAsJson (rt : Runtime) (timestamp : Text) (level : LogLevel) (context : JsString) (message : LogEntry) : JsString :=
  (JsValue.printer rt).print (.obj (logRecord timestamp level context message))

section Strings

theorem mem_collapseWhiteSpace {s : JsString} {u : UInt16} (h : u ∈ collapseWhiteSpace s) : u = 0x20 ∨ u ∈ s := by
  induction s with
  | nil => cases h
  | cons v s ih =>
    cases s with
    | nil =>
      simp only [collapseWhiteSpace] at h
      split_ifs at h <;> simp_all
    | cons w s =>
      have hrest (h : u ∈ collapseWhiteSpace (w :: s)) : u = 0x20 ∨ u ∈ v :: w :: s :=
        (ih h).imp_right (List.mem_cons_of_mem v)
      simp only [collapseWhiteSpace] at h
      split_ifs at h
      · exact hrest h
      · exact (List.mem_cons.mp h).elim .inl hrest
      · exact (List.mem_cons.mp h).elim (fun hu => .inr (by simp [hu])) hrest

theorem mem_trim {s : JsString} {u : UInt16} (h : u ∈ trim s) : u ∈ s :=
  (List.dropWhile_suffix _).subset ((List.rdropWhile_prefix _ _).subset h)

theorem printable_sanitizeString (s : JsString) :
    (sanitizeString s).length ≤ 500 ∧ ∀ u ∈ sanitizeString s, isPrintable u = true := by
  refine ⟨List.length_take_le _ _, fun u hu => ?_⟩
  rcases mem_collapseWhiteSpace (mem_trim (List.mem_of_mem_take hu)) with rfl | hu
  · decide
  · obtain ⟨v, -, rfl⟩ := List.mem_map.mp hu
    split_ifs with hv
    · exact hv
    · decide

end Strings

section Entries

def Scalar : JsValue → Prop
  | .null | .bool _ | .str _ => True
  | .num n => n.IsFinite
  | .arr _ | .obj _ => False

def Safe : JsValue → Prop
  | .str s => s.length ≤ 500 ∧ ∀ u ∈ s, isPrintable u = true
  | value => Scalar value

theorem Safe.scalar {value : JsValue} (h : Safe value) : Scalar value := by
  cases value with
  | str s => trivial
  | _ => exact h

def LogValue.IsJs : LogValue → Prop
  | .number (.finite q) => IsDouble q
  | _ => True

theorem safe_normalizeLogValue {value : LogValue} (hjs : value.IsJs) {v : JsValue} (h : normalizeLogValue value = some v) :
    Safe v := by
  cases value with
  | string s =>
    cases h
    exact printable_sanitizeString s
  | number n => cases n <;> cases h <;> exact hjs
  | null | boolean b => cases h; trivial
  | other => cases h

structure EntryOk (entry : LogEntry) : Prop where
  nodup : (entry.map Prod.fst).Nodup
  allowed : ∀ e ∈ entry, e.1 = ofString "event" ∨ e.1 ∈ allowedLogFields
  safe : ∀ e ∈ entry, Safe e.2

theorem keys_assign (entry : LogEntry) (key : JsString) (value : JsValue) :
    (assign entry key value).map Prod.fst =
      if key ∈ entry.map Prod.fst then entry.map Prod.fst else entry.map Prod.fst ++ [key] := by
  simp only [assign, List.contains_iff_mem]
  split_ifs with h
  · rw [List.map_map]
    apply List.map_congr_left
    intro e _
    simp only [Function.comp_apply]
    split_ifs with he
    · exact he.symm
    · rfl
  · simp

theorem mem_assign {entry : LogEntry} {key : JsString} {value : JsValue} {e : JsString × JsValue}
    (h : e ∈ assign entry key value) : e = (key, value) ∨ e ∈ entry := by
  unfold assign at h
  split_ifs at h
  · obtain ⟨f, hf, rfl⟩ := List.mem_map.mp h
    split_ifs
    · exact .inl rfl
    · exact .inr hf
  · rcases List.mem_append.mp h with h | h
    · exact .inr h
    · exact .inl (List.mem_singleton.mp h)

theorem EntryOk.assign {entry : LogEntry} (h : EntryOk entry) {key : JsString} {value : JsValue}
    (hkey : key ∈ allowedLogFields) (hvalue : Safe value) : EntryOk (assign entry key value) := by
  refine ⟨?_, fun e he => ?_, fun e he => ?_⟩
  · rw [keys_assign]
    split_ifs with hmem
    · exact h.nodup
    · exact List.nodup_append'.mpr ⟨h.nodup, by simp, by simpa using hmem⟩
  · rcases mem_assign he with rfl | he
    · exact .inr hkey
    · exact h.allowed e he
  · rcases mem_assign he with rfl | he
    · exact hvalue
    · exact h.safe e he

theorem EntryOk.addField {entry : LogEntry} (h : EntryOk entry) {field : JsString × LogValue} (hjs : field.2.IsJs) :
    EntryOk (addField entry field) := by
  unfold StructuredLogger.addField
  split_ifs with hkey
  · exact h
  · split
    · exact h
    · rename_i value hvalue
      exact h.assign (by simpa using hkey) (safe_normalizeLogValue hjs hvalue)

theorem ofText_of_graphic {t : Text} (h : ∀ c ∈ t, '\x21' ≤ c ∧ c ≤ '\x7e') : ofText t = t.map unit := by
  induction t with
  | nil => rfl
  | cons c t ih =>
    have hc : c.toNat ≤ 0x7e := (h c (by simp)).2
    have hunits : charUnits c = [c.toNat] := by
      unfold charUnits
      split_ifs
      · rfl
      · omega
    rw [ofText_cons, hunits, ih fun d hd => h d (by simp [hd])]
    rfl

theorem printable_unit {c : Char} (h : '\x21' ≤ c ∧ c ≤ '\x7e') : isPrintable (unit c) = true := by
  have hlow : 0x21 ≤ c.toNat := h.1
  have hhigh : c.toNat ≤ 0x7e := h.2
  have hunit : (unit c).toNat = c.toNat := by
    exact toNat_ofNat_unit (by omega)
  simp only [isPrintable, Bool.and_eq_true, decide_eq_true_eq, UInt16.le_iff_toNat_le, hunit]
  exact ⟨by simpa using Nat.le_of_succ_le hlow, by simpa using hhigh⟩

theorem safe_ofText {t : Text} (hlen : t.length ≤ 255) (h : ∀ c ∈ t, '\x21' ≤ c ∧ c ≤ '\x7e') : Safe (.str (ofText t)) := by
  rw [ofText_of_graphic h]
  refine ⟨by rw [List.length_map]; omega, fun u hu => ?_⟩
  obtain ⟨c, hc, rfl⟩ := List.mem_map.mp hu
  exact printable_unit (h c hc)

theorem safe_createRequestContext (inbound : Option Text) (fresh : FreshContext) :
    Safe (.str (ofText (createRequestContext inbound fresh).correlationId)) ∧
      Safe (.str (ofText (createRequestContext inbound fresh).requestId)) := by
  constructor
  · obtain ⟨hlen, hsafe⟩ := normalizeCorrelationId_some (createRequestContext_normalized inbound fresh)
    simp only [OutboxDispatcher.safeHeaderValuePattern, Bool.and_eq_true, List.all_eq_true] at hsafe
    exact safe_ofText hlen fun c hc => by simpa using hsafe.2 c hc
  · have hlen := length_renderBytes 16 fresh.requestId.toNat
    have hshort : (Uuid.renderBytes 16 fresh.requestId.toNat).length ≤ 255 := by omega
    exact safe_ofText hshort (graphic_renderBytes 16 fresh.requestId.toNat)

structure LogCall where
  timestamp : Text
  level : LogLevel
  context : JsString
  requestContext : Option RequestContext
  event : JsString
  fields : List (JsString × LogValue)

structure LogCall.Proper (call : LogCall) : Prop where
  fields : ∀ field ∈ call.fields, field.2.IsJs
  requestContext : ∀ context, call.requestContext = some context → ∃ inbound fresh, context = createRequestContext inbound fresh

def LogCall.entry (call : LogCall) : LogEntry := createStructuredLogEntry call.requestContext call.event call.fields

def LogCall.record (call : LogCall) : LogEntry := logRecord call.timestamp call.level call.context call.entry

theorem LogCall.Proper.entryOk {call : LogCall} (h : call.Proper) : EntryOk call.entry := by
  have hevent : EntryOk [(ofString "event", .str (sanitizeString call.event))] := by
    refine ⟨by simp, fun e he => ?_, fun e he => ?_⟩
    · rw [List.mem_singleton.mp he]
      exact .inl rfl
    · rw [List.mem_singleton.mp he]
      exact printable_sanitizeString call.event
  have hfields {entry : LogEntry} (hentry : EntryOk entry) (fields : List (JsString × LogValue))
      (hjs : ∀ field ∈ fields, field.2.IsJs) : EntryOk (fields.foldl addField entry) := by
    induction fields generalizing entry with
    | nil => exact hentry
    | cons field fields ih =>
      exact ih (hentry.addField (hjs field (by simp))) fun f hf => hjs f (by simp [hf])
  unfold LogCall.entry createStructuredLogEntry
  apply hfields _ _ h.fields
  cases hcontext : call.requestContext with
  | none => exact hevent
  | some context =>
    obtain ⟨inbound, fresh, rfl⟩ := h.requestContext context hcontext
    obtain ⟨hcorrelation, hrequest⟩ := safe_createRequestContext inbound fresh
    exact (hevent.assign (by decide) hcorrelation).assign (by decide) hrequest

end Entries

section Lines

open JsonPrinting.Tree Printer

variable {rt : Runtime} {es fs : LogEntry} {x y : JsString}

theorem canonicalize_scalar {value : JsValue} (h : Scalar value) : canonicalize JsValue.arrangement.arrange value = value := by
  cases value with
  | arr | obj => exact h.elim
  | _ => simp [canonicalize]

theorem wellFormed_scalar {value : JsValue} (h : Scalar value) :
    WellFormed JsNumber.IsFinite JsValue.arrangement.Allowed value := by
  cases value with
  | arr | obj => exact h.elim
  | num n => exact h
  | _ => trivial

theorem entry_read_scalar (hrt : rt.PrintsNumbers) {e f : JsString × JsValue} (he : Scalar e.2) (hf : Scalar f.2)
    (hx : (JsValue.printer rt).Stops x) (hy : (JsValue.printer rt).Stops y)
    (h : (JsValue.printer rt).printEntry e ++ x = (JsValue.printer rt).printEntry f ++ y) :
    (e.1 = f.1 ∧ JsValue.Same e.2 f.2) ∧ x = y := by
  have hr := JsValue.printer_readable hrt
  have hvalue (h : (JsValue.printer rt).print (canonicalize JsValue.arrangement.arrange e.2) ++ x =
      (JsValue.printer rt).print (canonicalize JsValue.arrangement.arrange f.2) ++ y) : JsValue.Same e.2 f.2 ∧ x = y :=
    print_read hr (wellFormed_scalar he) (wellFormed_scalar hf) hx hy h
  apply entry_read hr hvalue
  rwa [canonicalize_scalar he, canonicalize_scalar hf]

theorem record_read (hrt : rt.PrintsNumbers) (hes : ∀ e ∈ es, Scalar e.2) (hfs : ∀ f ∈ fs, Scalar f.2)
    (h : (JsValue.printer rt).print (.obj es) ++ x = (JsValue.printer rt).print (.obj fs) ++ y) :
    List.Forall₂ (fun e f => e.1 = f.1 ∧ JsValue.Same e.2 f.2) es fs ∧ x = y := by
  have hr := JsValue.printer_readable hrt
  simp only [print, printEntries_eq, List.cons_append, List.append_assoc, List.nil_append, List.cons.injEq, true_and] at h
  refine joined_read (P := fun e : JsString × JsValue => Scalar e.2) hr.lit_inj (by simp) ?_ ?_ hes hfs h
  · intro e he u v
    have hne : (JsValue.printer rt).printEntry (e.1, canonicalize JsValue.arrangement.arrange e.2) ++ u ≠
        (JsValue.printer rt).lit '}' :: v := entry_ne_close hr e (by simp) u v
    rwa [canonicalize_scalar he] at hne
  · exact fun e he f hf x y hx hy h => entry_read_scalar hrt (hes e he) hf hx hy h

theorem lineFeed_not_mem_escapeUnit (u : UInt16) : lineFeed ∉ escapeUnit u := by
  have hhex (n : ℕ) : lineFeed ≠ unit (CanonicalJson.hexDigit n) := by
    by_cases hn : n < 16
    · exact (show ∀ n < 16, lineFeed ≠ unit (CanonicalJson.hexDigit n) by decide) n hn
    · have hnone : CanonicalJson.hexDigit n = '0' := by
        rw [CanonicalJson.hexDigit, List.getD_eq_getElem?_getD, List.getElem?_eq_none (by simpa using hn), Option.getD_none]
      rw [hnone]
      decide
  unfold escapeUnit
  split_ifs with hsurrogate hascii
  · simp [unicodeEscape, hhex, show lineFeed ≠ unit '\\' by decide, show lineFeed ≠ unit 'u' by decide]
  · exact (show ∀ n < 0x80, lineFeed ∉ (CanonicalJson.escape (Char.ofNat n)).map unit by decide +kernel) u.toNat hascii
  · rw [List.mem_singleton]
    rintro rfl
    exact hascii (by decide)

theorem lineFeed_not_mem_quote (s : JsString) : lineFeed ∉ JsString.quote s := by
  have hsurrogate {u : UInt16} (h : isHighSurrogate u = true ∨ isLowSurrogate u = true) : lineFeed ≠ u := by
    rintro rfl
    rcases h with h | h <;> cases h
  have hbody : lineFeed ∉ quoteBody s := by
    induction s using quoteBody.induct with
    | case1 => simp [quoteBody]
    | case2 u => exact lineFeed_not_mem_escapeUnit u
    | case3 u v rest h ih =>
      simp only [Bool.and_eq_true] at h
      simp [quoteBody, h, ih, hsurrogate (.inl h.1), hsurrogate (.inr h.2)]
    | case4 u v rest h ih => simp [quoteBody, h, ih, lineFeed_not_mem_escapeUnit u]
  simp [JsString.quote, hbody, show lineFeed ≠ unit '"' by decide]

theorem lineFeed_not_mem_scalar (hrt : rt.PrintsNumbers) {value : JsValue} (h : Scalar value) :
    lineFeed ∉ (JsValue.printer rt).print value := by
  cases value with
  | null => exact show lineFeed ∉ "null".toList.map unit by decide
  | bool b =>
    cases b with
    | true => exact show lineFeed ∉ "true".toList.map unit by decide
    | false => exact show lineFeed ∉ "false".toList.map unit by decide
  | num n =>
    intro hmem
    obtain ⟨c, hc, hlf⟩ := List.mem_map.mp hmem
    have hall : List.Forall (fun c => unit c ≠ lineFeed) Printer.numeric := by decide
    exact List.forall_iff_forall_mem.mp hall c (numberText_numeric hrt h c hc) hlf
  | str s => exact lineFeed_not_mem_quote s
  | arr | obj => exact h.elim

theorem lineFeed_not_mem_record (hrt : rt.PrintsNumbers) (hes : ∀ e ∈ es, Scalar e.2) :
    lineFeed ∉ (JsValue.printer rt).print (.obj es) := by
  have hlit : List.Forall (fun c => lineFeed ≠ unit c) ['{', '}', ',', ':'] := by decide
  simp only [List.Forall] at hlit
  have hentry (e : JsString × JsValue) (he : e ∈ es) : lineFeed ∉ (JsValue.printer rt).printEntry e := by
    simp only [printEntry, List.mem_append, List.mem_cons, not_or]
    exact ⟨lineFeed_not_mem_quote e.1, hlit.2.2.2, lineFeed_not_mem_scalar hrt (hes e he)⟩
  have hjoined : lineFeed ∉ joined (JsValue.printer rt) (es.map (JsValue.printer rt).printEntry) := by
    cases es with
    | nil => simp [joined]
    | cons e es =>
      simp only [joined, List.map_cons, List.mem_append, List.mem_flatMap, List.mem_map, not_or]
      refine ⟨hentry e (by simp), ?_⟩
      rintro ⟨t, ⟨f, hf, rfl⟩, hmem⟩
      rcases List.mem_cons.mp hmem with hcomma | hmem
      · exact hlit.2.2.1 hcomma
      · exact hentry f (by simp [hf]) hmem
  simp only [print, printEntries_eq, List.mem_cons, List.mem_append, List.not_mem_nil, or_false, not_or]
  exact ⟨hlit.1, hjoined, hlit.2.1⟩

def LogCall.header (call : LogCall) : LogEntry :=
  [(ofString "timestamp", .str (ofText call.timestamp)), (ofString "level", .str (ofString (levelName call.level)))] ++
    if call.context = [] then [] else [(ofString "context", .str call.context)]

theorem foldl_record (record message : LogEntry) (hnodup : (message.map Prod.fst).Nodup)
    (hnew : ∀ e ∈ message, e.1 ∉ record.map Prod.fst ∧ e.1 ∉ objectPrototypeKeys) :
    message.foldl (fun record e =>
      if (record.map Prod.fst).contains e.1 || objectPrototypeKeys.contains e.1 then record else record ++ [e]) record =
        record ++ message := by
  induction message generalizing record with
  | nil => simp
  | cons e message ih =>
    rw [List.map_cons, List.nodup_cons] at hnodup
    have he : ¬ ((record.map Prod.fst).contains e.1 || objectPrototypeKeys.contains e.1) = true := by
      rw [Bool.or_eq_true, List.contains_iff_mem, List.contains_iff_mem]
      exact not_or.mpr (hnew e (by simp))
    rw [List.foldl_cons, if_neg he, ih _ hnodup.2, List.append_assoc, List.singleton_append]
    intro f hf
    obtain ⟨hfr, hfp⟩ := hnew f (by simp [hf])
    refine ⟨?_, hfp⟩
    rw [List.map_append, List.mem_append, not_or]
    refine ⟨hfr, fun heq => hnodup.1 ?_⟩
    rw [← List.mem_singleton.mp heq]
    exact List.mem_map_of_mem hf

theorem LogCall.Proper.record_eq {call : LogCall} (h : call.Proper) : call.record = call.header ++ call.entry := by
  have hentry := h.entryOk
  -- no event field is named like a field of the header or a property of every object
  have hkeys : ∀ key ∈ ofString "event" :: allowedLogFields,
      key ∉ [ofString "timestamp", ofString "level", ofString "context"] ∧ key ∉ objectPrototypeKeys :=
    List.forall_iff_forall_mem.mp (by decide +kernel)
  have hnew (e : JsString × JsValue) (he : e ∈ call.entry) : e.1 ∉ call.header.map Prod.fst ∧ e.1 ∉ objectPrototypeKeys := by
    obtain ⟨hheader, hproto⟩ := hkeys e.1 (List.mem_cons.mpr (hentry.allowed e he))
    refine ⟨fun hmem => hheader ?_, hproto⟩
    unfold LogCall.header at hmem
    split_ifs at hmem <;> simp_all
  rw [← foldl_record call.header call.entry hentry.nodup hnew]
  unfold LogCall.record logRecord LogCall.header
  split_ifs <;> rfl

theorem LogCall.Proper.scalar {call : LogCall} (h : call.Proper) : ∀ e ∈ call.record, Scalar e.2 := by
  rw [h.record_eq]
  intro e he
  rcases List.mem_append.mp he with he | he
  · unfold LogCall.header at he
    split_ifs at he <;> simp only [List.append_nil, List.mem_append, List.mem_cons, List.not_mem_nil, or_false] at he
    · rcases he with rfl | rfl <;> trivial
    · rcases he with (rfl | rfl) | rfl <;> trivial
  · exact (h.entryOk.safe e he).scalar

def LogCall.line (rt : Runtime) (call : LogCall) : JsString :=
  printAsJson rt call.timestamp call.level call.context call.entry

def logStream (rt : Runtime) (calls : List LogCall) : JsString := calls.flatMap (fun call => call.line rt ++ [lineFeed])

structure PrintsOneLine (rt : Runtime) (call : LogCall) : Prop where
  single : lineFeed ∉ call.line rt
  record : call.record = call.header ++ call.entry
  entry : EntryOk call.entry

theorem stream_read (hrt : rt.PrintsNumbers) {calls calls' : List LogCall} (h : ∀ call ∈ calls, call.Proper)
    (h' : ∀ call ∈ calls', call.Proper) (hs : logStream rt calls = logStream rt calls') :
    List.Forall₂ (fun call call' => List.Forall₂ (fun e f => e.1 = f.1 ∧ JsValue.Same e.2 f.2) call.record call'.record)
      calls calls' := by
  have hline (call : LogCall) (rest : JsString) : call.line rt ++ [lineFeed] ++ rest ≠ [] := by simp
  induction calls generalizing calls' with
  | nil =>
    cases calls' with
    | nil => exact .nil
    | cons call' calls' => exact absurd hs.symm (hline call' _)
  | cons call calls ih =>
    cases calls' with
    | nil => exact absurd hs (hline call _)
    | cons call' calls' =>
      simp only [logStream, List.flatMap_cons, List.append_assoc] at hs
      obtain ⟨hrecord, hrest⟩ := record_read hrt (h call (by simp)).scalar (h' call' (by simp)).scalar hs
      refine .cons hrecord (ih (fun c hc => h c (by simp [hc])) (fun c hc => h' c (by simp [hc])) ?_)
      exact List.append_cancel_left hrest

theorem log_lines_unambiguous (hrt : rt.PrintsNumbers) {calls calls' : List LogCall} (h : ∀ call ∈ calls, call.Proper)
    (h' : ∀ call ∈ calls', call.Proper) :
    (∀ call ∈ calls, PrintsOneLine rt call) ∧
    (logStream rt calls = logStream rt calls' →
      List.Forall₂ (fun call call' => List.Forall₂ (fun e f => e.1 = f.1 ∧ JsValue.Same e.2 f.2) call.record call'.record)
        calls calls') := by
  refine ⟨fun call hcall => ?_, stream_read hrt h h'⟩
  have hproper := h call hcall
  exact ⟨lineFeed_not_mem_record hrt hproper.scalar, hproper.record_eq, hproper.entryOk⟩

def injection : LogCall where
  timestamp := "2026-01-01T00:00:00.000Z".toList
  level := .log
  context := ofString "HttpRequest"
  requestContext := none
  event := ofString "http_request_completed"
  fields := [(ofString "path", .string (ofString "/x\n\x7b\"level\":\"error\"\x7d")),
    (ofString "status", .number (.finite 404)),
    (ofString "body", .string (ofString "secret"))]

theorem log_lines_unambiguous_injection :
    injection.line (Sample.printing id) =
      ofString ("\x7b\"timestamp\":\"2026-01-01T00:00:00.000Z\",\"level\":\"info\",\"context\":\"HttpRequest\"," ++
        "\"event\":\"http_request_completed\",\"path\":\"/x \x7b\\\"level\\\":\\\"error\\\"\x7d\",\"status\":404\x7d") ∧
      PrintsOneLine (Sample.printing id) injection := by
  have hjs : List.Forall (fun field : JsString × LogValue => field.2.IsJs) injection.fields :=
    ⟨trivial, ⟨404, 0, by norm_num, by norm_num, by norm_num, by norm_num⟩, trivial⟩
  have hproper : injection.Proper := by
    refine ⟨List.forall_iff_forall_mem.mp hjs, fun context hcontext => ?_⟩
    have hnone : injection.requestContext = none := rfl
    rw [hnone] at hcontext
    cases hcontext
  have hcalls : ∀ call ∈ [injection], call.Proper := fun call hcall => List.mem_singleton.mp hcall ▸ hproper
  exact ⟨by decide +kernel, (log_lines_unambiguous (Sample.printing_printsNumbers id) hcalls hcalls).1 injection (by simp)⟩

end Lines

end EventGateway.StructuredLogger
