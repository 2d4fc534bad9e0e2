import EventGateway.WebhookEvents

namespace EventGateway.PaymentIntents

open PaymentAmount
open WebhookEvents (check check_eq_nil)

def whitelist : List Text :=
  ["amount", "asset", "destination", "reference", "clientRequestId", "metadata"].map String.toList

/-- `@ValidateIf((_, value) => value !== undefined)` -/
def checkOptional (body : JsonObject) (name : String) (p : Text → Bool) : List Text :=
  if (body.field name).isNone then [] else check body name p

def checkMetadata (body : JsonObject) : List Text :=
  match body.field "metadata" with
  | none | some (.obj _) => []
  | some _ => ["metadata".toList]

def invalidFields (body : JsonObject) : List Text :=
  (body.map Prod.fst).filter (fun name => !whitelist.contains name) ++ check body "amount" isValidPaymentAmount ++
    check body "asset" isValidAsset ++ check body "destination" (isBounded 255) ++
    checkOptional body "reference" (maxLength 255) ++ checkOptional body "clientRequestId" (maxLength 255) ++
    checkMetadata body

def toBody (body : JsonObject) : CreatePaymentIntentBody where
  amount := (body.text "amount").getD []
  asset := (body.text "asset").getD []
  destination := (body.text "destination").getD []
  reference := body.text "reference"
  clientRequestId := body.text "clientRequestId"
  metadata :=
    match body.field "metadata" with
    | some (.obj entries) => entries
    | _ => []

theorem field_of_text {body : JsonObject} {name : String} {s : Text} (h : body.text name = some s) :
    body.field name = some (.str s) := by
  unfold JsonObject.text at h
  split at h
  · rename_i s' hs
    rw [hs, Option.some.inj h]
  · cases h

theorem field_of_check {body : JsonObject} {name : String} {p : Text → Bool} (h : check body name p = []) :
    body.field name = some (.str ((body.text name).getD [])) := by
  unfold check at h
  split at h
  · rename_i hp
    obtain ⟨s, hs, _⟩ := (Option.any_eq_true _ _).mp hp
    rw [field_of_text hs, hs]
    rfl
  · cases h

theorem checkOptional_eq_nil {body : JsonObject} {name : String} {p : Text → Bool} (h : checkOptional body name p = []) :
    body.field name = (body.text name).map Json.str ∧ (body.text name).all p = true := by
  unfold checkOptional at h
  split_ifs at h with hnone
  · have ht : body.text name = none := by
      rw [JsonObject.text, Option.isNone_iff_eq_none.mp hnone]
    rw [ht]
    exact ⟨Option.isNone_iff_eq_none.mp hnone, rfl⟩
  · unfold check at h
    split at h
    · rename_i hp
      obtain ⟨s, hs, hps⟩ := (Option.any_eq_true _ _).mp hp
      rw [field_of_text hs, hs]
      exact ⟨rfl, hps⟩
    · cases h

structure Describes (dto : CreatePaymentIntentBody) (body : JsonObject) : Prop where
  known : ∀ name ∈ body.map Prod.fst, name ∈ whitelist
  amount : body.field "amount" = some (.str dto.amount)
  asset : body.field "asset" = some (.str dto.asset)
  destination : body.field "destination" = some (.str dto.destination)
  reference : body.field "reference" = dto.reference.map .str
  clientRequestId : body.field "clientRequestId" = dto.clientRequestId.map .str
  metadata : body.field "metadata" = some (.obj dto.metadata) ∨ body.field "metadata" = none ∧ dto.metadata = []

theorem toBody_spec {body : JsonObject} (h : invalidFields body = []) :
    (toBody body).isValid = true ∧ Describes (toBody body) body := by
  simp only [invalidFields, List.append_eq_nil_iff] at h
  obtain ⟨⟨⟨⟨⟨⟨hknown, hamount⟩, hasset⟩, hdestination⟩, hreference⟩, hclient⟩, hmetadata⟩ := h
  obtain ⟨hreference, hreference'⟩ := checkOptional_eq_nil hreference
  obtain ⟨hclient, hclient'⟩ := checkOptional_eq_nil hclient
  constructor
  · simp only [CreatePaymentIntentBody.isValid, toBody, Bool.and_eq_true]
    exact ⟨⟨⟨⟨check_eq_nil hamount, check_eq_nil hasset⟩, check_eq_nil hdestination⟩, hreference'⟩, hclient'⟩
  · refine ⟨fun name hname => ?_, field_of_check hamount, field_of_check hasset, field_of_check hdestination,
      hreference, hclient, ?_⟩
    · have hnot := List.filter_eq_nil_iff.mp hknown name hname
      simpa using hnot
    · unfold checkMetadata at hmetadata
      cases hf : body.field "metadata" with
      | none => exact .inr ⟨rfl, by rw [toBody, hf]⟩
      | some value =>
        rw [hf] at hmetadata
        cases value with
        | obj entries => exact .inl (by rw [toBody, hf])
        | _ => cases hmetadata

/-- Anything but an object is checked as an object without properties. -/
def validateBody (body : Json) : Except Failure CreatePaymentIntentDto :=
  match body with
  | .obj entries =>
    if h : invalidFields entries = [] then .ok ⟨toBody entries, (toBody_spec h).1⟩
    else .error (.api (.invalidFields (invalidFields entries)))
  | _ => .error (.api (.invalidFields (invalidFields [])))

theorem describes_of_validateBody {body : Json} {dto : CreatePaymentIntentDto} (h : validateBody body = .ok dto) :
    ∃ entries, body = .obj entries ∧ Describes dto.toCreatePaymentIntentBody entries := by
  unfold validateBody at h
  split at h
  · rename_i entries
    split_ifs at h with hvalid
    cases h
    exact ⟨entries, rfl, (toBody_spec hvalid).2⟩
  · cases h

end EventGateway.PaymentIntents
