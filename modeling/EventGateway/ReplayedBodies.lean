import EventGateway.CanonicalTexts
import EventGateway.CreatePaymentIntentRequest
import EventGateway.DuplicateDetection
import EventGateway.IdempotencySafety
import EventGateway.JsonFields
import EventGateway.RequestBodyGuard
import Mathlib.Data.Set.List

namespace EventGateway

open JsonPrinting Interleaving
open RequestBodyGuard (Occurs HasKey HasString findRequestBodyViolation)
open PaymentIntents (CreatePaymentIntentDto Describes HoldsKey requestHash toCanonicalPayload validateBody)

def Json.value (b : Json) : JsValue := b.tree.mapStrings JsString.ofText

def JsNumber.IsParsed : JsNumber → Prop
  | .finite q => IsDouble q
  | _ => True

namespace JsValue

def IsParsed (v : JsValue) : Prop := Tree.WellFormed JsNumber.IsParsed (fun _ => True) v

def NoOverflow (v : JsValue) : Prop := ∀ n negative, ¬ Occurs v 1 n (.num (.infinity negative))

def metadataKey : JsString := JsString.ofString "metadata"

def defaulted : JsValue → JsValue
  | .obj entries => .obj (Tree.withDefault metadataKey (.obj []) entries)
  | v => v

def SameBody (v w : JsValue) : Prop := JsValue.Same v.defaulted w.defaulted

end JsValue

structure AcceptedBody (body : JsValue) (dto : CreatePaymentIntentDto) : Prop where
  guard : findRequestBodyViolation body = none
  validated : ∃ b : Json, b.value = body ∧ validateBody b = .ok dto

section Values

theorem trees_eq (items : List Json) : Json.trees items = items.map Json.tree := by
  induction items with
  | nil => rfl
  | cons item items ih => simp [Json.trees, ih]

theorem value_arr (items : List Json) : (Json.arr items).value = .arr (items.map Json.value) := by
  simp only [Json.value, Json.tree, Tree.mapStrings, Tree.mapItems_eq, trees_eq, List.map_map]
  rfl

theorem value_obj (entries : JsonObject) :
    (Json.obj entries).value = .obj (entries.map (fun e => (JsString.ofText e.1, e.2.value))) := by
  simp only [Json.value, Json.tree, Tree.mapStrings, Tree.mapEntries_eq, CanonicalJson.entryTrees_eq, List.map_map]
  rfl

theorem exists_value {v : JsValue} {l : ℕ} (h : ∀ s, HasString v l s → ∃ t, s = JsString.ofText t) :
    ∃ b : Json, b.value = v := by
  induction v using Tree.induction generalizing l with
  | null => exact ⟨.null, rfl⟩
  | bool b => exact ⟨.bool b, rfl⟩
  | num n => exact ⟨.num n, rfl⟩
  | str s =>
    obtain ⟨t, rfl⟩ := h s (.inr ⟨l, .self _ _⟩)
    exact ⟨.str t, rfl⟩
  | arr items ih =>
    obtain ⟨bs, hbs⟩ : items ∈ Set.range (List.map Json.value) := by
      rw [Set.range_list_map]
      exact fun v hv => ih v hv (l := l + 1) fun s hs =>
        h s ((RequestBodyGuard.hasString_iff rfl).mpr ⟨(none, v), List.mem_map_of_mem hv, .inr hs⟩)
    exact ⟨.arr bs, by rw [value_arr, hbs]⟩
  | obj entries ih =>
    obtain ⟨bs, hbs⟩ : entries ∈ Set.range (List.map fun e : Text × Json => (JsString.ofText e.1, e.2.value)) := by
      rw [Set.range_list_map]
      rintro ⟨key, v⟩ he
      have hentry {s : JsString} (hs : some key = some s ∨ HasString v (l + 1) s) : HasString (.obj entries) l s :=
        (RequestBodyGuard.hasString_iff rfl).mpr ⟨(some key, v), List.mem_map.mpr ⟨(key, v), he, rfl⟩, hs⟩
      obtain ⟨t, rfl⟩ := h key (hentry (.inl rfl))
      obtain ⟨b, rfl⟩ := ih _ he (l := l + 1) fun s hs => h s (hentry (.inr hs))
      exact ⟨(t, b), rfl⟩
    exact ⟨.obj bs, by rw [value_obj, hbs]⟩

theorem exists_value_of_storable {v : JsValue} (h : RequestBodyGuard.Storable v) : ∃ b : Json, b.value = v := by
  refine exists_value (l := 1) fun s hs => ?_
  obtain ⟨t, ht, _⟩ := h.strings hs
  exact ⟨t, ht⟩

-- no body that the middleware lets through is outside the model
theorem accepted_or_refused {body : JsValue} (h : RequestBodyGuard.requestBodyGuardMiddleware body = .ok ()) :
    (∃ dto, AcceptedBody body dto) ∨ ∃ b e, Json.value b = body ∧ validateBody b = .error e := by
  have hstorable := (RequestBodyGuard.requestBodyGuardMiddleware_ok_iff body).mp h
  obtain ⟨b, hb⟩ := exists_value_of_storable hstorable
  cases hv : validateBody b with
  | ok dto =>
    exact Or.inl ⟨dto, (RequestBodyGuard.findRequestBodyViolation_eq_none_iff body).mpr hstorable, b, hb, hv⟩
  | error e => exact Or.inr ⟨b, e, hb, hv⟩

theorem wellFormed_of_occurs {v : JsValue} {l : ℕ} (hparsed : v.IsParsed) (hkeys : ∀ key, HasKey v l key → key ≠ JsValue.proto)
    (hfinite : ∀ n negative, ¬ Occurs v l n (.num (.infinity negative))) : v.WellFormed := by
  induction v using Tree.induction generalizing l with
  | null => trivial
  | bool b => trivial
  | num n =>
    cases n with
    | finite q => exact hparsed
    | negativeZero => trivial
    | infinity negative => exact absurd (.self _ _) (hfinite l negative)
  | str s => trivial
  | arr items ih =>
    refine Tree.wellFormedItems_iff.mpr fun v hv => ?_
    have hmem : ((none : Option JsString), v) ∈ items.map (fun item => (none, item)) := List.mem_map_of_mem hv
    apply ih v hv (Tree.wellFormedItems_iff.mp hparsed v hv)
    · exact fun key hkey => hkeys key ((RequestBodyGuard.hasKey_iff rfl).mpr ⟨_, hmem, .inr hkey⟩)
    · exact fun n negative h => hfinite n negative (.item hv h)
  | obj entries ih =>
    refine ⟨hparsed.1, Tree.wellFormedEntries_iff.mpr ?_⟩
    rintro ⟨key, v⟩ he
    have hmem : (some key, v) ∈ entries.map (fun e => (some e.1, e.2)) := List.mem_map.mpr ⟨(key, v), he, rfl⟩
    refine ⟨hkeys key ((RequestBodyGuard.hasKey_iff rfl).mpr ⟨_, hmem, .inl rfl⟩), ?_⟩
    apply ih (key, v) he (Tree.wellFormedEntries_iff.mp hparsed.2 (key, v) he).2
    · exact fun k hk => hkeys k ((RequestBodyGuard.hasKey_iff rfl).mpr ⟨_, hmem, .inr hk⟩)
    · exact fun n negative h => hfinite n negative (.value he h)

theorem wellFormed_of_mem {Finite : JsNumber → Prop} {Allowed : JsString → Prop} {v w : JsValue} {l n : ℕ}
    (h : Occurs v l n w) (hv : Tree.WellFormed Finite Allowed v) : Tree.WellFormed Finite Allowed w := by
  induction h with
  | self => exact hv
  | item hx _ ih => exact ih (Tree.wellFormedItems_iff.mp hv _ hx)
  | value hx _ ih => exact ih (Tree.wellFormedEntries_iff.mp hv.2 _ hx).2

theorem wellFormed_of_guard {b : Json} (hguard : findRequestBodyViolation b.value = none) (hparsed : b.value.IsParsed)
    (hfinite : b.value.NoOverflow) : b.WellFormed := by
  have hstorable := (RequestBodyGuard.findRequestBodyViolation_eq_none_iff b.value).mp hguard
  have hproto : JsValue.proto ∈ RequestBodyGuard.objectPrototypeNames := by decide
  have hwf : b.value.WellFormed := wellFormed_of_occurs hparsed
    (fun key hkey he => (hstorable.keys hkey).1 (he ▸ hproto)) hfinite
  refine Tree.WellFormed.mono (fun _ hn => hn) (fun k hk he => hk ?_) (Tree.WellFormed.of_mapStrings hwf)
  rw [he]
  rfl

end Values

section Hash

theorem field_entryTrees (body : JsonObject) (name : String) :
    Tree.field (Json.entryTrees body) name.toList = (body.field name).map Json.tree := by
  rw [CanonicalJson.entryTrees_eq]
  induction body with
  | nil => rfl
  | cons e body ih =>
    rw [List.map_cons, Tree.field_cons, ih, JsonObject.field, JsonObject.field, List.find?_cons]
    by_cases h : e.1 = name.toList
    · simp [h]
    · simp [h]

theorem map_fst_entryTrees (body : JsonObject) : (Json.entryTrees body).map Prod.fst = body.map Prod.fst := by
  rw [CanonicalJson.entryTrees_eq, List.map_map]
  rfl

def defaultedEntries (body : JsonObject) : List (Text × Tree Text JsNumber) :=
  Tree.withDefault "metadata".toList (.obj []) (Json.entryTrees body)

theorem defaulted_value (body : JsonObject) :
    (Json.obj body).value.defaulted = (Tree.obj (defaultedEntries body)).mapStrings JsString.ofText := by
  simp only [Json.value, Json.tree, Tree.mapStrings, JsValue.defaulted, defaultedEntries]
  rw [Tree.mapEntries_withDefault JsString.ofText_injective]
  rfl

variable {dto dto' : CreatePaymentIntentDto} {body body' : JsonObject}

theorem field_defaulted {name : String} (hname : name ≠ "metadata") :
    Tree.field (defaultedEntries body) name.toList = (body.field name).map Json.tree := by
  have hne : "metadata".toList ≠ name.toList := fun h => hname (String.toList_inj.mp h).symm
  rw [defaultedEntries, Tree.field_withDefault, field_entryTrees, if_neg hne, Option.or_none]

theorem field_metadata (h : Describes dto.toCreatePaymentIntentBody body) :
    Tree.field (defaultedEntries body) "metadata".toList = some (.obj (Json.entryTrees dto.metadata)) := by
  rw [defaultedEntries, Tree.field_withDefault, field_entryTrees, if_pos rfl]
  rcases h.metadata with hm | ⟨hm, hempty⟩
  · rw [hm]
    rfl
  · rw [hm, hempty]
    rfl

theorem field_unknown (h : Describes dto.toCreatePaymentIntentBody body) {name : Text}
    (hname : name ∉ PaymentIntents.whitelist) :
    Tree.field (defaultedEntries body) name = none := by
  have hne : "metadata".toList ≠ name := by
    rintro rfl
    exact hname (by decide)
  rw [defaultedEntries, Tree.field_withDefault, if_neg hne, Option.or_none, Tree.field_eq_none_iff, map_fst_entryTrees]
  exact fun hm => hname (h.known name hm)

structure SameFields (dto dto' : CreatePaymentIntentDto) : Prop where
  amount : dto.amount = dto'.amount
  asset : dto.asset = dto'.asset
  destination : dto.destination = dto'.destination
  reference : dto.reference = dto'.reference
  clientRequestId : dto.clientRequestId = dto'.clientRequestId
  metadata : Tree.Same JsNumber.Same (.obj (Json.entryTrees dto.metadata)) (.obj (Json.entryTrees dto'.metadata))

theorem nodup_whitelist : PaymentIntents.whitelist.Nodup := by decide

theorem sameFields_of_same (h : (toCanonicalPayload dto).Same (toCanonicalPayload dto')) : SameFields dto dto' := by
  have hentries := Tree.sameEntries_of_keys PaymentIntents.whitelist nodup_whitelist rfl rfl h
  obtain ⟨⟨_, hamount⟩, ⟨_, hasset⟩, ⟨_, hdestination⟩, ⟨_, hreference⟩, ⟨_, hclient⟩, ⟨_, hmetadata⟩, _⟩ := hentries
  have hoptional := WebhookEvents.StoredPayload.same_optionalText
  exact ⟨hamount, hasset, hdestination, (hoptional _ _).mp hreference, (hoptional _ _).mp hclient, hmetadata⟩

theorem same_defaulted (h : Describes dto.toCreatePaymentIntentBody body) (h' : Describes dto'.toCreatePaymentIntentBody body')
    (hn : (body.map Prod.fst).Nodup) (hn' : (body'.map Prod.fst).Nodup) (hsame : SameFields dto dto') :
    Tree.Same JsNumber.Same (.obj (defaultedEntries body)) (.obj (defaultedEntries body')) := by
  have hkeys {body : JsonObject} (hn : (body.map Prod.fst).Nodup) : ((defaultedEntries body).map Prod.fst).Nodup :=
    Tree.nodup_withDefault (by rwa [map_fst_entryTrees])
  apply Tree.same_obj_of_field (hkeys hn) (hkeys hn')
  have htext (s : Text) : Option.Rel (Tree.Same JsNumber.Same) (some (Json.str s).tree) (some (Json.str s).tree) :=
    .some (show s = s from rfl)
  have hopt (s : Option Text) : Option.Rel (Tree.Same JsNumber.Same) ((s.map Json.str).map Json.tree)
      ((s.map Json.str).map Json.tree) := by
    cases s with
    | none => exact .none
    | some s => exact htext s
  intro name
  by_cases hname : name ∈ PaymentIntents.whitelist
  · simp only [PaymentIntents.whitelist, List.map_cons, List.map_nil, List.mem_cons, List.not_mem_nil, or_false] at hname
    rcases hname with rfl | rfl | rfl | rfl | rfl | rfl
    · rw [field_defaulted (by decide), field_defaulted (by decide), h.amount, h'.amount, hsame.amount]
      exact htext _
    · rw [field_defaulted (by decide), field_defaulted (by decide), h.asset, h'.asset, hsame.asset]
      exact htext _
    · rw [field_defaulted (by decide), field_defaulted (by decide), h.destination, h'.destination, hsame.destination]
      exact htext _
    · rw [field_defaulted (by decide), field_defaulted (by decide), h.reference, h'.reference, hsame.reference]
      exact hopt _
    · rw [field_defaulted (by decide), field_defaulted (by decide), h.clientRequestId, h'.clientRequestId,
        hsame.clientRequestId]
      exact hopt _
    · rw [field_metadata h, field_metadata h']
      exact .some hsame.metadata
  · rw [field_unknown h hname, field_unknown h' hname]
    exact .none

theorem payload_wellFormed (h : Describes dto.toCreatePaymentIntentBody body) (hwf : (Json.obj body).WellFormed) :
    (toCanonicalPayload dto).WellFormed := by
  have hoptional (s : Option Text) : (PaymentIntents.optionalText s).WellFormed := by
    cases s <;> trivial
  have hmetadata : (Json.obj dto.metadata).WellFormed := by
    rcases h.metadata with hm | ⟨_, hempty⟩
    · have hfield := field_entryTrees body "metadata"
      rw [hm] at hfield
      exact (Tree.wellFormedEntries_iff.mp hwf.2 _ (Tree.mem_of_field hfield)).2
    · rw [hempty]
      exact ⟨List.nodup_nil, trivial⟩
  have hproto : ∀ name ∈ PaymentIntents.whitelist, name ≠ "__proto__".toList := by decide
  refine ⟨nodup_whitelist, Tree.wellFormedEntries_iff.mpr ?_⟩
  rintro ⟨key, value⟩ he
  have hkey := List.mem_map_of_mem (f := Prod.fst) he
  refine ⟨hproto key hkey, ?_⟩
  simp only [Json.entryTrees, List.mem_cons, Prod.mk.injEq, List.not_mem_nil, or_false] at he
  rcases he with ⟨rfl, rfl⟩ | ⟨rfl, rfl⟩ | ⟨rfl, rfl⟩ | ⟨rfl, rfl⟩ | ⟨rfl, rfl⟩ | ⟨rfl, rfl⟩
  · trivial
  · trivial
  · trivial
  · exact hoptional dto.reference
  · exact hoptional dto.clientRequestId
  · exact hmetadata

theorem sameBody_of_requestHash {rt : Runtime} (hsha : Function.Injective rt.sha256Hex) (hnumbers : rt.PrintsNumbers)
    {v v' : JsValue} (hv : AcceptedBody v dto) (hv' : AcceptedBody v' dto') (hp : v.IsParsed) (hp' : v'.IsParsed)
    (hf : v.NoOverflow) (hf' : v'.NoOverflow) (hhash : requestHash rt dto = requestHash rt dto') : v.SameBody v' := by
  obtain ⟨hguard, b, rfl, hb⟩ := hv
  obtain ⟨hguard', b', rfl, hb'⟩ := hv'
  obtain ⟨body, rfl, hd⟩ := PaymentIntents.describes_of_validateBody hb
  obtain ⟨body', rfl, hd'⟩ := PaymentIntents.describes_of_validateBody hb'
  have hwf := wellFormed_of_guard hguard hp hf
  have hwf' := wellFormed_of_guard hguard' hp' hf'
  have hsame := (CanonicalJson.serializeCanonicalJson_eq_iff hnumbers (payload_wellFormed hd hwf)
    (payload_wellFormed hd' hwf')).mp (hsha hhash)
  have hnodup {body : JsonObject} (hwf : (Json.obj body).WellFormed) : (body.map Prod.fst).Nodup := by
    rw [← map_fst_entryTrees]
    exact hwf.1
  rw [JsValue.SameBody, defaulted_value, defaulted_value]
  exact (same_defaulted hd hd' (hnodup hwf) (hnodup hwf') (sameFields_of_same hsame)).mapStrings

end Hash

section Replays

variable {ι : Type}

def Creates (req : ι → Request) (σ : SystemState ι) (i : ι) (idempotencyKey : Text) : Prop :=
  AsksFor req i idempotencyKey ∧ ∃ a, AnsweredWith σ i a ∧ a.httpStatus = 201

structure ReplaysSameBody (req : ι → Request) (body : ι → JsValue) (σ : SystemState ι) : Prop where
  replayed : ∀ j key a, AsksFor req j key → AnsweredWith σ j a → a.replayed = true →
    (∃ i, Creates req σ i key) ∧ ∀ i, Creates req σ i key → (body j).SameBody (body i)
  conflict : ∀ i j key, Creates req σ i key → AsksFor req j key → Answered σ j → ¬ (body j).SameBody (body i) →
    σ.phase j = .rejected (.api .idempotencyConflict)

variable [DecidableEq ι] {rt : Runtime} {req : ι → Request} {body : ι → JsValue}

theorem requestHash_of_creates {ls : List (Label ι)} {σ : SystemState ι}
    (h : runs rt req (State.init Db.empty) ls = some σ) {i j : ι} {key : Text} {dto dto' : CreatePaymentIntentDto}
    {fresh fresh' : PaymentIntents.Fresh} {a : PaymentIntents.CreatePaymentIntentResult}
    (hi : req i = .createPaymentIntent key dto' fresh') (hj : req j = .createPaymentIntent key dto fresh)
    (hcreates : Creates req σ i key) (ha : AnsweredWith σ j a) : requestHash rt dto = requestHash rt dto' := by
  have hinv := reachable_answersInv h
  obtain ⟨-, b, hb, -⟩ := hcreates
  obtain ⟨_, r, hr, hrk, hrh, _⟩ := hinv.committed j key dto fresh hj a ha
  obtain ⟨_, s, hs, hsk, hsh, _⟩ := hinv.committed i key dto' fresh' hi b hb
  rw [← hrh, ← hsh, record_unique (reachable_indexes h) hr hs hrk hsk]

theorem replays_same_body (hsha : Function.Injective rt.sha256Hex) (hnumbers : rt.PrintsNumbers)
    (hbody : ∀ j key dto fresh, req j = .createPaymentIntent key dto fresh →
      AcceptedBody (body j) dto ∧ (body j).IsParsed ∧ (body j).NoOverflow)
    {ls : List (Label ι)} {σ : SystemState ι} (h : runs rt req (State.init Db.empty) ls = some σ) :
    ReplaysSameBody req body σ := by
  have hsame {i j : ι} {key : Text} {a : PaymentIntents.CreatePaymentIntentResult} (hi : Creates req σ i key)
      (hj : AsksFor req j key) (ha : AnsweredWith σ j a) : (body j).SameBody (body i) := by
    obtain ⟨dto, fresh, hqj⟩ := hj
    obtain ⟨dto', fresh', hqi⟩ := hi.1
    obtain ⟨haccept, hparsed, hfinite⟩ := hbody j key dto fresh hqj
    obtain ⟨haccept', hparsed', hfinite'⟩ := hbody i key dto' fresh' hqi
    exact sameBody_of_requestHash hsha hnumbers haccept haccept' hparsed hparsed' hfinite hfinite'
      (requestHash_of_creates h hqi hqj hi ha)
  constructor
  · intro j key a hj ha _
    obtain ⟨i, hi, _⟩ := (createsOnce h).oneCreated j key a hj ha
    exact ⟨⟨i, hi⟩, fun i hi => hsame hi hj ha⟩
  · intro i j key hi hj hans hne
    obtain ⟨dto, fresh, hqj⟩ := hj
    rcases hans with ⟨r, hr⟩ | ⟨e, he⟩
    · obtain ⟨a, rfl⟩ := response_of_create h hqj hr
      exact absurd (hsame hi ⟨dto, fresh, hqj⟩ hr) hne
    · rcases (reachable_answersInv h).rejected j key dto fresh hqj _ he with ⟨hc, _⟩ | ⟨x, hx⟩
      · rw [he, hc]
      · cases hx

end Replays

namespace Sample

def hashing (known : List (Text × Text)) : Runtime :=
  { printing (WebhookEvents.Sample.digest known) with toISOString := fun _ => "2026-01-01T00:00:00.000Z".toList }

theorem hashing_printsNumbers (known : List (Text × Text)) : (hashing known).PrintsNumbers :=
  have h := printing_printsNumbers (WebhookEvents.Sample.digest known)
  ⟨h.zero, h.nonempty, h.numeric, h.injective⟩

def required : JsonObject :=
  [("amount".toList, .str "25.50".toList), ("asset".toList, .str "USDC".toList),
    ("destination".toList, .str "wallet-1".toList)]

def sameBodies : Bool → Json
  | false => .obj required
  | true => .obj (("metadata".toList, .obj []) :: required.reverse)

def payloadDigest (metadata digest : String) : Text × Text :=
  ("\x7b\"amount\":\"25.50\",\"asset\":\"USDC\",\"clientRequestId\":null,\"destination\":\"wallet-1\",".toList ++
    "\"metadata\":".toList ++ metadata.toList ++ ",\"reference\":null\x7d".toList, digest.toList)

def plainRuntime : Runtime :=
  hashing [payloadDigest "\x7b\x7d" "64734229e9500fa624be18d2c411177f65d3c4b66f531e7ccf9fabd8ed05bfd9"]

def withMetadata (value : Json) : CreatePaymentIntentDto :=
  { dto with metadata := [("a".toList, value)] }

def overflowValue : Bool → Json
  | false => .num (.infinity false)
  | true => .null

def overflowBodies (first : Bool) : Json :=
  .obj (required ++ [("metadata".toList, .obj [("a".toList, overflowValue first)])])

def overflowRequests (first : Bool) : Request :=
  match twice first with
  | .createPaymentIntent key _ fresh => .createPaymentIntent key (withMetadata (overflowValue first)) fresh
  | q => q

def replayedSecond (σ : SystemState Bool) : Bool :=
  match σ.phase true with
  | .committed (.paymentIntent b) => b.replayed
  | _ => false

def overflowRuntime : Runtime :=
  hashing [payloadDigest "\x7b\"a\":null\x7d" "041a14c9c0d004d9c13e3a3fe61683e989a88fffe19623951c41597d0473b42f"]

end Sample

theorem replays_same_body_sample : ∃ σ : SystemState Bool,
    runs Sample.plainRuntime Sample.twice (State.init Db.empty) Sample.overlapping = some σ ∧
      Sample.createdAndReplayed σ = true ∧ ReplaysSameBody Sample.twice (fun j => (Sample.sameBodies j).value) σ := by
  have hrun : (runs Sample.plainRuntime Sample.twice (State.init Db.empty) Sample.overlapping).any
      Sample.createdAndReplayed = true := by
    decide +kernel
  obtain ⟨σ, hσ, hanswers⟩ := (Option.any_eq_true _ _).mp hrun
  refine ⟨σ, hσ, hanswers, replays_same_body (WebhookEvents.Sample.digest_injective (by decide) (by decide))
    (Sample.hashing_printsNumbers _) ?_ hσ⟩
  have hguard : ∀ j, findRequestBodyViolation (Sample.sameBodies j).value = none := by decide +kernel
  have hdto {j : Bool} {key : Text} {dto : CreatePaymentIntentDto} {fresh : PaymentIntents.Fresh}
      (hq : Sample.twice j = .createPaymentIntent key dto fresh) : dto = Sample.dto := by
    cases j <;> cases hq <;> rfl
  intro j key dto fresh hq
  rw [hdto hq]
  have hnumbers : Tree.WellFormed (fun _ => False) (fun _ => True) (Sample.sameBodies j).value := by
    cases j with
    | false => exact ⟨by decide, ⟨trivial, trivial⟩, ⟨trivial, trivial⟩, ⟨trivial, trivial⟩, trivial⟩
    | true =>
      exact ⟨by decide, ⟨trivial, List.nodup_nil, trivial⟩, ⟨trivial, trivial⟩, ⟨trivial, trivial⟩, ⟨trivial, trivial⟩,
        trivial⟩
  have hvalid : validateBody (Sample.sameBodies j) = .ok Sample.dto := by
    cases j <;> rfl
  exact ⟨⟨hguard j, _, rfl, hvalid⟩, hnumbers.mono (fun _ hn => hn.elim) (fun _ hk => hk),
    fun n negative hoccurs => wellFormed_of_mem hoccurs hnumbers⟩

theorem overflow_replays_other_body : ∃ σ : SystemState Bool,
    Function.Injective Sample.overflowRuntime.sha256Hex ∧ Sample.overflowRuntime.PrintsNumbers ∧
      (∀ j key dto fresh, Sample.overflowRequests j = .createPaymentIntent key dto fresh →
        AcceptedBody (Sample.overflowBodies j).value dto ∧ (Sample.overflowBodies j).value.IsParsed) ∧
      runs Sample.overflowRuntime Sample.overflowRequests (State.init Db.empty) Sample.overlapping = some σ ∧
      ¬ ReplaysSameBody Sample.overflowRequests (fun j => (Sample.overflowBodies j).value) σ := by
  have hrun : (runs Sample.overflowRuntime Sample.overflowRequests (State.init Db.empty) Sample.overlapping).any
      (fun σ => Sample.createdAndReplayed σ && Sample.replayedSecond σ) = true := by
    decide +kernel
  have hguard : ∀ j, findRequestBodyViolation (Sample.overflowBodies j).value = none := by decide +kernel
  obtain ⟨σ, hσ, hanswers⟩ := (Option.any_eq_true _ _).mp hrun
  refine ⟨σ, WebhookEvents.Sample.digest_injective (by decide) (by decide), Sample.hashing_printsNumbers _, ?_, hσ, ?_⟩
  · have hvalid (j : Bool) : validateBody (Sample.overflowBodies j) = .ok (Sample.withMetadata (Sample.overflowValue j)) := by
      cases j <;> rfl
    have hdto {j : Bool} {key : Text} {dto : CreatePaymentIntentDto} {fresh : PaymentIntents.Fresh}
        (hq : Sample.overflowRequests j = .createPaymentIntent key dto fresh) :
        dto = Sample.withMetadata (Sample.overflowValue j) := by
      cases j <;> cases hq <;> rfl
    intro j key dto fresh hq
    rw [hdto hq]
    refine ⟨⟨hguard j, _, rfl, hvalid j⟩, ?_⟩
    cases j <;>
      exact ⟨by decide, ⟨trivial, trivial⟩, ⟨trivial, trivial⟩, ⟨trivial, trivial⟩,
        ⟨trivial, by decide, ⟨trivial, trivial⟩, trivial⟩, trivial⟩
  · intro hsame
    obtain ⟨hstatus, hreplayed⟩ := Bool.and_eq_true_iff.mp hanswers
    unfold Sample.createdAndReplayed at hstatus
    unfold Sample.replayedSecond at hreplayed
    split at hstatus
    · rename_i a b ha hb
      rw [hb] at hreplayed
      simp only [Bool.and_eq_true, decide_eq_true_eq] at hstatus
      have hbody := (hsame.replayed true _ b ⟨_, _, rfl⟩ hb hreplayed).2 false ⟨⟨_, _, rfl⟩, a, ha, hstatus.1⟩
      obtain ⟨_, _, _, ⟨_, hmetadata⟩, _⟩ := Tree.sameEntries_of_keys
        (["amount", "asset", "destination", "metadata"].map JsString.ofString) (by decide) rfl rfl hbody
      obtain ⟨⟨_, hvalue⟩, _⟩ := Tree.sameEntries_of_keys (["a"].map JsString.ofString) (by decide) rfl rfl hmetadata
      exact hvalue
    · cases hstatus

end EventGateway
