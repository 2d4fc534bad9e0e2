import EventGateway.GatewaySpec

namespace EventGateway

open KeyedTable TransactionProgram Interleaving Statements
open PaymentIntents (HoldsKey requestHash)

structure RecordsInv (d : Db) : Prop where
  complete : ∀ r ∈ d.idempotencyRecords, r.responseStatus.isSome = true ∧ r.responseBody.isSome = true ∧
    r.resourceId.isSome = true
  linked : ∀ k, (d.paymentIntents.get k).isSome = true ↔ ∃ r ∈ d.idempotencyRecords, r.resourceId = some k
  unique : ∀ a ∈ d.idempotencyRecords, ∀ b ∈ d.idempotencyRecords, a.resourceId = b.resourceId → a = b

theorem recordsInv_empty : RecordsInv Db.empty := by
  refine ⟨fun r hr => absurd hr (Table.not_mem_empty r), ?_, fun r hr => absurd hr (Table.not_mem_empty r)⟩
  intro k
  constructor
  · intro h
    cases h
  · rintro ⟨r, hr, _⟩
    exact absurd hr (Table.not_mem_empty r)

section Commits

variable {rt : Runtime} {d : Db}

theorem recordsInv_created {d' : Db} {idempotencyKey : Text} {dto : PaymentIntents.CreatePaymentIntentDto}
    {fresh : PaymentIntents.Fresh} {r : PaymentIntents.CreatePaymentIntentResult} (h : RecordsInv d)
    (hc : PaymentIntents.Created rt idempotencyKey dto fresh d r d') : RecordsInv d' := by
  cases hc with
  | replayed => exact h
  | created amount hk hr hi ha =>
    -- the id of the intent is new, so no record belongs to it yet
    have hnew : ∀ r ∈ d.idempotencyRecords, r.resourceId ≠ some fresh.paymentIntentId := by
      intro r hr heq
      have hsome := (h.linked fresh.paymentIntentId).mpr ⟨r, hr, heq⟩
      rw [hi] at hsome
      cases hsome
    refine ⟨?_, ?_, ?_⟩
    · intro r hr
      rcases Table.mem_of_mem_insert hr with hr | rfl
      · exact h.complete r hr
      · exact ⟨rfl, rfl, rfl⟩
    · apply Table.linked_insert hr _ h.linked
      intro k
      exact ⟨fun hk => (Option.some.inj hk).symm, fun hk => congrArg some hk.symm⟩
    · exact Table.unique_insert (fun _ _ => Eq.symm) h.unique hnew

theorem Commits.records_eq {w : World Db JobData} {q : Request} {r : Response} (hc : Commits rt w q r d)
    (hq : ∀ k dto fresh, q ≠ .createPaymentIntent k dto fresh) :
    d.idempotencyRecords = w.db.idempotencyRecords ∧
      ∀ k, (d.paymentIntents.get k).isSome = (w.db.paymentIntents.get k).isSome := by
  cases hc with
  | paymentIntent => exact absurd rfl (hq _ _ _)
  | acceptance hv ha =>
    cases ha with
    | alreadyAccepted | accepted => exact ⟨rfl, fun _ => rfl⟩
  | dispatched hws =>
    obtain ⟨hi, hr, _⟩ := OutboxDispatcher.view_outboxWrites (fun x hx => (hws x hx).outboxWrite)
    exact ⟨hr, fun k => by rw [hi]⟩
  | reconciled hws =>
    obtain ⟨hi, hr, _⟩ := OutboxDispatcher.view_outboxWrites (fun x hx => (hws x hx).outboxWrite)
    exact ⟨hr, fun k => by rw [hi]⟩
  | processed hp he hs =>
    cases hs with
    | alreadyProcessed | alreadyFailed | failed | confirmedBefore => exact ⟨rfl, fun _ => rfl⟩
    | confirmed i txHash hfinal hi hm hstatus hfree =>
      refine ⟨rfl, fun k => ?_⟩
      simp only [WebhookEventProcessor.settle, WebhookEventProcessor.confirmIntent]
      rw [Table.get_update, Option.isSome_map]

theorem Commits.recordsInv {w : World Db JobData} {q : Request} {r : Response} (hc : Commits rt w q r d)
    (h : RecordsInv w.db) : RecordsInv d := by
  by_cases hq : ∀ k dto fresh, q ≠ .createPaymentIntent k dto fresh
  · obtain ⟨hr, hi⟩ := hc.records_eq hq
    refine ⟨?_, ?_, ?_⟩
    · rw [hr]
      exact h.complete
    · intro k
      rw [hr, hi]
      exact h.linked k
    · rw [hr]
      exact h.unique
  · push Not at hq
    obtain ⟨k, dto, fresh, rfl⟩ := hq
    cases hc with
    | paymentIntent hc => exact recordsInv_created h hc

end Commits

section Answers

variable {ι : Type} (rt : Runtime) (req : ι → Request)

def AsksFor (j : ι) (idempotencyKey : Text) : Prop :=
  ∃ dto fresh, req j = .createPaymentIntent idempotencyKey dto fresh

def AnsweredWith (σ : SystemState ι) (j : ι) (a : PaymentIntents.CreatePaymentIntentResult) : Prop :=
  σ.phase j = .committed (.paymentIntent a)

structure AnswersInv (σ : SystemState ι) : Prop where
  records : RecordsInv σ.world.db
  committed : ∀ j key dto fresh, req j = .createPaymentIntent key dto fresh → ∀ a, AnsweredWith σ j a →
    (a.httpStatus = 200 ∨ a.httpStatus = 201) ∧ ∃ r ∈ σ.world.db.idempotencyRecords, HoldsKey key r ∧
      r.requestHash = requestHash rt dto ∧ r.responseBody = some a.body
  rejected : ∀ j key dto fresh, req j = .createPaymentIntent key dto fresh → ∀ e, σ.phase j = .rejected e →
    (e = .api .idempotencyConflict ∧ ∃ r ∈ σ.world.db.idempotencyRecords, HoldsKey key r ∧
      r.requestHash ≠ requestHash rt dto) ∨ ∃ x, e = .database x
  creator : ∀ r ∈ σ.world.db.idempotencyRecords, ∃ j, AsksFor req j r.idempotencyKey ∧
    ∃ a, AnsweredWith σ j a ∧ a.httpStatus = 201
  once : ∀ i j key, AsksFor req i key → AsksFor req j key → ∀ a b, AnsweredWith σ i a → AnsweredWith σ j b →
    a.httpStatus = 201 → b.httpStatus = 201 → i = j

theorem answersInv_init : AnswersInv rt req (State.init Db.empty) := by
  refine ⟨recordsInv_empty, ?_, ?_, ?_, ?_⟩
  · intro j key dto fresh _ a ha
    cases ha
  · intro j key dto fresh _ e he
    cases he
  · intro r hr
    exact absurd hr (Table.not_mem_empty r)
  · intro i j key _ _ a b ha
    cases ha

variable {rt req}

theorem AnswersInv.quiet {σ σ' : SystemState ι} (h : AnswersInv rt req σ) (hi : RecordsInv σ'.world.db)
    (hr : σ'.world.db.idempotencyRecords = σ.world.db.idempotencyRecords)
    (hc : ∀ j k, AsksFor req j k → ∀ r, σ'.phase j = .committed r ↔ σ.phase j = .committed r)
    (hrej : ∀ j k, AsksFor req j k → ∀ e, σ'.phase j = .rejected e → σ.phase j = .rejected e) :
    AnswersInv rt req σ' := by
  refine ⟨hi, ?_, ?_, ?_, ?_⟩
  · intro j key dto fresh hq a ha
    rw [hr]
    exact h.committed j key dto fresh hq a ((hc j key ⟨dto, fresh, hq⟩ _).mp ha)
  · intro j key dto fresh hq e he
    rw [hr]
    exact h.rejected j key dto fresh hq e (hrej j key ⟨dto, fresh, hq⟩ e he)
  · intro r hrec
    rw [hr] at hrec
    obtain ⟨j, hj, a, ha, h201⟩ := h.creator r hrec
    exact ⟨j, hj, a, (hc j _ hj _).mpr ha, h201⟩
  · intro i j key hi hj a b ha hb
    exact h.once i j key hi hj a b ((hc i key hi _).mp ha) ((hc j key hj _).mp hb)

variable [DecidableEq ι]

theorem answersInv_reject {σ σ' : SystemState ι} (h : AnswersInv rt req σ) {i : ι} {e : Failure}
    (hrun : ∀ r, σ.phase i ≠ .committed r) (hrej : (req i).Reject rt e σ.world ∨ ∃ x, e = .database x)
    (hw : σ'.world = σ.world) (hp : σ'.phase = Function.update σ.phase i (.rejected e)) : AnswersInv rt req σ' := by
  have hcom (j : ι) (r : Response) : σ'.phase j = .committed r ↔ σ.phase j = .committed r := by
    rw [hp]
    by_cases hj : j = i
    · subst hj
      simp [hrun r]
    · rw [Function.update_of_ne hj]
  refine ⟨by rw [hw]; exact h.records, ?_, ?_, ?_, ?_⟩
  · intro j key dto fresh hq a ha
    rw [hw]
    exact h.committed j key dto fresh hq a ((hcom j _).mp ha)
  · intro j key dto fresh hq x hx
    rw [hw]
    rw [hp] at hx
    by_cases hj : j = i
    · subst hj
      rw [Function.update_self] at hx
      cases hx
      rcases hrej with hrej | hdb
      · rw [hq] at hrej
        cases PaymentIntents.refused_of_transaction hrej with
        | conflict r hr hk hh => exact Or.inl ⟨rfl, r, hr, hk, hh⟩
        | incomplete r hr hk hn =>
          obtain ⟨hs, hb, _⟩ := h.records.complete r hr
          rcases hn with hn | hn
          · rw [hn] at hs
            cases hs
          · rw [hn] at hb
            cases hb
        | database x => exact Or.inr ⟨x, rfl⟩
      · exact Or.inr hdb
    · rw [Function.update_of_ne hj] at hx
      exact h.rejected j key dto fresh hq x hx
  · intro r hr
    rw [hw] at hr
    obtain ⟨j, hj, a, ha, h201⟩ := h.creator r hr
    exact ⟨j, hj, a, (hcom j _).mpr ha, h201⟩
  · intro j k key hj hk a b ha hb
    exact h.once j k key hj hk a b ((hcom j _).mp ha) ((hcom k _).mp hb)

theorem answersInv_answer {σ σ' : SystemState ι} (h : AnswersInv rt req σ) {i : ι} {key : Text}
    {dto : PaymentIntents.CreatePaymentIntentDto} {fresh : PaymentIntents.Fresh}
    {a : PaymentIntents.CreatePaymentIntentResult} (hq : req i = .createPaymentIntent key dto fresh)
    (hrun : ∀ p, σ.phase i = p → (∀ r, p ≠ .committed r) ∧ ∀ e, p ≠ .rejected e)
    (hp : σ'.phase = Function.update σ.phase i (.committed (.paymentIntent a)))
    (hc : PaymentIntents.Created rt key dto fresh σ.world.db a σ'.world.db) : AnswersInv rt req σ' := by
  have hself : AnsweredWith σ' i a := by rw [AnsweredWith, hp, Function.update_self]
  have hold {j : ι} (hj : j ≠ i) : σ'.phase j = σ.phase j := by rw [hp, Function.update_of_ne hj]
  have hkept (j : ι) (b : PaymentIntents.CreatePaymentIntentResult) (hb : AnsweredWith σ j b) : AnsweredWith σ' j b := by
    have hj : j ≠ i := by
      rintro rfl
      exact (hrun _ rfl).1 _ hb
    rw [AnsweredWith, hold hj]
    exact hb
  have hback (j : ι) (b : PaymentIntents.CreatePaymentIntentResult) (hb : AnsweredWith σ' j b) :
      j = i ∧ b = a ∨ j ≠ i ∧ AnsweredWith σ j b := by
    by_cases hj : j = i
    · subst hj
      rw [AnsweredWith, hp, Function.update_self] at hb
      cases hb
      exact Or.inl ⟨rfl, rfl⟩
    · rw [AnsweredWith, hold hj] at hb
      exact Or.inr ⟨hj, hb⟩
  have hrecords (r : IdempotencyRecord) (hr : r ∈ σ.world.db.idempotencyRecords) :
      r ∈ σ'.world.db.idempotencyRecords := hc.evolves.idempotencyRecords r hr
  -- whether the record was found or has just been made
  have hrecord : (a.httpStatus = 200 ∨ a.httpStatus = 201) ∧ ∃ r ∈ σ'.world.db.idempotencyRecords, HoldsKey key r ∧
      r.requestHash = requestHash rt dto ∧ r.responseBody = some a.body := by
    generalize σ'.world.db = d' at hc
    cases hc with
    | replayed r status body hr hk hh hs hb => exact ⟨Or.inl rfl, r, hr, hk, hh, hb⟩
    | created amount hk hr hi ha =>
      exact ⟨Or.inr rfl, _, (Table.mem_insert hr).mpr (Or.inr rfl), ⟨rfl, rfl⟩, rfl, rfl⟩
  have hfirst : a.httpStatus = 201 → ∀ r ∈ σ.world.db.idempotencyRecords, ¬ HoldsKey key r := by
    generalize σ'.world.db = d' at hc
    cases hc with
    | replayed => intro h201; cases h201
    | created amount hk hr hi ha => exact fun _ => hk
  have hcreator (r : IdempotencyRecord) (hr : r ∈ σ'.world.db.idempotencyRecords) :
      r ∈ σ.world.db.idempotencyRecords ∨ r.idempotencyKey = key ∧ a.httpStatus = 201 := by
    generalize σ'.world.db = d' at hc hr
    cases hc with
    | replayed => exact Or.inl hr
    | created amount hk hr' hi ha =>
      rcases Table.mem_of_mem_insert hr with hr | rfl
      · exact Or.inl hr
      · exact Or.inr ⟨rfl, rfl⟩
  refine ⟨recordsInv_created h.records hc, ?_, ?_, ?_, ?_⟩
  · intro j key' dto' fresh' hq' b hb
    rcases hback j b hb with ⟨rfl, rfl⟩ | ⟨_, hb⟩
    · rw [hq] at hq'
      cases hq'
      exact hrecord
    · obtain ⟨hs, r, hr, hr'⟩ := h.committed j key' dto' fresh' hq' b hb
      exact ⟨hs, r, hrecords r hr, hr'⟩
  · intro j key' dto' fresh' hq' e he
    have hj : j ≠ i := by
      rintro rfl
      rw [hp, Function.update_self] at he
      cases he
    rw [hold hj] at he
    rcases h.rejected j key' dto' fresh' hq' e he with ⟨rfl, r, hr, hr'⟩ | hdb
    · exact Or.inl ⟨rfl, r, hrecords r hr, hr'⟩
    · exact Or.inr hdb
  · intro r hr
    rcases hcreator r hr with hr | ⟨rfl, h201⟩
    · obtain ⟨j, hj, b, hb, hb201⟩ := h.creator r hr
      exact ⟨j, hj, b, hkept j b hb, hb201⟩
    · exact ⟨i, ⟨dto, fresh, hq⟩, a, hself, h201⟩
  · -- a second 201 for a key would have found the record of the first
    have hsecond (j : ι) (b : PaymentIntents.CreatePaymentIntentResult) (hj : AsksFor req j key)
        (hb : AnsweredWith σ j b) (h201 : a.httpStatus = 201) : False := by
      obtain ⟨dto', fresh', hq'⟩ := hj
      obtain ⟨_, r, hr, hk, _⟩ := h.committed j key dto' fresh' hq' b hb
      exact hfirst h201 r hr hk
    have hkey {key' : Text} (hi : AsksFor req i key') : key' = key := by
      obtain ⟨dto', fresh', hq'⟩ := hi
      rw [hq] at hq'
      cases hq'
      rfl
    intro j k key' hj hk b c hb hc' hb201 hc201
    rcases hback j b hb with ⟨rfl, rfl⟩ | ⟨_, hb⟩ <;> rcases hback k c hc' with ⟨rfl, rfl⟩ | ⟨_, hc'⟩
    · rfl
    · obtain rfl := hkey hj
      exact (hsecond k c hk hc' hb201).elim
    · obtain rfl := hkey hk
      exact (hsecond j b hj hb hc201).elim
    · exact h.once j k key' hj hk b c hb hc' hb201 hc201

theorem answersInv_step {σ σ' : SystemState ι} (h : AnswersInv rt req σ) (hstep : SystemStep rt req σ σ') :
    AnswersInv rt req σ' := by
  cases hstep with
  | quiet js hw hc hr =>
    refine h.quiet (by rw [hw]; exact h.records) (by rw [hw]; rfl) (fun j _ _ r => hc j r) (fun j _ _ e => (hr j e).mp)
  | reject i e s hrun hrej hw hp => exact answersInv_reject h (by simp [hrun]) hrej hw hp
  | commit i r s hrun hcom he hp =>
    by_cases hq : ∀ k dto fresh, req i ≠ .createPaymentIntent k dto fresh
    · have hne (j : ι) (k : Text) (hj : AsksFor req j k) : j ≠ i := by
        rintro rfl
        obtain ⟨dto, fresh, hj⟩ := hj
        exact hq k dto fresh hj
      apply h.quiet (hcom.recordsInv h.records) (hcom.records_eq hq).1
      · intro j k hj r'
        rw [hp, Function.update_of_ne (hne j k hj)]
      · intro j k hj e'
        rw [hp, Function.update_of_ne (hne j k hj)]
        exact fun he' => he'
    · push Not at hq
      obtain ⟨k, dto, fresh, hq⟩ := hq
      rw [hq] at hcom
      generalize hd : σ'.world.db = d' at hcom
      cases hcom with
      | paymentIntent hc =>
        subst hd
        exact answersInv_answer h hq (by rintro p rfl; simp [hrun]) hp hc

end Answers

section CreatedIntents

variable {ι : Type} {rt : Runtime} {req : ι → Request}

def Answered (σ : SystemState ι) (j : ι) : Prop :=
  (∃ r, σ.phase j = .committed r) ∨ ∃ e, σ.phase j = .rejected (.api e)

def FailsWith (σ : SystemState ι) (j : ι) (e : Failure) : Prop :=
  σ.phase j = .rejected e ∨ ∃ ws faulted, σ.phase j = .running ⟨.throw e, ws, faulted⟩

structure CreatesOnce (rt : Runtime) (req : ι → Request) (σ : SystemState ι) : Prop where
  intentOf : ∀ r ∈ σ.world.db.idempotencyRecords, ∃! i, i ∈ σ.world.db.paymentIntents ∧ r.resourceId = some i.id
  recordOf : ∀ i ∈ σ.world.db.paymentIntents, ∃! r, r ∈ σ.world.db.idempotencyRecords ∧ r.resourceId = some i.id
  complete : ∀ r ∈ σ.world.db.idempotencyRecords, r.responseStatus.isSome = true ∧ r.responseBody.isSome = true
  status : ∀ j key a, AsksFor req j key → AnsweredWith σ j a → a.httpStatus = 200 ∨ a.httpStatus = 201
  sameBody : ∀ i j key a b, AsksFor req i key → AsksFor req j key → AnsweredWith σ i a → AnsweredWith σ j b →
    a.body = b.body
  oneCreated : ∀ j key a, AsksFor req j key → AnsweredWith σ j a →
    ∃! i, AsksFor req i key ∧ ∃ b, AnsweredWith σ i b ∧ b.httpStatus = 201
  conflict : ∀ j key dto fresh, req j = .createPaymentIntent key dto fresh → Answered σ j →
    (σ.phase j = .rejected (.api .idempotencyConflict) ↔
      ∃ r ∈ σ.world.db.idempotencyRecords, HoldsKey key r ∧ r.requestHash ≠ requestHash rt dto)
  readable : ∀ j key, AsksFor req j key → ¬ FailsWith σ j (.api .idempotencyRecordUnreadable)
  available : ∀ j key, AsksFor req j key → ¬ FailsWith σ j (.api .idempotentSnapshotUnavailable)

variable [DecidableEq ι]

theorem reachable_answersInv {ls : List (Label ι)} {σ : SystemState ι}
    (h : runs rt req (State.init Db.empty) ls = some σ) : AnswersInv rt req σ :=
  reachable_invariant (answersInv_init rt req) (fun _ _ _ hinv hstep => answersInv_step hinv hstep) h

theorem response_of_create {ls : List (Label ι)} {σ : SystemState ι} (h : runs rt req (State.init Db.empty) ls = some σ)
    {j : ι} {key : Text} {dto : PaymentIntents.CreatePaymentIntentDto} {fresh : PaymentIntents.Fresh} {r : Response}
    (hq : req j = .createPaymentIntent key dto fresh) (hc : σ.phase j = .committed r) : ∃ a, r = .paymentIntent a := by
  obtain ⟨w, d, hcom⟩ := reachable_commits h j r hc
  rw [hq] at hcom
  cases hcom
  exact ⟨_, rfl⟩

theorem record_unique {d : Db} (hd : d.Indexes) {key : Text} {r s : IdempotencyRecord} (hr : r ∈ d.idempotencyRecords)
    (hs : s ∈ d.idempotencyRecords) (hrk : HoldsKey key r) (hsk : HoldsKey key s) : r = s :=
  hd.idempotencyKey r hr s hs (hrk.1.trans hsk.1.symm) (hrk.2.trans hsk.2.symm)

theorem not_failsWith {ls : List (Label ι)} {σ : SystemState ι} (h : runs rt req (State.init Db.empty) ls = some σ)
    {e : ApiError} (he : e ≠ .idempotencyConflict) {j : ι} {key : Text} (hj : AsksFor req j key) :
    ¬ FailsWith σ j (.api e) := by
  -- a failure about to be thrown can be thrown, so it is enough to know the ones that have been
  obtain ⟨dto, fresh, hq⟩ := hj
  have hrejected {ls : List (Label ι)} {σ : SystemState ι} (h : runs rt req (State.init Db.empty) ls = some σ) :
      σ.phase j ≠ .rejected (.api e) := by
    intro hr
    rcases (reachable_answersInv h).rejected j key dto fresh hq _ hr with ⟨hc, _⟩ | ⟨x, hx⟩
    · exact he (Failure.api.inj hc)
    · cases hx
  rintro (hr | ⟨ws, faulted, hr⟩)
  · exact hrejected h hr
  · have hstep : step engine (scripts rt req) σ (.finish j) = some (σ.close j (.rejected (.api e))) := by
      simp only [step, hr]
    have hnext : runs rt req (State.init Db.empty) (ls ++ [.finish j]) = some (σ.close j (.rejected (.api e))) := by
      rw [runs] at h ⊢
      rw [run_append, h]
      simp only [Option.bind_some, run, hstep]
    exact hrejected hnext (Function.update_self _ _ _)

theorem createsOnce {ls : List (Label ι)} {σ : SystemState ι} (h : runs rt req (State.init Db.empty) ls = some σ) :
    CreatesOnce rt req σ := by
  have hinv := reachable_answersInv h
  have hindexes := reachable_indexes h
  refine ⟨?_, ?_, ?_, ?_, ?_, ?_, ?_, ?_, ?_⟩
  · intro r hr
    obtain ⟨k, hk⟩ := Option.isSome_iff_exists.mp (hinv.records.complete r hr).2.2
    obtain ⟨i, hi⟩ := Option.isSome_iff_exists.mp ((hinv.records.linked k).mpr ⟨r, hr, hk⟩)
    have hid : i.id = k := Table.key_of_get hi
    refine ⟨i, ⟨Table.mem_of_get hi, by rw [hk, hid]⟩, ?_⟩
    rintro j ⟨hj, hrj⟩
    have hjk : j.id = k := Option.some.inj (hrj.symm.trans hk)
    exact Table.eq_of_key hj (Table.mem_of_get hi) (hjk.trans hid.symm)
  · intro i hi
    have hget : σ.world.db.paymentIntents.get i.id = some i := Table.get_of_mem hi
    obtain ⟨r, hr, hrk⟩ := (hinv.records.linked i.id).mp (by rw [hget]; rfl)
    refine ⟨r, ⟨hr, hrk⟩, ?_⟩
    rintro s ⟨hs, hsk⟩
    exact hinv.records.unique s hs r hr (hsk.trans hrk.symm)
  · intro r hr
    obtain ⟨hs, hb, _⟩ := hinv.records.complete r hr
    exact ⟨hs, hb⟩
  · rintro j key a ⟨dto, fresh, hq⟩ ha
    exact (hinv.committed j key dto fresh hq a ha).1
  · rintro i j key a b ⟨dto, fresh, hq⟩ ⟨dto', fresh', hq'⟩ ha hb
    obtain ⟨_, r, hr, hrk, _, hra⟩ := hinv.committed i key dto fresh hq a ha
    obtain ⟨_, s, hs, hsk, _, hsb⟩ := hinv.committed j key dto' fresh' hq' b hb
    rw [record_unique hindexes hr hs hrk hsk, hsb] at hra
    exact (Option.some.inj hra).symm
  · rintro j key a ⟨dto, fresh, hq⟩ ha
    obtain ⟨_, r, hr, hrk, _⟩ := hinv.committed j key dto fresh hq a ha
    obtain ⟨i, hi, b, hb, h201⟩ := hinv.creator r hr
    rw [hrk.2] at hi
    refine ⟨i, ⟨hi, b, hb, h201⟩, ?_⟩
    rintro k ⟨hk, c, hc, hc201⟩
    exact hinv.once k i key hk hi c b hc hb hc201 h201
  · intro j key dto fresh hq hans
    constructor
    · intro hr
      rcases hinv.rejected j key dto fresh hq _ hr with ⟨_, hrec⟩ | ⟨x, hx⟩
      · exact hrec
      · cases hx
    · rintro ⟨r, hr, hrk, hne⟩
      rcases hans with ⟨resp, hc⟩ | ⟨e, he⟩
      · obtain ⟨a, rfl⟩ := response_of_create h hq hc
        obtain ⟨_, s, hs, hsk, hse, _⟩ := hinv.committed j key dto fresh hq a hc
        rw [record_unique hindexes hr hs hrk hsk] at hne
        exact absurd hse hne
      · rcases hinv.rejected j key dto fresh hq _ he with ⟨hc, _⟩ | ⟨x, hx⟩
        · rw [he, hc]
        · cases hx
  · exact fun j key hj => not_failsWith h (by simp) hj
  · exact fun j key hj => not_failsWith h (by simp) hj

theorem idempotent_creation {ls : List (Label ι)} {σ : SystemState ι}
    (h : runs rt req (State.init Db.empty) ls = some σ) :
    CreatesOnce rt req σ ∧
      ∀ j, σ.phase j = .rejected (.api .idempotencyConflict) → ∀ xs l ys σ₁ σ₂, ls = xs ++ l :: ys → l.actor = j →
        runs rt req (State.init Db.empty) xs = some σ₁ → step engine (scripts rt req) σ₁ l = some σ₂ →
          σ₂.world.db = σ₁.world.db := by
  refine ⟨createsOnce h, ?_⟩
  rintro j hj xs l ys σ₁ σ₂ rfl rfl hxs hs
  rw [runs, run_append] at h
  rw [runs] at hxs
  rw [hxs, Option.bind_some, run, hs, Option.bind_some] at h
  exact step_db_of_not_committed hs h (by simp [hj])

end CreatedIntents

namespace Sample

def twice : Bool → Request
  | false => create
  | true => .createPaymentIntent "key-1".toList dto
      ⟨0x00000000000040008000000000000005, 0x00000000000040008000000000000006, time, time⟩

def overlapping : List (Label Bool) :=
  [.start false, .exec false, .start true] ++ List.replicate 3 (.exec false) ++ [.finish false] ++
    List.replicate 2 (.exec true) ++ [.finish true]

def createdAndReplayed (σ : SystemState Bool) : Bool :=
  match σ.phase false, σ.phase true with
  | .committed (.paymentIntent a), .committed (.paymentIntent b) => a.httpStatus = 201 && b.httpStatus = 200
  | _, _ => false

end Sample

theorem idempotent_creation_sample : ∃ σ : SystemState Bool,
    runs Sample.runtime Sample.twice (State.init Db.empty) Sample.overlapping = some σ ∧
      Sample.createdAndReplayed σ = true ∧ CreatesOnce Sample.runtime Sample.twice σ := by
  have hrun : (runs Sample.runtime Sample.twice (State.init Db.empty) Sample.overlapping).any
      Sample.createdAndReplayed = true := by
    decide +kernel
  obtain ⟨σ, hσ, hanswers⟩ := (Option.any_eq_true _ _).mp hrun
  exact ⟨σ, hσ, hanswers, (idempotent_creation hσ).1⟩

end EventGateway
