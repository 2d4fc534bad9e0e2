import EventGateway.PaymentIntents
import EventGateway.RowEvolution

namespace EventGateway.PaymentIntents

open KeyedTable TransactionProgram PaymentAmount Statements

variable (rt : Runtime) (idempotencyKey : Text) (dto : CreatePaymentIntentDto) (fresh : Fresh)

def HoldsKey (r : IdempotencyRecord) : Prop := r.scope = idempotencyScope ∧ r.idempotencyKey = idempotencyKey

def createdBody : PaymentIntentResponse := toResponse rt (newPaymentIntent dto fresh)

def completedRecord : IdempotencyRecord :=
  (newRecord idempotencyKey (requestHash rt dto) fresh).patch
    (responsePatch (createdBody rt dto fresh) fresh.paymentIntentId)

def createdIntent (amount : Numeric) : PaymentIntent := { newPaymentIntent dto fresh with amount := amount }

def createdDb (d : Db) (amount : Numeric) : Db :=
  { d with
    paymentIntents := d.paymentIntents.insert (createdIntent dto fresh amount)
    idempotencyRecords := d.idempotencyRecords.insert (completedRecord rt idempotencyKey dto fresh) }

inductive Created (d : Db) : CreatePaymentIntentResult → Db → Prop
  | replayed (r : IdempotencyRecord) (status : ℕ) (body : PaymentIntentResponse) (hr : r ∈ d.idempotencyRecords)
      (hk : HoldsKey idempotencyKey r) (hh : r.requestHash = requestHash rt dto) (hs : r.responseStatus = some status)
      (hb : r.responseBody = some body) (hlen : isTooLong maxVarchar idempotencyKey = false) :
      Created d ⟨200, true, body⟩ d
  | created (amount : Numeric) (hk : ∀ r ∈ d.idempotencyRecords, ¬ HoldsKey idempotencyKey r)
      (hr : d.idempotencyRecords.get fresh.recordId = none) (hi : d.paymentIntents.get fresh.paymentIntentId = none)
      (ha : parseNumeric dto.amount = some amount) (hlen : isTooLong maxVarchar idempotencyKey = false)
      (hfit : exceedsColumns (newPaymentIntent dto fresh) = false) :
      Created d ⟨201, false, createdBody rt dto fresh⟩ (createdDb rt idempotencyKey dto fresh d amount)

inductive Refused (d : Db) : Failure → Prop
  | conflict (r : IdempotencyRecord) (hr : r ∈ d.idempotencyRecords) (hk : HoldsKey idempotencyKey r)
      (hh : r.requestHash ≠ requestHash rt dto) : Refused d (.api .idempotencyConflict)
  | incomplete (r : IdempotencyRecord) (hr : r ∈ d.idempotencyRecords) (hk : HoldsKey idempotencyKey r)
      (hn : r.responseStatus = none ∨ r.responseBody = none) : Refused d (.api .idempotentSnapshotUnavailable)
  | database (x : DbError) : Refused d (.database x)

variable {rt idempotencyKey dto fresh} {d : Db}

theorem find_key {r : IdempotencyRecord} {t : Table IdempotencyRecord}
    (hf : t.find (fun r => r.scope = idempotencyScope && r.idempotencyKey = idempotencyKey) = some r) :
    r ∈ t ∧ HoldsKey idempotencyKey r := by
  have hp := Table.find_holds hf
  simp only [Bool.and_eq_true, decide_eq_true_eq] at hp
  exact ⟨Table.mem_of_find hf, hp⟩

theorem find_key_none {t : Table IdempotencyRecord}
    (hf : t.find (fun r => r.scope = idempotencyScope && r.idempotencyKey = idempotencyKey) = none) :
    ∀ r ∈ t, ¬ HoldsKey idempotencyKey r := by
  rintro r hr ⟨hs, hk⟩
  have hp := Table.find_eq_none.mp hf r hr
  simp [hs, hk] at hp

def replay (r : IdempotencyRecord) (requestHash : Text) : Except Failure CreatePaymentIntentResult :=
  if r.requestHash ≠ requestHash then .error (.api .idempotencyConflict)
  else
    match r.responseStatus, r.responseBody with
    | some _, some body => .ok ⟨200, true, body⟩
    | _, _ => .error (.api .idempotentSnapshotUnavailable)

theorem transaction_overlongKey (hlen : isTooLong maxVarchar idempotencyKey = true) :
    engine.transaction (createPaymentIntent rt idempotencyKey dto fresh) d =
      ⟨.error (.database .stringDataRightTruncation), d, []⟩ := by
  rw [Engine.transaction, createPaymentIntent, tryInsertIdempotencyRecord, query, Engine.exec_call_bind]
  simp only [engine_eval, eval, newRecord, hlen, ↓reduceIte]
  rfl

theorem transaction_replay {r : IdempotencyRecord} (hlen : isTooLong maxVarchar idempotencyKey = false)
    (hf : d.idempotencyRecords.find (fun r => r.scope = idempotencyScope && r.idempotencyKey = idempotencyKey) = some r) :
    engine.transaction (createPaymentIntent rt idempotencyKey dto fresh) d = ⟨replay r (requestHash rt dto), d, []⟩ := by
  rw [Engine.transaction, createPaymentIntent, tryInsertIdempotencyRecord, query, Engine.exec_call_bind]
  simp only [engine_eval, eval, newRecord, hlen, hf, Option.isSome_some, Bool.false_eq_true, ↓reduceIte]
  rw [replayOrRejectConflict, query, Engine.exec_call_bind]
  simp only [engine_eval, eval, Engine.view_nil, hf]
  unfold replay
  split_ifs
  · rfl
  · cases r.responseStatus <;> cases r.responseBody <;> rfl

section Create

variable (hf : d.idempotencyRecords.find
  (fun r => r.scope = idempotencyScope && r.idempotencyKey = idempotencyKey) = none)
  (hlen : isTooLong maxVarchar idempotencyKey = false)

include hf hlen

theorem eval_insertRecord (hr : d.idempotencyRecords.get fresh.recordId = none) (held : Lock → Bool) :
    eval (.insertIdempotencyRecord (newRecord idempotencyKey (requestHash rt dto) fresh)) d held =
      .ok (some fresh.recordId) [.insertIdempotencyRecord (newRecord idempotencyKey (requestHash rt dto) fresh)]
        [.idempotencyRecord fresh.recordId, .idempotencyKey idempotencyScope idempotencyKey] := by
  unfold eval
  dsimp only [newRecord]
  rw [hlen, hf, hr]
  rfl

theorem transaction_recordTaken {r : IdempotencyRecord} (hr : d.idempotencyRecords.get fresh.recordId = some r) :
    engine.transaction (createPaymentIntent rt idempotencyKey dto fresh) d =
      ⟨.error (.database .uniqueViolation), d, []⟩ := by
  rw [Engine.transaction, createPaymentIntent, tryInsertIdempotencyRecord, query, Engine.exec_call_bind]
  simp only [engine_eval, eval, newRecord, hlen, hf, hr, Option.isSome_none, Option.isSome_some, Bool.false_eq_true,
    ↓reduceIte]
  rfl

theorem transaction_overlong {amount : Numeric} (ha : parseNumeric dto.amount = some amount)
    (hr : d.idempotencyRecords.get fresh.recordId = none) (hfit : exceedsColumns (newPaymentIntent dto fresh) = true) :
    engine.transaction (createPaymentIntent rt idempotencyKey dto fresh) d =
      ⟨.error (.database .stringDataRightTruncation), d, []⟩ := by
  rw [Engine.transaction, createPaymentIntent, tryInsertIdempotencyRecord, query, Engine.exec_call_bind, engine_eval,
    eval_insertRecord hf hlen hr]
  have hi' : eval (.insertPaymentIntent (newPaymentIntent dto fresh))
      (d.apply (.insertIdempotencyRecord (newRecord idempotencyKey (requestHash rt dto) fresh))) (fun _ => false) =
      .fault (.database .stringDataRightTruncation) := by
    have ha' : parseNumeric (newPaymentIntent dto fresh).amount = some amount := ha
    simp only [eval, ha', hfit, ↓reduceIte]
  simp only [query, Engine.exec_call_bind, engine_eval, Engine.view, List.foldl_cons, List.foldl_nil, engine_apply, hi']
  rfl

variable (hfit : exceedsColumns (newPaymentIntent dto fresh) = false)

include hfit

theorem transaction_intentTaken {i : PaymentIntent} {amount : Numeric} (ha : parseNumeric dto.amount = some amount)
    (hr : d.idempotencyRecords.get fresh.recordId = none)
    (hi : d.paymentIntents.get fresh.paymentIntentId = some i) :
    engine.transaction (createPaymentIntent rt idempotencyKey dto fresh) d =
      ⟨.error (.database .uniqueViolation), d, []⟩ := by
  rw [Engine.transaction, createPaymentIntent, tryInsertIdempotencyRecord, query, Engine.exec_call_bind, engine_eval,
    eval_insertRecord hf hlen hr]
  have hi' : eval (.insertPaymentIntent (newPaymentIntent dto fresh))
      (d.apply (.insertIdempotencyRecord (newRecord idempotencyKey (requestHash rt dto) fresh))) (fun _ => false) =
      .fault (.database .uniqueViolation) := by
    have ha' : parseNumeric (newPaymentIntent dto fresh).amount = some amount := ha
    have hi' : d.paymentIntents.get (newPaymentIntent dto fresh).id = some i := hi
    simp only [eval, ha', hfit, Db.apply, hi', Option.isSome_some, Bool.true_or, Bool.false_eq_true, ↓reduceIte]
  simp only [query, Engine.exec_call_bind, engine_eval, Engine.view, List.foldl_cons, List.foldl_nil, engine_apply, hi']
  rfl

theorem transaction_created {amount : Numeric} (ha : parseNumeric dto.amount = some amount)
    (hr : d.idempotencyRecords.get fresh.recordId = none) (hi : d.paymentIntents.get fresh.paymentIntentId = none) :
    engine.transaction (createPaymentIntent rt idempotencyKey dto fresh) d =
      ⟨.ok ⟨201, false, createdBody rt dto fresh⟩, createdDb rt idempotencyKey dto fresh d amount, []⟩ := by
  rw [Engine.transaction, createPaymentIntent, tryInsertIdempotencyRecord, query, Engine.exec_call_bind, engine_eval,
    eval_insertRecord hf hlen hr]
  have hi' : eval (.insertPaymentIntent (newPaymentIntent dto fresh))
      (d.apply (.insertIdempotencyRecord (newRecord idempotencyKey (requestHash rt dto) fresh))) (fun _ => false) =
      .ok () [.insertPaymentIntent (createdIntent dto fresh amount)] [.paymentIntent fresh.paymentIntentId] := by
    have ha' : parseNumeric (newPaymentIntent dto fresh).amount = some amount := ha
    have hi' : d.paymentIntents.get (newPaymentIntent dto fresh).id = none := hi
    have hnone : (newPaymentIntent dto fresh).confirmedTxHash = none := rfl
    simp only [eval, ha', hfit, Db.apply, hi', hnone, Option.isSome_none, isTxHashTaken, Bool.false_and, Bool.or_self,
      Bool.false_eq_true, ↓reduceIte, txHashLock, Option.map_none, Option.toList_none]
    rfl
  have hrec : (d.idempotencyRecords.insert (newRecord idempotencyKey (requestHash rt dto) fresh)).get fresh.recordId =
      some (newRecord idempotencyKey (requestHash rt dto) fresh) := Table.get_insert_self hr
  have hupd : (d.idempotencyRecords.insert (newRecord idempotencyKey (requestHash rt dto) fresh)).update fresh.recordId
        (responsePatch (createdBody rt dto fresh) fresh.paymentIntentId).change =
      d.idempotencyRecords.insert (completedRecord rt idempotencyKey dto fresh) := Table.update_insert_self hr
  simp only [query, Engine.exec_call_bind, engine_eval, Engine.view, List.foldl_cons, List.foldl_nil, engine_apply, hi']
  simp only [eval, Db.apply, hrec, Engine.exec_call_bind, engine_eval]
  rw [createdDb, ← hupd]
  rfl

end Create

theorem exists_numeric (dto : CreatePaymentIntentDto) : ∃ amount, parseNumeric dto.amount = some amount := by
  have hv := dto.valid
  simp only [CreatePaymentIntentBody.isValid, Bool.and_eq_true] at hv
  obtain ⟨n, hn, _⟩ := parseNumeric_of_valid hv.1.1.1.1
  exact ⟨n, hn⟩

theorem transaction_cases (rt : Runtime) (idempotencyKey : Text) (dto : CreatePaymentIntentDto) (fresh : Fresh) (d : Db) :
    (∃ r d', engine.transaction (createPaymentIntent rt idempotencyKey dto fresh) d = ⟨.ok r, d', []⟩ ∧
        Created rt idempotencyKey dto fresh d r d') ∨
      ∃ e, engine.transaction (createPaymentIntent rt idempotencyKey dto fresh) d = ⟨.error e, d, []⟩ ∧
        Refused rt idempotencyKey dto d e := by
  cases hlen : isTooLong maxVarchar idempotencyKey with
  | true => exact Or.inr ⟨_, transaction_overlongKey hlen, .database _⟩
  | false =>
    cases hf : d.idempotencyRecords.find
        (fun r => r.scope = idempotencyScope && r.idempotencyKey = idempotencyKey) with
    | some r =>
      obtain ⟨hr, hk⟩ := find_key hf
      rw [transaction_replay hlen hf]
      unfold replay
      split_ifs with hh
      · exact Or.inr ⟨_, rfl, .conflict r hr hk hh⟩
      · cases hs : r.responseStatus with
        | none => exact Or.inr ⟨_, rfl, .incomplete r hr hk (Or.inl hs)⟩
        | some status =>
          cases hb : r.responseBody with
          | none => exact Or.inr ⟨_, rfl, .incomplete r hr hk (Or.inr hb)⟩
          | some body => exact Or.inl ⟨_, _, rfl, .replayed r status body hr hk (not_not.mp hh) hs hb hlen⟩
    | none =>
      obtain ⟨amount, ha⟩ := exists_numeric dto
      cases hr : d.idempotencyRecords.get fresh.recordId with
      | some r => exact Or.inr ⟨_, transaction_recordTaken hf hlen hr, .database _⟩
      | none =>
        cases hfit : exceedsColumns (newPaymentIntent dto fresh) with
        | true => exact Or.inr ⟨_, transaction_overlong hf hlen ha hr hfit, .database _⟩
        | false =>
          cases hi : d.paymentIntents.get fresh.paymentIntentId with
          | some i => exact Or.inr ⟨_, transaction_intentTaken hf hlen hfit ha hr hi, .database _⟩
          | none =>
            exact Or.inl ⟨_, _, transaction_created hf hlen hfit ha hr hi,
              .created amount (find_key_none hf) hr hi ha hlen hfit⟩

theorem created_of_transaction {r : CreatePaymentIntentResult}
    (h : (engine.transaction (createPaymentIntent rt idempotencyKey dto fresh) d).result = .ok r) :
    Created rt idempotencyKey dto fresh d r (engine.transaction (createPaymentIntent rt idempotencyKey dto fresh) d).db := by
  rcases transaction_cases rt idempotencyKey dto fresh d with ⟨r', d', ht, hc⟩ | ⟨e, ht, _⟩
  · rw [ht] at h ⊢
    cases h
    exact hc
  · rw [ht] at h
    cases h

theorem refused_of_transaction {e : Failure}
    (h : (engine.transaction (createPaymentIntent rt idempotencyKey dto fresh) d).result = .error e) :
    Refused rt idempotencyKey dto d e := by
  rcases transaction_cases rt idempotencyKey dto fresh d with ⟨r', d', ht, hc⟩ | ⟨e', ht, hr⟩
  · rw [ht] at h
    cases h
  · rw [ht] at h
    cases h
    exact hr

theorem Created.indexes {d' : Db} {r : CreatePaymentIntentResult} (h : Created rt idempotencyKey dto fresh d r d')
    (hd : d.Indexes) : d'.Indexes := by
  cases h with
  | replayed => exact hd
  | created amount hk hr hi ha =>
    refine ⟨?_, ?_, hd.externalEventId, hd.nonce⟩
    · intro a ha b hb x hax hbx
      refine Table.unique_insert (R := fun a b => ∃ x, a.confirmedTxHash = some x ∧ b.confirmedTxHash = some x)
        (fun _ _ ⟨x, ha, hb⟩ => ⟨x, hb, ha⟩) ?_ ?_ a ha b hb ⟨x, hax, hbx⟩
      · exact fun a ha b hb ⟨x, hax, hbx⟩ => hd.confirmedTxHash a ha b hb x hax hbx
      · rintro a ha ⟨x, hax, hbx⟩
        cases hbx
    · intro a ha b hb hs hkey
      refine Table.unique_insert (R := fun a b => a.scope = b.scope ∧ a.idempotencyKey = b.idempotencyKey)
        (fun _ _ h => ⟨h.1.symm, h.2.symm⟩) ?_ hk a ha b hb ⟨hs, hkey⟩
      exact fun a ha b hb h => hd.idempotencyKey a ha b hb h.1 h.2

theorem Created.evolves {d' : Db} {r : CreatePaymentIntentResult} (h : Created rt idempotencyKey dto fresh d r d') :
    d.Evolves d' := by
  cases h with
  | replayed => exact Db.Evolves.refl d
  | created amount hk hr hi ha =>
    exact Db.Evolves.of_subset (fun _ h => Table.mem_insert_of_mem h) (fun _ h => Table.mem_insert_of_mem h)
      (fun _ h => h) (fun _ h => h) (fun _ h => h)

end EventGateway.PaymentIntents
