import EventGateway.IdempotentCreation
import EventGateway.StatementStability

namespace EventGateway.PaymentIntents

open KeyedTable TransactionProgram Interleaving RelyGuarantee Statements

variable (rt : Runtime) (idempotencyKey : Text) (dto : CreatePaymentIntentDto) (fresh : Fresh)

def Ends (r : CreatePaymentIntentResult) (held : Lock → Prop) (ws : List Write) (w : World Db JobData) : Prop :=
  ∀ w', discipline.Rely held w w' →
    Serial (createPaymentIntent rt idempotencyKey dto fresh) r w' (engine.view w'.db ws)

def Throws (e : Failure) (held : Lock → Prop) (_ : List Write) (w : World Db JobData) : Prop :=
  ∀ w', discipline.Rely held w w' →
    (engine.transaction (createPaymentIntent rt idempotencyKey dto fresh) w'.db).result = .error e

section

variable {rt idempotencyKey dto fresh} {R : Type} {held : Lock → Prop} {ws : List Write} {w : World Db JobData}

theorem find_key_eq {d : Db} (hd : d.Indexes) {r : IdempotencyRecord} (hr : r ∈ d.idempotencyRecords)
    (hk : HoldsKey idempotencyKey r) :
    d.idempotencyRecords.find (fun r => r.scope = idempotencyScope && r.idempotencyKey = idempotencyKey) = some r := by
  apply Table.find_eq_some_of_unique hr
  · simp [hk.1, hk.2]
  · intro s hs hsk
    simp only [Bool.and_eq_true, decide_eq_true_eq] at hsk
    exact hd.idempotencyKey s hs r hr (hsk.1.trans hk.1.symm) (hsk.2.trans hk.2.symm)

theorem eval_tryInsert {d : Db} {others : Lock → Bool} {a : Option Uuid} {ws' : List Write} {ls : List Lock}
    (h : engine.eval (.insertIdempotencyRecord (newRecord idempotencyKey (requestHash rt dto) fresh)) d others =
      .ok a ws' ls) :
    isTooLong maxVarchar idempotencyKey = false ∧
      ((a = none ∧ ws' = [] ∧ ∃ r ∈ d.idempotencyRecords, HoldsKey idempotencyKey r) ∨
        (a = some fresh.recordId ∧
          ws' = [.insertIdempotencyRecord (newRecord idempotencyKey (requestHash rt dto) fresh)] ∧
          ls = [.idempotencyRecord fresh.recordId, .idempotencyKey idempotencyScope idempotencyKey] ∧
          (∀ r ∈ d.idempotencyRecords, ¬ HoldsKey idempotencyKey r) ∧
          d.idempotencyRecords.get fresh.recordId = none)) := by
  simp only [engine_eval, eval] at h
  split_ifs at h with hlong htaken hid
  · cases h
    obtain ⟨r, hf⟩ := Option.isSome_iff_exists.mp htaken
    obtain ⟨hr, hk⟩ := find_key hf
    exact ⟨Bool.eq_false_iff.mpr hlong, Or.inl ⟨rfl, rfl, r, hr, hk⟩⟩
  · cases h
    have hf := find_key_none (Option.not_isSome_iff_eq_none.mp htaken)
    exact ⟨Bool.eq_false_iff.mpr hlong, Or.inr ⟨rfl, rfl, rfl, hf, Option.not_isSome_iff_eq_none.mp hid⟩⟩

theorem eval_insertRecord_taken {d : Db} (hd : d.Indexes) {r : IdempotencyRecord} (hr : r ∈ d.idempotencyRecords)
    (hk : HoldsKey idempotencyKey r) (hlen : isTooLong maxVarchar idempotencyKey = false) (others : Lock → Bool) :
    engine.eval (.insertIdempotencyRecord (newRecord idempotencyKey (requestHash rt dto) fresh)) d others =
      .ok none [] [] := by
  rw [engine_eval]
  unfold eval
  dsimp only [newRecord]
  rw [hlen, find_key_eq hd hr hk]
  rfl

theorem find_none_of_noKey {d : Db} (h : ∀ r ∈ d.idempotencyRecords, ¬ HoldsKey idempotencyKey r) :
    d.idempotencyRecords.find (fun r => r.scope = idempotencyScope && r.idempotencyKey = idempotencyKey) = none := by
  rw [Table.find_eq_none]
  intro r hr
  rw [← Bool.not_eq_true]
  intro hp
  simp only [Bool.and_eq_true, decide_eq_true_eq] at hp
  exact h r hr hp

theorem stable_tryInsert {f : Option Uuid → Script R} {others : Lock → Bool} {a : Option Uuid} {ws' : List Write}
    {ls : List Lock}
    (h : engine.eval (.insertIdempotencyRecord (newRecord idempotencyKey (requestHash rt dto) fresh))
      (engine.view w.db []) others = .ok a ws' ls) :
    Stable discipline (.insertIdempotencyRecord (newRecord idempotencyKey (requestHash rt dto) fresh)) f
      (fun l => held l ∨ l ∈ ls) [] a ws' w := by
  intro w' hr
  obtain ⟨hlen, ⟨rfl, rfl, r, hrec, hk⟩ | ⟨rfl, rfl, rfl, hno, hid⟩⟩ := eval_tryInsert h
  · have hrec' : r ∈ w'.db.idempotencyRecords := hr.2.1.1.idempotencyRecords r hrec
    exact ⟨none, [], eval_insertRecord_taken hr.1 hrec' hk hlen _, rfl⟩
  · have hout : Table.KeepsOut (fun r => r.scope = idempotencyScope ∧ r.idempotencyKey = idempotencyKey)
        w.db.idempotencyRecords w'.db.idempotencyRecords :=
      hr.2.2 (.idempotencyKey idempotencyScope idempotencyKey) (Or.inr (by simp))
    have hno' : ∀ r ∈ w'.db.idempotencyRecords, ¬ HoldsKey idempotencyKey r := by
      intro r hrec hk
      obtain ⟨q, hq, _, hqk⟩ := hout r hrec hk
      exact hno q hq hqk
    have hrow : w'.db.idempotencyRecords.get fresh.recordId = w.db.idempotencyRecords.get fresh.recordId :=
      hr.2.2 (.idempotencyRecord fresh.recordId) (Or.inr (by simp))
    have hid' : w'.db.idempotencyRecords.get fresh.recordId = none := hrow.trans hid
    exact ⟨_, _, eval_insertRecord (find_none_of_noKey hno') hlen hid' (fun _ => false), rfl⟩

theorem stable_findRecord {f : Option IdempotencyRecord → Script R} {r : IdempotencyRecord}
    (hr : r ∈ w.db.idempotencyRecords) (hk : HoldsKey idempotencyKey r) :
    Stable discipline (.findIdempotencyRecord idempotencyScope idempotencyKey) f held [] (some r) [] w := by
  intro w' hrely
  have hr' : r ∈ w'.db.idempotencyRecords := hrely.2.1.1.idempotencyRecords r hr
  refine ⟨some r, [], ?_, rfl⟩
  simp only [engine_eval, eval, Engine.view_nil, find_key_eq hrely.1 hr' hk]

theorem wp_replay {r : IdempotencyRecord} (hr : r ∈ w.db.idempotencyRecords) (hk : HoldsKey idempotencyKey r)
    (ht : Tracks discipline (createPaymentIntent rt idempotencyKey dto fresh)
      (replayOrRejectConflict idempotencyKey (requestHash rt dto)) held [] w) :
    wp discipline (replayOrRejectConflict idempotencyKey (requestHash rt dto)) held [] w
      (Ends rt idempotencyKey dto fresh) (Throws rt idempotencyKey dto fresh) := by
  unfold replayOrRejectConflict at ht ⊢
  apply Tracks.wp_call ht
  · intro w₁ others a ws₁ ls hrely he hstable
    have hr₁ : r ∈ w₁.db.idempotencyRecords := hrely.2.1.1.idempotencyRecords r hr
    simp only [engine_eval, eval, Engine.view_nil, find_key_eq hrely.1 hr₁ hk] at he
    cases he
    have ht₁ := hstable (stable_findRecord hr₁ hk)
    simp only at ht₁ ⊢
    split_ifs at ht₁ ⊢
    · exact fun w' hr' => ht₁.error hr'
    · cases hs : r.responseStatus with
      | none =>
        simp only [hs] at ht₁ ⊢
        exact fun w' hr' => ht₁.error hr'
      | some status =>
        cases hb : r.responseBody with
        | none =>
          simp only [hs, hb] at ht₁ ⊢
          exact fun w' hr' => ht₁.error hr'
        | some body =>
          simp only [hs, hb] at ht₁ ⊢
          exact fun w' hr' => ht₁.result hr'
  · exact eval_not_refused (by simp)
  · exact eval_faults _

theorem stable_insertIntent {f : Unit → Script R} {others : Lock → Bool} {a : Unit} {ws' : List Write} {ls : List Lock}
    (hws : ∀ d, (engine.view d ws).paymentIntents = d.paymentIntents)
    (h : engine.eval (.insertPaymentIntent (newPaymentIntent dto fresh)) (engine.view w.db ws) others = .ok a ws' ls) :
    Stable discipline (.insertPaymentIntent (newPaymentIntent dto fresh)) f (fun l => held l ∨ l ∈ ls) ws a ws' w := by
  intro w' hr
  obtain ⟨amount, ha⟩ := exists_numeric dto
  have heval (d : Db) (others : Lock → Bool) : engine.eval (.insertPaymentIntent (newPaymentIntent dto fresh)) d others =
      if exceedsColumns (newPaymentIntent dto fresh) then .fault (.database .stringDataRightTruncation)
      else if (d.paymentIntents.get fresh.paymentIntentId).isSome then .fault (.database .uniqueViolation)
      else .ok () [.insertPaymentIntent (createdIntent dto fresh amount)] [.paymentIntent fresh.paymentIntentId] := by
    have ha' : PaymentAmount.parseNumeric (newPaymentIntent dto fresh).amount = some amount := ha
    have hnone : (newPaymentIntent dto fresh).confirmedTxHash = none := rfl
    simp only [engine_eval, eval, ha', hnone, isTxHashTaken, Option.isSome_none, Bool.false_and, Bool.or_false,
      txHashLock, Option.map_none, Option.toList_none]
    rfl
  rw [heval, hws] at h
  split_ifs at h with hlong hid
  cases h
  have hrow : w'.db.paymentIntents.get fresh.paymentIntentId = w.db.paymentIntents.get fresh.paymentIntentId :=
    hr.2.2 (.paymentIntent fresh.paymentIntentId) (Or.inr (by simp))
  refine ⟨(), [.paymentIntent fresh.paymentIntentId], ?_, rfl⟩
  rw [heval, hws, hrow, if_neg hlong, if_neg hid]

theorem stable_findRecordById {f : Option IdempotencyRecord → Script R} {id : Uuid}
    (hid : held (.idempotencyRecord id)) {others : Lock → Bool} {a : Option IdempotencyRecord} {ws' : List Write}
    {ls : List Lock}
    (h : engine.eval (.findIdempotencyRecordById id) (engine.view w.db ws) others = .ok a ws' ls) :
    Stable discipline (.findIdempotencyRecordById id) f (fun l => held l ∨ l ∈ ls) ws a ws' w := by
  intro w' hr
  cases h
  have hk : Table.KeepsRow id w.db.idempotencyRecords w'.db.idempotencyRecords :=
    hr.2.2 (.idempotencyRecord id) (Or.inl hid)
  refine ⟨_, [], ?_, rfl⟩
  simp only [engine_eval, eval]
  rw [keepsRow_view_idempotencyRecords hk ws]

theorem stable_saveRecord {id : Uuid} {p : IdempotencyRecordPatch} {f : Unit → Script R} {others : Lock → Bool}
    {a : Unit} {ws' : List Write} {ls : List Lock} {d : Db}
    (h : engine.eval (.saveIdempotencyRecord id p) d others = .ok a ws' ls) :
    Stable discipline (.saveIdempotencyRecord id p) f held ws a ws' w := by
  intro w' _
  cases h
  exact ⟨(), _, rfl, rfl⟩

theorem wp_create (w : World Db JobData) :
    wp discipline (createPaymentIntent rt idempotencyKey dto fresh) (fun _ => False) [] w
      (Ends rt idempotencyKey dto fresh) (Throws rt idempotencyKey dto fresh) := by
  have ht : Tracks discipline (createPaymentIntent rt idempotencyKey dto fresh)
      (createPaymentIntent rt idempotencyKey dto fresh) (fun _ => False) [] w := Tracks.start rfl _ _
  conv at ht => arg 3; unfold createPaymentIntent tryInsertIdempotencyRecord
  conv => arg 2; unfold createPaymentIntent tryInsertIdempotencyRecord
  apply Tracks.wp_call ht
  · intro w₁ others a ws₁ ls hr he hstable
    have ht₁ := hstable (stable_tryInsert he)
    obtain ⟨-, ⟨rfl, rfl, r, hrec, hk⟩ | ⟨rfl, rfl, rfl, _, _⟩⟩ := eval_tryInsert he
    · exact wp_replay hrec hk ht₁
    · apply Tracks.wp_call ht₁
      · intro w₂ others₂ a₂ ws₂ ls₂ hr₂ he₂ hstable₂
        have ht₂ := hstable₂ (stable_insertIntent (fun _ => rfl) he₂)
        apply Tracks.wp_call ht₂
        · intro w₃ others₃ a₃ ws₃ ls₃ hr₃ he₃ hstable₃
          have ht₃ := hstable₃ (stable_findRecordById (Or.inl (Or.inr (by simp))) he₃)
          cases a₃ with
          | none => exact fun w' hr' => ht₃.error hr'
          | some record =>
            apply Tracks.wp_call ht₃
            · intro w₄ others₄ a₄ ws₄ ls₄ hr₄ he₄ hstable₄
              exact fun w' hr' => (hstable₄ (stable_saveRecord he₄)).result hr'
            · exact eval_not_refused (by simp)
            · exact eval_faults _
        · exact eval_not_refused (by simp)
        · exact eval_faults _
      · exact eval_not_refused (by simp)
      · exact eval_faults _
  · exact eval_not_refused (by simp)
  · exact eval_faults _

end

end EventGateway.PaymentIntents
