import EventGateway.AmountCodecs
import EventGateway.DatabaseFaults
import EventGateway.IdempotencySafety

/-!
`GET /payment-intents/:id`. A read is one statement outside any transaction, so it
sees the committed rows of the moment.
-/

namespace EventGateway

open KeyedTable TransactionProgram Interleaving RelyGuarantee Statements

namespace PaymentIntents

def Progresses (r r' : PaymentIntentResponse) : Prop :=
  r' = r ∨ r.status = .created ∧ r.confirmedTxHash = none ∧ r'.status = .confirmed ∧ r'.confirmedTxHash.isSome = true ∧
    r' = { r with status := r'.status, confirmedTxHash := r'.confirmedTxHash, updatedAt := r'.updatedAt }

variable {rt : Runtime} {d : Db}

theorem Progresses.trans {r r' r'' : PaymentIntentResponse} (h : Progresses r r') (h' : Progresses r' r'') :
    Progresses r r'' := by
  rcases h with rfl | ⟨hs, hn, hs', hn', heq⟩
  · exact h'
  rcases h' with rfl | ⟨hs'', -⟩
  · exact .inr ⟨hs, hn, hs', hn', heq⟩
  · rw [hs'] at hs''
    cases hs''

theorem toCanonicalAmount_stored {dto : CreatePaymentIntentDto} {amount : PaymentAmount.Numeric}
    (ha : PaymentAmount.parseNumeric dto.amount = some amount) :
    PaymentAmount.toCanonicalAmount (PaymentAmount.renderNumeric amount) = PaymentAmount.toCanonicalAmount dto.amount := by
  have hv := dto.valid
  simp only [CreatePaymentIntentBody.isValid, Bool.and_eq_true] at hv
  obtain ⟨i, f, hs⟩ := PaymentAmount.shape_of_valid hv.1.1.1.1
  obtain ⟨n, hn, hvalue⟩ := PaymentAmount.parseNumeric_of_valid hv.1.1.1.1
  obtain rfl : n = amount := Option.some.inj (hn.symm.trans ha)
  obtain ⟨f', hrendered, -, -⟩ := PaymentAmount.renderNumeric_shape n
  rw [PaymentAmount.toCanonicalAmount_inj hrendered hs, PaymentAmount.renderNumeric_value, hvalue]

theorem toResponse_created {dto : CreatePaymentIntentDto} {fresh : Fresh} {amount : PaymentAmount.Numeric}
    (ha : PaymentAmount.parseNumeric dto.amount = some amount) :
    toResponse rt (createdIntent dto fresh amount).load = createdBody rt dto fresh := by
  have hamount := toCanonicalAmount_stored ha
  simp only [toResponse, createdBody, createdIntent, PaymentIntent.load, newPaymentIntent, hamount]

structure Represents (rt : Runtime) (b : PaymentIntentResponse) (i : PaymentIntent) : Prop where
  status : b.status = .created
  confirmedTxHash : b.confirmedTxHash = none
  progresses : Progresses b (toResponse rt i.load)

theorem Represents.evolves {b : PaymentIntentResponse} {i i' : PaymentIntent} (h : Represents rt b i) (hev : i.Evolves i') :
    Represents rt b i' ∧ Progresses (toResponse rt i.load) (toResponse rt i'.load) := by
  rcases hev with rfl | ⟨hopen, txHash, now, rfl⟩
  · exact ⟨h, .inl rfl⟩
  -- only an intent that still reads as it was created can be confirmed
  rcases h.progresses with hsame | ⟨-, -, hconfirmed, -⟩
  · have hprogress : Progresses b (toResponse rt (PaymentIntent.patch ⟨.confirmed, some txHash, none, now⟩ i).load) := by
      refine .inr ⟨h.status, h.confirmedTxHash, rfl, rfl, ?_⟩
      rw [← hsame]
      rfl
    exact ⟨⟨h.status, h.confirmedTxHash, hprogress⟩, hsame ▸ hprogress⟩
  · have hstatus : i.status = .confirmed := hconfirmed
    rw [hstatus] at hopen
    simp at hopen

structure Bodies (rt : Runtime) (d : Db) : Prop where
  scope : ∀ r ∈ d.idempotencyRecords, r.scope = idempotencyScope
  represents : ∀ r ∈ d.idempotencyRecords, ∀ b, r.responseBody = some b →
    ∃ i ∈ d.paymentIntents, r.resourceId = some i.id ∧ b.id = i.id.render ∧ Represents rt b i

theorem Bodies.kept {d' : Db} (h : Bodies rt d) (hev : d.Evolves d') {r : IdempotencyRecord}
    (hr : r ∈ d.idempotencyRecords) {b : PaymentIntentResponse} (hb : r.responseBody = some b) :
    ∃ i ∈ d'.paymentIntents, r.resourceId = some i.id ∧ b.id = i.id.render ∧ Represents rt b i := by
  obtain ⟨i, hi, hid, hbody, hrep⟩ := h.represents r hr b hb
  obtain ⟨i', hi', hii'⟩ := hev.paymentIntents i hi
  have hsame : i'.id = i.id := by
    rcases hii' with rfl | ⟨-, txHash, now, rfl⟩ <;> rfl
  refine ⟨i', hi', ?_, ?_, (hrep.evolves hii').1⟩
  · rw [hid, hsame]
  · rw [hbody, hsame]

theorem Bodies.commits {w : World Db JobData} {q : Request} {r : Response} {d' : Db} (hc : Commits rt w q r d')
    (h : Bodies rt w.db) : Bodies rt d' := by
  by_cases hq : ∀ k dto fresh, q ≠ .createPaymentIntent k dto fresh
  · obtain ⟨hrecords, -⟩ := hc.records_eq hq
    refine ⟨fun r hr => h.scope r (hrecords ▸ hr), fun r hr b hb => h.kept hc.evolves (hrecords ▸ hr) hb⟩
  push Not at hq
  obtain ⟨k, dto, fresh, rfl⟩ := hq
  have hev := hc.evolves
  cases hc with
  | paymentIntent hcreated =>
    cases hcreated with
    | replayed => exact h
    | created amount hk hr hi ha =>
      refine ⟨fun r hr => ?_, fun r hr b hb => ?_⟩
      · rcases Table.mem_of_mem_insert hr with hr | rfl
        · exact h.scope r hr
        · rfl
      · rcases Table.mem_of_mem_insert hr with hr | rfl
        · exact h.kept hev hr hb
        · obtain rfl : createdBody rt dto fresh = b := Option.some.inj hb
          refine ⟨createdIntent dto fresh amount, (Table.mem_insert hi).mpr (.inr rfl), rfl, rfl, rfl, rfl, .inl ?_⟩
          exact toResponse_created ha

end PaymentIntents

open PaymentIntents

section Runs

variable {ι : Type} [DecidableEq ι] {rt : Runtime} {req : ι → Request}

end Runs

end EventGateway
