import EventGateway.ColumnFits
import EventGateway.DeadlockFreedom
import EventGateway.FaultPropagation
import EventGateway.JobCompletion

namespace EventGateway

open KeyedTable TransactionProgram Interleaving RelyGuarantee Statements

section UuidTexts

open TxHash (isHexDigit hexDigits)

theorem Text.split_ne_nil (sep : Char) (s : Text) : Text.split sep s ≠ [] := by
  intro h
  cases s with
  | nil => cases h
  | cons c cs =>
    simp only [Text.split] at h
    split at h
    · cases h
    · split at h <;> cases h

theorem Text.eq_of_split {sep : Char} {s part : Text} {parts : List Text} (h : Text.split sep s = part :: parts) :
    s = part ++ parts.flatMap (sep :: ·) := by
  induction s generalizing part parts with
  | nil =>
    cases h
    rfl
  | cons c cs ih =>
    simp only [Text.split] at h
    split_ifs at h with hc
    · cases h
      obtain ⟨p, ps, hs⟩ := List.exists_cons_of_ne_nil (Text.split_ne_nil sep cs)
      rw [hs, hc, List.flatMap_cons, List.cons_append, ← ih hs]
      rfl
    · split at h
      · rename_i hs
        exact absurd hs (Text.split_ne_nil sep cs)
      · rename_i p ps hs
        cases h
        rw [List.cons_append, ← ih hs]

theorem Uuid.exists_hexValue {c : Char} (h : isHexDigit c = true) : ∃ n, Uuid.hexValue c = some n := by
  have hmem : c ∈ hexDigits := by simpa [isHexDigit] using h
  have hidx : hexDigits.idxOf c < 22 := List.idxOf_lt_length_iff.mpr hmem
  unfold Uuid.hexValue
  simp only
  split_ifs
  · exact ⟨_, rfl⟩
  · exact ⟨_, rfl⟩

theorem Uuid.skipHyphen_of_hex {n : ℕ} {c : Char} {s : Text} (h : isHexDigit c = true) :
    Uuid.skipHyphen n (c :: s) = c :: s := by
  unfold Uuid.skipHyphen
  split
  · rename_i hs
    cases hs
    cases h
  · rfl

theorem Uuid.parseBytes_hex (n left value : ℕ) {group : Text} (rest : Text) (hlen : group.length = 2 * (n + 1))
    (hhex : ∀ c ∈ group, isHexDigit c = true) :
    ∃ value', Uuid.parseBytes (n + 1 + left) value (group ++ rest) =
      Uuid.parseBytes left value' (Uuid.skipHyphen left rest) := by
  induction n generalizing group value with
  | zero =>
    obtain ⟨hi, lo, rfl⟩ := List.length_eq_two.mp hlen
    obtain ⟨h, hh⟩ := Uuid.exists_hexValue (hhex hi (by simp))
    obtain ⟨l, hl⟩ := Uuid.exists_hexValue (hhex lo (by simp))
    refine ⟨value * 256 + (h * 16 + l), ?_⟩
    rw [show 0 + 1 + left = left + 1 by omega]
    simp only [List.cons_append, List.nil_append, Uuid.parseBytes, hh, hl]
  | succ n ih =>
    obtain ⟨hi, tail, rfl⟩ := List.exists_cons_of_length_pos (show 0 < group.length by omega)
    obtain ⟨lo, tail, rfl⟩ := List.exists_cons_of_length_pos (show 0 < tail.length by simp at hlen; omega)
    obtain ⟨c, tail, rfl⟩ := List.exists_cons_of_length_pos (show 0 < tail.length by simp at hlen; omega)
    obtain ⟨h, hh⟩ := Uuid.exists_hexValue (hhex hi (by simp))
    obtain ⟨l, hl⟩ := Uuid.exists_hexValue (hhex lo (by simp))
    have hc : isHexDigit c = true := hhex c (by simp)
    have hlen' : (c :: tail).length = 2 * (n + 1) := by
      simp only [List.length_cons] at hlen ⊢
      omega
    obtain ⟨value', hv⟩ := ih (value * 256 + (h * 16 + l)) hlen'
      (fun x hx => hhex x (List.mem_cons_of_mem _ (List.mem_cons_of_mem _ hx)))
    refine ⟨value', ?_⟩
    rw [← hv, show n + 1 + 1 + left = (n + 1 + left) + 1 by omega]
    simp only [List.cons_append, Uuid.parseBytes, hh, hl, Uuid.skipHyphen_of_hex hc]

theorem Uuid.skipHyphen_hyphen {left : ℕ} (rest : Text) (h : left % 2 = 0 ∧ 0 < left) :
    Uuid.skipHyphen left ('-' :: rest) = rest := by
  simp only [Uuid.skipHyphen, h, and_self, ↓reduceIte]

theorem Uuid.parse_of_groups {s a b c d e : Text} (hsplit : Text.split '-' s = [a, b, c, d, e])
    (ha : WebhookEvents.hexGroup 8 a = true) (hb : WebhookEvents.hexGroup 4 b = true) (hc : WebhookEvents.hexGroup 4 c = true)
    (hd : WebhookEvents.hexGroup 4 d = true) (he : WebhookEvents.hexGroup 12 e = true) : ∃ id, Uuid.parse s = some id := by
  simp only [WebhookEvents.hexGroup, Bool.and_eq_true, decide_eq_true_eq, List.all_eq_true] at ha hb hc hd he
  have hs : s = a ++ '-' :: (b ++ '-' :: (c ++ '-' :: (d ++ '-' :: (e ++ [])))) := by
    rw [Text.eq_of_split hsplit]
    simp
  obtain ⟨v₁, h₁⟩ := Uuid.parseBytes_hex 3 12 0 ('-' :: (b ++ '-' :: (c ++ '-' :: (d ++ '-' :: (e ++ []))))) ha.1 ha.2
  obtain ⟨v₂, h₂⟩ := Uuid.parseBytes_hex 1 10 v₁ ('-' :: (c ++ '-' :: (d ++ '-' :: (e ++ [])))) hb.1 hb.2
  obtain ⟨v₃, h₃⟩ := Uuid.parseBytes_hex 1 8 v₂ ('-' :: (d ++ '-' :: (e ++ []))) hc.1 hc.2
  obtain ⟨v₄, h₄⟩ := Uuid.parseBytes_hex 1 6 v₃ ('-' :: (e ++ [])) hd.1 hd.2
  obtain ⟨v₅, h₅⟩ := Uuid.parseBytes_hex 5 0 v₄ [] he.1 he.2
  have hbytes : Uuid.parseBytes 16 0 s = some (v₅, []) := by
    rw [hs, h₁, Uuid.skipHyphen_hyphen _ (by decide), h₂, Uuid.skipHyphen_hyphen _ (by decide), h₃,
      Uuid.skipHyphen_hyphen _ (by decide), h₄, Uuid.skipHyphen_hyphen _ (by decide), h₅]
    rfl
  have hbrace : ∀ s', s ≠ '{' :: s' := by
    intro s' hs'
    obtain ⟨x, tail, rfl⟩ := List.exists_cons_of_length_pos (show 0 < a.length by omega)
    have hx : isHexDigit x = true := ha.2 x (by simp)
    rw [hs, List.cons_append] at hs'
    obtain ⟨rfl, -⟩ := List.cons.inj hs'
    cases hx
  refine ⟨BitVec.ofNat 128 v₅, ?_⟩
  unfold Uuid.parse
  split
  · rename_i s'
    exact absurd rfl (hbrace s')
  · rw [hbytes]

theorem WebhookEvents.parse_of_isUUID {s : Text} (h : WebhookEvents.isUUID s = true) : ∃ id, Uuid.parse s = some id := by
  unfold WebhookEvents.isUUID at h
  split at h
  · rename_i a b c d e hsplit
    simp only [Bool.and_eq_true] at h
    obtain ⟨⟨⟨⟨⟨ha, hb⟩, hc⟩, hd⟩, he⟩, -⟩ := h
    exact Uuid.parse_of_groups hsplit ha hb hc hd he
  · cases h

end UuidTexts

def Request.newRows : Request → List Lock
  | .createPaymentIntent _ _ fresh => [.idempotencyRecord fresh.recordId, .paymentIntent fresh.paymentIntentId]
  | .acceptBlockchainWebhook _ _ fresh => [.webhookEvent fresh.webhookEventId, .outboxEvent fresh.outboxEventId]
  | _ => []

def Db.hasRow (d : Db) : Lock → Bool
  | .paymentIntent id => (d.paymentIntents.get id).isSome
  | .idempotencyRecord id => (d.idempotencyRecords.get id).isSome
  | .webhookEvent id => (d.webhookEvents.get id).isSome
  | .outboxEvent id => (d.outboxEvents.get id).isSome
  | _ => false

def Request.isOverlong (rt : Runtime) : Request → Bool
  | .createPaymentIntent _ dto fresh => exceedsColumns (PaymentIntents.newPaymentIntent dto fresh)
  | .acceptBlockchainWebhook config request fresh =>
    (WebhookEvents.validateRequest rt config request fresh.nowMs).toOption.any (fun p =>
      exceedsEventColumns (WebhookEvents.newWebhookEvent rt p.1 p.2 fresh))
  | _ => false

def Request.columnTexts (rt : Runtime) : Request → List Text
  | .createPaymentIntent _ dto _ => PaymentIntents.columnTexts dto
  | .acceptBlockchainWebhook config request fresh =>
    (WebhookEvents.validateRequest rt config request fresh.nowMs).toOption.elim [] (fun p => WebhookEvents.columnTexts p.2)
  | _ => []

theorem Request.selector_of_isOverlong {rt : Runtime} {q : Request} (h : q.isOverlong rt = true) :
    ∃ s ∈ q.columnTexts rt, ∃ c ∈ s, PaymentIntents.isVariationSelector c = true := by
  cases q with
  | createPaymentIntent key dto fresh => exact selector_of_exceedsColumns h
  | acceptBlockchainWebhook config request fresh =>
    cases hv : WebhookEvents.validateRequest rt config request fresh.nowMs with
    | error e =>
      rw [Request.isOverlong, hv] at h
      cases h
    | ok p =>
      rw [Request.isOverlong, hv] at h
      rw [Request.columnTexts, hv]
      exact selector_of_exceedsEventColumns (nonce_fits hv) h
  | dispatchBatch | reconcileStalePublishedEvents | processWebhookEvent => cases h

def Request.HasValidKey (q : Request) : Prop :=
  ∀ key dto fresh, q = .createPaymentIntent key dto fresh →
    ∃ header, PaymentIntents.validateIdempotencyKey header = .ok key

inductive Request.Refusable (rt : Runtime) : Request → DbError → Prop
  | raced (input : WebhookEventProcessor.ProcessWebhookEventInput) (clock : WebhookEventProcessor.Clock) :
      Refusable rt (.processWebhookEvent input clock) .uniqueViolation
  | backwards (input : WebhookEventProcessor.ProcessWebhookEventInput) (clock : WebhookEventProcessor.Clock)
      (hc : clock.finishedAt < clock.startedAt) : Refusable rt (.processWebhookEvent input clock) .checkViolation
  | nameless (input : WebhookEventProcessor.ProcessWebhookEventInput) (clock : WebhookEventProcessor.Clock)
      (hp : Uuid.parse input.webhookEventId = none) :
      Refusable rt (.processWebhookEvent input clock) .invalidTextRepresentation
  | overlong {q : Request} (hq : q.isOverlong rt = true) : Refusable rt q .stringDataRightTruncation

def IsRaced (d : Db) (s : Stmt) : Prop :=
  ∃ id patch hash, s = .savePaymentIntent id patch ∧ patch.confirmedTxHash = some hash ∧
    ∃ i ∈ d.paymentIntents, i.id ≠ id ∧ i.confirmedTxHash = some hash

def Excused (rt : Runtime) (q : Request) (d : Db) (s : Stmt) (e : Failure) : Prop :=
  ∃ x, e = .database x ∧ q.Refusable rt x ∧ (x = .uniqueViolation → IsRaced d s)

def MayFault (rt : Runtime) (q : Request) (s : Stmt) (_ : Lock → Prop) (ws : List Write) (w : World Db JobData) : Prop :=
  ∀ others e, engine.eval s (engine.view w.db ws) others = .fault e →
    (∃ l ∈ q.newRows, w.db.hasRow l = true) ∨ Excused rt q w.db s e

theorem excused_overlong {rt : Runtime} {q : Request} {d : Db} {s : Stmt} (hq : q.isOverlong rt = true) :
    Excused rt q d s (.database .stringDataRightTruncation) :=
  ⟨_, rfl, .overlong hq, fun hx => by cases hx⟩

def NotDatabase (e : Failure) : Prop := ∀ x, e ≠ .database x

abbrev Faultless {α : Type} (rt : Runtime) (q : Request) (p : Script α) (held : Lock → Prop) (ws : List Write)
    (w : World Db JobData) (Q : α → (Lock → Prop) → List Write → World Db JobData → Prop) : Prop :=
  guarded discipline Consistent (MayFault rt q) p held ws w Q (fun e _ _ _ => NotDatabase e)

section Rows

variable {d : Db}

theorem hasRow_apply {l : Lock} (h : d.hasRow l = true) (x : Write) : (d.apply x).hasRow l = true := by
  have hinsert {ρ : Type} [Keyed ρ Uuid] {t : Table ρ} {k : Uuid} (r : ρ) (h : (t.get k).isSome = true) :
      ((t.insert r).get k).isSome = true := by
    rw [Table.get_insert]
    split_ifs
    · rfl
    · exact h
  have hupdate {ρ : Type} [Keyed ρ Uuid] {t : Table ρ} {k j : Uuid} (f : Change ρ) (h : (t.get k).isSome = true) :
      ((t.update j f).get k).isSome = true := by
    rw [Table.get_update, Option.isSome_map]
    exact h
  cases x with
  | insertPaymentIntent row => cases l <;> first | exact hinsert row h | exact h
  | insertIdempotencyRecord row => cases l <;> first | exact hinsert row h | exact h
  | insertWebhookEvent row => cases l <;> first | exact hinsert row h | exact h
  | insertOutboxEvent row => cases l <;> first | exact hinsert row h | exact h
  | savePaymentIntent id p => cases l <;> first | exact hupdate _ h | exact h
  | saveIdempotencyRecord id p => cases l <;> first | exact hupdate _ h | exact h
  | saveWebhookEvent id p => cases l <;> first | exact hupdate _ h | exact h
  | markWebhookQueued id => cases l <;> first | exact hupdate _ h | exact h
  | updateOutboxEvent id p now => cases l <;> first | exact hupdate _ h | exact h
  | insertAttempt row => cases l <;> exact h

theorem hasRow_view {l : Lock} (h : d.hasRow l = true) (ws : List Write) : (engine.view d ws).hasRow l = true := by
  induction ws generalizing d with
  | nil => exact h
  | cons x ws ih => exact ih (hasRow_apply h x)

def Write.newRow : Write → Option Lock
  | .insertPaymentIntent row => some (.paymentIntent row.id)
  | .insertIdempotencyRecord row => some (.idempotencyRecord row.id)
  | .insertWebhookEvent row => some (.webhookEvent row.id)
  | .insertOutboxEvent row => some (.outboxEvent row.id)
  | _ => none

theorem hasRow_of_apply {l : Lock} {x : Write} (h : (d.apply x).hasRow l = true) : d.hasRow l = true ∨ x.newRow = some l := by
  have hinsert {ρ : Type} [Keyed ρ Uuid] {t : Table ρ} {k : Uuid} {r : ρ} (h : ((t.insert r).get k).isSome = true) :
      (t.get k).isSome = true ∨ key r = k := by
    rw [Table.get_insert] at h
    split_ifs at h with hk
    · exact Or.inr hk.symm
    · exact Or.inl h
  have hupdate {ρ : Type} [Keyed ρ Uuid] {t : Table ρ} {k j : Uuid} {f : Change ρ}
      (h : ((t.update j f).get k).isSome = true) : (t.get k).isSome = true := by
    rwa [Table.get_update, Option.isSome_map] at h
  cases x with
  | insertPaymentIntent row =>
    cases l <;> first | exact Or.inl h | exact (hinsert h).imp id (fun hk => congrArg (some ∘ Lock.paymentIntent) hk)
  | insertIdempotencyRecord row =>
    cases l <;> first | exact Or.inl h | exact (hinsert h).imp id (fun hk => congrArg (some ∘ Lock.idempotencyRecord) hk)
  | insertWebhookEvent row =>
    cases l <;> first | exact Or.inl h | exact (hinsert h).imp id (fun hk => congrArg (some ∘ Lock.webhookEvent) hk)
  | insertOutboxEvent row =>
    cases l <;> first | exact Or.inl h | exact (hinsert h).imp id (fun hk => congrArg (some ∘ Lock.outboxEvent) hk)
  | savePaymentIntent | saveIdempotencyRecord | saveWebhookEvent | markWebhookQueued | updateOutboxEvent =>
    cases l <;> first | exact Or.inl h | exact Or.inl (hupdate h)
  | insertAttempt row => cases l <;> exact Or.inl h

theorem hasRow_of_view {l : Lock} {ws : List Write} (h : (engine.view d ws).hasRow l = true) :
    d.hasRow l = true ∨ ∃ x ∈ ws, x.newRow = some l := by
  induction ws generalizing d with
  | nil => exact Or.inl h
  | cons x ws ih =>
    rcases ih h with hd | ⟨y, hy, hl⟩
    · rcases hasRow_of_apply hd with hd | hl
      · exact Or.inl hd
      · exact Or.inr ⟨x, List.mem_cons_self, hl⟩
    · exact Or.inr ⟨y, List.mem_cons_of_mem x hy, hl⟩

theorem Commits.hasRow {rt : Runtime} {w : World Db JobData} {q : Request} {r : Response} (hc : Commits rt w q r d) {l : Lock}
    (h : d.hasRow l = true) : w.db.hasRow l = true ∨ l ∈ q.newRows := by
  have houtbox {ws : List Write} (hws : ∀ x ∈ ws, OutboxDispatcher.OutboxWrite w.db x)
      (h : (engine.view w.db ws).hasRow l = true) : w.db.hasRow l = true := by
    rcases hasRow_of_view h with hd | ⟨x, hx, hl⟩
    · exact hd
    · cases hws x hx <;> cases hl
  cases hc with
  | paymentIntent hc =>
    cases hc with
    | replayed => exact Or.inl h
    | created amount =>
      change ((w.db.apply (.insertPaymentIntent _)).apply (.insertIdempotencyRecord _)).hasRow l = true at h
      rcases hasRow_of_apply h with h | hl
      · rcases hasRow_of_apply h with h | hl
        · exact Or.inl h
        · cases hl
          exact Or.inr (List.mem_cons_of_mem _ List.mem_cons_self)
      · cases hl
        exact Or.inr List.mem_cons_self
  | acceptance hv ha =>
    cases ha with
    | alreadyAccepted => exact Or.inl h
    | accepted paymentIntentId =>
      change ((w.db.apply (.insertWebhookEvent _)).apply (.insertOutboxEvent _)).hasRow l = true at h
      rcases hasRow_of_apply h with h | hl
      · rcases hasRow_of_apply h with h | hl
        · exact Or.inl h
        · cases hl
          exact Or.inr List.mem_cons_self
      · cases hl
        exact Or.inr (List.mem_cons_of_mem _ List.mem_cons_self)
  | dispatched hws => exact Or.inl (houtbox (fun x hx => (hws x hx).outboxWrite) h)
  | reconciled hws => exact Or.inl (houtbox (fun x hx => (hws x hx).outboxWrite) h)
  | processed hp he hs =>
    have hsettle {d' : Db} {id : Uuid} {p : WebhookEventPatch} {a : WebhookProcessingAttempt}
        (h : (WebhookEventProcessor.settle d' id p a).hasRow l = true) : d'.hasRow l = true := by
      change ((d'.apply (.saveWebhookEvent id p)).apply (.insertAttempt a)).hasRow l = true at h
      rcases hasRow_of_apply h with h | hl
      · exact (hasRow_of_apply h).resolve_right (fun hl => by cases hl)
      · cases hl
    cases hs with
    | alreadyProcessed | alreadyFailed => exact Or.inl (by cases l <;> exact h)
    | failed | confirmedBefore => exact Or.inl (hsettle h)
    | confirmed i txHash =>
      have hconfirm : (w.db.apply (.savePaymentIntent _ _)).hasRow l = true := hsettle h
      exact Or.inl ((hasRow_of_apply hconfirm).resolve_right (fun hl => by cases hl))

theorem hasEvent_of_rely {held : Lock → Prop} {w w' : World Db JobData} {id : Uuid}
    (h : w.db.hasRow (.webhookEvent id) = true) (hr : discipline.Rely held w w') : w'.db.hasRow (.webhookEvent id) = true := by
  obtain ⟨e, he⟩ := Option.isSome_iff_exists.mp h
  obtain ⟨e', he', hee'⟩ := hr.2.1.1.webhookEvents e (Table.mem_of_get he)
  have hid : e'.id = id := by
    rw [hee'.1]
    exact Table.key_of_get he
  have hget : w'.db.webhookEvents.get e'.id = some e' := Table.get_of_mem he'
  rw [Db.hasRow, ← hid, hget]
  rfl

end Rows

namespace WebhookEventProcessor

variable {rt : Runtime} {input : ProcessWebhookEventInput} {clock : Clock} {held : Lock → Prop} {ws : List Write}
  {w : World Db JobData}

theorem faultless_insertAttempt {id : Uuid} {status : WebhookProcessingAttemptStatus} {msg : Option Text}
    {r : ProcessingResult} (h : w.db.hasRow (.webhookEvent id) = true) :
    Faultless rt (.processWebhookEvent input clock) (insertAttempt input clock id status msg >>= fun _ => .ret r) held ws w
      anyEnd := by
  apply guarded_call
  · intro w₁ hr _ others e he
    simp only [engine_eval, eval] at he
    split_ifs at he with hclock hrow
    · cases he
      exact Or.inr ⟨_, rfl, .backwards input clock hclock, fun hx => by cases hx⟩
    · have hsome : ((engine.view w₁.db ws).webhookEvents.get id).isSome = true := hasRow_view (hasEvent_of_rely h hr) ws
      simp only [attempt, Option.isNone_iff_eq_none] at hrow
      rw [hrow] at hsome
      cases hsome
  · exact fun _ _ _ _ _ _ _ _ => trivial
  · exact fun _ _ e _ _ he => absurd he (eval_not_refused (by simp) _ _ e)

theorem faultless_settle {id : Uuid} {p : WebhookEventPatch} {status : WebhookProcessingAttemptStatus} {msg : Option Text}
    {r : ProcessingResult} (h : w.db.hasRow (.webhookEvent id) = true) :
    Faultless rt (.processWebhookEvent input clock)
      (query (.saveWebhookEvent id p) >>= fun _ => insertAttempt input clock id status msg >>= fun _ => .ret r) held ws w
      anyEnd := by
  apply guarded_call
  · intro w₁ hr _ others e he
    cases he
  · intro w₁ others a ws₁ ls hr _ _
    have hrow := hasEvent_of_rely h hr
    exact faultless_insertAttempt hrow
  · exact fun _ _ e _ _ he => absurd he (eval_not_refused (by simp) _ _ e)

theorem faultless_confirm {e : WebhookEvent} {i : PaymentIntentEntity} {txHash : Text}
    (h : w.db.hasRow (.webhookEvent e.id) = true) (hlen : isTooLong maxVarchar txHash = false)
    (hview : ∀ d, (engine.view d ws).paymentIntents = d.paymentIntents) :
    Faultless rt (.processWebhookEvent input clock) (confirm input clock e i txHash) held ws w anyEnd := by
  have hsave {held' : Lock → Prop} {w' : World Db JobData} (h' : w'.db.hasRow (.webhookEvent e.id) = true) :
      Faultless rt (.processWebhookEvent input clock) (do
        query (.savePaymentIntent i.id ⟨.confirmed, some txHash, none, clock.now⟩)
        markWebhookProcessed input clock e) held' ws w' anyEnd := by
    apply guarded_call
    · intro w₁ hr _ others x hx
      simp only [engine_eval, eval] at hx
      split_ifs at hx with htruncated htaken
      · rw [Option.any_some, hlen] at htruncated
        cases htruncated
      · cases hx
        simp only [isTxHashTaken, hview, Option.isSome_some, Bool.true_and] at htaken
        obtain ⟨j, hj⟩ := Option.isSome_iff_exists.mp htaken
        have hholds := Table.find_holds hj
        simp only [Bool.and_eq_true, decide_eq_true_eq, ne_eq] at hholds
        exact Or.inr ⟨_, rfl, .raced input clock,
          fun _ => ⟨_, _, txHash, rfl, rfl, j, Table.mem_of_find hj, hholds.2, hholds.1⟩⟩
    · intro w₁ others a ws₁ ls hr _ _
      have hrow := hasEvent_of_rely h' hr
      exact faultless_settle hrow
    · exact fun _ _ x _ _ hx => absurd hx (eval_not_refused (by simp) _ _ x)
  apply guarded_call
  · intro w₁ hr _ others x hx
    simp only [engine_eval, eval] at hx
    split at hx <;> cases hx
  · intro w₁ others a ws₁ ls hr _ heval
    have hrow := hasEvent_of_rely h hr
    have hws : ws₁ = [] := by
      simp only [engine_eval, eval] at heval
      split at heval <;> cases heval <;> rfl
    rw [hws, List.append_nil]
    cases a with
    | none => exact hsave hrow
    | some existing =>
      change Faultless rt _ (if _ then _ else _) _ _ _ _
      split_ifs
      · exact faultless_settle hrow
      · exact hsave hrow
  · exact fun _ _ x _ _ hx => absurd hx (eval_not_refused (by simp) _ _ x)

theorem faultless_applyToMatchingIntent {e : WebhookEvent} {i : PaymentIntentEntity} {txHash : Text}
    (h : w.db.hasRow (.webhookEvent e.id) = true) (hlen : isTooLong maxVarchar txHash = false)
    (hview : ∀ d, (engine.view d ws).paymentIntents = d.paymentIntents) :
    Faultless rt (.processWebhookEvent input clock) (applyToMatchingIntent input clock e i txHash) held ws w anyEnd := by
  unfold applyToMatchingIntent
  split
  · split_ifs
    · exact faultless_settle h
    · exact faultless_settle h
  · exact faultless_settle h
  · exact faultless_settle h
  · exact faultless_confirm h hlen hview
  · exact faultless_confirm h hlen hview

theorem notDatabase_of_validate {payload : JsonObject} {i : PaymentIntentEntity} {x : Failure}
    (h : validatePayloadMatchesPaymentIntent payload i = .error x) : NotDatabase x := by
  unfold validatePayloadMatchesPaymentIntent at h
  split at h
  · cases h
  · split at h
    · split_ifs at h
    · cases h
      intro y hy
      cases hy

theorem faultless_validated {e : WebhookEvent} {i : PaymentIntentEntity} {txHash : Text}
    (h : w.db.hasRow (.webhookEvent e.id) = true) (hlen : isTooLong maxVarchar txHash = false)
    (hview : ∀ d, (engine.view d ws).paymentIntents = d.paymentIntents) :
    Faultless rt (.processWebhookEvent input clock) (match validatePayloadMatchesPaymentIntent e.payload i with
      | .error x => throw x
      | .ok (some reason) => failWebhookEvent input clock e reason
      | .ok none => applyToMatchingIntent input clock e i txHash) held ws w anyEnd := by
  split
  · rename_i hvalidate
    exact notDatabase_of_validate hvalidate
  · exact faultless_settle h
  · exact faultless_applyToMatchingIntent h hlen hview

theorem faultless_applyProcessingRules {e : WebhookEvent} {dto : WebhookEvents.BlockchainWebhookDto}
    (h : w.db.hasRow (.webhookEvent e.id) = true) (hdto : PayloadOf e.payload dto)
    (hview : ∀ d, (engine.view d ws).paymentIntents = d.paymentIntents) :
    Faultless rt (.processWebhookEvent input clock) (applyProcessingRules input clock e) held ws w anyEnd := by
  unfold applyProcessingRules
  simp only
  split_ifs with htype
  · exact faultless_settle h
  have ht : dto.type = transactionConfirmed := by simpa [hdto.payload, text_type_toPayload] using htype
  obtain ⟨hash, htx, hnormal⟩ := normalHash_toPayload dto ht
  have hhash : JsonObject.text e.payload "txHash" = some hash := by rw [hdto.payload, text_txHash_toPayload, htx]
  have hlen : isTooLong maxVarchar hash = false := by simpa [htx] using hdto.fits
  simp only [hhash, hnormal.trim_ne_nil, ↓reduceIte, hnormal.normal]
  apply guarded_bind
  unfold lockPaymentIntent
  split
  · exact faultless_settle h
  apply guarded_call (f := fun a => Prog.ret a)
  · intro w₁ hr _ others x hx
    simp only [engine_eval, eval] at hx
    split at hx <;> cases hx
  · intro w₁ others a ws₁ ls hr _ heval
    have hrow := hasEvent_of_rely h hr
    have hws : ws₁ = [] := by
      simp only [engine_eval, eval] at heval
      split at heval <;> cases heval <;> rfl
    rw [hws, List.append_nil]
    cases a with
    | none => exact faultless_settle hrow
    | some i =>
      exact faultless_validated hrow hlen hview
  · exact fun _ _ x _ _ hx => absurd hx (eval_not_refused (by simp) _ _ x)

theorem faultless_processLockedEvent {e : WebhookEvent} {dto : WebhookEvents.BlockchainWebhookDto}
    (h : w.db.hasRow (.webhookEvent e.id) = true) (hdto : PayloadOf e.payload dto) (hws : ws = []) :
    Faultless rt (.processWebhookEvent input clock) (processLockedEvent input clock e) held ws w anyEnd := by
  have hrules : Faultless rt (.processWebhookEvent input clock) (do
      query (.saveWebhookEvent e.id ⟨.processing, none, none⟩)
      applyProcessingRules input clock e) held ws w anyEnd := by
    apply guarded_call
    · intro w₁ hr _ others x hx
      cases hx
    · intro w₁ others a ws₁ ls hr _ heval
      have hrow := hasEvent_of_rely h hr
      cases heval
      apply faultless_applyProcessingRules (w := w₁.emit _) hrow hdto
      intro d
      rw [hws]
      rfl
    · exact fun _ _ x _ _ hx => absurd hx (eval_not_refused (by simp) _ _ x)
  unfold processLockedEvent
  split
  · exact faultless_insertAttempt h
  · exact faultless_insertAttempt h
  · exact hrules

theorem faultless_process (input : ProcessWebhookEventInput) (clock : Clock) (w : World Db JobData) :
    Faultless rt (.processWebhookEvent input clock) (processWebhookEvent input clock) (fun _ => False) [] w anyEnd := by
  apply guarded_bind
  apply guarded_call
  · intro w₁ hr _ others x hx
    simp only [engine_eval, eval] at hx
    split at hx
    · rename_i hparse
      cases hx
      exact Or.inr ⟨_, rfl, .nameless input clock hparse, fun hx => by cases hx⟩
    · split at hx <;> cases hx
  · intro w₁ others a ws₁ ls hr hG heval
    simp only [engine_eval, eval] at heval
    split at heval
    · cases heval
    split at heval
    · cases heval
      intro x hx
      cases hx
    · rename_i id _ _ e hget
      cases heval
      obtain ⟨dto, hdto⟩ := hG.2.payloads e (Table.mem_of_get hget)
      have hid : e.id = id := Table.key_of_get hget
      apply faultless_processLockedEvent _ hdto rfl
      change (w₁.db.webhookEvents.get e.id).isSome = true
      rw [hid, show w₁.db.webhookEvents.get id = some e from hget]
      rfl
  · exact fun _ _ x _ _ hx => absurd hx (eval_not_refused (by simp) _ _ x)

end WebhookEventProcessor

namespace OutboxDispatcher

variable {rt : Runtime} {run : DispatchRun} {held : Lock → Prop} {ws : List Write} {w w' : World Db JobData}
  {rows : List OutboxEvent} {o : OutboxEvent}

theorem faultless_updateOutboxEvent {α : Type} {p : OutboxEventPatch} {now : Time} {f : Unit → Script α}
    {Q : α → (Lock → Prop) → List Write → World Db JobData → Prop}
    {X : Failure → (Lock → Prop) → List Write → World Db JobData → Prop} (h : Batch (o :: rows) held w.db)
    (hok : ∀ held₁ ws₁ w₁, Batch rows held₁ w₁.db →
      guarded discipline Consistent (MayFault rt (.dispatchBatch run)) (f ()) held₁ ws₁ w₁ Q X) :
    guarded discipline Consistent (MayFault rt (.dispatchBatch run)) (query (.updateOutboxEvent o.id p now) >>= f) held ws w Q
      X := by
  apply guarded_call
  · intro w₁ hr _ others x hx
    cases hx
  · intro w₁ others a ws₁ ls hr hG heval
    cases heval
    apply hok
    have hadd : Batch (o :: rows) (fun l => held l ∨ l ∈ [Lock.outboxEvent o.id]) w₁.db :=
      (h.later hr).add (fun l hl => Or.inl (List.mem_singleton.mp hl))
    exact hadd.tail
  · exact fun _ _ x _ _ hx => absurd hx (eval_not_refused (by simp) _ _ x)

theorem parse_of_toJobData {d : Db} {data : JobData} (hinv : ∃ js, OutboxInv d js) (ho : o ∈ d.outboxEvents)
    (hd : toJobData o = .ok data) : Uuid.parse data.webhookEventId = some o.aggregateId := by
  obtain ⟨js, hinv⟩ := hinv
  obtain ⟨c, hc⟩ := toJobData_of_deliverable (hinv.rows o ho)
  rw [hd] at hc
  rw [Except.ok.inj hc]
  exact Uuid.parse_render o.aggregateId

theorem faultless_publishOutboxEvent {data : JobData} {Q : Bool → (Lock → Prop) → List Write → World Db JobData → Prop}
    (h : Batch (o :: rows) held w.db) (hd : toJobData o = .ok data)
    (hok : ∀ b held₁ ws₁ w₁, Batch rows held₁ w₁.db → Q b held₁ ws₁ w₁) :
    Faultless rt (.dispatchBatch run) (publishOutboxEvent run o data) held ws w Q := by
  apply guarded_tryCatch
  apply guarded_call
  · intro w₁ hr _ others x hx
    simp only [engine_eval, eval] at hx
    split at hx <;> cases hx
  · intro w₁ others a ws₁ ls hr hG heval
    have hlocks : ls = [] := by
      simp only [engine_eval, eval] at heval
      split at heval <;> cases heval
      rfl
    subst hlocks
    have hbatch : Batch (o :: rows) (fun l => held l ∨ l ∈ ([] : List Lock)) w₁.db :=
      (h.later hr).add (fun l hl => by cases hl)
    apply guarded_call
    · intro w₂ hr₂ hG₂ others₂ x hx
      obtain ⟨ho, -⟩ := (Batch.later (w := w₁.emit _) hbatch hr₂).rows o List.mem_cons_self
      simp only [engine_eval, eval, parse_of_toJobData hG₂.1 ho hd] at hx
      split_ifs at hx
    · intro w₂ others₂ a₂ ws₂ ls₂ hr₂ hG₂ heval₂
      have hlater := Batch.later (w := w₁.emit _) hbatch hr₂
      have hnext : Batch (o :: rows) (fun l => (held l ∨ l ∈ ([] : List Lock)) ∨ l ∈ ls₂) w₂.db := by
        apply hlater.add
        intro l hl
        obtain ⟨ho, -⟩ := hlater.rows o List.mem_cons_self
        simp only [engine_eval, eval, parse_of_toJobData hG₂.1 ho hd] at heval₂
        split_ifs at heval₂
        · cases heval₂
          exact Or.inr (List.mem_singleton.mp hl)
        · cases heval₂
          cases hl
      apply faultless_updateOutboxEvent (w := w₂.emit _) hnext
      exact fun held₃ ws₃ w₃ hb => hok true held₃ ws₃ w₃ hb
    · exact fun _ _ x _ _ hx => absurd hx (eval_not_refused (by simp) _ _ x)
  · intro w₁ others e hr hG heval
    have hlater := h.later hr
    apply faultless_updateOutboxEvent (w := w₁.emit _) hlater
    exact fun held₃ ws₃ w₃ hb => hok false held₃ ws₃ w₃ hb

theorem faultless_dispatchEvents {result : OutboxDispatchBatchResult} (h : Batch rows held w.db) :
    Faultless rt (.dispatchBatch run) (dispatchEvents run rows result) held ws w anyEnd := by
  induction rows generalizing held ws w result with
  | nil => trivial
  | cons o rows ih =>
    unfold dispatchEvents
    split
    · exact faultless_updateOutboxEvent h (fun _ _ _ hb => ih hb)
    · exact faultless_updateOutboxEvent h (fun _ _ _ hb => ih hb)
    · rename_i data hd
      apply guarded_bind
      apply faultless_publishOutboxEvent h hd
      intro b held₁ ws₁ w₁ hb
      cases b with
      | true => exact ih hb
      | false => trivial

theorem faultless_dispatchBatch (run : DispatchRun) (w : World Db JobData) :
    Faultless rt (.dispatchBatch run) (dispatchBatch run) (fun _ => False) [] w anyEnd := by
  apply guarded_call
  · intro w₁ hr _ others x hx
    cases hx
  · intro w₁ others rows ws₁ ls hr hG heval
    cases heval
    apply faultless_dispatchEvents
    have hmem (o : OutboxEvent) (ho : o ∈ eligibleEvents (engine.view w₁.db []) others processWebhookOutboxType run.limit
        run.now run.hidden) : o ∈ w₁.db.outboxEvents := (mem_eligibleEvents ho).1
    refine ⟨?_, fun o ho => ⟨hmem o ho, Or.inr (List.mem_map_of_mem ho)⟩⟩
    rintro l (hl | hl)
    · exact hl.elim
    · obtain ⟨o, ho, rfl⟩ := List.mem_map.mp hl
      exact ⟨o, hmem o ho, Or.inr hl, Or.inl rfl⟩
  · exact fun _ _ x _ _ hx => absurd hx (eval_not_refused (by simp) _ _ x)

theorem faultless_reconcile (run : ReconcileRun) (w : World Db JobData) :
    Faultless rt (.reconcileStalePublishedEvents run) (reconcileStalePublishedEvents run) (fun _ => False) [] w anyEnd := by
  apply guarded_call
  · intro w₁ hr _ others x hx
    cases hx
  · exact fun _ _ _ _ _ _ _ _ => trivial
  · exact fun _ _ x _ _ hx => absurd hx (eval_not_refused (by simp) _ _ x)

end OutboxDispatcher

namespace WebhookEvents

variable {rt : Runtime} {nonce : Text} {dto : BlockchainWebhookDto} {q : Request} {held : Lock → Prop} {ws : List Write}
  {w : World Db JobData}

theorem faultless_replayOrRejectConflict : Faultless rt q (replayOrRejectConflict rt nonce dto) held ws w anyEnd := by
  apply guarded_call
  · intro w₁ hr _ others x hx
    cases hx
  · intro w₁ others a ws₁ ls _ _ _
    cases a with
    | some e =>
      change Faultless rt _ (if _ then _ else _) _ _ _ _
      split_ifs
      · trivial
      · intro x hx
        cases hx
    | none =>
      apply guarded_call
      · intro w₂ hr _ others x hx
        cases hx
      · intro w₂ others₂ a₂ ws₂ ls₂ _ _ _
        cases a₂ with
        | some e =>
          intro x hx
          cases hx
        | none =>
          intro x hx
          cases hx
      · exact fun _ _ x _ _ hx => absurd hx (eval_not_refused (by simp) _ _ x)
  · exact fun _ _ x _ _ hx => absurd hx (eval_not_refused (by simp) _ _ x)

theorem faultless_persist (config : WebhookConfig) (request : AcceptBlockchainWebhookRequest) (fresh : Fresh)
    (w : World Db JobData) (hv : validateRequest rt config request fresh.nowMs = .ok (nonce, dto)) :
    Faultless rt (.acceptBlockchainWebhook config request fresh) (persist rt nonce dto fresh) (fun _ => False) [] w
      anyEnd := by
  have hvalid := dto.valid
  simp only [BlockchainWebhookBody.isValid, Bool.and_eq_true] at hvalid
  obtain ⟨id, hparse⟩ := parse_of_isUUID hvalid.1.1.1.2
  apply guarded_call
  · intro w₁ hr _ others x hx
    simp only [engine_eval, eval, hparse] at hx
    split_ifs at hx with hlong hconflict hrow
    · cases hx
      refine Or.inr (excused_overlong ?_)
      simpa only [Request.isOverlong, hv, Except.toOption, Option.any_some] using hlong
    · exact Or.inl ⟨.webhookEvent fresh.webhookEventId, by simp [Request.newRows], hrow⟩
  · intro w₁ others a ws₁ ls hr hG heval
    simp only [engine_eval, eval, hparse] at heval
    split_ifs at heval with hlong hconflict hrow
    · cases heval
      exact faultless_replayOrRejectConflict
    · cases heval
      apply guarded_call
      · intro w₂ hr₂ _ others₂ x hx
        simp only [engine_eval, eval] at hx
        split_ifs at hx with hrow₂
        exact Or.inl ⟨.outboxEvent fresh.outboxEventId, by simp [Request.newRows], hrow₂⟩
      · exact fun _ _ _ _ _ _ _ _ => trivial
      · exact fun _ _ x _ _ hx => absurd hx (eval_not_refused (by simp) _ _ x)
  · exact fun _ _ x _ _ hx => absurd hx (eval_not_refused (by simp) _ _ x)

end WebhookEvents

namespace PaymentIntents

variable {rt : Runtime} {key : Text} {dto : CreatePaymentIntentDto} {q : Request} {held : Lock → Prop} {ws : List Write}
  {w : World Db JobData}

theorem faultless_replayOrRejectConflict {hash : Text} : Faultless rt q (replayOrRejectConflict key hash) held ws w anyEnd := by
  apply guarded_call
  · intro w₁ hr _ others x hx
    cases hx
  · intro w₁ others a ws₁ ls _ _ _
    cases a with
    | none =>
      intro x hx
      cases hx
    | some r =>
      change Faultless rt _ (if _ then _ else _) _ _ _ _
      split_ifs
      · intro x hx
        cases hx
      · split
        · trivial
        · intro x hx
          cases hx
  · exact fun _ _ x _ _ hx => absurd hx (eval_not_refused (by simp) _ _ x)

theorem faultless_create (fresh : Fresh) (w : World Db JobData) (hkey : isTooLong maxVarchar key = false) :
    Faultless rt (.createPaymentIntent key dto fresh) (createPaymentIntent rt key dto fresh) (fun _ => False) [] w anyEnd := by
  obtain ⟨amount, hamount⟩ := exists_numeric dto
  apply guarded_call
  · intro w₁ hr _ others x hx
    simp only [engine_eval, eval, newRecord, hkey, Bool.false_eq_true, ↓reduceIte] at hx
    split_ifs at hx with htaken hrow
    exact Or.inl ⟨.idempotencyRecord fresh.recordId, by simp [Request.newRows], hrow⟩
  · intro w₁ others a ws₁ ls hr hG heval
    simp only [engine_eval, eval] at heval
    split_ifs at heval with hlong htaken hrow
    · cases heval
      exact faultless_replayOrRejectConflict
    · cases heval
      apply guarded_call
      · intro w₂ hr₂ _ others₂ x hx
        have hnumeric : PaymentAmount.parseNumeric (newPaymentIntent dto fresh).amount = some amount := hamount
        simp only [engine_eval, eval, hnumeric] at hx
        split_ifs at hx with hlong₂ hrow₂
        · cases hx
          exact Or.inr (excused_overlong hlong₂)
        have htaken₂ : isTxHashTaken (engine.view w₂.db [.insertIdempotencyRecord (newRecord key (requestHash rt dto) fresh)])
            (newPaymentIntent dto fresh).confirmedTxHash (newPaymentIntent dto fresh).id = false := rfl
        simp only [List.nil_append, htaken₂, Bool.or_false] at hrow₂
        exact Or.inl ⟨.paymentIntent fresh.paymentIntentId, by simp [Request.newRows], hrow₂⟩
      · intro w₂ others₂ a₂ ws₂ ls₂ _ _ _
        apply guarded_call
        · intro w₃ hr₃ _ others₃ x hx
          cases hx
        · intro w₃ others₃ a₃ ws₃ ls₃ _ _ heval₃
          cases a₃ with
          | none =>
            intro x hx
            cases hx
          | some record =>
            apply guarded_call
            · intro w₄ hr₄ _ others₄ x hx
              cases hx
            · exact fun _ _ _ _ _ _ _ _ => trivial
            · exact fun _ _ x _ _ hx => absurd hx (eval_not_refused (by simp) _ _ x)
        · exact fun _ _ x _ _ hx => absurd hx (eval_not_refused (by simp) _ _ x)
      · exact fun _ _ x _ _ hx => absurd hx (eval_not_refused (by simp) _ _ x)
  · exact fun _ _ x _ _ hx => absurd hx (eval_not_refused (by simp) _ _ x)

end PaymentIntents

namespace WebhookEvents

def IsRefusal (config : WebhookConfig) (e : Failure) : Prop :=
  ∃ x, e = .api x ∧ (x.status < 500 ∨ x = .webhookVerificationNotConfigured ∧ config.webhookSecret.getD [] = [])

variable {rt : Runtime} {config : WebhookConfig} {e : Failure}

theorem isRefusal_validation (message : String) : IsRefusal config (.api (.validation message)) :=
  ⟨_, rfl, Or.inl (show 400 < 500 by decide)⟩

theorem isRefusal_of_validateHeaders {headers : WebhookRequestHeaders} (h : validateHeaders headers = .error e) :
    IsRefusal config e := by
  unfold validateHeaders at h
  simp only at h
  split_ifs at h <;> cases h <;> exact isRefusal_validation _

theorem isRefusal_of_validateTimestamp {nowMs : Time} {timestamp : Text}
    (h : validateTimestamp config nowMs timestamp = .error e) : IsRefusal config e := by
  unfold validateTimestamp at h
  split at h
  · cases h
  · cases h
    exact isRefusal_validation _
  · cases h
    exact ⟨_, rfl, Or.inl (show 400 < 500 by decide)⟩

theorem isRefusal_of_verifySignature {headers : ValidatedWebhookHeaders} {rawBody : Bytes}
    (h : verifySignature rt config headers rawBody = .error e) : IsRefusal config e := by
  unfold verifySignature at h
  split_ifs at h
  · cases h
    exact isRefusal_validation _
  · split at h
    · rename_i hsecret
      cases h
      exact ⟨_, rfl, Or.inr ⟨rfl, by rw [hsecret]; rfl⟩⟩
    · rename_i hsecret
      cases h
      exact ⟨_, rfl, Or.inr ⟨rfl, by rw [hsecret]; rfl⟩⟩
    · split_ifs at h
      cases h
      exact ⟨_, rfl, Or.inl (show 401 < 500 by decide)⟩

theorem isRefusal_of_validatePayload {body : Json} (h : validatePayload body = .error e) : IsRefusal config e := by
  unfold validatePayload at h
  split at h
  · split_ifs at h
    cases h
    exact ⟨_, rfl, Or.inl (show 400 < 500 by decide)⟩
  · cases h
    exact isRefusal_validation _

theorem isRefusal_of_validateRequest {request : AcceptBlockchainWebhookRequest} {nowMs : Time}
    (h : validateRequest rt config request nowMs = .error e) : IsRefusal config e := by
  unfold validateRequest at h
  rcases error_of_bind h with hheaders | ⟨headers, -, h⟩
  · exact isRefusal_of_validateHeaders hheaders
  rcases error_of_bind h with htimestamp | ⟨_, -, h⟩
  · exact isRefusal_of_validateTimestamp htimestamp
  rcases error_of_bind h with hsignature | ⟨_, -, h⟩
  · exact isRefusal_of_verifySignature hsignature
  rcases error_of_bind h with hpayload | ⟨dto, -, h⟩
  · exact isRefusal_of_validatePayload hpayload
  · cases h

end WebhookEvents

theorem Request.faultless {rt : Runtime} {q : Request} (hkey : q.HasValidKey) (w : World Db JobData) :
    Faultless rt q (q.script rt) (fun _ => False) [] w anyEnd := by
  cases q with
  | createPaymentIntent key dto fresh =>
    obtain ⟨header, hheader⟩ := hkey key dto fresh rfl
    apply guarded_bind
    exact guarded_mono (PaymentIntents.faultless_create fresh w (fits_of_validateIdempotencyKey hheader))
      (fun _ _ _ _ _ => trivial) (fun _ _ _ _ h => h)
  | acceptBlockchainWebhook config request fresh =>
    apply guarded_bind
    unfold WebhookEvents.acceptBlockchainWebhook
    split
    · rename_i e he
      obtain ⟨x, rfl, -⟩ := WebhookEvents.isRefusal_of_validateRequest he
      intro y hy
      cases hy
    · rename_i nonce dto he
      apply guarded_bind
      exact guarded_mono (WebhookEvents.faultless_persist config request fresh w he) (fun _ _ _ _ _ => trivial)
        (fun _ _ _ _ h => h)
  | dispatchBatch run =>
    apply guarded_bind
    exact guarded_mono (OutboxDispatcher.faultless_dispatchBatch run w) (fun _ _ _ _ _ => trivial) (fun _ _ _ _ h => h)
  | reconcileStalePublishedEvents run =>
    apply guarded_bind
    exact guarded_mono (OutboxDispatcher.faultless_reconcile run w) (fun _ _ _ _ _ => trivial) (fun _ _ _ _ h => h)
  | processWebhookEvent input clock =>
    apply guarded_bind
    exact guarded_mono (WebhookEventProcessor.faultless_process input clock w) (fun _ _ _ _ _ => trivial)
      (fun _ _ _ _ h => h)

section Propagation

variable {rt : Runtime}

def Stmt.servesOutbox : Stmt → Bool
  | .updateOutboxEvent _ _ _ | .requeueStale _ _ _ _ _ _ _ | .publishProcessWebhookEvent _ _ => true
  | _ => false

variable {P : Stmt → Prop} (hP : ∀ s, Stmt.servesOutbox s = false → P s)

namespace WebhookEventProcessor

variable {input : ProcessWebhookEventInput} {clock : Clock}

include hP

theorem propagates_insertAttempt (id : Uuid) (status : WebhookProcessingAttemptStatus) (msg : Option Text)
    (r : ProcessingResult) : Propagates P (insertAttempt input clock id status msg >>= fun _ => Prog.ret r) := by
  apply propagates_call_bind (hP _ rfl)
  intro _
  trivial

theorem propagates_markWebhookProcessed (e : WebhookEvent) : Propagates P (markWebhookProcessed input clock e) :=
  propagates_call_bind (hP _ rfl) (fun _ => propagates_insertAttempt hP _ _ _ _)

theorem propagates_failWebhookEvent (e : WebhookEvent) (reason : ProcessingFailureReason) :
    Propagates P (failWebhookEvent input clock e reason) :=
  propagates_call_bind (hP _ rfl) (fun _ => propagates_insertAttempt hP _ _ _ _)

theorem propagates_confirm (e : WebhookEvent) (i : PaymentIntentEntity) (txHash : Text) :
    Propagates P (confirm input clock e i txHash) := by
  apply propagates_call_bind (hP _ rfl)
  intro found
  cases found with
  | none => exact propagates_call_bind (hP _ rfl) (fun _ => propagates_markWebhookProcessed hP e)
  | some existing =>
    change Propagates P (if _ then _ else _)
    split_ifs
    · exact propagates_failWebhookEvent hP e _
    · exact propagates_call_bind (hP _ rfl) (fun _ => propagates_markWebhookProcessed hP e)

theorem propagates_applyToMatchingIntent (e : WebhookEvent) (i : PaymentIntentEntity) (txHash : Text) :
    Propagates P (applyToMatchingIntent input clock e i txHash) := by
  unfold applyToMatchingIntent
  split
  · split_ifs
    · exact propagates_markWebhookProcessed hP e
    · exact propagates_failWebhookEvent hP e _
  · exact propagates_failWebhookEvent hP e _
  · exact propagates_failWebhookEvent hP e _
  · exact propagates_confirm hP e i txHash
  · exact propagates_confirm hP e i txHash

theorem propagates_validated (e : WebhookEvent) (i : PaymentIntentEntity) (txHash : Text) :
    Propagates P (match validatePayloadMatchesPaymentIntent e.payload i with
      | .error x => throw x
      | .ok (some reason) => failWebhookEvent input clock e reason
      | .ok none => applyToMatchingIntent input clock e i txHash) := by
  split
  · trivial
  · exact propagates_failWebhookEvent hP e _
  · exact propagates_applyToMatchingIntent hP e i _

theorem propagates_applyProcessingRules (e : WebhookEvent) : Propagates P (applyProcessingRules input clock e) := by
  unfold applyProcessingRules
  simp only
  split_ifs
  · exact propagates_failWebhookEvent hP e _
  split
  · exact propagates_failWebhookEvent hP e _
  split_ifs
  · exact propagates_failWebhookEvent hP e _
  apply Propagates.bind
  · unfold lockPaymentIntent
    split
    · trivial
    · exact propagates_call (hP _ rfl)
  · intro found
    cases found with
    | none => exact propagates_failWebhookEvent hP e _
    | some i => exact propagates_validated hP e i _

theorem propagates_process (input : ProcessWebhookEventInput) (clock : Clock) :
    Propagates P (processWebhookEvent input clock) := by
  apply Propagates.bind
  · apply propagates_call_bind (hP _ rfl)
    intro found
    cases found <;> trivial
  · intro e
    unfold processLockedEvent
    split
    · exact propagates_insertAttempt hP _ _ _ _
    · exact propagates_insertAttempt hP _ _ _ _
    · exact propagates_call_bind (hP _ rfl) (fun _ => propagates_applyProcessingRules hP e)

end WebhookEventProcessor

include hP in
theorem WebhookEvents.propagates_persist (nonce : Text) (dto : BlockchainWebhookDto) (fresh : Fresh) :
    Propagates P (persist rt nonce dto fresh) := by
  apply propagates_call_bind (hP _ rfl)
  intro inserted
  cases inserted with
  | some id =>
    apply propagates_call_bind (hP _ rfl)
    intro _
    trivial
  | none =>
    apply propagates_call_bind (hP _ rfl)
    intro found
    cases found with
    | some e =>
      change Propagates P (if _ then _ else _)
      split_ifs <;> trivial
    | none =>
      apply propagates_call_bind (hP _ rfl)
      intro found
      cases found <;> trivial

include hP in
theorem PaymentIntents.propagates_create (key : Text) (dto : CreatePaymentIntentDto) (fresh : Fresh) :
    Propagates P (createPaymentIntent rt key dto fresh) := by
  apply propagates_call_bind (hP _ rfl)
  intro inserted
  cases inserted with
  | none =>
    apply propagates_call_bind (hP _ rfl)
    intro found
    cases found with
    | none => trivial
    | some r =>
      change Propagates P (if _ then _ else _)
      split_ifs
      · trivial
      · split <;> trivial
  | some id =>
    apply propagates_call_bind (hP _ rfl)
    intro _
    apply propagates_call_bind (hP _ rfl)
    intro found
    cases found with
    | none => trivial
    | some r =>
      apply propagates_call_bind (hP _ rfl)
      intro _
      trivial

def Request.isOutboxTask : Request → Bool
  | .dispatchBatch _ | .reconcileStalePublishedEvents _ => true
  | _ => false

theorem Request.propagates (q : Request) (hq : ∀ run, q ≠ .dispatchBatch run) :
    Propagates (fun s => s.servesOutbox = true → q.isOutboxTask = true) (q.script rt) := by
  have hrespond {α : Type} {P : Stmt → Prop} {p : Script α} (hp : Propagates P p) (f : α → Response) :
      Propagates P (p >>= fun a => Prog.ret (f a)) := hp.bind (fun _ => trivial)
  have hquiet {b : Bool} (s : Stmt) (hs : s.servesOutbox = false) (h : s.servesOutbox = true) : b = true := by
    rw [hs] at h
    cases h
  cases q with
  | createPaymentIntent key dto fresh => exact hrespond (PaymentIntents.propagates_create hquiet key dto fresh) _
  | acceptBlockchainWebhook config request fresh =>
    apply hrespond
    unfold WebhookEvents.acceptBlockchainWebhook
    split
    · trivial
    · exact (WebhookEvents.propagates_persist hquiet _ _ fresh).bind (fun _ => trivial)
  | dispatchBatch run => exact absurd rfl (hq run)
  | reconcileStalePublishedEvents run =>
    apply hrespond
    apply propagates_call_bind (fun _ => rfl)
    intro _
    trivial
  | processWebhookEvent input clock => exact hrespond (WebhookEventProcessor.propagates_process hquiet input clock) _

end Propagation

end EventGateway
