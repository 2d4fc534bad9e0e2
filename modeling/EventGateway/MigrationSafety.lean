import EventGateway.ConfirmationSafety
import EventGateway.NormalizeConfirmedTxHashes

namespace EventGateway

open KeyedTable TransactionProgram Interleaving Statements TxHash
open NormalizeConfirmedTxHashes (Spells IsHolder Migrated)

inductive IntentChange (t t' : Table PaymentIntent) : Prop
  | same (h : t' = t)
  | created (i : PaymentIntent) (hi : Unconfirmed i) (h : t' = t.insert i)
  | confirmed (i : PaymentIntent) (txHash : Text) (now : Time) (hi : i ∈ t)
      (hs : i.status = .created ∨ i.status = .processing) (hn : normalizeTxHash txHash = txHash)
      (hfree : ∀ j ∈ t, j.confirmedTxHash = some txHash → j.id = i.id)
      (h : t' = t.update i.id (PaymentIntentPatch.change ⟨.confirmed, some txHash, none, now⟩))

theorem Commits.intentChange {rt : Runtime} {w : World Db JobData} {q : Request} {r : Response} {d : Db}
    (h : Commits rt w q r d) : IntentChange w.db.paymentIntents d.paymentIntents := by
  cases h with
  | paymentIntent h =>
    cases h with
    | replayed => exact .same rfl
    | created amount hk hr hi ha => exact .created _ ⟨rfl, rfl⟩ rfl
  | acceptance hv h =>
    cases h with
    | accepted => exact .same rfl
    | alreadyAccepted => exact .same rfl
  | dispatched h => exact .same (OutboxDispatcher.view_outboxWrites (fun x hx => (h x hx).outboxWrite)).1
  | reconciled h => exact .same (OutboxDispatcher.view_outboxWrites (fun x hx => (h x hx).outboxWrite)).1
  | processed hp he h =>
    cases h with
    | alreadyProcessed | alreadyFailed | failed | confirmedBefore => exact .same rfl
    | confirmed i txHash hfinal hi hm hstatus hfree =>
      exact .confirmed i txHash _ hi hstatus (normalizeTxHash_of_matches hm)
        (Db.Indexes.isTxHashTaken_eq_false hfree) rfl

structure Canonicalized (t : Table PaymentIntent) : Prop where
  confirmed : ∀ i ∈ t, i.status = .confirmed ↔ i.confirmedTxHash.isSome = true
  canonical : ∀ i ∈ t, ∀ c, Spells i c → ∃ j ∈ t, j.confirmedTxHash = some c

section Steps

variable {t t' : Table PaymentIntent}

theorem not_spells_of_unconfirmed {i : PaymentIntent} {c : Text} (hi : i.confirmedTxHash = none) : ¬ Spells i c := by
  intro h
  rw [Spells, hi] at h
  cases h

theorem confirmedTxHash_eq_none (h : Canonicalized t) {i : PaymentIntent} (hi : i ∈ t)
    (hs : i.status = .created ∨ i.status = .processing) : i.confirmedTxHash = none := by
  by_contra hsome
  have hc := (h.confirmed i hi).mpr (Option.isSome_iff_ne_none.mpr hsome)
  rw [hc] at hs
  simp at hs

theorem IntentChange.canonicalized (hc : IntentChange t t') (h : Canonicalized t) : Canonicalized t' := by
  cases hc with
  | same ht => rwa [ht]
  | created i hi ht =>
    subst ht
    constructor
    · intro j hj
      rcases Table.mem_of_mem_insert hj with hj | rfl
      · exact h.confirmed j hj
      · simp [hi.1, hi.2]
    · intro j hj c hs
      rcases Table.mem_of_mem_insert hj with hj | rfl
      · obtain ⟨k, hk, hkc⟩ := h.canonical j hj c hs
        exact ⟨k, Table.mem_insert_of_mem hk, hkc⟩
      · exact absurd hs (not_spells_of_unconfirmed hi.2)
  | confirmed i txHash now hi hs hn hfree ht =>
    subst ht
    have hself : (PaymentIntent.patch ⟨.confirmed, some txHash, none, now⟩ i) ∈
        t.update i.id (PaymentIntentPatch.change ⟨.confirmed, some txHash, none, now⟩) := Table.mem_update_self hi
    constructor
    · intro j hj
      rcases Table.mem_update_cases hi hj with ⟨hj, _⟩ | rfl
      · exact h.confirmed j hj
      · exact ⟨fun _ => rfl, fun _ => rfl⟩
    · intro j hj c hsp
      rcases Table.mem_update_cases hi hj with ⟨hj, _⟩ | rfl
      · obtain ⟨k, hk, hkc⟩ := h.canonical j hj c hsp
        have hne : ¬ key k = i.id := by
          intro hkey
          obtain rfl : k = i := Table.eq_of_key hk hi hkey
          rw [confirmedTxHash_eq_none h hi hs] at hkc
          cases hkc
        exact ⟨k, Table.mem_update.mpr ⟨k, hk, (if_neg hne).symm⟩, hkc⟩
      · refine ⟨_, hself, ?_⟩
        have hsp : some (normalizeTxHash txHash) = some c := hsp
        rw [hn] at hsp
        exact hsp

theorem IntentChange.new_hash (hc : IntentChange t t') (h : Canonicalized t) {i' : PaymentIntent} (hi' : i' ∈ t')
    (hs' : i'.status = .confirmed) (hnew : ∀ i ∈ t, i.id = i'.id → i.status ≠ .confirmed) :
    ∀ j ∈ t, j.status = .confirmed → j.confirmedTxHash.map normalizeTxHash ≠ i'.confirmedTxHash.map normalizeTxHash := by
  cases hc with
  | same ht =>
    rw [ht] at hi'
    exact absurd hs' (hnew i' hi' rfl)
  | created i hi ht =>
    rw [ht] at hi'
    rcases Table.mem_of_mem_insert hi' with hi' | rfl
    · exact absurd hs' (hnew i' hi' rfl)
    · rw [hi.1] at hs'
      cases hs'
  | confirmed i txHash now hi hs hn hfree ht =>
    rw [ht] at hi'
    rcases Table.mem_update_cases hi hi' with ⟨hi', _⟩ | rfl
    · exact absurd hs' (hnew i' hi' rfl)
    · intro j hj _ heq
      have hsp : Spells j txHash := by
        rw [Spells, heq]
        exact congrArg some hn
      obtain ⟨k, hk, hkc⟩ := h.canonical j hj txHash hsp
      obtain rfl : k = i := Table.eq_of_key hk hi (hfree k hk hkc)
      rw [confirmedTxHash_eq_none h hi hs] at hkc
      cases hkc

end Steps

theorem canonicalized_of_migrated {d d' : Db} (h : Migrated d d')
    (hc : ∀ i ∈ d.paymentIntents, i.status = .confirmed ↔ i.confirmedTxHash.isSome = true) :
    Canonicalized d'.paymentIntents := by
  constructor
  · intro i' hi'
    rcases h.of_mem hi' with ⟨hi, _⟩ | ⟨c, k, hk, rfl⟩
    · exact hc i' hi
    · obtain ⟨x, hx, _⟩ := Option.map_eq_some_iff.mp hk.spells
      have hs := (hc k hk.mem).mpr (by rw [hx]; rfl)
      exact ⟨fun _ => rfl, fun _ => hs⟩
  · intro i' hi' c hs
    obtain ⟨k, hk⟩ := h.spells_of_mem hi' hs
    exact ⟨_, h.mem_holder hk, rfl⟩

section Runs

variable {ι : Type} [DecidableEq ι] {rt : Runtime} {req : ι → Request}

theorem SystemStep.intentChange {σ σ' : SystemState ι} (h : SystemStep rt req σ σ') :
    IntentChange σ.world.db.paymentIntents σ'.world.db.paymentIntents := by
  cases h with
  | quiet js hw _ _ => exact .same (by rw [hw]; rfl)
  | commit i r s _ hc _ _ => exact hc.intentChange
  | reject i e s _ _ hw _ => exact .same (by rw [hw])

theorem runs_canonicalized {d : Db} (hd : d.Indexes) (hc : Canonicalized d.paymentIntents) {ls : List (Label ι)}
    {σ : SystemState ι} (h : runs rt req (State.init d) ls = some σ) : Canonicalized σ.world.db.paymentIntents := by
  apply (runs_invariant (P := fun σ => Canonicalized σ.world.db.paymentIntents) hd hc _ h).2
  intro σ σ' _ hinv hstep
  exact hstep.intentChange.canonicalized hinv

end Runs

open NormalizeConfirmedTxHashes in
theorem migration_safety {d : Db} (hd : d.Indexes)
    (hc : ∀ i ∈ d.paymentIntents, i.status = .confirmed ↔ i.confirmedTxHash.isSome = true)
    {order : List (Uuid × Text)} (horder : order.Perm (updates d.paymentIntents)) :
    ∃ d', up order d = .ok d' ∧
      (∀ i ∈ d.paymentIntents, ∀ c, Spells i c → ∃ k, IsHolder d.paymentIntents c k ∧
        ∀ i' ∈ d'.paymentIntents, i'.confirmedTxHash = some c ↔ i'.id = k.id) ∧
      Migrated d d' ∧
      (∀ order', order'.Perm (updates d'.paymentIntents) → up order' d' = .ok d') ∧
      ∀ (ι : Type) [DecidableEq ι] (rt : Runtime) (req : ι → Request) (ls : List (Label ι)) (l : Label ι)
        (σ σ' : SystemState ι), runs rt req (State.init d') ls = some σ →
        step engine (scripts rt req) σ l = some σ' →
        ∀ i' ∈ σ'.world.db.paymentIntents, i'.status = .confirmed →
        (∀ i ∈ σ.world.db.paymentIntents, i.id = i'.id → i.status ≠ .confirmed) →
        ∀ j ∈ σ.world.db.paymentIntents, j.status = .confirmed →
          j.confirmedTxHash.map normalizeTxHash ≠ i'.confirmedTxHash.map normalizeTxHash := by
  obtain ⟨d', hup, hm⟩ := up_migrated hd horder
  refine ⟨d', hup, ?_, hm, ?_, ?_⟩
  · intro i hi c hs
    obtain ⟨r, hr, rfl⟩ := exists_holder hi hs
    obtain ⟨k, hk, _, _⟩ := isHolder_of_holder hr
    exact ⟨k, hk, fun i' hi' => hm.canonical_iff hd hk hi'⟩
  · intro order' horder'
    rw [hm.updates_eq_nil hd, List.perm_nil] at horder'
    rw [horder']
    rfl
  · intro ι _ rt req ls l σ σ' hrun hstep i' hi' hs' hnew
    have hd' := hm.indexes hd
    have hinv := runs_canonicalized hd' (canonicalized_of_migrated hm hc) hrun
    exact (runs_step hd' hrun hstep).2.intentChange.new_hash hinv hi' hs' hnew

def legacyIntent (id : Uuid) (txHash : Text) (updatedAt : Time) : PaymentIntent where
  id := id
  status := .confirmed
  amount := ⟨25500000000000000000, by decide, by decide⟩
  asset := "USDC".toList
  destination := "wallet-1".toList
  reference := none
  clientRequestId := none
  metadata := []
  confirmedTxHash := some txHash
  failureReason := none
  expiresAt := none
  createdAt := 0
  updatedAt := updatedAt

theorem indexes_twoIntents {a b : PaymentIntent} (hkeys : ([a, b].map key).Nodup)
    (hab : a.confirmedTxHash ≠ b.confirmedTxHash) :
    Db.Indexes { Db.empty with paymentIntents := ⟨[a, b], hkeys⟩ } := by
  have hrow (i : PaymentIntent) (hi : i ∈ (⟨[a, b], hkeys⟩ : Table PaymentIntent)) : i = a ∨ i = b := by
    simpa [← Table.mem_rows] using hi
  constructor
  · intro i hi j hj h hih hjh
    rcases hrow i hi with rfl | rfl <;> rcases hrow j hj with rfl | rfl
    · rfl
    · exact absurd (hih.trans hjh.symm) hab
    · exact absurd (hjh.trans hih.symm) hab
    · rfl
  · intro i hi
    cases hi
  · intro i hi
    cases hi
  · intro i hi
    cases hi

def legacyDb : Db :=
  { Db.empty with
    paymentIntents := ⟨[legacyIntent 1 " 0XCAFE06 ".toList 7, legacyIntent 2 "0xCAFE06".toList 5], by decide⟩ }

theorem migration_safety_sample : ∃ d',
    NormalizeConfirmedTxHashes.up (NormalizeConfirmedTxHashes.updates legacyDb.paymentIntents) legacyDb = .ok d' ∧
    d'.paymentIntents.rows.map (fun i => i.confirmedTxHash) = [some " 0XCAFE06 ".toList, some "0xcafe06".toList] ∧
    Migrated legacyDb d' := by
  have hrow (i : PaymentIntent) (hi : i ∈ legacyDb.paymentIntents) :
      i = legacyIntent 1 " 0XCAFE06 ".toList 7 ∨ i = legacyIntent 2 "0xCAFE06".toList 5 := by
    simpa [← Table.mem_rows, legacyDb] using hi
  have hindexes : legacyDb.Indexes := indexes_twoIntents (by decide) (by decide)
  have hconfirmed (i : PaymentIntent) (hi : i ∈ legacyDb.paymentIntents) :
      i.status = .confirmed ↔ i.confirmedTxHash.isSome = true := by
    rcases hrow i hi with rfl | rfl <;> exact ⟨fun _ => rfl, fun _ => rfl⟩
  obtain ⟨d', hup, _, hm, _⟩ := migration_safety hindexes hconfirmed (List.Perm.refl _)
  have hrows : (NormalizeConfirmedTxHashes.up (NormalizeConfirmedTxHashes.updates legacyDb.paymentIntents)
      legacyDb).toOption.map (fun d => d.paymentIntents.rows.map (fun i => i.confirmedTxHash)) =
      some [some " 0XCAFE06 ".toList, some "0xcafe06".toList] := by decide +kernel
  refine ⟨d', hup, ?_, hm⟩
  rw [hup] at hrows
  exact Option.some.inj hrows

end EventGateway
