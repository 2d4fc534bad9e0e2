import EventGateway.Statements
import Mathlib.Data.Char
import Mathlib.Data.List.Lex
import Mathlib.Data.Prod.Lex

/-!
The migration that rewrites `confirmed_tx_hash` to the canonical spelling. One
`UPDATE` sets the rows it selects in an order of its own, and the unique index
is checked after each row.
-/

namespace EventGateway.NormalizeConfirmedTxHashes

open KeyedTable TxHash Statements

structure CanonicalRow where
  id : Uuid
  confirmedTxHash : Text
  updatedAt : Time
  txHash : Text

def canonical (t : Table PaymentIntent) : List CanonicalRow :=
  t.rows.filterMap (fun i => i.confirmedTxHash.map (fun h => ⟨i.id, h, i.updatedAt, canonicalConfirmedTxHashSql h⟩))

/-- `ORDER BY tx_hash, confirmed_tx_hash = tx_hash DESC, updated_at, id` -/
def orderBy (r : CanonicalRow) : Lex (Text × Lex (Bool × Lex (Time × ℕ))) :=
  toLex (r.txHash, toLex (decide (r.confirmedTxHash ≠ r.txHash), toLex (r.updatedAt, r.id.toNat)))

/-- `DISTINCT ON`: the first of the rows on which `f` agrees. -/
def distinctOn {α β : Type} [DecidableEq β] (f : α → β) : List β → List α → List α
  | _, [] => []
  | seen, a :: as => if f a ∈ seen then distinctOn f seen as else a :: distinctOn f (f a :: seen) as

def holder (t : Table PaymentIntent) : List CanonicalRow :=
  distinctOn CanonicalRow.txHash [] ((canonical t).insertionSort (fun a b => orderBy a ≤ orderBy b))

def updates (t : Table PaymentIntent) : List (Uuid × Text) :=
  t.rows.flatMap (fun intent => ((holder t).filter (fun h =>
    intent.id = h.id && intent.confirmedTxHash.any (fun x => x ≠ h.txHash))).map (fun h => (intent.id, h.txHash)))

def setTxHash (txHash : Text) : Change PaymentIntent := ⟨fun i => { i with confirmedTxHash := some txHash }, fun _ => rfl⟩

def updateRow (d : Db) (u : Uuid × Text) : Except DbError Db :=
  if isTxHashTaken d (some u.2) u.1 then .error .uniqueViolation
  else .ok { d with paymentIntents := d.paymentIntents.update u.1 (setTxHash u.2) }

/-- `order` is the order in which PostgreSQL comes to the rows of `updates`. -/
def up (order : List (Uuid × Text)) (d : Db) : Except DbError Db := order.foldlM updateRow d

section DistinctOn

variable {α β : Type} [DecidableEq β] {f : α → β}

theorem mem_distinctOn {l : List α} {seen : List β} {a : α} (h : a ∈ distinctOn f seen l) :
    ∃ xs ys, l = xs ++ a :: ys ∧ f a ∉ seen ∧ ∀ b ∈ xs, f b ≠ f a := by
  induction l generalizing seen with
  | nil => cases h
  | cons x l ih =>
    unfold distinctOn at h
    split_ifs at h with hx
    · obtain ⟨xs, ys, rfl, ha, hxs⟩ := ih h
      refine ⟨x :: xs, ys, rfl, ha, ?_⟩
      intro b hb
      rcases List.mem_cons.mp hb with rfl | hb
      · exact fun hba => ha (hba ▸ hx)
      · exact hxs b hb
    · rcases List.mem_cons.mp h with rfl | h
      · exact ⟨[], l, rfl, hx, fun b hb => absurd hb (by simp)⟩
      · obtain ⟨xs, ys, rfl, ha, hxs⟩ := ih h
        rw [List.mem_cons, not_or] at ha
        refine ⟨x :: xs, ys, rfl, ha.2, ?_⟩
        intro b hb
        rcases List.mem_cons.mp hb with rfl | hb
        · exact Ne.symm ha.1
        · exact hxs b hb

theorem exists_mem_distinctOn {l : List α} {seen : List β} {b : α} (hb : b ∈ l) (hs : f b ∉ seen) :
    ∃ a ∈ distinctOn f seen l, f a = f b := by
  induction l generalizing seen with
  | nil => cases hb
  | cons x l ih =>
    unfold distinctOn
    split_ifs with hx
    · rcases List.mem_cons.mp hb with rfl | hb
      · exact absurd hx hs
      · exact ih hb hs
    · by_cases hxb : f x = f b
      · exact ⟨x, by simp, hxb⟩
      · rcases List.mem_cons.mp hb with rfl | hb
        · exact absurd rfl hxb
        · have hs' : f b ∉ f x :: seen := by
            rw [List.mem_cons, not_or]
            exact ⟨Ne.symm hxb, hs⟩
          obtain ⟨a, ha, hab⟩ := ih hb hs'
          exact ⟨a, List.mem_cons_of_mem x ha, hab⟩

theorem le_of_mem_distinctOn {r : α → α → Prop} {l : List α} (hl : l.Pairwise r) {seen : List β} {a b : α}
    (ha : a ∈ distinctOn f seen l) (hb : b ∈ l) (hab : f b = f a) : b = a ∨ r a b := by
  obtain ⟨xs, ys, rfl, _, hxs⟩ := mem_distinctOn ha
  rcases List.mem_append.mp hb with hb | hb
  · exact absurd hab (hxs b hb)
  · rcases List.mem_cons.mp hb with rfl | hb
    · exact Or.inl rfl
    · exact Or.inr ((List.pairwise_cons.mp (List.pairwise_append.mp hl).2.1).1 b hb)

end DistinctOn

def Spells (i : PaymentIntent) (c : Text) : Prop := i.confirmedTxHash.map normalizeTxHash = some c

structure IsHolder (t : Table PaymentIntent) (c : Text) (k : PaymentIntent) : Prop where
  mem : k ∈ t
  spells : Spells k c
  first : k.confirmedTxHash = some c ∨ (∀ j ∈ t, j.confirmedTxHash ≠ some c) ∧
    ∀ j ∈ t, Spells j c → toLex (k.updatedAt, k.id.toNat) ≤ toLex (j.updatedAt, j.id.toNat)

theorem normalizeTxHash_of_spells {i : PaymentIntent} {c : Text} (h : Spells i c) : normalizeTxHash c = c := by
  obtain ⟨x, _, rfl⟩ := Option.map_eq_some_iff.mp h
  exact normalizeTxHash_idempotent x

theorem spells_canonical {i j : PaymentIntent} {c : Text} (h : Spells i c) (hj : j.confirmedTxHash = some c) :
    Spells j c := by
  rw [Spells, hj, Option.map_some, normalizeTxHash_of_spells h]

section Holder

variable {t : Table PaymentIntent}

theorem mem_canonical {r : CanonicalRow} : r ∈ canonical t ↔
    ∃ i ∈ t, ∃ h, i.confirmedTxHash = some h ∧ r = ⟨i.id, h, i.updatedAt, normalizeTxHash h⟩ := by
  unfold canonical
  rw [List.mem_filterMap]
  constructor
  · rintro ⟨i, hi, h⟩
    obtain ⟨x, hx, rfl⟩ := Option.map_eq_some_iff.mp h
    exact ⟨i, hi, x, hx, by rw [canonicalConfirmedTxHashSql_eq]⟩
  · rintro ⟨i, hi, x, hx, rfl⟩
    exact ⟨i, hi, by rw [hx, Option.map_some, canonicalConfirmedTxHashSql_eq]⟩

theorem mem_canonical_of_holder {r : CanonicalRow} (hr : r ∈ holder t) : r ∈ canonical t := by
  obtain ⟨xs, ys, hl, _, _⟩ := mem_distinctOn hr
  rw [← List.mem_insertionSort (fun a b => orderBy a ≤ orderBy b), hl]
  simp

theorem orderBy_le_of_holder {r r' : CanonicalRow} (hr : r ∈ holder t) (hr' : r' ∈ canonical t)
    (h : r'.txHash = r.txHash) : orderBy r ≤ orderBy r' := by
  have hsorted := List.pairwise_insertionSort (fun a b => orderBy a ≤ orderBy b) (canonical t)
  rcases le_of_mem_distinctOn hsorted hr ((List.mem_insertionSort _).mpr hr') h with rfl | hle
  · exact le_refl _
  · exact hle

theorem exists_holder {i : PaymentIntent} {c : Text} (hi : i ∈ t) (hc : Spells i c) : ∃ r ∈ holder t, r.txHash = c := by
  obtain ⟨x, hx, rfl⟩ := Option.map_eq_some_iff.mp hc
  have hrow : (⟨i.id, x, i.updatedAt, normalizeTxHash x⟩ : CanonicalRow) ∈ canonical t := mem_canonical.mpr ⟨i, hi, x, hx, rfl⟩
  exact exists_mem_distinctOn ((List.mem_insertionSort _).mpr hrow) (by simp)

theorem orderBy_le {r r' : CanonicalRow} (h : orderBy r ≤ orderBy r') (ht : r.txHash = r'.txHash)
    (hr : r.confirmedTxHash ≠ r.txHash) :
    r'.confirmedTxHash ≠ r'.txHash ∧ toLex (r.updatedAt, r.id.toNat) ≤ toLex (r'.updatedAt, r'.id.toNat) := by
  -- within a group the canonical spelling comes first, then the earlier update, then the smaller id
  unfold orderBy at h
  rw [Prod.Lex.toLex_le_toLex] at h
  rcases h with h | ⟨-, h⟩
  · exact absurd (ht ▸ h) (lt_irrefl _)
  · rw [Prod.Lex.toLex_le_toLex] at h
    simp only [hr, ne_eq, not_false_eq_true, decide_true] at h
    rcases h with h | ⟨hflag, h⟩
    · exact absurd h (by simp)
    · exact ⟨by simpa using hflag.symm, h⟩

theorem isHolder_of_holder {r : CanonicalRow} (hr : r ∈ holder t) :
    ∃ k, IsHolder t r.txHash k ∧ k.id = r.id ∧ k.confirmedTxHash = some r.confirmedTxHash := by
  obtain ⟨k, hk, x, hx, hrow⟩ := mem_canonical.mp (mem_canonical_of_holder hr)
  have hspells : Spells k r.txHash := by rw [Spells, hx, hrow]; rfl
  refine ⟨k, ⟨hk, hspells, ?_⟩, by rw [hrow], by rw [hx, hrow]⟩
  by_cases hcanon : k.confirmedTxHash = some r.txHash
  · exact Or.inl hcanon
  · have hr' : r.confirmedTxHash ≠ r.txHash := by
      intro h
      apply hcanon
      rw [hx, ← h, hrow]
    have hgroup (j : PaymentIntent) (hj : j ∈ t) (hs : Spells j r.txHash) : j.confirmedTxHash ≠ some r.txHash ∧
        toLex (k.updatedAt, k.id.toNat) ≤ toLex (j.updatedAt, j.id.toNat) := by
      obtain ⟨y, hy, hys⟩ := Option.map_eq_some_iff.mp hs
      have hle := orderBy_le_of_holder hr (mem_canonical.mpr ⟨j, hj, y, hy, rfl⟩) hys
      obtain ⟨hne, hlex⟩ := orderBy_le hle hys.symm hr'
      refine ⟨?_, ?_⟩
      · rw [hy, ← hys]
        exact fun h => hne (Option.some.inj h)
      · rw [hrow] at hlex
        exact hlex
    refine Or.inr ⟨?_, fun j hj hs => (hgroup j hj hs).2⟩
    intro j hj h
    exact (hgroup j hj (spells_canonical hspells h)).1 h

theorem IsHolder.unique (hu : ∀ a ∈ t, ∀ b ∈ t, ∀ h, a.confirmedTxHash = some h → b.confirmedTxHash = some h → a = b)
    {c : Text} {k k' : PaymentIntent} (hk : IsHolder t c k) (hk' : IsHolder t c k') : k = k' := by
  rcases hk.first with h | ⟨hnone, hmin⟩
  · rcases hk'.first with h' | ⟨hnone', _⟩
    · exact hu k hk.mem k' hk'.mem c h h'
    · exact absurd h (hnone' k hk.mem)
  · rcases hk'.first with h' | ⟨_, hmin'⟩
    · exact absurd h' (hnone k' hk'.mem)
    · have heq := le_antisymm (hmin k' hk'.mem hk'.spells) (hmin' k hk.mem hk.spells)
      have hid : k.id.toNat = k'.id.toNat := congrArg (fun p => (ofLex p).2) heq
      exact Table.eq_of_key hk.mem hk'.mem (BitVec.eq_of_toNat_eq hid)

theorem mem_updates (hu : ∀ a ∈ t, ∀ b ∈ t, ∀ h, a.confirmedTxHash = some h → b.confirmedTxHash = some h → a = b)
    {id : Uuid} {c : Text} :
    (id, c) ∈ updates t ↔ ∃ k, IsHolder t c k ∧ k.id = id ∧ k.confirmedTxHash ≠ some c := by
  unfold updates
  rw [List.mem_flatMap]
  constructor
  · rintro ⟨i, hi, h⟩
    obtain ⟨r, hr, hu⟩ := List.mem_map.mp h
    cases hu
    obtain ⟨hr, hsel⟩ := List.mem_filter.mp hr
    rw [Bool.and_eq_true, decide_eq_true_eq] at hsel
    obtain ⟨hid, hne⟩ := hsel
    obtain ⟨k, hk, hkid, hkh⟩ := isHolder_of_holder hr
    obtain rfl : i = k := Table.eq_of_key hi hk.mem (hid.trans hkid.symm)
    refine ⟨i, hk, rfl, ?_⟩
    intro h
    rw [h] at hne
    simp at hne
  · rintro ⟨k, hk, rfl, hne⟩
    obtain ⟨r, hr, rfl⟩ := exists_holder hk.mem hk.spells
    obtain ⟨k', hk', hkid, hkh⟩ := isHolder_of_holder hr
    obtain rfl := hk.unique hu hk'
    refine ⟨k, hk.mem, List.mem_map.mpr ⟨r, List.mem_filter.mpr ⟨hr, ?_⟩, rfl⟩⟩
    rw [hkh] at hne ⊢
    simp only [hkid, decide_true, Bool.true_and, Option.any_some, decide_eq_true_eq]
    exact fun h => hne (congrArg some h)

end Holder

section Up

def applied (us : List (Uuid × Text)) (t : Table PaymentIntent) : Table PaymentIntent :=
  us.foldl (fun t u => t.update u.1 (setTxHash u.2)) t

theorem keys_applied (us : List (Uuid × Text)) (t : Table PaymentIntent) :
    (applied us t).rows.map key = t.rows.map key := by
  induction us generalizing t with
  | nil => rfl
  | cons u us ih => exact (ih _).trans (Table.keys_update t u.1)

theorem get_applied {us : List (Uuid × Text)} {id : Uuid} {c : Text} (h : ∀ c', (id, c') ∈ us → c' = c)
    (t : Table PaymentIntent) :
    (applied us t).get id = if (id, c) ∈ us then (t.get id).map (setTxHash c).apply else t.get id := by
  induction us generalizing t with
  | nil => rfl
  | cons u us ih =>
    obtain ⟨k, x⟩ := u
    have ih := ih (fun c' hc' => h c' (List.mem_cons_of_mem _ hc')) (t.update k (setTxHash x))
    change (applied us (t.update k (setTxHash x))).get id = _
    rw [ih]
    by_cases hk : id = k
    · subst hk
      obtain rfl : x = c := h x (by simp)
      rw [Table.get_update_self, if_pos List.mem_cons_self]
      split_ifs
      · cases t.get id <;> rfl
      · rfl
    · have hmem : (id, c) ∈ (k, x) :: us ↔ (id, c) ∈ us := by
        rw [List.mem_cons, Prod.mk.injEq]
        simp [hk]
      simp only [Table.get_update_of_ne t hk, hmem]

def Between (t cur : Table PaymentIntent) : Prop :=
  ∀ j ∈ cur, ∃ i ∈ t, j = i ∨ ∃ c, (i.id, c) ∈ updates t ∧ j = (setTxHash c).apply i

variable {d : Db} {cur : Table PaymentIntent}

theorem Between.update {id : Uuid} {c : Text} (h : Between d.paymentIntents cur) (hu : (id, c) ∈ updates d.paymentIntents) :
    Between d.paymentIntents (cur.update id (setTxHash c)) := by
  intro x hx
  obtain ⟨j, hj, rfl⟩ := Table.mem_update.mp hx
  obtain ⟨i, hi, hji⟩ := h j hj
  have hid : key j = i.id := by
    rcases hji with rfl | ⟨c', _, rfl⟩
    · rfl
    · rfl
  split_ifs with hk
  · refine ⟨i, hi, Or.inr ⟨c, ?_, ?_⟩⟩
    · rwa [← hid, hk]
    · rcases hji with rfl | ⟨c', _, rfl⟩
      · rfl
      · rfl
  · exact ⟨i, hi, hji⟩

theorem isTxHashTaken_between (hd : d.Indexes) (h : Between d.paymentIntents cur) {id : Uuid} {c : Text}
    (hu : (id, c) ∈ updates d.paymentIntents) : isTxHashTaken { d with paymentIntents := cur } (some c) id = false := by
  obtain ⟨k, hk, rfl, hne⟩ := (mem_updates hd.confirmedTxHash).mp hu
  have hnone : ∀ j ∈ d.paymentIntents, j.confirmedTxHash ≠ some c := by
    rcases hk.first with hc | ⟨hnone, _⟩
    · exact absurd hc hne
    · exact hnone
  have hfind : cur.find (fun i => i.confirmedTxHash = some c && i.id ≠ k.id) = none := by
    rw [Table.find_eq_none]
    intro j hj
    obtain ⟨i, hi, rfl | ⟨c', hc', rfl⟩⟩ := h j hj
    · simp [hnone j hi]
    · obtain ⟨k', hk', hid, _⟩ := (mem_updates hd.confirmedTxHash).mp hc'
      by_cases hcc : c' = c
      · subst hcc
        obtain rfl := hk.unique hd.confirmedTxHash hk'
        simp [setTxHash, hid]
      · simp [setTxHash, hcc]
  rw [isTxHashTaken, hfind]
  rfl

theorem up_between (hd : d.Indexes) {us : List (Uuid × Text)} (hus : ∀ u ∈ us, u ∈ updates d.paymentIntents)
    (h : Between d.paymentIntents cur) :
    up us { d with paymentIntents := cur } = .ok { d with paymentIntents := applied us cur } := by
  -- no update finds its hash taken, in whatever order they are made
  induction us generalizing cur with
  | nil => rfl
  | cons u us ih =>
    obtain ⟨id, c⟩ := u
    have hu := hus (id, c) (by simp)
    have hrow : updateRow { d with paymentIntents := cur } (id, c) =
        .ok { d with paymentIntents := cur.update id (setTxHash c) } := by
      simp [updateRow, isTxHashTaken_between hd h hu]
    have hrest := ih (fun u hu => hus u (List.mem_cons_of_mem _ hu)) (h.update hu)
    simp only [up, List.foldlM_cons, hrow] at hrest ⊢
    exact hrest

structure Migrated (d d' : Db) : Prop where
  tables : d' = { d with paymentIntents := d'.paymentIntents }
  ids : d'.paymentIntents.rows.map (fun i => i.id) = d.paymentIntents.rows.map (fun i => i.id)
  holder : ∀ c k, IsHolder d.paymentIntents c k →
    d'.paymentIntents.get k.id = some { k with confirmedTxHash := some c }
  others : ∀ i ∈ d.paymentIntents, (∀ c, ¬ IsHolder d.paymentIntents c i) → d'.paymentIntents.get i.id = some i

theorem up_migrated (hd : d.Indexes) {order : List (Uuid × Text)} (horder : order.Perm (updates d.paymentIntents)) :
    ∃ d', up order d = .ok d' ∧ Migrated d d' := by
  have hmem (u : Uuid × Text) : u ∈ order ↔ u ∈ updates d.paymentIntents := horder.mem_iff
  refine ⟨{ d with paymentIntents := applied order d.paymentIntents }, ?_, rfl, keys_applied order _, ?_, ?_⟩
  · exact up_between hd (fun u hu => (hmem u).mp hu) (fun j hj => ⟨j, hj, Or.inl rfl⟩)
  · intro c k hk
    have hget : d.paymentIntents.get k.id = some k := Table.get_of_mem hk.mem
    have honly (c' : Text) (hc' : (k.id, c') ∈ order) : c' = c := by
      obtain ⟨k', hk', hid, _⟩ := (mem_updates hd.confirmedTxHash).mp ((hmem _).mp hc')
      obtain rfl : k' = k := Table.eq_of_key hk'.mem hk.mem hid
      exact Option.some.inj (hk'.spells.symm.trans hk.spells)
    change (applied order d.paymentIntents).get k.id = _
    rw [get_applied honly, hget]
    split_ifs with hup
    · rfl
    · have hc : k.confirmedTxHash = some c := by
        by_contra hne
        exact hup ((hmem _).mpr ((mem_updates hd.confirmedTxHash).mpr ⟨k, hk, rfl, hne⟩))
      rw [← hc]
  · intro i hi hnot
    have hnone (c : Text) : (i.id, c) ∉ order := by
      intro hc
      obtain ⟨k, hk, hid, _⟩ := (mem_updates hd.confirmedTxHash).mp ((hmem _).mp hc)
      obtain rfl : k = i := Table.eq_of_key hk.mem hi hid
      exact hnot c hk
    change (applied order d.paymentIntents).get i.id = _
    rw [get_applied (c := []) (fun c' hc' => absurd hc' (hnone c')), if_neg (hnone [])]
    exact Table.get_of_mem hi

end Up

namespace Migrated

variable {d d' : Db} (h : Migrated d d')

include h

theorem mem_holder {c : Text} {k : PaymentIntent} (hk : IsHolder d.paymentIntents c k) :
    { k with confirmedTxHash := some c } ∈ d'.paymentIntents := Table.mem_of_get (h.holder c k hk)

theorem of_mem {i' : PaymentIntent} (hi' : i' ∈ d'.paymentIntents) :
    (i' ∈ d.paymentIntents ∧ ∀ c, ¬ IsHolder d.paymentIntents c i') ∨
      ∃ c k, IsHolder d.paymentIntents c k ∧ i' = { k with confirmedTxHash := some c } := by
  have hid : i'.id ∈ d.paymentIntents.rows.map (fun i => i.id) := by
    rw [← h.ids]
    exact List.mem_map_of_mem hi'
  obtain ⟨i, hi, hii⟩ := List.mem_map.mp hid
  have hget : d'.paymentIntents.get i.id = some i' := hii.symm ▸ Table.get_of_mem hi'
  by_cases hk : ∃ c, IsHolder d.paymentIntents c i
  · obtain ⟨c, hk⟩ := hk
    rw [h.holder c i hk] at hget
    exact Or.inr ⟨c, i, hk, (Option.some.inj hget).symm⟩
  · have hnone : ∀ c, ¬ IsHolder d.paymentIntents c i := not_exists.mp hk
    rw [h.others i hi hnone] at hget
    obtain rfl := Option.some.inj hget
    exact Or.inl ⟨hi, hnone⟩

theorem spells_of_mem {i' : PaymentIntent} (hi' : i' ∈ d'.paymentIntents) {c : Text} (hs : Spells i' c) :
    ∃ k, IsHolder d.paymentIntents c k := by
  have hspelled : ∃ i ∈ d.paymentIntents, Spells i c := by
    rcases h.of_mem hi' with ⟨hi, _⟩ | ⟨x, k, hk, rfl⟩
    · exact ⟨i', hi, hs⟩
    · have hx : some (normalizeTxHash x) = some c := hs
      rw [normalizeTxHash_of_spells hk.spells] at hx
      obtain rfl := Option.some.inj hx
      exact ⟨k, hk.mem, hk.spells⟩
  obtain ⟨i, hi, hs⟩ := hspelled
  obtain ⟨r, hr, rfl⟩ := exists_holder hi hs
  obtain ⟨k, hk, _, _⟩ := isHolder_of_holder hr
  exact ⟨k, hk⟩

theorem canonical_iff (hd : d.Indexes) {c : Text} {k : PaymentIntent} (hk : IsHolder d.paymentIntents c k)
    {i' : PaymentIntent} (hi' : i' ∈ d'.paymentIntents) : i'.confirmedTxHash = some c ↔ i'.id = k.id := by
  constructor
  · intro hc
    rcases h.of_mem hi' with ⟨hi, hnone⟩ | ⟨x, k', hk', rfl⟩
    · exact absurd ⟨hi, spells_canonical hk.spells hc, Or.inl hc⟩ (hnone c)
    · obtain rfl := Option.some.inj hc
      rw [hk.unique hd.confirmedTxHash hk']
  · intro hid
    rw [Table.eq_of_key hi' (h.mem_holder hk) hid]

theorem indexes (hd : d.Indexes) : d'.Indexes := by
  have hunique : ∀ a ∈ d'.paymentIntents, ∀ b ∈ d'.paymentIntents, ∀ x, a.confirmedTxHash = some x →
      b.confirmedTxHash = some x → a = b := by
    intro a ha b hb x hax hbx
    have hholder {c : Text} {k : PaymentIntent} (hk : IsHolder d.paymentIntents c k) (hcx : c = x) : a = b := by
      subst hcx
      have hka := (h.canonical_iff hd hk ha).mp hax
      have hkb := (h.canonical_iff hd hk hb).mp hbx
      exact Table.eq_of_key ha hb (hka.trans hkb.symm)
    rcases h.of_mem ha with ⟨ha₀, _⟩ | ⟨c, k, hk, rfl⟩
    · rcases h.of_mem hb with ⟨hb₀, _⟩ | ⟨c, k, hk, rfl⟩
      · exact hd.confirmedTxHash a ha₀ b hb₀ x hax hbx
      · exact hholder hk (Option.some.inj hbx)
    · exact hholder hk (Option.some.inj hax)
  rw [h.tables]
  exact ⟨hunique, hd.idempotencyKey, hd.externalEventId, hd.nonce⟩

theorem updates_eq_nil (hd : d.Indexes) : updates d'.paymentIntents = [] := by
  rw [List.eq_nil_iff_forall_not_mem]
  rintro ⟨id, c⟩ hu
  obtain ⟨k', hk', _, hne⟩ := (mem_updates (h.indexes hd).confirmedTxHash).mp hu
  obtain ⟨k, hk⟩ := h.spells_of_mem hk'.mem hk'.spells
  rcases hk'.first with hc | ⟨hnone, _⟩
  · exact hne hc
  · exact hnone _ (h.mem_holder hk) rfl

end Migrated

end EventGateway.NormalizeConfirmedTxHashes
