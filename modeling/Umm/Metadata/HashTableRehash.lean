import Umm.Metadata.HashTableHeap

/-! What growing the name table makes of it, and from which capacity on it cannot. -/
namespace Umm
open Umm.Lib

section Rehash

variable {V : Type}

/-- The occupied slots hold distinct keys. Tombstones may be anywhere, and nothing is asked of
the counters or of the order of the slots. -/
structure MetaHashTable.Keyed (ht : MetaHashTable V) : Prop where
  pow : ∃ k ≤ 31, ht.capacity = 2 ^ k
  length : ht.entries.length = ht.capacity
  distinct : Distinct ht.capacity MHTItem.key (slotAt ht.entries)

/-- The table has to grow before an insertion. -/
def MetaHashTable.Overloaded (ht : MetaHashTable V) : Prop :=
  ¬ u32 (ht.count + ht.tombstones) < u32 (ht.capacity * 7) / 10

/-- The items of `ht` and nothing else, counted, each with its probe path in order. -/
structure MetaHashTable.RehashOf (ht' ht : MetaHashTable V) : Prop where
  items : ht'.items.Perm ht.items
  count_eq : ht'.count = ht.items.length
  tombstones_eq : ht'.tombstones = 0
  live : ∀ j < ht'.capacity, (slotAt ht'.entries j).isDeleted = false
  ordered : Ordered ht'.capacity (itemHome ht'.capacity) (slotAt ht'.entries)

variable {ht ht' : MetaHashTable V}

theorem MetaHashTable.Overloaded.grow_eq (h : ht.Overloaded) {k : ℕ}
    (hk : (if u32 (ht.capacity * 2) < mhtMinCapacity then mhtMinCapacity
      else u32 (ht.capacity * 2)) = 2 ^ k) :
    mhtMaybeGrow ht = (reinsertAll (2 ^ k) ht.entries (List.replicate (2 ^ k) .empty) 0).map
      (fun r => { entries := r.1, capacity := 2 ^ k, count := r.2, tombstones := 0 }) := by
  unfold mhtMaybeGrow
  dsimp only
  rw [if_neg h, hk]

theorem reinsertAll_rehashOf (h : ht.Keyed) {k : ℕ} (hk : k ≤ 31) (hroom : ht.items.length ≤ 2 ^ k) :
    ∃ out n, reinsertAll (2 ^ k) ht.entries (List.replicate (2 ^ k) .empty) 0 = some (out, n) ∧
      (⟨out, 2 ^ k, n, 0⟩ : MetaHashTable V).RehashOf ht := by
  have hlt : 2 ^ k < 2 ^ 32 := Nat.pow_lt_pow_right (by norm_num) (by omega)
  obtain ⟨out, n, he, hr, hn⟩ := reinsertAll_rehashed ht.entries [] _ 0 (rehashed_nil k)
    (entries_distinct h.length h.distinct) (by rw [Nat.zero_add]; exact hroom) hlt
  obtain ⟨-, hp⟩ := reinsertAll_perm _ _ _ _ _ List.length_replicate he
  rw [slotItems_replicate, List.append_nil] at hp
  rw [Nat.zero_add] at hn
  exact ⟨out, n, he, hp, hn, rfl, hr.live, hr.ordered⟩

/-- Growing into fewer slots than there are items never ends. -/
theorem reinsertAll_crowded {k : ℕ} {old : List (MHTEntry V)}
    (hcrowd : 2 ^ k < (slotItems old).length) :
    reinsertAll (2 ^ k) old (List.replicate (2 ^ k) .empty) 0 = none := by
  cases he : reinsertAll (2 ^ k) old (List.replicate (2 ^ k) .empty) 0 with
  | none => rfl
  | some r =>
    obtain ⟨hl, hp⟩ := reinsertAll_perm _ _ _ _ _ List.length_replicate he
    rw [slotItems_replicate, List.append_nil] at hp
    have hle : (slotItems r.1).length ≤ r.1.length := List.length_filterMap_le _ _
    rw [hp.length_eq, hl] at hle
    omega

/-- At capacity 2^31 the doubled capacity is zero, and the new table has the minimum of slots. -/
theorem mhtMaybeGrow_wraps (hcap : ht.capacity = 2 ^ 31) (hover : ht.Overloaded)
    (hcrowd : 16 < ht.items.length) : mhtMaybeGrowHeap true ht = none := by
  obtain ⟨k', -, hnew, -, h31⟩ := grownCapacity_pow le_rfl hcap
  have hk' := h31 rfl
  subst hk'
  rw [mhtMaybeGrowHeap_granted, hover.grow_eq hnew, reinsertAll_crowded hcrowd]
  rfl

/-- The items from the first slot on, then the tombstones, then empty slots. -/
def packedTable (items : List (MHTItem V)) (tombstones capacity : ℕ) : MetaHashTable V where
  entries := items.map .full ++ List.replicate tombstones .deleted ++
    List.replicate (capacity - items.length - tombstones) .empty
  capacity := capacity
  count := items.length
  tombstones := tombstones

theorem packedTable_items (items : List (MHTItem V)) (tombstones capacity : ℕ) :
    (packedTable items tombstones capacity).items = items := by
  have hfull : slotItems (items.map Slot.full) = items := by
    rw [slotItems, List.filterMap_map]
    exact List.filterMap_some
  have hrest : slotItems (List.replicate tombstones (.deleted : MHTEntry V)) = [] := by
    refine List.eq_nil_iff_forall_not_mem.mpr fun a ha => ?_
    cases List.eq_of_mem_replicate (mem_slotItems.mp ha)
  have hempty := slotItems_replicate (α := MHTItem V) (capacity - items.length - tombstones)
  unfold slotItems at hfull hrest hempty
  unfold packedTable MetaHashTable.items slotItems
  rw [List.filterMap_append, List.filterMap_append, hfull, hrest, hempty, List.append_nil,
    List.append_nil]

theorem packedTable_keyed {items : List (MHTItem V)} {tombstones k : ℕ} (hk : k ≤ 31)
    (hkeys : (items.map MHTItem.key).Nodup) (hfit : items.length + tombstones ≤ 2 ^ k) :
    (packedTable items tombstones (2 ^ k)).Keyed := by
  have hlen : (packedTable items tombstones (2 ^ k)).entries.length = 2 ^ k := by
    simp only [packedTable, List.length_append, List.length_map, List.length_replicate]
    omega
  refine ⟨⟨k, hk, rfl⟩, hlen, ?_⟩
  have hitems := packedTable_items items tombstones (2 ^ k)
  unfold MetaHashTable.items at hitems
  rw [← hitems] at hkeys
  have hdis := distinct_of_nodup hkeys
  rw [hlen] at hdis
  exact hdis

def numberedItems (n : ℕ) : List (MHTItem ℕ) :=
  (List.range n).map fun i =>
    let key := CString.ofBytes [97, UInt8.ofNat (i + 1)]
    ⟨key, fnv1aHash key, i⟩

/-- Growing with memory granted keeps the items and puts their probe paths in order, up to the
capacity whose double wraps. -/
theorem mhtMaybeGrow_rehashOf_iff (h : ht.Keyed) (hover : ht.Overloaded) :
    (∃ ht', mhtMaybeGrowHeap true ht = some (.ok (), ht') ∧ ht'.RehashOf ht) ↔
      ht.capacity < 2 ^ 31 ∨ ht.items.length ≤ 16 := by
  obtain ⟨k, hk, hck⟩ := h.pow
  constructor
  · rintro ⟨ht', hg, -⟩
    by_contra hcon
    push Not at hcon
    obtain ⟨hcap, hitems⟩ := hcon
    rw [hck] at hcap
    have hk31 : k = 31 := by
      have := (Nat.pow_le_pow_iff_right (by norm_num : 1 < 2)).mp hcap
      omega
    rw [mhtMaybeGrow_wraps (by rw [hck, hk31]) hover hitems] at hg
    cases hg
  · intro hcond
    obtain ⟨k', hk', hnew, hlt, h31⟩ := grownCapacity_pow hk hck
    have hroom : ht.items.length ≤ 2 ^ k' := by
      by_cases hk31 : k = 31
      · rw [h31 hk31]
        rcases hcond with hcap | hitems
        · rw [hck, hk31] at hcap
          exact absurd hcap (lt_irrefl _)
        · exact hitems
      · calc ht.items.length ≤ ht.entries.length := List.length_filterMap_le _ _
          _ = 2 ^ k := h.length.trans hck
          _ ≤ 2 ^ k' := Nat.pow_le_pow_right (by norm_num) (hlt (by omega)).le
    obtain ⟨out, n, he, hr⟩ := reinsertAll_rehashOf h hk' hroom
    rw [mhtMaybeGrowHeap_granted, hover.grow_eq hnew, he]
    exact ⟨_, rfl, hr⟩

/-- Seventeen names and the tombstones of a table of 2^31 slots that has to grow. -/
theorem mhtMaybeGrow_not_rehashOf :
    (packedTable (numberedItems 17) 214748347 (2 ^ 31)).Keyed ∧
      (packedTable (numberedItems 17) 214748347 (2 ^ 31)).Overloaded ∧
      ¬ ∃ ht', mhtMaybeGrowHeap true (packedTable (numberedItems 17) 214748347 (2 ^ 31)) =
          some (.ok (), ht') ∧
        ht'.RehashOf (packedTable (numberedItems 17) 214748347 (2 ^ 31)) := by
  have hlen : (numberedItems 17).length = 17 := by decide +kernel
  have hover : (packedTable (numberedItems 17) 214748347 (2 ^ 31)).Overloaded := by
    unfold MetaHashTable.Overloaded packedTable
    dsimp only
    rw [hlen]
    decide
  refine ⟨packedTable_keyed le_rfl (by decide +kernel) (by rw [hlen]; norm_num), hover, ?_⟩
  rintro ⟨ht', hg, -⟩
  rw [mhtMaybeGrow_wraps rfl hover (by rw [packedTable_items, hlen]; norm_num)] at hg
  cases hg

theorem mhtMaybeGrow_rehashOf_iff_four :
    (∃ ht', mhtMaybeGrowHeap true (packedTable (numberedItems 4) 12 (2 ^ 4)) =
          some (.ok (), ht') ∧
        ht'.RehashOf (packedTable (numberedItems 4) 12 (2 ^ 4))) ↔
      (packedTable (numberedItems 4) 12 (2 ^ 4)).capacity < 2 ^ 31 ∨
        (packedTable (numberedItems 4) 12 (2 ^ 4)).items.length ≤ 16 :=
  mhtMaybeGrow_rehashOf_iff
    (packedTable_keyed (by norm_num) (by decide +kernel) (by decide +kernel))
    (by unfold MetaHashTable.Overloaded; decide +kernel)

end Rehash

end Umm
