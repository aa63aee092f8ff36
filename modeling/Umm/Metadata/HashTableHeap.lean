import Umm.Metadata.HashTableCalls

/-! The items of the name table, whether its probe paths are in order or not: an insertion that
fails keeps them all, also when the heap has no memory for it. -/
namespace Umm
open Umm.Lib

/-- Which of the requests for memory that one registration can make are granted. -/
structure HeapGrants where
  /-- A larger array of chunks. -/
  chunks : Bool
  /-- A larger table. -/
  entries : Bool
  /-- A copy of the name. -/
  key : Bool

def HeapGrants.all : HeapGrants := ⟨true, true, true⟩

section Insert

variable {V : Type}

def mhtMaybeGrowHeap (granted : Bool) (ht : MetaHashTable V) :
    Option (Except Error Unit × MetaHashTable V) :=
  if u32 (ht.count + ht.tombstones) < u32 (ht.capacity * 7) / 10 then some (.ok (), ht)
  else if granted then (mhtMaybeGrow ht).map (fun ht => (.ok (), ht))
  else some (.error .noMemory, ht)

/-- `mht_insert` with the answers of the heap. -/
def mhtInsertHeap (heap : HeapGrants) (ht : MetaHashTable V) (key : CString) (value : V) :
    Option (Except Error Unit × MetaHashTable V) :=
  match mhtMaybeGrowHeap heap.entries ht with
  | none => none
  | some (.error e, ht) => some (.error e, ht)
  | some (.ok (), ht) =>
    if heap.key then mhtInsertGrown ht key value else some (.error .noMemory, ht)

theorem mhtMaybeGrowHeap_cases {granted : Bool} {ht ht' : MetaHashTable V}
    {r : Except Error Unit} (h : mhtMaybeGrowHeap granted ht = some (r, ht')) :
    (r = .ok () ∧ mhtMaybeGrow ht = some ht') ∨ (∃ e, r = .error e) ∧ ht' = ht := by
  unfold mhtMaybeGrowHeap at h
  split_ifs at h with hfit hg
  · obtain ⟨rfl, rfl⟩ := by simpa using h
    refine Or.inl ⟨rfl, ?_⟩
    unfold mhtMaybeGrow
    dsimp only
    rw [if_pos hfit]
  · obtain ⟨ht1, h1, he⟩ := Option.map_eq_some_iff.mp h
    obtain ⟨rfl, rfl⟩ := Prod.mk.inj he
    exact Or.inl ⟨rfl, h1⟩
  · obtain ⟨rfl, rfl⟩ := by simpa using h
    exact Or.inr ⟨⟨_, rfl⟩, rfl⟩

theorem mhtMaybeGrowHeap_granted (ht : MetaHashTable V) :
    mhtMaybeGrowHeap true ht = (mhtMaybeGrow ht).map (fun ht => (.ok (), ht)) := by
  unfold mhtMaybeGrowHeap
  by_cases hfit : u32 (ht.count + ht.tombstones) < u32 (ht.capacity * 7) / 10
  · rw [if_pos hfit]
    unfold mhtMaybeGrow
    dsimp only
    rw [if_pos hfit]
    rfl
  · rw [if_neg hfit, if_pos rfl]

/-- With all memory granted this is `mht_insert` as modelled before. -/
theorem mhtInsertHeap_all (ht : MetaHashTable V) (key : CString) (value : V) :
    mhtInsertHeap .all ht key value = mhtInsert ht key value := by
  unfold mhtInsertHeap mhtInsert
  rw [HeapGrants.all, mhtMaybeGrowHeap_granted]
  cases mhtMaybeGrow ht <;> rfl

end Insert

section Items

variable {V : Type} {k : ℕ}

def MetaHashTable.items (ht : MetaHashTable V) : List (MHTItem V) := slotItems ht.entries

def MHTItem.Hashed (item : MHTItem V) : Prop := item.hash = fnv1aHash item.key

/-- The shape of every table, be its probe paths in order or not. -/
structure MetaHashTable.Formed (ht : MetaHashTable V) : Prop where
  pow : ∃ k ≤ 31, ht.capacity = 2 ^ k
  length : ht.entries.length = ht.capacity
  hashed : ∀ item ∈ ht.items, item.Hashed

theorem slotAt_eq_getElem {entries : List (MHTEntry V)} {idx : ℕ} (hi : idx < entries.length) :
    slotAt entries idx = entries[idx] := by
  unfold slotAt
  rw [List.getD_eq_getElem?_getD, List.getElem?_eq_getElem hi, Option.getD_some]

theorem mem_items_slotAt {entries : List (MHTEntry V)} {idx : ℕ} {x : MHTItem V}
    (h : slotAt entries idx = .full x) : x ∈ slotItems entries :=
  mem_slotItems.mpr (List.mem_of_getElem? (slotAt_eq_full_iff.mp h))

theorem items_exchange {entries : List (MHTEntry V)} {idx : ℕ} (hi : idx < entries.length)
    {there : MHTItem V} (hs : slotAt entries idx = .full there) (item : MHTItem V) :
    (there :: slotItems (entries.set idx (.full item))).Perm (item :: slotItems entries) := by
  have hset := slotItems_set hi item
  rw [← slotAt_eq_getElem hi, hs] at hset
  exact hset

theorem items_place {entries : List (MHTEntry V)} {idx : ℕ} (hi : idx < entries.length)
    (hs : ∀ x, slotAt entries idx ≠ .full x) (item : MHTItem V) :
    (slotItems (entries.set idx (.full item))).Perm (item :: slotItems entries) := by
  have hset := slotItems_set hi item
  rw [← slotAt_eq_getElem hi] at hset
  cases hT : slotAt entries idx with
  | full x => exact absurd hT (hs x)
  | empty =>
    rw [hT] at hset
    exact hset
  | deleted =>
    rw [hT] at hset
    exact hset

theorem nextIdx_lt {idx : ℕ} (h : idx < 2 ^ k) : nextIdx idx (2 ^ k) < 2 ^ k := by
  rw [nextIdx_eq h]
  exact cnext_lt h

theorem reinsertLoop_perm :
    ∀ fuel (entries : List (MHTEntry V)) item idx dist out, entries.length = 2 ^ k → idx < 2 ^ k →
      reinsertLoop (2 ^ k) fuel entries item idx dist = some out →
      out.length = 2 ^ k ∧ (slotItems out).Perm (item :: slotItems entries) := by
  intro fuel
  induction fuel with
  | zero =>
    intro entries item idx dist out _ _ h
    cases h
  | succ fuel ih =>
    intro entries item idx dist out hlen hi h
    have hset : ∀ e, (entries.set idx e).length = 2 ^ k := fun e => by rw [List.length_set, hlen]
    unfold reinsertLoop at h
    split at h
    next there hs =>
      dsimp only at h
      split_ifs at h
      · obtain ⟨hl, hp⟩ := ih _ _ _ _ _ (hset _) (nextIdx_lt hi) h
        exact ⟨hl, hp.trans (items_exchange (by omega) hs item)⟩
      · exact ih _ _ _ _ _ hlen (nextIdx_lt hi) h
    next hs =>
      obtain rfl := Option.some.inj h
      exact ⟨hset _, items_place (by omega) (fun x hx => hs x hx) item⟩

/-- Moving the old entries loses no item and makes none up. -/
theorem reinsertAll_perm :
    ∀ (old entries : List (MHTEntry V)) count out n, entries.length = 2 ^ k →
      reinsertAll (2 ^ k) old entries count = some (out, n) →
      out.length = 2 ^ k ∧ (slotItems out).Perm (slotItems old ++ slotItems entries) := by
  intro old
  induction old with
  | nil =>
    intro entries count out n hlen h
    obtain ⟨rfl, -⟩ := by simpa [reinsertAll] using h
    exact ⟨hlen, List.Perm.refl _⟩
  | cons slot old ih =>
    intro entries count out n hlen h
    cases slot with
    | full item =>
      rw [reinsertAll] at h
      split at h
      next => cases h
      next entries' hr =>
        obtain ⟨hl, hp⟩ := reinsertLoop_perm _ _ _ _ _ _ hlen (desiredPos_lt item.hash k) hr
        obtain ⟨hl', hp'⟩ := ih _ _ _ _ hl h
        refine ⟨hl', (hp'.trans (hp.append_left _)).trans ?_⟩
        exact List.perm_middle
    | empty => exact ih _ _ _ _ hlen h
    | deleted => exact ih _ _ _ _ hlen h

/-- The capacity after growing. The doubled one wraps to zero only from 2^31, and becomes the
minimum then. -/
theorem grownCapacity_pow {capacity k : ℕ} (hk : k ≤ 31) (hck : capacity = 2 ^ k) :
    ∃ k' ≤ 31, (if u32 (capacity * 2) < mhtMinCapacity then mhtMinCapacity
        else u32 (capacity * 2)) = 2 ^ k' ∧ (k < 31 → k < k') ∧ (k = 31 → k' = 4) := by
  by_cases hk31 : k = 31
  · refine ⟨4, by norm_num, ?_, fun h => by omega, fun _ => rfl⟩
    rw [hck, hk31]
    decide
  · have hdouble : u32 (capacity * 2) = 2 ^ (k + 1) := by
      rw [hck, ← Nat.pow_succ]
      exact u32_of_lt (Nat.pow_lt_pow_right (by norm_num) (by omega))
    rw [hdouble]
    split_ifs with hmin
    · have hlt : k + 1 < 4 := (Nat.pow_lt_pow_iff_right (by norm_num : 1 < 2)).mp hmin
      exact ⟨4, by norm_num, rfl, fun _ => by omega, fun h => absurd h hk31⟩
    · exact ⟨k + 1, by omega, rfl, fun _ => Nat.lt_succ_self k, fun h => absurd h hk31⟩

theorem mhtMaybeGrow_items {ht ht' : MetaHashTable V} (hf : ht.Formed)
    (h : mhtMaybeGrow ht = some ht') : ht'.items.Perm ht.items ∧ ht'.Formed := by
  obtain ⟨k, hk, hck⟩ := hf.pow
  unfold mhtMaybeGrow at h
  dsimp only at h
  split at h
  · obtain rfl := Option.some.inj h
    exact ⟨List.Perm.refl _, hf⟩
  · obtain ⟨k', hk', hcap, -, -⟩ := grownCapacity_pow hk hck
    rw [hcap] at h
    obtain ⟨⟨out, n⟩, hr, rfl⟩ := Option.map_eq_some_iff.mp h
    obtain ⟨hl, hp⟩ := reinsertAll_perm _ _ _ _ _ List.length_replicate hr
    rw [slotItems_replicate, List.append_nil] at hp
    exact ⟨hp, ⟨k', hk', rfl⟩, hl, fun item hm => hf.hashed item (hp.subset hm)⟩

theorem cdist_nextIdx {a idx : ℕ} (hi : idx < 2 ^ k) (ha : a < 2 ^ k)
    (hd : cdist (2 ^ k) a idx + 1 < 2 ^ k) :
    cdist (2 ^ k) a (nextIdx idx (2 ^ k)) = cdist (2 ^ k) a idx + 1 := by
  rw [nextIdx_eq hi]
  refine cdist_cnext ha fun hc => ?_
  unfold cnext cdist at *
  split_ifs at hc hd <;> omega

theorem hashed_exchange {entries : List (MHTEntry V)} {idx : ℕ} (hi : idx < entries.length)
    {there item : MHTItem V} (hs : slotAt entries idx = .full there)
    (hall : ∀ x ∈ slotItems entries, x.Hashed) (hitem : item.Hashed) :
    ∀ x ∈ slotItems (entries.set idx (.full item)), x.Hashed := by
  intro x hx
  have hp := items_exchange hi hs item
  rcases List.mem_cons.mp (hp.subset (List.mem_cons_of_mem _ hx)) with rfl | hx
  · exact hitem
  · exact hall x hx

/-- A walk with an item that was displaced never meets the key: an item with the hash of the
key is as far from home as the walk is long, the displaced item is not. -/
theorem mhtInsertLoop_displaced {key : CString} :
    ∀ fuel (entries : List (MHTEntry V)) item idx out, entries.length = 2 ^ k → idx < 2 ^ k →
      (∀ x ∈ slotItems entries, x.Hashed) → item.Hashed →
      cdist (2 ^ k) (itemHome (2 ^ k) item) idx <
        cdist (2 ^ k) (desiredPos (fnv1aHash key) (2 ^ k)) idx →
      cdist (2 ^ k) (desiredPos (fnv1aHash key) (2 ^ k)) idx + fuel ≤ 2 ^ k →
      mhtInsertLoop (2 ^ k) key fuel entries item item.hash idx
        (cdist (2 ^ k) (itemHome (2 ^ k) item) idx) ≠ some (out, none) := by
  intro fuel
  induction fuel with
  | zero =>
    intro entries item idx out _ _ _ _ _ _ h
    cases h
  | succ fuel ih =>
    intro entries item idx out hlen hi hall hitem hlt hroom h
    have hhome : ∀ x : MHTItem V, itemHome (2 ^ k) x < 2 ^ k := fun x => desiredPos_lt x.hash k
    have hkey : desiredPos (fnv1aHash key) (2 ^ k) < 2 ^ k := desiredPos_lt _ k
    unfold mhtInsertLoop at h
    split at h
    next there hs =>
      have hthere := hall there (mem_items_slotAt hs)
      split_ifs at h with hmet
      · obtain ⟨hhash, hname⟩ := hmet
        have hsame : itemHome (2 ^ k) item = desiredPos (fnv1aHash key) (2 ^ k) := by
          rw [itemHome, ← hhash, hthere, hname]
        rw [hsame] at hlt
        exact absurd hlt (lt_irrefl _)
      · cases fuel with
        | zero => dsimp only at h; split_ifs at h <;> cases h
        | succ fuel =>
          have hk1 := cdist_nextIdx hi hkey (by omega)
          dsimp only at h
          rw [probeDistance_eq] at h
          split_ifs at h with hex
          · have hd := cdist_nextIdx hi (hhome there) (by omega)
            rw [← hd] at h
            exact ih _ there _ out (by rw [List.length_set, hlen]) (nextIdx_lt hi)
              (hashed_exchange (by omega) hs hall hitem) hthere (by omega) (by omega) h
          · have hd := cdist_nextIdx hi (hhome item) (by omega)
            rw [← hd] at h
            exact ih _ item _ out hlen (nextIdx_lt hi) hall hitem (by omega) (by omega) h
    next => cases h

/-- An insertion that meets its key has changed nothing on the way. -/
theorem mhtInsertLoop_refused :
    ∀ fuel (entries : List (MHTEntry V)) item idx out, entries.length = 2 ^ k → idx < 2 ^ k →
      (∀ x ∈ slotItems entries, x.Hashed) → item.Hashed →
      cdist (2 ^ k) (itemHome (2 ^ k) item) idx + fuel ≤ 2 ^ k →
      mhtInsertLoop (2 ^ k) item.key fuel entries item item.hash idx
        (cdist (2 ^ k) (itemHome (2 ^ k) item) idx) = some (out, none) → out = entries := by
  intro fuel
  induction fuel with
  | zero =>
    intro entries item idx out _ _ _ _ _ h
    cases h
  | succ fuel ih =>
    intro entries item idx out hlen hi hall hitem hroom h
    have hhome : ∀ x : MHTItem V, itemHome (2 ^ k) x < 2 ^ k := fun x => desiredPos_lt x.hash k
    have hkey : desiredPos (fnv1aHash item.key) (2 ^ k) = itemHome (2 ^ k) item := by
      rw [itemHome, hitem]
    unfold mhtInsertLoop at h
    split at h
    next there hs =>
      have hthere := hall there (mem_items_slotAt hs)
      split_ifs at h with hmet
      · exact (Prod.mk.inj (Option.some.inj h)).1.symm
      · cases fuel with
        | zero => dsimp only at h; split_ifs at h <;> cases h
        | succ fuel =>
          have hk1 := cdist_nextIdx hi (hhome item) (by omega)
          dsimp only at h
          rw [probeDistance_eq] at h
          split_ifs at h with hex
          · have hd := cdist_nextIdx hi (hhome there) (by omega)
            rw [← hd] at h
            refine absurd h (mhtInsertLoop_displaced _ _ there _ out (by rw [List.length_set, hlen])
              (nextIdx_lt hi) (hashed_exchange (by omega) hs hall hitem) hthere ?_ ?_)
            · rw [hkey]
              omega
            · rw [hkey]
              omega
          · rw [← hk1] at h
            exact ih _ item _ out hlen (nextIdx_lt hi) hall hitem (by omega) h
    next => cases h

/-- An insertion that ends at a slot adds the item, wherever the others moved to. -/
theorem mhtInsertLoop_perm {key : CString} :
    ∀ fuel (entries : List (MHTEntry V)) item hash idx dist out last s, entries.length = 2 ^ k →
      idx < 2 ^ k → mhtInsertLoop (2 ^ k) key fuel entries item hash idx dist =
        some (out, some (last, s)) →
      out.length = 2 ^ k ∧ (slotItems (out.set s (.full last))).Perm (item :: slotItems entries) := by
  intro fuel
  induction fuel with
  | zero =>
    intro entries item hash idx dist out last s _ _ h
    cases h
  | succ fuel ih =>
    intro entries item hash idx dist out last s hlen hi h
    unfold mhtInsertLoop at h
    split at h
    next there hs =>
      dsimp only at h
      split_ifs at h
      · cases h
      · obtain ⟨hl, hp⟩ := ih _ _ _ _ _ _ _ _ (by rw [List.length_set, hlen]) (nextIdx_lt hi) h
        exact ⟨hl, hp.trans (items_exchange (by omega) hs item)⟩
      · exact ih _ _ _ _ _ _ _ _ hlen (nextIdx_lt hi) h
    next hs =>
      obtain ⟨rfl, rfl, rfl⟩ := by simpa using h
      exact ⟨hlen, items_place (by omega) (fun x hx => hs x hx) _⟩

variable {ht ht' : MetaHashTable V} {key : CString} {value : V} {r : Except Error Unit}

theorem mhtInsertGrown_items (hf : ht.Formed) (h : mhtInsertGrown ht key value = some (r, ht')) :
    ht'.Formed ∧ ((∃ e, r = .error e) ∧ ht' = ht ∨
      r = .ok () ∧ ht'.items.Perm (⟨key, fnv1aHash key, value⟩ :: ht.items)) := by
  obtain ⟨k, hk, hck⟩ := hf.pow
  have hlen : ht.entries.length = 2 ^ k := hf.length.trans hck
  have hhome : desiredPos (fnv1aHash key) (2 ^ k) < 2 ^ k := desiredPos_lt _ k
  unfold mhtInsertGrown at h
  dsimp only at h
  rw [hck] at h
  split at h
  next => cases h
  next entries hloop =>
    obtain ⟨rfl, rfl⟩ := by simpa using h
    have hsame : entries = ht.entries := by
      refine mhtInsertLoop_refused (2 ^ k) ht.entries ⟨key, fnv1aHash key, value⟩
        (desiredPos (fnv1aHash key) (2 ^ k)) entries hlen hhome hf.hashed rfl ?_ ?_
      · rw [itemHome, cdist_self]
        omega
      · rw [itemHome, cdist_self]
        exact hloop
    rw [hsame, ← hck]
    exact ⟨hf, Or.inl ⟨⟨_, rfl⟩, rfl⟩⟩
  next entries entry idx hloop =>
    obtain ⟨rfl, rfl⟩ := by simpa using h
    obtain ⟨hl, hp⟩ := mhtInsertLoop_perm _ _ _ _ _ _ _ _ _ hlen hhome hloop
    refine ⟨⟨⟨k, hk, rfl⟩, by rw [List.length_set]; exact hl, fun item hm => ?_⟩,
      Or.inr ⟨rfl, hp⟩⟩
    rcases List.mem_cons.mp (hp.subset hm) with rfl | hm
    · rfl
    · exact hf.hashed item hm

/-- An insertion that fails returns the table or its grown form; both hold the same items. -/
theorem mhtInsertHeap_items {heap : HeapGrants} (hf : ht.Formed)
    (h : mhtInsertHeap heap ht key value = some (r, ht')) :
    ht'.Formed ∧ ((∃ e, r = .error e) ∧ (ht' = ht ∨ mhtMaybeGrow ht = some ht') ∧
        ht'.items.Perm ht.items ∨
      r = .ok () ∧ ht'.items.Perm (⟨key, fnv1aHash key, value⟩ :: ht.items)) := by
  unfold mhtInsertHeap at h
  split at h
  next => cases h
  next e ht1 hg =>
    obtain ⟨rfl, rfl⟩ := by simpa using h
    obtain ⟨he, -⟩ | ⟨-, rfl⟩ := mhtMaybeGrowHeap_cases hg
    · cases he
    · exact ⟨hf, Or.inl ⟨⟨e, rfl⟩, Or.inl rfl, List.Perm.refl _⟩⟩
  next ht1 hg =>
    obtain ⟨-, hgrow⟩ | ⟨⟨e, he⟩, -⟩ := mhtMaybeGrowHeap_cases hg
    swap
    · cases he
    obtain ⟨hp, hf1⟩ := mhtMaybeGrow_items hf hgrow
    split_ifs at h
    · obtain ⟨hf', ⟨he, rfl⟩ | ⟨hr, hp'⟩⟩ := mhtInsertGrown_items hf1 h
      · exact ⟨hf', Or.inl ⟨he, Or.inr hgrow, hp⟩⟩
      · exact ⟨hf', Or.inr ⟨hr, hp'.trans (hp.cons _)⟩⟩
    · obtain ⟨rfl, rfl⟩ := by simpa using h
      exact ⟨hf1, Or.inl ⟨⟨_, rfl⟩, Or.inr hgrow, hp⟩⟩

theorem mhtRemove_formed (hf : ht.Formed) (key : CString) : (mhtRemove ht key).2.Formed := by
  unfold mhtRemove
  split
  · exact hf
  · refine ⟨hf.pow, by rw [List.length_set]; exact hf.length, fun item hm => ?_⟩
    rcases List.mem_or_eq_of_mem_set (mem_slotItems.mp hm) with hm | hm
    · exact hf.hashed item (mem_slotItems.mpr hm)
    · cases hm

theorem mhtCreate_formed {initialCapacity : ℕ} (h : mhtCreate V initialCapacity = some ht) :
    ht.Formed := by
  obtain ⟨cap, hcap, rfl⟩ := Option.map_eq_some_iff.mp h
  obtain ⟨k, -, hk, rfl⟩ := doubleUntil_pow 33 4 cap (by norm_num) hcap
  refine ⟨⟨k, hk, rfl⟩, List.length_replicate, fun item hm => ?_⟩
  rw [MetaHashTable.items, slotItems_replicate] at hm
  cases hm

end Items

end Umm
