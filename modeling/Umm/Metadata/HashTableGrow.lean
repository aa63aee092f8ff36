import Umm.Metadata.HashTableSpec

/-! The name table as a finite map, and why growing it keeps the map. -/
namespace Umm
open Umm.Lib

section Grow

variable {V : Type} {k : ℕ}

/-- The table under construction holds the items of the old entries `pre`. -/
structure Rehashed (k : ℕ) (pre entries : List (MHTEntry V)) (count : ℕ) : Prop where
  length : entries.length = 2 ^ k
  ordered : Ordered (2 ^ k) (itemHome (2 ^ k)) (slotAt entries)
  distinct : Distinct (2 ^ k) MHTItem.key (slotAt entries)
  live : ∀ j < 2 ^ k, (slotAt entries j).isDeleted = false
  content : ∀ z, (∃ j < 2 ^ k, slotAt entries j = .full z) ↔ Slot.full z ∈ pre
  count_eq : count = slotCount Slot.isFull (slotAt entries) (2 ^ k)

theorem slotAt_replicate (n j : ℕ) : slotAt (List.replicate n (Slot.empty : MHTEntry V)) j = .empty := by
  unfold slotAt
  rw [List.getD_eq_getElem?_getD, List.getElem?_replicate]
  split_ifs <;> rfl

theorem rehashed_nil (k : ℕ) :
    Rehashed k ([] : List (MHTEntry V)) (List.replicate (2 ^ k) .empty) 0 := by
  refine ⟨List.length_replicate, ?_, ?_, ?_, ?_, ?_⟩
  · intro i _ x hx
    rw [slotAt_replicate] at hx
    cases hx
  · intro i _ j _ x y hx
    rw [slotAt_replicate] at hx
    cases hx
  · intro j _
    rw [slotAt_replicate]
    rfl
  · intro z
    simp [slotAt_replicate]
  · refine (slotCount_eq_zero (fun j _ => ?_)).symm
    rw [slotAt_replicate]
    rfl

/-- One item of the old table moves. -/
theorem Rehashed.step {pre entries : List (MHTEntry V)} {count : ℕ} {item : MHTItem V}
    (h : Rehashed k pre entries count)
    (hf : Fresh (2 ^ k) MHTItem.key (slotAt entries) item.key) (hroom : count < 2 ^ k) :
    ∃ out, reinsertLoop (2 ^ k) (2 ^ k) entries item (desiredPos item.hash (2 ^ k)) 0 = some out ∧
      Rehashed k (pre ++ [.full item]) out (count + 1) := by
  have hdel : slotCount Slot.isDeleted (slotAt entries) (2 ^ k) = 0 := slotCount_eq_zero h.live
  have hempty : ∃ m < 2 ^ k, slotAt entries m = .empty := exists_empty (by
    rw [hdel, ← h.count_eq]
    exact hroom)
  have hhome : desiredPos item.hash (2 ^ k) < 2 ^ k := desiredPos_lt item.hash k
  obtain ⟨m, hm, hme⟩ := hempty
  obtain ⟨s, hs⟩ := exists_firstFree (c := 2 ^ k) (T := slotAt entries)
    (a := itemHome (2 ^ k) item) ⟨m, hm, by rw [hme]; rfl⟩
  have hsempty : slotAt entries s = .empty := by
    have h1 := hs.stop
    have h2 := h.live s hs.lt
    cases hT : slotAt entries s with
    | empty => rfl
    | deleted =>
      rw [hT] at h2
      exact Bool.noConfusion h2
    | full y =>
      rw [hT] at h1
      exact Bool.noConfusion h1
  have hcarry : Carry (2 ^ k) (itemHome (2 ^ k)) (slotAt entries) item
      (itemHome (2 ^ k) item) s := by
    refine ⟨hhome, fun x => desiredPos_lt x.hash k, h.ordered, PathOk.start _, hs,
      ⟨m, hm, hme⟩, ?_⟩
    intro j hj x hx hc
    exact absurd hsempty (h.ordered j hj x hx s hs.lt hc).1
  obtain ⟨out, he, hlen, hp⟩ := reinsertLoop_placed (2 ^ k) entries item
    (itemHome (2 ^ k) item) h.length hcarry (cdist_lt hhome hs.lt)
  rw [cdist_self] at he
  refine ⟨out, he, hlen, hp.ordered, hp.distinct h.distinct hf, ?_, ?_, ?_⟩
  · intro j hj
    by_cases hjs : j = s
    · subst hjs
      have hfull := hp.full
      cases hT : slotAt out j with
      | deleted =>
        rw [hT] at hfull
        exact Bool.noConfusion hfull
      | empty => rfl
      | full y => rfl
    · rw [(hp.shape j hjs).2]
      exact h.live j hj
  · intro z
    rw [hp.content z, h.content z, List.mem_append, List.mem_singleton, Slot.full.injEq]
    exact Or.comm
  · rw [(hp.filled hs.lt hs.stop).count_full, ← h.count_eq]

theorem slotAt_eq_full_iff {entries : List (MHTEntry V)} {j : ℕ} {x : MHTItem V} :
    slotAt entries j = .full x ↔ entries[j]? = some (.full x) := by
  unfold slotAt
  rw [List.getD_eq_getElem?_getD]
  cases entries[j]? with
  | none => simp
  | some e => simp

/-- Distinct keys in the slots are distinct keys in the list of entries. -/
theorem entries_distinct {entries : List (MHTEntry V)} {c : ℕ} (hlen : entries.length = c)
    (h : Distinct c MHTItem.key (slotAt entries)) (i j : ℕ) (x y : MHTItem V)
    (hx : entries[i]? = some (.full x)) (hy : entries[j]? = some (.full y))
    (hkey : x.key = y.key) : i = j := by
  have hi := (List.getElem?_eq_some_iff.mp hx).1
  have hj := (List.getElem?_eq_some_iff.mp hy).1
  rw [hlen] at hi hj
  exact h i hi j hj x y (slotAt_eq_full_iff.mpr hx) (slotAt_eq_full_iff.mpr hy) hkey

/-- All items of the old table move. -/
theorem reinsertAll_rehashed :
    ∀ (rest pre entries : List (MHTEntry V)) (count : ℕ), Rehashed k pre entries count →
      (∀ (i j : ℕ) (x y : MHTItem V), (pre ++ rest)[i]? = some (.full x) →
        (pre ++ rest)[j]? = some (.full y) → x.key = y.key → i = j) →
      count + (slotItems rest).length ≤ 2 ^ k → 2 ^ k < 2 ^ 32 →
      ∃ out n, reinsertAll (2 ^ k) rest entries count = some (out, n) ∧
        Rehashed k (pre ++ rest) out n ∧ n = count + (slotItems rest).length := by
  intro rest
  induction rest with
  | nil =>
    intro pre entries count h _ _ _
    refine ⟨entries, count, rfl, ?_, rfl⟩
    rw [List.append_nil]
    exact h
  | cons e rest ih =>
    intro pre entries count h hd hroom hlt
    have happ : pre ++ e :: rest = pre ++ [e] ++ rest := by simp
    cases e with
    | full item =>
      have hf : Fresh (2 ^ k) MHTItem.key (slotAt entries) item.key := by
        intro j hj x hx hk
        obtain ⟨a, ha⟩ := List.mem_iff_getElem?.mp ((h.content x).mp ⟨j, hj, hx⟩)
        have halt := (List.getElem?_eq_some_iff.mp ha).1
        have heq := hd a pre.length x item (by rw [List.getElem?_append_left halt]; exact ha)
          (by rw [List.getElem?_append_right le_rfl, Nat.sub_self]; rfl) hk
        omega
      rw [slotItems_cons_full, List.length_cons] at hroom ⊢
      obtain ⟨out, he, hr⟩ := h.step hf (by omega)
      obtain ⟨out', n, he', hr', hn⟩ := ih (pre ++ [.full item]) out (count + 1) hr
        (by rw [← happ]; exact hd) (by omega) hlt
      refine ⟨out', n, ?_, by rw [happ]; exact hr', by omega⟩
      rw [reinsertAll, he]
      dsimp only
      rw [u32_of_lt (by omega)]
      exact he'
    | empty =>
      have hr : Rehashed k (pre ++ [.empty]) entries count :=
        ⟨h.length, h.ordered, h.distinct, h.live, fun z => by rw [h.content z]; simp, h.count_eq⟩
      obtain ⟨out', n, he', hr', hn⟩ := ih _ entries count hr (by rw [← happ]; exact hd)
        hroom hlt
      exact ⟨out', n, he', by rw [happ]; exact hr', hn⟩
    | deleted =>
      have hr : Rehashed k (pre ++ [.deleted]) entries count :=
        ⟨h.length, h.ordered, h.distinct, h.live, fun z => by rw [h.content z]; simp, h.count_eq⟩
      obtain ⟨out', n, he', hr', hn⟩ := ih _ entries count hr (by rw [← happ]; exact hd)
        hroom hlt
      exact ⟨out', n, he', by rw [happ]; exact hr', hn⟩

end Grow

/-- The counters count the slots and leave one of them empty. -/
structure MetaHashTable.Counted {V : Type} (ht : MetaHashTable V) : Prop where
  pow : ∃ k, 4 ≤ k ∧ k ≤ 29 ∧ ht.capacity = 2 ^ k
  length : ht.entries.length = ht.capacity
  count_eq : ht.count = slotCount Slot.isFull (slotAt ht.entries) ht.capacity
  tombs_eq : ht.tombstones = slotCount Slot.isDeleted (slotAt ht.entries) ht.capacity
  load : ht.count + ht.tombstones < ht.capacity

section Counted

variable {V : Type} {ht : MetaHashTable V}

theorem MetaHashTable.Counted.capacity_le (h : ht.Counted) : ht.capacity ≤ 2 ^ 29 := by
  obtain ⟨k, -, hk29, hck⟩ := h.pow
  rw [hck]
  exact Nat.pow_le_pow_right (by norm_num) hk29

theorem MetaHashTable.Counted.exists_empty (h : ht.Counted) :
    ∃ s < ht.capacity, slotAt ht.entries s = .empty := by
  have hload := h.load
  rw [h.count_eq, h.tombs_eq] at hload
  exact Umm.Lib.exists_empty hload

/-- Below the bound the table has room for one more entry, or growing moves all its items into
twice the slots. -/
theorem MetaHashTable.Counted.grow_cases (h : ht.Counted) (hcap : ht.capacity < 2 ^ 29) :
    mhtMaybeGrow ht = some ht ∧ ht.count + ht.tombstones + 1 < ht.capacity ∨
      ∃ k, 4 ≤ k ∧ k ≤ 29 ∧ (slotItems ht.entries).length + 1 < 2 ^ k ∧
        mhtMaybeGrow ht = (reinsertAll (2 ^ k) ht.entries (List.replicate (2 ^ k) .empty) 0).map
          (fun r => { entries := r.1, capacity := 2 ^ k, count := r.2, tombstones := 0 }) := by
  obtain ⟨k, hk4, hk29, hck⟩ := h.pow
  have hload := h.load
  have h16 : 16 ≤ ht.capacity := by
    rw [hck]
    calc 16 = 2 ^ 4 := by norm_num
      _ ≤ 2 ^ k := Nat.pow_le_pow_right (by norm_num) hk4
  unfold mhtMaybeGrow
  dsimp only
  rw [u32_of_lt (show ht.capacity * 7 < 2 ^ 32 by omega),
    u32_of_lt (show ht.count + ht.tombstones < 2 ^ 32 by omega)]
  split_ifs with hfit hmin
  · exact Or.inl ⟨rfl, by omega⟩
  · rw [u32_of_lt (by omega)] at hmin
    unfold mhtMinCapacity at hmin
    omega
  · have hnew : u32 (ht.capacity * 2) = 2 ^ (k + 1) := by
      rw [u32_of_lt (by omega), hck, Nat.pow_succ]
    have hk : k + 1 ≤ 29 := by
      rw [hck] at hcap
      exact (Nat.pow_lt_pow_iff_right (by norm_num : 1 < 2)).mp hcap
    have hitems : (slotItems ht.entries).length ≤ ht.capacity := by
      rw [← h.length]
      exact List.length_filterMap_le _ _
    refine Or.inr ⟨k + 1, by omega, hk, ?_, ?_⟩
    · rw [Nat.pow_succ, ← hck]
      omega
    · rw [hnew]

/-- The table after its item in slot `j` was deleted. -/
theorem MetaHashTable.Counted.removed (h : ht.Counted) {j : ℕ} (hj : j < ht.capacity)
    {x : MHTItem V} (hx : slotAt ht.entries j = .full x) :
    (⟨ht.entries.set j .deleted, ht.capacity, u32 (ht.count + (2 ^ 32 - 1)),
      u32 (ht.tombstones + 1)⟩ : MetaHashTable V).Counted := by
  have hset : slotAt (ht.entries.set j .deleted) = Function.update (slotAt ht.entries) j .deleted :=
    slotAt_set _ (by rw [h.length]; exact hj)
  obtain ⟨hfull, hdel⟩ := slotCount_delete hj hx
  rw [← h.count_eq, ← hset] at hfull
  rw [← h.tombs_eq, ← hset] at hdel
  have hload := h.load
  have hcap := h.capacity_le
  have hcount : u32 (ht.count + (2 ^ 32 - 1)) + 1 = ht.count := by
    unfold u32
    omega
  have htombs : u32 (ht.tombstones + 1) = ht.tombstones + 1 := u32_of_lt (by omega)
  constructor
  · exact h.pow
  · rw [List.length_set]
    exact h.length
  · dsimp only
    omega
  · dsimp only
    omega
  · dsimp only
    omega

/-- The table after an item was placed in a slot that held none. -/
theorem MetaHashTable.Counted.placed (h : ht.Counted) {out : List (MHTEntry V)}
    (hlen : out.length = ht.capacity)
    (hfull : slotCount Slot.isFull (slotAt out) ht.capacity = ht.count + 1)
    (hdel : slotCount Slot.isDeleted (slotAt out) ht.capacity ≤ ht.tombstones)
    (hroom : ht.count + ht.tombstones + 1 < ht.capacity) :
    (⟨out, ht.capacity, u32 (ht.count + 1),
      slotCount Slot.isDeleted (slotAt out) ht.capacity⟩ : MetaHashTable V).Counted := by
  have hcap := h.capacity_le
  have hcount : u32 (ht.count + 1) = ht.count + 1 := u32_of_lt (by omega)
  constructor
  · exact h.pow
  · exact hlen
  · rw [hcount]
    exact hfull.symm
  · rfl
  · dsimp only
    omega

end Counted

/-- The table implements the map `m`: its probe paths are in order, its keys are distinct,
its counters are right and leave room, and it holds exactly the pairs of `m`. -/
structure MetaHashTable.Refines {V : Type} (ht : MetaHashTable V) (m : CString → Option V) :
    Prop where
  pow : ∃ k, 4 ≤ k ∧ k ≤ 29 ∧ ht.capacity = 2 ^ k
  length : ht.entries.length = ht.capacity
  ordered : Ordered ht.capacity (itemHome ht.capacity) (slotAt ht.entries)
  distinct : Distinct ht.capacity MHTItem.key (slotAt ht.entries)
  hashed : ∀ j < ht.capacity, ∀ x, slotAt ht.entries j = .full x → x.hash = fnv1aHash x.key
  count_eq : ht.count = slotCount Slot.isFull (slotAt ht.entries) ht.capacity
  tombs_eq : ht.tombstones = slotCount Slot.isDeleted (slotAt ht.entries) ht.capacity
  load : ht.count + ht.tombstones < ht.capacity
  content : ∀ key v, m key = some v ↔
    ∃ j < ht.capacity, ∃ x, slotAt ht.entries j = .full x ∧ x.key = key ∧ x.value = v

section Refines

variable {V : Type} {ht : MetaHashTable V} {m : CString → Option V}

theorem MetaHashTable.Refines.fresh_iff (h : ht.Refines m) (key : CString) :
    m key = none ↔ Fresh ht.capacity MHTItem.key (slotAt ht.entries) key := by
  constructor
  · intro hn j hj x hx hk
    have := (h.content key x.value).mpr ⟨j, hj, x, hx, hk, rfl⟩
    rw [hn] at this
    cases this
  · intro hf
    cases hm : m key with
    | none => rfl
    | some v =>
      obtain ⟨j, hj, x, hx, hk, -⟩ := (h.content key v).mp hm
      exact absurd hk (hf j hj x hx)

theorem MetaHashTable.Refines.counted (h : ht.Refines m) : ht.Counted :=
  ⟨h.pow, h.length, h.count_eq, h.tombs_eq, h.load⟩

/-- The entries of the list are those of the slots. -/
theorem MetaHashTable.Refines.mem_entries_iff (h : ht.Refines m) (z : MHTItem V) :
    Slot.full z ∈ ht.entries ↔ ∃ j < ht.capacity, slotAt ht.entries j = .full z := by
  rw [List.mem_iff_getElem?]
  constructor
  · rintro ⟨j, hj⟩
    have hlt := (List.getElem?_eq_some_iff.mp hj).1
    exact ⟨j, by rw [← h.length]; exact hlt, slotAt_eq_full_iff.mpr hj⟩
  · rintro ⟨j, -, hj⟩
    exact ⟨j, slotAt_eq_full_iff.mp hj⟩

/-- A larger table with the same entries is the same map. -/
theorem MetaHashTable.Refines.rehashed (h : ht.Refines m) {k n : ℕ} {out : List (MHTEntry V)}
    (hr : Rehashed k ht.entries out n) (hk4 : 4 ≤ k) (hk29 : k ≤ 29) (hroom : n + 1 < 2 ^ k) :
    (⟨out, 2 ^ k, n, 0⟩ : MetaHashTable V).Refines m := by
  refine ⟨⟨k, hk4, hk29, rfl⟩, hr.length, hr.ordered, hr.distinct, ?_, hr.count_eq,
    (slotCount_eq_zero hr.live).symm, ?_, ?_⟩
  · intro j hj x hx
    obtain ⟨i, hi, hix⟩ := (h.mem_entries_iff x).mp ((hr.content x).mp ⟨j, hj, hx⟩)
    exact h.hashed i hi x hix
  · dsimp only
    omega
  · intro key v
    rw [h.content key v]
    constructor
    · rintro ⟨i, hi, x, hx, hxk, hxv⟩
      obtain ⟨j, hj, hjx⟩ := (hr.content x).mpr ((h.mem_entries_iff x).mpr ⟨i, hi, hx⟩)
      exact ⟨j, hj, x, hjx, hxk, hxv⟩
    · rintro ⟨j, hj, x, hx, hxk, hxv⟩
      obtain ⟨i, hi, hix⟩ := (h.mem_entries_iff x).mp ((hr.content x).mp ⟨j, hj, hx⟩)
      exact ⟨i, hi, x, hix, hxk, hxv⟩

/-- Growing keeps the map and leaves room for one more entry. -/
theorem mhtMaybeGrow_refines (h : ht.Refines m) (hcap : ht.capacity < 2 ^ 29) :
    ∃ ht', mhtMaybeGrow ht = some ht' ∧ ht'.Refines m ∧
      ht'.count + ht'.tombstones + 1 < ht'.capacity := by
  rcases h.counted.grow_cases hcap with ⟨hg, hroom⟩ | ⟨k, hk4, hk29, hitems, hg⟩
  · exact ⟨ht, hg, h, hroom⟩
  · have hlt : 2 ^ k < 2 ^ 32 := Nat.pow_lt_pow_right (by norm_num) (by omega)
    obtain ⟨out, n, he, hr, hn⟩ := reinsertAll_rehashed ht.entries [] _ 0 (rehashed_nil k)
      (entries_distinct h.length h.distinct) (by omega) hlt
    rw [List.nil_append] at hr
    have hroom : n + 1 < 2 ^ k := by omega
    rw [hg, he]
    exact ⟨_, rfl, h.rehashed hr hk4 hk29 hroom, hroom⟩

end Refines

end Umm
