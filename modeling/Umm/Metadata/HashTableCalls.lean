import Umm.Metadata.HashTableGrow

/-! Each call on a name table that implements a map, and when an insertion is safe. -/
namespace Umm
open Umm.Lib

section Calls

variable {V : Type} {ht : MetaHashTable V} {m : CString → Option V}

/-- An insertion of `key` into the grown table is safe. It stops at the first slot `s` from the
key's home that holds no entry. An entry whose probe path leads over `s` must not be the key
itself, and, unless the key is met before `s`, must be no farther from home at `s` than the key
and than every entry between the key's home and `s`. When `s` is empty no path leads over it. -/
def InsertSafe (ht : MetaHashTable V) (key : CString) : Prop :=
  let c := ht.capacity
  let T := slotAt ht.entries
  let a := desiredPos (fnv1aHash key) c
  ∀ s, FirstFree c T a s → ∀ j < c, ∀ x, T j = .full x → Crosses c (itemHome c) x j s →
    x.key ≠ key ∧
      ((∃ l < c, ∃ y, T l = .full y ∧ y.key = key ∧ cdist c a l < cdist c a s) ∨
        cdist c (itemHome c x) s ≤ cdist c a s ∧
          ∀ l < c, ∀ y, T l = .full y → cdist c a l < cdist c a s →
            cdist c (itemHome c x) s ≤ cdist c (itemHome c y) s)

theorem mhtFind_some (h : ht.Refines m) {key : CString} {j : ℕ} (hj : j < ht.capacity)
    {x : MHTItem V} (hx : slotAt ht.entries j = .full x) (hk : x.key = key) :
    mhtFind ht key = some j := by
  obtain ⟨k, -, -, hck⟩ := h.pow
  have hord := h.ordered
  have hdis := h.distinct
  have hhash := h.hashed j hj x hx
  rw [hck] at hj hord hdis
  have hlt := cdist_lt (desiredPos_lt x.hash k) hj
  have hfound := mhtSearch_found hord hdis hj hx (2 ^ k + 1) (itemHome (2 ^ k) x)
    (desiredPos_lt x.hash k) (by rw [cdist_self]; omega) (by
      rw [cdist_self]
      unfold itemHome
      omega)
  rw [cdist_self] at hfound
  unfold mhtFind
  rw [hck, ← hk, ← hhash]
  exact hfound

theorem mhtFind_none (h : ht.Refines m) {key : CString} (hm : m key = none) :
    mhtFind ht key = none := by
  have hf := (h.fresh_iff key).mp hm
  obtain ⟨k, -, -, hck⟩ := h.pow
  unfold mhtFind
  rw [hck] at hf ⊢
  exact mhtSearch_missing hf _ _ _ (desiredPos_lt _ k)

theorem mhtLookup_some (h : ht.Refines m) {key : CString} {v : V} (hm : m key = some v) :
    mhtLookup ht key = .ok v := by
  obtain ⟨j, hj, x, hx, hk, rfl⟩ := (h.content key v).mp hm
  unfold mhtLookup
  rw [mhtFind_some h hj hx hk]
  simp only [hx]

theorem mhtLookup_none (h : ht.Refines m) {key : CString} (hm : m key = none) :
    mhtLookup ht key = .error .notFound := by
  unfold mhtLookup
  rw [mhtFind_none h hm]

/-- The entries that are left when one slot is deleted. -/
theorem MetaHashTable.Refines.full_deleted_iff (h : ht.Refines m) {j : ℕ} (hj : j < ht.capacity)
    (i : ℕ) (y : MHTItem V) :
    slotAt (ht.entries.set j .deleted) i = .full y ↔ i ≠ j ∧ slotAt ht.entries i = .full y := by
  rw [slotAt_set _ (by rw [h.length]; exact hj)]
  by_cases hij : i = j
  · simp [hij]
  · simp [hij]

/-- Removing a key that is mapped leaves a tombstone and unmaps it. -/
theorem mhtRemove_some (h : ht.Refines m) {key : CString} {v : V} (hm : m key = some v) :
    (mhtRemove ht key).1 = .ok () ∧ (mhtRemove ht key).2.Refines (Function.update m key none) := by
  obtain ⟨j, hj, x, hx, hk, -⟩ := (h.content key v).mp hm
  have hset : slotAt (ht.entries.set j .deleted) = Function.update (slotAt ht.entries) j .deleted :=
    slotAt_set _ (by rw [h.length]; exact hj)
  have hleft := h.full_deleted_iff hj
  have hc := h.counted.removed hj hx
  unfold mhtRemove
  rw [mhtFind_some h hj hx hk]
  refine ⟨rfl, hc.pow, hc.length, ?_, ?_, ?_, hc.count_eq, hc.tombs_eq, hc.load, ?_⟩
  · dsimp only
    rw [hset]
    exact h.ordered.delete
  · intro a ha b hb y z hy hz hyz
    exact h.distinct a ha b hb y z ((hleft a y).mp hy).2 ((hleft b z).mp hz).2 hyz
  · intro a ha y hy
    exact h.hashed a ha y ((hleft a y).mp hy).2
  · intro key' v'
    simp only [hleft]
    by_cases hkk : key' = key
    · subst hkk
      rw [Function.update_self]
      constructor
      · intro hc
        cases hc
      · rintro ⟨i, hi, y, ⟨hij, hy⟩, hyk, -⟩
        exact absurd (h.distinct i hi j hj y x hy hx (by rw [hyk, hk])) hij
    · rw [Function.update_of_ne hkk, h.content key' v']
      constructor
      · rintro ⟨i, hi, y, hy, hyk, hyv⟩
        have hij : i ≠ j := by
          rintro rfl
          rw [hx] at hy
          obtain rfl := Slot.full.inj hy
          exact hkk (by rw [← hyk, hk])
        exact ⟨i, hi, y, ⟨hij, hy⟩, hyk, hyv⟩
      · rintro ⟨i, hi, y, ⟨-, hy⟩, hyk, hyv⟩
        exact ⟨i, hi, y, hy, hyk, hyv⟩

theorem mhtRemove_none (h : ht.Refines m) {key : CString} (hm : m key = none) :
    mhtRemove ht key = (.error .notFound, ht) := by
  unfold mhtRemove
  rw [mhtFind_none h hm]

private theorem exists_stop (h : ht.Refines m) (a : ℕ) :
    (∃ e < ht.capacity, slotAt ht.entries e = .empty) ∧
      ∃ s, FirstFree ht.capacity (slotAt ht.entries) a s := by
  obtain ⟨e, he, hee⟩ := h.counted.exists_empty
  exact ⟨⟨e, he, hee⟩, exists_firstFree ⟨e, he, by rw [hee]; rfl⟩⟩

/-- A safe insertion of a key that is mapped is refused and changes nothing. -/
theorem mhtInsertGrown_some (h : ht.Refines m) {key : CString} {v : V} (value : V)
    (hm : m key = some v) (hs : InsertSafe ht key) :
    mhtInsertGrown ht key value = some (.error .alreadyExists, ht) := by
  obtain ⟨j, hj, x, hx, hk, -⟩ := (h.content key v).mp hm
  obtain ⟨k, -, -, hck⟩ := h.pow
  have hhash := h.hashed j hj x hx
  have hhome : itemHome ht.capacity x = desiredPos (fnv1aHash key) ht.capacity := by
    unfold itemHome
    rw [hhash, hk]
  obtain ⟨-, s, hfree⟩ := exists_stop h (itemHome ht.capacity x)
  have hnot : ¬ Crosses ht.capacity (itemHome ht.capacity) x j s := fun hc =>
    (hs s (by rw [← hhome]; exact hfree) j hj x hx hc).1 hk
  have hjs : j ≠ s := by
    rintro rfl
    have := hfree.stop
    rw [hx] at this
    exact Bool.noConfusion this
  have hord := h.ordered
  have hdis := h.distinct
  unfold Crosses at hnot
  rw [hck] at hj hord hdis hfree hnot
  have hhl : itemHome (2 ^ k) x < 2 ^ k := desiredPos_lt x.hash k
  have hbefore : cdist (2 ^ k) (itemHome (2 ^ k) x) j < cdist (2 ^ k) (itemHome (2 ^ k) x) s := by
    have hne : cdist (2 ^ k) (itemHome (2 ^ k) x) j ≠ cdist (2 ^ k) (itemHome (2 ^ k) x) s :=
      fun heq => hjs (cdist_inj hhl hj hfree.lt heq)
    omega
  have hlt := cdist_lt hhl hj
  have hmet := mhtInsertLoop_met hord hdis hj hx ⟨key, fnv1aHash key, value⟩
    (fun l hl hlj => hfree.before l hl (hlj.trans hbefore)) (2 ^ k) (itemHome (2 ^ k) x) hhl
    (by rw [cdist_self]; omega) (by rw [cdist_self]; omega)
  rw [cdist_self] at hmet
  unfold mhtInsertGrown
  dsimp only
  unfold itemHome at hmet
  rw [hk, hhash, hk] at hmet
  rw [hck, hmet]
  dsimp only
  rw [← hck]

/-- The table after an item with a new key was placed. -/
theorem MetaHashTable.Refines.placed (h : ht.Refines m) {out : List (MHTEntry V)}
    {item : MHTItem V} {s : ℕ} (hlen : out.length = ht.capacity) (hs : s < ht.capacity)
    (hstop : (slotAt ht.entries s).isFull = false)
    (hp : Placed ht.capacity (itemHome ht.capacity) MHTItem.key (slotAt ht.entries) item
      (slotAt out) s)
    (hhash : item.hash = fnv1aHash item.key)
    (hf : Fresh ht.capacity MHTItem.key (slotAt ht.entries) item.key)
    (hroom : ht.count + ht.tombstones + 1 < ht.capacity) :
    (⟨out, ht.capacity, u32 (ht.count + 1),
      slotCount Slot.isDeleted (slotAt out) ht.capacity⟩ : MetaHashTable V).Refines
        (Function.update m item.key (some item.value)) := by
  have hfull := (hp.filled hs hstop).count_full
  have hdel := (hp.filled hs hstop).count_deleted
  rw [← h.count_eq] at hfull
  rw [← h.tombs_eq] at hdel
  have hc := h.counted.placed hlen hfull (by omega) hroom
  refine ⟨hc.pow, hlen, hp.ordered, hp.distinct h.distinct hf, ?_, hc.count_eq, rfl, hc.load, ?_⟩
  · intro j hj x hx
    rcases (hp.content x).mp ⟨j, hj, hx⟩ with rfl | ⟨i, hi, hix⟩
    · exact hhash
    · exact h.hashed i hi x hix
  · intro key v
    by_cases hkk : key = item.key
    · rw [hkk, Function.update_self]
      constructor
      · rintro ⟨⟩
        obtain ⟨j, hj, hx⟩ := (hp.content item).mpr (Or.inl rfl)
        exact ⟨j, hj, item, hx, rfl, rfl⟩
      · rintro ⟨j, hj, x, hx, hxk, hxv⟩
        rcases (hp.content x).mp ⟨j, hj, hx⟩ with rfl | ⟨i, hi, hix⟩
        · rw [hxv]
        · exact absurd hxk (hf i hi x hix)
    · rw [Function.update_of_ne hkk, h.content key v]
      constructor
      · rintro ⟨i, hi, x, hx, hxk, hxv⟩
        obtain ⟨j, hj, hjx⟩ := (hp.content x).mpr (Or.inr ⟨i, hi, hx⟩)
        exact ⟨j, hj, x, hjx, hxk, hxv⟩
      · rintro ⟨j, hj, x, hx, hxk, hxv⟩
        rcases (hp.content x).mp ⟨j, hj, hx⟩ with rfl | ⟨i, hi, hix⟩
        · exact absurd hxk.symm hkk
        · exact ⟨i, hi, x, hix, hxk, hxv⟩

/-- What a safe insertion carries from the home of a key that is not mapped. -/
private theorem carry_of_safe (h : ht.Refines m) {item : MHTItem V} {s : ℕ}
    (hhash : item.hash = fnv1aHash item.key)
    (hf : Fresh ht.capacity MHTItem.key (slotAt ht.entries) item.key)
    (hs : InsertSafe ht item.key)
    (hempty : ∃ e < ht.capacity, slotAt ht.entries e = .empty)
    (hfree : FirstFree ht.capacity (slotAt ht.entries) (itemHome ht.capacity item) s) :
    Carry ht.capacity (itemHome ht.capacity) (slotAt ht.entries) item
      (itemHome ht.capacity item) s := by
  obtain ⟨k, -, -, hck⟩ := h.pow
  have hhome : ∀ x : MHTItem V, itemHome ht.capacity x < ht.capacity := by
    intro x
    rw [hck]
    exact desiredPos_lt x.hash k
  have hitem : itemHome ht.capacity item = desiredPos (fnv1aHash item.key) ht.capacity := by
    rw [itemHome, hhash]
  refine ⟨hhome item, hhome, h.ordered, PathOk.start _, hfree, hempty, ?_⟩
  intro j hj x hx hc
  rw [hitem] at hfree ⊢
  rcases (hs s hfree j hj x hx hc).2 with ⟨l, hl, y, hy, hyk, -⟩ | hle
  · exact absurd hyk (hf l hl y hy)
  · exact hle

/-- The counter of tombstones after an item was placed. -/
theorem tombstonesAfter_eq {tombstones n : ℕ} {slot : MHTEntry V}
    (hlt : tombstones < 2 ^ 32)
    (h : n + (if slot.isDeleted then 1 else 0) = tombstones) :
    tombstonesAfter tombstones slot = n := by
  cases slot with
  | deleted =>
    simp only [Slot.isDeleted, if_true] at h
    simp only [tombstonesAfter, u32]
    omega
  | empty => exact h.symm
  | full y => exact h.symm

/-- A safe insertion of a key that is not mapped maps it. -/
theorem mhtInsertGrown_none (h : ht.Refines m) {key : CString} (value : V)
    (hm : m key = none) (hs : InsertSafe ht key)
    (hroom : ht.count + ht.tombstones + 1 < ht.capacity) :
    ∃ ht', mhtInsertGrown ht key value = some (.ok (), ht') ∧
      ht'.Refines (Function.update m key (some value)) := by
  have hf := (h.fresh_iff key).mp hm
  obtain ⟨k, hk4, hk29, hck⟩ := h.pow
  set item : MHTItem V := ⟨key, fnv1aHash key, value⟩ with hitem
  obtain ⟨hempty, s, hfree⟩ := exists_stop h (itemHome ht.capacity item)
  have hcarry : Carry ht.capacity (itemHome ht.capacity) (slotAt ht.entries) item
      (itemHome ht.capacity item) s := carry_of_safe h rfl hf hs hempty hfree
  have hplaced : ∃ out last, mhtInsertLoop ht.capacity key ht.capacity ht.entries item item.hash
        (itemHome ht.capacity item) 0 = some (out, some (last, s)) ∧
      out.length = ht.capacity ∧ slotAt out s = slotAt ht.entries s ∧
      Placed ht.capacity (itemHome ht.capacity) MHTItem.key (slotAt ht.entries) item
        (slotAt (out.set s (.full last))) s := by
    have hlen := h.length
    rw [hck] at hcarry hlen hf ⊢
    have hloop := mhtInsertLoop_placed key (2 ^ k) ht.entries item
      (itemHome (2 ^ k) item) hlen hcarry (fun j hj _ x hx => hf j hj x hx)
      (cdist_lt hcarry.lt hcarry.free.lt)
    rwa [cdist_self] at hloop
  obtain ⟨out, last, he, hlout, hstop, hp⟩ := hplaced
  have hlen' : (out.set s (.full last)).length = ht.capacity := by
    rw [List.length_set]
    exact hlout
  have hnew := h.placed hlen' hfree.lt hfree.stop hp rfl hf hroom
  have hdel := (hp.filled hfree.lt hfree.stop).count_deleted
  rw [← h.tombs_eq, ← hstop] at hdel
  have hcap := h.counted.capacity_le
  have hload := h.load
  have htombs := tombstonesAfter_eq (by omega) hdel
  refine ⟨_, ?_, hnew⟩
  unfold mhtInsertGrown
  dsimp only
  unfold itemHome at he
  rw [he]
  dsimp only
  rw [htombs]

/-- `mht_insert` against the map: the same answer, and a table for the new map. -/
theorem mhtInsert_refines (h : ht.Refines m) (hcap : ht.capacity < 2 ^ 29) (key : CString)
    (value : V) (hs : ∀ ht', mhtMaybeGrow ht = some ht' → InsertSafe ht' key) :
    (∀ v, m key = some v → ∃ ht', mhtInsert ht key value = some (.error .alreadyExists, ht') ∧
        ht'.Refines m) ∧
      (m key = none → ∃ ht', mhtInsert ht key value = some (.ok (), ht') ∧
        ht'.Refines (Function.update m key (some value))) := by
  obtain ⟨ht1, hg, h1, hroom⟩ := mhtMaybeGrow_refines h hcap
  unfold mhtInsert
  rw [hg, Option.bind_some]
  refine ⟨fun v hm => ⟨ht1, mhtInsertGrown_some h1 value hm (hs ht1 hg), h1⟩, fun hm => ?_⟩
  exact mhtInsertGrown_none h1 value hm (hs ht1 hg) hroom

end Calls

end Umm
