import Umm.Metadata.HashTableHeap
import Umm.Lib.Reach

/-! Why the probe loops of the name table end: the counters count the slots in every state
reached, and the growth threshold leaves a slot for every loop to stop at. Nothing is said of
the order of the probe paths, which a reused tombstone can break. -/
namespace Umm
open Umm.Lib

section Loops

variable {V : Type} {k : ℕ}

/-- The same slots are free, deleted or taken. -/
def SameShape (entries out : List (MHTEntry V)) : Prop :=
  ∀ j, (slotAt out j).isFull = (slotAt entries j).isFull ∧
    (slotAt out j).isDeleted = (slotAt entries j).isDeleted

theorem SameShape.refl (entries : List (MHTEntry V)) : SameShape entries entries :=
  fun _ => ⟨rfl, rfl⟩

theorem SameShape.trans {a b c : List (MHTEntry V)} (hab : SameShape a b) (hbc : SameShape b c) :
    SameShape a c := by
  intro j
  rw [(hbc j).1, (hbc j).2]
  exact hab j

theorem SameShape.exchange {entries : List (MHTEntry V)} {idx : ℕ} {there : MHTItem V}
    (hi : idx < entries.length) (hs : slotAt entries idx = .full there) (item : MHTItem V) :
    SameShape entries (entries.set idx (.full item)) := by
  intro j
  rw [slotAt_set _ hi]
  by_cases hj : j = idx
  · rw [hj, Function.update_self, hs]
    exact ⟨rfl, rfl⟩
  · rw [Function.update_of_ne hj]
    exact ⟨rfl, rfl⟩

theorem SameShape.count_full {entries out : List (MHTEntry V)} (h : SameShape entries out)
    (c : ℕ) : slotCount Slot.isFull (slotAt out) c = slotCount Slot.isFull (slotAt entries) c :=
  slotCount_congr fun j _ => (h j).1

theorem SameShape.count_deleted {entries out : List (MHTEntry V)} (h : SameShape entries out)
    (c : ℕ) :
    slotCount Slot.isDeleted (slotAt out) c = slotCount Slot.isDeleted (slotAt entries) c :=
  slotCount_congr fun j _ => (h j).2

theorem cdist_nextIdx_left {idx s : ℕ} (hi : idx < 2 ^ k) (hs : s < 2 ^ k) (hne : idx ≠ s) :
    cdist (2 ^ k) (nextIdx idx (2 ^ k)) s + 1 = cdist (2 ^ k) idx s := by
  rw [nextIdx_eq hi]
  exact cdist_cnext_left hi hs hne

/-- A walk over the items never comes to a slot that holds none. -/
theorem ne_of_free {entries : List (MHTEntry V)} {idx s : ℕ} {there : MHTItem V}
    (hfree : (slotAt entries s).isFull = false) (hs : slotAt entries idx = .full there) :
    idx ≠ s := by
  rintro rfl
  rw [hs] at hfree
  exact Bool.noConfusion hfree

/-- The loop of a rehash ends when some slot `s` holds no item, and fills one such slot. -/
theorem reinsertLoop_filled {s : ℕ} (hs : s < 2 ^ k) :
    ∀ fuel (entries : List (MHTEntry V)) item idx dist, entries.length = 2 ^ k → idx < 2 ^ k →
      (slotAt entries s).isFull = false → cdist (2 ^ k) idx s < fuel →
      ∃ out t, reinsertLoop (2 ^ k) fuel entries item idx dist = some out ∧
        out.length = 2 ^ k ∧ Filled (2 ^ k) (slotAt entries) (slotAt out) t := by
  intro fuel
  induction fuel with
  | zero =>
    intro entries item idx dist _ _ _ hf
    exact absurd hf (Nat.not_lt_zero _)
  | succ fuel ih =>
    intro entries item idx dist hlen hi hfree hf
    have hlt : idx < entries.length := by omega
    have hset : ∀ e, (entries.set idx e).length = 2 ^ k := fun e => by rw [List.length_set, hlen]
    unfold reinsertLoop
    cases hT : slotAt entries idx with
    | full there =>
      have hne := ne_of_free hfree hT
      have hstep := cdist_nextIdx_left hi hs hne
      dsimp only
      split_ifs
      · have hupd := slotAt_set (.full item) hlt
        obtain ⟨out, t, he, hl, hfill⟩ := ih (entries.set idx (.full item)) there
          (nextIdx idx (2 ^ k)) (probeDistance there.hash idx (2 ^ k) + 1) (hset _) (nextIdx_lt hi)
          (by rw [hupd, Function.update_of_ne (Ne.symm hne)]; exact hfree) (by omega)
        rw [hupd] at hfill
        exact ⟨out, t, he, hl, hfill.of_exchange hT⟩
      · exact ih entries item _ _ hlen (nextIdx_lt hi) hfree (by omega)
    | empty =>
      refine ⟨_, idx, rfl, hset _, ?_⟩
      rw [slotAt_set _ hlt]
      exact Filled.place hi (by rw [hT]; rfl) item
    | deleted =>
      refine ⟨_, idx, rfl, hset _, ?_⟩
      rw [slotAt_set _ hlt]
      exact Filled.place hi (by rw [hT]; rfl) item

theorem reinsertLoop_stuck :
    ∀ fuel (entries : List (MHTEntry V)) item idx dist, entries.length = 2 ^ k → idx < 2 ^ k →
      (∀ j < 2 ^ k, (slotAt entries j).isFull = true) →
      reinsertLoop (2 ^ k) fuel entries item idx dist = none := by
  intro fuel
  induction fuel with
  | zero =>
    intro entries item idx dist _ _ _
    rfl
  | succ fuel ih =>
    intro entries item idx dist hlen hi hfull
    have hthere := hfull idx hi
    unfold reinsertLoop
    cases hT : slotAt entries idx with
    | full there =>
      dsimp only
      split_ifs
      · refine ih _ there _ _ (by rw [List.length_set, hlen]) (nextIdx_lt hi) fun j hj => ?_
        rw [(SameShape.exchange (by omega) hT item j).1]
        exact hfull j hj
      · exact ih entries item _ _ hlen (nextIdx_lt hi) hfull
    | empty =>
      rw [hT] at hthere
      exact Bool.noConfusion hthere
    | deleted =>
      rw [hT] at hthere
      exact Bool.noConfusion hthere

/-- The fuel of the loop is enough: when it finds no slot there is none to find. -/
theorem reinsertLoop_eq_none_iff {entries : List (MHTEntry V)} (hlen : entries.length = 2 ^ k)
    (item : MHTItem V) {idx : ℕ} (hi : idx < 2 ^ k) (dist : ℕ) :
    reinsertLoop (2 ^ k) (2 ^ k) entries item idx dist = none ↔
      ∀ fuel, reinsertLoop (2 ^ k) fuel entries item idx dist = none := by
  constructor
  · intro h fuel
    refine reinsertLoop_stuck fuel entries item idx dist hlen hi fun s hs => ?_
    by_contra hfree
    obtain ⟨out, -, he, -⟩ := reinsertLoop_filled hs (2 ^ k) entries item idx dist hlen hi
      (by simpa using hfree) (cdist_lt hi hs)
    rw [he] at h
    cases h
  · intro h
    exact h (2 ^ k)

/-- The loop of an insertion ends when some slot `s` holds no item, at the key or at such a
slot. -/
theorem mhtInsertLoop_ends {key : CString} {s : ℕ} (hs : s < 2 ^ k) :
    ∀ fuel (entries : List (MHTEntry V)) item hash idx dist, entries.length = 2 ^ k →
      idx < 2 ^ k → (slotAt entries s).isFull = false → cdist (2 ^ k) idx s < fuel →
      ∃ out r, mhtInsertLoop (2 ^ k) key fuel entries item hash idx dist = some (out, r) ∧
        out.length = 2 ^ k ∧ SameShape entries out ∧
        ∀ last t, r = some (last, t) → t < 2 ^ k ∧ (slotAt out t).isFull = false := by
  intro fuel
  induction fuel with
  | zero =>
    intro entries item hash idx dist _ _ _ hf
    exact absurd hf (Nat.not_lt_zero _)
  | succ fuel ih =>
    intro entries item hash idx dist hlen hi hfree hf
    have hstop : (slotAt entries idx).isFull = false →
        ∃ out r, some (entries, some (item, idx)) = some (out, r) ∧ out.length = 2 ^ k ∧
          SameShape entries out ∧
          ∀ last t, r = some (last, t) → t < 2 ^ k ∧ (slotAt out t).isFull = false := by
      intro hidx
      refine ⟨entries, some (item, idx), rfl, hlen, .refl entries, ?_⟩
      rintro last t ⟨⟩
      exact ⟨hi, hidx⟩
    unfold mhtInsertLoop
    cases hT : slotAt entries idx with
    | full there =>
      have hne := ne_of_free hfree hT
      have hstep := cdist_nextIdx_left hi hs hne
      dsimp only
      split_ifs
      · exact ⟨entries, none, rfl, hlen, .refl entries, fun _ _ hr => by cases hr⟩
      · have hshape := SameShape.exchange (by omega) hT item
        obtain ⟨out, r, he, hl, hsame, hr⟩ := ih (entries.set idx (.full item)) there there.hash
          (nextIdx idx (2 ^ k)) (probeDistance there.hash idx (2 ^ k) + 1)
          (by rw [List.length_set, hlen]) (nextIdx_lt hi) (by rw [(hshape s).1]; exact hfree)
          (by omega)
        exact ⟨out, r, he, hl, hshape.trans hsame, hr⟩
      · exact ih entries item hash _ _ hlen (nextIdx_lt hi) hfree (by omega)
    | empty => exact hstop (by rw [hT]; rfl)
    | deleted => exact hstop (by rw [hT]; rfl)

theorem mhtSearch_full {entries : List (MHTEntry V)} {key : CString} {hash : UInt32} :
    ∀ r idx dist j, idx < 2 ^ k → mhtSearch entries (2 ^ k) key hash r idx dist = some j →
      j < 2 ^ k ∧ ∃ x, slotAt entries j = .full x := by
  intro r
  induction r with
  | zero =>
    intro idx dist j _ h
    cases h
  | succ r ih =>
    intro idx dist j hi h
    unfold mhtSearch at h
    cases hT : slotAt entries idx with
    | empty =>
      rw [hT] at h
      cases h
    | deleted =>
      rw [hT] at h
      exact ih _ _ j (nextIdx_lt hi) h
    | full there =>
      rw [hT] at h
      dsimp only at h
      split_ifs at h
      · obtain rfl := Option.some.inj h
        exact ⟨hi, there, hT⟩
      · exact ih _ _ j (nextIdx_lt hi) h

/-- A search with an empty slot before it comes to its end by itself: more steps change
nothing. -/
theorem mhtSearch_ends {entries : List (MHTEntry V)} {key : CString} {hash : UInt32} {e : ℕ}
    (he : e < 2 ^ k) (hempty : slotAt entries e = .empty) (more : ℕ) :
    ∀ r idx dist, idx < 2 ^ k → cdist (2 ^ k) idx e < r →
      mhtSearch entries (2 ^ k) key hash (r + more) idx dist =
        mhtSearch entries (2 ^ k) key hash r idx dist := by
  intro r
  induction r with
  | zero =>
    intro idx dist _ h
    exact absurd h (Nat.not_lt_zero _)
  | succ r ih =>
    intro idx dist hi h
    rw [Nat.succ_add]
    by_cases hie : idx = e
    · unfold mhtSearch
      rw [hie, hempty]
    · have hstep := cdist_nextIdx_left hi he hie
      have hrest := ih (nextIdx idx (2 ^ k)) (dist + 1) (nextIdx_lt hi) (by omega)
      unfold mhtSearch
      rw [hrest]

/-- The table under construction has no tombstone and its items are counted. -/
structure Rebuilt (k : ℕ) (entries : List (MHTEntry V)) (count : ℕ) : Prop where
  length : entries.length = 2 ^ k
  count_eq : count = slotCount Slot.isFull (slotAt entries) (2 ^ k)
  live : slotCount Slot.isDeleted (slotAt entries) (2 ^ k) = 0

theorem rebuilt_nil (k : ℕ) : Rebuilt k (List.replicate (2 ^ k) (.empty : MHTEntry V)) 0 := by
  have hr := rehashed_nil (V := V) k
  exact ⟨hr.length, hr.count_eq, slotCount_eq_zero hr.live⟩

/-- Every loop of a rehash ends when the new table has room for all items. -/
theorem reinsertAll_ends (hk : k < 32) :
    ∀ (old entries : List (MHTEntry V)) count, Rebuilt k entries count →
      count + (slotItems old).length ≤ 2 ^ k →
      ∃ out n, reinsertAll (2 ^ k) old entries count = some (out, n) ∧ Rebuilt k out n ∧
        n = count + (slotItems old).length := by
  have hpow : 2 ^ k < 2 ^ 32 := Nat.pow_lt_pow_right (by norm_num) hk
  intro old
  induction old with
  | nil =>
    intro entries count h _
    exact ⟨entries, count, rfl, h, rfl⟩
  | cons slot old ih =>
    intro entries count h hroom
    cases slot with
    | full item =>
      rw [slotItems_cons_full, List.length_cons] at hroom ⊢
      obtain ⟨s, hs, hse⟩ := exists_empty (T := slotAt entries) (c := 2 ^ k) (by
        rw [h.live, ← h.count_eq]
        omega)
      have hhome : desiredPos item.hash (2 ^ k) < 2 ^ k := desiredPos_lt item.hash k
      obtain ⟨out, t, he, hl, hfill⟩ := reinsertLoop_filled hs (2 ^ k) entries item
        (desiredPos item.hash (2 ^ k)) 0 h.length hhome (by rw [hse]; rfl) (cdist_lt hhome hs)
      have hcount := hfill.count_full
      have hdel := hfill.count_deleted
      rw [h.live] at hdel
      have hr : Rebuilt k out (count + 1) := ⟨hl, by rw [hcount, ← h.count_eq], by omega⟩
      obtain ⟨out', n, he', hr', hn⟩ := ih out (count + 1) hr (by omega)
      refine ⟨out', n, ?_, hr', by omega⟩
      rw [reinsertAll, he]
      dsimp only
      rw [u32_of_lt (by omega)]
      exact he'
    | empty => exact ih entries count h hroom
    | deleted => exact ih entries count h hroom

end Loops

/-- Growing ends and leaves a slot for the insertion to stop at, and the insertion ends. -/
structure MetaHashTable.InsertEnds {V : Type} (ht : MetaHashTable V) : Prop where
  grow : ∀ granted, ∃ r ht', mhtMaybeGrowHeap granted ht = some (r, ht') ∧
    ∃ s < ht'.capacity, (slotAt ht'.entries s).isFull = false
  insert : ∀ heap key value, ∃ r ht', mhtInsertHeap heap ht key value = some (r, ht')

/-- A slot is empty, and a search comes to its end within one round, whatever its bound. -/
structure MetaHashTable.SearchEnds {V : Type} (ht : MetaHashTable V) : Prop where
  empty : ∃ s < ht.capacity, slotAt ht.entries s = .empty
  search : ∀ key more, mhtSearch ht.entries ht.capacity key (fnv1aHash key) (ht.capacity + more)
      (desiredPos (fnv1aHash key) ht.capacity) 0 =
    mhtSearch ht.entries ht.capacity key (fnv1aHash key) ht.capacity
      (desiredPos (fnv1aHash key) ht.capacity) 0

section Counted

variable {V : Type} {ht ht' : MetaHashTable V} {key : CString} {value : V} {r : Except Error Unit}

theorem mhtMaybeGrow_counted (h : ht.Counted) (hcap : ht.capacity < 2 ^ 29) :
    ∃ ht', mhtMaybeGrow ht = some ht' ∧ ht'.Counted ∧
      ht'.count + ht'.tombstones + 1 < ht'.capacity := by
  rcases h.grow_cases hcap with ⟨hg, hroom⟩ | ⟨k, hk4, hk29, hitems, hg⟩
  · exact ⟨ht, hg, h, hroom⟩
  · obtain ⟨out, n, he, hr, hn⟩ := reinsertAll_ends (by omega) ht.entries _ 0 (rebuilt_nil k)
      (by omega)
    have hroom : n + 1 < 2 ^ k := by omega
    rw [hg, he]
    exact ⟨_, rfl, ⟨⟨k, hk4, hk29, rfl⟩, hr.length, hr.count_eq, hr.live.symm,
      (Nat.lt_succ_self n).trans hroom⟩, hroom⟩

theorem mhtInsertGrown_counted (h : ht.Counted) (hroom : ht.count + ht.tombstones + 1 < ht.capacity)
    (key : CString) (value : V) :
    ∃ r ht', mhtInsertGrown ht key value = some (r, ht') ∧ ht'.Counted := by
  obtain ⟨k, hk4, hk29, hck⟩ := h.pow
  obtain ⟨s, hs, hse⟩ := h.exists_empty
  have hcap := h.capacity_le
  have hhome : desiredPos (fnv1aHash key) (2 ^ k) < 2 ^ k := desiredPos_lt _ k
  obtain ⟨out, last?, he, hl, hsame, hlast⟩ : ∃ out last?, mhtInsertLoop ht.capacity key ht.capacity
      ht.entries ⟨key, fnv1aHash key, value⟩ (fnv1aHash key)
      (desiredPos (fnv1aHash key) ht.capacity) 0 = some (out, last?) ∧ out.length = ht.capacity ∧
      SameShape ht.entries out ∧
      ∀ last t, last? = some (last, t) → t < ht.capacity ∧ (slotAt out t).isFull = false := by
    have hlen := h.length
    rw [hck] at hs hlen ⊢
    exact mhtInsertLoop_ends hs _ _ _ _ _ _ hlen hhome (by rw [hse]; rfl) (cdist_lt hhome hs)
  have hfull := hsame.count_full ht.capacity
  have hdel := hsame.count_deleted ht.capacity
  rw [← h.count_eq] at hfull
  rw [← h.tombs_eq] at hdel
  unfold mhtInsertGrown
  dsimp only
  rw [he]
  cases last? with
  | none => exact ⟨_, _, rfl, ⟨k, hk4, hk29, hck⟩, hl, hfull.symm, hdel.symm, h.load⟩
  | some place =>
    obtain ⟨last, t⟩ := place
    obtain ⟨ht, hfree⟩ := hlast last t rfl
    have hfill := Filled.place ht hfree last
    have hfull' := hfill.count_full
    have hdel' := hfill.count_deleted
    rw [← slotAt_set (.full last) (by omega)] at hfull' hdel'
    rw [hfull] at hfull'
    rw [hdel] at hdel'
    have htombs := tombstonesAfter_eq (by omega) hdel'
    have hc := h.placed (by rw [List.length_set]; exact hl) hfull' (by omega) hroom
    rw [← htombs] at hc
    exact ⟨_, _, rfl, hc⟩

theorem mhtMaybeGrowHeap_counted (h : ht.Counted) (hcap : ht.capacity < 2 ^ 29) (granted : Bool) :
    ∃ r ht', mhtMaybeGrowHeap granted ht = some (r, ht') ∧ ht'.Counted ∧
      (r = .ok () → ht'.count + ht'.tombstones + 1 < ht'.capacity) := by
  obtain ⟨ht1, hg, h1, hroom⟩ := mhtMaybeGrow_counted h hcap
  cases granted with
  | true =>
    rw [mhtMaybeGrowHeap_granted, hg]
    exact ⟨_, _, rfl, h1, fun _ => hroom⟩
  | false =>
    unfold mhtMaybeGrowHeap
    by_cases hfit : u32 (ht.count + ht.tombstones) < u32 (ht.capacity * 7) / 10
    · unfold mhtMaybeGrow at hg
      dsimp only at hg
      rw [if_pos hfit] at hg ⊢
      obtain rfl := Option.some.inj hg
      exact ⟨_, _, rfl, h1, fun _ => hroom⟩
    · rw [if_neg hfit, if_neg Bool.false_ne_true]
      exact ⟨_, _, rfl, h, fun hr => by cases hr⟩

theorem mhtInsertHeap_counted (h : ht.Counted) (hcap : ht.capacity < 2 ^ 29) (heap : HeapGrants)
    (key : CString) (value : V) :
    ∃ r ht', mhtInsertHeap heap ht key value = some (r, ht') ∧ ht'.Counted := by
  obtain ⟨r, ht1, hg, h1, hroom⟩ := mhtMaybeGrowHeap_counted h hcap heap.entries
  unfold mhtInsertHeap
  rw [hg]
  cases r with
  | error e => exact ⟨_, _, rfl, h1⟩
  | ok u =>
    dsimp only
    split_ifs
    · exact mhtInsertGrown_counted h1 (hroom rfl) key value
    · exact ⟨_, _, rfl, h1⟩

theorem MetaHashTable.Counted.insertEnds (h : ht.Counted) (hcap : ht.capacity < 2 ^ 29) :
    ht.InsertEnds := by
  refine ⟨fun granted => ?_, fun heap key value => ?_⟩
  · obtain ⟨r, ht', hg, h', -⟩ := mhtMaybeGrowHeap_counted h hcap granted
    obtain ⟨s, hs, hse⟩ := h'.exists_empty
    exact ⟨r, ht', hg, s, hs, by rw [hse]; rfl⟩
  · obtain ⟨r, ht', hi, -⟩ := mhtInsertHeap_counted h hcap heap key value
    exact ⟨r, ht', hi⟩

theorem MetaHashTable.Counted.searchEnds (h : ht.Counted) : ht.SearchEnds := by
  refine ⟨h.exists_empty, fun key more => ?_⟩
  obtain ⟨s, hs, hse⟩ := h.exists_empty
  obtain ⟨k, -, -, hck⟩ := h.pow
  rw [hck] at hs ⊢
  have hhome : desiredPos (fnv1aHash key) (2 ^ k) < 2 ^ k := desiredPos_lt _ k
  exact mhtSearch_ends hs hse more _ _ _ hhome (cdist_lt hhome hs)

theorem mhtRemove_counted (h : ht.Counted) (key : CString) : (mhtRemove ht key).2.Counted := by
  obtain ⟨k, -, -, hck⟩ := h.pow
  unfold mhtRemove
  cases hfind : mhtFind ht key with
  | none => exact h
  | some j =>
    obtain ⟨hj, x, hx⟩ : j < ht.capacity ∧ ∃ x, slotAt ht.entries j = .full x := by
      unfold mhtFind at hfind
      rw [hck] at hfind ⊢
      exact mhtSearch_full _ _ _ _ (desiredPos_lt _ k) hfind
    exact h.removed hj hx

end Counted

section Runs

variable {V : Type}

inductive MhtCall (V : Type) where
  | insert (heap : HeapGrants) (key : CString) (value : V)
  | remove (key : CString)
  | lookup (key : CString)

def MhtCreated (ht : MetaHashTable V) : Prop :=
  ∃ initialCapacity, mhtCreate V initialCapacity = some ht ∧ ht.capacity < 2 ^ 29

/-- One call on the table. -/
inductive MhtCalled : MetaHashTable V → MhtCall V → MetaHashTable V → Prop
  | insert {ht ht' : MetaHashTable V} {heap : HeapGrants} {key : CString} {value : V}
      {r : Except Error Unit} : ht.capacity < 2 ^ 29 →
      mhtInsertHeap heap ht key value = some (r, ht') → MhtCalled ht (.insert heap key value) ht'
  | remove {ht : MetaHashTable V} {key : CString} : MhtCalled ht (.remove key) (mhtRemove ht key).2
  | lookup {ht : MetaHashTable V} {key : CString} : MhtCalled ht (.lookup key) ht

theorem mhtCreated_counted {ht : MetaHashTable V} (h : MhtCreated ht) : ht.Counted := by
  obtain ⟨initialCapacity, hc, hlt⟩ := h
  obtain ⟨cap, hcap, rfl⟩ := Option.map_eq_some_iff.mp hc
  obtain ⟨k, hk4, -, rfl⟩ := doubleUntil_pow 33 4 cap (by norm_num) hcap
  have hk29 : k ≤ 29 := ((Nat.pow_lt_pow_iff_right (by norm_num)).mp hlt).le
  have hr := rebuilt_nil (V := V) k
  exact ⟨⟨k, hk4, hk29, rfl⟩, hr.length, hr.count_eq, hr.live.symm, Nat.two_pow_pos k⟩

theorem mhtCalled_counted {ht ht' : MetaHashTable V} {call : MhtCall V} (h : ht.Counted)
    (hs : MhtCalled ht call ht') : ht'.Counted := by
  cases hs with
  | insert hcap hi =>
    obtain ⟨r', ht1, he, h1⟩ := mhtInsertHeap_counted h hcap _ _ _
    rw [hi] at he
    obtain ⟨-, rfl⟩ := Prod.mk.inj (Option.some.inj he)
    exact h1
  | @remove key => exact mhtRemove_counted h key
  | lookup => exact h

/-- In every state reached the counters count the slots, and every loop on the table ends. -/
theorem mhtRun_probing_ends {ht : MetaHashTable V} (h : Reach MhtCreated MhtCalled ht) :
    ht.Counted ∧ ht.SearchEnds ∧ (ht.capacity < 2 ^ 29 → ht.InsertEnds) := by
  have hc : ht.Counted := h.invariant (fun _ h0 => mhtCreated_counted h0)
    (fun _ _ _ hi hs => mhtCalled_counted hi hs)
  exact ⟨hc, hc.searchEnds, hc.insertEnds⟩

theorem mhtRun_probing_ends_removed :
    ∃ ht : MetaHashTable ℕ, ht.count = 0 ∧ ht.tombstones = 1 ∧
      ht.Counted ∧ ht.SearchEnds ∧ (ht.capacity < 2 ^ 29 → ht.InsertEnds) := by
  let a : CString := CString.ofBytes [97]
  let t0 : MetaHashTable ℕ := ⟨List.replicate 16 .empty, 16, 0, 0⟩
  let t1 := ((mhtInsertHeap .all t0 a 1).map Prod.snd).getD t0
  have h0 : MhtCreated t0 := ⟨16, by decide +kernel, by decide +kernel⟩
  have h1 : MhtCalled t0 (.insert .all a 1) t1 :=
    .insert (by decide +kernel) (by decide +kernel : mhtInsertHeap .all t0 a 1 = some (.ok (), t1))
  exact ⟨(mhtRemove t1 a).2, by decide +kernel, by decide +kernel,
    mhtRun_probing_ends (.next (.remove a) (.next _ (.start h0) h1) .remove)⟩

end Runs

end Umm
