import Umm.Metadata.HashTableRuns

/-! Iteration over the name table, one call at a time, with removals and searches between the
calls: the keys that stay are returned exactly once. -/
namespace Umm
open Umm.Lib

/-- `MHTIterator`. -/
structure MHTIterator where
  idx : ℕ
deriving DecidableEq

def mhtIterator : MHTIterator := ⟨0⟩

section Calls

variable {V : Type}

def mhtExists (ht : MetaHashTable V) (key : CString) : Bool :=
  match mhtLookup ht key with
  | .ok _ => true
  | .error _ => false

def mhtCount (ht : MetaHashTable V) : ℕ := ht.count

/-- The loop of `mht_next` for the slots that are left. -/
def mhtNextLoop (entries : List (MHTEntry V)) :
    ℕ → ℕ → Except Error (CString × V) × MHTIterator
  | 0, idx => (.error .notFound, ⟨idx⟩)
  | r + 1, idx =>
    match slotAt entries idx with
    | .full there => (.ok (there.key, there.value), ⟨idx + 1⟩)
    | _ => mhtNextLoop entries r (idx + 1)

def mhtNext (ht : MetaHashTable V) (it : MHTIterator) :
    Except Error (CString × V) × MHTIterator :=
  mhtNextLoop ht.entries (ht.capacity - it.idx) it.idx

/-- What one call passes over: slots without an entry up to the entry returned, or up to the
end of the table. -/
theorem mhtNextLoop_cases (entries : List (MHTEntry V)) :
    ∀ r idx, (∃ j x, idx ≤ j ∧ j < idx + r ∧ slotAt entries j = .full x ∧
        (∀ l, idx ≤ l → l < j → ∀ y, slotAt entries l ≠ .full y) ∧
        mhtNextLoop entries r idx = (.ok (x.key, x.value), ⟨j + 1⟩)) ∨
      ((∀ l, idx ≤ l → l < idx + r → ∀ y, slotAt entries l ≠ .full y) ∧
        mhtNextLoop entries r idx = (.error .notFound, ⟨idx + r⟩)) := by
  intro r
  induction r with
  | zero =>
    intro idx
    exact Or.inr ⟨fun l hl hlt => absurd hlt (by omega), rfl⟩
  | succ r ih =>
    intro idx
    have hskip : (∀ y, slotAt entries idx ≠ .full y) →
        mhtNextLoop entries (r + 1) idx = mhtNextLoop entries r (idx + 1) := by
      intro hn
      rw [mhtNextLoop]
      split
      · rename_i there hs
        exact absurd hs (hn there)
      · rfl
    by_cases hf : ∃ y, slotAt entries idx = .full y
    · obtain ⟨y, hy⟩ := hf
      refine Or.inl ⟨idx, y, le_rfl, by omega, hy, fun l hl hlt => absurd hlt (by omega), ?_⟩
      rw [mhtNextLoop, hy]
    · have hn : ∀ y, slotAt entries idx ≠ .full y := fun y hy => hf ⟨y, hy⟩
      have hlow : ∀ l, idx ≤ l → ¬ idx + 1 ≤ l → ∀ y, slotAt entries l ≠ .full y := by
        intro l hl hlt
        obtain rfl : l = idx := by omega
        exact hn
      rcases ih (idx + 1) with ⟨j, x, hj, hjr, hx, hgap, he⟩ | ⟨hgap, he⟩
      · refine Or.inl ⟨j, x, by omega, by omega, hx, fun l hl hlt => ?_, by rw [hskip hn, he]⟩
        by_cases h1 : idx + 1 ≤ l
        · exact hgap l h1 hlt
        · exact hlow l hl h1
      · refine Or.inr ⟨fun l hl hlt => ?_, ?_⟩
        · by_cases h1 : idx + 1 ≤ l
          · exact hgap l h1 (by omega)
          · exact hlow l hl h1
        · rw [hskip hn, he]
          congr 2
          omega

end Calls

/-- A table that is being iterated over. -/
structure MhtIterState (V : Type) where
  table : MetaHashTable V
  map : CString → Option V
  iter : MHTIterator
  /-- What `mht_next` has returned so far. -/
  seen : List (CString × V)
  /-- The last call said that there are no more entries. -/
  done : Bool

inductive MhtIterOp where
  | next
  | remove (key : CString)
  | lookup (key : CString)

section Runs

variable {V : Type}

/-- An iteration begins over the table of `s`. -/
def MhtIterStart (s : MhtState V) (t : MhtIterState V) : Prop :=
  t = ⟨s.table, s.map, mhtIterator, [], false⟩

def mhtIterStep (s : MhtIterState V) : MhtIterOp → MhtIterState V
  | .next =>
    match mhtNext s.table s.iter with
    | (.ok p, iter) => { s with iter, seen := s.seen ++ [p], done := false }
    | (.error _, iter) => { s with iter, done := true }
  | .remove key =>
    { s with table := (mhtRemove s.table key).2, map := (specRemove s.map key).2 }
  | .lookup _ => s

inductive MhtIterStep : MhtIterState V → MhtIterOp → MhtIterState V → Prop
  | call {s : MhtIterState V} {op : MhtIterOp} : MhtIterStep s op (mhtIterStep s op)

/-- What every call keeps, for an iteration that began with the map `m`. -/
structure MhtIterInv (m : CString → Option V) (s : MhtIterState V) : Prop where
  refines : s.table.Refines s.map
  /-- Entries only go. -/
  shrinks : ∀ key v, s.map key = some v → m key = some v
  from_map : ∀ p ∈ s.seen, m p.1 = some p.2
  nodup : (s.seen.map Prod.fst).Nodup
  /-- The slots ahead hold none of the keys returned. -/
  ahead : ∀ j, s.iter.idx ≤ j → j < s.table.capacity → ∀ x, slotAt s.table.entries j = .full x →
    x.key ∉ s.seen.map Prod.fst
  /-- The slots behind hold only entries that were returned. -/
  behind : ∀ j, j < s.iter.idx → j < s.table.capacity → ∀ x, slotAt s.table.entries j = .full x →
    (x.key, x.value) ∈ s.seen
  done : s.done = true → s.table.capacity ≤ s.iter.idx

theorem mhtIterInv_start {s : MhtState V} {t : MhtIterState V} (h : s.table.Refines s.map)
    (ht : MhtIterStart s t) : MhtIterInv s.map t := by
  obtain rfl := ht
  refine ⟨h, fun _ _ h => h, ?_, List.nodup_nil, ?_, ?_, ?_⟩
  · intro p hp
    cases hp
  · intro j _ _ x _ hx
    cases hx
  · intro j hj
    exact absurd hj (Nat.not_lt_zero j)
  · intro hd
    cases hd

theorem MhtIterInv.next {m : CString → Option V} {s : MhtIterState V} (h : MhtIterInv m s) :
    MhtIterInv m (mhtIterStep s .next) := by
  rcases mhtNextLoop_cases s.table.entries (s.table.capacity - s.iter.idx) s.iter.idx with
    ⟨j, x, hj, hjr, hx, hgap, he⟩ | ⟨hgap, he⟩
  · have hjc : j < s.table.capacity := by omega
    have hstep : mhtIterStep s .next =
        { s with iter := ⟨j + 1⟩, seen := s.seen ++ [(x.key, x.value)], done := false } := by
      simp only [mhtIterStep, mhtNext, he]
    have hnew := h.ahead j hj hjc x hx
    rw [hstep]
    refine ⟨h.refines, h.shrinks, ?_, ?_, ?_, ?_, ?_⟩
    · intro p hp
      rcases List.mem_append.mp hp with hp | hp
      · exact h.from_map p hp
      · obtain rfl := List.mem_singleton.mp hp
        exact h.shrinks _ _ ((h.refines.content _ _).mpr ⟨j, hjc, x, hx, rfl, rfl⟩)
    · simp only [List.map_append, List.map_cons, List.map_nil]
      refine List.nodup_append.mpr ⟨h.nodup, List.nodup_singleton _, ?_⟩
      rintro a ha b hb rfl
      obtain rfl := List.mem_singleton.mp hb
      exact hnew ha
    · intro l hl hlc y hy hmem
      simp only [List.map_append, List.map_cons, List.map_nil] at hmem
      rcases List.mem_append.mp hmem with hmem | hmem
      · exact h.ahead l (by dsimp only at hl; omega) hlc y hy hmem
      · have hkey : y.key = x.key := List.mem_singleton.mp hmem
        have := h.refines.distinct l hlc j hjc y x hy hx hkey
        dsimp only at hl
        omega
    · intro l hl hlc y hy
      dsimp only at hl hy ⊢
      rcases lt_trichotomy l j with hlt | rfl | hgt
      · by_cases hli : l < s.iter.idx
        · exact List.mem_append_left _ (h.behind l hli hlc y hy)
        · exact absurd hy (hgap l (by omega) hlt y)
      · rw [hx] at hy
        obtain rfl := Slot.full.inj hy
        exact List.mem_append_right _ (List.mem_singleton_self _)
      · exact absurd hgt (by omega)
    · intro hd
      cases hd
  · have hstep : mhtIterStep s .next =
        { s with iter := ⟨s.iter.idx + (s.table.capacity - s.iter.idx)⟩, done := true } := by
      simp only [mhtIterStep, mhtNext, he]
    rw [hstep]
    refine ⟨h.refines, h.shrinks, h.from_map, h.nodup, ?_, ?_, ?_⟩
    · intro l hl hlc
      exact absurd hlc (by dsimp only at hl ⊢; omega)
    · intro l hl hlc y hy
      by_cases hli : l < s.iter.idx
      · exact h.behind l hli hlc y hy
      · exact absurd hy (hgap l (by omega) (by dsimp only at hl; omega) y)
    · intro _
      dsimp only
      omega

theorem mhtRemove_entries {ht : MetaHashTable V} {m : CString → Option V} (h : ht.Refines m)
    (key : CString) : (mhtRemove ht key).2.Refines (specRemove m key).2 ∧
      (mhtRemove ht key).2.capacity = ht.capacity ∧
      (∀ j x, slotAt (mhtRemove ht key).2.entries j = .full x → slotAt ht.entries j = .full x) ∧
      ∀ k v, (specRemove m key).2 k = some v → m k = some v := by
  cases hm : m key with
  | none =>
    have hspec : (specRemove m key).2 = m := by simp only [specRemove, hm]
    rw [mhtRemove_none h hm, hspec]
    exact ⟨h, rfl, fun _ _ hx => hx, fun _ _ hk => hk⟩
  | some v =>
    obtain ⟨j, hj, x, hx, hk, -⟩ := (h.content key v).mp hm
    refine ⟨by simpa only [specRemove, hm] using (mhtRemove_some h hm).2, ?_, ?_, ?_⟩
    · rw [mhtRemove, mhtFind_some h hj hx hk]
    · intro i y hy
      rw [mhtRemove, mhtFind_some h hj hx hk] at hy
      exact ((h.full_deleted_iff hj i y).mp hy).2
    · intro k v' hkv
      simp only [specRemove, hm] at hkv
      by_cases he : k = key
      · subst he
        rw [Function.update_self] at hkv
        cases hkv
      · rwa [Function.update_of_ne he] at hkv

theorem MhtIterInv.remove {m : CString → Option V} {s : MhtIterState V} (h : MhtIterInv m s)
    (key : CString) : MhtIterInv m (mhtIterStep s (.remove key)) := by
  obtain ⟨href, hcap, hleft, hmap⟩ := mhtRemove_entries h.refines key
  refine ⟨href, fun k v hk => h.shrinks k v (hmap k v hk), h.from_map, h.nodup, ?_, ?_, ?_⟩
  · intro j hj hjc x hx
    exact h.ahead j hj (by rw [← hcap]; exact hjc) x (hleft j x hx)
  · intro j hj hjc x hx
    exact h.behind j hj (by rw [← hcap]; exact hjc) x (hleft j x hx)
  · intro hd
    exact hcap.le.trans (h.done hd)

theorem mhtIterInv_run {s : MhtState V} (hs : s.table.Refines s.map) {t : MhtIterState V}
    (ht : Reach (MhtIterStart s) MhtIterStep t) : MhtIterInv s.map t := by
  refine ht.invariant (fun _ h0 => mhtIterInv_start hs h0) ?_
  rintro t op _ h ⟨⟩
  cases op with
  | next => exact h.next
  | remove key => exact h.remove key
  | lookup key => exact h

theorem MhtIterInv.complete {m : CString → Option V} {s : MhtIterState V} (h : MhtIterInv m s)
    (hd : s.done = true) {key : CString} {v : V} (hk : s.map key = some v) :
    (key, v) ∈ s.seen := by
  obtain ⟨j, hj, x, hx, rfl, rfl⟩ := (h.refines.content key v).mp hk
  exact h.behind j (hj.trans_le (h.done hd)) hj x hx

theorem MetaHashTable.Refines.count_keys {ht : MetaHashTable V} {m : CString → Option V}
    (h : ht.Refines m) (keys : Finset CString) (hkeys : ∀ key, key ∈ keys ↔ (m key).isSome) :
    mhtCount ht = keys.card := by
  have hcount := h.count_eq
  rw [slotCount_eq_card] at hcount
  rw [mhtCount, hcount]
  have hfull : ∀ j, (slotAt ht.entries j).isFull = true → ∃ x, slotAt ht.entries j = .full x := by
    intro j hj
    cases hx : slotAt ht.entries j with
    | full x => exact ⟨x, rfl⟩
    | empty => simp [hx, Slot.isFull] at hj
    | deleted => simp [hx, Slot.isFull] at hj
  refine Finset.card_bij (fun j _ => match slotAt ht.entries j with
    | .full x => x.key
    | _ => CString.ofBytes []) ?_ ?_ ?_
  · intro j hj
    obtain ⟨hjc, hjf⟩ := Finset.mem_filter.mp hj
    obtain ⟨x, hx⟩ := hfull j hjf
    simp only [hx]
    rw [hkeys, (h.content x.key x.value).mpr ⟨j, Finset.mem_range.mp hjc, x, hx, rfl, rfl⟩]
    rfl
  · intro i hi j hj he
    obtain ⟨hic, hif⟩ := Finset.mem_filter.mp hi
    obtain ⟨hjc, hjf⟩ := Finset.mem_filter.mp hj
    obtain ⟨x, hx⟩ := hfull i hif
    obtain ⟨y, hy⟩ := hfull j hjf
    simp only [hx, hy] at he
    exact h.distinct i (Finset.mem_range.mp hic) j (Finset.mem_range.mp hjc) x y hx hy he
  · intro key hkey
    obtain ⟨v, hv⟩ := Option.isSome_iff_exists.mp ((hkeys key).mp hkey)
    obtain ⟨j, hj, x, hx, hk, -⟩ := (h.content key v).mp hv
    refine ⟨j, Finset.mem_filter.mpr ⟨Finset.mem_range.mpr hj, by rw [hx]; rfl⟩, ?_⟩
    simp only [hx]
    exact hk

/-- Those of the entries returned that are still in the table are as many as it counts. -/
theorem MhtIterInv.count {m : CString → Option V} {s : MhtIterState V} (h : MhtIterInv m s)
    (hd : s.done = true) :
    mhtCount s.table = (s.seen.filter (fun p => (s.map p.1).isSome)).length := by
  have hnodup : ((s.seen.filter (fun p => (s.map p.1).isSome)).map Prod.fst).Nodup :=
    h.nodup.sublist (List.filter_sublist.map _)
  rw [h.refines.count_keys
    ((s.seen.filter (fun p => (s.map p.1).isSome)).map Prod.fst).toFinset ?_,
    List.toFinset_card_of_nodup hnodup, List.length_map]
  intro key
  rw [List.mem_toFinset, List.mem_map]
  constructor
  · rintro ⟨p, hp, rfl⟩
    exact (List.mem_filter.mp hp).2
  · intro hk
    obtain ⟨v, hv⟩ := Option.isSome_iff_exists.mp hk
    exact ⟨(key, v), List.mem_filter.mpr ⟨h.complete hd hv, hk⟩, rfl⟩

/-- Over a table that answers as a map, with removals and searches between the calls: no key is
returned twice, every pair returned was in the map when the iteration began, and when
`mht_next` says that it is done every pair that is left was returned, as many as `mht_count`
says. -/
theorem mhtIter_exact {s : MhtState V} (hs : Reach MhtInit (Guarded MhtState.Safe MhtStep) s)
    {t : MhtIterState V} (ht : Reach (MhtIterStart s) MhtIterStep t) :
    (t.seen.map Prod.fst).Nodup ∧ (∀ p ∈ t.seen, s.map p.1 = some p.2) ∧
      (∀ key, mhtExists t.table key = (t.map key).isSome) ∧
      (t.done = true → (∀ key v, t.map key = some v → (key, v) ∈ t.seen) ∧
        mhtCount t.table = (t.seen.filter (fun p => (t.map p.1).isSome)).length) := by
  have href : s.table.Refines s.map :=
    hs.invariant (P := fun s => s.table.Refines s.map) (fun _ h0 => mhtInit_refines h0)
      (fun _ _ _ hi hs => mhtStep_refines hi hs)
  have h := mhtIterInv_run href ht
  refine ⟨h.nodup, h.from_map, ?_, fun hd => ⟨fun key v hk => h.complete hd hk, h.count hd⟩⟩
  intro key
  unfold mhtExists
  cases hm : t.map key with
  | none => rw [mhtLookup_none h.refines hm]; rfl
  | some v => rw [mhtLookup_some h.refines hm]; rfl

/-- Two keys are inserted and returned; one of them is removed before the end. -/
theorem mhtIter_exact_two_keys :
    ∃ (s : MhtState ℕ) (t : MhtIterState ℕ),
      t.done = true ∧ t.seen.length = 2 ∧ mhtCount t.table = 1 ∧
      (t.seen.map Prod.fst).Nodup ∧ (∀ p ∈ t.seen, s.map p.1 = some p.2) ∧
      (∀ key, mhtExists t.table key = (t.map key).isSome) ∧
      (t.done = true → (∀ key v, t.map key = some v → (key, v) ∈ t.seen) ∧
        mhtCount t.table = (t.seen.filter (fun p => (t.map p.1).isSome)).length) := by
  let a : CString := CString.ofBytes [97]
  let q : CString := CString.ofBytes [113]
  let t0 : MetaHashTable ℕ := ⟨List.replicate 16 .empty, 16, 0, 0⟩
  let t1 := ((mhtInsert t0 a 1).map Prod.snd).getD t0
  let t2 := ((mhtInsert t1 q 2).map Prod.snd).getD t1
  let s1 : MhtState ℕ := ⟨t1, (specInsert (fun _ => none) a 1).2⟩
  let s2 : MhtState ℕ := ⟨t2, (specInsert s1.map q 2).2⟩
  have h0 : MhtInit ⟨t0, fun _ => none⟩ := .create (by decide +kernel : mhtCreate ℕ 16 = some t0)
    (by decide +kernel)
  have hsafe1 : (⟨t0, fun _ => none⟩ : MhtState ℕ).SafeKey a := by
    intro ht hg s _ j _ x hx
    rw [(by decide +kernel : mhtMaybeGrow t0 = some t0)] at hg
    obtain rfl := Option.some.inj hg
    change slotAt (List.replicate 16 .empty) j = .full x at hx
    rw [slotAt_replicate] at hx
    cases hx
  have hsafe2 : s1.SafeKey q := by
    intro ht hg s _ j hj x hx hcross
    rw [(by decide +kernel : mhtMaybeGrow t1 = some t1)] at hg
    obtain rfl := Option.some.inj hg
    rw [(by decide +kernel : t1.capacity = 16)] at hj hcross
    have hhome : ∀ j < 16, ((slotAt t1.entries j).item?.map
        (fun x => cdist 16 (itemHome 16 x) j)).getD 0 = 0 := by decide +kernel
    have hzero := hhome j hj
    rw [hx] at hzero
    have hlt : cdist 16 (itemHome 16 x) s < cdist 16 (itemHome 16 x) j := hcross
    change cdist 16 (itemHome 16 x) j = 0 at hzero
    omega
  have h1 : MhtStep ⟨t0, fun _ => none⟩ (.insert a 1) s1 :=
    .insert (by decide +kernel) (by decide +kernel : mhtInsert t0 a 1 = some (.ok (), t1))
  have h2 : MhtStep s1 (.insert q 2) s2 :=
    .insert (by decide +kernel) (by decide +kernel : mhtInsert t1 q 2 = some (.ok (), t2))
  have hrun : Reach MhtInit (Guarded MhtState.Safe MhtStep) s2 :=
    .next (.insert q 2) (.next (.insert a 1) (.start h0) ⟨hsafe1, h1⟩) ⟨hsafe2, h2⟩
  have hiter : Reach (MhtIterStart s2) MhtIterStep
      ([.next, .next, .remove a, .next].foldl mhtIterStep ⟨t2, s2.map, mhtIterator, [], false⟩) :=
    Reach.foldl (.start (show MhtIterStart s2 _ from rfl)) fun _ _ _ => MhtIterStep.call
  exact ⟨s2, _, by decide +kernel, by decide +kernel, by decide +kernel, mhtIter_exact hrun hiter⟩

end Runs

end Umm
