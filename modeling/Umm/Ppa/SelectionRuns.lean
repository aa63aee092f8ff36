import Umm.Ppa.Selection

/-! Whole runs of `select`: what every swap keeps, and what it does to the loads. -/
namespace Umm
open Umm.Lib

/-! Loads. -/

theorem mapM_lookup_isSome {κ ν : Type*} [DecidableEq κ] {d : Dict κ ν} {ids : List κ} :
    (ids.mapM fun t => d.lookup t).isSome ↔ ∀ t ∈ ids, (d.lookup t).isSome := by
  induction ids with
  | nil => simp
  | cons t ids ih =>
    cases ht : d.lookup t with
    | none => simp [ht]
    | some v =>
      cases hrest : ids.mapM fun t => d.lookup t with
      | none => simp_all
      | some rows => simp_all

theorem mapM_lookup_map {κ ν ξ : Type*} [DecidableEq κ] {d : Dict κ ν} {ids : List κ}
    {rows : List ν} (h : (ids.mapM fun t => d.lookup t) = some rows) (f : ν → ξ) (z : ξ) :
    rows.map f = ids.map fun t => ((d.lookup t).map f).getD z := by
  induction ids generalizing rows with
  | nil =>
    obtain rfl : [] = rows := by simpa using h
    rfl
  | cons t ids ih =>
    cases ht : d.lookup t with
    | none => simp [ht] at h
    | some v =>
      cases hrest : ids.mapM fun t => d.lookup t with
      | none => simp [ht, hrest] at h
      | some rest =>
        obtain rfl : v :: rest = rows := by simpa [ht, hrest] using h
        simp [ht, ih hrest]

theorem get_foldl_addEach (paths : List (List Resource)) (loads : Counter Resource)
    (k : Resource) :
    (paths.foldl (fun loads path => loads.addEach 1 path) loads).get k =
      loads.get k + (paths.map fun path => (path.count k : ℤ)).sum := by
  induction paths generalizing loads with
  | nil => simp
  | cons path paths ih =>
    rw [List.foldl_cons, ih, Counter.get_addEach, List.map_cons, List.sum_cons]
    ring

theorem pressure_isSome {info : Dict ℤ MappingRow} {ids : List ℤ} :
    (pressure info ids).isSome ↔ ∀ t ∈ ids, (info.lookup t).isSome := by
  rw [← mapM_lookup_isSome]
  unfold pressure
  cases ids.mapM fun t => info.lookup t <;> simp

namespace SelectData

variable {σ : Type}

/-- How many of the tokens use the resource. -/
def load (d : SelectData σ) (s : Finset ℤ) (k : Resource) : ℤ := ∑ t ∈ s, ((d.path t).count k : ℤ)

theorem get_pressure {d : SelectData σ} {ids : List ℤ} {loads : Counter Resource}
    (h : pressure d.info ids = some loads) (hids : ids.Nodup) (k : Resource) :
    loads.get k = d.load ids.toFinset k := by
  unfold pressure at h
  cases hrows : ids.mapM fun t => d.info.lookup t with
  | none => simp [hrows] at h
  | some rows =>
    obtain rfl : rows.foldl (fun loads row => loads.addEach 1 (resources row)) ∅ = loads := by
      simpa [hrows] using h
    have hfold : (rows.map resources).foldl (fun loads path => loads.addEach 1 path)
        (∅ : Counter Resource) = rows.foldl (fun loads row => loads.addEach 1 (resources row)) ∅ :=
      List.foldl_map
    rw [← hfold, get_foldl_addEach, mapM_lookup_map hrows resources [], List.map_map, load,
      List.sum_toFinset _ hids, Counter.get_empty, zero_add]
    rfl

end SelectData

/-- The value of `objective(pressure(...))` on a set of tokens, in whatever order they come. -/
def HasObjective (info : Dict ℤ MappingRow) (s : Finset ℤ) (v : ℤ) : Prop :=
  ∀ ids : List ℤ, ids.Nodup → ids.toFinset = s → (pressure info ids).map objective = some v

theorem hasObjective_of_load {σ : Type} {d : SelectData σ} {s : Finset ℤ}
    {loads : Counter Resource} (hinfo : ∀ t ∈ s, (d.info.lookup t).isSome)
    (hload : ∀ k, loads.get k = d.load s k) : HasObjective d.info s (objective loads) := by
  rintro ids hids rfl
  obtain ⟨found, hfound⟩ := Option.isSome_iff_exists.mp
    (pressure_isSome.mpr fun t ht => hinfo t (List.mem_toFinset.mpr ht))
  rw [hfound, Option.map_some]
  refine congrArg some (Counter.squares_congr fun k => ?_)
  rw [SelectData.get_pressure hfound hids, hload]

/-! One round. -/

section Round

variable {σ δ : Type} [LinearOrder σ] {diff : σ → σ → δ} {d : SelectData σ}

theorem mem_of_mem_removals {loads : Counter Resource} {removable : List ℤ} {t : ℤ}
    (h : t ∈ d.removals loads removable) : t ∈ removable :=
  mem_of_mem_groupValues (mem_sortBy.mp (List.mem_of_mem_take h))

theorem mem_of_mem_additions {loads : Counter Resource} {available : List ℤ} {t : ℤ}
    (h : t ∈ d.additions loads available) : t ∈ available :=
  mem_of_mem_groupValues (mem_sortBy.mp (List.mem_of_mem_take h))

omit [LinearOrder σ] in
/-- The loop over the pairs ends with the choice it had before or with one of the pairs. -/
theorem foldl_improve_some [LinearOrder δ] {loads : Counter Resource} {c : SwapChoice}
    {pairs : List (ℤ × ℤ)} {best : Option SwapChoice}
    (h : pairs.foldl (d.improve diff loads) best = some c) :
    best = some c ∨ ∃ pair ∈ pairs, c = d.swapOf loads pair.1 pair.2 ∧ c.delta < 0 := by
  induction pairs generalizing best with
  | nil => exact .inl h
  | cons pair pairs ih =>
    rcases ih h with hbest | ⟨pair', hpair', hc⟩
    · unfold SelectData.improve at hbest
      dsimp only at hbest
      split_ifs at hbest with hbetter
      · obtain rfl := Option.some.inj hbest
        exact .inr ⟨pair, List.mem_cons_self, rfl, hbetter.1⟩
      · exact .inl hbest
    · exact .inr ⟨pair', List.mem_cons_of_mem _ hpair', hc⟩

omit [LinearOrder σ] in
/-- The choice is one of the pairs, and lowers the sum of the squares. -/
theorem bestSwap_some [LinearOrder δ] {loads : Counter Resource} {removals additions : List ℤ} {c : SwapChoice}
    (h : d.bestSwap diff loads removals additions = some c) :
    c.old ∈ removals ∧ c.new ∈ additions ∧ c = d.swapOf loads c.old c.new ∧ c.delta < 0 := by
  rcases foldl_improve_some h with hnone | ⟨⟨old, new⟩, hpair, rfl, hdelta⟩
  · cases hnone
  · obtain ⟨hold, hnew⟩ := List.pair_mem_product.mp hpair
    exact ⟨hold, hnew, rfl, hdelta⟩

omit [LinearOrder σ] in
theorem get_swapOf (loads : Counter Resource) (old new : ℤ) (k : Resource) :
    (d.swapOf loads old new).change.get k = (d.path new).count k - (d.path old).count k := by
  have hchange : (d.swapOf loads old new).change =
      ((∅ : Counter Resource).addEach 1 (d.path new)).addEach (-1) (d.path old) := rfl
  rw [hchange, Counter.get_addEach, Counter.get_addEach, Counter.get_empty]
  ring

omit [LinearOrder σ] in
/-- `delta` is what the swap changes the objective by. -/
theorem objective_swap (loads : Counter Resource) (old new : ℤ) :
    objective (loads.update (d.swapOf loads old new).change) =
      objective loads + (d.swapOf loads old new).delta :=
  Counter.squares_update loads _

/-- A round that does not break the loop makes one swap. -/
theorem selectRound_some [LinearOrder δ] {order : SetOrder} {n : ℕ} {st st' : SelectState}
    (h : selectRound diff order d n st = some st') :
    ∃ old ∈ st.removable, ∃ new ∈ st.available,
      (d.swapOf st.loads old new).delta < 0 ∧ st' = st.swap (d.swapOf st.loads old new) := by
  unfold selectRound at h
  dsimp only at h
  obtain ⟨c, hc, rfl⟩ := Option.map_eq_some_iff.mp h
  obtain ⟨hold, hnew, heq, hdelta⟩ := bestSwap_some hc
  have hold' := (order.mem _ _ _).mp (mem_of_mem_removals hold)
  have hnew' := (order.mem _ _ _).mp (mem_of_mem_additions hnew)
  rw [heq] at hdelta
  exact ⟨c.old, hold', c.new, hnew', hdelta, by rw [← heq]⟩

theorem take_sortBy_ne_nil {α θ : Type*} [LinearOrder θ] {key : α → θ} {l : List α} (h : l ≠ []) :
    (sortBy key l).take 16 ≠ [] := by
  obtain ⟨a, ha⟩ := List.exists_mem_of_ne_nil l h
  have hne : sortBy key l ≠ [] := List.ne_nil_of_mem (mem_sortBy.mpr ha)
  rw [ne_eq, List.take_eq_nil_iff]
  rintro (h | h)
  · cases h
  · exact hne h

theorem removals_ne_nil (loads : Counter Resource) {removable : List ℤ} (h : removable ≠ []) :
    d.removals loads removable ≠ [] :=
  take_sortBy_ne_nil (groupValues_ne_nil h)

theorem additions_ne_nil (loads : Counter Resource) {available : List ℤ} (h : available ≠ []) :
    d.additions loads available ≠ [] :=
  take_sortBy_ne_nil (groupValues_ne_nil h)

omit [LinearOrder σ] in
/-- The loop over the pairs finds a choice if one of them lowers the sum of the squares. -/
theorem foldl_improve_isSome [LinearOrder δ] {loads : Counter Resource} {pairs : List (ℤ × ℤ)}
    {best : Option SwapChoice}
    (h : best.isSome ∨ ∃ pair ∈ pairs, (d.swapOf loads pair.1 pair.2).delta < 0) :
    (pairs.foldl (d.improve diff loads) best).isSome := by
  induction pairs generalizing best with
  | nil =>
    rcases h with h | ⟨pair, hin, -⟩
    · exact h
    · cases hin
  | cons pair pairs ih =>
    rw [List.foldl_cons]
    refine ih ?_
    unfold SelectData.improve
    dsimp only
    split_ifs with hbetter
    · exact .inl rfl
    · rcases h with h | ⟨pair', hin, hdelta⟩
      · exact .inl h
      · rcases List.mem_cons.mp hin with rfl | hin
        · -- a choice that is not taken is worse than one that is there
          cases best with
          | none => exact absurd ⟨hdelta, rfl⟩ hbetter
          | some b => exact .inl rfl
        · exact .inr ⟨pair', hin, hdelta⟩

/-- A round makes a swap if every swap it could make lowers the sum of the squares. -/
theorem selectRound_isSome [LinearOrder δ] {order : SetOrder} {n : ℕ} {st : SelectState}
    (hremovable : st.removable.Nonempty) (havailable : st.available.Nonempty)
    (h : ∀ old ∈ st.removable, ∀ new ∈ st.available, (d.swapOf st.loads old new).delta < 0) :
    (selectRound diff order d n st).isSome := by
  have hrows : ∀ {m : ℕ} {s : Finset ℤ}, s.Nonempty → order.rows m s ≠ [] := by
    rintro m s ⟨t, ht⟩
    exact List.ne_nil_of_mem ((order.mem m s t).mpr ht)
  obtain ⟨old, hold⟩ := List.exists_mem_of_ne_nil _ (removals_ne_nil (d := d) st.loads (hrows hremovable))
  obtain ⟨new, hnew⟩ := List.exists_mem_of_ne_nil _ (additions_ne_nil (d := d) st.loads (hrows havailable))
  unfold selectRound
  dsimp only
  rw [Option.isSome_map]
  refine foldl_improve_isSome (.inr ⟨(old, new), List.pair_mem_product.mpr ⟨hold, hnew⟩, ?_⟩)
  exact h old ((order.mem _ _ _).mp (mem_of_mem_removals hold)) new
    ((order.mem _ _ _).mp (mem_of_mem_additions hnew))

theorem selectLoop_prefix [LinearOrder δ] {order : SetOrder} (budget : ℕ) : ∀ (n : ℕ) (st : SelectState),
    st.exchanges <+: (selectLoop diff order d budget n st).exchanges := by
  induction budget with
  | zero => exact fun n st => List.prefix_refl _
  | succ budget ih =>
    intro n st
    unfold selectLoop
    split
    · exact List.prefix_refl _
    · next st' hround =>
      obtain ⟨old, -, new, -, -, rfl⟩ := selectRound_some hround
      have hstep : st.exchanges <+: (st.swap (d.swapOf st.loads old new)).exchanges :=
        List.prefix_append _ _
      exact hstep.trans (ih (n + 1) _)

end Round

/-! The loop. -/

/-- What the pools of the loop are at its start. -/
structure SwapPools {σ : Type} (d : SelectData σ) (native resident removable available : Finset ℤ) :
    Prop where
  native_found : ∀ t ∈ native, (d.info.lookup t).isSome
  available_found : ∀ t ∈ available, (d.info.lookup t).isSome
  removable_native : removable ⊆ native
  removable_miss : Disjoint removable resident
  available_extra : Disjoint native available
  available_miss : Disjoint available resident

/-- The set after some swaps. -/
def swapped (native : Finset ℤ) (swaps : List (ℤ × ℤ)) : Finset ℤ :=
  exchange native (swaps.map (·.1)).toFinset (swaps.map (·.2)).toFinset

@[simp] theorem swapped_nil (native : Finset ℤ) : swapped native [] = native :=
  exchange_empty native

/-- The objective falls with every swap. -/
def Descends (info : Dict ℤ MappingRow) (native resident : Finset ℤ) (swaps : List (ℤ × ℤ)) :
    Prop :=
  ∀ i < swaps.length, ∃ before after,
    HasObjective info (swapped native (swaps.take i) \ resident) before ∧
      HasObjective info (swapped native (swaps.take (i + 1)) \ resident) after ∧ after < before

/-- The two sides of the swaps have no token in common. -/
theorem nodup_swaps {swaps : List (ℤ × ℤ)} (holds : (swaps.map (·.1)).Nodup)
    (hnews : (swaps.map (·.2)).Nodup)
    (hapart : ∀ p ∈ swaps, ∀ q ∈ swaps, p.1 ≠ q.2) :
    (swaps.flatMap fun p => [p.1, p.2]).Nodup := by
  induction swaps with
  | nil => exact List.nodup_nil
  | cons p swaps ih =>
    obtain ⟨hold, holds⟩ := List.nodup_cons.mp holds
    obtain ⟨hnew, hnews⟩ := List.nodup_cons.mp hnews
    have hrest := ih holds hnews fun p hp q hq =>
      hapart p (List.mem_cons_of_mem _ hp) q (List.mem_cons_of_mem _ hq)
    have hnotin : ∀ t ∈ swaps.flatMap fun p => [p.1, p.2], t ≠ p.1 ∧ t ≠ p.2 := by
      intro t ht
      obtain ⟨q, hq, ht⟩ := List.mem_flatMap.mp ht
      have hq' := List.mem_cons_of_mem p hq
      rcases List.mem_pair.mp ht with rfl | rfl
      · exact ⟨fun h => hold (List.mem_map.mpr ⟨q, hq, h⟩),
          hapart q hq' p List.mem_cons_self⟩
      · exact ⟨(hapart p List.mem_cons_self q hq').symm,
          fun h => hnew (List.mem_map.mpr ⟨q, hq, h⟩)⟩
    rw [List.flatMap_cons]
    refine List.nodup_append.mpr ⟨?_, hrest, ?_⟩
    · rw [List.nodup_cons, List.mem_singleton]
      exact ⟨hapart p List.mem_cons_self p List.mem_cons_self, List.nodup_singleton _⟩
    · intro a ha b hb hab
      rcases List.mem_pair.mp ha with rfl | rfl
      · exact (hnotin b hb).1 hab.symm
      · exact (hnotin b hb).2 hab.symm

namespace SelectState

variable {σ : Type} {d : SelectData σ} {native resident removable available : Finset ℤ}
  {st : SelectState}

/-- The invariant of the loop. -/
structure Inv (d : SelectData σ) (native resident removable available : Finset ℤ)
    (st : SelectState) : Prop where
  selected_eq : st.selected = swapped native st.exchanges
  removable_eq : st.removable = removable \ (st.exchanges.map (·.1)).toFinset
  available_eq : st.available = available \ (st.exchanges.map (·.2)).toFinset
  olds_nodup : (st.exchanges.map (·.1)).Nodup
  news_nodup : (st.exchanges.map (·.2)).Nodup
  olds_from : ∀ t ∈ st.exchanges.map (·.1), t ∈ removable
  news_from : ∀ t ∈ st.exchanges.map (·.2), t ∈ available
  loads_eq : ∀ k, st.loads.get k = d.load (st.selected \ resident) k
  descends : Descends d.info native resident st.exchanges

/-- A token that may go is selected, and is a miss. -/
theorem Inv.old_mem (hp : SwapPools d native resident removable available)
    (h : st.Inv d native resident removable available) {old : ℤ} (hold : old ∈ st.removable) :
    old ∈ removable ∧ old ∉ st.exchanges.map (·.1) ∧ old ∈ native ∧ old ∈ st.selected \ resident := by
  rw [h.removable_eq, Finset.mem_sdiff, List.mem_toFinset] at hold
  obtain ⟨hin, hnot⟩ := hold
  have hnative := hp.removable_native hin
  refine ⟨hin, hnot, hnative, Finset.mem_sdiff.mpr ⟨?_, ?_⟩⟩
  · rw [h.selected_eq, swapped, mem_exchange, List.mem_toFinset]
    exact .inl ⟨hnative, hnot⟩
  · exact Finset.disjoint_left.mp hp.removable_miss hin

/-- A token that may come is not selected, and is a miss. -/
theorem Inv.new_mem (hp : SwapPools d native resident removable available)
    (h : st.Inv d native resident removable available) {new : ℤ} (hnew : new ∈ st.available) :
    new ∈ available ∧ new ∉ st.exchanges.map (·.2) ∧ new ∉ st.selected ∧ new ∉ resident := by
  rw [h.available_eq, Finset.mem_sdiff, List.mem_toFinset] at hnew
  obtain ⟨hin, hnot⟩ := hnew
  refine ⟨hin, hnot, ?_, Finset.disjoint_left.mp hp.available_miss hin⟩
  rw [h.selected_eq, swapped, mem_exchange, List.mem_toFinset, List.mem_toFinset]
  rintro (⟨hnative, -⟩ | hadded)
  · exact Finset.disjoint_left.mp hp.available_extra hnative hin
  · exact hnot hadded

/-- Every selected token has a page. -/
theorem Inv.found (hp : SwapPools d native resident removable available)
    (h : st.Inv d native resident removable available) {t : ℤ} (ht : t ∈ st.selected) :
    (d.info.lookup t).isSome := by
  rw [h.selected_eq, swapped, mem_exchange, List.mem_toFinset, List.mem_toFinset] at ht
  rcases ht with ⟨hnative, -⟩ | hadded
  · exact hp.native_found t hnative
  · exact hp.available_found t (h.news_from t hadded)

theorem Inv.hasObjective (hp : SwapPools d native resident removable available)
    (h : st.Inv d native resident removable available) :
    HasObjective d.info (st.selected \ resident) (objective st.loads) :=
  hasObjective_of_load (fun _ ht => h.found hp (Finset.mem_sdiff.mp ht).1) h.loads_eq

theorem load_swap {s : Finset ℤ} {old new : ℤ} (hold : old ∈ s) (hnew : new ∉ s) (k : Resource) :
    d.load (insert new (s.erase old)) k =
      d.load s k + ((d.path new).count k - (d.path old).count k) := by
  have hnot : new ∉ s.erase old := fun hin => hnew (Finset.mem_of_mem_erase hin)
  have herase := Finset.add_sum_erase s (fun t => ((d.path t).count k : ℤ)) hold
  unfold SelectData.load
  rw [Finset.sum_insert hnot]
  omega

/-- What one swap keeps. -/
theorem Inv.swap (hp : SwapPools d native resident removable available)
    (h : st.Inv d native resident removable available) {old new : ℤ} (hold : old ∈ st.removable)
    (hnew : new ∈ st.available) (hdelta : (d.swapOf st.loads old new).delta < 0) :
    (st.swap (d.swapOf st.loads old new)).Inv d native resident removable available := by
  obtain ⟨hold_in, hold_not, hold_native, hold_sel⟩ := h.old_mem hp hold
  obtain ⟨hnew_in, hnew_not, hnew_sel, hnew_miss⟩ := h.new_mem hp hnew
  have holds : (st.exchanges ++ [(old, new)]).map (·.1) = st.exchanges.map (·.1) ++ [old] := by
    simp
  have hnews : (st.exchanges ++ [(old, new)]).map (·.2) = st.exchanges.map (·.2) ++ [new] := by
    simp
  have hselected : insert new (st.selected.erase old) =
      swapped native (st.exchanges ++ [(old, new)]) := by
    have hfresh : old ∉ (st.exchanges.map (·.2)).toFinset := fun hin =>
      Finset.disjoint_left.mp hp.available_extra hold_native
        (h.news_from old (List.mem_toFinset.mp hin))
    have hinsert : ∀ (l : List ℤ) (t : ℤ), (l ++ [t]).toFinset = insert t l.toFinset := by
      intro l t
      ext a
      simp
    rw [h.selected_eq, swapped, swapped, exchange_insert hfresh, holds, hnews, hinsert, hinsert]
  have hmisses : insert new (st.selected.erase old) \ resident =
      insert new ((st.selected \ resident).erase old) := by
    rw [Finset.insert_sdiff_of_notMem _ hnew_miss, Finset.erase_sdiff_comm]
  have hloads : ∀ k, (st.loads.update (d.swapOf st.loads old new).change).get k =
      d.load (insert new (st.selected.erase old) \ resident) k := by
    intro k
    have hnot : new ∉ st.selected \ resident := fun hin => hnew_sel (Finset.mem_sdiff.mp hin).1
    rw [Counter.get_update, get_swapOf, hmisses, load_swap hold_sel hnot, h.loads_eq]
  constructor
  · exact hselected
  · show st.removable.erase old = _
    rw [h.removable_eq]
    ext t
    simp only [SelectState.swap, SelectData.swapOf, holds, Finset.mem_erase, Finset.mem_sdiff,
      List.mem_toFinset, List.mem_append, List.mem_singleton]
    tauto
  · show st.available.erase new = _
    rw [h.available_eq]
    ext t
    simp only [SelectState.swap, SelectData.swapOf, hnews, Finset.mem_erase, Finset.mem_sdiff,
      List.mem_toFinset, List.mem_append, List.mem_singleton]
    tauto
  · show ((st.exchanges ++ [(old, new)]).map (·.1)).Nodup
    rw [holds, ← List.concat_eq_append]
    exact h.olds_nodup.concat hold_not
  · show ((st.exchanges ++ [(old, new)]).map (·.2)).Nodup
    rw [hnews, ← List.concat_eq_append]
    exact h.news_nodup.concat hnew_not
  · show ∀ t ∈ (st.exchanges ++ [(old, new)]).map (·.1), t ∈ removable
    rw [holds]
    exact List.forall_mem_append.mpr ⟨h.olds_from, List.forall_mem_singleton.mpr hold_in⟩
  · show ∀ t ∈ (st.exchanges ++ [(old, new)]).map (·.2), t ∈ available
    rw [hnews]
    exact List.forall_mem_append.mpr ⟨h.news_from, List.forall_mem_singleton.mpr hnew_in⟩
  · exact hloads
  · show Descends d.info native resident (st.exchanges ++ [(old, new)])
    intro i hi
    rw [List.length_append, List.length_singleton] at hi
    rcases Nat.lt_succ_iff_lt_or_eq.mp hi with hlt | rfl
    · rw [List.take_append_of_le_length hlt.le, List.take_append_of_le_length hlt]
      exact h.descends i hlt
    · have hbefore := h.hasObjective hp
      have hafter : HasObjective d.info (insert new (st.selected.erase old) \ resident)
          (objective (st.loads.update (d.swapOf st.loads old new).change)) := by
        refine hasObjective_of_load (fun t ht => ?_) hloads
        rcases Finset.mem_insert.mp (Finset.mem_sdiff.mp ht).1 with rfl | ht
        · exact hp.available_found _ hnew_in
        · exact h.found hp (Finset.mem_of_mem_erase ht)
      rw [h.selected_eq] at hbefore
      rw [hselected] at hafter
      rw [List.take_append_of_le_length le_rfl, List.take_length,
        List.take_of_length_le (by simp)]
      refine ⟨_, _, hbefore, hafter, ?_⟩
      rw [objective_swap]
      omega

theorem Inv.olds_subset (hp : SwapPools d native resident removable available)
    (h : st.Inv d native resident removable available) :
    (st.exchanges.map (·.1)).toFinset ⊆ native := fun t ht =>
  hp.removable_native (h.olds_from t (List.mem_toFinset.mp ht))

theorem Inv.news_disjoint (hp : SwapPools d native resident removable available)
    (h : st.Inv d native resident removable available) :
    Disjoint native (st.exchanges.map (·.2)).toFinset :=
  Finset.disjoint_of_subset_right (fun t ht => h.news_from t (List.mem_toFinset.mp ht))
    hp.available_extra

theorem Inv.card (hp : SwapPools d native resident removable available)
    (h : st.Inv d native resident removable available) : st.selected.card = native.card := by
  rw [h.selected_eq, swapped]
  refine card_exchange (h.olds_subset hp) (h.news_disjoint hp) ?_
  rw [List.toFinset_card_of_nodup h.olds_nodup, List.toFinset_card_of_nodup h.news_nodup,
    List.length_map, List.length_map]

theorem Inv.hits (hp : SwapPools d native resident removable available)
    (h : st.Inv d native resident removable available) :
    st.selected ∩ resident = native ∩ resident := by
  rw [h.selected_eq, swapped]
  refine exchange_inter ?_ ?_
  · exact Finset.disjoint_of_subset_left (fun t ht => h.olds_from t (List.mem_toFinset.mp ht))
      hp.removable_miss
  · exact Finset.disjoint_of_subset_left (fun t ht => h.news_from t (List.mem_toFinset.mp ht))
      hp.available_miss

/-- No token occurs in two swaps. -/
theorem Inv.distinct (hp : SwapPools d native resident removable available)
    (h : st.Inv d native resident removable available) :
    (st.exchanges.flatMap fun p => [p.1, p.2]).Nodup := by
  refine nodup_swaps h.olds_nodup h.news_nodup fun p hin q hin' heq => ?_
  have hold := hp.removable_native (h.olds_from _ (List.mem_map.mpr ⟨p, hin, rfl⟩))
  have hnew := h.news_from _ (List.mem_map.mpr ⟨q, hin', rfl⟩)
  rw [← heq] at hnew
  exact Finset.disjoint_left.mp hp.available_extra hold hnew

variable {δ : Type} [LinearOrder σ] [LinearOrder δ] (diff : σ → σ → δ) (order : SetOrder)

/-- What all rounds keep, and how many swaps they make. -/
theorem Inv.selectLoop (hp : SwapPools d native resident removable available)
    (h : st.Inv d native resident removable available) (budget n : ℕ) :
    (Umm.selectLoop diff order d budget n st).Inv d native resident removable available ∧
      (Umm.selectLoop diff order d budget n st).exchanges.length ≤
        st.exchanges.length + budget := by
  induction budget generalizing n st with
  | zero => exact ⟨h, le_rfl⟩
  | succ budget ih =>
    unfold Umm.selectLoop
    split
    · exact ⟨h, Nat.le_add_right _ _⟩
    · next st' hround =>
      obtain ⟨old, hold, new, hnew, hdelta, rfl⟩ := selectRound_some hround
      obtain ⟨hinv, hlen⟩ := ih (h.swap hp hold hnew hdelta) (n + 1)
      refine ⟨hinv, hlen.trans ?_⟩
      simp only [SelectState.swap, List.length_append, List.length_singleton]
      omega

end SelectState

/-! The whole call. -/

section Whole

variable {σ δ : Type} [LinearOrder σ] [LinearOrder δ] {rows : List (CandidateEntry σ)}
  {mapping : DenseMapping} {info : Dict ℤ MappingRow}

/-- The tokens with a score, the best first. -/
def scoredTokens (rows : List (CandidateEntry σ)) : List ℤ := (scoredRows rows).map (·.1)

theorem mem_scoredRows {t : ℤ} {s : σ} :
    (t, s) ∈ scoredRows rows ↔ ∃ r ∈ rows, r.token = t ∧ r.score = some s := by
  rw [scoredRows, mem_sortBy, List.mem_filterMap]
  refine exists_congr fun r => and_congr_right fun _ => ?_
  rw [Option.map_eq_some_iff]
  constructor
  · rintro ⟨s', hs, heq⟩
    obtain ⟨rfl, rfl⟩ := Prod.mk.inj heq
    exact ⟨rfl, hs⟩
  · rintro ⟨rfl, hs⟩
    exact ⟨s, hs, rfl⟩

theorem mem_scoredTokens {t : ℤ} :
    t ∈ scoredTokens rows ↔ ∃ r ∈ rows, r.token = t ∧ r.score.isSome := by
  unfold scoredTokens
  rw [List.mem_map]
  constructor
  · rintro ⟨⟨t, s⟩, hin, rfl⟩
    obtain ⟨r, hr, ht, hs⟩ := mem_scoredRows.mp hin
    exact ⟨r, hr, ht, by rw [hs]; rfl⟩
  · rintro ⟨r, hr, ht, hs⟩
    obtain ⟨s, hs⟩ := Option.isSome_iff_exists.mp hs
    exact ⟨(t, s), mem_scoredRows.mpr ⟨r, hr, ht, hs⟩, rfl⟩

omit [LinearOrder σ] in
theorem scored_sublist (rows : List (CandidateEntry σ)) :
    ((rows.filterMap fun r => r.score.map fun s => (r.token, s)).map (·.1)).Sublist
      (rows.map (·.token)) := by
  induction rows with
  | nil => exact List.Sublist.refl []
  | cons r rows ih =>
    cases hs : r.score with
    | none =>
      rw [List.filterMap_cons_none (by simp [hs]), List.map_cons]
      exact ih.cons _
    | some s =>
      rw [List.filterMap_cons_some (b := (r.token, s)) (by simp [hs]), List.map_cons,
        List.map_cons]
      exact ih.cons_cons _

theorem nodup_scoredTokens (h : (rows.map (·.token)).Nodup) : (scoredTokens rows).Nodup :=
  ((perm_sortBy.map _).nodup_iff).mpr (h.sublist (scored_sublist rows))

omit [LinearOrder σ] in
theorem candidateInfo_isSome : (candidateInfo rows mapping).isSome ↔
    ∀ r ∈ rows, (mapping.get (r.offsetBytes / pageBytes)).isSome := by
  unfold candidateInfo
  rw [Option.isSome_map]
  induction rows with
  | nil => simp
  | cons r rows ih =>
    cases hr : mapping.get (r.offsetBytes / pageBytes) with
    | none => simp [hr]
    | some row =>
      rw [List.forall_mem_cons, ← ih, hr]
      cases hrest : rows.mapM fun r =>
          (mapping.get (r.offsetBytes / pageBytes)).map fun row => (r.token, row) with
      | none => simp [hr, hrest]
      | some pairs => simp [hr, hrest]

omit [LinearOrder σ] in
theorem candidateInfo_pairs (h : candidateInfo rows mapping = some info) :
    ∃ pairs : List (ℤ × MappingRow), info = dictOf pairs ∧ pairs.map (·.1) = rows.map (·.token) ∧
      ∀ pair ∈ pairs, ∃ r ∈ rows, r.token = pair.1 ∧
        mapping.get (r.offsetBytes / pageBytes) = some pair.2 := by
  unfold candidateInfo at h
  obtain ⟨pairs, hpairs, rfl⟩ := Option.map_eq_some_iff.mp h
  refine ⟨pairs, rfl, ?_⟩
  clear h
  induction rows generalizing pairs with
  | nil =>
    obtain rfl : [] = pairs := by simpa using hpairs
    simp
  | cons r rows ih =>
    cases hr : mapping.get (r.offsetBytes / pageBytes) with
    | none => simp [hr] at hpairs
    | some row =>
      cases hrest : rows.mapM fun r =>
          (mapping.get (r.offsetBytes / pageBytes)).map fun row => (r.token, row) with
      | none => simp [hr, hrest] at hpairs
      | some rest =>
        obtain rfl : (r.token, row) :: rest = pairs := by simpa [hr, hrest] using hpairs
        obtain ⟨hkeys, hall⟩ := ih rest hrest
        refine ⟨by rw [List.map_cons, List.map_cons, hkeys], fun pair hpair => ?_⟩
        rcases List.mem_cons.mp hpair with rfl | hpair
        · exact ⟨r, List.mem_cons_self, rfl, hr⟩
        · obtain ⟨r', hr', hfound⟩ := hall pair hpair
          exact ⟨r', List.mem_cons_of_mem _ hr', hfound⟩

omit [LinearOrder σ] in
theorem lookup_candidateInfo_isSome (h : candidateInfo rows mapping = some info) {t : ℤ} :
    (info.lookup t).isSome ↔ t ∈ rows.map (·.token) := by
  obtain ⟨pairs, rfl, hkeys, -⟩ := candidateInfo_pairs h
  rw [lookup_dictOf_isSome, ← hkeys, List.mem_map]
  constructor
  · rintro ⟨row, hrow⟩
    exact ⟨(t, row), hrow, rfl⟩
  · rintro ⟨⟨t, row⟩, hrow, rfl⟩
    exact ⟨row, hrow⟩

theorem mem_selectAvailable {native resident : Finset ℤ} {t : ℤ} :
    t ∈ selectAvailable native resident rows ↔
      t ∈ scoredTokens rows ∧ t ∉ native ∧ t ∉ resident := by
  rw [selectAvailable, Finset.mem_sdiff, Finset.mem_sdiff, List.mem_toFinset, and_assoc]
  rfl

/-- A native token may go that is a miss and is ranked from `protect_top` on. -/
theorem mem_selectRemovable (hrows : (rows.map (·.token)).Nodup) {native resident : Finset ℤ}
    {protectTop : ℤ} {t : ℤ} :
    t ∈ selectRemovable native resident rows protectTop ↔
      t ∈ native ∧ t ∉ resident ∧
        ∃ rank : ℕ, (scoredTokens rows)[rank]? = some t ∧ protectTop ≤ rank := by
  rw [selectRemovable, Finset.mem_filter]
  refine and_congr_right fun _ => and_congr_right fun _ => ?_
  rw [Option.any_eq_true]
  refine exists_congr fun rank => ?_
  rw [decide_eq_true_iff, scoredRank]
  exact and_congr_left fun _ => lookup_positions_iff (nodup_scoredTokens hrows)

theorem selectPools {native : Finset ℤ} (resident : Finset ℤ) (protectTop : ℤ)
    (hinfo : candidateInfo rows mapping = some info)
    (hnative : ∀ t ∈ native, t ∈ rows.map (·.token)) :
    SwapPools ⟨dictOf (scoredRows rows), info⟩ native resident
      (selectRemovable native resident rows protectTop)
      (selectAvailable native resident rows) := by
  constructor
  · exact fun t ht => (lookup_candidateInfo_isSome hinfo).mpr (hnative t ht)
  · intro t ht
    obtain ⟨r, hr, rfl, -⟩ := mem_scoredTokens.mp (mem_selectAvailable.mp ht).1
    exact (lookup_candidateInfo_isSome hinfo).mpr (List.mem_map.mpr ⟨r, hr, rfl⟩)
  · exact Finset.filter_subset _ _
  · exact Finset.disjoint_left.mpr fun t ht => (Finset.mem_filter.mp ht).2.1
  · exact Finset.disjoint_right.mpr fun t ht => (mem_selectAvailable.mp ht).2.1
  · exact Finset.disjoint_left.mpr fun t ht => (mem_selectAvailable.mp ht).2.2

/-- What a selection keeps of the native set, and what it changes. -/
structure Selection.Improves (s : Selection) (native resident : Finset ℤ)
    (rows : List (CandidateEntry σ)) (info : Dict ℤ MappingRow) (budget protectTop : ℤ) : Prop where
  card : s.selected.card = native.card
  swapped_eq : s.selected = swapped native s.swaps
  hits : s.selected ∩ resident = native ∩ resident
  bounded : s.swaps.length ≤ budget.toNat
  distinct : (s.swaps.flatMap fun p => [p.1, p.2]).Nodup
  dropped : ∀ p ∈ s.swaps, p.1 ∈ native ∧ p.1 ∉ resident ∧
    ∃ rank : ℕ, (scoredTokens rows)[rank]? = some p.1 ∧ protectTop ≤ rank
  added : ∀ p ∈ s.swaps, p.2 ∈ scoredTokens rows ∧ p.2 ∉ native ∧ p.2 ∉ resident
  initial_eq : HasObjective info (native \ resident) s.initial
  final_eq : HasObjective info (s.selected \ resident) s.final
  descends : Descends info native resident s.swaps

variable (rows) in
/-- Without swaps the invariant holds. -/
theorem selectStart_inv {native resident : Finset ℤ} (protectTop : ℤ) {loads : Counter Resource}
    {ids : List ℤ} (hloads : pressure info ids = some loads) (hids : ids.Nodup)
    (heq : ids.toFinset = native \ resident) :
    (selectStart native resident rows protectTop loads).Inv ⟨dictOf (scoredRows rows), info⟩ native
      resident (selectRemovable native resident rows protectTop)
      (selectAvailable native resident rows) := by
  constructor
  · exact (swapped_nil native).symm
  · simp [selectStart]
  · simp [selectStart]
  · exact List.nodup_nil
  · exact List.nodup_nil
  · simp [selectStart]
  · simp [selectStart]
  · intro k
    rw [selectStart, ← heq]
    exact SelectData.get_pressure hloads hids k
  · intro i hi
    simp [selectStart] at hi

variable {diff : σ → σ → δ} {order : SetOrder} {native cached : Finset ℤ}
  {current budget protectTop : ℤ}

/-- A selection that is returned improves the native one. -/
theorem select_some (hrows : (rows.map (·.token)).Nodup)
    (hnative : ∀ t ∈ native, t ∈ rows.map (·.token)) {s : Selection}
    (h : select diff order native rows mapping current budget protectTop cached = some s) :
    ∃ info, candidateInfo rows mapping = some info ∧
      s.Improves native (insert current cached) rows info budget protectTop := by
  unfold select at h
  dsimp only at h
  obtain ⟨info, hinfo, h⟩ := Option.bind_eq_some_iff.mp h
  obtain ⟨loads, hloads, h⟩ := Option.bind_eq_some_iff.mp h
  obtain rfl := Option.some.inj h
  have hmisses : (order.rows 0 (native \ insert current cached)).toFinset =
      native \ insert current cached := by
    ext t
    rw [List.mem_toFinset, order.mem]
  have hp := selectPools (insert current cached) protectTop hinfo hnative
  have hstart := selectStart_inv rows protectTop hloads (order.nodup _ _) hmisses
  obtain ⟨hend, hlen⟩ := hstart.selectLoop diff order hp budget.toNat 0
  refine ⟨info, hinfo, hend.card hp, hend.selected_eq, hend.hits hp, by simpa [selectStart] using hlen,
    hend.distinct hp, fun p hin => ?_, fun p hin => ?_, hstart.hasObjective hp,
    hend.hasObjective hp, hend.descends⟩
  · exact (mem_selectRemovable hrows).mp (hend.olds_from _ (List.mem_map.mpr ⟨p, hin, rfl⟩))
  · exact mem_selectAvailable.mp (hend.news_from _ (List.mem_map.mpr ⟨p, hin, rfl⟩))

/-- PPA selection is a miss-only improvement: it fails only where a candidate has no page, and
what it returns differs from the native set by swaps of scored misses that each lower the
objective. -/
theorem select_improves (diff : σ → σ → δ) (order : SetOrder) {native : Finset ℤ}
    (hrows : (rows.map (·.token)).Nodup) (hnative : ∀ t ∈ native, t ∈ rows.map (·.token))
    (mapping : DenseMapping) (current budget protectTop : ℤ) (cached : Finset ℤ) :
    (select diff order native rows mapping current budget protectTop cached = none ↔
      ∃ r ∈ rows, mapping.get (r.offsetBytes / pageBytes) = none) ∧
    ∀ s, select diff order native rows mapping current budget protectTop cached = some s →
      ∃ info, candidateInfo rows mapping = some info ∧
        s.Improves native (insert current cached) rows info budget protectTop := by
  refine ⟨?_, fun s => select_some hrows hnative⟩
  have hinfo : (candidateInfo rows mapping).isSome ↔
      ∀ r ∈ rows, (mapping.get (r.offsetBytes / pageBytes)).isSome := candidateInfo_isSome
  cases hfound : candidateInfo rows mapping with
  | none =>
    have hselect : select diff order native rows mapping current budget protectTop cached =
        none := by simp [select, hfound]
    rw [hfound] at hinfo
    simpa [hselect] using hinfo
  | some info =>
    have hloads : (pressure info (order.rows 0 (native \ insert current cached))).isSome := by
      refine pressure_isSome.mpr fun t ht => (lookup_candidateInfo_isSome hfound).mpr ?_
      exact hnative t (Finset.mem_sdiff.mp ((order.mem _ _ _).mp ht)).1
    obtain ⟨loads, hloads⟩ := Option.isSome_iff_exists.mp hloads
    have hselect : select diff order native rows mapping current budget protectTop cached ≠
        none := by simp [select, hfound, hloads]
    rw [hfound] at hinfo
    simpa [hselect, Option.isSome_iff_ne_none] using hinfo

/-- A selection swaps if there is a token to drop and one to add, and every such swap lowers the
objective of the native misses. -/
theorem select_swaps_ne_nil (hinfo : candidateInfo rows mapping = some info) (hbudget : 0 < budget)
    (hremovable : (selectRemovable native (insert current cached) rows protectTop).Nonempty)
    (havailable : (selectAvailable native (insert current cached) rows).Nonempty)
    (hdelta : ∀ loads : Counter Resource,
      (∀ k, loads.get k = SelectData.load ⟨dictOf (scoredRows rows), info⟩
        (native \ insert current cached) k) →
      ∀ old ∈ selectRemovable native (insert current cached) rows protectTop,
        ∀ new ∈ selectAvailable native (insert current cached) rows,
          (SelectData.swapOf ⟨dictOf (scoredRows rows), info⟩ loads old new).delta < 0)
    {s : Selection}
    (h : select diff order native rows mapping current budget protectTop cached = some s) :
    s.swaps ≠ [] := by
  unfold select at h
  dsimp only at h
  obtain ⟨info', hinfo', h⟩ := Option.bind_eq_some_iff.mp h
  obtain rfl := Option.some.inj (hinfo.symm.trans hinfo')
  obtain ⟨loads, hloads, h⟩ := Option.bind_eq_some_iff.mp h
  obtain rfl := Option.some.inj h
  have hload : ∀ k, loads.get k = SelectData.load ⟨dictOf (scoredRows rows), info⟩
      (native \ insert current cached) k := by
    intro k
    rw [SelectData.get_pressure (d := ⟨dictOf (scoredRows rows), info⟩) hloads (order.nodup _ _) k]
    congr 1
    ext t
    rw [List.mem_toFinset, order.mem]
  obtain ⟨n, hn⟩ : ∃ n, budget.toNat = n + 1 := ⟨budget.toNat - 1, by omega⟩
  have hround : (selectRound diff order ⟨dictOf (scoredRows rows), info⟩ 0
      (selectStart native (insert current cached) rows protectTop loads)).isSome :=
    selectRound_isSome hremovable havailable (hdelta loads hload)
  obtain ⟨st, hst⟩ := Option.isSome_iff_exists.mp hround
  obtain ⟨old, -, new, -, -, rfl⟩ := selectRound_some hst
  have hheld : _ <+: (selectLoop diff order ⟨dictOf (scoredRows rows), info⟩ n 1
      ((selectStart native (insert current cached) rows protectTop loads).swap
        (SelectData.swapOf ⟨dictOf (scoredRows rows), info⟩ loads old new))).exchanges :=
    selectLoop_prefix n 1 _
  dsimp only
  rw [hn]
  unfold selectLoop
  rw [hst]
  refine List.ne_nil_of_mem (hheld.subset ?_) (a := (old, new))
  exact List.mem_append_right _ (List.mem_singleton_self _)

/-- The elements of a set by their size. -/
def ascending : SetOrder where
  rows := fun _ s => Quot.liftOn s.1 (List.insertionSort (· ≤ ·)) fun _ _ h =>
    List.Perm.eq_of_pairwise (fun _ _ _ _ => le_antisymm) (List.pairwise_insertionSort _ _)
      (List.pairwise_insertionSort _ _)
      (((List.perm_insertionSort _ _).trans h).trans (List.perm_insertionSort _ _).symm)
  nodup := by
    rintro - ⟨⟨l⟩, hl⟩
    exact (List.perm_insertionSort _ _).nodup_iff.mpr hl
  mem := by
    rintro - ⟨⟨l⟩, hl⟩ t
    exact (List.perm_insertionSort _ _).mem_iff

/-- Two planes, and two native tokens on one of them. -/
def twoPlanes : DenseMapping := ⟨[⟨0, 0, 0, 0, 0, 0, 0, 0⟩, ⟨1, 1, 1, 0, 0, 0, 0, 0⟩]⟩

def twoPlanesRows : List (CandidateEntry ℤ) :=
  [⟨0, some 5, 0⟩, ⟨1, some 4, 4096⟩, ⟨4, some 3, 16384⟩]

theorem select_improves_twoPlanes :
    (select (fun a b => a - b) ascending {0, 1} twoPlanesRows twoPlanes 9 4 0 ∅).map
        (fun s => (s.swaps, s.initial, s.final)) = some ([(1, 4)], 16, 8) ∧
      ∀ s, select (fun a b => a - b) ascending {0, 1} twoPlanesRows twoPlanes 9 4 0 ∅ = some s →
        s.selected.card = 2 := by
  refine ⟨by decide +kernel, fun s hs => ?_⟩
  have hrows : (twoPlanesRows.map (·.token)).Nodup := by decide
  have hnative : ∀ t ∈ ({0, 1} : Finset ℤ), t ∈ twoPlanesRows.map (·.token) := by decide
  obtain ⟨info, -, himproves⟩ :=
    (select_improves (fun a b => a - b) ascending hrows hnative twoPlanes 9 4 0 ∅).2 s hs
  exact himproves.card

end Whole

end Umm
