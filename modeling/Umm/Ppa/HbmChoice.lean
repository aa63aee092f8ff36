import Umm.Ppa.BatchLru
import Umm.Lib.Dict
import Umm.Lib.Exchange

/-! `choose` and `measure` of `simulate_hbm_candidates.py`: native misses are replaced by
candidates that are available. -/
namespace Umm
open Umm.Lib

variable {α : Type*} [DecidableEq α]

/-- The position of each candidate in the ranking. -/
def rankOf (ranked : List α) : Dict α ℕ := dictOf ranked.zipIdx

/-- The candidates that may come in, the best first. -/
def hbmAdditions (native : Finset α) (ranked : List α) (available : Finset α) : List α :=
  ranked.filter fun t => t ∉ native ∧ t ∈ available

/-- The native token may go. -/
def Removable (ranked : List α) (available : Finset α) (protectTop : ℕ) (t : α) : Prop :=
  t ∉ available ∧ ∃ rank ∈ (rankOf ranked).lookup t, protectTop ≤ rank

instance (ranked : List α) (available : Finset α) (protectTop : ℕ) (t : α) :
    Decidable (Removable ranked available protectTop t) :=
  decidable_of_iff (t ∉ available ∧ ((rankOf ranked).lookup t).any fun rank => protectTop ≤ rank)
    (by simp [Removable, Option.any_eq_true])

/-- The native tokens that may go, the worst first. `order` is the set in the order in which the
loop finds its elements. -/
def hbmRemovals (order : List α) (ranked : List α) (available : Finset α) (protectTop : ℕ) :
    List α :=
  sortBy (fun t => OrderDual.toDual (((rankOf ranked).lookup t).getD 0))
    (order.filter fun t => Removable ranked available protectTop t)

def choose (native : List α) (ranked : List α) (available : Finset α) (budget protectTop : ℕ) :
    Finset α × ℕ :=
  let additions := hbmAdditions native.toFinset ranked available
  let removals := hbmRemovals native.dedup ranked available protectTop
  let count := min budget (min additions.length removals.length)
  (exchange native.toFinset (removals.take count).toFinset (additions.take count).toFinset, count)

structure HbmMeasure where
  selected : ℕ
  cacheHits : ℕ
  freshHits : ℕ
  misses : ℤ
deriving DecidableEq, Repr

def measure (selected : Finset α) (cache : BatchLru α) (ready : Finset α) : HbmMeasure :=
  let hits := (selected ∩ cache.rows.toFinset).card
  let readyOnly := ((selected \ cache.rows.toFinset) ∩ ready).card
  ⟨selected.card, hits, readyOnly, selected.card - hits - readyOnly⟩

/-- Every token that is in neither the cache nor among the fresh ones is one miss. -/
theorem misses_measure (selected : Finset α) (cache : BatchLru α) (ready : Finset α) :
    (measure selected cache ready).misses =
      (selected.filter (· ∉ cache.rows.toFinset ∪ ready)).card := by
  have hcache := Finset.card_inter_add_card_sdiff selected cache.rows.toFinset
  have hready := Finset.card_inter_add_card_sdiff (selected \ cache.rows.toFinset) ready
  have hmiss : (selected \ cache.rows.toFinset) \ ready =
      selected.filter (· ∉ cache.rows.toFinset ∪ ready) := by
    ext t
    simp only [Finset.mem_sdiff, Finset.mem_filter, Finset.mem_union]
    tauto
  rw [hmiss] at hready
  unfold measure
  dsimp only
  omega

section Choose

variable {native ranked : List α} {available : Finset α} {budget protectTop : ℕ}

theorem mem_hbmRemovals {order : List α} {t : α} :
    t ∈ hbmRemovals order ranked available protectTop ↔
      t ∈ order ∧ Removable ranked available protectTop t := by
  rw [hbmRemovals, mem_sortBy, List.mem_filter, decide_eq_true_iff]

theorem mem_hbmAdditions {s : Finset α} {t : α} :
    t ∈ hbmAdditions s ranked available ↔ t ∈ ranked ∧ t ∉ s ∧ t ∈ available := by
  rw [hbmAdditions, List.mem_filter, decide_eq_true_iff]

theorem nodup_hbmRemovals (order : List α) (h : order.Nodup) :
    (hbmRemovals order ranked available protectTop).Nodup :=
  perm_sortBy.nodup_iff.mpr (h.filter _)

theorem removable_iff (hranked : ranked.Nodup) {t : α} :
    Removable ranked available protectTop t ↔ t ∉ available ∧ t ∈ ranked.drop protectTop := by
  refine and_congr_right fun _ => ?_
  rw [List.mem_iff_getElem?]
  constructor
  · rintro ⟨rank, hrank, hle⟩
    refine ⟨rank - protectTop, ?_⟩
    rw [List.getElem?_drop, Nat.add_sub_cancel' hle]
    exact (lookup_positions_iff hranked).mp hrank
  · rintro ⟨i, hi⟩
    rw [List.getElem?_drop] at hi
    exact ⟨protectTop + i, (lookup_positions_iff hranked).mpr hi, Nat.le_add_right _ _⟩

/-- A candidate before `protect_top` stays. -/
theorem not_removable_of_top (hranked : ranked.Nodup) {t : α} (ht : t ∈ ranked.take protectTop) :
    ¬ Removable ranked available protectTop t := by
  rw [removable_iff hranked]
  rintro ⟨-, hdrop⟩
  exact List.disjoint_take_drop hranked le_rfl ht hdrop

theorem not_removable_of_unranked {t : α} (ht : t ∉ ranked) :
    ¬ Removable ranked available protectTop t := by
  rintro ⟨-, rank, hrank, -⟩
  exact ht (List.mem_of_getElem? (List.mem_zipIdx_iff_getElem?.mp (mem_of_lookup_dictOf hrank)))

/-- What `choose` takes out and puts in. -/
structure HbmExchange (native ranked : List α) (available : Finset α) (protectTop count : ℕ)
    (out new : Finset α) : Prop where
  out_card : out.card = count
  new_card : new.card = count
  out_from : ∀ t ∈ out, t ∈ native ∧ Removable ranked available protectTop t
  new_from : ∀ t ∈ new, t ∈ ranked ∧ t ∉ native ∧ t ∈ available

variable (native available budget protectTop) in
theorem choose_exchange (hranked : ranked.Nodup) :
    ∃ out new, (choose native ranked available budget protectTop).1 =
        exchange native.toFinset out new ∧
      HbmExchange native ranked available protectTop
        (choose native ranked available budget protectTop).2 out new := by
  refine ⟨_, _, rfl, ?_⟩
  have hadd : (hbmAdditions native.toFinset ranked available).Nodup := hranked.filter _
  have hrem : (hbmRemovals native.dedup ranked available protectTop).Nodup :=
    nodup_hbmRemovals _ (List.nodup_dedup native)
  constructor
  · rw [List.toFinset_card_of_nodup (hrem.sublist (List.take_sublist _ _)), List.length_take]
    unfold choose
    dsimp only
    omega
  · rw [List.toFinset_card_of_nodup (hadd.sublist (List.take_sublist _ _)), List.length_take]
    unfold choose
    dsimp only
    omega
  · intro t ht
    have hin := mem_hbmRemovals.mp (List.mem_of_mem_take (List.mem_toFinset.mp ht))
    rwa [List.mem_dedup] at hin
  · intro t ht
    have hin := mem_hbmAdditions.mp (List.mem_of_mem_take (List.mem_toFinset.mp ht))
    rwa [List.mem_toFinset] at hin

variable (native available budget protectTop) in
theorem choose_count (hranked : ranked.Nodup) :
    (choose native ranked available budget protectTop).2 =
      min budget (min (ranked.filter fun t => t ∉ native ∧ t ∈ available).length
        (native.toFinset.filter fun t => t ∉ available ∧ t ∈ ranked.drop protectTop).card) := by
  have hadd : hbmAdditions native.toFinset ranked available =
      ranked.filter fun t => t ∉ native ∧ t ∈ available := by
    unfold hbmAdditions
    simp only [List.mem_toFinset]
  have hrem : (hbmRemovals native.dedup ranked available protectTop).length =
      (native.toFinset.filter fun t => t ∉ available ∧ t ∈ ranked.drop protectTop).card := by
    rw [← List.toFinset_card_of_nodup (nodup_hbmRemovals _ (List.nodup_dedup native))]
    congr 1
    ext t
    rw [List.mem_toFinset, mem_hbmRemovals, Finset.mem_filter, List.mem_dedup, List.mem_toFinset,
      removable_iff hranked]
  unfold choose
  dsimp only
  rw [hadd, hrem]

end Choose

namespace HbmExchange

variable {native ranked : List α} {available : Finset α} {protectTop count : ℕ}
  {out new : Finset α}

theorem out_subset (h : HbmExchange native ranked available protectTop count out new) :
    out ⊆ native.toFinset := fun t ht => List.mem_toFinset.mpr (h.out_from t ht).1

theorem disjoint (h : HbmExchange native ranked available protectTop count out new) :
    Disjoint native.toFinset new :=
  Finset.disjoint_right.mpr fun t ht hn => (h.new_from t ht).2.1 (List.mem_toFinset.mp hn)

/-- Every token that goes was a miss, and none that comes is one. -/
theorem misses (h : HbmExchange native ranked available protectTop count out new) :
    ((exchange native.toFinset out new).filter (· ∉ available)).card + count =
      (native.toFinset.filter (· ∉ available)).card := by
  have hnew : new.filter (· ∉ available) = ∅ :=
    Finset.filter_eq_empty_iff.mpr fun t ht hna => hna (h.new_from t ht).2.2
  have hout : out ⊆ native.toFinset.filter (· ∉ available) := fun t ht =>
    Finset.mem_filter.mpr ⟨h.out_subset ht, (h.out_from t ht).2.1⟩
  have hleft : (native.toFinset \ out).filter (· ∉ available) =
      native.toFinset.filter (· ∉ available) \ out := by
    ext t
    simp only [Finset.mem_filter, Finset.mem_sdiff]
    tauto
  have hle := Finset.card_le_card hout
  rw [card_filter_exchange _ h.disjoint, hnew, hleft, Finset.card_sdiff_of_subset hout,
    Finset.card_empty, h.out_card]
  rw [h.out_card] at hle
  omega

end HbmExchange

/-- The tokens that need no read. -/
def hbmAvailable (cache : BatchLru α) (ready : Finset α) : Finset α :=
  cache.rows.toFinset ∪ ready

/-- `choose` trades misses for hits one for one. -/
theorem choose_trades {ranked : List α} (hranked : ranked.Nodup) (native : List α)
    (cache : BatchLru α) (ready : Finset α) (budget protectTop : ℕ) {chosen : Finset α}
    {count : ℕ}
    (h : choose native ranked (hbmAvailable cache ready) budget protectTop = (chosen, count)) :
    chosen.card = native.toFinset.card ∧
    (∀ t ∈ native, t ∈ hbmAvailable cache ready ∨ t ∉ ranked ∨ t ∈ ranked.take protectTop →
      t ∈ chosen) ∧
    (∀ t ∈ chosen, t ∉ native → t ∈ ranked ∧ t ∈ hbmAvailable cache ready) ∧
    count = min budget
      (min (ranked.filter fun t => t ∉ native ∧ t ∈ hbmAvailable cache ready).length
        (native.toFinset.filter fun t =>
          t ∉ hbmAvailable cache ready ∧ t ∈ ranked.drop protectTop).card) ∧
    (native.toFinset \ chosen).card = count ∧ (chosen \ native.toFinset).card = count ∧
    (measure chosen cache ready).misses =
      (measure native.toFinset cache ready).misses - count := by
  obtain ⟨out, new, hchosen, hx⟩ :=
    choose_exchange native (hbmAvailable cache ready) budget protectTop hranked
  have hcount := choose_count native (hbmAvailable cache ready) budget protectTop hranked
  rw [h] at hchosen hx hcount
  dsimp only at hchosen hx hcount
  subst hchosen
  have hmiss := hx.misses
  refine ⟨?_, ?_, ?_, hcount, ?_, ?_, ?_⟩
  · exact card_exchange hx.out_subset hx.disjoint (hx.out_card.trans hx.new_card.symm)
  · intro t ht hkept
    refine mem_exchange.mpr (.inl ⟨List.mem_toFinset.mpr ht, fun hout => ?_⟩)
    have hrem := (hx.out_from t hout).2
    rcases hkept with havail | hunranked | htop
    · exact hrem.1 havail
    · exact not_removable_of_unranked hunranked hrem
    · exact not_removable_of_top hranked htop hrem
  · intro t ht hnot
    rcases mem_exchange.mp ht with ⟨hin, -⟩ | hin
    · exact absurd (List.mem_toFinset.mp hin) hnot
    · exact ⟨(hx.new_from t hin).1, (hx.new_from t hin).2.2⟩
  · rw [sdiff_exchange hx.out_subset hx.disjoint, hx.out_card]
  · rw [exchange_sdiff hx.disjoint, hx.new_card]
  · rw [misses_measure, misses_measure]
    unfold hbmAvailable at hmiss
    omega

/-- Of two native tokens one is cached; the other gives way to the fresh candidate. -/
theorem choose_trades_one :
    (measure ({1, 3} : Finset ℕ) ⟨2, [1], by decide⟩ {3}).misses =
      (measure ([1, 2] : List ℕ).toFinset ⟨2, [1], by decide⟩ {3}).misses - 1 := by
  have hranked : ([3, 2, 1] : List ℕ).Nodup := by decide
  have hchoose : choose [1, 2] [3, 2, 1] (hbmAvailable ⟨2, [1], by decide⟩ {3}) 4 0 =
      ({1, 3}, 1) := by decide
  exact (choose_trades hranked [1, 2] ⟨2, [1], by decide⟩ {3} 4 0 hchoose).2.2.2.2.2.2

end Umm
