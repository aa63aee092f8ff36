import Umm.Lib.Recency

/-! `BatchLRU` of `ppa_selection.py`: a cache of tokens, from the least to the most recently
selected, that takes whole batches. -/
namespace Umm
open Umm.Lib

structure ValueError where
  text : String
  deriving DecidableEq, Repr

/-- The keys of an `OrderedDict`, in their order. -/
structure BatchLru (α : Type*) where
  capacity : ℤ
  rows : List α
  nodup : rows.Nodup

namespace BatchLru

variable {α : Type*}

def new (capacity : ℤ) : BatchLru α := ⟨capacity, [], List.nodup_nil⟩

/-- `popitem(last=False)` while the rows and the batch do not fit. -/
def evict (capacity : ℤ) (batch : ℕ) : List α → List α
  | [] => []
  | t :: rows =>
    if capacity < (rows.length + 1 + batch : ℕ) then evict capacity batch rows else t :: rows

theorem evict_suffix (capacity : ℤ) (batch : ℕ) (rows : List α) :
    evict capacity batch rows <:+ rows := by
  induction rows with
  | nil => exact List.suffix_refl []
  | cons t rows ih =>
    unfold evict
    split_ifs
    · exact ih.trans (List.suffix_cons t rows)
    · exact List.suffix_refl _

theorem evict_eq {capacity : ℤ} {batch : ℕ} (h : (batch : ℤ) ≤ capacity) (rows : List α) :
    evict capacity batch rows = rows.rtake (capacity.toNat - batch) := by
  induction rows with
  | nil => exact (List.rtake_nil _).symm
  | cons t rows ih =>
    unfold evict
    split_ifs with hfull
    · rw [ih]
      exact (rtake_append_right (l := [t]) (by omega)).symm
    · refine (rtake_of_length_le ?_).symm
      rw [List.length_cons]
      omega

variable [LinearOrder α]

/-- `sorted(set(selected))`. -/
def sorted (selected : List α) : List α :=
  selected.dedup.insertionSort (· ≤ ·)

theorem sorted_eq (selected : List α) : sorted selected = selected.toFinset.sort (· ≤ ·) := by
  have hperm := List.perm_insertionSort (· ≤ ·) selected.dedup
  have hnodup : (sorted selected).Nodup := hperm.nodup_iff.mpr (List.nodup_dedup selected)
  have hsame : (sorted selected).toFinset = selected.toFinset := by
    rw [sorted, List.toFinset_eq_of_perm _ _ hperm]
    ext t
    rw [List.mem_toFinset, List.mem_toFinset, List.mem_dedup]
  rw [← hsame]
  exact ((List.toFinset_sort (· ≤ ·) hnodup).mpr (List.pairwise_insertionSort _ _)).symm

theorem nodup_commit {rows : List α} (h : rows.Nodup) (capacity : ℤ) (selected : List α) :
    (evict capacity selected.toFinset.card (rows.filter (· ∉ selected.toFinset)) ++
      sorted selected).Nodup := by
  have hsub := (evict_suffix capacity selected.toFinset.card
    (rows.filter (· ∉ selected.toFinset))).sublist
  rw [sorted_eq]
  refine List.Nodup.append ((h.filter _).sublist hsub) (Finset.sort_nodup _ _) fun t ht hs => ?_
  have hnot := (List.mem_filter.mp (hsub.subset ht)).2
  exact of_decide_eq_true hnot ((Finset.mem_sort _).mp hs)

def commit (selected : List α) (lru : BatchLru α) : Except ValueError Unit × BatchLru α :=
  let batch := selected.toFinset
  if lru.capacity < batch.card then
    (.error ⟨"Cache cannot hold the selected attention batch"⟩, lru)
  else
    (.ok (), { lru with
      rows := evict lru.capacity batch.card (lru.rows.filter (· ∉ batch)) ++ sorted selected
      nodup := nodup_commit lru.nodup lru.capacity selected })

/-- The cache after the batches; those that do not fit leave it as it is. -/
def commits (capacity : ℤ) (batches : List (List α)) : BatchLru α :=
  batches.foldl (fun lru batch => (lru.commit batch).2) (new capacity)

def misses (batch : List α) (lru : BatchLru α) : ℕ :=
  (batch.toFinset.filter (· ∉ lru.rows)).card

/-- A batch that fits, in a cache with the most recent tokens of a history. -/
theorem rows_commit {lru : BatchLru α} {history : List (Finset α)}
    (h : lru.rows = (recency history).rtake lru.capacity.toNat) {batch : List α}
    (hfit : (batch.toFinset.card : ℤ) ≤ lru.capacity) :
    (lru.commit batch).2.rows =
      (recency (history ++ [batch.toFinset])).rtake lru.capacity.toNat := by
  have hrows : (lru.commit batch).2.rows =
      evict lru.capacity batch.toFinset.card (lru.rows.filter (· ∉ batch.toFinset)) ++
        sorted batch := by
    unfold commit
    rw [if_neg (not_lt.mpr hfit)]
  have hsort : (batch.toFinset.sort (· ≤ ·)).length = batch.toFinset.card :=
    Finset.length_sort _
  rw [hrows, sorted_eq, evict_eq hfit, h, rtake_filter_rtake (nodup_recency history), recency_concat,
    rtake_append (by omega), hsort]

theorem capacity_commit (batch : List α) (lru : BatchLru α) :
    (lru.commit batch).2.capacity = lru.capacity := by
  unfold commit
  dsimp only
  split_ifs <;> rfl

/-- The batches that fit. -/
def accepted (capacity : ℤ) (batches : List (List α)) : List (Finset α) :=
  (batches.map List.toFinset).filter fun batch => (batch.card : ℤ) ≤ capacity

theorem commits_concat (capacity : ℤ) (batches : List (List α)) (batch : List α) :
    commits capacity (batches ++ [batch]) = ((commits capacity batches).commit batch).2 := by
  rw [commits, List.foldl_append]
  rfl

theorem capacity_commits (capacity : ℤ) (batches : List (List α)) :
    (commits capacity batches).capacity = capacity := by
  induction batches using List.reverseRecOn with
  | nil => rfl
  | append_singleton batches batch ih => rw [commits_concat, capacity_commit, ih]

theorem rows_commits (capacity : ℤ) (batches : List (List α)) :
    (commits capacity batches).rows =
      (recency (accepted capacity batches)).rtake capacity.toNat := by
  induction batches using List.reverseRecOn with
  | nil =>
    show [] = (recency []).rtake _
    rw [recency_nil, List.rtake_nil]
  | append_singleton batches batch ih =>
    have hcap := capacity_commits capacity batches
    rw [commits_concat, accepted, List.map_append, List.filter_append, List.map_singleton]
    by_cases hfit : (batch.toFinset.card : ℤ) ≤ capacity
    · have hrows : (commits capacity batches).rows =
          (recency (accepted capacity batches)).rtake (commits capacity batches).capacity.toNat := by
        rw [hcap, ih]
      rw [List.filter_cons_of_pos (by simpa using hfit), List.filter_nil,
        rows_commit hrows (by rw [hcap]; exact hfit), hcap]
      rfl
    · rw [List.filter_cons_of_neg (by simpa using hfit), List.filter_nil, List.append_nil]
      unfold commit
      rw [if_pos (by rw [hcap]; exact not_le.mp hfit)]
      exact ih

theorem accepted_eq {capacity : ℤ} {batches : List (List α)}
    (h : ∀ batch ∈ batches, (batch.toFinset.card : ℤ) ≤ capacity) :
    accepted capacity batches = batches.map List.toFinset := by
  refine List.filter_eq_self.mpr fun s hs => ?_
  obtain ⟨batch, hbatch, rfl⟩ := List.mem_map.mp hs
  exact decide_eq_true (h batch hbatch)

/-- A larger cache keeps what a smaller one keeps. -/
theorem rows_subset {capacity capacity' : ℤ} (hle : capacity ≤ capacity')
    {batches : List (List α)}
    (h : ∀ batch ∈ batches, (batch.toFinset.card : ℤ) ≤ capacity) :
    (commits capacity batches).rows ⊆ (commits capacity' batches).rows := by
  rw [rows_commits, rows_commits, accepted_eq h,
    accepted_eq fun batch hbatch => (h batch hbatch).trans hle]
  exact (rtake_suffix_rtake (by omega)).subset

theorem misses_le {lru lru' : BatchLru α} (h : lru.rows ⊆ lru'.rows) (batch : List α) :
    lru'.misses batch ≤ lru.misses batch := by
  refine Finset.card_le_card fun t ht => ?_
  rw [Finset.mem_filter] at ht ⊢
  exact ⟨ht.1, fun hin => ht.2 (h hin)⟩

/-- After any batches the cache holds the most recent tokens of those that fit, a batch that does
not fit changes nothing, and the same batches leave no less in a larger cache. -/
theorem batchLru_recency (capacity : ℤ) (batches : List (List α)) :
    (commits capacity batches).rows =
      (recency (accepted capacity batches)).rtake capacity.toNat ∧
    (∀ batch : List α, capacity < batch.toFinset.card →
      (commits capacity batches).commit batch =
        (.error ⟨"Cache cannot hold the selected attention batch"⟩, commits capacity batches)) ∧
    (∀ batch : List α, (batch.toFinset.card : ℤ) ≤ capacity →
      ((commits capacity batches).commit batch).1 = .ok ()) ∧
    ∀ capacity' : ℤ, capacity ≤ capacity' →
      (∀ batch ∈ batches, (batch.toFinset.card : ℤ) ≤ capacity) →
      (commits capacity batches).rows ⊆ (commits capacity' batches).rows ∧
        ∀ batch, (commits capacity' batches).misses batch ≤
          (commits capacity batches).misses batch := by
  have hcap := capacity_commits capacity batches
  refine ⟨rows_commits capacity batches, fun batch hbig => ?_, fun batch hfit => ?_, ?_⟩
  · unfold commit
    rw [if_pos (by rw [hcap]; exact hbig)]
  · unfold commit
    rw [if_neg (by rw [hcap]; exact not_lt.mpr hfit)]
  · intro capacity' hle hfit
    exact ⟨rows_subset hle hfit, misses_le (rows_subset hle hfit)⟩

/-- The second batch hits `2`, the third evicts the least recent tokens. -/
example : (commits 3 [[3, 1, 2], [4, 2], [9, 8, 7, 6], [5, 5]]).rows = [2, 4, (5 : ℤ)] := by
  decide +kernel

end BatchLru

/-- `sorted` of a set. -/
def sortedSet (s : Finset ℤ) : List ℤ :=
  Quotient.liftOn s.val BatchLru.sorted fun l l' h => by
    rw [BatchLru.sorted_eq, BatchLru.sorted_eq, List.toFinset_eq_of_perm l l' h]

theorem sortedSet_eq (s : Finset ℤ) : sortedSet s = s.sort (· ≤ ·) := by
  obtain ⟨l, rfl⟩ : ∃ l : List ℤ, s = l.toFinset := ⟨s.toList, s.toList_toFinset.symm⟩
  rw [← BatchLru.sorted_eq]
  change BatchLru.sorted l.dedup = BatchLru.sorted l
  unfold BatchLru.sorted
  rw [List.dedup_idem]

end Umm
