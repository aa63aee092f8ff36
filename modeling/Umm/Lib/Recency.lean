import Mathlib.Tactic
import Mathlib.Data.List.DropRight
import Mathlib.Data.Finset.Sort
import Mathlib.Data.Prod.Lex

/-! Elements ranked by the last of the sets they are in, and by their own order within a set. -/
namespace Umm.Lib

section Rtake

variable {α : Type*} {n : ℕ} {l r : List α}

theorem rtake_of_length_le (h : l.length ≤ n) : l.rtake n = l := by
  rw [List.rtake, Nat.sub_eq_zero_of_le h, List.drop_zero]

theorem rtake_append_right (h : n ≤ r.length) : (l ++ r).rtake n = r.rtake n := by
  rw [List.rtake, List.rtake, List.length_append, Nat.add_sub_assoc h, List.drop_length_add_append]

theorem rtake_append (h : r.length ≤ n) :
    (l ++ r).rtake n = l.rtake (n - r.length) ++ r := by
  have hcut : (l ++ r).length - n = l.length - (n - r.length) := by
    rw [List.length_append]
    omega
  rw [List.rtake, hcut, List.drop_append_of_le_length (Nat.sub_le _ _)]
  rfl

theorem rtake_suffix_rtake {m : ℕ} (h : m ≤ n) : l.rtake m <:+ l.rtake n := by
  have hdrop : l.length - m = (l.length - n) + (l.length - m - (l.length - n)) := by omega
  rw [List.rtake, List.rtake, hdrop, ← List.drop_drop]
  exact List.drop_suffix _ _

variable [DecidableEq α]

theorem length_filter_notMem (hl : l.Nodup) (s : Finset α) :
    l.length ≤ (l.filter (· ∉ s)).length + s.card := by
  have hin : (l.filter (· ∈ s)).length ≤ s.card := by
    rw [← List.toFinset_card_of_nodup (hl.filter _)]
    refine Finset.card_le_card fun a ha => ?_
    rw [List.mem_toFinset, List.mem_filter] at ha
    exact of_decide_eq_true ha.2
  have hsplit := List.length_eq_length_filter_add (l := l) fun a => decide (a ∈ s)
  have hnot : (l.filter fun a => !decide (a ∈ s)) = l.filter (· ∉ s) :=
    List.filter_congr fun a _ => by rw [decide_not]
  rw [hnot] at hsplit
  omega

/-- What is left of the end of a list without some elements is the end of what is left of it. -/
theorem rtake_filter_rtake (hl : l.Nodup) (s : Finset α) :
    ((l.rtake n).filter (· ∉ s)).rtake (n - s.card) =
      (l.filter (· ∉ s)).rtake (n - s.card) := by
  by_cases hlen : l.length ≤ n
  · rw [rtake_of_length_le hlen]
  · have hsplit : l = l.take (l.length - n) ++ l.rtake n := (List.take_append_drop _ l).symm
    have htake : (l.rtake n).length = n := by
      rw [List.rtake, List.length_drop]
      omega
    have hnodup : (l.rtake n).Nodup := hl.sublist (List.drop_sublist _ _)
    have hleft := length_filter_notMem hnodup s
    conv_rhs => rw [hsplit, List.filter_append]
    rw [rtake_append_right (by omega)]

end Rtake

variable {α : Type*} [LinearOrder α]

/-- The index of the last set with the element. -/
def lastIndex (history : List (Finset α)) (a : α) : ℕ :=
  history.length - 1 - history.reverse.findIdx (a ∈ ·)

def committed (history : List (Finset α)) : Finset α :=
  history.foldl (· ∪ ·) ∅

/-- The elements of the sets with the index of the last set they are in, sorted. -/
def ranked (history : List (Finset α)) : List (ℕ ×ₗ α) :=
  ((committed history).image fun a => toLex (lastIndex history a, a)).sort (· ≤ ·)

/-- The elements of the sets, by the last set they are in and then by their order. -/
def recency (history : List (Finset α)) : List α :=
  (ranked history).map fun p => (ofLex p).2

theorem committed_concat (history : List (Finset α)) (s : Finset α) :
    committed (history ++ [s]) = committed history ∪ s := by
  rw [committed, List.foldl_append]
  rfl

theorem lastIndex_concat (history : List (Finset α)) (s : Finset α) (a : α) :
    lastIndex (history ++ [s]) a = if a ∈ s then history.length else lastIndex history a := by
  rw [lastIndex, List.reverse_append, List.reverse_singleton, List.singleton_append,
    List.findIdx_cons, List.length_append, List.length_singleton]
  split_ifs with h
  · rw [decide_eq_true h]
    rfl
  · rw [decide_eq_false h]
    show _ - (_ + 1) = _
    unfold lastIndex
    omega

theorem lastIndex_lt {history : List (Finset α)} {a : α} (h : a ∈ committed history) :
    lastIndex history a < history.length := by
  have hne : history ≠ [] := by
    rintro rfl
    exact Finset.notMem_empty a h
  have := List.length_pos_of_ne_nil hne
  unfold lastIndex
  omega

theorem mem_ranked {history : List (Finset α)} {p : ℕ ×ₗ α} :
    p ∈ ranked history ↔
      (ofLex p).2 ∈ committed history ∧ (ofLex p).1 = lastIndex history (ofLex p).2 := by
  rw [ranked, Finset.mem_sort, Finset.mem_image]
  constructor
  · rintro ⟨a, ha, rfl⟩
    exact ⟨ha, rfl⟩
  · rintro ⟨hmem, hindex⟩
    exact ⟨(ofLex p).2, hmem, by rw [← hindex]; rfl⟩

/-- One set more: its elements go to the end, in their order. -/
theorem ranked_concat (history : List (Finset α)) (s : Finset α) :
    ranked (history ++ [s]) = (ranked history).filter (fun p => (ofLex p).2 ∉ s) ++
      (s.sort (· ≤ ·)).map fun a => toLex (history.length, a) := by
  have hbefore : ∀ p ∈ (ranked history).filter (fun p => (ofLex p).2 ∉ s),
      (ofLex p).1 < history.length := by
    intro p hp
    obtain ⟨hmem, hindex⟩ := mem_ranked.mp (List.mem_of_mem_filter hp)
    rw [hindex]
    exact lastIndex_lt hmem
  have hinj : Function.Injective fun a : α => toLex (history.length, a) := fun a b h =>
    (Prod.mk.inj (toLex.injective h)).2
  have hnodup : ((ranked history).filter (fun p => (ofLex p).2 ∉ s) ++
      (s.sort (· ≤ ·)).map fun a => toLex (history.length, a)).Nodup := by
    refine List.Nodup.append ((Finset.sort_nodup _ _).filter _)
      ((Finset.sort_nodup _ _).map hinj) fun p hp hq => ?_
    obtain ⟨a, -, rfl⟩ := List.mem_map.mp hq
    exact absurd (hbefore _ hp) (lt_irrefl _)
  have hpairwise : ((ranked history).filter (fun p => (ofLex p).2 ∉ s) ++
      (s.sort (· ≤ ·)).map fun a => toLex (history.length, a)).Pairwise (· ≤ ·) := by
    refine List.pairwise_append.mpr ⟨(Finset.pairwise_sort _ _).filter _, ?_, ?_⟩
    · refine List.pairwise_map.mpr ((Finset.pairwise_sort s _).imp fun {a b} hab => ?_)
      exact Prod.Lex.toLex_le_toLex.mpr (.inr ⟨rfl, hab⟩)
    · intro p hp q hq
      obtain ⟨a, -, rfl⟩ := List.mem_map.mp hq
      exact Prod.Lex.le_iff.mpr (.inl (hbefore p hp))
  rw [← (List.toFinset_sort (· ≤ ·) hnodup).mpr hpairwise, ranked]
  congr 1
  ext p
  rw [List.mem_toFinset, List.mem_append, List.mem_filter, mem_ranked, List.mem_map,
    Finset.mem_image]
  simp only [committed_concat, lastIndex_concat, Finset.mem_union, Finset.mem_sort,
    decide_eq_true_eq]
  constructor
  · rintro ⟨a, ha, rfl⟩
    by_cases hs : a ∈ s
    · exact .inr ⟨a, hs, by rw [if_pos hs]⟩
    · rw [if_neg hs]
      exact .inl ⟨⟨ha.resolve_right hs, rfl⟩, hs⟩
  · rintro (⟨⟨hmem, hindex⟩, hs⟩ | ⟨a, ha, rfl⟩)
    · exact ⟨(ofLex p).2, .inl hmem, by rw [if_neg hs, ← hindex]; rfl⟩
    · exact ⟨a, .inr ha, by rw [if_pos ha]⟩

theorem recency_concat (history : List (Finset α)) (s : Finset α) :
    recency (history ++ [s]) = (recency history).filter (· ∉ s) ++ s.sort (· ≤ ·) := by
  rw [recency, ranked_concat, List.map_append, List.map_map, recency, List.filter_map]
  congr 1
  exact List.map_id _

@[simp] theorem recency_nil : recency ([] : List (Finset α)) = [] := by
  rw [recency, ranked, committed, List.foldl_nil, Finset.image_empty, Finset.sort_empty,
    List.map_nil]

theorem nodup_recency (history : List (Finset α)) : (recency history).Nodup := by
  refine List.Nodup.map_on (fun p hp q hq hpq => ?_) (Finset.sort_nodup _ _)
  have hpair : ofLex p = ofLex q := by
    refine Prod.ext ?_ hpq
    rw [(mem_ranked.mp hp).2, (mem_ranked.mp hq).2, hpq]
  exact ofLex.injective hpair

end Umm.Lib
