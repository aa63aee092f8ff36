import Mathlib.Tactic
import Mathlib.Data.List.AList

/-! Dictionaries filled by a loop: pair after pair, with the best element of each group, or with
counts that add up. -/
namespace Umm.Lib

/-- A dictionary from `κ` to `ν`; the order of its entries does not count. -/
abbrev Dict (κ ν : Type*) := AList fun _ : κ => ν

variable {κ ν : Type*} [DecidableEq κ]

/-- A later pair replaces an earlier one with its key. -/
def dictOf (pairs : List (κ × ν)) : Dict κ ν :=
  pairs.foldl (fun d pair => d.insert pair.1 pair.2) ∅

theorem dictOf_concat (pairs : List (κ × ν)) (pair : κ × ν) :
    dictOf (pairs ++ [pair]) = (dictOf pairs).insert pair.1 pair.2 := by
  rw [dictOf, List.foldl_append]
  rfl

theorem lookup_insert_eq (d : Dict κ ν) (k k' : κ) (v : ν) :
    (d.insert k v).lookup k' = if k' = k then some v else d.lookup k' := by
  split_ifs with h
  · rw [h, AList.lookup_insert]
  · exact AList.lookup_insert_ne h

theorem mem_of_lookup_dictOf {pairs : List (κ × ν)} {k : κ} {v : ν}
    (h : (dictOf pairs).lookup k = some v) : (k, v) ∈ pairs := by
  induction pairs using List.reverseRecOn with
  | nil => cases h
  | append_singleton pairs pair ih =>
    rw [dictOf_concat, lookup_insert_eq] at h
    split_ifs at h with hk
    · obtain rfl := Option.some.inj h
      rw [hk]
      exact List.mem_append_right _ List.mem_cons_self
    · exact List.mem_append_left _ (ih h)

theorem lookup_dictOf_isSome {pairs : List (κ × ν)} {k : κ} :
    ((dictOf pairs).lookup k).isSome ↔ ∃ v, (k, v) ∈ pairs := by
  constructor
  · intro h
    obtain ⟨v, hv⟩ := Option.isSome_iff_exists.mp h
    exact ⟨v, mem_of_lookup_dictOf hv⟩
  · rintro ⟨v, hv⟩
    induction pairs using List.reverseRecOn with
    | nil => cases hv
    | append_singleton pairs pair ih =>
      rw [dictOf_concat, lookup_insert_eq]
      split_ifs with hk
      · rfl
      · rcases List.mem_append.mp hv with hv | hv
        · exact ih hv
        · rw [← List.mem_singleton.mp hv] at hk
          exact absurd rfl hk

/-- With keys that differ, the dictionary has exactly the pairs. -/
theorem lookup_dictOf_iff {pairs : List (κ × ν)} (hkeys : (pairs.map (·.1)).Nodup) {k : κ}
    {v : ν} : (dictOf pairs).lookup k = some v ↔ (k, v) ∈ pairs := by
  constructor
  · exact mem_of_lookup_dictOf
  · intro h
    obtain ⟨v', hv'⟩ := Option.isSome_iff_exists.mp (lookup_dictOf_isSome.mpr ⟨v, h⟩)
    have hsame := List.inj_on_of_nodup_map hkeys (mem_of_lookup_dictOf hv') h rfl
    rw [hv', (Prod.mk.inj hsame).2]

theorem map_fst_zipIdx {α : Type*} (l : List α) : l.zipIdx.map (·.1) = l := by
  simp

/-- The position of each element, as `enumerate` counts them. -/
theorem lookup_positions_iff {α : Type*} [DecidableEq α] {l : List α} (hl : l.Nodup) {a : α}
    {i : ℕ} : (dictOf l.zipIdx).lookup a = some i ↔ l[i]? = some a := by
  rw [lookup_dictOf_iff (by rwa [map_fst_zipIdx])]
  exact List.mem_zipIdx_iff_getElem?

section Groups

variable {α θ : Type*} [LinearOrder θ] (group : α → κ) (key : α → θ)

/-- The loop that keeps the element of least key in each group. -/
def groupBest (l : List α) : Dict κ α :=
  l.foldl (fun best a =>
    if (best.lookup (group a)).all fun b => key a < key b then best.insert (group a) a
    else best) ∅

variable {group key}

theorem groupBest_concat (l : List α) (a : α) :
    groupBest group key (l ++ [a]) =
      if ((groupBest group key l).lookup (group a)).all fun b => key a < key b then
        (groupBest group key l).insert (group a) a
      else groupBest group key l := by
  rw [groupBest, List.foldl_append]
  rfl

variable (group key) in
theorem groupBest_isSome {l : List α} {a : α} (h : a ∈ l) :
    ((groupBest group key l).lookup (group a)).isSome := by
  induction l using List.reverseRecOn with
  | nil => cases h
  | append_singleton l b ih =>
    rw [groupBest_concat]
    rcases List.mem_append.mp h with h | h
    · have hin := ih h
      split_ifs with hb
      · rw [lookup_insert_eq]
        split_ifs
        · rfl
        · exact hin
      · exact hin
    · obtain rfl := List.mem_singleton.mp h
      split_ifs with hb
      · rw [AList.lookup_insert]
        rfl
      · cases hnone : (groupBest group key l).lookup (group a) with
        | none => simp [hnone] at hb
        | some c => rfl

/-- What stands for a group is in it, and no element of the group has a smaller key. -/
theorem groupBest_least {l : List α} {g : κ} {a : α}
    (h : (groupBest group key l).lookup g = some a) :
    a ∈ l ∧ group a = g ∧ ∀ b ∈ l, group b = g → key a ≤ key b := by
  induction l using List.reverseRecOn generalizing a with
  | nil => cases h
  | append_singleton l c ih =>
    rw [groupBest_concat] at h
    split_ifs at h with hbetter
    · rw [lookup_insert_eq] at h
      split_ifs at h with hg
      · obtain rfl := Option.some.inj h
        refine ⟨List.mem_append_right _ List.mem_cons_self, hg.symm, fun b hb hgroup => ?_⟩
        rcases List.mem_append.mp hb with hb | hb
        · obtain ⟨best, hbest⟩ := Option.isSome_iff_exists.mp
            (groupBest_isSome group key hb)
          have hlow := (ih (hgroup ▸ hbest)).2.2 b hb hgroup
          rw [hgroup, hg] at hbest
          rw [hbest, Option.all_some] at hbetter
          exact (of_decide_eq_true hbetter).le.trans hlow
        · rw [List.mem_singleton.mp hb]
      · obtain ⟨hin, hgroup, hlow⟩ := ih h
        refine ⟨List.mem_append_left _ hin, hgroup, fun b hb hb' => ?_⟩
        rcases List.mem_append.mp hb with hb | hb
        · exact hlow b hb hb'
        · rw [List.mem_singleton.mp hb] at hb'
          exact absurd hb'.symm hg
    · obtain ⟨hin, hgroup, hlow⟩ := ih h
      refine ⟨List.mem_append_left _ hin, hgroup, fun b hb hb' => ?_⟩
      rcases List.mem_append.mp hb with hb | hb
      · exact hlow b hb hb'
      · obtain rfl := List.mem_singleton.mp hb
        rw [hb', h, Option.all_some] at hbetter
        exact not_lt.mp fun hlt => hbetter (decide_eq_true hlt)

/-- The elements that stand for the groups. -/
def groupValues (best : Dict κ α) : List α := best.entries.map (·.2)

theorem mem_groupValues {l : List α}
    (hkey : ∀ a ∈ l, ∀ b ∈ l, key a = key b → a = b) {a : α} :
    a ∈ groupValues (groupBest group key l) ↔
      a ∈ l ∧ ∀ b ∈ l, group b = group a → key a ≤ key b := by
  unfold groupValues
  rw [List.mem_map]
  constructor
  · rintro ⟨⟨g, b⟩, hentry, rfl⟩
    obtain ⟨hin, hgroup, hlow⟩ := groupBest_least (AList.mem_lookup_iff.mpr hentry)
    exact ⟨hin, fun b' hb' hb'' => hlow b' hb' (hb''.trans hgroup)⟩
  · rintro ⟨hin, hlow⟩
    obtain ⟨b, hb⟩ := Option.isSome_iff_exists.mp (groupBest_isSome group key hin)
    obtain ⟨hbin, hgroup, hblow⟩ := groupBest_least hb
    have hsame : b = a :=
      hkey b hbin a hin (le_antisymm (hblow a hin rfl) (hlow b hbin hgroup))
    subst hsame
    exact ⟨⟨group b, b⟩, AList.mem_lookup_iff.mp hb, rfl⟩

theorem mem_of_mem_groupValues {l : List α} {a : α}
    (h : a ∈ groupValues (groupBest group key l)) : a ∈ l := by
  obtain ⟨⟨g, b⟩, hentry, rfl⟩ := List.mem_map.mp h
  exact (groupBest_least (AList.mem_lookup_iff.mpr hentry)).1

theorem groupValues_ne_nil {l : List α} (h : l ≠ []) : groupValues (groupBest group key l) ≠ [] := by
  obtain ⟨a, ha⟩ := List.exists_mem_of_ne_nil l h
  obtain ⟨b, hb⟩ := Option.isSome_iff_exists.mp (groupBest_isSome group key ha)
  exact List.ne_nil_of_mem (List.mem_map.mpr ⟨_, AList.mem_lookup_iff.mp hb, rfl⟩)

theorem nodup_groupValues (l : List α) : (groupValues (groupBest group key l)).Nodup := by
  have hgroups : (groupValues (groupBest group key l)).map group =
      (groupBest group key l).keys := by
    rw [groupValues, List.map_map, AList.keys, List.keys]
    refine List.map_congr_left fun entry hentry => ?_
    obtain ⟨g, a⟩ := entry
    exact (groupBest_least (AList.mem_lookup_iff.mpr hentry)).2.1
  exact List.Nodup.of_map group (hgroups ▸ AList.keys_nodup _)

end Groups

section Sorting

variable {α θ : Type*} [LinearOrder θ]

/-- The stable sort by a key. -/
def sortBy (key : α → θ) (l : List α) : List α := l.insertionSort fun a b => key a ≤ key b

variable {key : α → θ} {l l' : List α}

theorem perm_sortBy : (sortBy key l).Perm l := List.perm_insertionSort _ _

theorem mem_sortBy {a : α} : a ∈ sortBy key l ↔ a ∈ l := perm_sortBy.mem_iff

theorem pairwise_sortBy : (sortBy key l).Pairwise fun a b => key a ≤ key b := by
  have : Std.Total (fun a b : α => key a ≤ key b) := ⟨fun a b => le_total _ _⟩
  have : IsTrans α (fun a b => key a ≤ key b) := ⟨fun a b c => le_trans⟩
  exact List.pairwise_insertionSort _ _

/-- Where no two elements have one key, the order of the input does not count. -/
theorem sortBy_perm (hkey : ∀ a ∈ l, ∀ b ∈ l, key a = key b → a = b) (h : l.Perm l') :
    sortBy key l = sortBy key l' := by
  refine List.Perm.eq_of_pairwise (fun a b ha hb hab hba => ?_) pairwise_sortBy pairwise_sortBy
    ((perm_sortBy.trans h).trans perm_sortBy.symm)
  exact hkey a (mem_sortBy.mp ha) b (h.mem_iff.mpr (mem_sortBy.mp hb)) (le_antisymm hab hba)

end Sorting

end Umm.Lib
