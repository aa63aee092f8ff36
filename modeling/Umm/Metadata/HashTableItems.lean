import Umm.Metadata.HashTable

/-! Values in the name table come from insertions: what holds of every value inserted holds of
every value that the table holds. -/
namespace Umm
open Umm.Lib

variable {V : Type} {P : V → Prop}

/-- Every item in the slots has a value with the property. -/
def AllItems (P : V → Prop) (entries : List (MHTEntry V)) : Prop :=
  ∀ item, .full item ∈ entries → P item.value

def MetaHashTable.AllValues (P : V → Prop) (ht : MetaHashTable V) : Prop := AllItems P ht.entries

namespace AllItems

variable {entries : List (MHTEntry V)}

theorem replicate (n : ℕ) : AllItems P (List.replicate n (.empty : MHTEntry V)) := by
  intro item h
  cases List.eq_of_mem_replicate h

theorem set (h : AllItems P entries) {item : MHTItem V} (hi : P item.value) (idx : ℕ) :
    AllItems P (entries.set idx (.full item)) := by
  intro x hx
  rcases List.mem_or_eq_of_mem_set hx with hx | hx
  · exact h x hx
  · cases hx
    exact hi

theorem delete (h : AllItems P entries) (idx : ℕ) : AllItems P (entries.set idx .deleted) := by
  intro x hx
  rcases List.mem_or_eq_of_mem_set hx with hx | hx
  · exact h x hx
  · cases hx

theorem slotAt (h : AllItems P entries) {idx : ℕ} {item : MHTItem V}
    (hs : slotAt entries idx = .full item) : P item.value := by
  unfold Umm.slotAt at hs
  rw [List.getD_eq_getElem?_getD] at hs
  cases he : entries[idx]? with
  | none => simp [he] at hs
  | some slot =>
    simp only [he, Option.getD_some] at hs
    subst hs
    exact h item (List.mem_of_getElem? he)

end AllItems

theorem reinsertLoop_items {capacity : ℕ} :
    ∀ fuel (entries : List (MHTEntry V)) item idx dist out, AllItems P entries → P item.value →
      reinsertLoop capacity fuel entries item idx dist = some out → AllItems P out := by
  intro fuel
  induction fuel with
  | zero =>
    intro entries item idx dist out _ _ h
    cases h
  | succ fuel ih =>
    intro entries item idx dist out hall hi h
    unfold reinsertLoop at h
    split at h
    · rename_i there hs
      dsimp only at h
      split_ifs at h
      · exact ih _ _ _ _ _ (hall.set hi idx) (hall.slotAt hs) h
      · exact ih _ _ _ _ _ hall hi h
    · obtain rfl := Option.some.inj h
      exact hall.set hi idx

theorem reinsertAll_items {capacity : ℕ} :
    ∀ (old entries : List (MHTEntry V)) count out, AllItems P old → AllItems P entries →
      reinsertAll capacity old entries count = some out → AllItems P out.1 := by
  intro old
  induction old with
  | nil =>
    intro entries count out _ hall h
    obtain rfl := Option.some.inj h
    exact hall
  | cons slot old ih =>
    intro entries count out hold hall h
    have hrest : AllItems P old := fun x hx => hold x (List.mem_cons_of_mem slot hx)
    cases slot with
    | full item =>
      unfold reinsertAll at h
      cases hr : reinsertLoop capacity capacity entries item (desiredPos item.hash capacity) 0 with
      | none => simp [hr] at h
      | some entries' =>
        simp only [hr] at h
        exact ih entries' _ out hrest
          (reinsertLoop_items _ _ _ _ _ _ hall (hold item List.mem_cons_self) hr) h
    | empty => exact ih entries count out hrest hall h
    | deleted => exact ih entries count out hrest hall h

theorem mhtMaybeGrow_values {ht ht' : MetaHashTable V} (hall : ht.AllValues P)
    (h : mhtMaybeGrow ht = some ht') : ht'.AllValues P := by
  unfold mhtMaybeGrow at h
  dsimp only at h
  split at h
  · obtain rfl := Option.some.inj h
    exact hall
  · obtain ⟨r, hr, rfl⟩ := Option.map_eq_some_iff.mp h
    exact reinsertAll_items _ _ _ _ hall (.replicate _) hr

theorem mhtInsertLoop_items {capacity : ℕ} {key : CString} :
    ∀ fuel (entries : List (MHTEntry V)) item hash idx dist out, AllItems P entries →
      P item.value → mhtInsertLoop capacity key fuel entries item hash idx dist = some out →
      AllItems P out.1 ∧ ∀ last s, out.2 = some (last, s) → P last.value := by
  intro fuel
  induction fuel with
  | zero =>
    intro entries item hash idx dist out _ _ h
    cases h
  | succ fuel ih =>
    intro entries item hash idx dist out hall hi h
    unfold mhtInsertLoop at h
    split at h
    · rename_i there hs
      dsimp only at h
      split_ifs at h
      · obtain rfl := Option.some.inj h
        exact ⟨hall, by simp⟩
      · exact ih _ _ _ _ _ _ (hall.set hi idx) (hall.slotAt hs) h
      · exact ih _ _ _ _ _ _ hall hi h
    · obtain rfl := Option.some.inj h
      refine ⟨hall, ?_⟩
      rintro last s ⟨⟩
      exact hi

theorem mhtInsert_values {ht : MetaHashTable V} {key : CString} {value : V}
    {r : Except Error Unit × MetaHashTable V} (hall : ht.AllValues P) (hv : P value)
    (h : mhtInsert ht key value = some r) : r.2.AllValues P := by
  obtain ⟨ht1, hg, h⟩ := Option.bind_eq_some_iff.mp h
  have hall1 := mhtMaybeGrow_values hall hg
  unfold mhtInsertGrown at h
  dsimp only at h
  split at h
  · cases h
  · rename_i entries hloop
    obtain rfl := Option.some.inj h
    exact (mhtInsertLoop_items _ _ _ _ _ _ _ hall1 hv hloop).1
  · rename_i entries entry idx hloop
    obtain ⟨hout, hlast⟩ := mhtInsertLoop_items _ _ _ _ _ _ _ hall1 hv hloop
    obtain rfl := Option.some.inj h
    exact AllItems.set hout (hlast entry idx rfl) idx

theorem mhtRemove_values {ht : MetaHashTable V} (hall : ht.AllValues P) (key : CString) :
    (mhtRemove ht key).2.AllValues P := by
  unfold mhtRemove
  split
  · exact hall
  · exact AllItems.delete hall _

theorem mhtLookup_value {ht : MetaHashTable V} (hall : ht.AllValues P) {key : CString} {v : V}
    (h : mhtLookup ht key = .ok v) : P v := by
  unfold mhtLookup at h
  split at h
  · cases h
  · split at h
    · rename_i there hs
      obtain rfl := Except.ok.inj h
      exact AllItems.slotAt hall hs
    · cases h

theorem mhtCreate_values {initialCapacity : ℕ} {ht : MetaHashTable V}
    (h : mhtCreate V initialCapacity = some ht) : ht.AllValues P := by
  obtain ⟨cap, -, rfl⟩ := Option.map_eq_some_iff.mp h
  exact .replicate cap

end Umm
