import Mathlib.Tactic
import Mathlib.Data.Finset.Card

/-! Finite sets from which some elements are taken out and others put in. -/
namespace Umm.Lib

variable {α : Type*} [DecidableEq α]

def exchange (s out new : Finset α) : Finset α := (s \ out) ∪ new

variable {s out new : Finset α}

theorem mem_exchange {a : α} : a ∈ exchange s out new ↔ a ∈ s ∧ a ∉ out ∨ a ∈ new := by
  rw [exchange, Finset.mem_union, Finset.mem_sdiff]

@[simp] theorem exchange_empty (s : Finset α) : exchange s ∅ ∅ = s := by
  simp [exchange]

theorem card_filter_exchange (p : α → Prop) [DecidablePred p] (hnew : Disjoint s new) :
    ((exchange s out new).filter p).card =
      ((s \ out).filter p).card + (new.filter p).card := by
  have hdisj : Disjoint ((s \ out).filter p) (new.filter p) :=
    Finset.disjoint_filter_filter (hnew.mono_left Finset.sdiff_subset)
  rw [exchange, Finset.filter_union, Finset.card_union_of_disjoint hdisj]

theorem card_exchange (hout : out ⊆ s) (hnew : Disjoint s new) (hcard : out.card = new.card) :
    (exchange s out new).card = s.card := by
  have hle := Finset.card_le_card hout
  rw [exchange, Finset.card_union_of_disjoint (hnew.mono_left Finset.sdiff_subset),
    Finset.card_sdiff_of_subset hout]
  omega

/-- Elements outside of both sets stay. -/
theorem exchange_inter {t : Finset α} (hout : Disjoint out t) (hnew : Disjoint new t) :
    exchange s out new ∩ t = s ∩ t := by
  ext a
  rw [Finset.mem_inter, Finset.mem_inter, mem_exchange]
  constructor
  · rintro ⟨⟨ha, -⟩ | ha, ht⟩
    · exact ⟨ha, ht⟩
    · exact absurd ht (Finset.disjoint_left.mp hnew ha)
  · rintro ⟨ha, ht⟩
    exact ⟨.inl ⟨ha, fun ho => Finset.disjoint_left.mp hout ho ht⟩, ht⟩

theorem sdiff_exchange (hout : out ⊆ s) (hnew : Disjoint s new) : s \ exchange s out new = out := by
  ext a
  rw [Finset.mem_sdiff, mem_exchange]
  constructor
  · rintro ⟨ha, hnot⟩
    by_contra ho
    exact hnot (.inl ⟨ha, ho⟩)
  · intro ho
    have ha := hout ho
    refine ⟨ha, ?_⟩
    rintro (⟨-, hno⟩ | hn)
    · exact hno ho
    · exact Finset.disjoint_left.mp hnew ha hn

theorem exchange_sdiff (hnew : Disjoint s new) : exchange s out new \ s = new := by
  ext a
  rw [Finset.mem_sdiff, mem_exchange]
  constructor
  · rintro ⟨⟨ha, -⟩ | ha, hs⟩
    · exact absurd ha hs
    · exact ha
  · intro ha
    exact ⟨.inr ha, fun hs => Finset.disjoint_left.mp hnew hs ha⟩

/-- One more element on either side. -/
theorem exchange_insert {a b : α} (ha : a ∉ new) :
    insert b ((exchange s out new).erase a) = exchange s (insert a out) (insert b new) := by
  ext c
  simp only [Finset.mem_insert, Finset.mem_erase, mem_exchange]
  constructor
  · rintro (rfl | ⟨hca, ⟨hc, hco⟩ | hc⟩)
    · exact .inr (.inl rfl)
    · refine .inl ⟨hc, ?_⟩
      rintro (rfl | ho)
      · exact hca rfl
      · exact hco ho
    · exact .inr (.inr hc)
  · rintro (⟨hc, hco⟩ | rfl | hc)
    · exact .inr ⟨fun h => hco (.inl h), .inl ⟨hc, fun h => hco (.inr h)⟩⟩
    · exact .inl rfl
    · refine .inr ⟨?_, .inr hc⟩
      rintro rfl
      exact ha hc

end Umm.Lib
