import Mathlib.Tactic
import Mathlib.Data.Finset.Card
import Mathlib.Order.Interval.Finset.Nat

/-! Runs of consecutive pages and the books of a page allocator: which pages are
in use, which runs are live, and how many pages are left. -/
namespace Umm.Lib

structure Run where
  start : ℕ
  len : ℕ
deriving DecidableEq, Repr

namespace Run

def Covers (r : Run) (p : ℕ) : Prop := r.start ≤ p ∧ p < r.start + r.len

instance (r : Run) (p : ℕ) : Decidable (r.Covers p) := by
  unfold Covers
  infer_instance

def Apart (r s : Run) : Prop := ∀ p, r.Covers p → ¬ s.Covers p

theorem Apart.symm {r s : Run} (h : r.Apart s) : s.Apart r := fun p hs hr => h p hr hs

end Run

/-- Every page of the `n` pages from `p` on is unused. -/
def FreeRun (used : ℕ → Bool) (p n : ℕ) : Prop := ∀ q, p ≤ q → q < p + n → used q = false

/-- `p` is the lowest start in `[lo, hi)` of a free run of `n` pages that ends by `hi`. -/
structure LowestFree (used : ℕ → Bool) (lo hi n p : ℕ) : Prop where
  ge : lo ≤ p
  fits : p + n ≤ hi
  free : FreeRun used p n
  lowest : ∀ q, lo ≤ q → q < p → ¬ FreeRun used q n

theorem LowestFree.unique {used : ℕ → Bool} {lo hi n p q : ℕ} (hp : LowestFree used lo hi n p)
    (hq : LowestFree used lo hi n q) : p = q := by
  rcases lt_trichotomy p q with h | h | h
  · exact absurd hp.free (hq.lowest p hp.ge h)
  · exact h
  · exact absurd hq.free (hp.lowest q hq.ge h)

/-- No free run of `n` pages lies in `[lo, hi)`. -/
def NoneFree (used : ℕ → Bool) (lo hi n : ℕ) : Prop :=
  ∀ q, lo ≤ q → q + n ≤ hi → ¬ FreeRun used q n

/-- The live runs lie below `total`, share no page, and cover exactly the used pages. -/
structure Books {ι : Type*} (run : ι → Run) (used : ℕ → Bool) (total : ℕ) (live : List ι) :
    Prop where
  inside : ∀ a ∈ live, (run a).start + (run a).len ≤ total
  apart : live.Pairwise (fun a b => (run a).Apart (run b))
  exact : ∀ p < total, used p = true ↔ ∃ a ∈ live, (run a).Covers p

namespace Books

variable {ι : Type*} {run : ι → Run} {used used' : ℕ → Bool} {total : ℕ} {live : List ι}

theorem empty (h : ∀ p < total, used p = false) : Books run used total [] where
  inside := by simp
  apart := List.Pairwise.nil
  exact := by
    intro p hp
    simp [h p hp]

/-- A run of unused pages may be handed out. -/
theorem alloc (hb : Books run used total live) (a : ι)
    (hin : (run a).start + (run a).len ≤ total)
    (hfree : FreeRun used (run a).start (run a).len)
    (hused : ∀ p < total, used' p = (decide ((run a).Covers p) || used p)) :
    Books run used' total (a :: live) where
  inside := by
    intro b hb'
    rcases List.mem_cons.mp hb' with rfl | hm
    · exact hin
    · exact hb.inside b hm
  apart := by
    refine List.pairwise_cons.mpr ⟨?_, hb.apart⟩
    intro b hm p hp hq
    have hlt : p < total := by
      have := hb.inside b hm
      unfold Run.Covers at hq
      omega
    have hu : used p = true := (hb.exact p hlt).mpr ⟨b, hm, hq⟩
    rw [hfree p hp.1 hp.2] at hu
    exact Bool.false_ne_true hu
  exact := by
    intro p hp
    rw [hused p hp, Bool.or_eq_true, decide_eq_true_iff, hb.exact p hp]
    simp

/-- A live run may be taken back: its pages, and no others, become unused. -/
theorem free [BEq ι] [LawfulBEq ι] (hb : Books run used total live) (a : ι) (ha : a ∈ live)
    (hused : ∀ p < total, used' p = (!decide ((run a).Covers p) && used p)) :
    Books run used' total (live.erase a) where
  inside := fun b hm => hb.inside b (List.mem_of_mem_erase hm)
  apart := hb.apart.sublist List.erase_sublist
  exact := by
    have hperm := List.perm_cons_erase ha
    have hp := (hperm.pairwise_iff (fun h => h.symm)).mp hb.apart
    have hapart := (List.pairwise_cons.mp hp).1
    intro p hlt
    rw [hused p hlt, Bool.and_eq_true, Bool.not_eq_true', decide_eq_false_iff_not, hb.exact p hlt]
    constructor
    · rintro ⟨hn, b, hm, hc⟩
      rcases List.mem_cons.mp (hperm.subset hm) with rfl | he
      · exact absurd hc hn
      · exact ⟨b, he, hc⟩
    · rintro ⟨b, hm, hc⟩
      exact ⟨fun h => hapart b hm p h hc, b, List.mem_of_mem_erase hm, hc⟩

/-- New pages that start out unused may be appended. -/
theorem grow {total' : ℕ} (hb : Books run used total live) (hle : total ≤ total')
    (hold : ∀ p < total, used' p = used p)
    (hnew : ∀ p, total ≤ p → p < total' → used' p = false) : Books run used' total' live where
  inside := fun a ha => (hb.inside a ha).trans hle
  apart := hb.apart
  exact := by
    intro p hp
    by_cases h : p < total
    · rw [hold p h, hb.exact p h]
    · rw [hnew p (Nat.le_of_not_lt h) hp]
      simp only [Bool.false_eq_true, false_iff, not_exists, not_and]
      intro a ha hc
      have := hb.inside a ha
      unfold Run.Covers at hc
      omega

/-- All pages of a live run are used. -/
theorem used_of_mem (hb : Books run used total live) {a : ι} (ha : a ∈ live) {p : ℕ}
    (hp : (run a).Covers p) : used p = true := by
  have hin := hb.inside a ha
  refine (hb.exact p ?_).mpr ⟨a, ha, hp⟩
  unfold Run.Covers at hp
  omega

end Books

/-- The number of unused pages below `total`. -/
def freeCount (used : ℕ → Bool) (total : ℕ) : ℕ :=
  ((Finset.range total).filter (fun p => used p = false)).card

theorem freeCount_le (used : ℕ → Bool) (total : ℕ) : freeCount used total ≤ total := by
  calc
    freeCount used total ≤ (Finset.range total).card := Finset.card_filter_le _ _
    _ = total := Finset.card_range total

theorem freeCount_of_unused {used : ℕ → Bool} {total : ℕ} (h : ∀ p < total, used p = false) :
    freeCount used total = total := by
  unfold freeCount
  rw [Finset.filter_true_of_mem (fun p hp => h p (Finset.mem_range.mp hp)), Finset.card_range]

/-- Taking an unused run costs exactly its length. -/
theorem freeCount_take {used used' : ℕ → Bool} {total : ℕ} (r : Run)
    (hin : r.start + r.len ≤ total) (hfree : FreeRun used r.start r.len)
    (hused : ∀ p < total, used' p = (decide (r.Covers p) || used p)) :
    freeCount used' total + r.len = freeCount used total := by
  have hsplit : (Finset.range total).filter (fun p => used p = false) =
      (Finset.range total).filter (fun p => used' p = false) ∪
        Finset.Ico r.start (r.start + r.len) := by
    ext p
    simp only [Finset.mem_filter, Finset.mem_range, Finset.mem_union, Finset.mem_Ico]
    constructor
    · rintro ⟨hp, hu⟩
      by_cases hc : r.Covers p
      · exact Or.inr hc
      · refine Or.inl ⟨hp, ?_⟩
        simp [hused p hp, hc, hu]
    · rintro (⟨hp, hu⟩ | hc)
      · rw [hused p hp, Bool.or_eq_false_iff] at hu
        exact ⟨hp, hu.2⟩
      · exact ⟨by omega, hfree p hc.1 hc.2⟩
  have hdisj : Disjoint ((Finset.range total).filter (fun p => used' p = false))
      (Finset.Ico r.start (r.start + r.len)) := by
    rw [Finset.disjoint_left]
    intro p hp hc
    simp only [Finset.mem_filter, Finset.mem_range, Finset.mem_Ico] at hp hc
    have hcov : r.Covers p := hc
    rw [hused p hp.1, decide_eq_true hcov, Bool.true_or] at hp
    exact Bool.noConfusion hp.2
  unfold freeCount
  rw [hsplit, Finset.card_union_of_disjoint hdisj, Nat.card_Ico, Nat.add_sub_cancel_left]

/-- A free run is no longer than the number of free pages. -/
theorem FreeRun.le_freeCount {used : ℕ → Bool} {total p n : ℕ} (h : FreeRun used p n)
    (hin : p + n ≤ total) : n ≤ freeCount used total := by
  have htake : freeCount (fun q => decide ((⟨p, n⟩ : Run).Covers q) || used q) total + n =
      freeCount used total := freeCount_take ⟨p, n⟩ hin h (fun _ _ => rfl)
  omega

/-- Giving back a used run gains exactly its length. -/
theorem freeCount_give {used used' : ℕ → Bool} {total : ℕ} (r : Run)
    (hin : r.start + r.len ≤ total) (hall : ∀ p, r.Covers p → used p = true)
    (hused : ∀ p < total, used' p = (!decide (r.Covers p) && used p)) :
    freeCount used' total = freeCount used total + r.len := by
  refine (freeCount_take r hin ?_ ?_).symm
  · intro p h1 h2
    have hc : r.Covers p := ⟨h1, h2⟩
    rw [hused p (by omega), decide_eq_true hc]
    rfl
  · intro p hp
    rw [hused p hp]
    by_cases hc : r.Covers p
    · simp [hc, hall p hc]
    · simp [hc]

/-- Appending unused pages adds their number. -/
theorem freeCount_grow {used used' : ℕ → Bool} {total total' : ℕ} (hle : total ≤ total')
    (hold : ∀ p < total, used' p = used p)
    (hnew : ∀ p, total ≤ p → p < total' → used' p = false) :
    freeCount used' total' = freeCount used total + (total' - total) := by
  have hsplit : (Finset.range total').filter (fun p => used' p = false) =
      (Finset.range total).filter (fun p => used p = false) ∪ Finset.Ico total total' := by
    ext p
    simp only [Finset.mem_filter, Finset.mem_range, Finset.mem_union, Finset.mem_Ico]
    constructor
    · rintro ⟨hp, hu⟩
      by_cases h : p < total
      · exact Or.inl ⟨h, by rw [← hold p h]; exact hu⟩
      · exact Or.inr ⟨by omega, hp⟩
    · rintro (⟨hp, hu⟩ | ⟨h1, h2⟩)
      · exact ⟨by omega, by rw [hold p hp]; exact hu⟩
      · exact ⟨h2, hnew p h1 h2⟩
  have hdisj : Disjoint ((Finset.range total).filter (fun p => used p = false))
      (Finset.Ico total total') := by
    rw [Finset.disjoint_left]
    intro p hp hc
    simp only [Finset.mem_filter, Finset.mem_range, Finset.mem_Ico] at hp hc
    omega
  unfold freeCount
  rw [hsplit, Finset.card_union_of_disjoint hdisj, Nat.card_Ico]

end Umm.Lib
