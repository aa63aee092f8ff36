import Mathlib.Tactic
import Mathlib.Algebra.Order.Floor.Div

/-! Units that are put in blocks of one size. A flush leaves the rest of its block empty, so that a
group of units that is flushed takes whole blocks. -/
namespace Umm.Lib

variable {k : ℕ}

/-- What is left of whole blocks for later groups. -/
theorem left_of_blocks (hk : 0 < k) {q n : ℕ} (hn : n ≤ q * k) :
    (q * k - n) / k * k = (q - n ⌈/⌉ k) * k := by
  have hle : n ⌈/⌉ k ≤ q := (ceilDiv_le_iff_le_mul hk).mpr (by rwa [mul_comm])
  have hcover : n ≤ n ⌈/⌉ k * k := by
    have := (ceilDiv_le_iff_le_mul (b := n) hk).mp le_rfl
    rwa [mul_comm] at this
  have hwaste : n ⌈/⌉ k * k < n + k := by
    rw [Nat.ceilDiv_eq_add_pred_div]
    have := Nat.div_mul_le_self (n + k - 1) k
    omega
  have hsplit : q * k = (q - n ⌈/⌉ k) * k + n ⌈/⌉ k * k := by
    rw [← add_mul, Nat.sub_add_cancel hle]
  congr 1
  apply Nat.div_eq_of_lt_le
  · omega
  · rw [add_mul, one_mul]
    omega

/-- The groups fit one after another, each flushed before the next. -/
def FitsGroups (k : ℕ) : ℕ → List ℕ → Prop
  | _, [] => True
  | room, n :: groups => n ≤ room ∧ FitsGroups k ((room - n) / k * k) groups

/-- Groups fit whole blocks exactly when the blocks that they take do. -/
theorem fitsGroups_iff (hk : 0 < k) {q : ℕ} {groups : List ℕ} :
    FitsGroups k (q * k) groups ↔ (groups.map (· ⌈/⌉ k)).sum ≤ q := by
  induction groups generalizing q with
  | nil => simp [FitsGroups]
  | cons n groups ih =>
    have hfirst : n ≤ q * k ↔ n ⌈/⌉ k ≤ q := by
      rw [ceilDiv_le_iff_le_mul hk, mul_comm]
    unfold FitsGroups
    rw [List.map_cons, List.sum_cons]
    constructor
    · rintro ⟨hn, hrest⟩
      rw [left_of_blocks hk hn, ih] at hrest
      have := hfirst.mp hn
      omega
    · intro hsum
      have hn := hfirst.mpr (by omega)
      rw [left_of_blocks hk hn, ih]
      exact ⟨hn, by omega⟩

/-- What is put in blocks: units, or the flush of what was put there since the last one. -/
inductive Fill where
  | units (n : ℕ)
  | flush
deriving DecidableEq, Repr

/-- The units fit, where a flush keeps the whole blocks only. -/
def FitsFills (k : ℕ) : ℕ → List Fill → Prop
  | _, [] => True
  | room, .units n :: fills => n ≤ room ∧ FitsFills k (room - n) fills
  | room, .flush :: fills => FitsFills k (room / k * k) fills

/-- The units between two flushes, where `pending` were put since the last one. -/
def fillGroups (pending : ℕ) : List Fill → List ℕ
  | [] => [pending]
  | .units n :: fills => fillGroups (pending + n) fills
  | .flush :: fills => pending :: fillGroups 0 fills

/-- The blocks that are taken, the last one perhaps not full. -/
def blocksTaken (k : ℕ) (fills : List Fill) : ℕ := ((fillGroups 0 fills).map (· ⌈/⌉ k)).sum

theorem fitsGroups_fillGroups (pending room : ℕ) (fills : List Fill) :
    FitsGroups k room (fillGroups pending fills) ↔
      pending ≤ room ∧ FitsFills k (room - pending) fills := by
  induction fills generalizing pending room with
  | nil => simp [fillGroups, FitsGroups, FitsFills]
  | cons fill fills ih =>
    cases fill with
    | units n =>
      unfold fillGroups FitsFills
      rw [ih, Nat.sub_sub]
      constructor
      · rintro ⟨hle, hrest⟩
        exact ⟨by omega, by omega, hrest⟩
      · rintro ⟨hp, hn, hrest⟩
        exact ⟨by omega, hrest⟩
    | flush =>
      unfold fillGroups FitsGroups FitsFills
      rw [ih, Nat.sub_zero]
      simp only [Nat.zero_le, true_and]

/-- Units fit whole blocks exactly when the blocks that they take do. -/
theorem fitsFills_iff (hk : 0 < k) {q : ℕ} {fills : List Fill} :
    FitsFills k (q * k) fills ↔ blocksTaken k fills ≤ q := by
  have hgroups := fitsGroups_fillGroups (k := k) 0 (q * k) fills
  rw [Nat.sub_zero] at hgroups
  unfold blocksTaken
  rw [← fitsGroups_iff hk, hgroups]
  simp only [Nat.zero_le, true_and]

/-- A block of units that is flushed once. -/
theorem blocksTaken_once (counts : List ℕ) :
    blocksTaken k (counts.map .units ++ [.flush]) = counts.sum ⌈/⌉ k := by
  have hgroups : ∀ pending, fillGroups pending (counts.map .units ++ [.flush]) =
      [pending + counts.sum, 0] := by
    intro pending
    induction counts generalizing pending with
    | nil => simp [fillGroups]
    | cons n counts ih =>
      rw [List.map_cons, List.cons_append, fillGroups, ih, List.sum_cons, Nat.add_assoc]
  unfold blocksTaken
  rw [hgroups]
  simp [zero_ceilDiv]

/-- Each count is flushed on its own. -/
theorem blocksTaken_each (counts : List ℕ) :
    blocksTaken k (counts.flatMap fun n => [.units n, .flush]) =
      (counts.map (· ⌈/⌉ k)).sum := by
  unfold blocksTaken
  induction counts with
  | nil => simp [fillGroups, zero_ceilDiv]
  | cons n counts ih =>
    rw [List.flatMap_cons, List.map_cons, List.sum_cons, ← ih]
    simp [fillGroups]

/-- Blocks of another size that fill larger ones evenly are at most as many as those hold. -/
theorem blocksTaken_le (hk : 0 < k) {c : ℕ} (hc : 0 < c) (fills : List Fill) :
    blocksTaken k fills ≤ blocksTaken (k * c) fills * c := by
  have hone : ∀ n, n ⌈/⌉ k ≤ n ⌈/⌉ (k * c) * c := by
    intro n
    have hcover := (ceilDiv_le_iff_le_mul (b := n) (Nat.mul_pos hk hc)).mp le_rfl
    rw [ceilDiv_le_iff_le_mul hk]
    calc n ≤ k * c * (n ⌈/⌉ (k * c)) := hcover
      _ = k * (n ⌈/⌉ (k * c) * c) := by ring
  unfold blocksTaken
  rw [← List.sum_map_mul_right]
  apply List.sum_le_sum
  intro n _
  exact hone n

end Umm.Lib
