import Mathlib.Tactic
import Mathlib.Data.List.Basic

/-! Bitmaps packed into words of any width, low bit first, and the loops that set
or clear a run of bits. -/
namespace Umm.Lib.Bitmap

variable {w : ℕ}

/-- The bit at index `i`; bits outside the words read as `false`. -/
def test (bm : List (BitVec w)) (i : ℕ) : Bool :=
  (bm.getD (i / w) 0#w).getLsbD (i % w)

def set (bm : List (BitVec w)) (i : ℕ) : List (BitVec w) :=
  bm.modify (i / w) (fun x => x ||| (1#w <<< (i % w)))

def clear (bm : List (BitVec w)) (i : ℕ) : List (BitVec w) :=
  bm.modify (i / w) (fun x => x &&& ~~~(1#w <<< (i % w)))

/-- The loop that sets the `n` bits from `start` on. -/
def setRun (bm : List (BitVec w)) (start : ℕ) : ℕ → List (BitVec w)
  | 0 => bm
  | n + 1 => set (setRun bm start n) (start + n)

/-- The loop that clears the `n` bits from `start` on. -/
def clearRun (bm : List (BitVec w)) (start : ℕ) : ℕ → List (BitVec w)
  | 0 => bm
  | n + 1 => clear (clearRun bm start n) (start + n)

@[simp] theorem length_set (bm : List (BitVec w)) (i : ℕ) : (set bm i).length = bm.length := by
  simp [set]

@[simp] theorem length_clear (bm : List (BitVec w)) (i : ℕ) :
    (clear bm i).length = bm.length := by
  simp [clear]

@[simp] theorem length_setRun (bm : List (BitVec w)) (start n : ℕ) :
    (setRun bm start n).length = bm.length := by
  induction n with
  | zero => rfl
  | succ n ih => simp [setRun, ih]

@[simp] theorem length_clearRun (bm : List (BitVec w)) (start n : ℕ) :
    (clearRun bm start n).length = bm.length := by
  induction n with
  | zero => rfl
  | succ n ih => simp [clearRun, ih]

private theorem getD_modify (bm : List (BitVec w)) (f : BitVec w → BitVec w) (k j : ℕ)
    (hk : k < bm.length) :
    (bm.modify k f).getD j 0#w = if k = j then f (bm.getD j 0#w) else bm.getD j 0#w := by
  simp only [List.getD_eq_getElem?_getD, List.getElem?_modify]
  split_ifs with h
  · subst h
    simp [List.getElem?_eq_getElem hk]
  · simp

private theorem index_eq_iff {i j : ℕ} (hq : i / w = j / w) : i % w = j % w ↔ i = j := by
  constructor
  · intro hr
    rw [← Nat.div_add_mod i w, ← Nat.div_add_mod j w, hq, hr]
  · intro h
    rw [h]

private theorem getLsbD_one_shift (hw : 0 < w) (a b : ℕ) (hb : b < w) :
    (1#w <<< a).getLsbD b = decide (a = b) := by
  simp only [BitVec.getLsbD_shiftLeft, BitVec.getLsbD_one]
  by_cases h : a = b
  · simp [h, hb, hw]
  · by_cases hlt : b < a
    · simp [hlt, h]
    · have hs : b - a ≠ 0 := by omega
      simp [h, hs]

/-- Setting a bit inside the words changes that bit and no other. -/
theorem test_set (hw : 0 < w) (bm : List (BitVec w)) (i j : ℕ) (hi : i < w * bm.length) :
    test (set bm i) j = (decide (i = j) || test bm j) := by
  have hk : i / w < bm.length := Nat.div_lt_of_lt_mul hi
  unfold test set
  rw [getD_modify bm _ _ _ hk]
  split_ifs with hq
  · have hbit := getLsbD_one_shift hw (i % w) (j % w) (Nat.mod_lt j hw)
    rw [BitVec.getLsbD_or, hbit, Bool.or_comm]
    simp only [index_eq_iff hq]
  · have hne : i ≠ j := fun h => hq (by rw [h])
    simp [hne]

/-- Clearing a bit inside the words changes that bit and no other. -/
theorem test_clear (hw : 0 < w) (bm : List (BitVec w)) (i j : ℕ) (hi : i < w * bm.length) :
    test (clear bm i) j = (!decide (i = j) && test bm j) := by
  have hk : i / w < bm.length := Nat.div_lt_of_lt_mul hi
  unfold test clear
  rw [getD_modify bm _ _ _ hk]
  split_ifs with hq
  · have hbit := getLsbD_one_shift hw (i % w) (j % w) (Nat.mod_lt j hw)
    rw [BitVec.getLsbD_and, BitVec.getLsbD_not, hbit, Bool.and_comm]
    simp only [index_eq_iff hq, Nat.mod_lt j hw, decide_true, Bool.true_and]
  · have hne : i ≠ j := fun h => hq (by rw [h])
    simp [hne]

theorem test_setRun (hw : 0 < w) (bm : List (BitVec w)) (start n j : ℕ)
    (hn : start + n ≤ w * bm.length) :
    test (setRun bm start n) j = (decide (start ≤ j ∧ j < start + n) || test bm j) := by
  induction n with
  | zero => simp [setRun]
  | succ n ih =>
    have hb : start + n < w * (setRun bm start n).length := by
      rw [length_setRun]
      omega
    rw [setRun, test_set hw _ _ _ hb, ih (by omega), ← Bool.or_assoc, ← Bool.decide_or]
    congr 1
    exact decide_eq_decide.mpr (by omega)

theorem test_clearRun (hw : 0 < w) (bm : List (BitVec w)) (start n j : ℕ)
    (hn : start + n ≤ w * bm.length) :
    test (clearRun bm start n) j = (!decide (start ≤ j ∧ j < start + n) && test bm j) := by
  induction n with
  | zero =>
    have h : ¬(start ≤ j ∧ j < start + 0) := by omega
    rw [clearRun, decide_eq_false h, Bool.not_false, Bool.true_and]
  | succ n ih =>
    have hb : start + n < w * (clearRun bm start n).length := by
      rw [length_clearRun]
      omega
    rw [clearRun, test_clear hw _ _ _ hb, ih (by omega), ← Bool.and_assoc, ← Bool.not_or,
      ← Bool.decide_or]
    congr 2
    exact decide_eq_decide.mpr (by omega)

@[simp] theorem test_replicate_zero (n i : ℕ) : test (List.replicate n 0#w) i = false := by
  unfold test
  by_cases h : i / w < n
  · simp [List.getD_eq_getElem?_getD, h]
  · simp [List.getD_eq_getElem?_getD, h]

theorem test_replicate_ones (hw : 0 < w) (n i : ℕ) :
    test (List.replicate n (BitVec.allOnes w)) i = decide (i < w * n) := by
  have hlt : i / w < n ↔ i < w * n := by rw [Nat.div_lt_iff_lt_mul hw, Nat.mul_comm]
  unfold test
  by_cases h : i / w < n
  · simp [List.getD_eq_getElem?_getD, h, hlt.mp h, Nat.mod_lt i hw]
  · have hn : ¬ i < w * n := fun hc => h (hlt.mpr hc)
    simp [List.getD_eq_getElem?_getD, h, hn]

/-- A bitmap followed by zero words has the same bits. -/
theorem test_append_zero (bm : List (BitVec w)) (n i : ℕ) :
    test (bm ++ List.replicate n 0#w) i = test bm i := by
  unfold test
  simp only [List.getD_eq_getElem?_getD, List.getElem?_append, List.getElem?_replicate]
  split_ifs with h1 h2
  · rfl
  · simp [List.getElem?_eq_none (Nat.le_of_not_lt h1)]
  · simp [List.getElem?_eq_none (Nat.le_of_not_lt h1)]

section Undo

variable {bm bm' : List (BitVec w)} {start n : ℕ}

/-- Bitmaps of one length with the same bits are the same. -/
theorem ext_test (hlen : bm'.length = bm.length)
    (h : ∀ i < w * bm.length, test bm' i = test bm i) : bm' = bm := by
  refine List.ext_getElem hlen fun q hq' hq => BitVec.eq_of_getLsbD_eq fun r hr => ?_
  have hidx : w * q + r < w * bm.length := by
    calc w * q + r < w * q + w := by omega
      _ = w * (q + 1) := by ring
      _ ≤ w * bm.length := Nat.mul_le_mul_left w hq
  have hdiv : (w * q + r) / w = q := by
    rw [Nat.mul_add_div (by omega), Nat.div_eq_of_lt hr, Nat.add_zero]
  have hmod : (w * q + r) % w = r := by
    rw [Nat.mul_add_mod, Nat.mod_eq_of_lt hr]
  have hbit := h (w * q + r) hidx
  unfold test at hbit
  rw [hdiv, hmod] at hbit
  simpa [List.getD_eq_getElem?_getD, hq, hq'] using hbit

/-- Clearing a run that was clear before it was set gives the old bitmap. -/
theorem clearRun_setRun (hw : 0 < w) (hin : start + n ≤ w * bm.length)
    (hclear : ∀ i, start ≤ i → i < start + n → test bm i = false) :
    clearRun (setRun bm start n) start n = bm := by
  refine ext_test (by simp) fun i _ => ?_
  rw [test_clearRun hw _ _ _ _ (by rw [length_setRun]; exact hin), test_setRun hw _ _ _ _ hin]
  by_cases hi : start ≤ i ∧ i < start + n
  · rw [hclear i hi.1 hi.2, decide_eq_true hi]
    rfl
  · rw [decide_eq_false hi]
    simp

/-- Setting a run that was set before it was cleared gives the old bitmap. -/
theorem setRun_clearRun (hw : 0 < w) (hin : start + n ≤ w * bm.length)
    (hset : ∀ i, start ≤ i → i < start + n → test bm i = true) :
    setRun (clearRun bm start n) start n = bm := by
  refine ext_test (by simp) fun i _ => ?_
  rw [test_setRun hw _ _ _ _ (by rw [length_clearRun]; exact hin), test_clearRun hw _ _ _ _ hin]
  by_cases hi : start ≤ i ∧ i < start + n
  · rw [hset i hi.1 hi.2, decide_eq_true hi]
    rfl
  · rw [decide_eq_false hi]
    simp

end Undo

end Umm.Lib.Bitmap
