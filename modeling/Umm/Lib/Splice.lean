import Mathlib.Tactic
import Mathlib.Data.List.Basic

/-! Reading and overwriting a range of a list, and how ranges compose. -/
namespace Umm.Lib

variable {α : Type*}

/-- The `n` elements from index `o` on. -/
def slice (l : List α) (o n : ℕ) : List α := (l.drop o).take n

/-- `l` with `xs` written over the elements from index `o` on. -/
def splice (l : List α) (o : ℕ) (xs : List α) : List α :=
  l.take o ++ (xs ++ l.drop (o + xs.length))

theorem length_slice {l : List α} {o n : ℕ} (h : o + n ≤ l.length) : (slice l o n).length = n := by
  unfold slice
  rw [List.length_take, List.length_drop]
  omega

theorem length_splice {l xs : List α} {o : ℕ} (h : o + xs.length ≤ l.length) :
    (splice l o xs).length = l.length := by
  unfold splice
  simp only [List.length_append, List.length_take, List.length_drop]
  omega

theorem getElem?_slice (l : List α) (o n i : ℕ) :
    (slice l o n)[i]? = if i < n then l[o + i]? else none := by
  unfold slice
  rw [List.getElem?_take]
  split_ifs with h
  · rw [List.getElem?_drop]
  · rfl

theorem getElem?_splice {l xs : List α} {o : ℕ} (h : o + xs.length ≤ l.length) (i : ℕ) :
    (splice l o xs)[i]? = if o ≤ i ∧ i < o + xs.length then xs[i - o]? else l[i]? := by
  have hlen : (l.take o).length = o := by
    rw [List.length_take]
    omega
  unfold splice
  rw [List.getElem?_append, hlen, List.getElem?_append, List.getElem?_take, List.getElem?_drop]
  by_cases h1 : i < o
  · rw [if_pos h1, if_pos h1, if_neg (by omega)]
  · rw [if_neg h1]
    by_cases h2 : i < o + xs.length
    · rw [if_pos (by omega), if_pos (by omega)]
    · rw [if_neg (by omega), if_neg (by omega)]
      congr 1
      omega

@[simp] theorem slice_zero (l : List α) (o : ℕ) : slice l o 0 = [] := by
  simp [slice]

@[simp] theorem splice_nil (l : List α) (o : ℕ) : splice l o [] = l := by
  simp [splice]

@[simp] theorem slice_self (l : List α) : slice l 0 l.length = l := by
  simp [slice]

theorem splice_self {l xs : List α} (h : xs.length = l.length) : splice l 0 xs = xs := by
  simp [splice, h]

theorem splice_start (l xs : List α) : splice l 0 xs = xs ++ l.drop xs.length := by
  simp [splice]

/-- A second write of the same bytes changes nothing. -/
theorem splice_start_twice (l xs : List α) : splice (splice l 0 xs) 0 xs = splice l 0 xs := by
  simp [splice_start]

theorem slice_add (l : List α) (o m n : ℕ) :
    slice l o (m + n) = slice l o m ++ slice l (o + m) n := by
  unfold slice
  rw [List.take_add, List.drop_drop]

/-- Two writes, the second where the first stops, are one write. -/
theorem splice_splice {l xs ys : List α} {o : ℕ}
    (h : o + (xs ++ ys).length ≤ l.length) :
    splice (splice l o xs) (o + xs.length) ys = splice l o (xs ++ ys) := by
  have hlen : (xs ++ ys).length = xs.length + ys.length := List.length_append
  have h1 : o + xs.length ≤ l.length := by omega
  have h2 : o + xs.length + ys.length ≤ (splice l o xs).length := by
    rw [length_splice h1]
    omega
  refine List.ext_getElem? (fun i => ?_)
  rw [getElem?_splice h2, getElem?_splice h1, getElem?_splice h, List.getElem?_append]
  by_cases ha : o + xs.length ≤ i ∧ i < o + xs.length + ys.length
  · rw [if_pos ha, if_pos (by omega), if_neg (by omega)]
    congr 1
    omega
  · rw [if_neg ha]
    by_cases hb : o ≤ i ∧ i < o + xs.length
    · rw [if_pos hb, if_pos (by omega), if_pos (by omega)]
    · rw [if_neg hb, if_neg (by omega)]

section Reads

variable {l xs : List α} {o p n : ℕ}

/-- A read inside the range that was written. -/
theorem slice_splice_inside (h : o + xs.length ≤ l.length) (h1 : o ≤ p)
    (h2 : p + n ≤ o + xs.length) : slice (splice l o xs) p n = slice xs (p - o) n := by
  refine List.ext_getElem? (fun i => ?_)
  rw [getElem?_slice, getElem?_slice]
  split_ifs with hi
  · rw [getElem?_splice h, if_pos (by omega)]
    congr 1
    omega
  · rfl

/-- A read of a part of what was read. -/
theorem slice_slice {k : ℕ} (h : p + k ≤ n) : slice (slice l o n) p k = slice l (o + p) k := by
  refine List.ext_getElem? (fun i => ?_)
  rw [getElem?_slice, getElem?_slice, getElem?_slice]
  split_ifs with h1 h2
  · rw [Nat.add_assoc]
  · omega
  · rfl

/-- A read beside the range that was written. -/
theorem slice_splice_outside (h : o + xs.length ≤ l.length)
    (hd : p + n ≤ o ∨ o + xs.length ≤ p) : slice (splice l o xs) p n = slice l p n := by
  refine List.ext_getElem? (fun i => ?_)
  rw [getElem?_slice, getElem?_slice]
  split_ifs with hi
  · rw [getElem?_splice h, if_neg (by omega)]
  · rfl

/-- What is written is what was there. -/
theorem splice_slice (h : o + n ≤ l.length) : splice l o (slice l o n) = l := by
  have hlen := length_slice h
  refine List.ext_getElem? (fun i => ?_)
  rw [getElem?_splice (by omega), getElem?_slice, hlen]
  split_ifs with h1 h2
  · rw [Nat.add_sub_cancel' h1.1]
  · omega
  · rfl

/-- Writing into a copy of a range and writing the copy back is writing into the range. -/
theorem splice_splice_slice {k : ℕ} (h : o + n ≤ l.length) (hk : k + xs.length ≤ n) :
    splice l o (splice (slice l o n) k xs) = splice l (o + k) xs := by
  have hlen := length_slice h
  have hinner : (splice (slice l o n) k xs).length = n := by rw [length_splice (by omega), hlen]
  refine List.ext_getElem? (fun i => ?_)
  rw [getElem?_splice (by omega), hinner]
  by_cases hi : o ≤ i ∧ i < o + n
  · rw [if_pos hi, getElem?_splice (by omega), getElem?_splice (by omega)]
    by_cases hx : o + k ≤ i ∧ i < o + k + xs.length
    · rw [if_pos hx, if_pos (by omega), Nat.sub_add_eq]
    · rw [if_neg hx, if_neg (by omega), getElem?_slice, if_pos (by omega),
        Nat.add_sub_cancel' hi.1]
  · rw [if_neg hi, getElem?_splice (by omega), if_neg (by omega)]

end Reads

/-- An entry of an updated list is the new one or an old one. -/
theorem getElem?_set_cases {l : List α} {d i : ℕ} {x y : α} (h : (l.set d x)[i]? = some y) :
    i = d ∧ y = x ∨ i ≠ d ∧ l[i]? = some y := by
  rw [List.getElem?_set] at h
  split_ifs at h with he
  · exact .inl ⟨he.symm, (Option.some.inj h).symm⟩
  · exact .inr ⟨Ne.symm he, h⟩

/-- Elements set one after another, where those of one index agree. -/
theorem getElem?_foldl_set {l : List (ℕ × α)} {xs : List α} {j : ℕ} {v : α}
    (h : ∀ p ∈ l, p.1 = j → p.2 = v) :
    (l.foldl (fun xs p => xs.set p.1 p.2) xs)[j]? =
      if j ∈ l.map Prod.fst ∧ j < xs.length then some v else xs[j]? := by
  induction l generalizing xs with
  | nil => simp
  | cons p l ih =>
    rw [List.foldl_cons, ih fun q hq => h q (List.mem_cons_of_mem _ hq), List.length_set,
      List.getElem?_set, List.map_cons]
    by_cases hp : p.1 = j
    · have hv := h p List.mem_cons_self hp
      subst hp hv
      by_cases hlt : p.1 < xs.length
      · simp [hlt]
      · simp [hlt]
    · have hmem : j ∈ p.1 :: l.map Prod.fst ↔ j ∈ l.map Prod.fst := by
        rw [List.mem_cons, or_iff_right (Ne.symm hp)]
      rw [if_neg hp]
      simp only [hmem]

section Middle

variable {a b c : List α}

/-- A read inside the middle part of a list is a read of that part. -/
theorem slice_middle {o n : ℕ} (h : o + n ≤ b.length) :
    slice (a ++ (b ++ c)) (a.length + o) n = slice b o n := by
  unfold slice
  rw [List.drop_append, List.drop_eq_nil_of_le (by omega), List.nil_append,
    Nat.add_sub_cancel_left, List.drop_append, List.take_append,
    List.length_drop, Nat.sub_eq_zero_of_le (show n ≤ b.length - o by omega), List.take_zero,
    List.append_nil]

/-- A write inside the middle part of a list is a write of that part. -/
theorem splice_middle {o : ℕ} {xs : List α} (h : o + xs.length ≤ b.length) :
    splice (a ++ (b ++ c)) (a.length + o) xs = a ++ (splice b o xs ++ c) := by
  have hb := length_splice h
  have hall : a.length + o + xs.length ≤ (a ++ (b ++ c)).length := by
    simp only [List.length_append]
    omega
  refine List.ext_getElem? (fun i => ?_)
  rw [getElem?_splice hall, List.getElem?_append, List.getElem?_append, List.getElem?_append,
    List.getElem?_append, hb, getElem?_splice h]
  by_cases h1 : i < a.length
  · rw [if_neg (by omega), if_pos h1, if_pos h1]
  · rw [if_neg h1, if_neg h1]
    by_cases h2 : i - a.length < b.length
    · rw [if_pos h2, if_pos h2]
      by_cases h3 : o ≤ i - a.length ∧ i - a.length < o + xs.length
      · rw [if_pos h3, if_pos (by omega), Nat.sub_sub]
      · rw [if_neg h3, if_neg (by omega)]
    · rw [if_neg h2, if_neg h2, if_neg (by omega)]

end Middle

end Umm.Lib
