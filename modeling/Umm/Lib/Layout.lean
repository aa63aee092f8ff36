import Mathlib.Tactic
import Mathlib.Data.List.Basic

/-! Segments laid end to end: each starts where the one before it stops. -/
namespace Umm.Lib

variable {ι : Type*} {base len : ι → ℕ}

/-- The segments start at `a`, follow each other without a gap and stop at `b`. -/
def EndToEnd (base len : ι → ℕ) : ℕ → List ι → ℕ → Prop
  | a, [], b => a = b
  | a, x :: xs, b => base x = a ∧ EndToEnd base len (a + len x) xs b

/-- The address `v` lies in the segment `x`. -/
def Within (base len : ι → ℕ) (x : ι) (v : ℕ) : Prop := base x ≤ v ∧ v < base x + len x

instance (x : ι) (v : ℕ) : Decidable (Within base len x v) := by
  unfold Within
  infer_instance

namespace EndToEnd

theorem append {xs ys : List ι} {a b : ℕ} :
    EndToEnd base len a (xs ++ ys) b ↔
      ∃ m, EndToEnd base len a xs m ∧ EndToEnd base len m ys b := by
  induction xs generalizing a with
  | nil => simp [EndToEnd]
  | cons x xs ih =>
    simp only [List.cons_append, EndToEnd, ih]
    constructor
    · rintro ⟨h1, m, h2, h3⟩
      exact ⟨m, ⟨h1, h2⟩, h3⟩
    · rintro ⟨m, ⟨h1, h2⟩, h3⟩
      exact ⟨h1, m, h2, h3⟩

theorem snoc {xs : List ι} {x : ι} {a b : ℕ} (h : EndToEnd base len a xs b) (hx : base x = b) :
    EndToEnd base len a (xs ++ [x]) (b + len x) :=
  append.mpr ⟨b, h, hx, rfl⟩

theorem end_eq {xs : List ι} {a b : ℕ} (h : EndToEnd base len a xs b) :
    b = a + (xs.map len).sum := by
  induction xs generalizing a with
  | nil => exact h.symm
  | cons x xs ih => rw [List.map_cons, List.sum_cons, ih h.2, Nat.add_assoc]

/-- A segment may change in everything but its place. -/
theorem modify {xs : List ι} {a b i : ℕ} {x : ι} {f : ι → ι} (h : EndToEnd base len a xs b)
    (hi : xs[i]? = some x) (hbase : base (f x) = base x) (hlen : len (f x) = len x) :
    EndToEnd base len a (xs.modify i f) b := by
  induction xs generalizing a i with
  | nil => cases hi
  | cons y ys ih =>
    cases i with
    | zero =>
      obtain rfl := Option.some.inj hi
      exact ⟨hbase.trans h.1, hlen.symm ▸ h.2⟩
    | succ i => exact ⟨h.1, ih h.2 (by simpa using hi)⟩

theorem le {xs : List ι} {a b : ℕ} (h : EndToEnd base len a xs b) : a ≤ b := by
  induction xs generalizing a with
  | nil => exact Nat.le_of_eq h
  | cons x xs ih =>
    have := ih h.2
    omega

theorem inside {xs : List ι} {a b : ℕ} (h : EndToEnd base len a xs b) {x : ι} (hx : x ∈ xs) :
    a ≤ base x ∧ base x + len x ≤ b := by
  obtain ⟨pre, post, rfl⟩ := List.append_of_mem hx
  obtain ⟨m, h1, h2, h3⟩ := append.mp h
  have := h1.le
  have := h3.le
  omega

/-- An address between the ends lies in one of the segments. -/
theorem exists_within {xs : List ι} {a b v : ℕ} (h : EndToEnd base len a xs b) (ha : a ≤ v)
    (hb : v < b) : ∃ (i : ℕ) (x : ι), xs[i]? = some x ∧ Within base len x v := by
  induction xs generalizing a with
  | nil =>
    have : a = b := h
    omega
  | cons x xs ih =>
    by_cases hv : v < a + len x
    · refine ⟨0, x, rfl, ?_, ?_⟩
      · exact h.1.le.trans ha
      · rw [h.1]
        exact hv
    · obtain ⟨i, y, hi, hy⟩ := ih h.2 (by omega)
      exact ⟨i + 1, y, hi, hy⟩

/-- No two segments share an address. -/
theorem within_unique {xs : List ι} {a b v i j : ℕ} {x y : ι} (h : EndToEnd base len a xs b)
    (hi : xs[i]? = some x) (hj : xs[j]? = some y) (hx : Within base len x v)
    (hy : Within base len y v) : i = j := by
  induction xs generalizing a i j with
  | nil => simp at hi
  | cons z zs ih =>
    have hlater : ∀ w ∈ zs, ¬ (Within base len z v ∧ Within base len w v) := by
      rintro w hw ⟨h1, h2⟩
      have h3 := (inside h.2 hw).1
      have h4 := h.1
      have h5 := h1.2
      have h6 := h2.1
      omega
    cases i with
    | zero =>
      obtain rfl : z = x := by simpa using hi
      cases j with
      | zero => rfl
      | succ j => exact absurd ⟨hx, hy⟩ (hlater y (List.mem_of_getElem? (by simpa using hj)))
    | succ i =>
      cases j with
      | zero =>
        obtain rfl : z = y := by simpa using hj
        exact absurd ⟨hy, hx⟩ (hlater x (List.mem_of_getElem? (by simpa using hi)))
      | succ j => exact congrArg (· + 1) (ih h.2 (by simpa using hi) (by simpa using hj))

/-- The segments before index `i` end where segment `i` starts. -/
theorem before {xs : List ι} {a b i : ℕ} {x : ι} (h : EndToEnd base len a xs b)
    (hi : xs[i]? = some x) : EndToEnd base len a (xs.take i) (base x) := by
  induction xs generalizing a i with
  | nil => simp at hi
  | cons z zs ih =>
    cases i with
    | zero =>
      obtain rfl : z = x := by simpa using hi
      exact h.1.symm
    | succ i => exact ⟨h.1, ih h.2 (by simpa using hi)⟩

end EndToEnd

end Umm.Lib
