import Mathlib.Tactic

/-! Lists whose elements count with their positions: what holds of all of them and what they sum
up to, when one is replaced or added. -/
namespace Umm.Lib

section Pointwise

variable {α : Type*} {P : ℕ → α → Prop} {l : List α}

theorem forall_set (h : ∀ (i : ℕ) a, l[i]? = some a → P i a) {k : ℕ} {b : α} (hb : P k b) :
    ∀ (i : ℕ) a, (l.set k b)[i]? = some a → P i a := by
  intro i a ha
  rw [List.getElem?_set] at ha
  split_ifs at ha with hk hlt
  · obtain rfl := Option.some.inj ha
    exact hk ▸ hb
  · exact h i a ha

theorem forall_concat (h : ∀ (i : ℕ) a, l[i]? = some a → P i a) {b : α} (hb : P l.length b) :
    ∀ (i : ℕ) a, (l ++ [b])[i]? = some a → P i a := by
  intro i a ha
  rcases Nat.lt_trichotomy i l.length with hlt | rfl | hgt
  · rw [List.getElem?_append_left hlt] at ha
    exact h i a ha
  · rw [List.getElem?_concat_length] at ha
    exact Option.some.inj ha ▸ hb
  · rw [List.getElem?_eq_none (by rw [List.length_append, List.length_singleton]; omega)] at ha
    cases ha

end Pointwise

variable {α M : Type*} [AddCommMonoid M]

/-- The sum of what the elements count for at their positions. -/
def tally (f : ℕ → α → M) (l : List α) : M :=
  (l.mapIdx f).sum

@[simp] theorem tally_nil (f : ℕ → α → M) : tally f [] = 0 := rfl

theorem tally_cons (f : ℕ → α → M) (a : α) (l : List α) :
    tally f (a :: l) = f 0 a + tally (fun i => f (i + 1)) l := by
  rw [tally, tally, List.mapIdx_cons, List.sum_cons]

theorem tally_concat (f : ℕ → α → M) (l : List α) (a : α) :
    tally f (l ++ [a]) = tally f l + f l.length a := by
  rw [tally, tally, List.mapIdx_concat, List.sum_append, List.sum_singleton]

theorem tally_set (f : ℕ → α → M) {l : List α} {i : ℕ} {a : α} (h : l[i]? = some a) (b : α) :
    tally f (l.set i b) + f i a = tally f l + f i b := by
  induction l generalizing f i with
  | nil => cases h
  | cons c l ih =>
    cases i with
    | zero =>
      obtain rfl := Option.some.inj h
      rw [List.set_cons_zero, tally_cons, tally_cons]
      exact add_right_comm _ _ _ |>.trans (by rw [add_comm (f 0 b), add_right_comm])
    | succ i =>
      have := ih (fun i => f (i + 1)) (i := i) (by simpa using h)
      rw [List.set_cons_succ, tally_cons, tally_cons, add_assoc, this, add_assoc]

theorem tally_congr {f g : ℕ → α → M} {l : List α}
    (h : ∀ (i : ℕ) a, l[i]? = some a → f i a = g i a) : tally f l = tally g l := by
  induction l generalizing f g with
  | nil => rfl
  | cons a l ih =>
    rw [tally_cons, tally_cons, h 0 a rfl, ih fun i b hb => h (i + 1) b hb]

theorem map_tally {N : Type*} [AddCommMonoid N] (φ : M →+ N) (f : ℕ → α → M) (l : List α) :
    φ (tally f l) = tally (fun i a => φ (f i a)) l := by
  induction l generalizing f with
  | nil => exact φ.map_zero
  | cons a l ih => rw [tally_cons, tally_cons, φ.map_add, ih]

/-- Where only the element at one position counts. -/
theorem tally_at (g : α → M) (k : ℕ) (l : List α) :
    tally (fun i a => if k = i then g a else 0) l = l[k]?.elim 0 g := by
  induction l generalizing k with
  | nil => rfl
  | cons a l ih =>
    rw [tally_cons]
    cases k with
    | zero =>
      have hzero : tally (fun i a => if 0 = i + 1 then g a else 0) l = 0 := by
        rw [tally_congr (g := fun _ _ => 0) fun i a _ => if_neg (Nat.succ_ne_zero i).symm]
        simp [tally, List.sum_eq_zero]
      rw [hzero, add_zero]
      rfl
    | succ k =>
      have hshift := ih k
      simp only [Nat.add_right_cancel_iff]
      rw [if_neg (Nat.succ_ne_zero k), zero_add, hshift]
      rfl

theorem tally_le {f g : ℕ → α → ℕ} {l : List α}
    (h : ∀ (i : ℕ) a, l[i]? = some a → f i a ≤ g i a) : tally f l ≤ tally g l := by
  induction l generalizing f g with
  | nil => exact le_rfl
  | cons a l ih =>
    rw [tally_cons, tally_cons]
    exact Nat.add_le_add (h 0 a rfl) (ih fun i b hb => h (i + 1) b hb)

theorem tally_lt {f g : ℕ → α → ℕ} {l : List α}
    (h : ∀ (i : ℕ) a, l[i]? = some a → f i a ≤ g i a) {k : ℕ} {b : α} (hb : l[k]? = some b)
    (hlt : f k b < g k b) : tally f l < tally g l := by
  induction l generalizing f g k with
  | nil => cases hb
  | cons a l ih =>
    rw [tally_cons, tally_cons]
    have hrest : ∀ (i : ℕ) c, l[i]? = some c → f (i + 1) c ≤ g (i + 1) c :=
      fun i c hc => h (i + 1) c hc
    cases k with
    | zero =>
      obtain rfl := Option.some.inj hb
      exact Nat.add_lt_add_of_lt_of_le hlt (tally_le hrest)
    | succ k =>
      exact Nat.add_lt_add_of_le_of_lt (h 0 a rfl) (ih hrest (by simpa using hb) hlt)

theorem le_tally (f : ℕ → α → ℕ) {l : List α} {i : ℕ} {a : α} (h : l[i]? = some a) :
    f i a ≤ tally f l := by
  induction l generalizing f i with
  | nil => cases h
  | cons c l ih =>
    rw [tally_cons]
    cases i with
    | zero =>
      obtain rfl := Option.some.inj h
      omega
    | succ i =>
      have := ih (fun i => f (i + 1)) (i := i) (by simpa using h)
      omega

theorem exists_of_tally_pos {f : ℕ → α → ℕ} {l : List α} (h : 0 < tally f l) :
    ∃ (i : ℕ) (a : α), l[i]? = some a ∧ 0 < f i a := by
  by_contra hno
  push Not at hno
  have hle : tally f l ≤ tally (fun _ _ => 0) l := tally_le fun i a ha => hno i a ha
  have hzero : tally (fun (_ : ℕ) (_ : α) => 0) l = 0 := by
    simp [tally, List.sum_eq_zero]
  omega

end Umm.Lib
