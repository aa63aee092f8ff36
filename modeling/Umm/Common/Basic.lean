import Mathlib.Tactic

/-! Status codes and machine arithmetic shared by all services. -/
namespace Umm

/-- The negative return codes of `umm.h`; `UMM_OK` is the success side of `Except`. -/
inductive Error where
  | invalidArg
  | notFound
  | noMemory
  | alreadyExists
  | rpcError
  | timeout
  | transportError
  | notInitialized
  | unsupported
  | unknown
deriving DecidableEq, Repr

/-- The value kept by a `uint64_t`. -/
def u64 (n : ℕ) : ℕ := n % 2 ^ 64

/-- The value kept by a `uint32_t`. -/
def u32 (n : ℕ) : ℕ := n % 2 ^ 32

/-- Subtraction of two `uint64_t`. -/
def sub64 (a b : ℕ) : ℕ := u64 (a + (2 ^ 64 - u64 b))

/-- Virtual addresses have at most 57 bits, so no object that the allocator of the
C library returns is larger than this. -/
def addressSpace : ℕ := 2 ^ 57

/-- The loop `while (cap < needed) cap *= 2` on a `uint32_t`. Doubling 2^31 gives 0, and then
the loop never ends: 33 rounds decide. -/
def doubleUntil (needed : ℕ) : ℕ → ℕ → Option ℕ
  | 0, _ => none
  | fuel + 1, cap => if cap < needed then doubleUntil needed fuel (u32 (cap * 2)) else some cap

theorem u64_lt (n : ℕ) : u64 n < 2 ^ 64 := Nat.mod_lt n (by norm_num)

theorem u64_of_lt {n : ℕ} (h : n < 2 ^ 64) : u64 n = n := Nat.mod_eq_of_lt h

theorem u32_of_lt {n : ℕ} (h : n < 2 ^ 32) : u32 n = n := Nat.mod_eq_of_lt h

theorem sub64_of_le {a b : ℕ} (hb : b ≤ a) (ha : a < 2 ^ 64) : sub64 a b = a - b := by
  unfold sub64 u64
  omega

@[simp] theorem sub64_zero {a : ℕ} (ha : a < 2 ^ 64) : sub64 a 0 = a := by
  simpa using sub64_of_le (Nat.zero_le a) ha

private theorem doubleUntil_zero {n : ℕ} (hn : 0 < n) : ∀ fuel, doubleUntil n fuel 0 = none := by
  intro fuel
  induction fuel with
  | zero => rfl
  | succ fuel ih =>
    rw [doubleUntil, if_pos hn]
    exact ih

private theorem u32_double {k : ℕ} (hk : k < 31) : u32 (2 ^ k * 2) = 2 ^ (k + 1) := by
  rw [← Nat.pow_succ]
  exact u32_of_lt (Nat.pow_lt_pow_right (by norm_num) (by omega))

/-- From a power of two the loop ends at a power of two. -/
theorem doubleUntil_pow {n : ℕ} :
    ∀ fuel k r, k ≤ 31 → doubleUntil n fuel (2 ^ k) = some r →
      ∃ k', k ≤ k' ∧ k' ≤ 31 ∧ r = 2 ^ k' := by
  intro fuel
  induction fuel with
  | zero =>
    intro k r _ h
    cases h
  | succ fuel ih =>
    intro k r h31 h
    rw [doubleUntil] at h
    split_ifs at h with hlt
    · by_cases hk : k = 31
      · subst hk
        have hz : u32 (2 ^ 31 * 2) = 0 := by decide
        rw [hz, doubleUntil_zero (by omega)] at h
        cases h
      · rw [u32_double (by omega)] at h
        obtain ⟨k', h1, h2, h3⟩ := ih (k + 1) r (by omega) h
        exact ⟨k', by omega, h2, h3⟩
    · exact ⟨k, le_rfl, h31, (Option.some.inj h).symm⟩

/-- Up to 2^31 the loop ends, and with enough room. -/
theorem doubleUntil_some {n : ℕ} (hn : n ≤ 2 ^ 31) :
    ∀ fuel k, k ≤ 31 → 31 - k < fuel → ∃ r, doubleUntil n fuel (2 ^ k) = some r ∧ n ≤ r := by
  intro fuel
  induction fuel with
  | zero =>
    intro k _ hf
    omega
  | succ fuel ih =>
    intro k h31 hf
    rw [doubleUntil]
    split_ifs with hlt
    · have hk : k < 31 := by
        by_contra hc
        obtain rfl : k = 31 := by omega
        omega
      rw [u32_double hk]
      exact ih (k + 1) (by omega) (by omega)
    · exact ⟨_, rfl, by omega⟩

theorem le_of_doubleUntil {n : ℕ} : ∀ fuel cap r, doubleUntil n fuel cap = some r → n ≤ r := by
  intro fuel
  induction fuel with
  | zero =>
    intro cap r h
    cases h
  | succ fuel ih =>
    intro cap r h
    rw [doubleUntil] at h
    split_ifs at h with hlt
    · exact ih _ r h
    · obtain rfl := Option.some.inj h
      omega

end Umm
