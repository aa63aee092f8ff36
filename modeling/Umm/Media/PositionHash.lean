import Umm.Lib.Fallible
import Mathlib.Data.Nat.Prime.Basic
import Mathlib.Data.Set.Function
import Mathlib.Tactic.NormNum.Prime

/-! The position hash of `virtual_media_strategy.py`: neighbouring tokens of a layer, and
neighbouring layers of a token, are spread over all devices. -/
namespace Umm
open Umm.Lib

/-- The loop of `is_prime`, over the odd divisors from `i` on. -/
def noOddDivisor (n i : ℕ) : Bool :=
  if i * i ≤ n then
    if n % i = 0 then false else noOddDivisor n (i + 2)
  else true
termination_by n + 1 - i
decreasing_by
  have := Nat.le_mul_self i
  omega

def isPrime (n : ℤ) : Bool :=
  if n < 2 then false
  else if n % 2 = 0 then n == 2
  else noOddDivisor n.toNat 3

theorem noOddDivisor_iff {n i : ℕ} (hi : i % 2 = 1) :
    noOddDivisor n i = true ↔ ∀ m, i ≤ m → m % 2 = 1 → m * m ≤ n → ¬ m ∣ n := by
  fun_induction noOddDivisor n i with
  | case1 i hle hdvd =>
    refine iff_of_false (by decide) ?_
    intro h
    exact h i le_rfl hi hle (Nat.dvd_of_mod_eq_zero hdvd)
  | case2 i hle hdvd ih =>
    rw [ih (by omega)]
    constructor
    · intro h m him hm hmn
      rcases Nat.eq_or_lt_of_le him with rfl | hlt
      · intro hm
        exact hdvd (Nat.mod_eq_zero_of_dvd hm)
      · exact h m (by omega) hm hmn
    · intro h m him
      exact h m (by omega)
  | case3 i hgt =>
    refine iff_of_true rfl ?_
    intro m him _ hmn
    exact absurd ((Nat.mul_le_mul him him).trans hmn) hgt

/-- Trial division finds the primes. -/
theorem isPrime_iff {n : ℤ} : isPrime n = true ↔ n.toNat.Prime := by
  unfold isPrime
  by_cases hlt : n < 2
  · rw [if_pos hlt]
    refine iff_of_false (by decide) ?_
    intro hp
    have := hp.two_le
    omega
  obtain ⟨k, rfl⟩ : ∃ k : ℕ, n = k := ⟨n.toNat, by omega⟩
  rw [if_neg hlt, Int.toNat_natCast]
  by_cases heven : (k : ℤ) % 2 = 0
  · have hdvd : 2 ∣ k := by omega
    rw [if_pos heven, beq_iff_eq]
    constructor
    · intro h
      rw [show k = 2 by omega]
      exact Nat.prime_two
    · intro hp
      have := (Nat.prime_dvd_prime_iff_eq Nat.prime_two hp).mp hdvd
      omega
  · rw [if_neg heven, noOddDivisor_iff (by decide), Nat.prime_def_le_sqrt]
    constructor
    · intro h
      refine ⟨by omega, ?_⟩
      intro m hm hsqrt hdvd
      have hodd : m % 2 = 1 := by
        by_contra hm2
        have : 2 ∣ k := (show 2 ∣ m by omega).trans hdvd
        omega
      exact h m (by omega) hodd (Nat.le_sqrt.mp hsqrt) hdvd
    · intro h m hm _ hmn
      exact h.2 m (by omega) (Nat.le_sqrt.mpr hmn)

/-- The entries of the configuration. -/
inductive StrategySetting where
  | stepIdx
  | stepLayer
  | prime
  | maxTokenIdx
  | maxLayerId
deriving DecidableEq, Repr

/-- The exceptions of the strategy, with the values that their texts name. -/
inductive StrategyError where
  | numDevices
  /-- What `int` raises for a value that is no number. -/
  | notInt
  | notPrime (setting : StrategySetting) (value : ℤ)
  | stepTooSmall (setting : StrategySetting) (step n : ℤ)
  | stepsEqual
  | primeTooSmall (prime : ℤ)
  | domainWraps (prime domainMax : ℤ)
  | negativeKey
deriving DecidableEq, Repr

/-- The configuration, where the inner `none` is the value `None`. -/
abbrev StrategyConfig (V : Type) : Type := StrategySetting → Option (Option V)

section Config

variable {V : Type} (int : Option V → Except StrategyError ℤ) (config : StrategyConfig V)

/-- `int(config.get(setting, default))`. -/
def StrategyConfig.intOr (setting : StrategySetting) (default : ℤ) : Except StrategyError ℤ :=
  match config setting with
  | none => .ok default
  | some value => int value

/-- The largest token and the largest layer, where both are given. -/
def StrategyConfig.domain : Except StrategyError (Option (ℤ × ℤ)) :=
  match (config .maxTokenIdx).join, (config .maxLayerId).join with
  | some maxT, some maxL => do
    let t ← int (some maxT)
    let l ← int (some maxL)
    pure (some (t, l))
  | _, _ => .ok none

end Config

/-- A step that passed the checks for `n` devices. -/
structure HashStep (n : ℤ) where
  value : ℤ
  prime : isPrime value = true
  gt : n < value

theorem HashStep.coprime {n : ℤ} (step : HashStep n) (hn : 0 < n) : IsCoprime step.value n := by
  have hgt := step.gt
  rw [Int.isCoprime_iff_nat_coprime, show step.value.natAbs = step.value.toNat by omega]
  exact Nat.coprime_of_lt_prime (by omega) (by omega) (isPrime_iff.mp step.prime)

structure PositionHashStrategy where
  numDevices : ℤ
  stepIdx : HashStep numDevices
  stepLayer : HashStep numDevices
  prime : ℤ
  numDevices_pos : 0 < numDevices
  steps_ne : stepIdx.value ≠ stepLayer.value
  prime_prime : isPrime prime = true
  steps_lt_prime : max stepIdx.value stepLayer.value < prime

namespace PositionHashStrategy

/-- One round of the loop over the steps. -/
def checkStep (setting : StrategySetting) (n step : ℤ) : Except StrategyError (HashStep n) :=
  if hp : isPrime step = true then
    if hn : n < step then .ok ⟨step, hp, hn⟩ else .error (.stepTooSmall setting step n)
  else .error (.notPrime setting step)

def checkDomain (stepIdx stepLayer prime : ℤ) : Option (ℤ × ℤ) → Except StrategyError Unit
  | none => .ok ()
  | some (maxT, maxL) =>
    if prime ≤ maxT * stepIdx + maxL * stepLayer then
      .error (.domainWraps prime (maxT * stepIdx + maxL * stepLayer))
    else .ok ()

/-- The constructor, where `int` is the conversion of a value of the configuration. -/
def init {V : Type} (int : Option V → Except StrategyError ℤ) (numDevices : ℤ)
    (config : StrategyConfig V) : Except StrategyError PositionHashStrategy :=
  if hn : numDevices ≤ 0 then .error .numDevices
  else do
    let idx ← config.intOr int .stepIdx 17
    let layer ← config.intOr int .stepLayer 23
    let prime ← config.intOr int .prime 2147483647
    let stepIdx ← checkStep .stepIdx numDevices idx
    let stepLayer ← checkStep .stepLayer numDevices layer
    if hne : stepIdx.value = stepLayer.value then .error .stepsEqual
    else if hp : isPrime prime = true then
      if hlt : prime ≤ max stepIdx.value stepLayer.value then .error (.primeTooSmall prime)
      else do
        let domain ← config.domain int
        checkDomain stepIdx.value stepLayer.value prime domain
        pure
          { numDevices, stepIdx, stepLayer, prime
            numDevices_pos := by omega
            steps_ne := hne
            prime_prime := hp
            steps_lt_prime := by omega }
    else .error (.notPrime .prime prime)

variable (s : PositionHashStrategy)

/-- What a key, which is a layer and a token, is hashed from. -/
def position (key : ℤ × ℤ) : ℤ := key.2 * s.stepIdx.value + key.1 * s.stepLayer.value

def device (key : ℤ × ℤ) : ℤ := s.position key % s.prime % s.numDevices

def locate (key : ℤ × ℤ) : Except StrategyError ℤ :=
  if key.2 < 0 ∨ key.1 < 0 then .error .negativeKey else .ok (s.device key)

/-- `locate_batch`, which checks no key. -/
def locateBatch (keys : List (ℤ × ℤ)) : Except StrategyError (List ℤ) :=
  .ok (keys.map s.device)

theorem device_mem (key : ℤ × ℤ) : s.device key ∈ Set.Ico 0 s.numDevices :=
  ⟨Int.emod_nonneg _ s.numDevices_pos.ne', Int.emod_lt_of_pos _ s.numDevices_pos⟩

/-- `key 0, key 1, …`, one key for each device, are on all devices. -/
def Spreads (key : ℤ → ℤ × ℤ) : Prop :=
  (∀ i ∈ Set.Ico 0 s.numDevices, s.locate (key i) = .ok (s.device (key i))) ∧
    Set.BijOn (fun i => s.device (key i)) (Set.Ico 0 s.numDevices) (Set.Ico 0 s.numDevices)

/-- A progression with a step that has no factor in common with `n` meets every residue once. -/
theorem bijOn_residues {n step : ℤ} (hn : 0 < n) (h : IsCoprime step n) (a : ℤ) :
    Set.BijOn (fun i => (a + i * step) % n) (Set.Ico 0 n) (Set.Ico 0 n) := by
  have hmaps : Set.MapsTo (fun i => (a + i * step) % n) (Set.Ico 0 n) (Set.Ico 0 n) :=
    fun i _ => ⟨Int.emod_nonneg _ hn.ne', Int.emod_lt_of_pos _ hn⟩
  apply ((Set.finite_Ico 0 n).injOn_iff_bijOn_of_mapsTo hmaps).mp
  intro i hi j hj heq
  have hmul : n ∣ (i - j) * step := by
    have hdvd := Int.dvd_of_emod_eq_zero (Int.emod_eq_emod_iff_emod_sub_eq_zero.mp heq)
    rwa [show a + i * step - (a + j * step) = (i - j) * step by ring] at hdvd
  have hij : n ∣ i - j := h.symm.dvd_of_dvd_mul_right hmul
  have habs : |i - j| < n := by
    rw [abs_lt]
    constructor <;> linarith [hi.1, hi.2, hj.1, hj.2]
  have := Int.eq_zero_of_abs_lt_dvd hij habs
  omega

variable {s}

/-- Inside the domain the modulus does not wrap. -/
theorem device_of_lt {key : ℤ × ℤ} (hpos : 0 ≤ s.position key) (hlt : s.position key < s.prime) :
    s.device key = s.position key % s.numDevices := by
  unfold device
  rw [Int.emod_eq_of_lt hpos hlt]

theorem position_nonneg {key : ℤ × ℤ} (hl : 0 ≤ key.1) (ht : 0 ≤ key.2) : 0 ≤ s.position key := by
  have hn := s.numDevices_pos
  have hidx := s.stepIdx.gt
  have hlayer := s.stepLayer.gt
  unfold position
  exact add_nonneg (mul_nonneg ht (by omega)) (mul_nonneg hl (by omega))

theorem position_mono {key key' : ℤ × ℤ} (hl : key.1 ≤ key'.1) (ht : key.2 ≤ key'.2) :
    s.position key ≤ s.position key' := by
  have hn := s.numDevices_pos
  have hidx := s.stepIdx.gt
  have hlayer := s.stepLayer.gt
  unfold position
  gcongr <;> omega

/-- Keys whose positions are a progression inside the domain are spread. -/
theorem spreads_of_progression {key : ℤ → ℤ × ℤ} (step : HashStep s.numDevices) (a : ℤ)
    (hkey : ∀ i ∈ Set.Ico 0 s.numDevices, 0 ≤ (key i).1 ∧ 0 ≤ (key i).2 ∧
      s.position (key i) < s.prime)
    (hstep : ∀ i, s.position (key i) = a + i * step.value) : s.Spreads key := by
  constructor
  · intro i hi
    obtain ⟨hl, ht, -⟩ := hkey i hi
    unfold locate
    rw [if_neg (by omega)]
  · apply (bijOn_residues s.numDevices_pos (step.coprime s.numDevices_pos) a).congr
    intro i hi
    obtain ⟨hl, ht, hlt⟩ := hkey i hi
    show (a + i * step.value) % s.numDevices = s.device (key i)
    rw [device_of_lt (position_nonneg hl ht) hlt, hstep]

theorem checkStep_value {n : ℤ} (setting : StrategySetting) (step : HashStep n) :
    checkStep setting n step.value = .ok step := by
  unfold checkStep
  rw [dif_pos step.prime, dif_pos step.gt]

/-- Every strategy is built from its own values. -/
theorem init_eq (s : PositionHashStrategy) {V : Type} {int : Option V → Except StrategyError ℤ} {config : StrategyConfig V}
    {domain : Option (ℤ × ℤ)} (hidx : config.intOr int .stepIdx 17 = .ok s.stepIdx.value)
    (hlayer : config.intOr int .stepLayer 23 = .ok s.stepLayer.value)
    (hprime : config.intOr int .prime 2147483647 = .ok s.prime)
    (hdom : config.domain int = .ok domain)
    (hcheck : checkDomain s.stepIdx.value s.stepLayer.value s.prime domain = .ok ()) :
    init int s.numDevices config = .ok s := by
  unfold init
  rw [dif_neg (not_le.mpr s.numDevices_pos), hidx, hlayer, hprime]
  simp only [bind, Except.bind, checkStep_value]
  rw [dif_neg s.steps_ne, dif_pos s.prime_prime, dif_neg (not_le.mpr s.steps_lt_prime), hdom]
  simp only [hcheck]
  rfl

theorem checkStep_ok {setting : StrategySetting} {n value : ℤ} {step : HashStep n}
    (h : checkStep setting n value = .ok step) : step.value = value := by
  unfold checkStep at h
  split_ifs at h
  cases h
  rfl

/-- What the constructor read and checked. -/
theorem init_ok {V : Type} {int : Option V → Except StrategyError ℤ} {numDevices : ℤ}
    {config : StrategyConfig V} (h : init int numDevices config = .ok s) :
    s.numDevices = numDevices ∧ config.intOr int .stepIdx 17 = .ok s.stepIdx.value ∧
      config.intOr int .stepLayer 23 = .ok s.stepLayer.value ∧
      config.intOr int .prime 2147483647 = .ok s.prime ∧
      ∃ domain, config.domain int = .ok domain ∧
        checkDomain s.stepIdx.value s.stepLayer.value s.prime domain = .ok () := by
  unfold init at h
  split at h
  · cases h
  obtain ⟨idx, hidx, h⟩ := except_bind_ok h
  obtain ⟨layer, hlayer, h⟩ := except_bind_ok h
  obtain ⟨prime, hprime, h⟩ := except_bind_ok h
  obtain ⟨stepIdx, hstepIdx, h⟩ := except_bind_ok h
  obtain ⟨stepLayer, hstepLayer, h⟩ := except_bind_ok h
  have hidx' := checkStep_ok hstepIdx
  have hlayer' := checkStep_ok hstepLayer
  split at h
  · cases h
  split at h
  · split at h
    · cases h
    obtain ⟨domain, hdomain, h⟩ := except_bind_ok h
    obtain ⟨_, hcheck, h⟩ := except_bind_ok h
    cases h
    rw [← hidx'] at hidx
    rw [← hlayer'] at hlayer
    exact ⟨rfl, hidx, hlayer, hprime, domain, hdomain, hcheck⟩
  · cases h

/-- What the constructor checked of the domain. -/
theorem init_domain {V : Type} {int : Option V → Except StrategyError ℤ} {numDevices : ℤ}
    {config : StrategyConfig V} {maxT maxL : ℤ} (h : init int numDevices config = .ok s)
    (hdom : config.domain int = .ok (some (maxT, maxL))) :
    s.numDevices = numDevices ∧ s.position (maxL, maxT) < s.prime := by
  obtain ⟨hn, -, -, -, domain, hdomain, hcheck⟩ := init_ok h
  obtain rfl := Except.ok.inj (hdom.symm.trans hdomain)
  simp only [checkDomain] at hcheck
  split_ifs at hcheck with hle
  exact ⟨hn, not_le.mp hle⟩

end PositionHashStrategy

open PositionHashStrategy in
/-- As many consecutive tokens of a layer, or consecutive layers of a token, as there are devices
are on different devices. -/
theorem positionHash_spreads {V : Type} {int : Option V → Except StrategyError ℤ} {n : ℤ}
    {config : StrategyConfig V} {s : PositionHashStrategy} {maxT maxL : ℤ}
    (h : PositionHashStrategy.init int n config = .ok s)
    (hdom : config.domain int = .ok (some (maxT, maxL))) :
    s.numDevices = n ∧
      (∀ l t, 0 ≤ l → l ≤ maxL → 0 ≤ t → t + n - 1 ≤ maxT → s.Spreads fun i => (l, t + i)) ∧
      (∀ l t, 0 ≤ l → l + n - 1 ≤ maxL → 0 ≤ t → t ≤ maxT → s.Spreads fun i => (l + i, t)) := by
  obtain ⟨rfl, hmax⟩ := init_domain h hdom
  refine ⟨rfl, ?_, ?_⟩
  · intro l t hl hlmax ht htmax
    apply spreads_of_progression s.stepIdx (s.position (l, t))
    · intro i hi
      refine ⟨hl, add_nonneg ht hi.1, ?_⟩
      have hle : t + i ≤ maxT := by linarith [hi.2]
      exact (position_mono hlmax hle).trans_lt hmax
    · intro i
      unfold position
      ring
  · intro l t hl hlmax ht htmax
    apply spreads_of_progression s.stepLayer (s.position (l, t))
    · intro i hi
      refine ⟨add_nonneg hl hi.1, ht, ?_⟩
      have hle : l + i ≤ maxL := by linarith [hi.2]
      exact (position_mono hle htmax).trans_lt hmax
    · intro i
      unfold position
      ring

/-- The settings of a configuration file, with a domain. -/
def fileConfig : StrategyConfig ℤ
  | .stepIdx => some (some 17)
  | .stepLayer => some (some 23)
  | .prime => some (some 2229299)
  | .maxTokenIdx => some (some 100000)
  | .maxLayerId => some (some 60)

def fileStrategy : PositionHashStrategy where
  numDevices := 8
  stepIdx := ⟨17, isPrime_iff.mpr (show Nat.Prime 17 by norm_num), by norm_num⟩
  stepLayer := ⟨23, isPrime_iff.mpr (show Nat.Prime 23 by norm_num), by norm_num⟩
  prime := 2229299
  numDevices_pos := by norm_num
  steps_ne := by norm_num
  prime_prime := isPrime_iff.mpr (show Nat.Prime 2229299 by norm_num)
  steps_lt_prime := by norm_num

theorem positionHash_spreads_file :
    PositionHashStrategy.init (fun v => v.elim (.error .notInt) .ok) 8 fileConfig
      = .ok fileStrategy ∧
      (fileStrategy.Spreads fun i => (7, 100 + i)) ∧
      (fileStrategy.Spreads fun i => (7 + i, 100)) := by
  have hinit : PositionHashStrategy.init (fun v => v.elim (.error .notInt) .ok) 8 fileConfig
      = .ok fileStrategy :=
    fileStrategy.init_eq rfl rfl rfl rfl rfl
  obtain ⟨-, htokens, hlayers⟩ := positionHash_spreads hinit rfl
  exact ⟨hinit, htokens 7 100 (by decide) (by decide) (by decide) (by decide),
    hlayers 7 100 (by decide) (by decide) (by decide) (by decide)⟩

end Umm
