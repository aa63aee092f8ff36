import Umm.Lib.Reach
import Umm.Media.PositionHash

/-! The prime test of `virtual_media_strategy.py`, round by round, and what the checks of the
constructor that use it amount to. -/
namespace Umm
open Umm.Lib

/-- One round of the loop of `is_prime`, with the divisor `i`. -/
def divisorRound (n i : ℕ) : ℕ ⊕ Bool :=
  if i * i ≤ n then
    if n % i = 0 then .inr false else .inl (i + 2)
  else .inr true

/-- `is_prime`, with `none` where its loop has not returned after `fuel` rounds. -/
def isPrimeWithin (fuel : ℕ) (n : ℤ) : Option Bool :=
  if n < 2 then some false
  else if n % 2 = 0 then some (n == 2)
  else runRounds (divisorRound n.toNat) fuel 3

theorem noOddDivisor_round (n i : ℕ) :
    noOddDivisor n i = match divisorRound n i with
      | .inl j => noOddDivisor n j
      | .inr b => b := by
  unfold divisorRound
  rw [noOddDivisor]
  split_ifs <;> rfl

theorem divisorRound_goes {n i j : ℕ} (h : divisorRound n i = .inl j) :
    j = i + 2 ∧ i ≤ n.sqrt := by
  unfold divisorRound at h
  split_ifs at h with hle hdvd
  exact ⟨(Sum.inl.inj h).symm, Nat.le_sqrt.mpr hle⟩

/-- The loop is left after at most one round for every second divisor up to the square root. -/
theorem runRounds_divisorRound {n fuel : ℕ} (hfuel : n.sqrt / 2 < fuel) :
    runRounds (divisorRound n) fuel 3 = some (noOddDivisor n 3) := by
  -- The divisor grows by 2, and what the loop will return stays what it was.
  have hgoes : ∀ i j, noOddDivisor n i = noOddDivisor n 3 → divisorRound n i = .inl j →
      noOddDivisor n j = noOddDivisor n 3 ∧ (n.sqrt + 2 - j) / 2 < (n.sqrt + 2 - i) / 2 := by
    intro i j hi hj
    obtain ⟨rfl, hsqrt⟩ := divisorRound_goes hj
    rw [noOddDivisor_round, hj] at hi
    exact ⟨hi, by omega⟩
  have hends : ∀ i b, noOddDivisor n i = noOddDivisor n 3 → divisorRound n i = .inr b →
      b = noOddDivisor n 3 := by
    intro i b hi hb
    rw [noOddDivisor_round, hb] at hi
    exact hi
  obtain ⟨b, hb, rfl⟩ := runRounds_returns (noOddDivisor n · = noOddDivisor n 3)
    (· = noOddDivisor n 3) (fun i => (n.sqrt + 2 - i) / 2) hgoes hends rfl
    (show (n.sqrt + 2 - 3) / 2 < fuel by omega)
  exact hb

theorem isPrimeWithin_eq {fuel : ℕ} {n : ℤ} (hfuel : n.toNat.sqrt / 2 < fuel) :
    isPrimeWithin fuel n = some (isPrime n) := by
  unfold isPrimeWithin isPrime
  rw [runRounds_divisorRound hfuel]
  split_ifs <;> rfl

/-- The prime numbers among the integers. -/
def PrimeNumber (n : ℤ) : Prop := ∃ p : ℕ, p.Prime ∧ n = p

theorem primeNumber_iff {n : ℤ} : PrimeNumber n ↔ n.toNat.Prime := by
  constructor
  · rintro ⟨p, hp, rfl⟩
    rwa [Int.toNat_natCast]
  · intro hp
    have := hp.pos
    exact ⟨n.toNat, hp, by omega⟩

namespace PositionHashStrategy

/-- What the class says of its settings, for `n` devices. -/
structure Settings (n stepIdx stepLayer prime : ℤ) : Prop where
  idx_prime : PrimeNumber stepIdx
  idx_gt : n < stepIdx
  layer_prime : PrimeNumber stepLayer
  layer_gt : n < stepLayer
  steps_ne : stepIdx ≠ stepLayer
  prime_prime : PrimeNumber prime
  steps_lt_prime : max stepIdx stepLayer < prime

theorem settings (s : PositionHashStrategy) :
    Settings s.numDevices s.stepIdx.value s.stepLayer.value s.prime where
  idx_prime := primeNumber_iff.mpr (isPrime_iff.mp s.stepIdx.prime)
  idx_gt := s.stepIdx.gt
  layer_prime := primeNumber_iff.mpr (isPrime_iff.mp s.stepLayer.prime)
  layer_gt := s.stepLayer.gt
  steps_ne := s.steps_ne
  prime_prime := primeNumber_iff.mpr (isPrime_iff.mp s.prime_prime)
  steps_lt_prime := s.steps_lt_prime

theorem Settings.strategy {n stepIdx stepLayer prime : ℤ} (h : Settings n stepIdx stepLayer prime)
    (hn : 0 < n) : ∃ s : PositionHashStrategy, s.numDevices = n ∧ s.stepIdx.value = stepIdx ∧
      s.stepLayer.value = stepLayer ∧ s.prime = prime := by
  have hidx := isPrime_iff.mpr (primeNumber_iff.mp h.idx_prime)
  have hlayer := isPrime_iff.mpr (primeNumber_iff.mp h.layer_prime)
  have hprime := isPrime_iff.mpr (primeNumber_iff.mp h.prime_prime)
  exact ⟨⟨n, ⟨stepIdx, hidx, h.idx_gt⟩, ⟨stepLayer, hlayer, h.layer_gt⟩, prime, hn, h.steps_ne,
    hprime, h.steps_lt_prime⟩, rfl, rfl, rfl, rfl⟩

/-- The constructor takes the settings that are as the class says, if their domain does not
wrap. -/
theorem init_accepts_iff {V : Type} {int : Option V → Except StrategyError ℤ} {n : ℤ}
    {config : StrategyConfig V} : (∃ s, init int n config = .ok s) ↔
      0 < n ∧ ∃ stepIdx stepLayer prime domain, config.intOr int .stepIdx 17 = .ok stepIdx ∧
        config.intOr int .stepLayer 23 = .ok stepLayer ∧
        config.intOr int .prime 2147483647 = .ok prime ∧ config.domain int = .ok domain ∧
        Settings n stepIdx stepLayer prime ∧
        checkDomain stepIdx stepLayer prime domain = .ok () := by
  constructor
  · rintro ⟨s, h⟩
    obtain ⟨rfl, hidx, hlayer, hprime, domain, hdomain, hcheck⟩ := init_ok h
    exact ⟨s.numDevices_pos, _, _, _, domain, hidx, hlayer, hprime, hdomain, s.settings, hcheck⟩
  · rintro ⟨hn, stepIdx, stepLayer, prime, domain, hidx, hlayer, hprime, hdomain, hset, hcheck⟩
    obtain ⟨s, rfl, rfl, rfl, rfl⟩ := hset.strategy hn
    exact ⟨s, s.init_eq hidx hlayer hprime hdomain hcheck⟩

end PositionHashStrategy

open PositionHashStrategy in
/-- The test returns, and accepts the prime numbers. The steps that the constructor takes have no
factor in common with the number of devices, and its modulus is a prime number. -/
theorem isPrime_exact :
    (∀ n : ℤ, (∀ fuel, n.toNat.sqrt / 2 < fuel → isPrimeWithin fuel n = some (isPrime n)) ∧
      (isPrime n = true ↔ PrimeNumber n)) ∧
    ∀ (V : Type) (int : Option V → Except StrategyError ℤ) (n : ℤ) (config : StrategyConfig V),
      ((∃ s, PositionHashStrategy.init int n config = .ok s) ↔
        0 < n ∧ ∃ stepIdx stepLayer prime domain, config.intOr int .stepIdx 17 = .ok stepIdx ∧
          config.intOr int .stepLayer 23 = .ok stepLayer ∧
          config.intOr int .prime 2147483647 = .ok prime ∧ config.domain int = .ok domain ∧
          Settings n stepIdx stepLayer prime ∧
          checkDomain stepIdx stepLayer prime domain = .ok ()) ∧
      ∀ s, PositionHashStrategy.init int n config = .ok s →
        IsCoprime s.stepIdx.value n ∧ IsCoprime s.stepLayer.value n ∧ PrimeNumber s.prime := by
  refine ⟨fun n => ⟨fun fuel hfuel => isPrimeWithin_eq hfuel, ?_⟩, ?_⟩
  · rw [isPrime_iff, primeNumber_iff]
  · intro V int n config
    refine ⟨init_accepts_iff, ?_⟩
    intro s h
    obtain ⟨rfl, -⟩ := init_ok h
    have hidx := s.stepIdx.coprime s.numDevices_pos
    have hlayer := s.stepLayer.coprime s.numDevices_pos
    exact ⟨hidx, hlayer, s.settings.prime_prime⟩

/-- A square of a prime, where the loop has to look at the root, and the settings of a file. -/
theorem isPrime_exact_square :
    isPrimeWithin 4 49 = some (isPrime 49) ∧ isPrime 49 = false ∧ ¬ PrimeNumber 49 ∧
      PositionHashStrategy.init (fun v => v.elim (.error .notInt) .ok) 8 fileConfig
        = .ok fileStrategy ∧
      IsCoprime (17 : ℤ) 8 ∧ IsCoprime (23 : ℤ) 8 ∧ PrimeNumber 2229299 := by
  obtain ⟨htest, hinit⟩ := isPrime_exact
  obtain ⟨hreturns, hprime⟩ := htest 49
  have hsqrt : Nat.sqrt 49 < 8 := Nat.sqrt_lt'.mpr (by norm_num)
  have hfuel : (49 : ℤ).toNat.sqrt / 2 < 4 := (show Nat.sqrt 49 / 2 < 4 by omega)
  have hcalls := hreturns 4 hfuel
  have hfalse : isPrime 49 = false := Option.some.inj (hcalls.symm.trans rfl)
  have hfile : PositionHashStrategy.init (fun v => v.elim (.error .notInt) .ok) 8 fileConfig
      = .ok fileStrategy := fileStrategy.init_eq rfl rfl rfl rfl rfl
  refine ⟨hcalls, hfalse, ?_, hfile, (hinit _ _ _ _).2 _ hfile⟩
  rw [← hprime, hfalse]
  decide

end Umm
