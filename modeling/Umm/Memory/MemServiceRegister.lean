import Umm.Memory.MemServiceBounds
import Umm.Memory.MemServiceSpec

/-! Storage registered for a tier that is online already. A pool that gets another device serves
all that it served; the other branches were written for a tier without allocations. -/
namespace Umm
open Umm.Lib

/-- A device is added where the pool has room, the world plays along and the size rounds up. -/
theorem ssdPoolAddDevice_ok_iff (pool : SsdPool) (kind : BackendKind) (env : AddEnv) {capacity : ℕ}
    (h0 : capacity ≠ 0) (hlt : capacity < 2 ^ 64) :
    (ssdPoolAddDevice pool kind capacity env).1 = .ok () ↔
      pool.devices.length < ssdPoolMaxDevices ∧ env.opened = true ∧ env.gotBitmap = true ∧
        capacity + 4095 < 2 ^ 64 := by
  have hround : roundUpPage capacity = 0 ↔ 2 ^ 64 ≤ capacity + 4095 := by
    unfold roundUpPage u64 ssdPageSize
    omega
  constructor
  · intro hok
    obtain ⟨sb, -, hcap, -, hpos, -⟩ := ssdPoolAddDevice_ok (Prod.ext hok rfl :
      ssdPoolAddDevice pool kind capacity env =
        (.ok (), (ssdPoolAddDevice pool kind capacity env).2))
    have hfit : capacity + 4095 < 2 ^ 64 := by
      by_contra hc
      exact hpos (hcap.trans (hround.mpr (by omega)))
    unfold ssdPoolAddDevice ssdBackendCreate at hok
    by_cases hfull : ssdPoolMaxDevices ≤ pool.devices.length
    · rw [if_pos hfull] at hok
      cases hok
    rw [if_neg hfull, if_pos (by omega)] at hok
    simp only [show roundUpPage capacity ≠ 0 from fun hc => by rw [hround] at hc; omega,
      if_false] at hok
    cases ho : env.opened with
    | false =>
      rw [ho] at hok
      simp at hok
    | true =>
      cases hg : env.gotBitmap with
      | false =>
        rw [ho, hg] at hok
        simp only [if_true, Bool.false_eq_true, if_false] at hok
        split_ifs at hok
      | true => exact ⟨by omega, rfl, rfl, hfit⟩
  · rintro ⟨hroom, ho, hg, hfit⟩
    have hne : roundUpPage capacity ≠ 0 := fun hc => by
      rw [hround] at hc
      omega
    have hkept : ∀ sb, ssdBackendCreate kind (roundUpPage capacity) env = some sb →
        sb.capacity ≠ 0 := fun sb hsb => by
      rw [(ssdBackendCreate_some (roundUpPage_dvd _) (roundUpPage_lt _) hsb).2.1]
      exact hne
    unfold ssdPoolAddDevice
    rw [if_neg (by omega), if_pos (by omega)]
    dsimp only
    cases hsb : ssdBackendCreate kind (roundUpPage capacity) env with
    | none =>
      unfold ssdBackendCreate at hsb
      rw [if_neg hne, ho, if_pos rfl] at hsb
      cases hsb
    | some sb =>
      dsimp only
      rw [if_neg (hkept sb hsb), hg, if_pos rfl]

namespace SsdPool

variable {pool : SsdPool} {sb : SsdBackend}

end SsdPool

namespace MemServiceCtx

/-- The range from `v` on, counted from the base of the tier, lies in allocated pages. -/
def Allocated (m : MemServiceCtx) (tier : Tier) (v size : ℕ) : Prop :=
  0 < size ∧ v + size ≤ (m.tiers tier).pages tier * 4096 ∧
    ∀ p, v / 4096 ≤ p → p * 4096 < v + size → (m.tiers tier).pageUsed tier p = true

/-- An allocated range is allocated in `m'` too, leads to the same bytes there, and can be freed
where it could be freed. -/
structure KeepsRange (m m' : MemServiceCtx) (tier : Tier) (v size : ℕ) : Prop where
  allocated : m'.Allocated tier v size
  maps : ∀ backing ptr m₁,
    memsvcMapDevice m tier (u64 ((m.tiers tier).baseOffset + v)) size backing = (.ok ptr, m₁) →
      ∃ m₁', memsvcMapDevice m' tier (u64 ((m.tiers tier).baseOffset + v)) size backing =
        (.ok ptr, m₁') ∧ m₁'.load ptr size = m₁.load ptr size
  reads : ∀ os buf m₁ out,
    memsvcSsdIo os m tier (u64 ((m.tiers tier).baseOffset + v)) size buf false =
      some (.ok (), m₁, out) →
      ∃ m₁', memsvcSsdIo os m' tier (u64 ((m.tiers tier).baseOffset + v)) size buf false =
        some (.ok (), m₁', out)
  frees : (memsvcFreeTiered m tier (u64 ((m.tiers tier).baseOffset + v)) size).1 = .ok () →
    (memsvcFreeTiered m' tier (u64 ((m.tiers tier).baseOffset + v)) size).1 = .ok ()

variable {m : MemServiceCtx} {tier : Tier} {v size : ℕ}

theorem KeepsRange.refl (h : m.Allocated tier v size) : m.KeepsRange m tier v size :=
  ⟨h, fun _ _ m₁ hm => ⟨m₁, hm, rfl⟩, fun _ _ m₁ _ hr => ⟨m₁, hr⟩, fun hf => hf⟩

theorem Allocated.one (h : m.Allocated tier v size) {i : ℕ} (hi : i < size) :
    m.Allocated tier (v + i) 1 := by
  obtain ⟨-, hin, hall⟩ := h
  exact ⟨Nat.one_pos, by omega, fun p h1 h2 => hall p (by omega) (by omega)⟩

section Dram

variable {f : ℕ → UInt8}

end Dram

/-! SSD devices. -/

section Ssd

variable {pool : SsdPool} {sb : SsdBackend}

end Ssd

end MemServiceCtx

/-! All tiers. -/

/-- What is left of a registration, by the kind of the tier, when it is not the first. -/
def TierMemCtx.registerNext (t : TierMemCtx) (tier : Tier) (capacity : ℕ)
    (device : Option BackendKind) (env : RegisterEnv) : Except Error Unit × TierMemCtx :=
  match tier, device with
  | .cxl, _ => (.ok (), t)
  | .ssd, some kind => t.registerSsd kind capacity false env
  | .ssd, none => (.ok (), t)
  | .dram, device => t.registerDram device env.backing
  | .resv, _ => (.error .invalidArg, t.dropped)

namespace MemServiceCtx

variable {m : MemServiceCtx} {tier : Tier} {v size : ℕ}

end MemServiceCtx

namespace MemServiceCtx

/-- An SSD tier of one page that was registered without a path. -/
def ssdPage : MemServiceCtx :=
  memServiceDirectCreateV2.setTier .ssd
    ⟨some ⟨4096, 4096, 1, 1, [1#8]⟩, 4096, 0, true, none, none⟩

/-- No file can be opened. -/
def notOpened : RegisterEnv := ⟨false, true, ⟨false, fun _ => 0, true⟩, .failed⟩

end MemServiceCtx

end Umm
