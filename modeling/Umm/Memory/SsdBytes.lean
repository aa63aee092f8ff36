import Umm.Memory.MemVtbl
import Umm.Memory.MemServiceSpec
import Umm.Transport.SsdPoolRefine

/-! The bytes behind the SSD tier, and what any call of the service does to them, also one that
fails on the way because a device refuses its piece. -/
namespace Umm
open Umm.Lib

section Pool

variable {os : OsIo} {pool pool' : SsdPool} {voffset len : ℕ} {buf buf' : List UInt8}
  {r : Except Error Unit}

theorem ssdPoolPwrite_part (hw : pool.WF) (hlt : voffset + len < 2 ^ 64) (hb : buf.length = len)
    (h : ssdPoolPwrite os pool voffset len buf = some (r, pool', buf')) :
    pool'.WF ∧
      (∀ i, pool'.bytes[i]? = pool.bytes[i]? ∨
        ∃ j < len, i = voffset + j ∧ pool'.bytes[i]? = buf[j]?) ∧
      (r = .ok () → ∀ j < len, pool'.bytes[voffset + j]? = buf[j]?) := by
  unfold ssdPoolPwrite ssdPoolIo at h
  rw [u64_of_lt hlt] at h
  split_ifs at h with hout
  · simp only [Option.some.injEq, Prod.mk.injEq] at h
    obtain ⟨rfl, rfl, rfl⟩ := h
    exact ⟨hw, fun i => .inl rfl, by simp⟩
  · obtain ⟨r', p, n, he, hw', -, hn, hbytes, -, hall⟩ :=
      ssdPoolPwrite_inside os hw hb (Nat.not_lt.mp hout)
    unfold ssdPoolPwrite ssdPoolIo at he
    rw [u64_of_lt hlt, if_neg hout, h] at he
    simp only [Option.some.injEq, Prod.mk.injEq] at he
    obtain ⟨rfl, rfl, rfl⟩ := he
    have hslice : (buf'.take n).length = n := List.length_take_of_le (by omega)
    have hfit : voffset + (buf'.take n).length ≤ pool.bytes.length := by
      rw [hslice, hw.length_bytes]
      omega
    have hget : ∀ i, pool'.bytes[i]? =
        if voffset ≤ i ∧ i < voffset + n then buf'[i - voffset]? else pool.bytes[i]? := by
      intro i
      rw [hbytes, getElem?_splice hfit, hslice]
      split_ifs with hi
      · exact List.getElem?_take_of_lt (by omega)
      · rfl
    refine ⟨hw', fun i => ?_, fun hr j hj => ?_⟩
    · rw [hget]
      split_ifs with hi
      · exact .inr ⟨i - voffset, by omega, by omega, rfl⟩
      · exact .inl rfl
    · rw [hget, if_pos ⟨by omega, by rw [hall hr]; omega⟩, Nat.add_sub_cancel_left]

theorem ssdPoolPread_part (hw : pool.WF) (hlt : voffset + len < 2 ^ 64) (hb : buf.length = len)
    (h : ssdPoolPread os pool voffset len buf = some (r, pool', buf')) :
    pool' = pool ∧ (r = .ok () → ∀ j < len, buf'[j]? = pool.bytes[voffset + j]?) := by
  unfold ssdPoolPread ssdPoolIo at h
  rw [u64_of_lt hlt] at h
  split_ifs at h with hout
  · simp only [Option.some.injEq, Prod.mk.injEq] at h
    obtain ⟨rfl, rfl, rfl⟩ := h
    exact ⟨rfl, by simp⟩
  · obtain ⟨r', out, he, -, hout'⟩ := ssdPoolPread_inside os hw hb (Nat.not_lt.mp hout)
    unfold ssdPoolPread ssdPoolIo at he
    rw [u64_of_lt hlt, if_neg hout, h] at he
    simp only [Option.some.injEq, Prod.mk.injEq] at he
    obtain ⟨rfl, rfl, rfl⟩ := he
    refine ⟨rfl, fun hr j hj => ?_⟩
    rw [hout' hr, getElem?_slice, if_pos hj]

end Pool

theorem TierMemCtx.WF.sub64_base {t : TierMemCtx} (hw : t.WF) (offset : UInt64) :
    sub64 offset.toNat t.baseOffset = offset.toNat := by
  rw [hw.base_eq, sub64_zero offset.toNat_lt]

namespace MemServiceCtx

/-- The byte at an offset of the SSD tier. -/
def ssdByte (m : MemServiceCtx) (i : ℕ) : Option UInt8 :=
  (m.tiers .ssd).ssdPool.bind fun pool => pool.bytes[i]?

variable {env : MemEnv} {m m' : MemServiceCtx} {offset : UInt64}

theorem memsvcSsdWrite_bytes {buf : List UInt8} {r : Except Error Unit} (hw : (m.tiers .ssd).WF)
    (hlt : offset.toNat + buf.length < 2 ^ 64)
    (h : memsvcSsdWrite env m offset buf = some (r, m')) :
    (m'.tiers .ssd).WF ∧
      (∀ i, m'.ssdByte i = m.ssdByte i ∨
        ∃ j < buf.length, i = offset.toNat + j ∧ m'.ssdByte i = buf[j]?) ∧
      (r = .ok () → ∀ j < buf.length, m'.ssdByte (offset.toNat + j) = buf[j]?) := by
  have hbase := hw.sub64_base offset
  obtain ⟨⟨r₁, m₁, out⟩, hio, he⟩ := Option.map_eq_some_iff.mp h
  obtain ⟨rfl, rfl⟩ := Prod.mk.inj he
  cases memsvcSsdIo_cases hio with
  | refused => exact ⟨hw, fun i => .inl rfl, by simp⟩
  | @answered pool _ _ _ hpool hio =>
    rw [hbase] at hio
    obtain ⟨hw', hsome, hall⟩ := ssdPoolPwrite_part (hw.pool_wf pool hpool) hlt rfl hio
    simp only [ssdByte, tiers_setTier_same, hpool, Option.bind_some]
    exact ⟨hw.withPool hw', hsome, hall⟩

theorem memsvcSsdRead_bytes {len : UInt64} {r : Except Error (List UInt8)}
    (hw : (m.tiers .ssd).WF) (hlt : offset.toNat + len.toNat < 2 ^ 64)
    (h : memsvcSsdRead env m offset len = some (r, m')) :
    m' = m ∧ ∀ bytes, r = .ok bytes →
      ∀ j < len.toNat, bytes[j]? = m.ssdByte (offset.toNat + j) := by
  have hbase := hw.sub64_base offset
  obtain ⟨⟨r₁, m₁, out⟩, hio, he⟩ := Option.map_eq_some_iff.mp h
  obtain ⟨rfl, rfl⟩ := Prod.mk.inj he
  cases memsvcSsdIo_cases hio with
  | refused => exact ⟨rfl, fun bytes hr => by cases hr⟩
  | @answered pool _ _ _ hpool hio =>
    rw [hbase] at hio
    obtain ⟨rfl, hall⟩ := ssdPoolPread_part (hw.pool_wf pool hpool) hlt (by simp [MemEnv.malloc])
      hio
    refine ⟨?_, fun bytes hr => ?_⟩
    · rw [← hpool]
      exact m.setTier_self .ssd
    · cases r₁ with
      | error e => cases hr
      | ok u =>
        obtain rfl := Except.ok.inj hr
        simp only [ssdByte, hpool, Option.bind_some]
        exact hall rfl

end MemServiceCtx

end Umm
