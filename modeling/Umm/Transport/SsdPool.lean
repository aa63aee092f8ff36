import Umm.Common.Basic
import Umm.Lib.Bitmap
import Umm.Lib.Extent

/-! The SSD pool of `ssd_pool.c`: devices laid end to end in one virtual address space,
and one bitmap over all their pages, with a bit set while its page is allocated. -/
namespace Umm
open Umm.Lib

def ssdPageSize : ℕ := 4096

def ssdPoolMaxDevices : ℕ := 16

/-- The device kinds that `ssd_backend_create` tells apart by the prefix of the path. -/
inductive BackendKind where
  | file
  | direct
  | libnvm
  | nds
  | ndsMeta
deriving DecidableEq, Repr

structure SsdBackend where
  kind : BackendKind
  capacity : ℕ
  /-- The bytes of the device. -/
  data : List UInt8
deriving DecidableEq, Repr

/-- What the world answers while a device is added. -/
structure AddEnv where
  /-- The spec parses, and the open, ioctl, ftruncate, mmap or driver calls succeed. -/
  opened : Bool
  /-- The bytes found on the device. -/
  disk : ℕ → UInt8
  /-- `calloc` gives the words of the enlarged bitmap. -/
  gotBitmap : Bool

def roundUpPage (n : ℕ) : ℕ := u64 (n + ssdPageSize - 1) / ssdPageSize * ssdPageSize

def roundDownPage (n : ℕ) : ℕ := n / ssdPageSize * ssdPageSize

def ssdBackendCreate (kind : BackendKind) (capacity : ℕ) (env : AddEnv) : Option SsdBackend :=
  if capacity = 0 then none
  else if env.opened then
    let capacity :=
      match kind with
      | .direct => capacity
      | .libnvm | .nds | .ndsMeta => roundDownPage capacity
      | .file => roundUpPage capacity
    some { kind, capacity, data := (List.range capacity).map env.disk }
  else none

structure SsdDevice where
  backend : SsdBackend
  virtualBase : ℕ
  capacity : ℕ
deriving DecidableEq, Repr

structure SsdPool where
  devices : List SsdDevice
  totalCapacity : ℕ
  totalPages : ℕ
  freePages : ℕ
  bitmap : List (BitVec 64)
deriving DecidableEq, Repr

def bmTest (bm : List (BitVec 64)) (page : ℕ) : Bool := Bitmap.test bm page

/-- The search loop over the `r` pages from `p` on. `consecutive` free pages end right
before `p`, and `found` is where they start. -/
def bmFindFreeLoop (bm : List (BitVec 64)) (totalPages npages : ℕ) : ℕ → ℕ → ℕ → ℕ → ℕ
  | 0, _, _, _ => totalPages
  | r + 1, p, found, consecutive =>
    if bmTest bm p then bmFindFreeLoop bm totalPages npages r (p + 1) found 0
    else
      let found := if consecutive = 0 then p else found
      if npages ≤ consecutive + 1 then found
      else bmFindFreeLoop bm totalPages npages r (p + 1) found (consecutive + 1)

def bmFindFree (bm : List (BitVec 64)) (totalPages start npages : ℕ) : ℕ :=
  if npages = 0 ∨ totalPages ≤ start then totalPages
  else bmFindFreeLoop bm totalPages npages (totalPages - start) start start 0

def ssdPoolCreate : SsdPool := ⟨[], 0, 0, 0, []⟩

def ssdPoolAddDevice (pool : SsdPool) (kind : BackendKind) (capacity : ℕ) (env : AddEnv) :
    Except Error Unit × SsdPool :=
  if ssdPoolMaxDevices ≤ pool.devices.length then (.error .noMemory, pool)
  else
    let capacity := if 0 < capacity then roundUpPage capacity else capacity
    match ssdBackendCreate kind capacity env with
    | none => (.error .transportError, pool)
    | some sb =>
      if sb.capacity = 0 then (.error .invalidArg, pool)
      else
        let totalCapacity := u64 (pool.totalCapacity + sb.capacity)
        let newTotalPages := totalCapacity / ssdPageSize
        let newWords := u64 (newTotalPages + 63) / 64
        if env.gotBitmap then
          (.ok (),
            { devices := pool.devices ++
                [{ backend := sb, virtualBase := pool.totalCapacity, capacity := sb.capacity }]
              totalCapacity
              totalPages := newTotalPages
              freePages := u64 (pool.freePages + sb.capacity / ssdPageSize)
              bitmap := pool.bitmap ++ List.replicate (newWords - pool.bitmap.length) 0#64 })
        else (.error .noMemory, pool)

/-- Pages asked for by `size` bytes, rounded up in 64-bit arithmetic. -/
def ssdNpages (size : ℕ) : ℕ := u64 (size + ssdPageSize - 1) / ssdPageSize

/-- Mark `npages` pages from `page` on and return their virtual offset. -/
def SsdPool.take (pool : SsdPool) (page npages : ℕ) : SsdPool :=
  { pool with
    bitmap := Bitmap.setRun pool.bitmap page npages
    freePages := pool.freePages - npages }

def ssdPoolAllocOnDevice (pool : SsdPool) (deviceIdx size : ℕ) : Except Error ℕ × SsdPool :=
  if size = 0 ∨ 2 ^ 64 - 1 - (ssdPageSize - 1) < size then (.error .invalidArg, pool)
  else
    let npages := ssdNpages size
    match pool.devices[deviceIdx]? with
    | none => (.error .invalidArg, pool)
    | some dev =>
      let start := dev.virtualBase / ssdPageSize
      let pages := dev.capacity / ssdPageSize
      let stop := start + pages
      if pages < npages ∨ pool.freePages < npages then (.error .noMemory, pool)
      else
        let page := bmFindFree pool.bitmap stop start npages
        if stop ≤ page then (.error .noMemory, pool)
        else (.ok (u64 (page * ssdPageSize)), pool.take page npages)

def ssdPoolAlloc (pool : SsdPool) (size : ℕ) : Except Error ℕ × SsdPool :=
  if size = 0 then (.error .invalidArg, pool)
  else
    let npages := ssdNpages size
    if pool.freePages < npages then (.error .noMemory, pool)
    else
      let page := bmFindFree pool.bitmap pool.totalPages 0 npages
      if pool.totalPages ≤ page then (.error .noMemory, pool)
      else (.ok (u64 (page * ssdPageSize)), pool.take page npages)

/-- The double-free check: every one of the `n` pages from `page` on is allocated. -/
def bmAllSet (bm : List (BitVec 64)) (page : ℕ) : ℕ → Bool
  | 0 => true
  | n + 1 => bmTest bm page && bmAllSet bm (page + 1) n

def ssdPoolFree (pool : SsdPool) (voffset size : ℕ) : Except Error Unit × SsdPool :=
  if size = 0 ∨ pool.totalCapacity ≤ voffset then (.error .invalidArg, pool)
  else
    let startPage := voffset / ssdPageSize
    let npages := ssdNpages size
    if pool.totalPages < u64 (startPage + npages) then (.error .invalidArg, pool)
    else if bmAllSet pool.bitmap startPage npages then
      (.ok (),
        { pool with
          bitmap := Bitmap.clearRun pool.bitmap startPage npages
          freePages := u64 (pool.freePages + npages) })
    else (.error .invalidArg, pool)

section Search

variable {bm : List (BitVec 64)} {totalPages npages start : ℕ}

/-- The loop keeps: fewer than `npages` free pages end right before `p`, they begin at
`p - c`, and no free run of `npages` pages begins before that. -/
theorem bmFindFreeLoop_spec :
    ∀ r p found c, p + r = totalPages → c < npages → c ≤ p - start → start ≤ p →
      (0 < c → found = p - c) → FreeRun (bmTest bm) (p - c) c →
      (∀ q, start ≤ q → q < p - c → ¬ FreeRun (bmTest bm) q npages) →
      LowestFree (bmTest bm) start totalPages npages
          (bmFindFreeLoop bm totalPages npages r p found c) ∨
        bmFindFreeLoop bm totalPages npages r p found c = totalPages ∧
          NoneFree (bmTest bm) start totalPages npages := by
  intro r
  induction r with
  | zero =>
    intro p found c hp hc hcp hsp _ _ hq
    refine Or.inr ⟨rfl, fun q h1 h2 => ?_⟩
    exact hq q h1 (by omega)
  | succ r ih =>
    intro p found c hp hc hcp hsp hf hrun hq
    have hfound : (if c = 0 then p else found) = p - c := by
      split_ifs with h0
      · omega
      · exact hf (by omega)
    unfold bmFindFreeLoop
    simp only [hfound]
    split_ifs with hset hfit
    · refine ih (p + 1) found 0 (by omega) (by omega) (by omega) (by omega) (by omega) ?_ ?_
      · intro q h1 h2
        omega
      · intro q h1 h2 hfree
        by_cases hlt : q < p - c
        · exact hq q h1 hlt hfree
        · rw [hfree p (by omega) (by omega)] at hset
          exact Bool.noConfusion hset
    · refine Or.inl ⟨by omega, by omega, ?_, fun q h1 h2 => hq q h1 h2⟩
      intro q h1 h2
      by_cases hqp : q = p
      · rw [hqp]
        simpa using hset
      · exact hrun q h1 (by omega)
    · refine ih (p + 1) _ (c + 1) (by omega) (by omega) (by omega) (by omega) (by omega) ?_ ?_
      · intro q h1 h2
        by_cases hqp : q = p
        · rw [hqp]
          simpa using hset
        · exact hrun q (by omega) (by omega)
      · intro q h1 h2
        exact hq q h1 (by omega)

/-- First fit: the lowest free run of `npages` pages in `[start, totalPages)`, or
`totalPages` when there is none. -/
theorem bmFindFree_spec (bm : List (BitVec 64)) (hn : 0 < npages) (hs : start < totalPages) :
    LowestFree (bmTest bm) start totalPages npages (bmFindFree bm totalPages start npages) ∨
      bmFindFree bm totalPages start npages = totalPages ∧
        NoneFree (bmTest bm) start totalPages npages := by
  unfold bmFindFree
  rw [if_neg (by omega)]
  refine bmFindFreeLoop_spec _ _ _ _ (by omega) hn (by omega) le_rfl (by omega) ?_ ?_
  · intro q h1 h2
    omega
  · intro q h1 h2
    omega

end Search

theorem bmAllSet_iff (bm : List (BitVec 64)) (page n : ℕ) :
    bmAllSet bm page n = true ↔ ∀ p, page ≤ p → p < page + n → bmTest bm p = true := by
  induction n generalizing page with
  | zero =>
    simp only [bmAllSet, true_iff]
    intro p h1 h2
    omega
  | succ n ih =>
    rw [bmAllSet, Bool.and_eq_true, ih]
    constructor
    · rintro ⟨h0, h⟩ p h1 h2
      by_cases hp : p = page
      · rw [hp]
        exact h0
      · exact h p (by omega) (by omega)
    · intro h
      exact ⟨h page le_rfl (by omega), fun p h1 h2 => h p (by omega) (by omega)⟩

end Umm
