import Umm.Common.Basic
import Umm.Lib.Bitmap
import Umm.Lib.Extent

/-! The page allocator of `bitmap_allocator.c`: one bit per page, set while the page is
free, and a first-fit search that can accept a whole byte at once. -/
namespace Umm
open Umm.Lib

structure BitmapAllocator where
  totalBytes : ℕ
  pageSize : ℕ
  numPages : ℕ
  freePages : ℕ
  bitmap : List (BitVec 8)
deriving DecidableEq, Repr

def bitmapGet (bitmap : List (BitVec 8)) (idx : ℕ) : Bool := Bitmap.test bitmap idx

/-- A page is marked allocated when its bit is clear. -/
def pageTaken (bitmap : List (BitVec 8)) (p : ℕ) : Bool := !bitmapGet bitmap p

/-- The inner loop of the search: the first `i` in `[i, i + n)` whose page is taken. -/
def firstTaken (bitmap : List (BitVec 8)) (page : ℕ) : ℕ → ℕ → Option ℕ
  | _, 0 => none
  | i, n + 1 => if bitmapGet bitmap (page + i) then firstTaken bitmap page (i + 1) n else some i

/-- The search loop, with `none` when the fuel does not suffice. -/
def findFreeRunLoop (bitmap : List (BitVec 8)) (numPages npages : ℕ) : ℕ → ℕ → Option ℕ
  | 0, _ => none
  | fuel + 1, page =>
    if u64 (page + npages) ≤ numPages then
      if page % 8 = 0 ∧ npages ≤ 8 ∧ bitmap.getD (page / 8) 0#8 = 0xFF#8 then some page
      else
        match firstTaken bitmap page 0 npages with
        | none => some page
        | some i => findFreeRunLoop bitmap numPages npages fuel (page + i + 1)
    else some numPages

def findFreeRun (bitmap : List (BitVec 8)) (numPages startPage npages : ℕ) : ℕ :=
  (findFreeRunLoop bitmap numPages npages (numPages + 1) startPage).getD numPages

def baDefaultPageSize : ℕ := 4096

def baPageSize (pageSize : ℕ) : ℕ := if pageSize = 0 then baDefaultPageSize else pageSize

/-- `ba_create`. `none` is a rejected request, a bitmap larger than `calloc` can give, or a
byte count that wrapped, where the padding loop writes outside the bitmap and never returns. -/
def baCreate (totalBytes pageSize : ℕ) : Option BitmapAllocator :=
  if totalBytes = 0 then none
  else
    let pageSize := baPageSize pageSize
    if totalBytes < pageSize then none
    else
      let numPages := u64 (totalBytes + pageSize - 1) / pageSize
      let bitmapBytes := u64 (numPages + 7) / 8
      if bitmapBytes * 8 < numPages ∨ addressSpace < bitmapBytes then none
      else
        let spare := bitmapBytes * 8 - numPages
        some
          { totalBytes
            pageSize
            numPages
            freePages := numPages
            bitmap := Bitmap.clearRun (List.replicate bitmapBytes 0xFF#8) numPages spare }

/-- Pages asked for by a request of `numBytes`, rounded up in 64-bit arithmetic. -/
def BitmapAllocator.npages (ba : BitmapAllocator) (numBytes : ℕ) : ℕ :=
  u64 (numBytes + ba.pageSize - 1) / ba.pageSize

def baAlloc (ba : BitmapAllocator) (numBytes : ℕ) : Except Error ℕ × BitmapAllocator :=
  if numBytes = 0 then (.error .invalidArg, ba)
  else
    let npages := ba.npages numBytes
    if ba.numPages < npages then (.error .noMemory, ba)
    else if ba.freePages < npages then (.error .noMemory, ba)
    else
      let page := findFreeRun ba.bitmap ba.numPages 0 npages
      if ba.numPages ≤ page then (.error .noMemory, ba)
      else
        (.ok (u64 (page * ba.pageSize)),
          { ba with
            bitmap := Bitmap.clearRun ba.bitmap page npages
            freePages := ba.freePages - npages })

/-- The loop that checks that each of `n` pages is taken. -/
def allTaken (bitmap : List (BitVec 8)) (page n : ℕ) : Bool :=
  (firstFree page n).isNone
where
  firstFree (page : ℕ) : ℕ → Option ℕ
    | 0 => none
    | n + 1 => if bitmapGet bitmap page then some page else firstFree (page + 1) n

def baFree (ba : BitmapAllocator) (offset numBytes : ℕ) : Except Error Unit × BitmapAllocator :=
  if numBytes = 0 then (.error .invalidArg, ba)
  else if ba.totalBytes ≤ offset then (.error .invalidArg, ba)
  else
    let page := offset / ba.pageSize
    let npages := ba.npages numBytes
    if ba.numPages < u64 (page + npages) then (.error .invalidArg, ba)
    else if allTaken ba.bitmap page npages then
      (.ok (),
        { ba with
          bitmap := Bitmap.setRun ba.bitmap page npages
          freePages := u64 (ba.freePages + npages) })
    else (.error .invalidArg, ba)

namespace BitmapAllocator

def used (ba : BitmapAllocator) (p : ℕ) : Bool := pageTaken ba.bitmap p

/-- What every allocator built by `ba_create` keeps: all pages start inside the arena, the
bits past the last page stay clear, and the counter equals the number of free pages. -/
structure WF (ba : BitmapAllocator) : Prop where
  pageSize_pos : 0 < ba.pageSize
  pageSize_lt : ba.pageSize < 2 ^ 64
  total_lt : ba.totalBytes < 2 ^ 64
  mul_lt : ∀ p < ba.numPages, p * ba.pageSize < ba.totalBytes
  numPages_lt : ba.numPages < 2 ^ 61
  numPages_le : ba.numPages ≤ 8 * ba.bitmap.length
  padding : ∀ p, ba.numPages ≤ p → bitmapGet ba.bitmap p = false
  counted : ba.freePages = freeCount ba.used ba.numPages

end BitmapAllocator

theorem firstTaken_none {bitmap : List (BitVec 8)} {page i n : ℕ}
    (h : firstTaken bitmap page i n = none) :
    ∀ k, i ≤ k → k < i + n → bitmapGet bitmap (page + k) = true := by
  induction n generalizing i with
  | zero =>
    intro k h1 h2
    omega
  | succ n ih =>
    unfold firstTaken at h
    split_ifs at h with hg
    intro k h1 h2
    by_cases hk : k = i
    · rw [hk]
      exact hg
    · exact ih h k (by omega) (by omega)

theorem firstTaken_some {bitmap : List (BitVec 8)} {page i n j : ℕ}
    (h : firstTaken bitmap page i n = some j) :
    i ≤ j ∧ j < i + n ∧ bitmapGet bitmap (page + j) = false := by
  induction n generalizing i with
  | zero => simp [firstTaken] at h
  | succ n ih =>
    unfold firstTaken at h
    split_ifs at h with hg
    · obtain ⟨h1, h2, h3⟩ := ih h
      exact ⟨by omega, by omega, h3⟩
    · obtain rfl : i = j := Option.some.inj h
      exact ⟨le_rfl, by omega, by simpa using hg⟩

/-- A byte of ones stands for eight free pages. -/
theorem bitmapGet_of_full {bitmap : List (BitVec 8)} {page p : ℕ} (ha : page % 8 = 0)
    (hb : bitmap.getD (page / 8) 0#8 = 0xFF#8) (h1 : page ≤ p) (h2 : p < page + 8) :
    bitmapGet bitmap p = true := by
  have hq : p / 8 = page / 8 := by omega
  have hr : p % 8 < 8 := Nat.mod_lt p (by norm_num)
  unfold bitmapGet Bitmap.test
  rw [hq, hb]
  interval_cases p % 8 <;> decide

section Search

variable {bitmap : List (BitVec 8)} {numPages npages : ℕ}

private theorem not_freeRun_of_taken {page i q : ℕ}
    (hi : i < npages) (ht : bitmapGet bitmap (page + i) = false) (h1 : page ≤ q)
    (h2 : q ≤ page + i) : ¬ FreeRun (pageTaken bitmap) q npages := by
  intro hf
  have := hf (page + i) h2 (by omega)
  rw [pageTaken, ht] at this
  exact Bool.noConfusion this

/-- With fuel past the remaining pages the loop returns the lowest free run, or
`numPages` when there is none. -/
theorem findFreeRunLoop_spec (bitmap : List (BitVec 8)) (hlt : numPages < 2 ^ 61) (hn : npages ≤ numPages) :
    ∀ fuel page, page ≤ numPages → numPages - page < fuel →
      (∀ q < page, ¬ FreeRun (pageTaken bitmap) q npages) →
      ∃ r, findFreeRunLoop bitmap numPages npages fuel page = some r ∧
        (LowestFree (pageTaken bitmap) 0 numPages npages r ∨
          r = numPages ∧ NoneFree (pageTaken bitmap) 0 numPages npages) := by
  intro fuel
  induction fuel with
  | zero =>
    intro page _ hf
    omega
  | succ fuel ih =>
    intro page hp hf hq
    have hw : u64 (page + npages) = page + npages := u64_of_lt (by omega)
    unfold findFreeRunLoop
    rw [hw]
    split_ifs with hfit hbyte
    · refine ⟨page, rfl, Or.inl ⟨Nat.zero_le _, hfit, ?_, fun q _ h => hq q h⟩⟩
      intro q h1 h2
      rw [pageTaken, bitmapGet_of_full hbyte.1 hbyte.2.2 h1 (by omega)]
      rfl
    · cases hs : firstTaken bitmap page 0 npages with
      | none =>
        refine ⟨page, rfl, Or.inl ⟨Nat.zero_le _, hfit, ?_, fun q _ h => hq q h⟩⟩
        intro q h1 h2
        have := firstTaken_none hs (q - page) (Nat.zero_le _) (by omega)
        rw [Nat.add_sub_cancel' h1] at this
        rw [pageTaken, this]
        rfl
      | some i =>
        obtain ⟨_, hi, ht⟩ := firstTaken_some hs
        refine ih (page + i + 1) (by omega) (by omega) ?_
        intro q hlt'
        by_cases hqp : q < page
        · exact hq q hqp
        · exact not_freeRun_of_taken (by omega) ht (by omega) (by omega)
    · refine ⟨numPages, rfl, Or.inr ⟨rfl, ?_⟩⟩
      intro q _ hfits
      exact hq q (by omega)

/-- The fast search is the naive one: it returns the lowest free run of `npages`
pages, or `numPages` when no run fits. -/
theorem findFreeRun_spec (bitmap : List (BitVec 8)) (hlt : numPages < 2 ^ 61) (hn : npages ≤ numPages) :
    LowestFree (pageTaken bitmap) 0 numPages npages
        (findFreeRun bitmap numPages 0 npages) ∨
      findFreeRun bitmap numPages 0 npages = numPages ∧
        NoneFree (pageTaken bitmap) 0 numPages npages := by
  obtain ⟨r, hr, hs⟩ := findFreeRunLoop_spec bitmap hlt hn (numPages + 1) 0
    (Nat.zero_le _) (by omega) (by intro q hq; omega)
  unfold findFreeRun
  rw [hr]
  exact hs

end Search

theorem allTaken_iff (bitmap : List (BitVec 8)) (page n : ℕ) :
    allTaken bitmap page n = true ↔ ∀ p, page ≤ p → p < page + n → bitmapGet bitmap p = false := by
  unfold allTaken
  induction n generalizing page with
  | zero =>
    simp only [allTaken.firstFree, Option.isNone_none, true_iff]
    intro p h1 h2
    omega
  | succ n ih =>
    unfold allTaken.firstFree
    split_ifs with hg
    · simp only [Option.isNone_some, Bool.false_eq_true, false_iff]
      intro h
      rw [h page le_rfl (by omega)] at hg
      exact Bool.noConfusion hg
    · rw [ih (page + 1)]
      constructor
      · intro h p h1 h2
        by_cases hp : p = page
        · rw [hp]
          simpa using hg
        · exact h p (by omega) (by omega)
      · intro h p h1 h2
        exact h p (by omega) (by omega)

end Umm
