import Mathlib.Data.UInt
import Umm.Lib.Codec
import Umm.Lib.Splice

/-! Memory in segments: reads, writes and atomic operations on cells of eight bytes, and what a
whole run of them leaves in a range. -/
namespace Umm.Lib

abbrev Segments (κ : Type*) : Type _ := κ → List UInt8

/-- An operation together with what it returned. -/
inductive SegmentOp (κ : Type*)
  | read (k : κ) (offset : ℕ) (out : List UInt8)
  | write (k : κ) (offset : ℕ) (bytes : List UInt8)
  | atomic (k : κ) (offset : ℕ) (old new : UInt64)

/-- The value of a cell. -/
def cellValue (l : List UInt8) (offset : ℕ) : UInt64 := (leValue (slice l offset 8)).toUInt64

namespace SegmentOp

variable {κ : Type*} [DecidableEq κ]

def segment : SegmentOp κ → κ
  | read k _ _ => k
  | write k _ _ => k
  | atomic k _ _ _ => k

def offset : SegmentOp κ → ℕ
  | read _ offset _ => offset
  | write _ offset _ => offset
  | atomic _ offset _ _ => offset

def length : SegmentOp κ → ℕ
  | read _ _ out => out.length
  | write _ _ bytes => bytes.length
  | atomic _ _ _ _ => 8

/-- The bytes that an operation leaves in its range; a read leaves what is there. -/
def stored : SegmentOp κ → Option (List UInt8)
  | read _ _ _ => none
  | write _ _ bytes => some bytes
  | atomic _ _ _ new => some (leBytes 8 new.toNat)

/-- What the operation returned is what the memory holds. -/
def Answers (m : Segments κ) : SegmentOp κ → Prop
  | read k offset out => slice (m k) offset out.length = out
  | write _ _ _ => True
  | atomic k offset old _ => cellValue (m k) offset = old

structure Fits (m : Segments κ) (op : SegmentOp κ) : Prop where
  inside : op.offset + op.length ≤ (m op.segment).length
  answers : op.Answers m

def apply (m : Segments κ) (op : SegmentOp κ) : Segments κ :=
  match op.stored with
  | none => m
  | some bytes => Function.update m op.segment (splice (m op.segment) op.offset bytes)

omit [DecidableEq κ] in
theorem length_stored {op : SegmentOp κ} {bytes : List UInt8} (h : op.stored = some bytes) :
    bytes.length = op.length := by
  cases op with
  | read => cases h
  | write =>
    obtain rfl := Option.some.inj h
    rfl
  | atomic =>
    obtain rfl := Option.some.inj h
    exact length_leBytes 8 _

/-- The operation touches none of the bytes from `offset` on. -/
def Avoids (k : κ) (offset length : ℕ) (op : SegmentOp κ) : Prop :=
  op.stored = none ∨ op.segment ≠ k ∨ op.offset + op.length ≤ offset ∨
    offset + length ≤ op.offset

variable {m : Segments κ} {op : SegmentOp κ}

theorem apply_of_stored {bytes : List UInt8} (h : op.stored = some bytes) :
    op.apply m = Function.update m op.segment (splice (m op.segment) op.offset bytes) := by
  unfold apply
  rw [h]

theorem apply_of_read (h : op.stored = none) : op.apply m = m := by
  unfold apply
  rw [h]

theorem length_apply (h : op.Fits m) (k : κ) : (op.apply m k).length = (m k).length := by
  cases hs : op.stored with
  | none => rw [apply_of_read hs]
  | some bytes =>
    rw [apply_of_stored hs]
    by_cases hk : k = op.segment
    · subst hk
      rw [Function.update_self, length_splice]
      rw [length_stored hs]
      exact h.inside
    · rw [Function.update_of_ne hk]

/-- What an atomic operation adds to a cell. -/
def added (k : κ) (offset : ℕ) : SegmentOp κ → UInt64
  | atomic k' offset' old new => if k' = k ∧ offset' = offset then new - old else 0
  | _ => 0

omit [DecidableEq κ] in
/-- An atomic operation on a cell does not avoid it. -/
theorem not_avoids_atomic {k : κ} {offset : ℕ} {old new : UInt64} :
    ¬ (SegmentOp.atomic k offset old new).Avoids k offset 8 := by
  rintro (h | h | h | h)
  · cases h
  · exact h rfl
  · dsimp only [SegmentOp.offset, SegmentOp.length] at h
    omega
  · dsimp only [SegmentOp.offset] at h
    omega

theorem Avoids.added_eq {k : κ} {offset : ℕ} (h : op.Avoids k offset 8) :
    op.added k offset = 0 := by
  cases op with
  | read => rfl
  | write => rfl
  | atomic k' offset' old new =>
    refine if_neg ?_
    rintro ⟨rfl, rfl⟩
    exact not_avoids_atomic h

theorem Avoids.sum_added {k : κ} {offset : ℕ} {ops : List (SegmentOp κ)}
    (h : ∀ op ∈ ops, op.Avoids k offset 8) : (ops.map (added k offset)).sum = 0 := by
  induction ops with
  | nil => rfl
  | cons op ops ih =>
    obtain ⟨hop, hops⟩ := List.forall_mem_cons.mp h
    rw [List.map_cons, List.sum_cons, hop.added_eq, ih hops, UInt64.zero_add]

/-- The operations on a cell where nothing else writes to it. -/
def OnCell (k : κ) (offset : ℕ) (op : SegmentOp κ) : Prop :=
  op.Avoids k offset 8 ∨ ∃ old new, op = .atomic k offset old new

end SegmentOp

open SegmentOp

/-- A run from one memory to another. -/
def SegmentRun {κ : Type*} [DecidableEq κ] : Segments κ → List (SegmentOp κ) → Segments κ → Prop
  | m, [], m' => m' = m
  | m, op :: ops, m' => op.Fits m ∧ SegmentRun (op.apply m) ops m'

namespace SegmentRun

variable {κ : Type*} [DecidableEq κ] {m m' m'' : Segments κ} {ops ops' : List (SegmentOp κ)}

theorem append_iff : SegmentRun m (ops ++ ops') m'' ↔
    ∃ m', SegmentRun m ops m' ∧ SegmentRun m' ops' m'' := by
  induction ops generalizing m with
  | nil => exact ⟨fun h => ⟨m, rfl, h⟩, fun ⟨_, h, h'⟩ => h ▸ h'⟩
  | cons op ops ih =>
    rw [List.cons_append]
    constructor
    · rintro ⟨hfits, h⟩
      obtain ⟨m', hrun, hrest⟩ := ih.mp h
      exact ⟨m', ⟨hfits, hrun⟩, hrest⟩
    · rintro ⟨m', ⟨hfits, hrun⟩, hrest⟩
      exact ⟨hfits, ih.mpr ⟨m', hrun, hrest⟩⟩

theorem concat (h : SegmentRun m ops m') {op : SegmentOp κ} (hfits : op.Fits m') :
    SegmentRun m (ops ++ [op]) (op.apply m') := append_iff.mpr ⟨m', h, hfits, rfl⟩

/-- No operation changes the size of a segment. -/
theorem length_eq (h : SegmentRun m ops m') (k : κ) : (m' k).length = (m k).length := by
  induction ops generalizing m with
  | nil => rw [show m' = m from h]
  | cons op ops ih => rw [ih h.2, length_apply h.1]

end SegmentRun

end Umm.Lib
