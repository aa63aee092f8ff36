import Mathlib.Tactic
import Mathlib.Data.List.TakeWhile

/-! C strings: bytes without a NUL. -/
namespace Umm

def CString : Type := { bytes : List UInt8 // (0 : UInt8) ∉ bytes }

namespace CString

instance : DecidableEq CString := inferInstanceAs (DecidableEq { bytes : List UInt8 // (0 : UInt8) ∉ bytes })

def bytes (s : CString) : List UInt8 := s.val

def length (s : CString) : ℕ := s.val.length

/-- The bytes before the first NUL. -/
def ofBytes (bytes : List UInt8) : CString :=
  ⟨bytes.takeWhile (· ≠ 0), fun h => by simpa using List.mem_takeWhile_imp h⟩

theorem ext {s t : CString} (h : s.bytes = t.bytes) : s = t := Subtype.ext h

/-- Padding with NUL does not change a string. -/
theorem ofBytes_padded (s : CString) (n : ℕ) :
    ofBytes (s.bytes ++ List.replicate n 0) = s := by
  apply ext
  have hmem : ∀ b ∈ s.bytes, (b ≠ 0 : Bool) = true := by
    intro b hb
    have hne : b ≠ 0 := fun he => s.property (he ▸ hb)
    simpa using hne
  change List.takeWhile _ (s.bytes ++ List.replicate n 0) = s.bytes
  rw [List.takeWhile_append_of_pos hmem]
  cases n <;> simp [List.replicate_succ]

theorem ofBytes_bytes (s : CString) : ofBytes s.bytes = s := by
  simpa using ofBytes_padded s 0

end CString

end Umm
