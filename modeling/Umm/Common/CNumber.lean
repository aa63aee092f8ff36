import Umm.Common.Basic

/-! Numbers in C strings: `strtol` and `strtoull` in the C locale, with a `long` of 64 bits. -/
namespace Umm

/-- `isspace` -/
def isSpace (b : UInt8) : Bool := b = 32 || (9 ≤ b && b ≤ 13)

def isDigit (b : UInt8) : Bool := 48 ≤ b && b ≤ 57

def digits (bytes : List UInt8) : ℕ :=
  (bytes.takeWhile isDigit).foldl (fun n b => 10 * n + (b.toNat - 48)) 0

/-- `strtol(s, NULL, 10)` -/
def strtol (bytes : List UInt8) : ℤ :=
  match bytes.dropWhile isSpace with
  | 45 :: rest => max (-(digits rest : ℤ)) (-(2 ^ 63))
  | 43 :: rest => min (digits rest : ℤ) (2 ^ 63 - 1)
  | rest => min (digits rest : ℤ) (2 ^ 63 - 1)

/-- The value of a digit in the bases up to 36. -/
def digitValue (b : UInt8) : ℕ :=
  if isDigit b then b.toNat - 48
  else if 97 ≤ b && b ≤ 122 then b.toNat - 87
  else if 65 ≤ b && b ≤ 90 then b.toNat - 55
  else 36

def digitsIn (base : ℕ) (bytes : List UInt8) : ℕ :=
  (bytes.takeWhile fun b => digitValue b < base).foldl (fun n b => base * n + digitValue b) 0

/-- Digits in the base that stands in front of them: `0x` for 16, `0` for 8. -/
def prefixed : List UInt8 → ℕ
  | 48 :: x :: d :: rest =>
    if (x = 120 || x = 88) && digitValue d < 16 then digitsIn 16 (d :: rest)
    else digitsIn 8 (x :: d :: rest)
  | 48 :: rest => digitsIn 8 rest
  | bytes => digitsIn 10 bytes

/-- `strtoull` with a way to read the digits. A number that is too large gives `ULLONG_MAX`, a
minus sign negates what fits. -/
def strtoull (value : List UInt8 → ℕ) (bytes : List UInt8) : UInt64 :=
  match bytes.dropWhile isSpace with
  | 45 :: rest => if value rest < 2 ^ 64 then -UInt64.ofNat (value rest) else 0xFFFFFFFFFFFFFFFF
  | 43 :: rest => UInt64.ofNat (min (value rest) (2 ^ 64 - 1))
  | rest => UInt64.ofNat (min (value rest) (2 ^ 64 - 1))

/-- What stands behind the number that `prefixed` reads, if there is one. -/
def prefixedEnd : List UInt8 → Option (List UInt8)
  | 48 :: x :: d :: rest =>
    if (x = 120 || x = 88) && digitValue d < 16 then
      some ((d :: rest).dropWhile fun b => digitValue b < 16)
    else some ((x :: d :: rest).dropWhile fun b => digitValue b < 8)
  | 48 :: rest => some (rest.dropWhile fun b => digitValue b < 8)
  | [] => none
  | b :: rest => if digitValue b < 10 then some (rest.dropWhile fun b => digitValue b < 10) else none

/-- The end pointer of `strtoull(s, &end, 0)`. -/
def strtoullEnd (bytes : List UInt8) : List UInt8 :=
  match bytes.dropWhile isSpace with
  | 45 :: rest => (prefixedEnd rest).getD bytes
  | 43 :: rest => (prefixedEnd rest).getD bytes
  | rest => (prefixedEnd rest).getD bytes

/-- One or more decimal digits. -/
def Decimal (bytes : List UInt8) : Prop := bytes ≠ [] ∧ ∀ b ∈ bytes, isDigit b = true

instance : DecidablePred Decimal := fun bytes =>
  @instDecidableAnd _ _ inferInstance (List.decidableBAll (fun b => isDigit b = true) bytes)

theorem isDigit_bounds {b : UInt8} (h : isDigit b = true) : 48 ≤ b.toNat ∧ b.toNat ≤ 57 := by
  unfold isDigit at h
  rw [Bool.and_eq_true, decide_eq_true_eq, decide_eq_true_eq, UInt8.le_iff_toNat_le,
    UInt8.le_iff_toNat_le] at h
  exact h

theorem isDigit_not_space {b : UInt8} (h : isDigit b = true) : isSpace b = false := by
  have hb := isDigit_bounds h
  unfold isSpace
  rw [Bool.or_eq_false_iff, Bool.and_eq_false_iff, decide_eq_false_iff_not, decide_eq_false_iff_not,
    decide_eq_false_iff_not, UInt8.le_iff_toNat_le, UInt8.le_iff_toNat_le]
  refine ⟨fun he => ?_, Or.inr ?_⟩
  · rw [he] at hb
    exact absurd hb.1 (by decide)
  · intro hle
    have h13 : b.toNat ≤ 13 := hle
    omega

/-- What stands behind the digits does not count. -/
theorem digits_append {number rest : List UInt8} (hd : ∀ b ∈ number, isDigit b = true)
    (hr : ∀ b ∈ rest.head?, isDigit b = false) : digits (number ++ rest) = digits number := by
  have hstop : rest.takeWhile isDigit = [] := by
    cases rest with
    | nil => rfl
    | cons b rest => exact List.takeWhile_cons_of_neg (by rw [hr b rfl]; decide)
  have hall : number.takeWhile isDigit = number := by
    rw [← List.append_nil number, List.takeWhile_append_of_pos hd, List.takeWhile_nil]
  unfold digits
  rw [List.takeWhile_append_of_pos hd, hstop, List.append_nil, hall]

theorem strtol_digit {b : UInt8} (hd : isDigit b = true) (rest : List UInt8) :
    strtol (b :: rest) = min (digits (b :: rest) : ℤ) (2 ^ 63 - 1) := by
  have hb := isDigit_bounds hd
  have hhead : (b :: rest).dropWhile isSpace = b :: rest :=
    List.dropWhile_cons_of_neg (by rw [isDigit_not_space hd]; decide)
  have hminus : b ≠ 45 := fun he => absurd (he ▸ hb.1) (by decide)
  have hplus : b ≠ 43 := fun he => absurd (he ▸ hb.1) (by decide)
  unfold strtol
  rw [hhead]
  split
  next he => exact absurd (List.cons.inj he).1 hminus
  next he => exact absurd (List.cons.inj he).1 hplus
  next => rfl

/-- `strtol` reads a decimal number exactly, whatever follows it. -/
theorem strtol_decimal {number : List UInt8} (rest : List UInt8) (h : Decimal number)
    (hr : ∀ b ∈ rest.head?, isDigit b = false) :
    strtol (number ++ rest) = min (digits number : ℤ) (2 ^ 63 - 1) := by
  obtain ⟨hne, hd⟩ := h
  obtain ⟨b, number, rfl⟩ := List.exists_cons_of_ne_nil hne
  rw [List.cons_append, strtol_digit (hd b List.mem_cons_self), ← List.cons_append,
    digits_append hd hr]

end Umm
