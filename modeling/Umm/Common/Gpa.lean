import Umm.Common.Basic

/-! Storage tiers, and global physical addresses: a node, a tier and an offset packed into
one 64-bit word. -/
namespace Umm

inductive Tier where
  | dram
  | cxl
  | ssd
  | resv
deriving DecidableEq, Repr

namespace Tier

def id : Tier → ℕ
  | dram => 0
  | cxl => 1
  | ssd => 2
  | resv => 3

/-- The tier of an 8-bit identifier; `tier_is_valid` rejects the others. -/
def ofId : ℕ → Option Tier
  | 0 => some dram
  | 1 => some cxl
  | 2 => some ssd
  | 3 => some resv
  | _ => none

theorem id_lt (t : Tier) : t.id < 4 := by
  cases t <;> decide

@[simp] theorem ofId_id (t : Tier) : ofId t.id = some t := by
  cases t <;> rfl

theorem id_of_ofId {n : ℕ} {t : Tier} (h : ofId n = some t) : t.id = n := by
  unfold ofId at h
  split at h <;> cases h <;> rfl

theorem id_inj {t t' : Tier} (h : t.id = t'.id) : t = t' := by
  have h2 := ofId_id t
  rw [h, ofId_id] at h2
  exact (Option.some.inj h2).symm

end Tier

def gpaNodeShift : ℕ := 58

def gpaTierShift : ℕ := 56

def gpaNodeMask : ℕ := 0xFC00000000000000

def gpaTierMask : ℕ := 0x0300000000000000

def gpaOffsetMask : ℕ := 0x00FFFFFFFFFFFFFF

/-- `node_id_t` value for a node that is not known. -/
def ummNodeUnknown : ℕ := 0xFF

def gpaToNode (gpa : ℕ) : ℕ := (gpa &&& gpaNodeMask) >>> gpaNodeShift

def gpaToTier (gpa : ℕ) : ℕ := (gpa &&& gpaTierMask) >>> gpaTierShift

def gpaToOffset (gpa : ℕ) : ℕ := gpa &&& gpaOffsetMask

def makeGpa (node tier offset : ℕ) : ℕ :=
  u64 (node <<< gpaNodeShift) ||| u64 (tier <<< gpaTierShift) ||| (offset &&& gpaOffsetMask)

theorem gpaToNode_eq (gpa : ℕ) : gpaToNode gpa = gpa / 2 ^ 58 % 64 := by
  have hmask : gpaNodeMask >>> 58 = 2 ^ 6 - 1 := by decide
  unfold gpaToNode gpaNodeShift
  rw [Nat.shiftRight_and_distrib, hmask, Nat.and_two_pow_sub_one_eq_mod,
    Nat.shiftRight_eq_div_pow]

theorem gpaToTier_eq (gpa : ℕ) : gpaToTier gpa = gpa / 2 ^ 56 % 4 := by
  have hmask : gpaTierMask >>> 56 = 2 ^ 2 - 1 := by decide
  unfold gpaToTier gpaTierShift
  rw [Nat.shiftRight_and_distrib, hmask, Nat.and_two_pow_sub_one_eq_mod,
    Nat.shiftRight_eq_div_pow]

theorem gpaToOffset_eq (gpa : ℕ) : gpaToOffset gpa = gpa % 2 ^ 56 := by
  have hmask : gpaOffsetMask = 2 ^ 56 - 1 := by decide
  unfold gpaToOffset
  rw [hmask, Nat.and_two_pow_sub_one_eq_mod]

/-- The fields side by side: six bits of the node, two of the tier, 56 of the offset. -/
theorem makeGpa_eq {node tier : ℕ} (offset : ℕ) (ht : tier < 4) :
    makeGpa node tier offset = 2 ^ 58 * (node % 64) + (2 ^ 56 * tier + offset % 2 ^ 56) := by
  have hmask : gpaOffsetMask = 2 ^ 56 - 1 := by decide
  have hnode : u64 (node <<< gpaNodeShift) = 2 ^ 58 * (node % 64) := by
    unfold u64 gpaNodeShift
    rw [Nat.shiftLeft_eq]
    omega
  have htier : u64 (tier <<< gpaTierShift) = 2 ^ 56 * tier := by
    unfold u64 gpaTierShift
    rw [Nat.shiftLeft_eq]
    omega
  have hlow : offset % 2 ^ 56 < 2 ^ 56 := Nat.mod_lt _ (by norm_num)
  unfold makeGpa
  rw [hnode, htier, hmask, Nat.and_two_pow_sub_one_eq_mod, Nat.or_assoc,
    ← Nat.two_pow_add_eq_or_of_lt hlow, ← Nat.two_pow_add_eq_or_of_lt (by omega)]

section Fields

variable {node tier : ℕ} (offset : ℕ)

theorem gpaToTier_makeGpa (ht : tier < 4) : gpaToTier (makeGpa node tier offset) = tier := by
  rw [gpaToTier_eq, makeGpa_eq offset ht]
  omega

theorem gpaToOffset_makeGpa (ht : tier < 4) :
    gpaToOffset (makeGpa node tier offset) = offset % 2 ^ 56 := by
  rw [gpaToOffset_eq, makeGpa_eq offset ht]
  omega

end Fields

/-- The addresses `gpa + i` of a chunk of `size` bytes decode to its node and tier and to
consecutive offsets. -/
structure Faithful (gpa node tier offset size : ℕ) : Prop where
  node_eq : ∀ i < size, gpaToNode (u64 (gpa + i)) = node
  tier_eq : ∀ i < size, gpaToTier (u64 (gpa + i)) = tier
  offset_eq : ∀ i < size, gpaToOffset (u64 (gpa + i)) = offset + i

/-- A packed address is faithful exactly when the node fits in six bits and the chunk ends
within the 56 bits of the offset. -/
theorem faithful_makeGpa_iff {node tier offset size : ℕ} (ht : tier < 4) (hs : 0 < size) :
    Faithful (makeGpa node tier offset) node tier offset size ↔
      node < 64 ∧ offset + size ≤ 2 ^ 56 := by
  have hg : makeGpa node tier offset = _ := makeGpa_eq offset ht
  constructor
  · intro h
    have hn := h.node_eq 0 hs
    have ho := h.offset_eq (size - 1) (by omega)
    rw [gpaToNode_eq] at hn
    rw [gpaToOffset_eq] at ho
    omega
  · rintro ⟨hn, ho⟩
    have hmod : offset % 2 ^ 56 = offset := Nat.mod_eq_of_lt (by omega)
    refine ⟨fun i hi => ?_, fun i hi => ?_, fun i hi => ?_⟩
    · rw [gpaToNode_eq, hg, u64_of_lt (by omega)]
      omega
    · rw [gpaToTier_eq, hg, u64_of_lt (by omega)]
      omega
    · rw [gpaToOffset_eq, hg, u64_of_lt (by omega)]
      omega

end Umm
