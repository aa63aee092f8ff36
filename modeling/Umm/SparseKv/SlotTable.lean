import Umm.Media.Segment

/-! The slot table of `slot_table.py`: a packed entry for every layer and token. -/
namespace Umm
open Umm.Lib

/-- The exceptions of the store, with the values that their texts name. -/
inductive StoreError where
  | offsetRange (offset : ℕ)
  | flagsRange (flags : ℕ)
  | tableShape
  | layerRange (layerId : ℤ)
  | tokenRange (tokenIdx : ℤ)
  | blockTokens (start stop : ℤ) (maxTokens : ℕ)
  | blockBuffer (nbytes : ℕ) (tokenCount : ℤ) (unitSize : ℕ)
  | maxTopk
  | topkTooMany (len maxTopk : ℕ)
  | notOffloaded (layerId tokenIdx : ℤ)
  | lengthsDiffer
  | indexError
  /-- A value that does not fit its field of the descriptor buffer. -/
  | structError
  | media (e : MediaError)
deriving DecidableEq, Repr

def flagValid : ℕ := 0x01

def packEntry (offset flags : ℕ) : Except StoreError ℕ :=
  if 2 ^ 48 ≤ offset then .error (.offsetRange offset)
  else if 2 ^ 8 ≤ flags then .error (.flagsRange flags)
  else .ok (offset <<< 16 ||| flags)

def entryOffset (entry : ℕ) : ℕ := entry >>> 16

def entryFlags (entry : ℕ) : ℕ := entry &&& 0xFF

def entryValid (entry : ℕ) : Bool := entryFlags entry &&& flagValid != 0

theorem packEntry_ok {offset : ℕ} (h : offset < 2 ^ 48) :
    ∃ e, packEntry offset flagValid = .ok e ∧ entryOffset e = offset ∧ entryValid e = true := by
  refine ⟨offset <<< 16 ||| flagValid, ?_, ?_, ?_⟩
  · unfold packEntry
    rw [if_neg (by omega), if_neg (by decide)]
  · unfold entryOffset
    rw [Nat.shiftRight_or_distrib, Nat.shiftLeft_shiftRight]
    exact Nat.or_zero _
  · have hlow : entryFlags (offset <<< 16 ||| flagValid) = 1 := by
      unfold entryFlags flagValid
      rw [show 0xFF = 2 ^ 8 - 1 by norm_num, Nat.and_two_pow_sub_one_eq_mod, Nat.shiftLeft_eq,
        Nat.mul_comm, ← Nat.two_pow_add_eq_or_of_lt (by norm_num)]
      omega
    unfold entryValid
    rw [hlow]
    rfl

structure SlotTable where
  numLayers : ℕ
  maxTokens : ℕ
  layers : List (List ℕ)
  length_layers : layers.length = numLayers
  length_row : ∀ row ∈ layers, row.length = maxTokens

/-- An element of a sequence, from the end for a negative index. -/
def pyIndex {α : Type} (l : List α) (i : ℤ) : Option α :=
  if 0 ≤ i then l[i.toNat]? else if -l.length ≤ i then l[(l.length + i).toNat]? else none

theorem pyIndex_natCast {α : Type} (l : List α) (i : ℕ) : pyIndex l i = l[i]? := by
  simp [pyIndex]

namespace SlotTable

def init (numLayers maxTokens : ℤ) : Except StoreError SlotTable :=
  if numLayers ≤ 0 ∨ maxTokens ≤ 0 then .error .tableShape
  else
    .ok
      { numLayers := numLayers.toNat
        maxTokens := maxTokens.toNat
        layers := List.replicate numLayers.toNat (List.replicate maxTokens.toNat 0)
        length_layers := List.length_replicate
        length_row := fun row hrow => by
          rw [List.eq_of_mem_replicate hrow, List.length_replicate] }

variable (tbl : SlotTable)

def check (layerId tokenIdx : ℤ) : Except StoreError Unit :=
  if ¬ (0 ≤ layerId ∧ layerId < tbl.numLayers) then .error (.layerRange layerId)
  else if ¬ (0 ≤ tokenIdx ∧ tokenIdx < tbl.maxTokens) then .error (.tokenRange tokenIdx)
  else .ok ()

def entryAt (layer token : ℕ) : Option ℕ := tbl.layers[layer]?.bind (·[token]?)

/-- The table with one entry replaced. -/
def put (layer token entry : ℕ) : SlotTable where
  numLayers := tbl.numLayers
  maxTokens := tbl.maxTokens
  layers := tbl.layers.modify layer (·.set token entry)
  length_layers := by
    rw [List.length_modify]
    exact tbl.length_layers
  length_row row hrow := by
    obtain ⟨i, hi, rfl⟩ := List.mem_iff_getElem.mp hrow
    rw [List.length_modify] at hi
    have hrow := tbl.length_row _ (List.getElem_mem hi)
    rw [List.getElem_modify]
    split_ifs
    · rwa [List.length_set]
    · exact hrow

def set (layerId tokenIdx : ℤ) (offset flags : ℕ) : Except StoreError SlotTable := do
  tbl.check layerId tokenIdx
  let entry ← packEntry offset flags
  pure (tbl.put layerId.toNat tokenIdx.toNat entry)

def invalidate (layerId tokenIdx : ℤ) : Except StoreError SlotTable := do
  tbl.check layerId tokenIdx
  pure (tbl.put layerId.toNat tokenIdx.toNat 0)

def get (layerId tokenIdx : ℤ) : Except StoreError ℕ := do
  tbl.check layerId tokenIdx
  match tbl.entryAt layerId.toNat tokenIdx.toNat with
  | none => throw .indexError
  | some entry => pure entry

def gather (layerId : ℤ) (tokens : List ℤ) : Except StoreError (List ℕ) :=
  if ¬ (0 ≤ layerId ∧ layerId < tbl.numLayers) then .error (.layerRange layerId)
  else
    match tbl.layers[layerId.toNat]? with
    | none => .error .indexError
    | some row => tokens.mapM fun t =>
      match pyIndex row t with
      | none => .error .indexError
      | some entry => .ok entry

/-- The number of valid entries. -/
def validCount : ℕ := tbl.layers.flatten.countP entryValid

section Entries

variable {tbl} {layer token : ℕ}

theorem entryAt_some (hl : layer < tbl.numLayers) (ht : token < tbl.maxTokens) :
    ∃ e, tbl.entryAt layer token = some e := by
  have hl' : layer < tbl.layers.length := by rwa [tbl.length_layers]
  have ht' : token < (tbl.layers[layer]).length := by
    rwa [tbl.length_row _ (List.getElem_mem hl')]
  exact ⟨tbl.layers[layer][token], by simp [entryAt, hl', ht']⟩

theorem entryAt_put (hl : layer < tbl.numLayers) (ht : token < tbl.maxTokens) (entry l t : ℕ) :
    (tbl.put layer token entry).entryAt l t =
      if l = layer ∧ t = token then some entry else tbl.entryAt l t := by
  have hl' : layer < tbl.layers.length := by rwa [tbl.length_layers]
  have ht' : token < (tbl.layers[layer]).length := by
    rwa [tbl.length_row _ (List.getElem_mem hl')]
  unfold entryAt put
  rw [List.getElem?_modify]
  by_cases he : layer = l
  · subst he
    rw [List.getElem?_eq_getElem hl']
    simp only [if_true, Option.map_eq_map, Option.map_some, Option.bind_some, List.getElem?_set]
    by_cases he' : token = t
    · subst he'
      simp [ht']
    · rw [if_neg he', if_neg fun h => he' h.2.symm]
  · rw [if_neg fun h => he h.1.symm]
    simp [he]

theorem validCount_put (hl : layer < tbl.numLayers) (ht : token < tbl.maxTokens) {old : ℕ}
    (hold : tbl.entryAt layer token = some old) (entry : ℕ) :
    (tbl.put layer token entry).validCount + (if entryValid old then 1 else 0) =
      tbl.validCount + if entryValid entry then 1 else 0 := by
  have hl' : layer < tbl.layers.length := by rwa [tbl.length_layers]
  have ht' : token < (tbl.layers[layer]).length := by
    rwa [tbl.length_row _ (List.getElem_mem hl')]
  have hget : tbl.layers[layer][token] = old := by
    simpa [entryAt, hl', ht'] using hold
  have hrow := List.countP_set (p := entryValid) (a := entry) ht'
  have hle := List.boole_getElem_le_countP (p := entryValid) ht'
  rw [hget] at hrow hle
  have hsplit : tbl.layers = tbl.layers.take layer ++ tbl.layers[layer] ::
      tbl.layers.drop (layer + 1) := by
    rw [List.getElem_cons_drop, List.take_append_drop]
  have hbefore : tbl.validCount = (tbl.layers.take layer ++ tbl.layers[layer] ::
      tbl.layers.drop (layer + 1)).flatten.countP entryValid := congrArg _ (congrArg _ hsplit)
  have hafter : (tbl.put layer token entry).validCount =
      (tbl.layers.modify layer (·.set token entry)).flatten.countP entryValid := rfl
  rw [hafter, hbefore, List.modify_eq_take_cons_drop hl']
  simp only [List.flatten_append, List.flatten_cons, List.countP_append]
  omega

theorem validCount_eq_zero : tbl.validCount = 0 ↔
    ∀ l t e, tbl.entryAt l t = some e → entryValid e = false := by
  unfold validCount
  rw [List.countP_eq_zero]
  constructor
  · intro h l t e he
    obtain ⟨row, hrow, he⟩ := Option.bind_eq_some_iff.mp he
    have hmem : e ∈ tbl.layers.flatten :=
      List.mem_flatten.mpr ⟨row, List.mem_of_getElem? hrow, List.mem_of_getElem? he⟩
    exact Bool.not_eq_true _ ▸ h e hmem
  · intro h e he
    obtain ⟨row, hrow, he⟩ := List.mem_flatten.mp he
    obtain ⟨l, hl⟩ := List.mem_iff_getElem?.mp hrow
    obtain ⟨t, ht⟩ := List.mem_iff_getElem?.mp he
    rw [h l t e (Option.bind_eq_some_iff.mpr ⟨row, hl, ht⟩)]
    exact Bool.false_ne_true

/-- A new table has no valid entry. -/
theorem init_entryAt {numLayers maxTokens : ℤ} (h : init numLayers maxTokens = .ok tbl) {l t e : ℕ}
    (he : tbl.entryAt l t = some e) : entryValid e = false := by
  unfold init at h
  split_ifs at h
  obtain rfl := Except.ok.inj h
  obtain ⟨row, hrow, he⟩ := Option.bind_eq_some_iff.mp he
  rw [List.eq_of_mem_replicate (List.mem_of_getElem? hrow)] at he
  rw [List.eq_of_mem_replicate (List.mem_of_getElem? he)]
  rfl

end Entries

end SlotTable

end Umm
