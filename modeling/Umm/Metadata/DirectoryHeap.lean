import Umm.Metadata.DirectorySpec
import Umm.Metadata.HashTableHeap

/-! Registrations that can find the heap exhausted. One that fails leaves the chunks found by
identifier and the names in the table as they were. -/
namespace Umm
open Umm.Lib

/-- `impl_register_chunk` with the answers of the heap. When the larger array is refused, the
identifier is used up all the same. -/
def implRegisterChunkHeap (heap : HeapGrants) (ctx : Directory) (name : CString) (gpa size : ℕ) :
    Option (Except Error ℕ × Directory) :=
  match mhtLookup ctx.chunkTable name with
  | .ok _ => some (.error .alreadyExists, ctx)
  | .error _ =>
    let id := ctx.nextChunkId
    let next := u64 (id + 1)
    let cid := if id = 0 then next else id
    let next := if id = 0 then u64 (next + 1) else next
    match newChunkCapacity ctx.chunkCapacity cid with
    | none => none
    | some capacity =>
      if ctx.chunkCapacity < capacity ∧ heap.chunks = false then
        some (.error .noMemory, { ctx with nextChunkId := next })
      else
        let info : ChunkMetadata := ⟨cid, storedName name, gpa, size, 0, 0⟩
        let ctx : Directory :=
          { ctx with
            chunks := growChunks ctx.chunks capacity
            chunkCapacity := capacity
            nextChunkId := next }
        match mhtInsertHeap heap ctx.chunkTable name info with
        | none => none
        | some (.ok (), table) =>
          some (.ok cid, { ctx.setChunk cid ⟨cid, 1, true, info⟩ with chunkTable := table })
        | some (.error e, table) =>
          some (.error e, { ctx.setChunk cid ⟨cid, 1, false, info⟩ with chunkTable := table })

/-- With all memory granted this is `impl_register_chunk` as modelled before. -/
theorem implRegisterChunkHeap_all (ctx : Directory) (name : CString) (gpa size : ℕ) :
    implRegisterChunkHeap .all ctx name gpa size = implRegisterChunk ctx name gpa size := by
  have hchunks : ∀ p : Prop, ¬ (p ∧ HeapGrants.all.chunks = false) := fun _ h => nomatch h.2
  have hlookup : NameTable.lookup ctx.chunkTable name = mhtLookup ctx.chunkTable name := rfl
  have hinsert : ∀ info : ChunkMetadata, NameTable.insert ctx.chunkTable name info =
      mhtInsert ctx.chunkTable name info := fun _ => rfl
  unfold implRegisterChunkHeap implRegisterChunk
  rw [hlookup]
  cases mhtLookup ctx.chunkTable name with
  | ok m => rfl
  | error e =>
    simp only [hchunks, if_false, mhtInsertHeap_all, hinsert]
    cases newChunkCapacity ctx.chunkCapacity
        (if ctx.nextChunkId = 0 then u64 (ctx.nextChunkId + 1) else ctx.nextChunkId) with
    | none => rfl
    | some capacity =>
      dsimp only
      split
      next hi => rw [hi]
      next table hi => rw [hi]
      next e table hi => rw [hi]

namespace MetaServiceCtx

/-- The array may be shorter than the identifiers given out. -/
structure Formed (ctx : Directory) : Prop where
  next_pos : 0 < ctx.nextChunkId
  next_le : ctx.nextChunkId ≤ 2 ^ 31 + 1
  length_eq : ctx.chunks.length = ctx.chunkCapacity
  capacity_pow : ctx.chunkCapacity = 0 ∨ ∃ k ≤ 31, ctx.chunkCapacity = 2 ^ k
  table : ctx.chunkTable.Formed

/-- The next identifier is used up, and the array has room for `capacity` chunks. -/
def enlarged (ctx : Directory) (capacity : ℕ) : Directory :=
  { ctx with
    chunks := growChunks ctx.chunks capacity
    chunkCapacity := capacity
    nextChunkId := ctx.nextChunkId + 1 }

/-- The same chunks under their identifiers, and the same names in the table, which is the old
one or grew. -/
structure SameChunks (ctx ctx' : Directory) : Prop where
  find : ∀ id, findChunkById ctx' id = findChunkById ctx id
  names : ctx'.chunkTable.items.Perm ctx.chunkTable.items
  table : ctx'.chunkTable = ctx.chunkTable ∨ mhtMaybeGrow ctx.chunkTable = some ctx'.chunkTable

theorem SameChunks.refl (ctx : Directory) : ctx.SameChunks ctx :=
  ⟨fun _ => rfl, List.Perm.refl _, Or.inl rfl⟩

theorem SameChunks.lookup {ctx ctx' : Directory} (h : ctx.SameChunks ctx')
    {m : CString → Option ChunkMetadata} (hm : ctx.chunkTable.Refines m)
    (hcap : ctx.chunkTable.capacity < 2 ^ 29) (name : CString) :
    implLookupChunk ctx' name = implLookupChunk ctx name := by
  have hm' : ctx'.chunkTable.Refines m := by
    rcases h.table with he | hg
    · rw [he]
      exact hm
    · obtain ⟨ht, hg', hr, -⟩ := mhtMaybeGrow_refines hm hcap
      obtain rfl := Option.some.inj (hg.symm.trans hg')
      exact hr
  change mhtLookup ctx'.chunkTable name = mhtLookup ctx.chunkTable name
  cases hn : m name with
  | none => rw [mhtLookup_none hm hn, mhtLookup_none hm' hn]
  | some record => rw [mhtLookup_some hm hn, mhtLookup_some hm' hn]

end MetaServiceCtx

section Find

variable {N : Type} {ctx : MetaServiceCtx N}

/-- The entries that a larger array adds are no chunks. -/
theorem findChunkById_growChunks (ctx : MetaServiceCtx N) (capacity j : ℕ) :
    findChunkById { ctx with
      chunks := growChunks ctx.chunks capacity
      chunkCapacity := capacity } j = findChunkById ctx j := by
  unfold findChunkById growChunks
  dsimp only
  split_ifs
  · rfl
  · by_cases hlt : j - 1 < ctx.chunks.length
    · rw [List.getElem?_append_left hlt]
    · rw [List.getElem?_append_right (by omega), List.getElem?_eq_none (l := ctx.chunks) (by omega),
        List.getElem?_replicate]
      split_ifs <;> rfl

/-- Using up the next identifier with an entry that is not valid, or none, adds no chunk. -/
theorem findChunkById_skip (ctx : Directory) {chunks : List ChunkEntry} (hpos : 0 < ctx.nextChunkId)
    (hself : ∀ ce, chunks[ctx.nextChunkId - 1]? = some ce → ce.valid = false)
    (hother : ∀ i, i ≠ ctx.nextChunkId - 1 → chunks[i]? = ctx.chunks[i]?) (j : ℕ) :
    findChunkById { ctx with chunks, nextChunkId := ctx.nextChunkId + 1 } j =
      findChunkById ctx j := by
  unfold findChunkById
  dsimp only
  by_cases hj : j = ctx.nextChunkId
  · subst hj
    rw [if_neg (by omega), if_pos (Or.inr le_rfl)]
    split
    next ce hce => rw [hself ce hce]; rfl
    next => rfl
  · by_cases hr : j = 0 ∨ ctx.nextChunkId ≤ j
    · rw [if_pos hr, if_pos (by omega)]
    · rw [if_neg hr, if_neg (by omega), hother (j - 1) (by omega)]

end Find

section Register

variable {ctx ctx' : Directory} {heap : HeapGrants} {name : CString} {gpa size : ℕ}
  {r : Except Error ℕ}

theorem register_capacity (hf : ctx.Formed) {capacity : ℕ}
    (hc : newChunkCapacity ctx.chunkCapacity ctx.nextChunkId = some capacity) :
    ctx.nextChunkId ≤ capacity ∧ ctx.chunkCapacity ≤ capacity ∧ capacity ≤ 2 ^ 31 ∧
      (capacity = 0 ∨ ∃ k ≤ 31, capacity = 2 ^ k) ∧
      (ctx.chunkCapacity < capacity → ctx.chunkCapacity < ctx.nextChunkId) := by
  have hnext := hf.next_le
  have hid : u32 ctx.nextChunkId = ctx.nextChunkId := u32_of_lt (by omega)
  have hneed := le_of_newChunkCapacity hc
  rw [hid] at hneed
  have hpow := newChunkCapacity_pow hf.capacity_pow hc
  have hle : capacity ≤ 2 ^ 31 := by
    rcases hpow with rfl | ⟨k, hk, rfl⟩
    · exact Nat.zero_le _
    · exact Nat.pow_le_pow_right (by norm_num) hk
  refine ⟨hneed, le_newChunkCapacity hc, hle, hpow, fun hgrow => ?_⟩
  by_contra hfits
  unfold newChunkCapacity at hc
  dsimp only at hc
  rw [hid, if_pos (by omega)] at hc
  have := Option.some.inj hc
  omega

theorem implRegisterChunkHeap_cases (hf : ctx.Formed)
    (h : implRegisterChunkHeap heap ctx name gpa size = some (r, ctx')) :
    (∃ m, mhtLookup ctx.chunkTable name = .ok m ∧ r = .error .alreadyExists ∧ ctx' = ctx) ∨
    ∃ e capacity, mhtLookup ctx.chunkTable name = .error e ∧
      newChunkCapacity ctx.chunkCapacity ctx.nextChunkId = some capacity ∧
      (((ctx.chunkCapacity < capacity ∧ heap.chunks = false) ∧ r = .error .noMemory ∧
          ctx' = { ctx with nextChunkId := ctx.nextChunkId + 1 }) ∨
        (¬ (ctx.chunkCapacity < capacity ∧ heap.chunks = false) ∧ ∃ inserted table,
          mhtInsertHeap heap ctx.chunkTable name (ctx.newRecord name gpa size) =
            some (inserted, table) ∧
          r = inserted.map (fun _ => ctx.nextChunkId) ∧
          ctx' = { (ctx.enlarged capacity).setChunk ctx.nextChunkId
            ⟨ctx.nextChunkId, 1, inserted.isOk, ctx.newRecord name gpa size⟩ with
              chunkTable := table })) := by
  have hpos := hf.next_pos
  have hnext := hf.next_le
  unfold implRegisterChunkHeap at h
  cases hl : mhtLookup ctx.chunkTable name with
  | ok m =>
    rw [hl] at h
    obtain ⟨rfl, rfl⟩ := Prod.mk.inj (Option.some.inj h)
    exact Or.inl ⟨m, rfl, rfl, rfl⟩
  | error e =>
    rw [hl] at h
    dsimp only at h
    rw [if_neg hpos.ne', if_neg hpos.ne', u64_of_lt (by omega)] at h
    cases hc : newChunkCapacity ctx.chunkCapacity ctx.nextChunkId with
    | none =>
      rw [hc] at h
      cases h
    | some capacity =>
      rw [hc] at h
      dsimp only at h
      refine Or.inr ⟨e, capacity, rfl, rfl, ?_⟩
      split_ifs at h with hrefused
      · obtain ⟨rfl, rfl⟩ := Prod.mk.inj (Option.some.inj h)
        exact Or.inl ⟨hrefused, rfl, rfl⟩
      · refine Or.inr ⟨hrefused, ?_⟩
        split at h
        next => cases h
        next table hi =>
          obtain ⟨rfl, rfl⟩ := Prod.mk.inj (Option.some.inj h)
          exact ⟨.ok (), table, hi, rfl, rfl⟩
        next e' table hi =>
          obtain ⟨rfl, rfl⟩ := Prod.mk.inj (Option.some.inj h)
          exact ⟨.error e', table, hi, rfl, rfl⟩

theorem formed_enlarged (hf : ctx.Formed) {capacity : ℕ}
    (hc : newChunkCapacity ctx.chunkCapacity ctx.nextChunkId = some capacity) (ce : ChunkEntry)
    {table : MetaHashTable ChunkMetadata} (ht : table.Formed) :
    MetaServiceCtx.Formed
      { (ctx.enlarged capacity).setChunk ctx.nextChunkId ce with chunkTable := table } := by
  obtain ⟨hneed, hle, hmax, hpow, -⟩ := register_capacity hf hc
  refine ⟨Nat.succ_pos _, ?_, ?_, hpow, ht⟩
  · dsimp only [MetaServiceCtx.setChunk, MetaServiceCtx.enlarged]
    omega
  · have hlen := hf.length_eq
    simp only [MetaServiceCtx.setChunk, MetaServiceCtx.enlarged, growChunks, List.length_set,
      List.length_append, List.length_replicate]
    omega

/-- A registration keeps the directory in shape, and one that fails keeps its chunks. -/
theorem implRegisterChunkHeap_spec (hf : ctx.Formed)
    (h : implRegisterChunkHeap heap ctx name gpa size = some (r, ctx')) :
    ctx'.Formed ∧ ∀ e, r = .error e → ctx.SameChunks ctx' := by
  have hpos := hf.next_pos
  obtain ⟨-, -, -, rfl⟩ | ⟨-, capacity, -, hc, hcase⟩ := implRegisterChunkHeap_cases hf h
  · exact ⟨hf, fun _ _ => .refl ctx'⟩
  obtain ⟨hneed, hle, hmax, hpow, hgrow⟩ := register_capacity hf hc
  obtain ⟨hrefused, -, rfl⟩ | ⟨-, inserted, table, hi, rfl, rfl⟩ := hcase
  · refine ⟨⟨Nat.succ_pos _, by dsimp only; omega, hf.length_eq, hf.capacity_pow, hf.table⟩,
      fun _ _ => ⟨fun id => ?_, List.Perm.refl _, Or.inl rfl⟩⟩
    refine findChunkById_skip ctx hpos (fun ce hce => ?_) (fun _ _ => rfl) id
    have hlt := (List.getElem?_eq_some_iff.mp hce).1
    have hlen := hf.length_eq
    have := hgrow hrefused.1
    omega
  · obtain ⟨ht, hitems⟩ := mhtInsertHeap_items hf.table hi
    refine ⟨formed_enlarged hf hc _ ht, fun e he => ?_⟩
    obtain ⟨⟨e', rfl⟩, htable, hnames⟩ | ⟨rfl, -⟩ := hitems
    swap
    · cases he
    refine ⟨fun id => ?_, hnames, htable⟩
    have hgrown := findChunkById_growChunks ctx capacity id
    refine Eq.trans ?_ hgrown
    refine findChunkById_skip { ctx with
      chunks := growChunks ctx.chunks capacity
      chunkCapacity := capacity } hpos (fun ce hce => ?_) (fun i hne => ?_) id
    · dsimp only [MetaServiceCtx.setChunk, MetaServiceCtx.enlarged] at hce
      have hlt : ctx.nextChunkId - 1 < (growChunks ctx.chunks capacity).length := by
        simpa using (List.getElem?_eq_some_iff.mp hce).1
      rw [List.getElem?_set_self hlt] at hce
      obtain rfl := Option.some.inj hce
      rfl
    · exact List.getElem?_set_ne (Ne.symm hne)

theorem implUnregisterChunk_formed (hf : ctx.Formed) (id : ℕ) :
    (implUnregisterChunk ctx id).2.Formed := by
  unfold implUnregisterChunk
  split
  · exact hf
  · refine ⟨hf.next_pos, hf.next_le, ?_, hf.capacity_pow, mhtRemove_formed hf.table _⟩
    simp only [dropChunk, MetaServiceCtx.setChunk, List.length_set]
    exact hf.length_eq

theorem metaServiceDirectCreate_formed (h : metaServiceDirectCreate = some ctx) : ctx.Formed := by
  obtain ⟨table, ht, rfl⟩ := Option.map_eq_some_iff.mp h
  exact ⟨Nat.one_pos, by norm_num [MetaServiceCtx.empty], rfl, Or.inl rfl, mhtCreate_formed ht⟩

end Register

end Umm
