import Umm.Metadata.Directory

/-! What the calls of the chunk directory do to the chunks found by identifier, for any name
table. -/
namespace Umm

/-- The array holds every identifier that was given out. -/
structure MetaServiceCtx.WF {N : Type} (ctx : MetaServiceCtx N) : Prop where
  next_pos : 0 < ctx.nextChunkId
  length_eq : ctx.chunks.length = ctx.chunkCapacity
  capacity_pow : ctx.chunkCapacity = 0 ∨ ∃ k ≤ 31, ctx.chunkCapacity = 2 ^ k
  next_le : ctx.nextChunkId ≤ ctx.chunkCapacity + 1

section Capacity

variable {capacity neededId r : ℕ}

theorem newChunkCapacity_pow (hc : capacity = 0 ∨ ∃ k ≤ 31, capacity = 2 ^ k)
    (h : newChunkCapacity capacity neededId = some r) : r = 0 ∨ ∃ k ≤ 31, r = 2 ^ k := by
  unfold newChunkCapacity at h
  dsimp only at h
  split_ifs at h with hle hz
  · obtain rfl := Option.some.inj h
    exact hc
  · obtain ⟨k, -, hk, rfl⟩ := doubleUntil_pow 33 4 r (by norm_num) h
    exact Or.inr ⟨k, hk, rfl⟩
  · obtain ⟨k, hk, rfl⟩ := hc.resolve_left hz
    obtain ⟨k', -, hk', rfl⟩ := doubleUntil_pow 33 k r hk h
    exact Or.inr ⟨k', hk', rfl⟩

theorem le_of_newChunkCapacity (h : newChunkCapacity capacity neededId = some r) :
    u32 neededId ≤ r := by
  unfold newChunkCapacity at h
  dsimp only at h
  split_ifs at h with hle hz
  · obtain rfl := Option.some.inj h
    exact hle
  · exact le_of_doubleUntil _ _ _ h
  · exact le_of_doubleUntil _ _ _ h

theorem newChunkCapacity_some (hc : capacity = 0 ∨ ∃ k ≤ 31, capacity = 2 ^ k)
    (h : neededId ≤ 2 ^ 31) : ∃ r, newChunkCapacity capacity neededId = some r := by
  have hu : u32 neededId = neededId := u32_of_lt (by omega)
  unfold newChunkCapacity
  dsimp only
  rw [hu]
  split_ifs with hle hz
  · exact ⟨_, rfl⟩
  · obtain ⟨r, hr, -⟩ := doubleUntil_some h 33 4 (by norm_num) (by norm_num)
    exact ⟨r, hr⟩
  · obtain ⟨k, hk, rfl⟩ := hc.resolve_left hz
    obtain ⟨r, hr, -⟩ := doubleUntil_some h 33 k hk (by omega)
    exact ⟨r, hr⟩

theorem le_newChunkCapacity (h : newChunkCapacity capacity neededId = some r) : capacity ≤ r := by
  unfold newChunkCapacity at h
  dsimp only at h
  split_ifs at h with hle hz
  · exact (Option.some.inj h).le
  · omega
  · exact (by omega : capacity ≤ u32 neededId).trans (le_of_doubleUntil _ _ _ h)

end Capacity

namespace MetaServiceCtx.WF

variable {N : Type} {ctx : MetaServiceCtx N}

theorem capacity_le (h : ctx.WF) : ctx.chunkCapacity ≤ 2 ^ 31 := by
  rcases h.capacity_pow with hz | ⟨k, hk, he⟩
  · omega
  · rw [he]
    exact Nat.pow_le_pow_right (by norm_num) hk

theorem index_lt (h : ctx.WF) {id : ℕ} (h0 : id ≠ 0) (hid : id < ctx.nextChunkId) :
    id - 1 < ctx.chunks.length := by
  have := h.next_le
  have := h.length_eq
  omega

theorem empty (table : N) : (MetaServiceCtx.empty table).WF :=
  ⟨Nat.one_pos, rfl, Or.inl rfl, le_rfl⟩

theorem setChunk (h : ctx.WF) (id : ℕ) (ce : ChunkEntry) : (ctx.setChunk id ce).WF :=
  ⟨h.next_pos, by simpa [MetaServiceCtx.setChunk] using h.length_eq, h.capacity_pow, h.next_le⟩

theorem withTable (h : ctx.WF) (table : N) :
    MetaServiceCtx.WF { ctx with chunkTable := table } :=
  ⟨h.next_pos, h.length_eq, h.capacity_pow, h.next_le⟩

end MetaServiceCtx.WF

section Find

variable {N : Type} {ctx : MetaServiceCtx N}

theorem findChunkById_range {id : ℕ} {ce : ChunkEntry} (h : findChunkById ctx id = some ce) :
    id ≠ 0 ∧ id < ctx.nextChunkId ∧ ce.valid = true := by
  unfold findChunkById at h
  split_ifs at h with hid
  push Not at hid
  refine ⟨hid.1, hid.2, ?_⟩
  split at h
  · split_ifs at h with hv
    obtain rfl := Option.some.inj h
    exact hv
  · cases h

theorem findChunkById_empty (table : N) (id : ℕ) :
    findChunkById (.empty table) id = none := by
  have hid : id = 0 ∨ 1 ≤ id := by omega
  rw [findChunkById, MetaServiceCtx.empty, if_pos hid]

/-- Overwriting the entry of one chunk leaves all others. -/
theorem findChunkById_setChunk (hw : ctx.WF) {id : ℕ} (h0 : id ≠ 0) (hid : id < ctx.nextChunkId)
    (ce : ChunkEntry) (j : ℕ) : findChunkById (ctx.setChunk id ce) j =
      if j = id then (if ce.valid then some ce else none) else findChunkById ctx j := by
  have hlt := hw.index_lt h0 hid
  unfold findChunkById MetaServiceCtx.setChunk
  dsimp only
  by_cases hj : j = id
  · subst hj
    rw [if_neg (by omega), if_pos rfl, List.getElem?_set_self hlt]
  · rw [if_neg hj]
    by_cases hr : j = 0 ∨ ctx.nextChunkId ≤ j
    · rw [if_pos hr, if_pos hr]
    · rw [if_neg hr, if_neg hr, List.getElem?_set_ne (by omega)]

theorem findChunkById_table (table : N) (j : ℕ) :
    findChunkById { ctx with chunkTable := table } j = findChunkById ctx j := rfl

/-- Growing the array and giving out the next identifier leaves all others. -/
theorem findChunkById_grow (hw : ctx.WF) (capacity : ℕ) {j : ℕ} (hj : j ≠ ctx.nextChunkId) :
    findChunkById { ctx with
      chunks := growChunks ctx.chunks capacity
      chunkCapacity := capacity
      nextChunkId := ctx.nextChunkId + 1 } j = findChunkById ctx j := by
  unfold findChunkById
  dsimp only
  by_cases hr : j = 0 ∨ ctx.nextChunkId ≤ j
  · rw [if_pos hr, if_pos (by omega)]
  · push Not at hr
    rw [if_neg (by omega), if_neg (by omega), growChunks,
      List.getElem?_append_left (hw.index_lt hr.1 hr.2)]

end Find

section Register

variable {N : Type} {ctx ctx' : MetaServiceCtx N} {name : CString} {gpa size : ℕ}

/-- The record that a registration makes for the next identifier. -/
def MetaServiceCtx.newRecord (ctx : MetaServiceCtx N) (name : CString) (gpa size : ℕ) :
    ChunkMetadata :=
  ⟨ctx.nextChunkId, storedName name, gpa, size, 0, 0⟩

/-- The directory after the next identifier was given to the entry. -/
structure Given (ctx ctx' : MetaServiceCtx N) (ce : ChunkEntry) : Prop where
  wf : ctx'.WF
  next_eq : ctx'.nextChunkId = ctx.nextChunkId + 1
  find : ∀ j, findChunkById ctx' j = if j = ctx.nextChunkId then
    (if ce.valid then some ce else none) else findChunkById ctx j

theorem given_of_capacity (hw : ctx.WF) {capacity : ℕ}
    (hc : newChunkCapacity ctx.chunkCapacity ctx.nextChunkId = some capacity) (ce : ChunkEntry)
    (table : N) : Given ctx { MetaServiceCtx.setChunk { ctx with
      chunks := growChunks ctx.chunks capacity
      chunkCapacity := capacity
      nextChunkId := ctx.nextChunkId + 1 } ctx.nextChunkId ce with chunkTable := table } ce := by
  have hle := le_newChunkCapacity hc
  have hneed := le_of_newChunkCapacity hc
  rw [u32_of_lt (by have := hw.next_le; have := hw.capacity_le; omega)] at hneed
  have hg : MetaServiceCtx.WF { ctx with
      chunks := growChunks ctx.chunks capacity
      chunkCapacity := capacity
      nextChunkId := ctx.nextChunkId + 1 } := by
    refine ⟨Nat.succ_pos _, ?_, newChunkCapacity_pow hw.capacity_pow hc, by dsimp only; omega⟩
    have := hw.length_eq
    simp only [growChunks, List.length_append, List.length_replicate]
    omega
  refine ⟨(hg.setChunk _ ce).withTable table, rfl, fun j => ?_⟩
  rw [findChunkById_table, findChunkById_setChunk hg hw.next_pos.ne' (Nat.lt_succ_self _)]
  split_ifs with hj hv
  · rfl
  · rfl
  · exact findChunkById_grow hw capacity hj

variable [NameTable N]

/-- Everything that a registration can do when it returns. -/
theorem implRegisterChunk_cases (hw : ctx.WF) {r : Except Error ℕ}
    (h : implRegisterChunk ctx name gpa size = some (r, ctx')) :
    (∃ m, NameTable.lookup ctx.chunkTable name = .ok m ∧ r = .error .alreadyExists ∧ ctx' = ctx) ∨
    (∃ e, NameTable.lookup ctx.chunkTable name = .error e) ∧
      ((r = .ok ctx.nextChunkId ∧ NameTable.insert ctx.chunkTable name
          (ctx.newRecord name gpa size) = some (.ok (), ctx'.chunkTable) ∧
        Given ctx ctx' ⟨ctx.nextChunkId, 1, true, ctx.newRecord name gpa size⟩) ∨
      (∃ e, r = .error e ∧ NameTable.insert ctx.chunkTable name
          (ctx.newRecord name gpa size) = some (.error e, ctx'.chunkTable) ∧
        Given ctx ctx' ⟨ctx.nextChunkId, 1, false, ctx.newRecord name gpa size⟩)) := by
  have hpos := hw.next_pos
  have hlt : ctx.nextChunkId + 1 < 2 ^ 64 := by
    have := hw.next_le
    have := hw.capacity_le
    omega
  unfold implRegisterChunk at h
  cases hl : NameTable.lookup ctx.chunkTable name with
  | ok m =>
    rw [hl] at h
    obtain ⟨rfl, rfl⟩ := by simpa using h
    exact Or.inl ⟨m, rfl, rfl, rfl⟩
  | error e =>
    rw [hl] at h
    dsimp only at h
    rw [if_neg hpos.ne', if_neg hpos.ne', u64_of_lt hlt] at h
    refine Or.inr ⟨⟨e, rfl⟩, ?_⟩
    cases hc : newChunkCapacity ctx.chunkCapacity ctx.nextChunkId with
    | none =>
      rw [hc] at h
      cases h
    | some capacity =>
      rw [hc] at h
      dsimp only at h
      split at h
      · cases h
      · rename_i table hi
        obtain ⟨rfl, rfl⟩ := by simpa using h
        exact Or.inl ⟨rfl, hi, given_of_capacity hw hc _ table⟩
      · rename_i e' table hi
        obtain ⟨rfl, rfl⟩ := by simpa using h
        exact Or.inr ⟨e', rfl, hi, given_of_capacity hw hc _ table⟩

/-- With fewer than 2^31 identifiers given out, a new name is registered. -/
theorem implRegisterChunk_ok (hw : ctx.WF) (hn : ctx.nextChunkId ≤ 2 ^ 31) {e : Error} {table : N}
    (hl : NameTable.lookup ctx.chunkTable name = .error e)
    (hi : NameTable.insert ctx.chunkTable name (ctx.newRecord name gpa size) =
      some (.ok (), table)) :
    ∃ ctx', implRegisterChunk ctx name gpa size = some (.ok ctx.nextChunkId, ctx') := by
  have hpos := hw.next_pos
  obtain ⟨capacity, hc⟩ := newChunkCapacity_some hw.capacity_pow hn
  unfold implRegisterChunk
  rw [hl]
  dsimp only
  rw [if_neg hpos.ne', if_neg hpos.ne', hc]
  dsimp only
  rw [MetaServiceCtx.newRecord] at hi
  rw [hi]
  exact ⟨_, rfl⟩

end Register

section Drop

variable {N : Type} [NameTable N] {ctx : MetaServiceCtx N}

theorem MetaServiceCtx.WF.dropChunk (hw : ctx.WF) (id : ℕ) (ce : ChunkEntry) :
    (dropChunk ctx id ce).WF :=
  (hw.setChunk id { ce with valid := false }).withTable _

theorem findChunkById_dropChunk (hw : ctx.WF) {id : ℕ} {ce : ChunkEntry}
    (h : findChunkById ctx id = some ce) (ce' : ChunkEntry) (j : ℕ) :
    findChunkById (dropChunk ctx id ce') j = if j = id then none else findChunkById ctx j := by
  obtain ⟨h0, hlt, -⟩ := findChunkById_range h
  rw [dropChunk, findChunkById_table, findChunkById_setChunk hw h0 hlt]
  simp

end Drop

end Umm
