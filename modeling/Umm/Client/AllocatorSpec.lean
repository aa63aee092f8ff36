import Umm.Client.Allocator

/-! What the calls of the allocator do to its chunks, one chunk at a time. -/
namespace Umm
open Umm.Lib

def Block.run (block : Block) : Run :=
  ⟨block.offset, block.size⟩

/-- The blocks in use that were cut from the chunk. -/
def blocksOf (chunkId : ℕ) (live : List Block) : List Block :=
  live.filter fun block => block.chunkId = chunkId

theorem blocksOf_erase (chunkId : ℕ) (block : Block) (live : List Block) :
    blocksOf chunkId (live.erase block) = (blocksOf chunkId live).erase block :=
  List.erase_filter.symm

theorem blocksOf_erase_of_ne {block : Block} {chunkId : ℕ} (hid : block.chunkId ≠ chunkId)
    (live : List Block) : blocksOf chunkId (live.erase block) = blocksOf chunkId live := by
  rw [blocksOf_erase, List.erase_of_not_mem]
  exact fun hin => hid (of_decide_eq_true (List.mem_filter.mp hin).2)

theorem blocksOf_cons (block : Block) (live : List Block) :
    blocksOf block.chunkId (block :: live) = block :: blocksOf block.chunkId live :=
  List.filter_cons_of_pos (decide_eq_true rfl)

theorem blocksOf_cons_of_ne {block : Block} {chunkId : ℕ} (hid : block.chunkId ≠ chunkId)
    (live : List Block) : blocksOf chunkId (block :: live) = blocksOf chunkId live :=
  List.filter_cons_of_neg (by simpa using hid)

/-- The free list is the part of the chunk that no block in use has. -/
structure ChunkBuffer.Holds (cb : ChunkBuffer) (live : List Block) : Prop where
  pos : 0 < cb.totalSize
  coalesced : Coalesced cb.freeList
  inside : ∀ p, Covered cb.freeList p → p < cb.totalSize
  books : Books Block.run (fun p => !decide (Covered cb.freeList p)) cb.totalSize
    (blocksOf cb.chunkId live)

namespace Chunks

variable {chunks pre post : Chunks} {cb cb' : ChunkBuffer} {chunkId : ℕ}

theorem get_eq_some (h : chunks.get chunkId = some cb) : ∃ pre post : Chunks,
    chunks = pre ++ cb :: post ∧ cb.chunkId = chunkId ∧ ∀ a ∈ pre, a.chunkId ≠ chunkId := by
  obtain ⟨hid, pre, post, rfl, hpre⟩ := List.find?_eq_some_iff_append.mp h
  exact ⟨pre, post, rfl, of_decide_eq_true hid, fun a ha => by simpa using hpre a ha⟩

theorem get_eq_none (h : chunks.get chunkId = none) : ∀ a ∈ chunks, a.chunkId ≠ chunkId := by
  intro a ha
  simpa using List.find?_eq_none.mp h a ha

theorem put_middle (hpre : ∀ a ∈ pre, a.chunkId ≠ cb'.chunkId) (hid : cb.chunkId = cb'.chunkId) :
    put cb' (pre ++ cb :: post) = pre ++ cb' :: post := by
  induction pre with
  | nil =>
    rw [List.nil_append]
    unfold put
    rw [if_pos hid]
    rfl
  | cons a pre ih =>
    rw [List.cons_append]
    unfold put
    rw [if_neg (hpre a List.mem_cons_self), ih fun b hb => hpre b (List.mem_cons_of_mem _ hb)]
    rfl

theorem put_fresh (hfresh : ∀ a ∈ chunks, a.chunkId ≠ cb.chunkId) :
    chunks.put cb = chunks ++ [cb] := by
  induction chunks with
  | nil => rfl
  | cons a chunks ih =>
    unfold put
    rw [if_neg (hfresh a List.mem_cons_self), ih fun b hb => hfresh b (List.mem_cons_of_mem _ hb)]
    rfl

theorem del_middle (hpre : ∀ a ∈ pre, a.chunkId ≠ cb.chunkId)
    (hpost : ∀ a ∈ post, a.chunkId ≠ cb.chunkId) :
    del cb.chunkId (pre ++ cb :: post) = pre ++ post := by
  have hkeep : ∀ {l : Chunks}, (∀ a ∈ l, a.chunkId ≠ cb.chunkId) →
      l.filter (fun a => a.chunkId ≠ cb.chunkId) = l := by
    intro l hl
    rw [List.filter_eq_self]
    exact fun a ha => decide_eq_true (hl a ha)
  unfold del
  rw [List.filter_append, List.filter_cons, hkeep hpre, hkeep hpost]
  simp

theorem alloc_eq_some {size : ℕ} {deviceIdx : Option ℤ} {block : Block} {chunks' : Chunks}
    (h : chunks.alloc size deviceIdx = some (block, chunks')) :
    ∃ pre cb cb' post offset, chunks = pre ++ cb :: post ∧ chunks' = pre ++ cb' :: post ∧
      cb.alloc size = some (offset, cb') ∧ block = cb.block offset size := by
  induction chunks generalizing block chunks' with
  | nil => cases h
  | cons cb rest ih =>
    have hlater : ((alloc size deviceIdx rest).map fun found => (found.1, cb :: found.2)) =
        some (block, chunks') → ∃ pre cb₁ cb' post offset, cb :: rest = pre ++ cb₁ :: post ∧
          chunks' = pre ++ cb' :: post ∧ cb₁.alloc size = some (offset, cb') ∧
          block = cb₁.block offset size := by
      intro hmap
      obtain ⟨found, hfound, he⟩ := Option.map_eq_some_iff.mp hmap
      obtain ⟨rfl, rfl⟩ := Prod.mk.inj he
      obtain ⟨pre, cb₁, cb', post, offset, rfl, hrest, halloc, hblock⟩ := ih hfound
      exact ⟨cb :: pre, cb₁, cb', post, offset, rfl, by rw [hrest]; rfl, halloc, hblock⟩
    unfold alloc at h
    dsimp only at h
    split_ifs at h with hdev
    · exact hlater h
    · split at h
      next offset cb' halloc =>
        obtain ⟨rfl, rfl⟩ := Prod.mk.inj (Option.some.inj h)
        exact ⟨[], cb, cb', rest, offset, rfl, rfl, halloc, rfl⟩
      next => exact hlater h

end Chunks

namespace ChunkBuffer

variable {cb cb' : ChunkBuffer} {live : List Block} {offset size : ℕ}

theorem alloc_chunkId (h : cb.alloc size = some (offset, cb')) :
    cb'.chunkId = cb.chunkId ∧ cb'.block offset size = cb.block offset size := by
  obtain ⟨found, -, he⟩ := Option.map_eq_some_iff.mp h
  obtain ⟨-, rfl⟩ := Prod.mk.inj he
  exact ⟨rfl, rfl⟩

theorem Holds.alloc (hh : cb.Holds live) (hsize : 0 < size)
    (h : cb.alloc size = some (offset, cb')) : cb'.Holds (cb.block offset size :: live) := by
  obtain ⟨⟨o, freeList⟩, hfound, he⟩ := Option.map_eq_some_iff.mp h
  obtain ⟨rfl, rfl⟩ := Prod.mk.inj he
  obtain ⟨hco, hcov, hout⟩ := hh.coalesced.takeFirst hsize hfound
  have hin : o + size ≤ cb.totalSize := by
    have := hh.inside (o + size - 1) ((hcov _).mpr (.inl ⟨by dsimp only; omega, by dsimp only; omega⟩))
    omega
  refine ⟨hh.pos, hco, fun p hp => hh.inside p ((hcov p).mpr (.inr hp)), ?_⟩
  change Books Block.run _ _ (blocksOf (cb.block o size).chunkId (cb.block o size :: live))
  rw [blocksOf_cons]
  refine hh.books.alloc (cb.block o size) hin ?_ ?_
  · intro p hp hlt
    have hc : Covered cb.freeList p := (hcov p).mpr (.inl ⟨hp, hlt⟩)
    simp [hc]
  · intro p hp
    change (!decide (Covered freeList p)) =
      (decide (Run.Covers ⟨o, size⟩ p) || !decide (Covered cb.freeList p))
    have hsplit := hcov p
    have hno := hout p
    by_cases hb : Run.Covers ⟨o, size⟩ p
    · simp [hb, hno hb]
    · simp only [hb, false_or] at hsplit
      simp [hb, hsplit]

theorem Holds.free (hh : cb.Holds live) {block : Block} (hid : block.chunkId = cb.chunkId)
    (hlive : block ∈ live) (hsize : 0 < block.size) :
    (cb.free block.offset block.size).Holds (live.erase block) := by
  have hmem : block ∈ blocksOf cb.chunkId live :=
    List.mem_filter.mpr ⟨hlive, decide_eq_true hid⟩
  have hout : ∀ p, block.run.Covers p → ¬ Covered cb.freeList p := by
    intro p hp
    have hused := hh.books.used_of_mem hmem hp
    simpa using hused
  have hin := hh.books.inside block hmem
  obtain ⟨hco, hcov⟩ := hh.coalesced.giveBack (r := block.run) hsize hout
  refine ⟨hh.pos, hco, fun p hp => ?_, ?_⟩
  · rcases (hcov p).mp hp with hp | hp
    · exact hh.inside p hp
    · exact lt_of_lt_of_le hp.2 hin
  · change Books Block.run _ _ (blocksOf cb.chunkId (live.erase block))
    rw [blocksOf_erase]
    refine hh.books.free block hmem fun p hp => ?_
    change (!decide (Covered (giveBack block.run cb.freeList) p)) = _
    simp [hcov p, Bool.and_comm]

/-- A chunk is free from end to end when no block of it is in use. -/
theorem Holds.isFullyFree_iff (hh : cb.Holds live) (hsizes : ∀ block ∈ live, 0 < block.size) :
    cb.isFullyFree = true ↔ blocksOf cb.chunkId live = [] := by
  unfold isFullyFree
  rw [decide_eq_true_eq]
  constructor
  · intro hfree
    refine List.eq_nil_iff_forall_not_mem.mpr fun block hb => ?_
    have hsize := hsizes block (List.mem_of_mem_filter hb)
    have hcovers : block.run.Covers block.offset := ⟨le_rfl, Nat.lt_add_of_pos_right hsize⟩
    have hused := hh.books.used_of_mem hb hcovers
    have hin : block.offset + block.size ≤ cb.totalSize := hh.books.inside block hb
    rw [hfree] at hused
    have hcov : Covered [⟨0, cb.totalSize⟩] block.offset :=
      covered_singleton.mpr ⟨Nat.zero_le _, by dsimp only; omega⟩
    simp [hcov] at hused
  · intro hnone
    refine hh.coalesced.eq_single hh.pos fun p => ⟨hh.inside p, fun hp => ?_⟩
    have hexact := hh.books.exact p hp
    rw [hnone] at hexact
    simpa using hexact

/-- A chunk as it comes from UMM. -/
theorem holds_ofDesc (desc : ChunkDescriptor) (mediaType : MediaType) (deviceIdx : Option ℤ)
    (hpos : 0 < desc.userSize) (hnone : blocksOf desc.chunkId live = []) :
    (ofDesc desc mediaType deviceIdx).Holds live := by
  refine ⟨hpos, ⟨fun r hr => ?_, List.pairwise_singleton _ _⟩, fun p hp => ?_, ?_⟩
  · rw [List.mem_singleton.mp hr]
    exact hpos
  · have hlt := (covered_singleton.mp hp).2
    dsimp only at hlt
    change p < desc.userSize
    omega
  · change Books _ _ _ (blocksOf desc.chunkId live)
    rw [hnone]
    refine Books.empty fun p hp => ?_
    have hcov : Covered (ofDesc desc mediaType deviceIdx).freeList p := by
      refine covered_singleton.mpr ⟨Nat.zero_le _, ?_⟩
      dsimp only
      rw [Nat.zero_add]
      exact hp
    simp [hcov]

end ChunkBuffer

end Umm
