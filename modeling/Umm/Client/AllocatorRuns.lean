import Umm.Client.AllocatorSpec
import Umm.Lib.Reach

/-! Runs of the allocator: blocks taken and freed in any order, over chunks that come and go. -/
namespace Umm
open Umm.Lib

theorem ChunkBuffer.Holds.congr {cb : ChunkBuffer} {live live' : List Block} (hh : cb.Holds live)
    (he : blocksOf cb.chunkId live' = blocksOf cb.chunkId live) : cb.Holds live' :=
  ⟨hh.pos, hh.coalesced, hh.inside, he ▸ hh.books⟩

namespace FineGrainedAllocator

variable {s t : FineGrainedAllocator} {cb cb' : ChunkBuffer} {before after : Chunks}

structure WF (s : FineGrainedAllocator) : Prop where
  ids : (s.all.map ChunkBuffer.chunkId).Nodup
  holds : ∀ cb ∈ s.all, cb.Holds s.live
  owner : ∀ block ∈ s.live, ∃ cb ∈ s.all, cb.chunkId = block.chunkId
  sizes : ∀ block ∈ s.live, 0 < block.size

/-- The chunks of one medium in their place among all. -/
theorem all_split (mediaType : MediaType) (s : FineGrainedAllocator) {pre mid post : Chunks}
    (h : s.chunksOf mediaType = pre ++ mid ++ post) : ∃ before after,
      s.all = before ++ mid ++ after ∧
        ∀ mid' : Chunks, (s.setChunks mediaType (pre ++ mid' ++ post)).all =
          before ++ mid' ++ after := by
  cases mediaType with
  | dram =>
    change s.dram = _ at h
    refine ⟨pre, post ++ s.ssd, ?_, fun mid' => ?_⟩
    · rw [all, h, List.append_assoc]
    · exact List.append_assoc _ _ _
  | ssd =>
    change s.ssd = _ at h
    refine ⟨s.dram ++ pre, post, ?_, fun mid' => ?_⟩
    · rw [all, h]
      simp only [List.append_assoc]
    · change s.dram ++ (pre ++ mid' ++ post) = _
      simp only [List.append_assoc]

theorem WF.ids_ne (hw : s.WF) (hall : s.all = before ++ [cb] ++ after) :
    ∀ a ∈ before ++ after, a.chunkId ≠ cb.chunkId := by
  have hids := hw.ids
  rw [hall, List.append_assoc, List.singleton_append] at hids
  have hperm : ((before ++ cb :: after).map ChunkBuffer.chunkId).Perm
      ((cb :: (before ++ after)).map ChunkBuffer.chunkId) := List.perm_middle.map _
  have hcons := hperm.nodup_iff.mp hids
  rw [List.map_cons, List.nodup_cons] at hcons
  exact fun a ha he => hcons.1 (he ▸ List.mem_map_of_mem ha)

theorem ids_post (hids : (s.all.map ChunkBuffer.chunkId).Nodup) {mediaType : MediaType}
    {pre post : Chunks} (hchunks : s.chunksOf mediaType = pre ++ cb :: post) :
    ∀ a ∈ post, a.chunkId ≠ cb.chunkId := by
  have hsub : (s.chunksOf mediaType).Sublist s.all := by
    cases mediaType with
    | dram => exact List.sublist_append_left _ _
    | ssd => exact List.sublist_append_right _ _
  have hmedium := hids.sublist (hsub.map _)
  rw [hchunks, List.map_append, List.nodup_append, List.map_cons, List.nodup_cons] at hmedium
  exact fun a ha he => hmedium.2.1.1 (he ▸ List.mem_map_of_mem ha)

theorem WF.replace (hw : s.WF) (hall : s.all = before ++ [cb] ++ after)
    (hall' : t.all = before ++ [cb'] ++ after) (hid : cb'.chunkId = cb.chunkId)
    (hholds : cb'.Holds t.live)
    (hother : ∀ id, cb.chunkId ≠ id → blocksOf id t.live = blocksOf id s.live)
    (howner : ∀ block ∈ t.live, block ∈ s.live ∨ block.chunkId = cb.chunkId)
    (hsizes : ∀ block ∈ t.live, 0 < block.size) : t.WF := by
  have hne := hw.ids_ne hall
  have hmap : t.all.map ChunkBuffer.chunkId = s.all.map ChunkBuffer.chunkId := by
    rw [hall, hall']
    simp only [List.map_append, List.map_cons, List.map_nil, hid]
  refine ⟨hmap ▸ hw.ids, fun a ha => ?_, fun block hb => ?_, hsizes⟩
  · rw [hall'] at ha
    rcases List.mem_append.mp ha with ha | ha
    · rcases List.mem_append.mp ha with ha | ha
      · refine (hw.holds a (by rw [hall]; simp [ha])).congr (hother _ ?_)
        exact (hne a (List.mem_append_left _ ha)).symm
      · rw [List.mem_singleton.mp ha]
        exact hholds
    · refine (hw.holds a (by rw [hall]; simp [ha])).congr (hother _ ?_)
      exact (hne a (List.mem_append_right _ ha)).symm
  · have hin : block.chunkId ∈ s.all.map ChunkBuffer.chunkId := by
      rcases howner block hb with hold | hnew
      · obtain ⟨a, ha, he⟩ := hw.owner block hold
        exact he ▸ List.mem_map_of_mem ha
      · rw [hnew, hall]
        simp
    rw [← hmap] at hin
    obtain ⟨a, ha, he⟩ := List.mem_map.mp hin
    exact ⟨a, ha, he⟩

theorem WF.remove (hw : s.WF) (hall : s.all = before ++ [cb] ++ after)
    (hall' : t.all = before ++ after) (hnone : blocksOf cb.chunkId t.live = [])
    (hother : ∀ id, cb.chunkId ≠ id → blocksOf id t.live = blocksOf id s.live)
    (howner : ∀ block ∈ t.live, block ∈ s.live) : t.WF := by
  have hne := hw.ids_ne hall
  have hsub : ∀ a ∈ t.all, a ∈ s.all ∧ a.chunkId ≠ cb.chunkId := by
    intro a ha
    rw [hall'] at ha
    refine ⟨?_, hne a ha⟩
    rw [hall]
    rcases List.mem_append.mp ha with ha | ha
    · simp [ha]
    · simp [ha]
  refine ⟨?_, fun a ha => ?_, fun block hb => ?_, fun block hb => hw.sizes block (howner block hb)⟩
  · refine hw.ids.sublist ?_
    rw [hall, hall', List.append_assoc]
    exact ((List.Sublist.refl before).append (List.sublist_cons_self cb after)).map _
  · obtain ⟨hin, hid⟩ := hsub a ha
    exact (hw.holds a hin).congr (hother _ hid.symm)
  · obtain ⟨a, ha, he⟩ := hw.owner block (howner block hb)
    have hid : block.chunkId ≠ cb.chunkId := by
      intro he'
      have hmem : block ∈ blocksOf cb.chunkId t.live :=
        List.mem_filter.mpr ⟨hb, decide_eq_true he'⟩
      rw [hnone] at hmem
      cases hmem
    refine ⟨a, ?_, he⟩
    rw [hall] at ha
    rw [hall']
    rcases List.mem_append.mp ha with ha | ha
    · rcases List.mem_append.mp ha with ha | ha
      · exact List.mem_append_left _ ha
      · rw [List.mem_singleton.mp ha] at he
        exact absurd he.symm hid
    · exact List.mem_append_right _ ha

theorem WF.blocksOf_fresh (hw : s.WF) {id : ℕ} (hfresh : ∀ cb ∈ s.all, cb.chunkId ≠ id) :
    blocksOf id s.live = [] := by
  refine List.eq_nil_iff_forall_not_mem.mpr fun block hb => ?_
  obtain ⟨hin, hid⟩ := List.mem_filter.mp hb
  obtain ⟨cb, hcb, he⟩ := hw.owner block hin
  exact hfresh cb hcb (he.trans (of_decide_eq_true hid))

theorem WF.add (hw : s.WF) (hall : s.all = before ++ after) (hall' : t.all = before ++ [cb] ++ after)
    (hfresh : ∀ a ∈ s.all, a.chunkId ≠ cb.chunkId) (hholds : cb.Holds s.live)
    (hlive : t.live = s.live) : t.WF := by
  have hperm : t.all.Perm (cb :: s.all) := by
    rw [hall, hall', List.append_assoc]
    exact List.perm_middle
  refine ⟨?_, fun a ha => ?_, fun block hb => ?_, hlive ▸ hw.sizes⟩
  · rw [(hperm.map _).nodup_iff, List.map_cons, List.nodup_cons]
    refine ⟨fun hin => ?_, hw.ids⟩
    obtain ⟨a, ha, he⟩ := List.mem_map.mp hin
    exact hfresh a ha he
  · rw [hlive]
    rcases List.mem_cons.mp (hperm.subset ha) with rfl | ha
    · exact hholds
    · exact hw.holds a ha
  · rw [hlive] at hb
    obtain ⟨a, ha, he⟩ := hw.owner block hb
    exact ⟨a, hperm.symm.subset (List.mem_cons_of_mem _ ha), he⟩

@[simp] theorem live_setChunks (mediaType : MediaType) (chunks : Chunks) :
    (s.setChunks mediaType chunks).live = s.live := by
  cases mediaType <;> rfl

@[simp] theorem returned_setChunks (mediaType : MediaType) (chunks : Chunks) :
    (s.setChunks mediaType chunks).returned = s.returned := by
  cases mediaType <;> rfl

/-- A buffer with a new id goes behind those of its medium. -/
theorem all_put (mediaType : MediaType) (s : FineGrainedAllocator) {id : ℕ}
    (hfresh : ∀ a ∈ s.all, a.chunkId ≠ id) : ∃ before after, s.all = before ++ after ∧
      ∀ cb : ChunkBuffer, cb.chunkId = id →
        (s.setChunks mediaType ((s.chunksOf mediaType).put cb)).all = before ++ [cb] ++ after := by
  have hnil : s.chunksOf mediaType = s.chunksOf mediaType ++ [] ++ [] := by
    rw [List.append_nil, List.append_nil]
  obtain ⟨before, after, hall, hset⟩ := all_split mediaType s hnil
  rw [List.append_nil] at hall
  refine ⟨before, after, hall, fun cb hid => ?_⟩
  rw [← hset, Chunks.put_fresh, List.append_nil]
  intro a ha
  rw [hid]
  refine hfresh a ?_
  cases mediaType with
  | dram => exact List.mem_append_left _ ha
  | ssd => exact List.mem_append_right _ ha

theorem WF.addChunk (hw : s.WF) {size : ℕ} {desc : ChunkDescriptor} (hg : s.Granted size desc)
    (mediaType : MediaType) (deviceIdx : Option ℤ) :
    (s.setChunks mediaType
      ((s.chunksOf mediaType).put (.ofDesc desc mediaType deviceIdx))).WF := by
  obtain ⟨before, after, hall, hput⟩ := all_put mediaType s hg.fresh
  refine hw.add hall (hput _ rfl) hg.fresh ?_ (live_setChunks _ _)
  exact ChunkBuffer.holds_ofDesc desc mediaType deviceIdx (hg.pos.trans_le hg.large)
    (hw.blocksOf_fresh hg.fresh)

/-- A block is cut from a chunk. -/
theorem WF.cut (hw : s.WF) {size offset : ℕ} (hall : s.all = before ++ [cb] ++ after)
    (hall' : t.all = before ++ [cb'] ++ after) (hsize : 0 < size)
    (halloc : cb.alloc size = some (offset, cb')) (hlive : t.live = cb.block offset size :: s.live) :
    t.WF := by
  have hh := hw.holds cb (by rw [hall]; simp)
  refine hw.replace hall hall' (ChunkBuffer.alloc_chunkId halloc).1 ?_ (fun id hid => ?_)
    (fun block hb => ?_) fun block hb => ?_
  · rw [hlive]
    exact hh.alloc hsize halloc
  · rw [hlive]
    exact blocksOf_cons_of_ne hid s.live
  · rw [hlive] at hb
    rcases List.mem_cons.mp hb with rfl | hb
    · exact .inr rfl
    · exact .inl hb
  · rw [hlive] at hb
    rcases List.mem_cons.mp hb with rfl | hb
    · exact hsize
    · exact hw.sizes block hb

theorem WF.allocNew (hw : s.WF) {size asked : ℕ} (hsize : 0 < size) (hle : size ≤ asked)
    (mediaType : MediaType) (deviceIdx : Option ℤ) {umm : Option ChunkDescriptor}
    (humm : ∀ desc, umm = some desc → s.Granted asked desc) :
    (s.allocNew size mediaType deviceIdx umm).2.WF ∧
      (s.allocNew size mediaType deviceIdx umm).2.returned = s.returned := by
  unfold FineGrainedAllocator.allocNew
  cases umm with
  | none => exact ⟨hw, rfl⟩
  | some desc =>
    have hg := humm desc rfl
    dsimp only
    cases halloc : (ChunkBuffer.ofDesc desc mediaType deviceIdx).alloc size with
    | none =>
      have hfit : size ≤ desc.userSize := hle.trans hg.large
      unfold ChunkBuffer.alloc ChunkBuffer.ofDesc takeFirst at halloc
      rw [if_pos hfit] at halloc
      split_ifs at halloc <;> cases halloc
    | some found =>
      obtain ⟨offset, cb⟩ := found
      obtain ⟨hid, hblock⟩ := ChunkBuffer.alloc_chunkId halloc
      obtain ⟨before, after, hall, hput⟩ := all_put mediaType s hg.fresh
      refine ⟨(hw.addChunk hg mediaType deviceIdx).cut (hput _ rfl) (hput cb hid) hsize halloc ?_,
        returned_setChunks _ _⟩
      change cb.block offset size :: s.live = _
      rw [hblock, live_setChunks]

theorem WF.alloc (hw : s.WF) {size : ℕ} (hsize : 0 < size) (mediaType : Option MediaType)
    (deviceIdx : Option ℤ) {umm : ℕ → Option ChunkDescriptor}
    (humm : ∀ desc, umm (max size s.defaultChunkSize) = some desc →
      s.Granted (max size s.defaultChunkSize) desc) :
    (s.alloc size mediaType deviceIdx umm).2.WF ∧
      (s.alloc size mediaType deviceIdx umm).2.returned = s.returned := by
  unfold FineGrainedAllocator.alloc
  split
  next => exact ⟨hw, rfl⟩
  next mediaType hargs =>
    split
    next block chunks hfound =>
      obtain ⟨pre, cb, cb', post, offset, hchunks, rfl, halloc, rfl⟩ := Chunks.alloc_eq_some hfound
      have hmid : s.chunksOf mediaType = pre ++ [cb] ++ post := by
        rw [hchunks, List.append_assoc, List.singleton_append]
      obtain ⟨before, after, hall, hset⟩ := all_split mediaType s hmid
      have hset' := hset [cb']
      rw [List.append_assoc, List.singleton_append] at hset'
      exact ⟨hw.cut hall hset' hsize halloc rfl, returned_setChunks _ _⟩
    next => exact hw.allocNew hsize (le_max_left _ _) mediaType deviceIdx humm

theorem WF.addChunks (hw : s.WF) (mediaType : MediaType) (deviceIdx : Option ℤ)
    {answers : List (Option ChunkDescriptor)} {size : ℕ}
    (hg : ∀ desc, some desc ∈ answers → s.Granted size desc)
    (hdistinct : answers.Pairwise fun a b => ∀ desc desc', a = some desc → b = some desc' →
      desc.chunkId ≠ desc'.chunkId) :
    (s.addChunks mediaType deviceIdx answers).2.WF ∧
      (s.addChunks mediaType deviceIdx answers).2.returned = s.returned := by
  induction answers generalizing s with
  | nil => exact ⟨hw, rfl⟩
  | cons answer answers ih =>
    rw [List.pairwise_cons] at hdistinct
    cases answer with
    | none => exact ⟨hw, rfl⟩
    | some desc =>
      have hone := hg desc List.mem_cons_self
      obtain ⟨before, after, hall, hput⟩ := all_put mediaType s hone.fresh
      have hnew := hput (.ofDesc desc mediaType deviceIdx) rfl
      unfold FineGrainedAllocator.addChunks
      have hrest := ih (hw.addChunk hone mediaType deviceIdx) (fun desc' hd => ?_) hdistinct.2
      · rw [returned_setChunks] at hrest
        exact hrest
      · have hold := hg desc' (List.mem_cons_of_mem _ hd)
        refine ⟨hold.pos, hold.large, fun a ha => ?_⟩
        rw [hnew, List.append_assoc] at ha
        have hin : a ∈ ChunkBuffer.ofDesc desc mediaType deviceIdx :: s.all := by
          rw [hall]
          exact List.perm_middle.subset ha
        rcases List.mem_cons.mp hin with rfl | hin
        · exact hdistinct.1 _ hd desc desc' rfl rfl
        · exact hold.fresh a hin

/-- The chunks UMM gets back in a step: the one whose last block is freed. -/
def givenBack (e : AllocatorEvent) (t : FineGrainedAllocator) : List ℕ :=
  match e with
  | .free block => if blocksOf block.chunkId t.live = [] then [block.chunkId] else []
  | _ => []

theorem givenBack_free (block : Block) (t : FineGrainedAllocator) : givenBack (.free block) t =
    if blocksOf block.chunkId t.live = [] then [block.chunkId] else [] := rfl

theorem live_freeIn (s : FineGrainedAllocator) (mediaType : MediaType) (cb : ChunkBuffer) (block : Block) :
    (s.freeIn mediaType cb block).live = s.live.erase block := by
  unfold FineGrainedAllocator.freeIn
  dsimp only
  split_ifs
  · exact live_setChunks _ _
  · exact live_setChunks _ _

/-- What a free leaves of its chunk: nothing where the chunk is free as a whole, and the chunk
without the block elsewhere. -/
theorem WF.freeIn_cases (hw : s.WF) {block : Block} {mediaType : MediaType}
    (hget : (s.chunksOf mediaType).get block.chunkId = some cb) :
    cb.chunkId = block.chunkId ∧ ∃ before after, s.all = before ++ [cb] ++ after ∧
      ((cb.free block.offset block.size).isFullyFree = true ∧
          (s.freeIn mediaType cb block).all = before ++ after ∧
          (s.freeIn mediaType cb block).returned = s.returned ++ [cb.chunkId] ∨
        (cb.free block.offset block.size).isFullyFree = false ∧
          (s.freeIn mediaType cb block).all =
            before ++ [cb.free block.offset block.size] ++ after ∧
          (s.freeIn mediaType cb block).returned = s.returned) := by
  obtain ⟨pre, post, hchunks, hid, hpre⟩ := Chunks.get_eq_some hget
  have hmid : s.chunksOf mediaType = pre ++ [cb] ++ post := by
    rw [hchunks, List.append_assoc, List.singleton_append]
  obtain ⟨before, after, hall, hset⟩ := all_split mediaType s hmid
  refine ⟨hid, before, after, hall, ?_⟩
  cases hfree : (cb.free block.offset block.size).isFullyFree with
  | true =>
    have hdel : (s.chunksOf mediaType).del block.chunkId = pre ++ [] ++ post := by
      rw [hchunks, ← hid, Chunks.del_middle (hid ▸ hpre) (ids_post hw.ids hchunks), List.append_nil]
    have hres : s.freeIn mediaType cb block =
        { ({ s with live := s.live.erase block } : FineGrainedAllocator).setChunks mediaType
            (pre ++ [] ++ post) with returned := s.returned ++ [cb.chunkId] } := by
      unfold FineGrainedAllocator.freeIn
      rw [if_pos hfree, ← hdel]
      cases mediaType <;> rfl
    refine .inl ⟨rfl, ?_, by rw [hres]⟩
    rw [hres, ← List.append_nil before, ← hset []]
    cases mediaType <;> rfl
  | false =>
    have hput : (s.chunksOf mediaType).put (cb.free block.offset block.size) =
        pre ++ [cb.free block.offset block.size] ++ post := by
      have hsame : cb.chunkId = (cb.free block.offset block.size).chunkId := rfl
      rw [hchunks, Chunks.put_middle (fun a ha => hsame ▸ hid ▸ hpre a ha) hsame,
        List.append_assoc, List.singleton_append]
    have hres : s.freeIn mediaType cb block =
        ({ s with live := s.live.erase block } : FineGrainedAllocator).setChunks mediaType
          (pre ++ [cb.free block.offset block.size] ++ post) := by
      unfold FineGrainedAllocator.freeIn
      rw [if_neg (Bool.eq_false_iff.mp hfree), ← hput]
      cases mediaType <;> rfl
    refine .inr ⟨rfl, ?_, ?_⟩
    · rw [hres, ← hset]
      cases mediaType <;> rfl
    · rw [hres]
      exact returned_setChunks _ _

theorem WF.freeIn (hw : s.WF) {block : Block} (hlive : block ∈ s.live) {mediaType : MediaType}
    (hget : (s.chunksOf mediaType).get block.chunkId = some cb) :
    (s.freeIn mediaType cb block).WF ∧
      (s.freeIn mediaType cb block).returned =
        s.returned ++ givenBack (.free block) (s.freeIn mediaType cb block) ∧
      ∀ id ∈ givenBack (.free block) (s.freeIn mediaType cb block),
        ∀ a ∈ (s.freeIn mediaType cb block).all, a.chunkId ≠ id := by
  obtain ⟨hid, before, after, hall, hcases⟩ := hw.freeIn_cases hget
  have hlive' := live_freeIn s mediaType cb block
  have hmem : cb ∈ s.all := by
    rw [hall]
    simp
  have hfreed := (hw.holds cb hmem).free hid.symm hlive (hw.sizes block hlive)
  have hsizes : ∀ b ∈ s.live.erase block, 0 < b.size :=
    fun b hb => hw.sizes b (List.mem_of_mem_erase hb)
  have hfully := hfreed.isFullyFree_iff hsizes
  have hother : ∀ id, cb.chunkId ≠ id →
      blocksOf id (s.live.erase block) = blocksOf id s.live :=
    fun id hne => blocksOf_erase_of_ne (hid ▸ hne) s.live
  rcases hcases with ⟨hfree, hall', hreturned⟩ | ⟨hfree, hall', hreturned⟩
  · have hnone : blocksOf cb.chunkId (s.live.erase block) = [] := hfully.mp hfree
    have hgiven : givenBack (.free block) (s.freeIn mediaType cb block) = [cb.chunkId] := by
      rw [givenBack_free, hlive', ← hid]
      exact if_pos hnone
    refine ⟨hw.remove hall hall' ?_ ?_ ?_, ?_, ?_⟩
    · rwa [hlive']
    · rwa [hlive']
    · rw [hlive']
      exact fun b hb => List.mem_of_mem_erase hb
    · rw [hgiven, hreturned]
    · rw [hgiven, hall']
      intro id hin a ha
      rw [List.mem_singleton.mp hin]
      exact hw.ids_ne hall a ha
  · have hgiven : givenBack (.free block) (s.freeIn mediaType cb block) = [] := by
      rw [givenBack_free, hlive', ← hid]
      exact if_neg fun hnone => Bool.eq_false_iff.mp hfree (hfully.mpr hnone)
    refine ⟨hw.replace hall hall' rfl ?_ ?_ ?_ ?_, ?_, ?_⟩
    · rwa [hlive']
    · rwa [hlive']
    · rw [hlive']
      exact fun b hb => .inl (List.mem_of_mem_erase hb)
    · rwa [hlive']
    · rw [hgiven, hreturned, List.append_nil]
    · rw [hgiven]
      exact fun id hin => by cases hin

theorem WF.free (hw : s.WF) {block : Block} (hlive : block ∈ s.live) :
    (s.free block).WF ∧
      (s.free block).returned = s.returned ++ givenBack (.free block) (s.free block) ∧
      ∀ id ∈ givenBack (.free block) (s.free block), ∀ a ∈ (s.free block).all, a.chunkId ≠ id := by
  unfold FineGrainedAllocator.free
  cases hdram : s.dram.get block.chunkId with
  | some cb =>
    have hget : (s.chunksOf .dram).get block.chunkId = some cb := hdram
    exact hw.freeIn hlive hget
  | none =>
    cases hssd : s.ssd.get block.chunkId with
    | some cb =>
      have hget : (s.chunksOf .ssd).get block.chunkId = some cb := hssd
      exact hw.freeIn hlive hget
    | none =>
      obtain ⟨cb, hcb, he⟩ := hw.owner block hlive
      rcases List.mem_append.mp hcb with hin | hin
      · exact absurd he (Chunks.get_eq_none hdram cb hin)
      · exact absurd he (Chunks.get_eq_none hssd cb hin)

theorem WF.step (hw : s.WF) {e : AllocatorEvent} (ht : Guarded Fair Step s e t) :
    t.WF ∧ t.returned = s.returned ++ givenBack e t ∧
      ∀ id ∈ givenBack e t, ∀ a ∈ t.all, a.chunkId ≠ id := by
  obtain ⟨hfair, rfl⟩ := ht
  cases e with
  | alloc size mediaType deviceIdx umm =>
    obtain ⟨hw', hr⟩ := hw.alloc hfair.1 mediaType deviceIdx hfair.2
    exact ⟨hw', hr.trans (List.append_nil _).symm, fun id hid => by cases hid⟩
  | free block => exact hw.free hfair
  | preallocate count chunkSize mediaType deviceIdx umm =>
    obtain ⟨hg, hdistinct⟩ := hfair
    have hmain : (s.preallocateChunks count chunkSize mediaType deviceIdx umm).2.WF ∧
        (s.preallocateChunks count chunkSize mediaType deviceIdx umm).2.returned = s.returned := by
      unfold preallocateChunks
      split
      next => exact ⟨hw, rfl⟩
      next mediaType hargs =>
        have hg' : ∀ desc, some desc ∈ (List.range count.toNat).map (umm chunkSize) →
            s.Granted chunkSize desc := by
          intro desc hd
          obtain ⟨i, hi, he⟩ := List.mem_map.mp hd
          exact hg i (List.mem_range.mp hi) desc he
        refine hw.addChunks mediaType deviceIdx hg' ?_
        rw [List.pairwise_map]
        refine List.pairwise_lt_range.imp_of_mem fun {i j} _ hj hij desc desc' hi' hj' he => ?_
        exact hdistinct j (List.mem_range.mp hj) i hij desc' desc hj' hi' he.symm
    exact ⟨hmain.1, hmain.2.trans (List.append_nil _).symm, fun id hid => by cases hid⟩

theorem wf_init (defaultChunkSize : ℕ) : (init defaultChunkSize).WF :=
  ⟨List.nodup_nil, fun _ h => (by cases h), fun _ h => (by cases h), fun _ h => by cases h⟩

/-- The blocks of a chunk that are in use lie in it, apart from each other, and its free list is
what is left of it, in order and coalesced. -/
structure ChunkSound (live : List Block) (cb : ChunkBuffer) : Prop where
  apart : (blocksOf cb.chunkId live).Pairwise fun a b => a.run.Apart b.run
  inside : ∀ block ∈ blocksOf cb.chunkId live, block.offset + block.size ≤ cb.totalSize
  coalesced : Coalesced cb.freeList
  exact : ∀ p, Covered cb.freeList p ↔
    p < cb.totalSize ∧ ∀ block ∈ blocksOf cb.chunkId live, ¬ block.run.Covers p

theorem WF.chunkSound (hw : s.WF) (hcb : cb ∈ s.all) : ChunkSound s.live cb := by
  have hh := hw.holds cb hcb
  refine ⟨hh.books.apart, hh.books.inside, hh.coalesced, fun p => ⟨fun hp => ?_, fun hp => ?_⟩⟩
  · have hlt := hh.inside p hp
    have hexact := hh.books.exact p hlt
    refine ⟨hlt, fun block hb hc => ?_⟩
    have hused := hexact.mpr ⟨block, hb, hc⟩
    simp [hp] at hused
  · have hexact := hh.books.exact p hp.1
    by_contra hno
    obtain ⟨block, hb, hc⟩ := hexact.mp (by simp [hno])
    exact hp.2 block hb hc

end FineGrainedAllocator

theorem allocator_sound (defaultChunkSize : ℕ) (s : FineGrainedAllocator)
    (hrun : Reach (· = FineGrainedAllocator.init defaultChunkSize)
      (Guarded FineGrainedAllocator.Fair FineGrainedAllocator.Step) s) :
    (∀ cb ∈ s.all, FineGrainedAllocator.ChunkSound s.live cb) ∧
      (∀ block ∈ s.live, ∃ cb ∈ s.all, cb.chunkId = block.chunkId) ∧
      ∀ e t, Guarded FineGrainedAllocator.Fair FineGrainedAllocator.Step s e t →
        t.returned = s.returned ++ FineGrainedAllocator.givenBack e t ∧
          ∀ id ∈ FineGrainedAllocator.givenBack e t, ∀ cb ∈ t.all, cb.chunkId ≠ id := by
  have hw : s.WF := by
    refine hrun.invariant (P := FineGrainedAllocator.WF) ?_ fun s e t hw ht => (hw.step ht).1
    rintro s rfl
    exact FineGrainedAllocator.wf_init defaultChunkSize
  exact ⟨fun cb hcb => hw.chunkSound hcb, hw.owner, fun e t ht => (hw.step ht).2⟩

/-- One chunk of 4096 bytes with the given free list and blocks. -/
def FineGrainedAllocator.oneChunk (freeList : List Run) (live : List Block) :
    FineGrainedAllocator :=
  { FineGrainedAllocator.init 4096 with
    dram := [⟨7, 0, 4096, .dram, none, freeList⟩]
    live := live }

/-- The first of two blocks of a chunk is freed, then the second, and the chunk is given back. -/
theorem allocator_sound_freed :
    let s := FineGrainedAllocator.oneChunk [⟨0, 100⟩, ⟨150, 3946⟩] [⟨7, 100, 50, 0, 4096⟩]
    (∀ cb ∈ s.all, FineGrainedAllocator.ChunkSound s.live cb) ∧
      (s.free ⟨7, 100, 50, 0, 4096⟩).returned = [7] := by
  intro s
  have hstart : Reach (· = FineGrainedAllocator.init 4096)
      (Guarded FineGrainedAllocator.Fair FineGrainedAllocator.Step)
      (FineGrainedAllocator.init 4096) := .start rfl
  have hone := hstart.next
    (AllocatorEvent.alloc 100 (some .dram) none fun _ => some ⟨7, 0, 4096⟩)
    (And.intro (And.intro (by decide) (by
      rintro desc ⟨⟩
      exact ⟨by decide, by decide, fun cb h => by cases h⟩)) rfl)
  have htwo := hone.next (AllocatorEvent.alloc 50 (some .dram) none fun _ => none)
    (And.intro (And.intro (by decide) (by rintro desc ⟨⟩)) rfl)
  have hfirst : (⟨7, 0, 100, 0, 4096⟩ : Block) ∈
      [(⟨7, 100, 50, 0, 4096⟩ : Block), ⟨7, 0, 100, 0, 4096⟩] := by decide
  have hback : giveBack ⟨0, 100⟩ [⟨150, 3946⟩] = [⟨0, 100⟩, ⟨150, 3946⟩] := by
    simp [giveBack, List.mergeSort, addRun]
  have hfree : (FineGrainedAllocator.oneChunk [⟨150, 3946⟩]
      [⟨7, 100, 50, 0, 4096⟩, ⟨7, 0, 100, 0, 4096⟩]).free ⟨7, 0, 100, 0, 4096⟩ = s := by
    simp [FineGrainedAllocator.free, FineGrainedAllocator.oneChunk, Chunks.get,
      FineGrainedAllocator.freeIn, ChunkBuffer.free, hback, ChunkBuffer.isFullyFree,
      FineGrainedAllocator.setChunks, FineGrainedAllocator.chunksOf, Chunks.put, s]
  have hfreed := htwo.next (AllocatorEvent.free ⟨7, 0, 100, 0, 4096⟩) (And.intro hfirst hfree.symm)
  obtain ⟨hsound, -, hgiven⟩ := allocator_sound 4096 s hfreed
  have hlast := hgiven (.free ⟨7, 100, 50, 0, 4096⟩) (s.free ⟨7, 100, 50, 0, 4096⟩)
    ⟨List.mem_singleton_self _, rfl⟩
  have hlive : (s.free ⟨7, 100, 50, 0, 4096⟩).live = [] :=
    (FineGrainedAllocator.live_freeIn s .dram _ _).trans (List.erase_cons_head _ _)
  refine ⟨hsound, hlast.1.trans ?_⟩
  rw [FineGrainedAllocator.givenBack_free, hlive]
  rfl

end Umm
