import Umm.Metadata.MetaRpcNaming

/-! Lists of chunks: the server asks the service for as many records as its own buffer holds,
whatever the caller has room for. -/
namespace Umm
open Umm.Lib Proto MetaRpcServer MetaRpcClient

section Direct

variable {N : Type}

/-- The record of the chunk when it is valid and lies on the node. -/
def chunkOnNode (ctx : MetaServiceCtx N) (node : UInt8) (cid : ℕ) : Option ChunkMetadata :=
  (findChunkById ctx cid).bind fun ce =>
    if gpaToNode ce.info.gpa = node.toNat then some ce.info else none

/-- All valid chunks of the node, by identifier. -/
def chunksOfNode (ctx : MetaServiceCtx N) (node : UInt8) : List ChunkMetadata :=
  (List.range' 1 (ctx.nextChunkId - 1)).filterMap (chunkOnNode ctx node)

theorem listChunksLoop_eq (ctx : MetaServiceCtx N) (node : UInt8) :
    ∀ r cid room, listChunksLoop ctx node r cid room =
      ((List.range' cid r).filterMap (chunkOnNode ctx node)).take room := by
  intro r
  induction r with
  | zero =>
    intro cid room
    simp [listChunksLoop]
  | succ r ih =>
    intro cid room
    rw [List.range'_succ]
    cases room with
    | zero => simp [listChunksLoop]
    | succ room =>
      unfold listChunksLoop
      cases hf : findChunkById ctx cid with
      | none =>
        have hnone : chunkOnNode ctx node cid = none := by simp [chunkOnNode, hf]
        rw [List.filterMap_cons_none hnone]
        exact ih (cid + 1) (room + 1)
      | some ce =>
        dsimp only
        by_cases hn : gpaToNode ce.info.gpa = node.toNat
        · have hsome : chunkOnNode ctx node cid = some ce.info := by simp [chunkOnNode, hf, hn]
          rw [if_pos hn, List.filterMap_cons_some hsome, List.take_succ_cons, ih]
        · have hnone : chunkOnNode ctx node cid = none := by simp [chunkOnNode, hf, hn]
          rw [if_neg hn, List.filterMap_cons_none hnone]
          exact ih (cid + 1) (room + 1)

/-- The direct service lists the first `maxOut` chunks of the node. -/
theorem implListChunksByNode_eq (ctx : MetaServiceCtx N) (node : UInt8) (maxOut : UInt32)
    (wanted : Bool) :
    implListChunksByNode ctx node maxOut wanted =
      (min maxOut.toNat (chunksOfNode ctx node).length,
        if wanted then (chunksOfNode ctx node).take maxOut.toNat else []) := by
  unfold implListChunksByNode
  rw [listChunksLoop_eq]
  simp [chunksOfNode]

end Direct

section Rpc

variable {ctx : Directory} {stack : List UInt8}

theorem chunksOfNode_fits (h : ctx.NamesFit) (node : UInt8) :
    ∀ info ∈ chunksOfNode ctx node, info.NameFits := by
  intro info hinfo
  obtain ⟨cid, -, hc⟩ := List.mem_filterMap.mp hinfo
  obtain ⟨ce, hf, hce⟩ := Option.bind_eq_some_iff.mp hc
  split_ifs at hce
  obtain rfl := Option.some.inj hce
  exact h.found hf

/-- The protocol lists the first `maxCount` of the first 32 chunks of the node. -/
theorem metaRpcListChunksByNode_served (h : ctx.NamesFit) (node : UInt8) (maxCount : UInt32)
    (wanted : Bool) :
    metaRpcListChunksByNode (metaPeer directVtbl stack) ctx node maxCount wanted =
      some (.ok (min (min 32 (chunksOfNode ctx node).length) maxCount.toNat,
        if wanted then (((chunksOfNode ctx node).take 32).map ChunkMetadata.wire).take maxCount.toNat
        else []), ctx) := by
  set metas := ((chunksOfNode ctx node).take 32).map ChunkMetadata.wire with hmetas
  have hlen : metas.length = min 32 (chunksOfNode ctx node).length := by simp [hmetas]
  have hvalid : ∀ m ∈ metas, ValidName m.name := by
    intro m hm
    obtain ⟨info, hinfo, rfl⟩ := List.mem_map.mp hm
    have hfits := chunksOfNode_fits h node info (List.mem_of_mem_take hinfo)
    exact hfits
  obtain ⟨body, hpack, hunpack⟩ := metaListChunks_back node
  obtain ⟨reply, hrpack, hrunpack⟩ := list_cut (by omega) hvalid
  have hlist : directVtbl.listChunksByNode ctx node listBufferSize true = .ok (_, metas) :=
    congrArg (fun r : ℕ × List ChunkMetadata => Except.ok (r.1, r.2.map ChunkMetadata.wire))
      (implListChunksByNode_eq ctx node listBufferSize true)
  have hop : handleOp directVtbl stack ctx .listChunksByNode body = some (reply, ctx) := by
    simp only [handleOp, hunpack, hlist, hrpack]
    rfl
  rw [metaRpcListChunksByNode, doRpc_served hpack (packBody_cleared hpack).1
    (packBody_cleared hrpack).1 hop, hrunpack, hlen]
  rfl

end Rpc

/-- The list over the protocol has the status, the count and the records of the direct list. -/
def ListingAgrees (stack : List UInt8) (node : UInt8) (maxCount : UInt32) (wanted : Bool)
    (ctx : Directory) : Prop :=
  metaRpcListChunksByNode (metaPeer directVtbl stack) ctx node maxCount wanted =
    some (withCode (directVtbl.listChunksByNode ctx node maxCount wanted), ctx)

/-- In every state of the directory the lists agree exactly when 32 records suffice. -/
theorem metaRpc_listing_iff (stack : List UInt8) (node : UInt8) (maxCount : UInt32)
    (wanted : Bool) {ctx : Directory} (h : Reach MetaInit MetaStep ctx) :
    ListingAgrees stack node maxCount wanted ctx ↔
      maxCount.toNat ≤ 32 ∨ (chunksOfNode ctx node).length ≤ 32 := by
  have hdirect : directVtbl.listChunksByNode ctx node maxCount wanted =
      .ok (min maxCount.toNat (chunksOfNode ctx node).length,
        if wanted then ((chunksOfNode ctx node).take maxCount.toNat).map ChunkMetadata.wire
        else []) := by
    have := implListChunksByNode_eq ctx node maxCount wanted
    cases wanted <;> simp [metaVtbl, this]
  unfold ListingAgrees
  rw [metaRpcListChunksByNode_served (metaRun_namesFit h), hdirect, withCode_ok]
  simp only [Option.some.injEq, Prod.mk.injEq, Except.ok.injEq, and_true]
  constructor
  · rintro ⟨hcount, -⟩
    omega
  · intro hle
    refine ⟨by omega, ?_⟩
    rw [List.map_take, List.map_take, List.take_take]
    rcases hle with hle | hle
    · rw [Nat.min_eq_left hle]
    · have hall : ((chunksOfNode ctx node).map ChunkMetadata.wire).length ≤ 32 := by simpa using hle
      rw [← List.take_take, List.take_of_length_le hall]

/-- Register chunks of one page under these names, one page after the other. -/
def registerPages (ctx : Directory) (names : List CString) (gpa : UInt64) : Option Directory :=
  match names with
  | [] => some ctx
  | name :: names =>
    (implRegisterChunk ctx name gpa.toNat (4096 : UInt64).toNat).bind fun r =>
      registerPages r.2 names (gpa + 4096)

theorem registerPages_reach :
    ∀ names gpa (ctx ctx' : Directory), Reach MetaInit MetaStep ctx →
      registerPages ctx names gpa = some ctx' → Reach MetaInit MetaStep ctx' := by
  intro names
  induction names with
  | nil =>
    intro gpa ctx ctx' h hr
    obtain rfl := Option.some.inj hr
    exact h
  | cons name names ih =>
    intro gpa ctx ctx' h hr
    obtain ⟨r, hreg, hr⟩ := Option.bind_eq_some_iff.mp hr
    exact ih _ r.2 ctx' (.next (.register name gpa 4096) h (.register hreg)) hr

/-- 33 chunks on node 0, and a caller with room for 33: one is not listed. -/
theorem metaRpc_not_listing :
    ∃ ctx, Reach MetaInit MetaStep ctx ∧ (chunksOfNode ctx 0).length = 33 ∧
      ¬ ListingAgrees [] 0 33 true ctx := by
  have hrun : (registerPages firstDirectory
      ((List.range 33).map fun i => CString.ofBytes [UInt8.ofNat (i + 1)]) 0).map
        (fun ctx => (chunksOfNode ctx 0).length) = some 33 := by
    decide +kernel
  obtain ⟨ctx, hctx, hlen⟩ := Option.map_eq_some_iff.mp hrun
  have hreach := registerPages_reach _ _ _ _ (.start metaInit_first) hctx
  refine ⟨ctx, hreach, hlen, fun hagree => ?_⟩
  have hcount : (33 : UInt32).toNat = 33 := rfl
  unfold ListingAgrees at hagree
  rw [metaRpcListChunksByNode_served (metaRun_namesFit hreach), hlen, hcount] at hagree
  have hdirect := implListChunksByNode_eq ctx 0 33 true
  rw [hlen, hcount] at hdirect
  simp [metaVtbl, hdirect] at hagree

/-- Three chunks on node 0, two on node 1: the list is cut where the caller asks for it. -/
theorem metaRpc_listing_three_chunks :
    ∃ ctx, Reach MetaInit MetaStep ctx ∧ (chunksOfNode ctx 0).length = 3 ∧
      (chunksOfNode ctx 1).length = 2 ∧ ListingAgrees [] 0 2 true ctx ∧
      ListingAgrees [] 0 33 true ctx := by
  have hrun : ((registerPages firstDirectory
      ((List.range 3).map fun i => CString.ofBytes [UInt8.ofNat (i + 1)]) 0).bind fun ctx =>
        registerPages ctx
          ((List.range 2).map fun i => CString.ofBytes [UInt8.ofNat (i + 9)]) (2 ^ 58)).map
        (fun ctx => ((chunksOfNode ctx 0).length, (chunksOfNode ctx 1).length)) = some (3, 2) := by
    decide +kernel
  obtain ⟨ctx, hctx, hlen⟩ := Option.map_eq_some_iff.mp hrun
  obtain ⟨ctx', hctx', hmore⟩ := Option.bind_eq_some_iff.mp hctx
  obtain ⟨hzero, hone⟩ := Prod.mk.inj hlen
  have hreach := registerPages_reach _ _ _ _
    (registerPages_reach _ _ _ _ (.start metaInit_first) hctx') hmore
  refine ⟨ctx, hreach, hzero, hone, ?_, ?_⟩
  · exact (metaRpc_listing_iff [] 0 2 true hreach).mpr (.inl (by decide))
  · refine (metaRpc_listing_iff [] 0 33 true hreach).mpr (.inr ?_)
    rw [hzero]
    decide

end Umm
