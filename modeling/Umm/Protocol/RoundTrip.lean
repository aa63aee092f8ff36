import Umm.Protocol.Wire

/-! Decoding undoes encoding, for every message of the two protocols. -/
namespace Umm.Proto
open Umm.Lib Umm.Lib.Decoder

@[simp] theorem length_packStorageResource (r : StorageResource) :
    (packStorageResource r).length = storageResourceSerializedSize := by
  simp [packStorageResource, storageResourceSerializedSize]

@[simp] theorem length_packChunkMeta (m : ChunkMetadata) :
    (packChunkMeta m).length = chunkMetaSerializedSize := by
  simp [packChunkMeta, chunkMetaSerializedSize]

/-- What a message carries of a resource: a path that has its NUL or fills the array, and a byte of
the flag. -/
structure StorageResource.Carried (r : StorageResource) : Prop where
  path_le : r.devicePath.length ≤ 256
  online_byte : r.online.toUInt32.toUInt8.toUInt32.toInt32 = r.online

theorem StorageResource.Valid.carried {r : StorageResource} (h : r.Valid) : r.Carried where
  path_le := h.path_le.trans (by norm_num)
  online_byte := by
    rcases h.online_bool with h | h <;> rw [h] <;> decide

/-- Whatever the bytes are, what is read from them can be sent again. -/
theorem unpackStorageResource_carried (data : List UInt8) :
    (unpackStorageResource data).1.Carried where
  path_le := by
    have htake : (bytes 256 (protoReadU8 data).2).1.length ≤ 256 := List.length_take_le 256 _
    exact (List.takeWhile_prefix _).length_le.trans htake
  online_byte := by
    have hbyte : ∀ b : UInt8,
        b.toUInt32.toInt32.toUInt32.toUInt8.toUInt32.toInt32 = b.toUInt32.toInt32 := by
      intro b
      rw [UInt32.toUInt32_toInt32, UInt8.toUInt8_toUInt32]
    exact hbyte _

theorem decodes_storageResource {r : StorageResource} (h : r.Carried) :
    unpackStorageResource.Decodes (packStorageResource r) r := by
  have hd : unpackStorageResource.Decodes (packStorageResource r)
      { r with online := r.online.toUInt32.toUInt8.toUInt32.toInt32 } :=
    (decodes_u8 _).bind <| (decodes_str h.path_le).bind <| (decodes_u64 _).bind <|
      (decodes_u64 _).bind <| (decodes_u8 _).bind <| .pure _
  rwa [h.online_byte] at hd

theorem decodes_chunkMeta {m : ChunkMetadata} (h : ValidName m.name) :
    unpackChunkMeta.Decodes (packChunkMeta m) m := by
  have hname : m.name.length ≤ 64 := Nat.le_trans h (by norm_num)
  exact (decodes_u64 _).bind <| (decodes_str hname).bind <| (decodes_u64 _).bind <|
    (decodes_u64 _).bind <| .pure _

section Topology

variable {topo : StorageTopology}

/-- The twelve bytes before the resources. -/
def topologyHeader (topo : StorageTopology) : List UInt8 :=
  [protoWriteI32 0, protoWriteU32 topo.nodeId.toUInt32,
    protoWriteU32 (UInt32.ofNat topo.resources.length)].flatten

@[simp] theorem length_topologyHeader (topo : StorageTopology) :
    (topologyHeader topo).length = 12 := by
  simp [topologyHeader]

theorem length_flatMap_packStorageResource (resources : List StorageResource) :
    (resources.flatMap packStorageResource).length = resources.length * 274 := by
  simp [List.length_flatMap, storageResourceSerializedSize]

theorem decodes_topologyHeader (topo : StorageTopology) :
    readTopologyHeader.Decodes (topologyHeader topo)
      (0, topo.nodeId.toUInt32, UInt32.ofNat topo.resources.length) :=
  (decodes_i32 _).bind <| (decodes_u32 _).bind <| (decodes_u32 _).bind <| .pure _

theorem decodes_topology (h : ∀ r ∈ topo.resources, r.Carried) :
    (readTopology topo.resources.length).Decodes
      (topologyHeader topo ++ topo.resources.flatMap packStorageResource) topo := by
  have hmany := Decodes.many topo.resources fun r hr => decodes_storageResource (h r hr)
  have hd : (readTopology topo.resources.length).Decodes
      (topologyHeader topo ++ topo.resources.flatMap packStorageResource)
      ⟨topo.nodeId.toUInt32.toUInt8, topo.resources⟩ :=
    (decodes_topologyHeader topo).bind (hmany.map _)
  rwa [UInt8.toUInt8_toUInt32] at hd

/-- A topology that fits is packed whole. -/
theorem packTopology_ok (h : topo.resources.length ≤ 14) :
    ∃ body rest, packTopology topo = some body ∧
      body.len.toNat = 12 + topo.resources.length * 274 ∧
      body.data = topologyHeader topo ++ topo.resources.flatMap packStorageResource ++ rest := by
  have htake : topo.resources.take topologyMaxFit = topo.resources := List.take_of_length_le h
  have hflat : [protoWriteI32 0, protoWriteU32 topo.nodeId.toUInt32,
      protoWriteU32 (UInt32.ofNat topo.resources.length),
      topo.resources.flatMap packStorageResource].flatten =
      topologyHeader topo ++ topo.resources.flatMap packStorageResource := by
    simp [topologyHeader]
  have hlen : (topologyHeader topo ++ topo.resources.flatMap packStorageResource).length =
      12 + topo.resources.length * 274 := by
    rw [List.length_append, length_topologyHeader, length_flatMap_packStorageResource]
  have hfit : 12 + topo.resources.length * 274 ≤ ummProtoMaxBody := by
    unfold ummProtoMaxBody
    omega
  obtain ⟨body, rest, hpack, hblen, hdata⟩ := packBody_ok (by rwa [hflat, hlen])
  refine ⟨body, rest, ?_, by rw [hblen, hflat, hlen], by rw [hdata, hflat]⟩
  rw [packTopology, htake]
  exact hpack

/-- The checks of the two unpackers on such a body, and what they read. -/
private theorem topology_reads {body : UmmProtoBody} {rest : List UInt8}
    (h : topo.resources.length ≤ 14) (hv : ∀ r ∈ topo.resources, r.Carried)
    (hlen : body.len.toNat = 12 + topo.resources.length * 274)
    (hdata : body.data =
      topologyHeader topo ++ topo.resources.flatMap packStorageResource ++ rest) :
    (readTopologyHeader body.data).1 =
        (0, topo.nodeId.toUInt32, UInt32.ofNat topo.resources.length) ∧
      (UInt32.ofNat topo.resources.length).toNat = topo.resources.length ∧
      topologyAvail body = topo.resources.length ∧
      (readTopology topo.resources.length body.data).1 = topo := by
  refine ⟨?_, UInt32.toNat_ofNat_of_lt (h.trans_lt (by norm_num)), ?_, ?_⟩
  · rw [hdata, List.append_assoc, (decodes_topologyHeader topo).run]
  · rw [topologyAvail, hlen, storageTopologyHeaderSize, storageResourceSerializedSize]
    omega
  · rw [hdata, (decodes_topology hv).run]

theorem memTopology_back (h : topo.resources.length ≤ 14)
    (hv : ∀ r ∈ topo.resources, r.Carried) :
    ∃ body, (memPackGetTopologyResp topo).toOption.join = some body ∧
      memUnpackGetTopologyResp body = .ok topo := by
  obtain ⟨body, rest, hpack, hlen, hdata⟩ := packTopology_ok h
  obtain ⟨hheader, hcount, havail, hread⟩ := topology_reads h hv hlen hdata
  have hmax : ¬ ummMaxTopologyResources < topo.resources.length := by
    unfold ummMaxTopologyResources
    omega
  refine ⟨body, ?_, ?_⟩
  · rw [memPackGetTopologyResp, if_neg hmax, hpack]
    rfl
  · have hlong : ¬ body.len.toNat < storageTopologyHeaderSize := by
      rw [hlen, storageTopologyHeaderSize]
      omega
    simp only [memUnpackGetTopologyResp, if_neg hlong, hheader, hcount, havail, hread, ne_eq,
      not_true_eq_false, if_false, Nat.lt_irrefl, hmax, or_self]

theorem metaTopology_back (h : topo.resources.length ≤ 4)
    (hv : ∀ r ∈ topo.resources, r.Carried) :
    ∃ body, metaPackGetStorageTopologyResp topo = some body ∧
      metaUnpackGetStorageTopologyResp body = .ok topo := by
  have h14 : topo.resources.length ≤ 14 := h.trans (by norm_num)
  obtain ⟨body, rest, hpack, hlen, hdata⟩ := packTopology_ok h14
  obtain ⟨hheader, hcount, havail, hread⟩ := topology_reads h14 hv hlen hdata
  have hlong : ¬ body.len.toNat < storageTopologyHeaderSize := by
    rw [hlen, storageTopologyHeaderSize]
    omega
  have hcut : min topo.resources.length ummNumTiers = topo.resources.length := min_eq_left h
  refine ⟨body, hpack, ?_⟩
  simp only [metaUnpackGetStorageTopologyResp, if_neg hlong, hheader, hcount, havail, min_self,
    hcut, hread, ne_eq, not_true_eq_false, if_false]

end Topology

section ChunkList

variable {metas : List ChunkMetadata}

/-- The eight bytes before the records. -/
def listHeader (metas : List ChunkMetadata) : List UInt8 :=
  [protoWriteI32 0, protoWriteU32 (UInt32.ofNat metas.length)].flatten

@[simp] theorem length_listHeader (metas : List ChunkMetadata) :
    (listHeader metas).length = 8 := by
  simp [listHeader]

theorem length_flatMap_packChunkMeta (metas : List ChunkMetadata) :
    (metas.flatMap packChunkMeta).length = metas.length * 88 := by
  simp [List.length_flatMap, chunkMetaSerializedSize]

theorem decodes_listHeader (metas : List ChunkMetadata) :
    readListHeader.Decodes (listHeader metas) (0, UInt32.ofNat metas.length) :=
  (decodes_i32 _).bind <| (decodes_u32 _).bind <| .pure _

/-- The first `k` records behind the header of a longer list. -/
theorem decodes_list_take (h : ∀ m ∈ metas, ValidName m.name) {k : ℕ} (hk : k ≤ metas.length) :
    (readList k).Decodes (listHeader metas ++ (metas.take k).flatMap packChunkMeta)
      (metas.take k) := by
  have hmany := Decodes.many (metas.take k) fun m hm =>
    decodes_chunkMeta (h m (List.mem_of_mem_take hm))
  rw [List.length_take, Nat.min_eq_left hk] at hmany
  exact (decodes_listHeader metas).bind hmany

/-- A list that fits comes back, cut to what the caller has room for. -/
theorem list_cut (h : metas.length ≤ 46) (hv : ∀ m ∈ metas, ValidName m.name) :
    ∃ body, metaPackListChunksResp metas = some body ∧ ∀ maxCount wanted,
      metaUnpackListChunksResp maxCount wanted body =
        .ok (min metas.length maxCount.toNat,
          if wanted then metas.take maxCount.toNat else []) := by
  have htake : metas.take chunkMetaMaxFit = metas := List.take_of_length_le h
  have hflat : [protoWriteI32 0, protoWriteU32 (UInt32.ofNat metas.length),
      metas.flatMap packChunkMeta].flatten = listHeader metas ++ metas.flatMap packChunkMeta := by
    simp [listHeader]
  have hlen : (listHeader metas ++ metas.flatMap packChunkMeta).length = 8 + metas.length * 88 := by
    rw [List.length_append, length_listHeader, length_flatMap_packChunkMeta]
  have hfit : 8 + metas.length * 88 ≤ ummProtoMaxBody := by
    unfold ummProtoMaxBody
    omega
  obtain ⟨body, rest, hpack, hblen, hdata⟩ := packBody_ok (by rwa [hflat, hlen])
  rw [hflat] at hblen hdata
  have hheader : (readListHeader body.data).1 = (0, UInt32.ofNat metas.length) := by
    rw [hdata, List.append_assoc, (decodes_listHeader metas).run]
  have hread : ∀ k ≤ metas.length, (readList k body.data).1 = metas.take k := by
    intro k hk
    have hsplit : metas.flatMap packChunkMeta =
        (metas.take k).flatMap packChunkMeta ++ (metas.drop k).flatMap packChunkMeta := by
      rw [← List.flatMap_append, List.take_append_drop]
    rw [hdata, hsplit, ← List.append_assoc, List.append_assoc _ _ rest,
      (decodes_list_take hv hk).run]
  have hcount : (UInt32.ofNat metas.length).toNat = metas.length :=
    UInt32.toNat_ofNat_of_lt (h.trans_lt (by norm_num))
  have havail : (body.len.toNat - 8) / chunkMetaSerializedSize = metas.length := by
    rw [hblen, hlen, chunkMetaSerializedSize]
    omega
  have hlong : ¬ body.len.toNat < 8 := by omega
  refine ⟨body, ?_, fun maxCount wanted => ?_⟩
  · rw [metaPackListChunksResp, htake]
    exact hpack
  · have hmin : min (min metas.length maxCount.toNat) metas.length =
        min metas.length maxCount.toNat := min_eq_left (min_le_left _ _)
    have hcut : metas.take (min metas.length maxCount.toNat) = metas.take maxCount.toNat := by
      rw [Nat.min_comm]
      exact (List.take_eq_take_min ..).symm
    simp only [metaUnpackListChunksResp, if_neg hlong, hheader, hcount, havail, hmin,
      hread _ (min_le_left _ _), hcut, ne_eq, not_true_eq_false, if_false]

theorem list_back {maxCount : UInt32} (h : metas.length ≤ 46) (hroom : metas.length ≤ maxCount.toNat)
    (hv : ∀ m ∈ metas, ValidName m.name) :
    ∃ body, metaPackListChunksResp metas = some body ∧
      metaUnpackListChunksResp maxCount true body = .ok (metas.length, metas) := by
  obtain ⟨body, hpack, hunpack⟩ := list_cut h hv
  refine ⟨body, hpack, ?_⟩
  rw [hunpack, min_eq_left hroom, if_pos rfl, List.take_of_length_le hroom]

end ChunkList

theorem memAlloc_back (req : MemAllocReq) :
    ∃ body, memPackAlloc req = some body ∧ memUnpackAlloc body = .ok req :=
  unpack_pack ((decodes_u64 _).bind <| (decodes_u32 _).bind <| .pure _) (by simp)
    (by simp [ummProtoMaxBody])

theorem memAllocResp_back (resp : MemAllocResp) :
    ∃ body, packAllocResp resp = some body ∧ memUnpackAllocResp body = .ok resp :=
  unpack_pack ((decodes_i32 _).bind <| (decodes_u64 _).bind <| .pure _) (by simp)
    (by simp [ummProtoMaxBody])

theorem memFree_back (req : MemFreeReq) :
    ∃ body, memPackFree req = some body ∧ memUnpackFree body = .ok req :=
  unpack_pack ((decodes_u64 _).bind <| (decodes_u64 _).bind <| .pure _) (by simp)
    (by simp [ummProtoMaxBody])

theorem memFreeResp_back (resp : MemFreeResp) :
    ∃ body, packFreeResp resp = some body ∧ memUnpackFreeResp body = .ok resp :=
  unpack_pack ((decodes_i32 _).bind <| .pure _) (by simp)
    (by simp [ummProtoMaxBody])

/-- The status as the clients read it that do not unpack the reply. -/
theorem memFreeResp_status {status : Int32} {body : UmmProtoBody}
    (h : packFreeResp ⟨status⟩ = some body) :
    4 ≤ body.len.toNat ∧ (protoReadI32 body.data).1 = status := by
  obtain ⟨body', hpack, hunpack⟩ := memFreeResp_back ⟨status⟩
  obtain rfl := Option.some.inj (h.symm.trans hpack)
  unfold memUnpackFreeResp unpackAtLeast at hunpack
  split_ifs at hunpack with hlt
  exact ⟨Nat.not_lt.mp hlt, congrArg MemFreeResp.status (Except.ok.inj hunpack)⟩

theorem memStatsResp_back (resp : MemStatsResp) :
    ∃ body, packStatsResp resp = some body ∧ memUnpackStatsResp body = .ok resp :=
  unpack_pack ((decodes_u64 _).bind <| (decodes_u64 _).bind <| (decodes_u64 _).bind <| .pure _) (by simp)
    (by simp [ummProtoMaxBody])

theorem memAllocTiered_back (req : MemAllocTieredReq) :
    ∃ body, memPackAllocTiered req = some body ∧ memUnpackAllocTiered body = .ok req :=
  unpack_pack ((decodes_u8 _).bind <| (decodes_u64 _).bind <| (decodes_u32 _).bind <| .pure _) (by simp)
    (by simp [ummProtoMaxBody])

theorem memFreeTiered_back (req : MemFreeTieredReq) :
    ∃ body, memPackFreeTiered req = some body ∧ memUnpackFreeTiered body = .ok req :=
  unpack_pack ((decodes_u8 _).bind <| (decodes_u64 _).bind <| (decodes_u64 _).bind <| .pure _) (by simp)
    (by simp [ummProtoMaxBody])

theorem memGetTierStats_back (req : MemGetTierStatsReq) :
    ∃ body, memPackGetTierStats req = some body ∧ memUnpackGetTierStats body = .ok req :=
  unpack_pack ((decodes_u8 _).bind <| .pure _) (by simp)
    (by simp [ummProtoMaxBody])

theorem memDataReq_back (req : MemDataReq) :
    ∃ body, memPackDataReq req = some body ∧ memUnpackDataReq body = .ok req :=
  unpack_pack ((decodes_u64 _).bind <| (decodes_u64 _).bind <| .pure _) (by simp)
    (by simp [ummProtoMaxBody])

theorem memDataReadResp_back (resp : MemDataReadResp) :
    ∃ body, packDataReadResp resp = some body ∧ memUnpackDataReadResp body = .ok resp :=
  unpack_pack ((decodes_i32 _).bind <| (decodes_u64 _).bind <| .pure _) (by simp)
    (by simp [ummProtoMaxBody])

theorem metaRegisterChunk_back {req : MetaRegisterChunkReq} (h : ValidName req.name) :
    ∃ body, metaPackRegisterChunk req = some body ∧ metaUnpackRegisterChunk body = .ok req := by
  have hname : req.name.length ≤ 64 := Nat.le_trans h (by norm_num)
  exact unpack_pack ((decodes_str hname).bind <| (decodes_u64 _).bind <|
    (decodes_u64 _).bind <| .pure _) (by simp)
    (by simp [ummProtoMaxBody])

theorem metaLookupChunk_back {req : MetaLookupChunkReq} (h : ValidName req.name) :
    ∃ body, metaPackLookupChunk req = some body ∧ metaUnpackLookupChunk body = .ok req := by
  have hname : req.name.length ≤ 64 := Nat.le_trans h (by norm_num)
  exact unpack_pack ((decodes_str hname).bind <| .pure _) (by simp)
    (by simp [ummProtoMaxBody])

theorem metaRegisterChunkResp_back (resp : MetaRegisterChunkResp) :
    ∃ body, packRegisterChunkResp resp = some body ∧ metaUnpackRegisterChunkResp body = .ok resp :=
  unpack_pack ((decodes_i32 _).bind <| (decodes_u64 _).bind <| .pure _) (by simp)
    (by simp [ummProtoMaxBody])

theorem refResp_back (resp : MetaRefResp) :
    ∃ body, packRefResp resp = some body ∧ unpackRefResp body = .ok resp :=
  unpack_pack ((decodes_i32 _).bind <| (decodes_u32 _).bind <| .pure _) (by simp)
    (by simp [ummProtoMaxBody])

theorem chunkId_back (chunkId : UInt64) :
    ∃ body, packChunkId chunkId = some body ∧ unpackChunkId body = .ok chunkId := by
  apply unpack_pack
  · simpa using decodes_u64 chunkId
  · simp
  · simp [ummProtoMaxBody]

theorem status_back (status : Int32) :
    ∃ body, packStatusBody status = some body ∧
      metaUnpackUnregisterChunkResp body = .ok status := by
  apply unpack_pack
  · simpa using decodes_i32 status
  · simp
  · simp [ummProtoMaxBody]

theorem metaListChunks_back (node : UInt8) :
    ∃ body, metaPackListChunks node = some body ∧ metaUnpackListChunks body = .ok node := by
  have hnode := (decodes_u32 node.toUInt32).map UInt32.toUInt8
  rw [UInt8.toUInt8_toUInt32] at hnode
  apply unpack_pack
  · simpa using hnode
  · simp
  · simp [ummProtoMaxBody]

theorem metaGetStorageTopology_back (node : UInt8) :
    ∃ body, metaPackGetStorageTopology node = some body ∧
      metaUnpackGetStorageTopology body = .ok node.toUInt32 := by
  apply unpack_pack
  · simpa using decodes_u32 node.toUInt32
  · simp
  · simp [ummProtoMaxBody]

theorem lookupResp_back {resp : MetaLookupChunkResp} (h : ValidName resp.chunk.name) :
    ∃ body, packLookupChunkResp resp = some body ∧ unpackLookupResp body = .ok resp :=
  unpack_pack ((decodes_i32 _).bind <| (decodes_chunkMeta h).bind <| .pure _)
    (by simp [chunkMetaSerializedSize]) (by simp [chunkMetaSerializedSize, ummProtoMaxBody])

theorem memRegisterStorage_back {res : StorageResource} (h : res.Valid) :
    ∃ body, memPackRegisterStorage res = some body ∧ memUnpackRegisterStorage body = .ok res := by
  apply unpack_pack
  · simpa using decodes_storageResource h.carried
  · simp
  · simp [storageResourceSerializedSize, ummProtoMaxBody]

theorem metaRegisterStorageResource_back (node : UInt8) {res : StorageResource} (h : res.Valid) :
    ∃ body, metaPackRegisterStorageResource node res = some body ∧
      metaUnpackRegisterStorageResource body = .ok ⟨node.toUInt32, res⟩ :=
  unpack_pack ((decodes_u32 _).bind <| (decodes_storageResource h.carried).bind <| .pure _)
    (by simp [storageResourceSerializedSize])
    (by simp [storageResourceSerializedSize, ummProtoMaxBody])

/-- The request whose length is checked for equality. -/
theorem memAllocOnDevice_back (req : MemAllocOnDeviceReq) :
    ∃ body, memPackAllocOnDevice req = some body ∧ memUnpackAllocOnDevice body = .ok req := by
  have hfit : [protoWriteU8 req.tier, protoWriteU32 req.deviceIdx, protoWriteU64 req.size,
      protoWriteU32 req.flags].flatten.length = 17 := by simp
  obtain ⟨body, rest, hpack, hlen, hdata⟩ := packBody_ok (hfit.trans_le (by simp [ummProtoMaxBody]))
  have hlong : ¬ body.len.toNat ≠ 17 := not_not.mpr (hlen.trans hfit)
  refine ⟨body, hpack, ?_⟩
  rw [memUnpackAllocOnDevice, if_neg hlong]
  exact unpackAtLeast_ok hlen hdata ((decodes_u8 _).bind <| (decodes_u32 _).bind <|
    (decodes_u64 _).bind <| (decodes_u32 _).bind <| .pure _) hfit.ge

section AllocTieredResp

variable (resp : MemAllocTieredResp) (owner : UInt8)

theorem decodes_allocTieredResp :
    readAllocTieredResp.Decodes (protoWriteI32 resp.status ++ protoWriteU64 resp.offset) resp :=
  (decodes_i32 _).bind <| (decodes_u64 _).map _

private theorem packAllocResp2_ok : ∃ body rest, packAllocResp2 resp owner = some body ∧
    body.len.toNat = 13 ∧
    body.data = protoWriteI32 resp.status ++ protoWriteU64 resp.offset ++ [owner] ++ rest := by
  have hfit : [protoWriteI32 resp.status, protoWriteU64 resp.offset,
      protoWriteU8 owner].flatten.length = 13 := by simp
  obtain ⟨body, rest, hpack, hlen, hdata⟩ := packBody_ok (hfit.trans_le (by simp [ummProtoMaxBody]))
  refine ⟨body, rest, hpack, hlen.trans hfit, ?_⟩
  simpa [protoWriteU8] using hdata

/-- The older reader leaves the owner in the message. -/
theorem memAllocTieredResp_back : ∃ body, packAllocResp2 resp owner = some body ∧
    memUnpackAllocTieredResp body = .ok resp := by
  obtain ⟨body, rest, hpack, hlen, hdata⟩ := packAllocResp2_ok resp owner
  refine ⟨body, hpack, ?_⟩
  rw [List.append_assoc] at hdata
  rw [memUnpackAllocTieredResp, unpackAtLeast, if_neg (by omega), hdata,
    (decodes_allocTieredResp resp).run]

theorem memAllocTieredResp2_back : ∃ body, packAllocResp2 resp owner = some body ∧
    memUnpackAllocTieredResp2 body = .ok (resp, owner) := by
  obtain ⟨body, rest, hpack, hlen, hdata⟩ := packAllocResp2_ok resp owner
  refine ⟨body, hpack, ?_⟩
  rw [memUnpackAllocTieredResp2, if_pos hlen.ge]
  exact unpackAtLeast_ok (by simp [hlen]) hdata
    ((decodes_allocTieredResp resp).bind <| (decodes_u8 owner).map _) (by simp)

end AllocTieredResp

theorem memGetTopology_back (start : UInt32) :
    ∃ body, memPackGetTopology start = some body ∧ memReadTopologyStart body = .ok start := by
  by_cases h : start = 0
  · have hfit : ([] : List (List UInt8)).flatten.length ≤ ummProtoMaxBody := Nat.zero_le _
    obtain ⟨body, _, hpack, hlen, _⟩ := packBody_ok hfit
    have hzero : body.len.toNat = 0 := hlen
    refine ⟨body, by rw [memPackGetTopology, if_pos h, packEmpty, hpack], ?_⟩
    rw [memReadTopologyStart, if_pos hzero, h]
  · have hfit : [protoWriteU32 start].flatten.length ≤ ummProtoMaxBody := by simp [ummProtoMaxBody]
    obtain ⟨body, rest, hpack, hlen, hdata⟩ := packBody_ok hfit
    have hfour : body.len.toNat = 4 := by simpa using hlen
    have hread : (protoReadU32 body.data).1 = start := by
      rw [hdata, List.flatten_singleton, (decodes_u32 start).run]
    refine ⟨body, by rw [memPackGetTopology, if_neg h, hpack], ?_⟩
    simp [memReadTopologyStart, hfour, hread]

/-- Every message comes back as it was packed, and no packer leaves the body. -/
theorem wireMessage_roundTrip (m : WireMessage) (h : m.Valid) :
    ∃ body, m.pack = some body ∧ m.kind.unpack body = .ok m.out := by
  cases m with
  | memAlloc req => exact memAlloc_back req
  | memAllocResp resp => exact memAllocResp_back resp
  | memFree req => exact memFree_back req
  | memFreeResp resp => exact memFreeResp_back resp
  | memStatsResp resp => exact memStatsResp_back resp
  | memAllocOnDevice req => exact memAllocOnDevice_back req
  | memAllocTiered req => exact memAllocTiered_back req
  | memAllocTieredResp resp owner => exact memAllocTieredResp_back resp owner
  | memAllocTieredResp2 resp owner => exact memAllocTieredResp2_back resp owner
  | memFreeTiered req => exact memFreeTiered_back req
  | memGetTierStats req => exact memGetTierStats_back req
  | memRegisterStorage res => exact memRegisterStorage_back h
  | memGetTopology start => exact memGetTopology_back start
  | memGetTopologyResp topo => exact memTopology_back h.1 fun r hr => (h.2 r hr).carried
  | memDataReq req => exact memDataReq_back req
  | memDataReadResp resp => exact memDataReadResp_back resp
  | metaRegisterChunk req => exact metaRegisterChunk_back h
  | metaRegisterChunkResp resp => exact metaRegisterChunkResp_back resp
  | metaLookupChunk req => exact metaLookupChunk_back h
  | metaLookupChunkResp resp => exact lookupResp_back h
  | metaLookupChunkById chunkId => exact chunkId_back chunkId
  | metaLookupChunkByIdResp resp => exact lookupResp_back h
  | metaUnregisterChunk chunkId => exact chunkId_back chunkId
  | metaUnregisterChunkResp status => exact status_back status
  | metaAddRef chunkId => exact chunkId_back chunkId
  | metaAddRefResp resp => exact refResp_back resp
  | metaReleaseRef chunkId => exact chunkId_back chunkId
  | metaReleaseRefResp resp => exact refResp_back resp
  | metaListChunks node => exact metaListChunks_back node
  | metaListChunksResp maxCount metas => exact list_back h.1 h.2.1 h.2.2
  | metaRegisterStorageResource node res => exact metaRegisterStorageResource_back node h
  | metaGetStorageTopology node => exact metaGetStorageTopology_back node
  | metaGetStorageTopologyResp topo => exact metaTopology_back h.1 fun r hr => (h.2 r hr).carried

/-- A topology of one resource. -/
theorem wireMessage_roundTrip_one_resource :
    ∃ body, (WireMessage.memGetTopologyResp
        ⟨3, [⟨3, CString.ofBytes [47, 100], 4096, 0, 1⟩]⟩).pack = some body ∧
      memUnpackGetTopologyResp body = .ok ⟨3, [⟨3, CString.ofBytes [47, 100], 4096, 0, 1⟩]⟩ :=
  wireMessage_roundTrip (.memGetTopologyResp ⟨3, [⟨3, CString.ofBytes [47, 100], 4096, 0, 1⟩]⟩)
    ⟨by decide, by
      intro r hr
      obtain rfl := List.mem_singleton.mp hr
      exact ⟨by decide, .inr rfl⟩⟩

end Umm.Proto
