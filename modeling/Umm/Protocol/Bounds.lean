import Umm.Protocol.Wire

/-! What an unpacker reads of a body, and the lengths at which it reads on behind the message. -/
namespace Umm.Proto
open Umm.Lib Umm.Lib.Decoder

/-- The lengths that pass the check of the unpacker and are less than what it reads. -/
def MessageKind.CutShort : MessageKind → ℕ → Prop
  | .metaRegisterChunk, len => 72 ≤ len ∧ len < 80
  | .metaRegisterChunkResp, len => 8 ≤ len ∧ len < 12
  | .metaLookupChunkResp, len => 80 ≤ len ∧ len < 92
  | .metaLookupChunkByIdResp, len => 80 ≤ len ∧ len < 92
  | _, _ => False

section Within

theorem reads_storageResource : unpackStorageResource.Reads 274 :=
  reads_u8.bind fun _ => (reads_str 256).bind fun _ => reads_u64.bind fun _ =>
    reads_u64.bind fun _ => reads_u8.bind fun _ => .pure _

theorem reads_chunkMeta : unpackChunkMeta.Reads 88 :=
  reads_u64.bind fun _ => (reads_str 64).bind fun _ => reads_u64.bind fun _ =>
    reads_u64.bind fun _ => .pure _

theorem reads_allocTieredResp : readAllocTieredResp.Reads 12 :=
  reads_i32.bind fun _ => reads_u64.bind fun _ => .pure _

theorem reads_topologyHeader : readTopologyHeader.Reads 12 :=
  reads_i32.bind fun _ => reads_u32.bind fun _ => reads_u32.bind fun _ => .pure _

theorem reads_topology (count : ℕ) : (readTopology count).Reads (12 + (count * 274 + 0)) :=
  reads_topologyHeader.bind fun _ => (reads_storageResource.many count).bind fun _ => .pure _

theorem reads_listHeader : readListHeader.Reads 8 :=
  reads_i32.bind fun _ => reads_u32.bind fun _ => .pure _

theorem reads_list (count : ℕ) : (readList count).Reads (8 + count * 88) :=
  reads_listHeader.bind fun _ => reads_chunkMeta.many count

variable {a b : UmmProtoBody}

/-- Resources that have room in the message are read from the message. -/
theorem SameMessage.readTopology (h : SameMessage a b) {count : ℕ} (hlen : 12 ≤ a.len.toNat)
    (hcount : count ≤ topologyAvail a) :
    (readTopology count a.data).1 = (Proto.readTopology count b.data).1 := by
  have hroom : count * 274 ≤ a.len.toNat - 12 :=
    (Nat.mul_le_mul_right 274 hcount).trans (Nat.div_mul_le_self _ _)
  exact h.value (reads_topology count) (by omega)

theorem SameMessage.topologyAvail (h : SameMessage a b) :
    topologyAvail a = Proto.topologyAvail b := by
  rw [Proto.topologyAvail, Proto.topologyAvail, h.len_eq]

theorem SameMessage.memTopology (h : SameMessage a b) :
    memUnpackGetTopologyResp a = memUnpackGetTopologyResp b := by
  unfold memUnpackGetTopologyResp
  rw [← h.len_eq, ← h.topologyAvail]
  split_ifs with hlt
  · rfl
  · have hlen : 12 ≤ a.len.toNat := Nat.not_lt.mp hlt
    simp only [← h.value reads_topologyHeader hlen]
    split_ifs with hstatus hcount
    · rfl
    · rfl
    · rw [h.readTopology hlen (by omega)]

theorem SameMessage.metaTopology (h : SameMessage a b) :
    metaUnpackGetStorageTopologyResp a = metaUnpackGetStorageTopologyResp b := by
  unfold metaUnpackGetStorageTopologyResp
  rw [← h.len_eq, ← h.topologyAvail]
  split_ifs with hlt
  · rfl
  · have hlen : 12 ≤ a.len.toNat := Nat.not_lt.mp hlt
    simp only [← h.value reads_topologyHeader hlen]
    split_ifs with hstatus
    · rfl
    · rw [h.readTopology hlen (by omega)]

theorem SameMessage.list (h : SameMessage a b) (maxCount : UInt32) (wanted : Bool) :
    metaUnpackListChunksResp maxCount wanted a = metaUnpackListChunksResp maxCount wanted b := by
  unfold metaUnpackListChunksResp
  rw [← h.len_eq]
  by_cases hlt : a.len.toNat < 8
  · rw [if_pos hlt, if_pos hlt]
  · have hlen : 8 ≤ a.len.toNat := Nat.not_lt.mp hlt
    have hroom : min (min (readListHeader a.data).1.2.toNat maxCount.toNat)
        ((a.len.toNat - 8) / chunkMetaSerializedSize) * 88 ≤ a.len.toNat - 8 :=
      (Nat.mul_le_mul_right 88 (min_le_right _ _)).trans (Nat.div_mul_le_self _ _)
    rw [if_neg hlt, if_neg hlt]
    simp only [← h.value reads_listHeader hlen]
    rw [h.value (reads_list _) (by omega)]

theorem SameMessage.topologyStart (h : SameMessage a b) :
    memReadTopologyStart a = memReadTopologyStart b := by
  unfold memReadTopologyStart
  rw [← h.len_eq]
  split_ifs with hzero hfour
  · rfl
  · rfl
  · rw [h.value reads_u32 (by omega)]

theorem SameMessage.allocOnDevice (h : SameMessage a b) :
    memUnpackAllocOnDevice a = memUnpackAllocOnDevice b := by
  unfold memUnpackAllocOnDevice
  rw [← h.len_eq]
  split_ifs with hlen
  · rfl
  · exact h.unpackAtLeast (reads_u8.bind fun _ => reads_u32.bind fun _ => reads_u64.bind fun _ =>
      reads_u32.bind fun _ => .pure _) (by omega)

theorem SameMessage.allocTieredResp2 (h : SameMessage a b) :
    memUnpackAllocTieredResp2 a = memUnpackAllocTieredResp2 b := by
  unfold memUnpackAllocTieredResp2
  rw [← h.len_eq]
  split_ifs with hlen
  · exact h.unpackAtLeast (reads_allocTieredResp.bind fun _ => reads_u8.bind fun _ => .pure _)
      (by omega)
  · exact h.unpackAtLeast (reads_allocTieredResp.bind fun _ => .pure _) (by omega)

theorem SameMessage.lookupResp (h : SameMessage a b)
    (hlen : ¬ (80 ≤ a.len.toNat ∧ a.len.toNat < 92)) : unpackLookupResp a = unpackLookupResp b := by
  have hcases : a.len.toNat < 80 ∨ 92 ≤ a.len.toNat := by omega
  exact h.unpackAtLeast (reads_i32.bind fun _ => reads_chunkMeta.bind fun _ => .pure _) hcases

theorem SameMessage.refResp (h : SameMessage a b) : unpackRefResp a = unpackRefResp b :=
  h.unpackAtLeast (reads_i32.bind fun _ => reads_u32.bind fun _ => .pure _) (by omega)

end Within

section Behind

/-- The body with another byte at a position. -/
def UmmProtoBody.withByte (body : UmmProtoBody) (i : ℕ) (val : UInt8) : UmmProtoBody :=
  { body with
    data := body.data.set i val
    size_eq := by rw [List.length_set, body.size_eq] }

theorem sameMessage_withByte {body : UmmProtoBody} {i : ℕ} (h : body.len.toNat ≤ i) (val : UInt8) :
    SameMessage body (body.withByte i val) :=
  ⟨rfl, (List.take_set_of_le h).symm⟩

/-- The value of a word tells its bytes. -/
theorem readU64_injective {l l' : List UInt8} (hl : 8 ≤ l.length) (hl' : 8 ≤ l'.length)
    (h : (protoReadU64 l).1 = (protoReadU64 l').1) : l.take 8 = l'.take 8 := by
  have hlen : (l.take 8).length = 8 := List.length_take_of_le hl
  have hlen' : (l'.take 8).length = 8 := List.length_take_of_le hl'
  have hlt := leValue_lt (l.take 8)
  have hlt' := leValue_lt (l'.take 8)
  rw [hlen] at hlt
  rw [hlen'] at hlt'
  have hval : UInt64.ofNat (leValue (l.take 8)) = UInt64.ofNat (leValue (l'.take 8)) := h
  have hnat := congrArg UInt64.toNat hval
  rw [UInt64.toNat_ofNat', UInt64.toNat_ofNat'] at hnat
  have hvalue : leValue (l.take 8) = leValue (l'.take 8) := by omega
  rw [← leBytes_leValue (l.take 8), ← leBytes_leValue (l'.take 8), hlen, hlen', hvalue]

/-- A word that ends behind the message can be another one in the same message. -/
theorem exists_other_word (a : UmmProtoBody) {k : ℕ} (hk : k + 8 ≤ ummProtoMaxBody)
    (hlen : a.len.toNat < k + 8) :
    ∃ b, SameMessage a b ∧
      (protoReadU64 (a.data.drop k)).1 ≠ (protoReadU64 (b.data.drop k)).1 := by
  have hsize := a.size_eq
  have hi : k + 7 < a.data.length := by omega
  have hsame : SameMessage a (a.withByte (k + 7) (a.data[k + 7] + 1)) :=
    sameMessage_withByte (by omega) _
  refine ⟨_, hsame, fun heq => ?_⟩
  have hbytes := readU64_injective (by rw [List.length_drop]; omega)
    (by rw [List.length_drop, UmmProtoBody.size_eq]; omega) heq
  have hlast := congrArg (fun l => l[7]?) hbytes
  simp [UmmProtoBody.withByte, List.getElem?_drop, hi] at hlast

variable {a b : UmmProtoBody}

/-- Equal results of a check that both bodies pass. -/
theorem value_eq_of_unpackAtLeast_eq {α : Type} {d : Decoder α} {minLen : ℕ}
    (h : unpackAtLeast minLen d a = unpackAtLeast minLen d b) (hlen : a.len = b.len)
    (hmin : minLen ≤ a.len.toNat) : (d a.data).1 = (d b.data).1 := by
  rw [unpackAtLeast, unpackAtLeast, ← hlen, if_neg (Nat.not_lt.mpr hmin),
    if_neg (Nat.not_lt.mpr hmin)] at h
  exact Except.ok.inj h

theorem registerChunk_size (h : metaUnpackRegisterChunk a = metaUnpackRegisterChunk b)
    (hlen : a.len = b.len) (hmin : 72 ≤ a.len.toNat) :
    (protoReadU64 (a.data.drop 72)).1 = (protoReadU64 (b.data.drop 72)).1 := by
  have hsize : (protoReadU64 ((a.data.drop 64).drop 8)).1 =
      (protoReadU64 ((b.data.drop 64).drop 8)).1 :=
    congrArg MetaRegisterChunkReq.size (value_eq_of_unpackAtLeast_eq h hlen hmin)
  simpa only [List.drop_drop] using hsize

theorem registerChunkResp_chunkId
    (h : metaUnpackRegisterChunkResp a = metaUnpackRegisterChunkResp b) (hlen : a.len = b.len)
    (hmin : 8 ≤ a.len.toNat) :
    (protoReadU64 (a.data.drop 4)).1 = (protoReadU64 (b.data.drop 4)).1 :=
  congrArg MetaRegisterChunkResp.chunkId (value_eq_of_unpackAtLeast_eq h hlen hmin)

theorem lookupResp_size (h : unpackLookupResp a = unpackLookupResp b) (hlen : a.len = b.len)
    (hmin : 80 ≤ a.len.toNat) :
    (protoReadU64 (a.data.drop 84)).1 = (protoReadU64 (b.data.drop 84)).1 := by
  have hsize : (protoReadU64 ((((a.data.drop 4).drop 8).drop 64).drop 8)).1 =
      (protoReadU64 ((((b.data.drop 4).drop 8).drop 64).drop 8)).1 :=
    congrArg (fun m => m.chunk.size) (value_eq_of_unpackAtLeast_eq h hlen hmin)
  simpa only [List.drop_drop] using hsize

/-- A message that is cut short has no meaning of its own. -/
theorem exists_other_meaning {kind : MessageKind} (h : kind.CutShort a.len.toNat) :
    ∃ b, SameMessage a b ∧ kind.unpack a ≠ kind.unpack b := by
  cases kind with
  | metaRegisterChunk =>
    obtain ⟨b, hsame, hne⟩ := exists_other_word a (k := 72) (by decide) h.2
    exact ⟨b, hsame, fun heq => hne (registerChunk_size heq hsame.len_eq h.1)⟩
  | metaRegisterChunkResp =>
    obtain ⟨b, hsame, hne⟩ := exists_other_word a (k := 4) (by decide) h.2
    exact ⟨b, hsame, fun heq => hne (registerChunkResp_chunkId heq hsame.len_eq h.1)⟩
  | metaLookupChunkResp =>
    obtain ⟨b, hsame, hne⟩ := exists_other_word a (k := 84) (by decide) h.2
    exact ⟨b, hsame, fun heq => hne (lookupResp_size heq hsame.len_eq h.1)⟩
  | metaLookupChunkByIdResp =>
    obtain ⟨b, hsame, hne⟩ := exists_other_word a (k := 84) (by decide) h.2
    exact ⟨b, hsame, fun heq => hne (lookupResp_size heq hsame.len_eq h.1)⟩
  | _ => exact h.elim

end Behind

/-- At every other length the unpacker reads the message and nothing else. -/
theorem SameMessage.unpack {a b : UmmProtoBody} (hs : SameMessage a b) {kind : MessageKind}
    (h : ¬ kind.CutShort a.len.toNat) : kind.unpack a = kind.unpack b := by
  cases kind with
  | memAlloc =>
    exact hs.unpackAtLeast (reads_u64.bind fun _ => reads_u32.bind fun _ => .pure _) (by omega)
  | memAllocResp =>
    exact hs.unpackAtLeast (reads_i32.bind fun _ => reads_u64.bind fun _ => .pure _) (by omega)
  | memFree =>
    exact hs.unpackAtLeast (reads_u64.bind fun _ => reads_u64.bind fun _ => .pure _) (by omega)
  | memFreeResp => exact hs.unpackAtLeast (reads_i32.bind fun _ => .pure _) (by omega)
  | memStatsResp =>
    exact hs.unpackAtLeast
      (reads_u64.bind fun _ => reads_u64.bind fun _ => reads_u64.bind fun _ => .pure _) (by omega)
  | memAllocOnDevice => exact hs.allocOnDevice
  | memAllocTiered =>
    exact hs.unpackAtLeast
      (reads_u8.bind fun _ => reads_u64.bind fun _ => reads_u32.bind fun _ => .pure _) (by omega)
  | memAllocTieredResp => exact hs.unpackAtLeast reads_allocTieredResp (by omega)
  | memAllocTieredResp2 => exact hs.allocTieredResp2
  | memFreeTiered =>
    exact hs.unpackAtLeast
      (reads_u8.bind fun _ => reads_u64.bind fun _ => reads_u64.bind fun _ => .pure _) (by omega)
  | memGetTierStats => exact hs.unpackAtLeast (reads_u8.bind fun _ => .pure _) (by omega)
  | memGetTierStatsResp =>
    exact hs.unpackAtLeast (reads_i32.bind fun _ => reads_u64.bind fun _ =>
      reads_u64.bind fun _ => reads_u64.bind fun _ => .pure _) (by omega)
  | memRegisterStorage =>
    exact hs.unpackAtLeast reads_storageResource (by unfold storageResourceSerializedSize; omega)
  | memGetTopology => exact hs.topologyStart
  | memGetTopologyResp => exact hs.memTopology
  | memDataReq =>
    exact hs.unpackAtLeast (reads_u64.bind fun _ => reads_u64.bind fun _ => .pure _) (by omega)
  | memDataReadResp =>
    exact hs.unpackAtLeast (reads_i32.bind fun _ => reads_u64.bind fun _ => .pure _) (by omega)
  | metaRegisterChunk =>
    have hlen : a.len.toNat < 72 ∨ 80 ≤ a.len.toNat := by
      simp only [MessageKind.CutShort] at h
      omega
    exact hs.unpackAtLeast ((reads_str 64).bind fun _ => reads_u64.bind fun _ =>
      reads_u64.bind fun _ => .pure _) hlen
  | metaRegisterChunkResp =>
    have hlen : a.len.toNat < 8 ∨ 12 ≤ a.len.toNat := by
      simp only [MessageKind.CutShort] at h
      omega
    exact hs.unpackAtLeast (reads_i32.bind fun _ => reads_u64.bind fun _ => .pure _) hlen
  | metaLookupChunk => exact hs.unpackAtLeast ((reads_str 64).bind fun _ => .pure _) (by omega)
  | metaLookupChunkResp => exact hs.lookupResp h
  | metaLookupChunkById => exact hs.unpackAtLeast reads_u64 (by omega)
  | metaLookupChunkByIdResp => exact hs.lookupResp h
  | metaUnregisterChunk => exact hs.unpackAtLeast reads_u64 (by omega)
  | metaUnregisterChunkResp => exact hs.unpackAtLeast reads_i32 (by omega)
  | metaAddRef => exact hs.unpackAtLeast reads_u64 (by omega)
  | metaAddRefResp => exact hs.refResp
  | metaReleaseRef => exact hs.unpackAtLeast reads_u64 (by omega)
  | metaReleaseRefResp => exact hs.refResp
  | metaListChunks => exact hs.unpackAtLeast (reads_u32.bind fun _ => .pure _) (by omega)
  | metaListChunksResp maxCount wanted => exact hs.list maxCount wanted
  | metaRegisterStorageResource =>
    exact hs.unpackAtLeast (reads_u32.bind fun _ => reads_storageResource.bind fun _ => .pure _)
      (by omega)
  | metaGetStorageTopology => exact hs.unpackAtLeast reads_u32 (by omega)
  | metaGetStorageTopologyResp => exact hs.metaTopology

/-- The meaning of a message depends on the message alone exactly when it is not cut short. -/
theorem unpack_within_iff (kind : MessageKind) (a : UmmProtoBody) :
    (∀ b, SameMessage a b → kind.unpack a = kind.unpack b) ↔ ¬ kind.CutShort a.len.toNat := by
  constructor
  · intro hall hcut
    obtain ⟨b, hsame, hne⟩ := exists_other_meaning hcut
    exact hne (hall b hsame)
  · intro h b hsame
    exact hsame.unpack h

/-- A registration of 72 bytes, with what an earlier message left in the last byte of the size. -/
def staleRegisterChunk (val : UInt8) : UmmProtoBody where
  data := (List.replicate ummProtoMaxBody 0).set 79 val
  len := 72
  size_eq := by rw [List.length_set, List.length_replicate]

/-- Such a registration is accepted, with a size that is not in the message. -/
theorem unpack_not_within : ¬ ∀ (kind : MessageKind) (a b : UmmProtoBody),
    a.len.toNat ≤ ummProtoMaxBody → SameMessage a b → kind.unpack a = kind.unpack b := by
  intro h
  have hsame : SameMessage (staleRegisterChunk 0) (staleRegisterChunk 1) := ⟨rfl, by decide +kernel⟩
  have heq := h .metaRegisterChunk (staleRegisterChunk 0) (staleRegisterChunk 1) (by decide) hsame
  have hsize := registerChunk_size heq rfl (by decide)
  exact absurd hsize (by decide +kernel)

end Umm.Proto
