import Umm.Metadata.MetaRpc
import Umm.Metadata.HashTableItems
import Umm.Metadata.DirectoryRuns
import Umm.Protocol.RoundTrip

/-! The records that the directory can hand out, and one exchange over the metadata protocol:
what the server is asked for, and what the client gets back. -/
namespace Umm
open Umm.Lib Proto MetaRpcServer MetaRpcClient

def MetaInit (ctx : Directory) : Prop := metaServiceDirectCreate = some ctx

inductive MetaStep : Directory → DirOp → Directory → Prop
  | register {ctx ctx' : Directory} {name : CString} {gpa size : UInt64} {r : Except Error ℕ} :
      implRegisterChunk ctx name gpa.toNat size.toNat = some (r, ctx') →
      MetaStep ctx (.register name gpa size) ctx'
  | unregister {ctx : Directory} {chunkId : UInt64} :
      MetaStep ctx (.unregister chunkId) (implUnregisterChunk ctx chunkId.toNat).2
  | addRef {ctx : Directory} {chunkId : UInt64} :
      MetaStep ctx (.addRef chunkId) (implAddRef ctx chunkId.toNat).2
  | releaseRef {ctx : Directory} {chunkId : UInt64} :
      MetaStep ctx (.releaseRef chunkId) (implReleaseRef ctx chunkId.toNat).2

/-- A record whose name has its NUL inside the field. -/
def ChunkMetadata.NameFits (info : ChunkMetadata) : Prop := info.name.length ≤ 63

/-- All names that a call can hand out fit. -/
structure MetaServiceCtx.NamesFit (ctx : Directory) : Prop where
  table : ctx.chunkTable.AllValues ChunkMetadata.NameFits
  chunks : ∀ ce ∈ ctx.chunks, ce.info.NameFits

namespace MetaServiceCtx.NamesFit

variable {ctx : Directory}

theorem storedName_fits (name : CString) : (storedName name).length ≤ 63 := by
  have hbytes : (storedName name).bytes = (name.bytes.take 63).takeWhile (· ≠ 0) := rfl
  have hle := (List.takeWhile_prefix (fun b : UInt8 => decide (b ≠ 0)) (l := name.bytes.take 63)).length_le
  change (storedName name).bytes.length ≤ 63
  rw [hbytes]
  exact hle.trans (by simp)

theorem setChunk (h : ctx.NamesFit) (id : ℕ) (ce : ChunkEntry) (hc : ce.info.NameFits) :
    (ctx.setChunk id ce).NamesFit := by
  refine ⟨h.table, fun x hx => ?_⟩
  rcases List.mem_or_eq_of_mem_set hx with hx | rfl
  · exact h.chunks x hx
  · exact hc

theorem found (h : ctx.NamesFit) {id : ℕ} {ce : ChunkEntry} (hf : findChunkById ctx id = some ce) :
    ce.info.NameFits := by
  unfold findChunkById at hf
  split_ifs at hf
  split at hf
  · rename_i x hx
    split_ifs at hf
    obtain rfl := Option.some.inj hf
    exact h.chunks x (List.mem_of_getElem? hx)
  · cases hf

theorem dropChunk (h : ctx.NamesFit) (id : ℕ) (ce : ChunkEntry) (hc : ce.info.NameFits) :
    (dropChunk ctx id ce).NamesFit :=
  ⟨mhtRemove_values h.table _, (h.setChunk id { ce with valid := false } hc).chunks⟩

theorem create (h : MetaInit ctx) : ctx.NamesFit := by
  obtain ⟨table, ht, rfl⟩ := Option.map_eq_some_iff.mp h
  exact ⟨mhtCreate_values ht, by simp [MetaServiceCtx.empty]⟩

theorem register (h : ctx.NamesFit) {name : CString} {gpa size : ℕ}
    {r : Except Error ℕ × Directory} (hr : implRegisterChunk ctx name gpa size = some r) :
    r.2.NamesFit := by
  have hgrow : ∀ capacity, ∀ ce ∈ growChunks ctx.chunks capacity, ce.info.NameFits := by
    intro capacity ce hce
    rcases List.mem_append.mp hce with hce | hce
    · exact h.chunks ce hce
    · rw [List.eq_of_mem_replicate hce]
      exact Nat.zero_le _
  unfold implRegisterChunk at hr
  split at hr
  · obtain rfl := Option.some.inj hr
    exact h
  · dsimp only at hr
    generalize (if ctx.nextChunkId = 0 then u64 (ctx.nextChunkId + 1) else ctx.nextChunkId) = cid at hr
    split at hr
    · cases hr
    · rename_i capacity _
      have hinfo : (⟨cid, storedName name, gpa, size, 0, 0⟩ : ChunkMetadata).NameFits :=
        storedName_fits name
      have hset : ∀ valid, ∀ ce ∈ (growChunks ctx.chunks capacity).set (cid - 1)
          ⟨cid, 1, valid, ⟨cid, storedName name, gpa, size, 0, 0⟩⟩, ce.info.NameFits := by
        intro valid ce hce
        rcases List.mem_or_eq_of_mem_set hce with hce | rfl
        · exact hgrow capacity ce hce
        · exact hinfo
      split at hr
      · cases hr
      · rename_i table hins
        obtain rfl := Option.some.inj hr
        exact ⟨mhtInsert_values h.table hinfo hins, hset true⟩
      · rename_i e table hins
        obtain rfl := Option.some.inj hr
        exact ⟨mhtInsert_values h.table hinfo hins, hset false⟩

theorem step {ctx' : Directory} {op : DirOp} (h : ctx.NamesFit) (hs : MetaStep ctx op ctx') :
    ctx'.NamesFit := by
  cases hs with
  | register hr => exact h.register hr
  | unregister =>
    unfold implUnregisterChunk
    split
    · exact h
    · rename_i ce hf
      exact h.dropChunk _ _ (h.found hf)
  | addRef =>
    unfold implAddRef
    split
    · exact h
    · rename_i ce hf
      have hfit := h.found hf
      exact h.setChunk _ _ hfit
  | releaseRef =>
    unfold implReleaseRef
    split
    · exact h
    · rename_i ce hf
      have hfit := h.found hf
      dsimp only
      generalize (if 0 < ce.refCount then ce.refCount - 1 else ce.refCount) = refCount
      split_ifs
      · exact h.dropChunk _ _ hfit
      · exact h.setChunk _ _ hfit

end MetaServiceCtx.NamesFit

theorem metaRun_namesFit {ctx : Directory} (h : Reach MetaInit MetaStep ctx) : ctx.NamesFit :=
  h.invariant (P := MetaServiceCtx.NamesFit) (fun _ => .create) fun _ _ _ hf => hf.step

section Exchange

variable {σ : Type} {vtbl : MetadataServiceVtbl σ} {stack : List UInt8} {ctx ctx' : σ}

/-- The handler on a request that arrives whole. -/
theorem metaServiceRpcHandle_frame {op : MetaOp} {body : UmmProtoBody} (hb : body.Cleared) :
    metaServiceRpcHandle vtbl stack ctx (frame op.code ummFlagRequest noToken body) =
      (handleOp vtbl stack ctx op body).map fun r =>
        (frame op.code ummFlagResponse noToken r.1, r.2) := by
  have hreq := recvFrame_frame op.code ummFlagRequest noToken hb []
  rw [List.append_nil] at hreq
  unfold metaServiceRpcHandle
  rw [hreq]
  simp only [ummProtoHeader, MetaOp.ofCode_code]
  cases handleOp vtbl stack ctx op body <;> rfl

/-- The request and its reply cross the connection unchanged. -/
theorem doRpc_served {α : Type} {op : MetaOp} {request : Option UmmProtoBody}
    {unpack : UmmProtoBody → Except Int32 α} {body reply : UmmProtoBody}
    (hreq : request = some body) (hb : body.Cleared) (hrep : reply.Cleared)
    (h : handleOp vtbl stack ctx op body = some (reply, ctx')) :
    doRpc (metaPeer vtbl stack) ctx op request unpack = some (unpack reply, ctx') := by
  have hresp := recvReply_frame op.code ummFlagResponse noToken hrep []
  rw [List.append_nil] at hresp
  subst hreq
  simp only [doRpc, metaPeer, Option.bind_eq_bind, Option.bind_some,
    metaServiceRpcHandle_frame hb, h, Option.map_some, hresp]
  rfl

/-- A call of the service that never returns. -/
theorem doRpc_none {α : Type} {op : MetaOp} {request : Option UmmProtoBody}
    {unpack : UmmProtoBody → Except Int32 α} {body : UmmProtoBody} (hreq : request = some body)
    (hb : body.Cleared) (h : handleOp vtbl stack ctx op body = none) :
    doRpc (metaPeer vtbl stack) ctx op request unpack = none := by
  subst hreq
  simp [doRpc, metaPeer, metaServiceRpcHandle_frame hb, h]

/-- A name as it leaves the field of 64 bytes that carries it. -/
def wireName (name : CString) : CString := CString.ofBytes (protoWriteStr name 64)

theorem wireName_bytes (name : CString) : (wireName name).bytes = name.bytes.take 64 := by
  have hcut : (0 : UInt8) ∉ name.bytes.take 64 := fun h => name.property (List.mem_of_mem_take h)
  have hpad := CString.ofBytes_padded ⟨name.bytes.take 64, hcut⟩ (64 - name.length)
  exact congrArg CString.bytes hpad

theorem wireName_eq {name : CString} (h : name.length ≤ 64) : wireName name = name := by
  apply CString.ext
  rw [wireName_bytes]
  exact List.take_of_length_le h

theorem length_wireName (name : CString) : (wireName name).length = min 64 name.length := by
  change (wireName name).bytes.length = _
  rw [wireName_bytes, List.length_take]
  rfl

private theorem decodes_wireName (name : CString) :
    (protoReadStr 64).Decodes (protoWriteStr name 64) (wireName name) :=
  (Decoder.Decodes.bytes (length_protoWriteStr name 64)).map CString.ofBytes

/-- A registration over the protocol is one of the string that the server finds in the
request. -/
theorem metaRpcRegisterChunk_served (name : CString) (gpa size : UInt64) :
    metaRpcRegisterChunk (metaPeer vtbl stack) ctx name gpa size =
      (vtbl.registerChunk ctx (MetaRegisterChunkReq.nameString ⟨wireName name, gpa, size⟩ stack)
        gpa size).map fun r => (withCode r.1, r.2) := by
  obtain ⟨body, hpack, hunpack⟩ : ∃ body, metaPackRegisterChunk ⟨name, gpa, size⟩ = some body ∧
      metaUnpackRegisterChunk body = .ok ⟨wireName name, gpa, size⟩ :=
    unpack_pack ((decodes_wireName name).bind <| (decodes_u64 _).bind <| (decodes_u64 _).bind <|
      .pure _) (by simp) (by simp [ummProtoMaxBody])
  have hcleared := (packBody_cleared hpack).1
  unfold metaRpcRegisterChunk
  cases hcall : vtbl.registerChunk ctx
      (MetaRegisterChunkReq.nameString ⟨wireName name, gpa, size⟩ stack) gpa size with
  | none =>
    have hop : handleOp vtbl stack ctx .registerChunk body = none := by
      simp [handleOp, hunpack, hcall]
    exact doRpc_none hpack hcleared hop
  | some r =>
    obtain ⟨reply, hrpack, hrunpack⟩ :=
      metaRegisterChunkResp_back ⟨statusOf r.1, r.1.toOption.getD 0⟩
    have hop : handleOp vtbl stack ctx .registerChunk body = some (reply, r.2) := by
      simp [handleOp, hunpack, hcall, hrpack]
    rw [doRpc_served hpack hcleared (packBody_cleared hrpack).1 hop, hrunpack]
    exact congrArg (fun x => some (x, r.2)) (checkStatus_statusOf r.1 0)

/-- A lookup over the protocol is one of the name that crossed the field, when the records fit. -/
theorem metaRpcLookupChunk_served (name : CString)
    (hfit : ∀ chunk, vtbl.lookupChunk ctx (wireName name) = .ok chunk → chunk.name.length ≤ 63) :
    metaRpcLookupChunk (metaPeer vtbl stack) ctx name =
      some (withCode (vtbl.lookupChunk ctx (wireName name)), ctx) := by
  obtain ⟨body, hpack, hunpack⟩ : ∃ body, metaPackLookupChunk ⟨name⟩ = some body ∧
      metaUnpackLookupChunk body = .ok ⟨wireName name⟩ :=
    unpack_pack ((decodes_wireName name).bind <| .pure _) (by simp) (by simp [ummProtoMaxBody])
  set r := vtbl.lookupChunk ctx (wireName name) with hr
  have hvalid : ValidName (r.toOption.getD ⟨0, CString.ofBytes [], 0, 0⟩).name := by
    cases hc : r with
    | error e => exact Nat.zero_le _
    | ok chunk => exact hfit chunk hc
  have hback : ∃ reply, packLookupChunkResp
      ⟨statusOf r, r.toOption.getD ⟨0, CString.ofBytes [], 0, 0⟩⟩ = some reply ∧
      unpackLookupResp reply = .ok _ := lookupResp_back hvalid
  obtain ⟨reply, hrpack, hrunpack⟩ := hback
  have hop : handleOp vtbl stack ctx .lookupChunk body = some (reply, ctx) := by
    simp [handleOp, hunpack, lookupReply, ← hr, hrpack]
  rw [metaRpcLookupChunk, doRpc_served hpack (packBody_cleared hpack).1
    (packBody_cleared hrpack).1 hop, metaUnpackLookupChunkResp, hrunpack]
  exact congrArg (fun x => some (x, ctx)) (checkStatus_statusOf r _)

end Exchange

end Umm
