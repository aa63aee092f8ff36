import Umm.Memory.MemRpc
import Umm.Protocol.RoundTrip

/-! Calls over the protocol against calls of the direct service. -/
namespace Umm
open Umm.Lib Proto MemRpcServer MemRpcClient

/-- The calls that both interfaces have. The flags of an allocation are part of the requests
only; `umm_api.c` asks for a device with no flag. -/
inductive MemCall where
  | alloc (size : UInt64) (flags : UInt32)
  | free (offset size : UInt64)
  | getStats
  | allocTiered (tier : UInt8) (size : UInt64) (flags : UInt32)
  | allocOnDevice (tier : UInt8) (deviceIdx : UInt32) (size : UInt64)
  | freeTiered (tier : UInt8) (offset size : UInt64)
deriving DecidableEq

/-- What a call hands back beside its status. -/
inductive MemOut where
  | done
  | offset (offset : UInt64)
  | stats (stats : MemStatsResp)
deriving DecidableEq

/-- The result of a call with its outputs in one type. -/
def outAs {α ε σ : Type} (f : α → MemOut) (r : Except ε α × σ) : Except ε MemOut × σ :=
  (r.1.map f, r.2)

def memDirectCall {σ : Type} (vtbl : MemoryServiceVtbl σ) (ctx : σ) (call : MemCall) :
    Except Int32 MemOut × σ :=
  let r : Except Error MemOut × σ :=
    match call with
    | .alloc size _ => outAs .offset (vtbl.allocLocal ctx size)
    | .free offset size => outAs (fun _ => .done) (vtbl.freeLocal ctx offset size)
    | .getStats => outAs .stats (vtbl.getStats ctx)
    | .allocTiered tier size _ =>
      outAs .offset (vtbl.allocTiered.elim (.error .unsupported, ctx) fun f => f ctx tier size)
    | .allocOnDevice tier deviceIdx size =>
      outAs .offset
        (vtbl.allocOnDevice.elim (.error .unsupported, ctx) fun f => f ctx tier deviceIdx size)
    | .freeTiered tier offset size =>
      outAs (fun _ => .done)
        (vtbl.freeTiered.elim (.error .unsupported, ctx) fun f => f ctx tier offset size)
  (withCode r.1, r.2)

def memRpcCall {σ : Type} (c : MemRpcClient) (peer : Peer σ) (ctx : σ) (call : MemCall) :
    Option (Except Int32 MemOut × σ) :=
  match call with
  | .alloc size flags => (c.memRpcAlloc peer ctx size flags).map (outAs .offset)
  | .free offset size => (c.memRpcFree peer ctx offset size).map (outAs fun _ => .done)
  | .getStats => (c.memRpcGetStats peer ctx).map (outAs .stats)
  | .allocTiered tier size flags =>
    (c.memRpcAllocTiered2 peer ctx tier size flags).map (outAs fun p => .offset p.1)
  | .allocOnDevice tier deviceIdx size =>
    (c.memRpcAllocOnDevice peer ctx tier deviceIdx size 0).map (outAs fun p => .offset p.1)
  | .freeTiered tier offset size =>
    (c.memRpcFreeTiered peer ctx tier offset size).map (outAs fun _ => .done)

section Exchange

variable {σ : Type} {srv : MemRpcServer} {vtbl : MemoryServiceVtbl σ} {c : MemRpcClient}
  {gotBuf : Bool} {ctx ctx' : σ}

/-- One request of the control plane and its reply cross the connection unchanged. -/
theorem memrpcDoCall_served {op : MemOp} {body reply : UmmProtoBody}
    (hadm : srv.Admits c.headerToken.val) (hread : op ≠ .dataRead)
    (hwrite : op ≠ .dataWrite) (hb : body.Cleared) (hrep : reply.Cleared)
    (h : srv.handleControl vtbl ctx op body = some (reply, ctx')) :
    c.memrpcDoCall (srv.peer vtbl gotBuf) ctx op body = some (.ok reply, ctx') := by
  have hreq := recvFrame_frame op.code ummFlagRequest c.headerToken hb []
  rw [List.append_nil] at hreq
  have hresp := recvFrame_frame op.code ummFlagResponse noToken hrep []
  rw [List.append_nil] at hresp
  have hhandle : srv.memServiceRpcHandle vtbl gotBuf ctx
      (frame op.code ummFlagRequest c.headerToken body) =
      some ⟨.ok (), sendResponse op.code reply, [], ctx'⟩ := by
    unfold memServiceRpcHandle
    rw [hreq]
    simp only [ummProtoHeader, hadm, if_true, MemOp.ofCode_code]
    cases op <;> simp_all
  unfold memrpcDoCall MemRpcServer.peer
  rw [hhandle]
  simp only [Option.map_some, Option.bind_eq_bind, Option.bind_some, sendResponse, hresp]
  rfl

/-- A call whose request and reply are packed and served. -/
theorem callWith_served {α : Type} {op : MemOp} {request : Option UmmProtoBody}
    {unpack : UmmProtoBody → Except Int32 α} {body reply : UmmProtoBody}
    (hadm : srv.Admits c.headerToken.val) (hread : op ≠ .dataRead)
    (hwrite : op ≠ .dataWrite) (hreq : request = some body) (hb : body.Cleared)
    (hrep : reply.Cleared) (h : srv.handleControl vtbl ctx op body = some (reply, ctx')) :
    c.callWith (srv.peer vtbl gotBuf) ctx op request unpack = some (unpack reply, ctx') := by
  unfold callWith
  rw [hreq]
  simp only [Option.bind_eq_bind, Option.bind_some,
    memrpcDoCall_served hadm hread hwrite hb hrep h]
  rfl

/-- The reply of the two allocations that name an owner. -/
private theorem unpackOwned_back {r : Except Error UInt64} {reply : UmmProtoBody}
    (h : memUnpackAllocTieredResp2 reply = .ok (allocTieredResp r, srv.nodeId)) :
    unpackOwned reply = withCode (r.map fun offset => (offset, srv.nodeId)) := by
  unfold unpackOwned
  rw [h]
  cases r with
  | error e => exact if_pos e.code_ne_zero
  | ok offset => rfl

variable (hadm : srv.Admits c.headerToken.val)
include hadm

theorem memRpcAlloc_served {size : UInt64} (hs : size ≠ 0) (flags : UInt32) :
    c.memRpcAlloc (srv.peer vtbl gotBuf) ctx size flags =
      some (withCode (vtbl.allocLocal ctx size).1, (vtbl.allocLocal ctx size).2) := by
  obtain ⟨body, hpack, hunpack⟩ := memAlloc_back ⟨size, flags⟩
  obtain ⟨reply, hrpack, hrunpack⟩ := memAllocResp_back (allocResp (vtbl.allocLocal ctx size).1)
  have hctl : srv.handleControl vtbl ctx .alloc body =
      some (reply, (vtbl.allocLocal ctx size).2) := by
    simp [handleControl, served, hunpack, hrpack]
  have hstatus := checkStatus_statusOf (vtbl.allocLocal ctx size).1 0
  rw [MemRpcClient.memRpcAlloc, if_neg hs, callWith_served hadm (by decide) (by decide) hpack
    (packBody_cleared hpack).1 (packBody_cleared hrpack).1 hctl, hrunpack]
  exact congrArg (fun r => some (r, _)) hstatus

theorem memRpcFree_served {size : UInt64} (hs : size ≠ 0) (offset : UInt64) :
    c.memRpcFree (srv.peer vtbl gotBuf) ctx offset size =
      some (withCode (vtbl.freeLocal ctx offset size).1, (vtbl.freeLocal ctx offset size).2) := by
  obtain ⟨body, hpack, hunpack⟩ := memFree_back ⟨offset, size⟩
  obtain ⟨reply, hrpack, hrunpack⟩ :=
    memFreeResp_back ⟨statusOf (vtbl.freeLocal ctx offset size).1⟩
  have hctl : srv.handleControl vtbl ctx .free body =
      some (reply, (vtbl.freeLocal ctx offset size).2) := by
    simp [handleControl, served, hunpack, hrpack]
  have hstatus := checkStatus_statusOf (vtbl.freeLocal ctx offset size).1 ()
  rw [memRpcFree, if_neg hs, callWith_served hadm (by decide) (by decide) hpack
    (packBody_cleared hpack).1 (packBody_cleared hrpack).1 hctl, hrunpack]
  exact congrArg (fun r => some (r, _)) hstatus

/-- The status of the service does not reach the client. -/
theorem memRpcGetStats_served :
    c.memRpcGetStats (srv.peer vtbl gotBuf) ctx =
      some (.ok ((vtbl.getStats ctx).1.toOption.getD ⟨0, 0, 0⟩), (vtbl.getStats ctx).2) := by
  have hsize : ([] : List (List UInt8)).flatten.length ≤ ummProtoMaxBody := Nat.zero_le _
  obtain ⟨body, rest, hpack, -⟩ := packBody_ok hsize
  obtain ⟨reply, hrpack, hrunpack⟩ :=
    memStatsResp_back ((vtbl.getStats ctx).1.toOption.getD ⟨0, 0, 0⟩)
  have hctl : srv.handleControl vtbl ctx .getStats body =
      some (reply, (vtbl.getStats ctx).2) := by
    simp [handleControl, hrpack]
  rw [memRpcGetStats, packEmpty, callWith_served hadm (by decide) (by decide) hpack
    (packBody_cleared hpack).1 (packBody_cleared hrpack).1 hctl, hrunpack]
  rfl

theorem memRpcAllocTiered2_served {size : UInt64} {tier : UInt8}
    (hs : ¬ (size = 0 ∨ 4 ≤ tier.toNat)) (flags : UInt32) {f} (hf : vtbl.allocTiered = some f) :
    c.memRpcAllocTiered2 (srv.peer vtbl gotBuf) ctx tier size flags =
      some (withCode ((f ctx tier size).1.map fun offset => (offset, srv.nodeId)),
        (f ctx tier size).2) := by
  obtain ⟨body, hpack, hunpack⟩ := memAllocTiered_back ⟨tier, size, flags⟩
  obtain ⟨reply, hrpack, hrunpack⟩ :=
    memAllocTieredResp2_back (allocTieredResp (f ctx tier size).1) srv.nodeId
  have hctl : srv.handleControl vtbl ctx .allocTiered body =
      some (reply, (f ctx tier size).2) := by
    simp [handleControl, served, hunpack, hrpack, hf]
  rw [memRpcAllocTiered2, if_neg hs, callWith_served hadm (by decide) (by decide) hpack
    (packBody_cleared hpack).1 (packBody_cleared hrpack).1 hctl, unpackOwned_back hrunpack]

theorem memRpcAllocOnDevice_served {size : UInt64} {tier : UInt8}
    (hs : ¬ (size = 0 ∨ 4 ≤ tier.toNat)) (deviceIdx : UInt32) {f}
    (hf : vtbl.allocOnDevice = some f) :
    c.memRpcAllocOnDevice (srv.peer vtbl gotBuf) ctx tier deviceIdx size 0 =
      some (withCode ((f ctx tier deviceIdx size).1.map fun offset => (offset, srv.nodeId)),
        (f ctx tier deviceIdx size).2) := by
  obtain ⟨body, hpack, hunpack⟩ := memAllocOnDevice_back ⟨tier, deviceIdx, size, 0⟩
  obtain ⟨reply, hrpack, hrunpack⟩ :=
    memAllocTieredResp2_back (allocTieredResp (f ctx tier deviceIdx size).1) srv.nodeId
  have hctl : srv.handleControl vtbl ctx .allocOnDevice body =
      some (reply, (f ctx tier deviceIdx size).2) := by
    simp [handleControl, served, hunpack, hrpack, hf]
  have hlen : reply.len ≠ 0 := by
    intro h
    have hzero : reply.len.toNat = 0 := by
      rw [h]
      rfl
    rw [memUnpackAllocTieredResp2, if_neg (by omega), unpackAtLeast, if_pos (by omega)] at hrunpack
    cases hrunpack
  rw [memRpcAllocOnDevice, if_neg hs, callWith_served hadm (by decide) (by decide) hpack
    (packBody_cleared hpack).1 (packBody_cleared hrpack).1 hctl, if_neg hlen,
    unpackOwned_back hrunpack]

theorem memRpcFreeTiered_served {size : UInt64} {tier : UInt8}
    (hs : ¬ (size = 0 ∨ 4 ≤ tier.toNat)) (offset : UInt64) {f} (hf : vtbl.freeTiered = some f) :
    c.memRpcFreeTiered (srv.peer vtbl gotBuf) ctx tier offset size =
      some (withCode (f ctx tier offset size).1, (f ctx tier offset size).2) := by
  obtain ⟨body, hpack, hunpack⟩ := memFreeTiered_back ⟨tier, offset, size⟩
  obtain ⟨reply, hrpack, -⟩ := memFreeResp_back ⟨statusOf (f ctx tier offset size).1⟩
  have hctl : srv.handleControl vtbl ctx .freeTiered body =
      some (reply, (f ctx tier offset size).2) := by
    simp [handleControl, served, hunpack, hrpack, hf]
  have hlong := memFreeResp_status hrpack
  have hstatus := checkStatus_statusOf (f ctx tier offset size).1 ()
  rw [memRpcFreeTiered, if_neg hs, callWith_served hadm (by decide) (by decide) hpack
    (packBody_cleared hpack).1 (packBody_cleared hrpack).1 hctl, if_pos hlong.1, hlong.2]
  exact congrArg (fun r => some (r, _)) hstatus

end Exchange

section Direct

variable {m : MemServiceCtx} {env : MemEnv}

/-- The direct service rejects the sizes and tiers that the client does not send. -/
theorem onTier_rejected {α : Type} {tier : UInt8} (h : 4 ≤ tier.toNat)
    (f : Tier → Except Error α × MemServiceCtx) : onTier m tier f = (.error .invalidArg, m) := by
  have hnone : Tier.ofId tier.toNat = none := by
    unfold Tier.ofId
    split <;> first | omega | rfl
  rw [onTier, hnone]

theorem onTier_same {α : Type} (tier : UInt8) {f : Tier → Except Error α × MemServiceCtx}
    (h : ∀ t, f t = (.error .invalidArg, m)) : onTier m tier f = (.error .invalidArg, m) := by
  unfold onTier
  split
  · rfl
  · exact h _

end Direct

/-- `get_stats` has something to report. -/
def MemServiceCtx.CxlReady (m : MemServiceCtx) : Prop :=
  (m.tiers .cxl).online = true ∧ (m.tiers .cxl).allocator ≠ none

theorem memsvcGetTierStats_cxl (m : MemServiceCtx) :
    (m.CxlReady ∧ ∃ stats, memsvcGetTierStats m .cxl = .ok stats) ∨
      (¬ m.CxlReady ∧ memsvcGetTierStats m .cxl = .error .notInitialized) := by
  unfold memsvcGetTierStats MemServiceCtx.CxlReady
  dsimp only
  split
  · rename_i ba hon hba
    exact .inl ⟨⟨hon, by simp [hba]⟩, _, rfl⟩
  · rename_i hnot
    refine .inr ⟨?_, rfl⟩
    rintro ⟨hon, hba⟩
    obtain ⟨ba, hba⟩ := Option.ne_none_iff_exists'.mp hba
    exact hnot ba hon hba

theorem outAs_withCode {α σ : Type} (f : α → MemOut) (r : Except Error α × σ) :
    outAs f (withCode r.1, r.2) = (withCode (outAs f r).1, (outAs f r).2) := by
  obtain ⟨r, ctx⟩ := r
  cases r <;> rfl

/-- The owner that the reply names is not part of the outputs. -/
theorem outAs_owned {σ : Type} (owner : UInt8) (r : Except Error UInt64 × σ) :
    outAs (fun p : UInt64 × UInt8 => .offset p.1)
        (withCode (r.1.map fun offset => (offset, owner)), r.2) =
      (withCode (outAs .offset r).1, (outAs .offset r).2) := by
  obtain ⟨r, ctx⟩ := r
  cases r <;> rfl

/-- The call over the protocol has the status, the outputs and the effect of the direct one. -/
def RpcAgrees (env : MemEnv) (c : MemRpcClient) (srv : MemRpcServer) (gotBuf : Bool)
    (m : MemServiceCtx) (call : MemCall) : Prop :=
  memRpcCall c (srv.peer (memsvcVtbl env) gotBuf) m call = some (memDirectCall (memsvcVtbl env) m call)

section Agreement

variable {env : MemEnv} {c : MemRpcClient} {srv : MemRpcServer} {gotBuf : Bool} {m : MemServiceCtx}
  (hadm : srv.Admits c.headerToken.val)
include hadm

theorem rpcAgrees_alloc (size : UInt64) (flags : UInt32) :
    RpcAgrees env c srv gotBuf m (.alloc size flags) := by
  unfold RpcAgrees memRpcCall memDirectCall
  by_cases hs : size = 0
  · subst hs
    rfl
  · dsimp only
    rw [memRpcAlloc_served hadm hs, Option.map_some, outAs_withCode]

theorem rpcAgrees_free (offset size : UInt64) :
    RpcAgrees env c srv gotBuf m (.free offset size) := by
  unfold RpcAgrees memRpcCall memDirectCall
  by_cases hs : size = 0
  · subst hs
    rfl
  · dsimp only
    rw [memRpcFree_served hadm hs, Option.map_some, outAs_withCode]

theorem rpcAgrees_allocTiered (tier : UInt8) (size : UInt64) (flags : UInt32) :
    RpcAgrees env c srv gotBuf m (.allocTiered tier size flags) := by
  unfold RpcAgrees memRpcCall memDirectCall
  by_cases hs : size = 0 ∨ 4 ≤ tier.toNat
  · have hdirect : onTier m tier (fun tier =>
        offsetOut (memsvcAllocTiered m tier size.toNat env.backing)) = (.error .invalidArg, m) := by
      rcases hs with rfl | hs
      · exact onTier_same tier fun _ => rfl
      · exact onTier_rejected hs _
    simp only [memRpcAllocTiered2, if_pos hs, memsvcVtbl, Option.elim, hdirect]
    rfl
  · dsimp only
    rw [memRpcAllocTiered2_served hadm hs flags rfl, Option.map_some, outAs_owned]
    rfl

theorem rpcAgrees_allocOnDevice (tier : UInt8) (deviceIdx : UInt32) (size : UInt64) :
    RpcAgrees env c srv gotBuf m (.allocOnDevice tier deviceIdx size) := by
  unfold RpcAgrees memRpcCall memDirectCall
  by_cases hs : size = 0 ∨ 4 ≤ tier.toNat
  · have hdirect : onTier m tier (fun tier =>
        offsetOut (memsvcAllocOnDevice m tier deviceIdx.toNat size.toNat)) =
        (.error .invalidArg, m) := by
      rcases hs with rfl | hs
      · exact onTier_same tier fun _ => rfl
      · exact onTier_rejected hs _
    simp only [memRpcAllocOnDevice, if_pos hs, memsvcVtbl, Option.elim, hdirect]
    rfl
  · dsimp only
    rw [memRpcAllocOnDevice_served hadm hs deviceIdx rfl, Option.map_some, outAs_owned]
    rfl

theorem rpcAgrees_freeTiered (tier : UInt8) (offset size : UInt64) :
    RpcAgrees env c srv gotBuf m (.freeTiered tier offset size) := by
  unfold RpcAgrees memRpcCall memDirectCall
  by_cases hs : size = 0 ∨ 4 ≤ tier.toNat
  · have hdirect : onTier m tier (fun tier =>
        memsvcFreeTiered m tier offset.toNat size.toNat) = (.error .invalidArg, m) := by
      rcases hs with rfl | hs
      · exact onTier_same tier fun _ => rfl
      · exact onTier_rejected hs _
    simp only [memRpcFreeTiered, if_pos hs, memsvcVtbl, Option.elim, hdirect]
    rfl
  · dsimp only
    rw [memRpcFreeTiered_served hadm hs offset rfl, Option.map_some, outAs_withCode]
    rfl

theorem rpcAgrees_getStats : RpcAgrees env c srv gotBuf m .getStats ↔ m.CxlReady := by
  unfold RpcAgrees memRpcCall memDirectCall
  dsimp only
  rw [memRpcGetStats_served hadm]
  rcases memsvcGetTierStats_cxl m with ⟨hready, stats, hs⟩ | ⟨hready, hs⟩
  · simp [memsvcVtbl, hs, hready, outAs, Except.map, Except.toOption]
  · simp [memsvcVtbl, hs, hready, outAs, Except.map]

end Agreement

/-- Every call agrees with the direct one in every state, but statistics without a CXL tier. -/
theorem memRpcCall_agrees_iff (env : MemEnv) (c : MemRpcClient) (srv : MemRpcServer)
    (gotBuf : Bool) (m : MemServiceCtx) (call : MemCall)
    (hadm : srv.Admits c.headerToken.val) :
    RpcAgrees env c srv gotBuf m call ↔ (call = .getStats → m.CxlReady) := by
  cases call with
  | alloc size flags => simp [rpcAgrees_alloc hadm]
  | free offset size => simp [rpcAgrees_free hadm]
  | getStats => simp [rpcAgrees_getStats hadm]
  | allocTiered tier size flags => simp [rpcAgrees_allocTiered hadm]
  | allocOnDevice tier deviceIdx size => simp [rpcAgrees_allocOnDevice hadm]
  | freeTiered tier offset size => simp [rpcAgrees_freeTiered hadm]

/-- A world in which nothing fails. -/
def MemEnv.quiet : MemEnv where
  os := .whole
  backing := .bytes fun _ => 0
  heap _ := 0
  topology _ := .error .unsupported

/-- A service with an SSD tier of one page. -/
def onePageService : MemServiceCtx :=
  (memsvcRegisterStorage memServiceDirectCreateV2 ⟨.ssd, 4096, 0, some .file⟩
    ⟨false, true, ⟨true, fun _ => 0, true⟩, .failed⟩).2

/-- The statistics of a server whose memory is a DRAM tier: an error of the service arrives as
success with three zeros. -/
theorem memRpcCall_not_agrees :
    ∃ m, memServiceDirectCreateTiered 8192 0 .dram none
        ⟨false, true, ⟨true, fun _ => 0, true⟩, .bytes fun _ => 0⟩ = some m ∧
      (memDirectCall (memsvcVtbl .quiet) m .getStats).1 = .error Error.notInitialized.code ∧
      ¬ RpcAgrees .quiet (memRpcClientInitEx none) (memRpcServerConfigure 0 none 0) true m
        .getStats := by
  have hoff : ∀ m : MemServiceCtx, (m.tiers .cxl).online = false → ¬ m.CxlReady := by
    intro m h hready
    rw [hready.1] at h
    cases h
  refine ⟨_, rfl, rfl, ?_⟩
  rw [rpcAgrees_getStats (by decide)]
  exact hoff _ rfl

/-- The only page of the SSD tier is allocated. -/
theorem memRpcCall_agrees_onlyPage :
    (memDirectCall (memsvcVtbl .quiet) onePageService (.allocTiered 2 4096 0)).1.toOption =
        some (.offset 0) ∧
      RpcAgrees .quiet (memRpcClientInitEx none) (memRpcServerConfigure 0 none 0) true
        onePageService (.allocTiered 2 4096 0) :=
  ⟨by decide +kernel, (memRpcCall_agrees_iff _ _ _ _ _ _ (by decide)).mpr (by simp)⟩

end Umm
