import Umm.Client.Api
import Umm.Client.Init

/-! The data plane of the client: `umm_read` and `umm_write`, and the router that leads an address
to the transport of its node or its tier. -/
namespace Umm

/-- The transports that the router and the legacy mode end in. -/
inductive LeafTransport
  | localMem (cfg : InitConfig)
  | ssd (transport : SsdTransport)
  | remote (transport : RemoteTransport)
  | legacy (cfg : InitConfig)
  deriving DecidableEq

/-- What the transports answer in a world `W` of memories, devices and peers. -/
structure DataPlane (W : Type) where
  get : LeafTransport → W → ℕ → ℕ → Except Error (List UInt8)
  put : LeafTransport → W → ℕ → List UInt8 → Except Error W

namespace TierRouter

/-- The transport in the slot of a tier. An SSD that NDS drives has none here on purpose. -/
def resolveTier (router : TierRouter) (gpa : ℕ) : Except Error LeafTransport :=
  match Tier.ofId (gpaToTier gpa) with
  | some .cxl => .ok (.localMem router.cxl)
  | some .ssd =>
    match router.ssd with
    | some transport => .ok (.ssd transport)
    | none => if router.unsupported.isSome then .error .unsupported else .error .invalidArg
  | some .dram => if router.dram then .ok (.localMem router.cxl) else .error .invalidArg
  | _ => .error .invalidArg

/-- The node comes first, where there is a transport to other nodes. -/
def resolve (router : TierRouter) (gpa : ℕ) : Except Error LeafTransport :=
  match router.remote with
  | some remote =>
    if gpaToNode gpa ≠ remote.myNode.toNat then .ok (.remote remote) else router.resolveTier gpa
  | none => router.resolveTier gpa

end TierRouter

namespace Transport

variable {W : Type}

def resolve (transport : Transport) (gpa : ℕ) : Except Error LeafTransport :=
  match transport with
  | .router tr => tr.resolve gpa
  | .legacy cfg => .ok (.legacy cfg)

def get (io : DataPlane W) (w : W) (transport : Transport) (gpa len : ℕ) :
    Except Error (List UInt8) :=
  match transport.resolve gpa with
  | .error e => .error e
  | .ok leaf => io.get leaf w gpa len

def put (io : DataPlane W) (w : W) (transport : Transport) (gpa : ℕ) (bytes : List UInt8) :
    Except Error W :=
  match transport.resolve gpa with
  | .error e => .error e
  | .ok leaf => io.put leaf w gpa bytes

end Transport

namespace UmmState

variable {W : Type}

/-- The checks of `umm_read` and `umm_write`; a descriptor is `none` where it is a null pointer. -/
def checkAccess (s : UmmState) (desc : Option ChunkDescriptor) (hasBuf : Bool)
    (offset len : UInt64) : Except Error (Transport × ℕ) :=
  if s.initialized = false then .error .notInitialized
  else match desc with
    | none => .error .invalidArg
    | some desc =>
      if hasBuf = false ∨ len = 0 then .error .invalidArg
      else if desc.userSize = 0 then .error .invalidArg
      else if offset + len < offset ∨ desc.userSize < (offset + len).toNat then .error .invalidArg
      else match s.transport with
        | none => .error .notInitialized
        | some transport => .ok (transport, u64 (desc.baseGpa + offset.toNat))

/-- `umm_read`. -/
def ummRead (io : DataPlane W) (w : W) (s : UmmState) (desc : Option ChunkDescriptor)
    (offset len : UInt64) (hasBuf : Bool) : Except Error (List UInt8) :=
  match s.checkAccess desc hasBuf offset len with
  | .error e => .error e
  | .ok (transport, gpa) => transport.get io w gpa len.toNat

/-- `umm_write`; the buffer is `none` where it is a null pointer. -/
def ummWrite (io : DataPlane W) (w : W) (s : UmmState) (desc : Option ChunkDescriptor)
    (offset len : UInt64) (buf : Option (List UInt8)) : Except Error W :=
  match s.checkAccess desc buf.isSome offset len with
  | .error e => .error e
  | .ok (transport, gpa) => transport.put io w gpa ((buf.getD []).take len.toNat)

end UmmState

end Umm
