import Umm.Common.CNumber
import Umm.Common.CString

/-! `cis_router.c`: the table of the peer nodes, read from the configuration. -/
namespace Umm

def comma : UInt8 := 44
def colon : UInt8 := 58

def nodeUnknown : UInt8 := 0xFF

def isBlank (b : UInt8) : Bool := b = 32 || b = 9

structure CisNodeEntry where
  node : UInt8
  addr : List UInt8
  deriving DecidableEq, Repr

structure CisRouterState where
  initialized : Bool
  localNode : UInt8
  entries : List CisNodeEntry
  deriving DecidableEq, Repr

namespace CisRouterState

def zero : CisRouterState := ⟨false, 0, []⟩

def maxNodes : ℕ := 64

/-- The address of a node is `strncpy`ed into 256 bytes. -/
def registerNode (node : UInt8) (addr : List UInt8) (r : CisRouterState) :
    Except Error Unit × CisRouterState :=
  if !r.initialized then (.error .notInitialized, r)
  else if addr = [] then (.error .invalidArg, r)
  else
    let entry : CisNodeEntry := ⟨node, addr.take 255⟩
    match r.entries.findIdx? fun e => e.node = node with
    | some i => (.ok (), { r with entries := r.entries.set i entry })
    | none =>
      if maxNodes ≤ r.entries.length then (.error .noMemory, r)
      else (.ok (), { r with entries := r.entries ++ [entry] })

/-- `cis_router_get_node_addr` with a buffer of `len` bytes. -/
def getNodeAddr (node : UInt8) (len : ℕ) (r : CisRouterState) : Except Error (List UInt8) :=
  if !r.initialized then .error .notInitialized
  else if len = 0 then .error .invalidArg
  else match r.entries.find? fun e => e.node = node with
    | some e => .ok (e.addr.take (len - 1))
    | none => .error .notFound

/-- One entry `node:host:port` of the list; others are ignored. -/
def parsePeer (tok : List UInt8) : Option (UInt8 × List UInt8) :=
  let tok := tok.dropWhile isBlank
  let node := strtol tok
  match tok.dropWhile (· ≠ colon) with
  | [] => none
  | _ :: addr =>
    if tok.head? = some colon || addr = [] then none
    else if node < 0 || 255 < node || node = 255 then none
    else if 256 ≤ addr.length then none
    else some (node.toNat.toUInt8, addr)

/-- The entries `strtok_r` cuts at the commas; `dup` says that `strdup` has the memory. -/
def parsePeerNodes (peerNodes : CString) (dup : Bool) (r : CisRouterState) : CisRouterState :=
  if dup then
    (peerNodes.bytes.splitOn comma).foldl (fun r tok =>
      match parsePeer tok with
      | none => r
      | some (node, addr) => (r.registerNode node addr).2) r
  else r

def init (myNodeId : UInt8) (peerNodes : CString) (dup : Bool) (r : CisRouterState) :
    Except Error Unit × CisRouterState :=
  if r.initialized then (.error .alreadyExists, r)
  else (.ok (), parsePeerNodes peerNodes dup ⟨true, myNodeId, []⟩)

def deinit (r : CisRouterState) : CisRouterState :=
  if r.initialized then zero else r

end CisRouterState

end Umm
