import Umm.Client.Init

/-! The allow list of `umm_network.c`: comma-separated IPv4 networks, matched against the address
of a client. -/
namespace Umm

def dot : UInt8 := 46
def slash : UInt8 := 47

/-- A decimal number up to 255, without leading zeros. -/
def parseOctet (bytes : List UInt8) : Option UInt32 :=
  if bytes = [] || !bytes.all isDigit then none
  else if 1 < bytes.length && bytes.head? = some 48 then none
  else if 255 < digits bytes then none
  else some (digits bytes).toUInt32

/-- `inet_pton(AF_INET, ...)` and `ntohl`. -/
def inetPton (bytes : List UInt8) : Option UInt32 :=
  match (bytes.splitOn dot).map parseOctet with
  | [some a, some b, some c, some d] => some (a <<< 24 ||| b <<< 16 ||| c <<< 8 ||| d)
  | _ => none

/-- The network and the length of its mask of one entry `a.b.c.d` or `a.b.c.d/n`. -/
def parseCidrEntry (entry : List UInt8) : Except Error (UInt32 × ℕ) :=
  if entry = [] || 64 ≤ entry.length then .error .invalidArg
  else
    let addr := entry.takeWhile (· ≠ slash)
    let length : ℤ := match entry.dropWhile (· ≠ slash) with
      | [] => 32
      | _ :: rest => atoi rest
    if length < 0 || 32 < length then .error .invalidArg
    else match inetPton addr with
      | none => .error .invalidArg
      | some net => .ok (net, length.toNat)

def cidrMask (length : ℕ) : UInt32 :=
  if length = 0 then 0 else 0xFFFFFFFF <<< (32 - length).toUInt32

def netAclMatch (cidrList ip : CString) : Bool :=
  if cidrList.isEmpty then true
  else match inetPton ip.bytes with
    | none => false
    | some addr =>
      (cidrList.bytes.splitOn comma).any fun entry =>
        match parseCidrEntry (entry.dropWhile isBlank) with
        | .error _ => false
        | .ok (net, length) => addr &&& cidrMask length = net &&& cidrMask length

end Umm
