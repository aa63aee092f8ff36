import Umm.Protocol.Common

/-! Frames: the header and the body as both sides send them and read them back from a
connection, and the token that a header may carry. -/
namespace Umm

/-- The number behind a status of `umm.h`. -/
def Error.code : Error → Int32
  | .invalidArg => -1
  | .notFound => -2
  | .noMemory => -3
  | .alreadyExists => -4
  | .rpcError => -5
  | .timeout => -6
  | .transportError => -7
  | .notInitialized => -8
  | .unsupported => -9
  | .unknown => -99

theorem Error.code_ne_zero (e : Error) : e.code ≠ 0 := by
  cases e <;> decide

/-- The status of a result as it stands in a reply. -/
def statusOf {α : Type} : Except Error α → Int32
  | .ok _ => 0
  | .error e => e.code

/-- A result with the bare number that the C functions return for an error. -/
def withCode {α : Type} (r : Except Error α) : Except Int32 α := r.mapError Error.code

@[simp] theorem withCode_ok {α : Type} (a : α) : withCode (.ok a : Except Error α) = .ok a := rfl

@[simp] theorem withCode_error {α : Type} (e : Error) :
    withCode (.error e : Except Error α) = .error e.code := rfl

/-- The status of a reply, or its value when the status is 0. -/
def checkStatus {α : Type} (status : Int32) (a : α) : Except Int32 α :=
  if status ≠ 0 then .error status else .ok a

/-- A status and its value are the result that they came from. -/
theorem checkStatus_statusOf {α : Type} (r : Except Error α) (a : α) :
    checkStatus (statusOf r) (r.toOption.getD a) = withCode r := by
  cases r with
  | error e => exact if_pos e.code_ne_zero
  | ok b => rfl

/-- A peer on a connection that loses nothing: what it sends back for a request until it
closes, and its state after that. -/
def Peer (σ : Type) : Type := σ → List UInt8 → Option (List UInt8 × σ)

namespace Proto
open Umm.Lib

def ummProtoMagic : List UInt8 := [0x55, 0x4D, 0x4D, 0x52]

def ummProtoVersion : UInt8 := 1

def ummFlagRequest : UInt8 := 0

def ummFlagResponse : UInt8 := 1

def headerSize : ℕ := 16

structure UmmProtoHeader where
  magic : List UInt8
  version : UInt8
  opcode : UInt8
  flags : UInt8
  reserved0 : UInt8
  bodyLen : UInt16
  reserved : List UInt8
deriving DecidableEq


/-- The memory of the packed struct. -/
def UmmProtoHeader.bytes (hdr : UmmProtoHeader) : List UInt8 :=
  [hdr.magic, [hdr.version], [hdr.opcode], [hdr.flags], [hdr.reserved0],
    leBytes 2 hdr.bodyLen.toNat, hdr.reserved].flatten

def readHeader : Decoder UmmProtoHeader := do
  let magic ← Decoder.bytes 4
  let version ← Decoder.byte
  let opcode ← Decoder.byte
  let flags ← Decoder.byte
  let reserved0 ← Decoder.byte
  let bodyLen ← Decoder.le 2
  let reserved ← Decoder.bytes 6
  pure ⟨magic, version, opcode, flags, reserved0, UInt16.ofNat bodyLen, reserved⟩

/-- The six bytes that a header has room for. -/
def Token : Type := { bytes : List UInt8 // bytes.length = 6 }

instance : DecidableEq Token :=
  inferInstanceAs (DecidableEq { bytes : List UInt8 // bytes.length = 6 })

/-- The bytes of a header that carries no token. -/
def noToken : Token := ⟨List.replicate 6 0, rfl⟩

/-- The header that all senders build. -/
def ummProtoHeader (opcode flags : UInt8) (bodyLen : UInt16) (token : Token) : UmmProtoHeader :=
  ⟨ummProtoMagic, ummProtoVersion, opcode, flags, 0, bodyLen, token.val⟩

def fnvOffsetBasis : UInt64 := 14695981039346656037

def fnvPrime : UInt64 := 1099511628211

/-- FNV-1a, the low six bytes. -/
def ummTokenDigest (token : CString) : Token :=
  if token.bytes = [] then noToken
  else
    ⟨leBytes 6
      (token.bytes.foldl (fun h b => (h ^^^ b.toUInt64) * fnvPrime) fnvOffsetBasis).toNat,
      length_leBytes 6 _⟩

/-- Reads on a connection. The state is what the peer still sends before it closes. -/
abbrev Recv (α : Type) : Type := ExceptT Error (StateM (List UInt8)) α

def ummTcpRecvExact (len : ℕ) : Recv (List UInt8) := fun stream =>
  if stream.length < len then (.error .transportError, [])
  else (.ok (stream.take len), stream.drop len)

/-- The body buffer: cleared, and then filled with the bytes that were received. -/
def UmmProtoBody.received (bytes : List UInt8) : UmmProtoBody where
  data := (bytes ++ List.replicate ummProtoMaxBody 0).take ummProtoMaxBody
  len := UInt16.ofNat bytes.length
  size_eq := by simp

/-- The bytes of the message. -/
def UmmProtoBody.message (body : UmmProtoBody) : List UInt8 := body.data.take body.len.toNat

def UmmProtoHeader.Accepted (hdr : UmmProtoHeader) : Prop :=
  hdr.magic = ummProtoMagic ∧ hdr.version = ummProtoVersion ∧ hdr.bodyLen.toNat ≤ ummProtoMaxBody

instance (hdr : UmmProtoHeader) : Decidable hdr.Accepted := inferInstanceAs (Decidable (_ ∧ _))

def recvHeader : Recv UmmProtoHeader := do
  let bytes ← ummTcpRecvExact headerSize
  pure (readHeader bytes).1

def recvBody (len : UInt16) : Recv UmmProtoBody := do
  let bytes ← ummTcpRecvExact len.toNat
  pure (.received bytes)

/-- `recv_request` of the servers; the clients read replies in the same way. -/
def recvFrame : Recv (UmmProtoHeader × UmmProtoBody) := do
  let hdr ← recvHeader
  if hdr.Accepted then
    let body ← recvBody hdr.bodyLen
    pure (hdr, body)
  else throw .rpcError

/-- The reads of the clients that also compare the request code. -/
def recvReply (opcode : UInt8) : Recv UmmProtoBody := do
  let hdr ← recvHeader
  if hdr.Accepted ∧ hdr.opcode = opcode then recvBody hdr.bodyLen else throw .rpcError

/-- A header and the body behind it. -/
def frame (opcode flags : UInt8) (token : Token) (body : UmmProtoBody) : List UInt8 :=
  (ummProtoHeader opcode flags body.len token).bytes ++ body.message

theorem ummTcpRecvExact_append {bytes : List UInt8} {len : ℕ} (h : bytes.length = len)
    (rest : List UInt8) : ummTcpRecvExact len (bytes ++ rest) = (.ok bytes, rest) := by
  subst h
  simp [ummTcpRecvExact]

theorem ummTcpRecvExact_short {stream : List UInt8} {len : ℕ} (h : stream.length < len) :
    ummTcpRecvExact len stream = (.error .transportError, []) := if_pos h

theorem recv_pure {α : Type} (a : α) (stream : List UInt8) :
    (pure a : Recv α) stream = (.ok a, stream) := rfl

theorem recv_bind {α β : Type} {x : Recv α} {f : α → Recv β} {stream rest : List UInt8} {a : α}
    (h : x stream = (.ok a, rest)) : (x >>= f) stream = f a rest := by
  change (ExceptT.bindCont f (x stream).1) (x stream).2 = f a rest
  rw [h]
  rfl

theorem recv_bind_error {α β : Type} {x : Recv α} {f : α → Recv β} {stream rest : List UInt8}
    {e : Error} (h : x stream = (.error e, rest)) : (x >>= f) stream = (.error e, rest) := by
  change (ExceptT.bindCont f (x stream).1) (x stream).2 = (.error e, rest)
  rw [h]
  rfl

section Header

variable (opcode flags : UInt8) (bodyLen : UInt16) (token : Token)

theorem length_header : (ummProtoHeader opcode flags bodyLen token).bytes.length = headerSize := by
  simp [UmmProtoHeader.bytes, ummProtoHeader, ummProtoMagic, headerSize, token.property]

theorem decodes_header :
    readHeader.Decodes (ummProtoHeader opcode flags bodyLen token).bytes
      (ummProtoHeader opcode flags bodyLen token) := by
  have hlen : bodyLen.toNat < 256 ^ 2 := bodyLen.toNat_lt
  have hmagic : ummProtoMagic.length = 4 := rfl
  have hd : readHeader.Decodes (ummProtoHeader opcode flags bodyLen token).bytes
      (ummProtoHeader opcode flags (UInt16.ofNat bodyLen.toNat) token) :=
    (Decoder.Decodes.bytes hmagic).bind <| (Decoder.Decodes.byte _).bind <|
      (Decoder.Decodes.byte _).bind <| (Decoder.Decodes.byte _).bind <|
      (Decoder.Decodes.byte _).bind <| (Decoder.Decodes.le hlen).bind <|
      (Decoder.Decodes.bytes token.property).bind <| .pure _
  rwa [UInt16.ofNat_toNat] at hd

theorem recvHeader_header (rest : List UInt8) :
    recvHeader ((ummProtoHeader opcode flags bodyLen token).bytes ++ rest) =
      (.ok (ummProtoHeader opcode flags bodyLen token), rest) := by
  have hread := (decodes_header opcode flags bodyLen token).run []
  rw [List.append_nil] at hread
  rw [recvHeader,
    recv_bind (ummTcpRecvExact_append (length_header opcode flags bodyLen token) rest), hread]
  rfl

end Header

/-- Nothing but the message stands in the buffer. -/
def UmmProtoBody.Cleared (body : UmmProtoBody) : Prop :=
  body.len.toNat ≤ ummProtoMaxBody ∧ body = .received body.message

theorem UmmProtoBody.Cleared.length_message {body : UmmProtoBody} (h : body.Cleared) :
    body.message.length = body.len.toNat := by
  rw [message, List.length_take, body.size_eq, Nat.min_eq_left h.1]

theorem packBody_cleared {fields : List (List UInt8)} {body : UmmProtoBody}
    (h : packBody fields = some body) : body.Cleared ∧ body.message = fields.flatten := by
  unfold packBody at h
  split_ifs at h with hfit
  obtain rfl := Option.some.inj h
  have hlen : (UInt16.ofNat fields.flatten.length).toNat = fields.flatten.length := by
    unfold ummProtoMaxBody at hfit
    exact UInt16.toNat_ofNat_of_lt (hfit.trans_lt (by norm_num))
  have hmsg : (fields.flatten ++
      List.replicate (ummProtoMaxBody - fields.flatten.length) (0 : UInt8)).take
        (UInt16.ofNat fields.flatten.length).toNat = fields.flatten := by
    rw [hlen, List.take_left]
  refine ⟨⟨hlen.le.trans hfit, ?_⟩, hmsg⟩
  unfold UmmProtoBody.message
  simp only [hmsg, UmmProtoBody.received, UmmProtoBody.mk.injEq, and_true]
  rw [List.take_append, List.take_of_length_le hfit, List.take_replicate,
    Nat.min_eq_left (Nat.sub_le _ _)]

theorem recvBody_message {body : UmmProtoBody} (hb : body.Cleared) (rest : List UInt8) :
    recvBody body.len (body.message ++ rest) = (.ok body, rest) := by
  rw [recvBody, recv_bind (ummTcpRecvExact_append hb.length_message rest), ← hb.2]
  rfl

/-- A frame that arrives whole is read back, and nothing behind it. -/
theorem recvFrame_frame (opcode flags : UInt8) (token : Token) {body : UmmProtoBody}
    (hb : body.Cleared) (rest : List UInt8) :
    recvFrame (frame opcode flags token body ++ rest) =
      (.ok (ummProtoHeader opcode flags body.len token, body), rest) := by
  have hacc : (ummProtoHeader opcode flags body.len token).Accepted := ⟨rfl, rfl, hb.1⟩
  rw [frame, List.append_assoc, recvFrame, recv_bind (recvHeader_header _ _ _ _ _), if_pos hacc]
  exact recv_bind (recvBody_message hb rest)

theorem recvReply_frame (opcode flags : UInt8) (token : Token) {body : UmmProtoBody}
    (hb : body.Cleared) (rest : List UInt8) :
    recvReply opcode (frame opcode flags token body ++ rest) = (.ok body, rest) := by
  have hacc : (ummProtoHeader opcode flags body.len token).Accepted := ⟨rfl, rfl, hb.1⟩
  rw [frame, List.append_assoc, recvReply, recv_bind (recvHeader_header _ _ _ _ _),
    if_pos ⟨hacc, rfl⟩]
  exact recvBody_message hb rest

theorem length_frame (opcode flags : UInt8) (token : Token) {body : UmmProtoBody}
    (hb : body.Cleared) :
    (frame opcode flags token body).length = headerSize + body.len.toNat := by
  rw [frame, List.length_append, length_header, hb.length_message]

/-- A frame that breaks off has its header whole, or not. -/
private theorem frame_take {opcode flags : UInt8} {token : Token} {body : UmmProtoBody} {k : ℕ}
    (h : headerSize ≤ k) :
    (frame opcode flags token body).take k =
      (ummProtoHeader opcode flags body.len token).bytes ++ body.message.take (k - headerSize) := by
  rw [frame, List.take_append, length_header, List.take_of_length_le]
  rw [length_header]
  exact h

private theorem recvBody_short {body : UmmProtoBody} (hb : body.Cleared) {k : ℕ}
    (h : k < body.len.toNat) : recvBody body.len (body.message.take k) = (.error .transportError, []) := by
  have hshort : (body.message.take k).length < body.len.toNat := by
    rw [List.length_take, hb.length_message]
    omega
  exact recv_bind_error (ummTcpRecvExact_short hshort)

private theorem recvHeader_short {stream : List UInt8} (h : stream.length < headerSize) :
    recvHeader stream = (.error .transportError, []) :=
  recv_bind_error (ummTcpRecvExact_short h)

/-- A frame that breaks off is an error of the transport. -/
theorem recvFrame_take (opcode flags : UInt8) (token : Token) {body : UmmProtoBody}
    (hb : body.Cleared) {k : ℕ} (h : k < headerSize + body.len.toNat) :
    recvFrame ((frame opcode flags token body).take k) = (.error .transportError, []) := by
  by_cases hk : headerSize ≤ k
  · have hacc : (ummProtoHeader opcode flags body.len token).Accepted := ⟨rfl, rfl, hb.1⟩
    rw [frame_take hk, recvFrame, recv_bind (recvHeader_header _ _ _ _ _), if_pos hacc]
    exact recv_bind_error (recvBody_short hb (by omega))
  · refine recv_bind_error (recvHeader_short ?_)
    rw [List.length_take]
    omega

theorem recvReply_take (opcode flags : UInt8) (token : Token) {body : UmmProtoBody}
    (hb : body.Cleared) {k : ℕ} (h : k < headerSize + body.len.toNat) :
    recvReply opcode ((frame opcode flags token body).take k) = (.error .transportError, []) := by
  by_cases hk : headerSize ≤ k
  · have hacc : (ummProtoHeader opcode flags body.len token).Accepted := ⟨rfl, rfl, hb.1⟩
    rw [frame_take hk, recvReply, recv_bind (recvHeader_header _ _ _ _ _), if_pos ⟨hacc, rfl⟩]
    exact recvBody_short hb (by omega)
  · refine recv_bind_error (recvHeader_short ?_)
    rw [List.length_take]
    omega

/-- A stream that begins with a frame, cut somewhere: inside the frame, or behind it. -/
theorem take_frame_append (opcode flags : UInt8) (token : Token) {body : UmmProtoBody}
    (hb : body.Cleared) (rest : List UInt8) (k : ℕ) :
    (k < headerSize + body.len.toNat ∧
        (frame opcode flags token body ++ rest).take k = (frame opcode flags token body).take k) ∨
      headerSize + body.len.toNat ≤ k ∧ (frame opcode flags token body ++ rest).take k =
        frame opcode flags token body ++ rest.take (k - (headerSize + body.len.toNat)) := by
  have hlen := length_frame opcode flags token hb
  by_cases hk : k < headerSize + body.len.toNat
  · exact .inl ⟨hk, List.take_append_of_le_length (by omega)⟩
  · refine .inr ⟨Nat.not_lt.mp hk, ?_⟩
    rw [List.take_append, hlen, List.take_of_length_le (by omega)]

end Proto

end Umm
