import Umm.Common.Basic
import Umm.Common.CString
import Umm.Lib.Codec

/-! Message bodies, and the field readers and writers of `protocol_common.c`. -/
namespace Umm
open Umm.Lib

namespace Proto

def ummProtoMaxBody : ℕ := 4096

/-- A body: a fixed buffer, of which the first `len` bytes are the message. -/
structure UmmProtoBody where
  data : List UInt8
  len : UInt16
  size_eq : data.length = ummProtoMaxBody
deriving DecidableEq

/-- The body after writes from position 0 on into a cleared buffer; `none` is a write past its
end. -/
def packBody (fields : List (List UInt8)) : Option UmmProtoBody :=
  if h : fields.flatten.length ≤ ummProtoMaxBody then
    some
      { data := fields.flatten ++ List.replicate (ummProtoMaxBody - fields.flatten.length) 0
        len := UInt16.ofNat fields.flatten.length
        size_eq := by
          rw [List.length_append, List.length_replicate]
          omega }
  else none

/-- The check and the reads of most unpackers. -/
def unpackAtLeast {α : Type} (minLen : ℕ) (fields : Decoder α) (body : UmmProtoBody) :
    Except Error α :=
  if body.len.toNat < minLen then .error .invalidArg else .ok (fields body.data).1

def protoWriteU8 (val : UInt8) : List UInt8 := [val]

def protoWriteU32 (val : UInt32) : List UInt8 := leBytes 4 val.toNat

def protoWriteU64 (val : UInt64) : List UInt8 := leBytes 8 val.toNat

def protoWriteI32 (val : Int32) : List UInt8 := protoWriteU32 val.toUInt32

/-- Exactly `maxLen` bytes: the string, cut or padded with NUL. -/
def protoWriteStr (str : CString) (maxLen : ℕ) : List UInt8 :=
  str.bytes.take maxLen ++ List.replicate (maxLen - str.length) 0

def protoReadU8 : Decoder UInt8 := Decoder.byte

def protoReadU32 : Decoder UInt32 := do
  let v ← Decoder.le 4
  pure (UInt32.ofNat v)

def protoReadU64 : Decoder UInt64 := do
  let v ← Decoder.le 8
  pure (UInt64.ofNat v)

def protoReadI32 : Decoder Int32 := do
  let v ← protoReadU32
  pure v.toInt32

/-- The string that the array holds after `maxLen` bytes were copied to it. -/
def protoReadStr (maxLen : ℕ) : Decoder CString := do
  let bytes ← Decoder.bytes maxLen
  pure (CString.ofBytes bytes)

@[simp] theorem length_protoWriteU8 (val : UInt8) : (protoWriteU8 val).length = 1 := rfl

@[simp] theorem length_protoWriteU32 (val : UInt32) : (protoWriteU32 val).length = 4 :=
  length_leBytes 4 _

@[simp] theorem length_protoWriteU64 (val : UInt64) : (protoWriteU64 val).length = 8 :=
  length_leBytes 8 _

@[simp] theorem length_protoWriteI32 (val : Int32) : (protoWriteI32 val).length = 4 :=
  length_leBytes 4 _

@[simp] theorem length_protoWriteStr (str : CString) (maxLen : ℕ) :
    (protoWriteStr str maxLen).length = maxLen := by
  have hlen : str.bytes.length = str.length := rfl
  rw [protoWriteStr, List.length_append, List.length_take, List.length_replicate, hlen]
  omega

section Decodes

theorem decodes_u8 (val : UInt8) : protoReadU8.Decodes (protoWriteU8 val) val := .byte val

theorem decodes_u32 (val : UInt32) : protoReadU32.Decodes (protoWriteU32 val) val := by
  have h := (Decoder.Decodes.le (k := 4) val.toNat_lt).map UInt32.ofNat
  rwa [UInt32.ofNat_toNat] at h

theorem decodes_u64 (val : UInt64) : protoReadU64.Decodes (protoWriteU64 val) val := by
  have h := (Decoder.Decodes.le (k := 8) val.toNat_lt).map UInt64.ofNat
  rwa [UInt64.ofNat_toNat] at h

theorem decodes_i32 (val : Int32) : protoReadI32.Decodes (protoWriteI32 val) val :=
  (decodes_u32 val.toUInt32).map UInt32.toInt32

/-- A string that fits comes back without its padding. -/
theorem decodes_str {str : CString} {maxLen : ℕ} (h : str.length ≤ maxLen) :
    (protoReadStr maxLen).Decodes (protoWriteStr str maxLen) str := by
  have hd := (Decoder.Decodes.bytes (length_protoWriteStr str maxLen)).map CString.ofBytes
  have htake : str.bytes.take maxLen = str.bytes := List.take_of_length_le h
  have hs : CString.ofBytes (protoWriteStr str maxLen) = str := by
    rw [protoWriteStr, htake, CString.ofBytes_padded]
  rwa [hs] at hd

end Decodes

section Reads

theorem reads_u8 : protoReadU8.Reads 1 := .byte

theorem reads_u32 : protoReadU32.Reads 4 := (Decoder.Reads.le 4).map _

theorem reads_u64 : protoReadU64.Reads 8 := (Decoder.Reads.le 8).map _

theorem reads_i32 : protoReadI32.Reads 4 := reads_u32.map _

theorem reads_str (maxLen : ℕ) : (protoReadStr maxLen).Reads maxLen :=
  (Decoder.Reads.bytes maxLen).map _

end Reads

/-- Writes that fit give a body that begins with them. -/
theorem packBody_ok {fields : List (List UInt8)} (h : fields.flatten.length ≤ ummProtoMaxBody) :
    ∃ body rest, packBody fields = some body ∧ body.len.toNat = fields.flatten.length ∧
      body.data = fields.flatten ++ rest := by
  refine ⟨_, _, by rw [packBody, dif_pos h], ?_, rfl⟩
  unfold ummProtoMaxBody at h
  exact UInt16.toNat_ofNat_of_lt (h.trans_lt (by norm_num))

/-- The reads undo the writes that the body begins with. -/
theorem unpackAtLeast_ok {α : Type} {body : UmmProtoBody} {bytes rest : List UInt8} {minLen : ℕ}
    {d : Decoder α} {m : α} (hlen : body.len.toNat = bytes.length)
    (hdata : body.data = bytes ++ rest) (hd : d.Decodes bytes m) (hmin : minLen ≤ bytes.length) :
    unpackAtLeast minLen d body = .ok m := by
  rw [unpackAtLeast, hlen, if_neg (Nat.not_lt.mpr hmin), hdata, hd.run]

/-- What was packed is unpacked again when the reads undo the writes. -/
theorem unpack_pack {α : Type} {fields : List (List UInt8)} {minLen : ℕ} {d : Decoder α} {m : α}
    (hd : d.Decodes fields.flatten m) (hmin : minLen ≤ fields.flatten.length)
    (hmax : fields.flatten.length ≤ ummProtoMaxBody) :
    ∃ body, packBody fields = some body ∧ unpackAtLeast minLen d body = .ok m := by
  obtain ⟨body, rest, hpack, hlen, hdata⟩ := packBody_ok hmax
  exact ⟨body, hpack, unpackAtLeast_ok hlen hdata hd hmin⟩

/-- The two bodies are the same message. -/
structure SameMessage (a b : UmmProtoBody) : Prop where
  len_eq : a.len = b.len
  data_eq : a.data.take a.len.toNat = b.data.take a.len.toNat

/-- A decoder that reads no more than the message gives the same value on both. -/
theorem SameMessage.value {α : Type} {a b : UmmProtoBody} (h : SameMessage a b) {d : Decoder α}
    {n : ℕ} (hr : d.Reads n) (hn : n ≤ a.len.toNat) : (d a.data).1 = (d b.data).1 :=
  hr.value _ _ (Decoder.take_eq_of_le hn h.data_eq)

theorem SameMessage.unpackAtLeast {α : Type} {a b : UmmProtoBody} (h : SameMessage a b)
    {d : Decoder α} {n minLen : ℕ} (hr : d.Reads n) (hn : a.len.toNat < minLen ∨ n ≤ a.len.toNat) :
    unpackAtLeast minLen d a = unpackAtLeast minLen d b := by
  unfold Proto.unpackAtLeast
  rw [← h.len_eq]
  split_ifs with hlt
  · rfl
  · rw [h.value hr (hn.resolve_left hlt)]

end Proto

end Umm
