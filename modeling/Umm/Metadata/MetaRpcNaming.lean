import Umm.Metadata.MetaRpcSpec

/-! Which names mean the same over the metadata protocol as on the direct service. -/
namespace Umm
open Umm.Lib Proto MetaRpcServer MetaRpcClient

abbrev directVtbl : MetadataServiceVtbl Directory := metaVtbl (MetaHashTable ChunkMetadata)

/-- Registering and looking up the name over the protocol give the status, the outputs and the
directory that the direct service gives. -/
structure NamingAgrees (stack : List UInt8) (name : CString) (gpa size : UInt64)
    (ctx : Directory) : Prop where
  register : metaRpcRegisterChunk (metaPeer directVtbl stack) ctx name gpa size =
    (directVtbl.registerChunk ctx name gpa size).map fun r => (withCode r.1, r.2)
  lookup : metaRpcLookupChunk (metaPeer directVtbl stack) ctx name =
    some (withCode (directVtbl.lookupChunk ctx name), ctx)

section NameString

variable {name : CString} {gpa size : UInt64} {stack : List UInt8}

theorem nameString_short (h : name.length < 64) :
    MetaRegisterChunkReq.nameString ⟨wireName name, gpa, size⟩ stack = name := by
  have hw : wireName name = name := wireName_eq h.le
  rw [MetaRegisterChunkReq.nameString, hw, if_pos h]

/-- A name that fills its field runs on into the address. -/
theorem nameString_full (h : name.length = 64) :
    MetaRegisterChunkReq.nameString ⟨wireName name, gpa, size⟩ stack =
      CString.ofBytes (name.bytes ++ (protoWriteU64 gpa ++ (protoWriteU64 size ++ stack))) := by
  have hw : wireName name = name := wireName_eq h.le
  have hlong : ¬ name.length < 64 := by omega
  rw [MetaRegisterChunkReq.nameString, hw, if_neg hlong]

/-- The bytes of a string, and those behind it up to the first NUL. -/
theorem ofBytes_append (name : CString) (bytes : List UInt8) :
    (CString.ofBytes (name.bytes ++ bytes)).bytes = name.bytes ++ bytes.takeWhile (· ≠ 0) := by
  have hmem : ∀ b ∈ name.bytes, (b ≠ 0 : Bool) = true := by
    intro b hb
    have hne : b ≠ 0 := fun he => name.property (he ▸ hb)
    simpa using hne
  exact List.takeWhile_append_of_pos hmem

theorem protoWriteU64_cons (val : UInt64) :
    ∃ rest, protoWriteU64 val = UInt8.ofNat (val.toNat % 256) :: rest := by
  have hmask : val.toNat &&& 0xFF = val.toNat % 256 := Nat.and_two_pow_sub_one_eq_mod _ 8
  refine ⟨leBytes 7 (val.toNat >>> 8), ?_⟩
  rw [protoWriteU64, leBytes, hmask]

theorem nameString_full_iff (h : name.length = 64) :
    MetaRegisterChunkReq.nameString ⟨wireName name, gpa, size⟩ stack = name ↔
      gpa.toNat % 256 = 0 := by
  obtain ⟨rest, hgpa⟩ := protoWriteU64_cons gpa
  have hzero : UInt8.ofNat (gpa.toNat % 256) = 0 ↔ gpa.toNat % 256 = 0 := by
    have hlt : gpa.toNat % 256 < 256 := Nat.mod_lt _ (by norm_num)
    constructor
    · intro he
      have := congrArg UInt8.toNat he
      rwa [UInt8.toNat_ofNat_of_lt' hlt] at this
    · intro he
      rw [he]
      rfl
  rw [nameString_full h, hgpa, ← hzero]
  constructor
  · intro he
    by_contra hne
    have hbytes := congrArg CString.bytes he
    rw [ofBytes_append] at hbytes
    have hnil := List.append_right_eq_self.mp hbytes
    simp [hne] at hnil
  · intro he
    apply CString.ext
    rw [ofBytes_append, he]
    simp

end NameString

section OneName

/-- The directory that the direct service starts with. -/
def firstDirectory : Directory := .empty ⟨List.replicate 64 .empty, 64, 0, 0⟩

theorem metaInit_first : MetaInit firstDirectory := rfl

theorem firstDirectory_refines : firstDirectory.chunkTable.Refines fun _ => none := by
  have hcreate : mhtCreate ChunkMetadata 64 = some firstDirectory.chunkTable := rfl
  exact mhtInit_refines (.create hcreate (by decide))

theorem insertSafe_none {ht : MetaHashTable ChunkMetadata} (h : ht.Refines fun _ => none)
    (key : CString) : InsertSafe ht key := by
  intro s _ j hj x hx _
  have := (h.content x.key x.value).mpr ⟨j, hj, x, hx, rfl, rfl⟩
  cases this

/-- After the first registration the directory maps its name and no other. -/
theorem register_first (name : CString) (gpa size : ℕ) :
    ∃ ctx, implRegisterChunk firstDirectory name gpa size = some (.ok 1, ctx) ∧
      implLookupChunk ctx name = .ok ⟨1, storedName name, gpa, size, 0, 0⟩ ∧
      ∀ other, other ≠ name → implLookupChunk ctx other = .error .notFound := by
  have href := firstDirectory_refines
  have hcap : newChunkCapacity 0 1 = some 16 := by decide
  obtain ⟨table, hins, href'⟩ := (mhtInsert_refines href (by decide) name
    ⟨1, storedName name, gpa, size, 0, 0⟩ fun ht hg => by
      obtain ⟨ht1, hg1, href1, -⟩ := mhtMaybeGrow_refines href (by decide)
      obtain rfl := Option.some.inj (hg.symm.trans hg1)
      exact insertSafe_none href1 name).2 rfl
  refine ⟨{ firstDirectory with
    chunkTable := table
    chunks := (growChunks [] 16).set 0 ⟨1, 1, true, ⟨1, storedName name, gpa, size, 0, 0⟩⟩
    chunkCapacity := 16
    nextChunkId := 2 }, ?_, ?_, ?_⟩
  · have hlook : NameTable.lookup firstDirectory.chunkTable name = .error .notFound :=
      mhtLookup_none href rfl
    have hins' : NameTable.insert firstDirectory.chunkTable name
        (⟨1, storedName name, gpa, size, 0, 0⟩ : ChunkMetadata) = some (.ok (), table) := hins
    unfold implRegisterChunk
    rw [hlook]
    simp only [firstDirectory, MetaServiceCtx.empty] at hins' ⊢
    simp only [hcap, hins', show u64 (1 + 1) = 2 from rfl, if_neg Nat.one_ne_zero]
    rfl
  · exact mhtLookup_some href' (Function.update_self ..)
  · intro other hne
    exact mhtLookup_none href' (by rw [Function.update_of_ne hne])

end OneName

section Agreement

variable {stack : List UInt8} {name : CString} {gpa size : UInt64} {ctx : Directory}

theorem lookup_fits (h : ctx.NamesFit) {chunk : Proto.ChunkMetadata}
    (hl : directVtbl.lookupChunk ctx name = .ok chunk) : chunk.name.length ≤ 63 := by
  have hl' : (implLookupChunk ctx name).map ChunkMetadata.wire = .ok chunk := hl
  cases hr : implLookupChunk ctx name with
  | error e => simp [hr, Except.map] at hl'
  | ok info =>
    rw [hr] at hl'
    obtain rfl := Except.ok.inj hl'
    have hfits : info.NameFits := mhtLookup_value h.table hr
    exact hfits

/-- The name that the server finds is the one that was sent. -/
def NameArrives (name : CString) (gpa : UInt64) : Prop :=
  name.length < 64 ∨ name.length = 64 ∧ gpa.toNat % 256 = 0

theorem namingAgrees_of_arrives (h : ctx.NamesFit) (ha : NameArrives name gpa) :
    NamingAgrees stack name gpa size ctx := by
  have hle : name.length ≤ 64 := by
    rcases ha with ha | ha
    · exact ha.le
    · exact ha.1.le
  have hstring : MetaRegisterChunkReq.nameString ⟨wireName name, gpa, size⟩ stack = name := by
    rcases ha with ha | ⟨hlen, hgpa⟩
    · exact nameString_short ha
    · exact (nameString_full_iff hlen).mpr hgpa
  constructor
  · rw [metaRpcRegisterChunk_served, hstring]
  · have hw : wireName name = name := wireName_eq hle
    have hserved : metaRpcLookupChunk (metaPeer directVtbl stack) ctx name =
        some (withCode (directVtbl.lookupChunk ctx (wireName name)), ctx) :=
      metaRpcLookupChunk_served name fun chunk hc => lookup_fits h hc
    rwa [hw] at hserved

/-- A name that is cut is not found again where it was registered. -/
theorem not_agrees_long (hlen : 64 < name.length) :
    ∃ ctx, Reach MetaInit MetaStep ctx ∧ ¬ NamingAgrees stack name gpa size ctx := by
  obtain ⟨ctx, hreg, hown, hother⟩ := register_first name 0 0
  have hreach : Reach MetaInit MetaStep ctx :=
    .next (.register name 0 0) (.start metaInit_first) (.register hreg)
  refine ⟨ctx, hreach, fun hagree => ?_⟩
  have hne : wireName name ≠ name := by
    intro he
    have := length_wireName name
    rw [he] at this
    omega
  have hmiss : directVtbl.lookupChunk ctx (wireName name) = .error .notFound := by
    change (implLookupChunk ctx (wireName name)).map ChunkMetadata.wire = _
    rw [hother _ hne]
    rfl
  have hhit : directVtbl.lookupChunk ctx name =
      .ok (ChunkMetadata.wire ⟨1, storedName name, 0, 0, 0, 0⟩) := by
    change (implLookupChunk ctx name).map ChunkMetadata.wire = _
    rw [hown]
    rfl
  have hlookup := hagree.lookup
  rw [metaRpcLookupChunk_served name fun chunk hc => lookup_fits (metaRun_namesFit hreach) hc,
    hmiss, hhit] at hlookup
  cases hlookup

/-- A name that runs on into the address is registered with the address as part of it. -/
theorem not_agrees_full (hlen : name.length = 64) (hgpa : gpa.toNat % 256 ≠ 0) :
    ¬ NamingAgrees stack name gpa size firstDirectory := by
  intro hagree
  set sent := MetaRegisterChunkReq.nameString ⟨wireName name, gpa, size⟩ stack with hsent
  have hne : name ≠ sent := fun he => hgpa ((nameString_full_iff hlen).mp he.symm)
  obtain ⟨ctx, hreg, hown, -⟩ := register_first name gpa.toNat size.toNat
  obtain ⟨ctx', hreg', -, hother⟩ := register_first sent gpa.toNat size.toNat
  have hregister := hagree.register
  rw [metaRpcRegisterChunk_served, ← hsent] at hregister
  simp only [metaVtbl, hreg, hreg', Option.map_some, Option.some.injEq, Prod.mk.injEq] at hregister
  rw [← hregister.2, hother name hne] at hown
  cases hown

end Agreement

/-- The names that mean the same over the protocol in every state of the directory. -/
theorem metaRpc_naming_iff (stack : List UInt8) (name : CString) (gpa size : UInt64) :
    (∀ ctx, Reach MetaInit MetaStep ctx → NamingAgrees stack name gpa size ctx) ↔
      name.length < 64 ∨ name.length = 64 ∧ gpa.toNat % 256 = 0 := by
  constructor
  · intro h
    by_contra hc
    by_cases hlen : 64 < name.length
    · obtain ⟨ctx, hreach, hnot⟩ := not_agrees_long hlen
      exact hnot (h ctx hreach)
    · have hfull : name.length = 64 := by omega
      exact not_agrees_full hfull (fun hg => hc (.inr ⟨hfull, hg⟩))
        (h firstDirectory (.start metaInit_first))
  · intro ha ctx hreach
    exact namingAgrees_of_arrives (metaRun_namesFit hreach) ha

/-- 65 times the letter a: once it is registered on the direct service, a lookup over the
protocol asks for its first 64 bytes. -/
theorem metaRpc_not_naming :
    ∃ ctx, Reach MetaInit MetaStep ctx ∧
      ¬ NamingAgrees [] (CString.ofBytes (List.replicate 65 97)) 0 4096 ctx :=
  not_agrees_long (by decide)

end Umm
