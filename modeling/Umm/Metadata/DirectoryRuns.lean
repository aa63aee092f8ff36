import Umm.Metadata.DirectorySpec
import Umm.Metadata.HashTableRuns

/-! Whole runs of the chunk directory over a name table that is a correct map. The index by
name and the index by identifier agree as long as no chunk is dropped whose name was too long
for its record, and fewer than 2^31 identifiers are given out. -/
namespace Umm
open Umm.Lib

/-- A name table that behaves as a map from names to records. -/
class LawfulNameTable (N : Type) extends NameTable N where
  contents : N → CString → Option ChunkMetadata
  lookup_eq : ∀ table name, lookup table name = specLookup (contents table) name
  insert_eq : ∀ table name record, ∃ table',
    insert table name record = some ((specInsert (contents table) name record).1, table') ∧
      contents table' = (specInsert (contents table) name record).2
  remove_eq : ∀ table name, contents (remove table name).2 = (specRemove (contents table) name).2

/-- The map itself as a name table. -/
instance : LawfulNameTable (CString → Option ChunkMetadata) where
  lookup := specLookup
  insert table name record := some (specInsert table name record)
  remove := specRemove
  contents := id
  lookup_eq _ _ := rfl
  insert_eq _ _ _ := ⟨_, rfl, rfl⟩
  remove_eq _ _ := rfl

open LawfulNameTable (contents)

structure DirState (N : Type) where
  ctx : MetaServiceCtx N
  /-- The identifiers that were given out, with the names that were registered. -/
  issued : List (ℕ × CString)

inductive DirOp where
  | register (name : CString) (gpa size : UInt64)
  | unregister (chunkId : UInt64)
  | addRef (chunkId : UInt64)
  | releaseRef (chunkId : UInt64)

section Runs

variable {N : Type} [LawfulNameTable N]

inductive DirInit : DirState N → Prop
  | create {table : N} : contents table = (fun _ => none) → DirInit ⟨.empty table, []⟩

inductive DirStep : DirState N → DirOp → DirState N → Prop
  | register {s : DirState N} {name : CString} {gpa size : UInt64} {cid : ℕ}
      {ctx' : MetaServiceCtx N} :
      implRegisterChunk s.ctx name gpa.toNat size.toNat = some (.ok cid, ctx') →
      DirStep s (.register name gpa size) ⟨ctx', (cid, name) :: s.issued⟩
  | registerFailed {s : DirState N} {name : CString} {gpa size : UInt64} {e : Error}
      {ctx' : MetaServiceCtx N} :
      implRegisterChunk s.ctx name gpa.toNat size.toNat = some (.error e, ctx') →
      DirStep s (.register name gpa size) ⟨ctx', s.issued⟩
  | unregister {s : DirState N} {chunkId : UInt64} :
      DirStep s (.unregister chunkId) ⟨(implUnregisterChunk s.ctx chunkId.toNat).2, s.issued⟩
  | addRef {s : DirState N} {chunkId : UInt64} :
      DirStep s (.addRef chunkId) ⟨(implAddRef s.ctx chunkId.toNat).2, s.issued⟩
  | releaseRef {s : DirState N} {chunkId : UInt64} :
      DirStep s (.releaseRef chunkId) ⟨(implReleaseRef s.ctx chunkId.toNat).2, s.issued⟩

namespace DirState

/-- The chunk is valid and was registered under the name. -/
def Holds (s : DirState N) (id : ℕ) (name : CString) : Prop :=
  (findChunkById s.ctx id).isSome ∧ (id, name) ∈ s.issued

/-- The two indexes agree, names without a valid chunk can be registered, and no identifier is
given out twice. -/
structure Consistent (s : DirState N) : Prop where
  lookup_iff : ∀ name id, (∃ record, implLookupChunk s.ctx name = .ok record ∧
    record.chunkId = id) ↔ s.Holds id name
  same_record : ∀ name record, implLookupChunk s.ctx name = .ok record →
    implLookupChunkById s.ctx record.chunkId = .ok record
  register_again : ∀ name gpa size, (∀ id, ¬ s.Holds id name) →
    ∃ cid ctx', implRegisterChunk s.ctx name gpa size = some (.ok cid, ctx')
  ids_nodup : (s.issued.map Prod.fst).Nodup

/-- The names of the chunk fit into its record. -/
def Fits (s : DirState N) (id : ℕ) : Prop := ∀ name, (id, name) ∈ s.issued → name.length ≤ 63

/-- A call that drops a valid chunk finds one whose name fits, and a new name finds fewer than
2^31 identifiers given out. -/
def Safe (s : DirState N) : DirOp → Prop
  | .register name _ _ => implLookupChunk s.ctx name = .error .notFound → s.ctx.nextChunkId < 2 ^ 31
  | .unregister id => (findChunkById s.ctx id.toNat).isSome → s.Fits id.toNat
  | .addRef _ => True
  | .releaseRef id =>
    ∀ ce, findChunkById s.ctx id.toNat = some ce → ce.refCount ≤ 1 → s.Fits id.toNat

structure Inv (s : DirState N) : Prop where
  wf : s.ctx.WF
  next_le : s.ctx.nextChunkId ≤ 2 ^ 31
  issued_lt : ∀ p ∈ s.issued, p.1 < s.ctx.nextChunkId
  nodup : (s.issued.map Prod.fst).Nodup
  /-- Every valid chunk has its identifier and its shortened name in its record. -/
  entry : ∀ id ce, findChunkById s.ctx id = some ce →
    ce.info.chunkId = id ∧ ∃ name, (id, name) ∈ s.issued ∧ ce.info.name = storedName name
  contents_iff : ∀ name record, contents s.ctx.chunkTable name = some record ↔
    ∃ id ce, findChunkById s.ctx id = some ce ∧ (id, name) ∈ s.issued ∧ ce.info = record

end DirState

theorem storedName_eq {name : CString} (h : name.length ≤ 63) : storedName name = name := by
  have htake : name.bytes.take 63 = name.bytes := List.take_of_length_le h
  rw [storedName, htake, CString.ofBytes_bytes]

namespace DirState.Inv

variable {s : DirState N}

/-- An identifier has one name. -/
theorem name_unique (h : s.Inv) {id : ℕ} {name name' : CString} (h1 : (id, name) ∈ s.issued)
    (h2 : (id, name') ∈ s.issued) : name = name' := by
  have := List.inj_on_of_nodup_map h.nodup h1 h2 rfl
  exact (Prod.mk.inj this).2

/-- A name has one valid chunk. -/
theorem id_unique (h : s.Inv) {i j : ℕ} {ce ce' : ChunkEntry} {name : CString}
    (hi : findChunkById s.ctx i = some ce) (hin : (i, name) ∈ s.issued)
    (hj : findChunkById s.ctx j = some ce') (hjn : (j, name) ∈ s.issued) : i = j := by
  have h1 := (h.contents_iff name ce.info).mpr ⟨i, ce, hi, hin, rfl⟩
  have h2 := (h.contents_iff name ce'.info).mpr ⟨j, ce', hj, hjn, rfl⟩
  have hinfo : ce.info = ce'.info := Option.some.inj (h1.symm.trans h2)
  rw [← (h.entry i ce hi).1, ← (h.entry j ce' hj).1, hinfo]

theorem contents_none (h : s.Inv) {name : CString} (hn : ∀ id, ¬ s.Holds id name) :
    contents s.ctx.chunkTable name = none := by
  cases hc : contents s.ctx.chunkTable name with
  | none => rfl
  | some record =>
    obtain ⟨id, ce, hf, hmem, -⟩ := (h.contents_iff name record).mp hc
    exact absurd ⟨by rw [hf]; rfl, hmem⟩ (hn id)

theorem consistent (h : s.Inv) : s.Consistent := by
  have hlookup : ∀ name record, implLookupChunk s.ctx name = .ok record ↔
      contents s.ctx.chunkTable name = some record := by
    intro name record
    rw [implLookupChunk, LawfulNameTable.lookup_eq, specLookup]
    cases contents s.ctx.chunkTable name <;> simp
  refine ⟨fun name id => ?_, fun name record hr => ?_, fun name gpa size hn => ?_, h.nodup⟩
  · constructor
    · rintro ⟨record, hr, rfl⟩
      obtain ⟨id, ce, hf, hmem, rfl⟩ := (h.contents_iff _ _).mp ((hlookup _ _).mp hr)
      rw [(h.entry id ce hf).1]
      exact ⟨by rw [hf]; rfl, hmem⟩
    · rintro ⟨hf, hmem⟩
      obtain ⟨ce, hf⟩ := Option.isSome_iff_exists.mp hf
      exact ⟨ce.info, (hlookup _ _).mpr ((h.contents_iff _ _).mpr ⟨id, ce, hf, hmem, rfl⟩),
        (h.entry id ce hf).1⟩
  · obtain ⟨id, ce, hf, -, rfl⟩ := (h.contents_iff _ _).mp ((hlookup _ _).mp hr)
    rw [implLookupChunkById, (h.entry id ce hf).1, hf]
  · have hnone := h.contents_none hn
    obtain ⟨table', hi, -⟩ := LawfulNameTable.insert_eq s.ctx.chunkTable name
      (s.ctx.newRecord name gpa size)
    rw [specInsert, hnone] at hi
    have hl : NameTable.lookup s.ctx.chunkTable name = .error .notFound := by
      rw [LawfulNameTable.lookup_eq, specLookup, hnone]
    obtain ⟨ctx', hr⟩ := implRegisterChunk_ok h.wf h.next_le hl hi
    exact ⟨_, ctx', hr⟩

/-- An entry that keeps its record may change. -/
theorem setChunk (h : s.Inv) {id : ℕ} {ce ce' : ChunkEntry}
    (hf : findChunkById s.ctx id = some ce) (hv : ce'.valid = true) (hinfo : ce'.info = ce.info) :
    DirState.Inv ⟨s.ctx.setChunk id ce', s.issued⟩ := by
  obtain ⟨h0, hlt, -⟩ := findChunkById_range hf
  have hfind := findChunkById_setChunk h.wf h0 hlt ce'
  simp only [hv, if_true] at hfind
  have hinfos : ∀ j record, (∃ c, findChunkById (s.ctx.setChunk id ce') j = some c ∧
      c.info = record) ↔ ∃ c, findChunkById s.ctx j = some c ∧ c.info = record := by
    intro j record
    rw [hfind j]
    split_ifs with hj
    · subst hj
      simp [hf, hinfo]
    · rfl
  refine ⟨h.wf.setChunk id ce', h.next_le, h.issued_lt, h.nodup, fun j c hj => ?_,
    fun name record => ?_⟩
  · obtain ⟨c', hj', hc'⟩ := (hinfos j c.info).mp ⟨c, hj, rfl⟩
    rw [← hc']
    exact h.entry j c' hj'
  · rw [show contents (s.ctx.setChunk id ce').chunkTable name =
      contents s.ctx.chunkTable name from rfl, h.contents_iff]
    constructor
    · rintro ⟨j, c, hc, hmem, hr⟩
      obtain ⟨c', hc', hr'⟩ := (hinfos j record).mpr ⟨c, hc, hr⟩
      exact ⟨j, c', hc', hmem, hr'⟩
    · rintro ⟨j, c, hc, hmem, hr⟩
      obtain ⟨c', hc', hr'⟩ := (hinfos j record).mp ⟨c, hc, hr⟩
      exact ⟨j, c', hc', hmem, hr'⟩

/-- A chunk whose name fits is dropped from both indexes. -/
theorem dropChunk (h : s.Inv) {id : ℕ} {ce ce' : ChunkEntry}
    (hf : findChunkById s.ctx id = some ce) (hfits : s.Fits id) (hinfo : ce'.info = ce.info) :
    DirState.Inv ⟨Umm.dropChunk s.ctx id ce', s.issued⟩ := by
  have hfind := findChunkById_dropChunk h.wf hf ce'
  obtain ⟨-, name, hmem, hname⟩ := h.entry id ce hf
  have hcontents : contents (Umm.dropChunk s.ctx id ce').chunkTable =
      Function.update (contents s.ctx.chunkTable) name none := by
    rw [Umm.dropChunk, LawfulNameTable.remove_eq, hinfo, hname, storedName_eq (hfits name hmem),
      specRemove, (h.contents_iff name ce.info).mpr ⟨id, ce, hf, hmem, rfl⟩]
  refine ⟨h.wf.dropChunk id ce', h.next_le, h.issued_lt, h.nodup, fun j c hj => ?_,
    fun name' record => ?_⟩
  · rw [hfind j] at hj
    split_ifs at hj
    exact h.entry j c hj
  · simp only [hcontents, hfind]
    by_cases hn : name' = name
    · subst hn
      rw [Function.update_self]
      constructor
      · intro hc
        cases hc
      · rintro ⟨j, c, hc, hmem', -⟩
        split_ifs at hc with hj
        exact absurd (h.id_unique hc hmem' hf hmem) hj
    · rw [Function.update_of_ne hn, h.contents_iff]
      constructor
      · rintro ⟨j, c, hc, hmem', hr⟩
        have hj : j ≠ id := by
          rintro rfl
          exact hn (h.name_unique hmem' hmem)
        exact ⟨j, c, by rw [if_neg hj]; exact hc, hmem', hr⟩
      · rintro ⟨j, c, hc, hmem', hr⟩
        split_ifs at hc
        exact ⟨j, c, hc, hmem', hr⟩

/-- The name of a registration that gets past the check is not in the table. -/
theorem contents_of_lookup {name : CString} {e : Error}
    (hl : NameTable.lookup s.ctx.chunkTable name = .error e) :
    contents s.ctx.chunkTable name = none ∧ e = .notFound := by
  rw [LawfulNameTable.lookup_eq, specLookup] at hl
  split at hl
  · rename_i hn
    exact ⟨hn, (Except.error.inj hl).symm⟩
  · cases hl

theorem registered (h : s.Inv) {name : CString} {gpa size : ℕ} {ctx' : MetaServiceCtx N}
    (hn : s.ctx.nextChunkId < 2 ^ 31) (hnone : contents s.ctx.chunkTable name = none)
    (hi : NameTable.insert s.ctx.chunkTable name (s.ctx.newRecord name gpa size) =
      some (.ok (), ctx'.chunkTable))
    (hg : Given s.ctx ctx' ⟨s.ctx.nextChunkId, 1, true, s.ctx.newRecord name gpa size⟩) :
    DirState.Inv ⟨ctx', (s.ctx.nextChunkId, name) :: s.issued⟩ := by
  have hfind := hg.find
  simp only [if_true] at hfind
  have hfresh : ∀ p ∈ s.issued, p.1 ≠ s.ctx.nextChunkId := fun p hp => (h.issued_lt p hp).ne
  have hcontents : contents ctx'.chunkTable = Function.update (contents s.ctx.chunkTable) name
      (some (s.ctx.newRecord name gpa size)) := by
    obtain ⟨table', hi', hc⟩ := LawfulNameTable.insert_eq s.ctx.chunkTable name
      (s.ctx.newRecord name gpa size)
    have htable : ctx'.chunkTable = table' := by
      have := Option.some.inj (hi.symm.trans hi')
      exact (Prod.mk.inj this).2
    rw [htable, hc, specInsert, hnone]
  refine ⟨hg.wf, ?_, ?_, ?_, ?_, ?_⟩
  · dsimp only
    rw [hg.next_eq]
    omega
  · intro p hp
    dsimp only
    rw [hg.next_eq]
    rcases List.mem_cons.mp hp with rfl | hp
    · exact Nat.lt_succ_self _
    · exact (h.issued_lt p hp).trans (Nat.lt_succ_self _)
  · refine List.nodup_cons.mpr ⟨?_, h.nodup⟩
    rw [List.mem_map]
    rintro ⟨p, hp, he⟩
    exact hfresh p hp he
  · intro id ce hf
    dsimp only at hf
    rw [hfind id] at hf
    split_ifs at hf with hid
    · obtain rfl := Option.some.inj hf
      exact ⟨hid.symm, name, by rw [hid]; exact List.mem_cons_self, rfl⟩
    · obtain ⟨hc, name', hmem, hname⟩ := h.entry id ce hf
      exact ⟨hc, name', List.mem_cons_of_mem _ hmem, hname⟩
  · intro name' record
    simp only [hcontents, hfind, List.mem_cons, Prod.mk.injEq]
    by_cases hn' : name' = name
    · subst hn'
      rw [Function.update_self, Option.some.injEq]
      constructor
      · intro hr
        exact ⟨_, _, by rw [if_pos rfl], Or.inl ⟨rfl, rfl⟩, hr⟩
      · rintro ⟨j, c, hc, hmem, hr⟩
        split_ifs at hc with hj
        · obtain rfl := Option.some.inj hc
          exact hr
        · have hmem := hmem.resolve_left fun hjn => hj hjn.1
          have := (h.contents_iff name' record).mpr ⟨j, c, hc, hmem, hr⟩
          rw [hnone] at this
          cases this
    · rw [Function.update_of_ne hn', h.contents_iff]
      constructor
      · rintro ⟨j, c, hc, hmem, hr⟩
        exact ⟨j, c, by rw [if_neg (hfresh _ hmem)]; exact hc, Or.inr hmem, hr⟩
      · rintro ⟨j, c, hc, hmem, hr⟩
        have hmem := hmem.resolve_left fun hjn => hn' hjn.2
        rw [if_neg (hfresh _ hmem)] at hc
        exact ⟨j, c, hc, hmem, hr⟩

end DirState.Inv

theorem dirInit_inv {s : DirState N} (h : DirInit s) : s.Inv := by
  obtain @⟨table, hc⟩ := h
  refine ⟨.empty _, by simp [MetaServiceCtx.empty], by simp, by simp, ?_, ?_⟩
  · intro id ce hf
    rw [findChunkById_empty] at hf
    cases hf
  · intro name record
    simp only [findChunkById_empty, reduceCtorEq, false_and, exists_false, iff_false]
    change contents table name ≠ _
    rw [hc]
    simp

theorem dirStep_inv {s t : DirState N} {op : DirOp} (h : s.Inv)
    (hs : Guarded DirState.Safe DirStep s op t) : t.Inv := by
  obtain ⟨hsafe, hs⟩ := hs
  cases hs with
  | @register name gpa size cid ctx' hr =>
    obtain ⟨m, -, he, -⟩ | ⟨⟨e, hl⟩, ⟨hcid, hi, hg⟩ | ⟨e', he, -⟩⟩ :=
      implRegisterChunk_cases h.wf hr
    · cases he
    · obtain ⟨hnone, rfl⟩ := DirState.Inv.contents_of_lookup hl
      obtain rfl := Except.ok.inj hcid
      exact h.registered (hsafe hl) hnone hi hg
    · cases he
  | @registerFailed name gpa size e ctx' hr =>
    obtain ⟨m, -, -, rfl⟩ | ⟨⟨e, hl⟩, ⟨hcid, -⟩ | ⟨e', -, hi, -⟩⟩ :=
      implRegisterChunk_cases h.wf hr
    · exact h
    · cases hcid
    · obtain ⟨table', hi', -⟩ := LawfulNameTable.insert_eq s.ctx.chunkTable name
        (s.ctx.newRecord name gpa.toNat size.toNat)
      rw [hi, specInsert, (DirState.Inv.contents_of_lookup hl).1] at hi'
      simp at hi'
  | @unregister id =>
    rw [implUnregisterChunk]
    cases hf : findChunkById s.ctx id.toNat with
    | none => exact h
    | some ce => exact h.dropChunk hf (hsafe (by rw [hf]; rfl)) rfl
  | @addRef id =>
    rw [implAddRef]
    cases hf : findChunkById s.ctx id.toNat with
    | none => exact h
    | some ce => exact h.setChunk hf (findChunkById_range hf).2.2 rfl
  | @releaseRef id =>
    rw [implReleaseRef]
    cases hf : findChunkById s.ctx id.toNat with
    | none => exact h
    | some ce =>
      dsimp only
      by_cases hz : (if 0 < ce.refCount then ce.refCount - 1 else ce.refCount) = 0
      · rw [if_pos hz]
        have hle : ce.refCount ≤ 1 := by
          split_ifs at hz <;> omega
        exact h.dropChunk hf (hsafe ce hf hle) rfl
      · rw [if_neg hz]
        exact h.setChunk hf (findChunkById_range hf).2.2 rfl

/-- In every run whose dropped chunks have names of at most 63 bytes, and that gives out fewer
than 2^31 identifiers, the two indexes of the directory agree. -/
theorem dirRun_consistent {s : DirState N}
    (h : Reach DirInit (Guarded DirState.Safe DirStep) s) : s.Consistent := by
  have hinv : s.Inv :=
    h.invariant (P := DirState.Inv) (fun _ h0 => dirInit_inv h0)
      (fun _ _ _ hi hs => dirStep_inv hi hs)
  exact hinv.consistent

end Runs

/-- A chunk is registered under 64 bytes and unregistered: its name still finds it. -/
theorem dirRun_not_consistent :
    ¬ ∀ s : DirState (CString → Option ChunkMetadata), Reach DirInit DirStep s →
      s.Consistent := by
  intro hall
  let name : CString := CString.ofBytes (List.replicate 64 97)
  let none0 : CString → Option ChunkMetadata := fun _ => none
  let c0 := MetaServiceCtx.empty none0
  let c1 := ((implRegisterChunk c0 name 0 4096).map Prod.snd).getD c0
  have h0 : DirInit ⟨c0, []⟩ := .create rfl
  have h1 : DirStep ⟨c0, []⟩ (.register name 0 4096) ⟨c1, [(1, name)]⟩ := .register rfl
  have h2 := hall _ (.next (.unregister 1) (.next _ (.start h0) h1) .unregister)
  have hname : ∃ record, implLookupChunk (implUnregisterChunk c1 1).2 name = .ok record ∧
      record.chunkId = 1 := ⟨⟨1, storedName name, 0, 4096, 0, 0⟩, by decide +kernel⟩
  have hvalid : (findChunkById (implUnregisterChunk c1 1).2 1).isSome = false := by
    decide +kernel
  have hholds := ((h2.lookup_iff name 1).mp hname).1
  exact absurd hholds (by simp [hvalid])

/-- Of two chunks the first is dropped, and its name goes to a third. -/
theorem dirRun_consistent_dropped :
    ∃ s : DirState (CString → Option ChunkMetadata), s.Holds 2 (CString.ofBytes [98]) ∧
      s.Holds 3 (CString.ofBytes [97]) ∧ ¬ s.Holds 1 (CString.ofBytes [97]) ∧ s.Consistent := by
  let a : CString := CString.ofBytes [97]
  let b : CString := CString.ofBytes [98]
  let none0 : CString → Option ChunkMetadata := fun _ => none
  let c0 := MetaServiceCtx.empty none0
  let c1 := ((implRegisterChunk c0 a 0 4096).map Prod.snd).getD c0
  let c2 := ((implRegisterChunk c1 b 4096 4096).map Prod.snd).getD c1
  let c3 := (implUnregisterChunk c2 1).2
  let c4 := ((implRegisterChunk c3 a 8192 4096).map Prod.snd).getD c3
  have h0 : DirInit ⟨c0, []⟩ := .create rfl
  have h1 : DirStep ⟨c0, []⟩ (.register a 0 4096) ⟨c1, [(1, a)]⟩ := .register rfl
  have h2 : DirStep ⟨c1, [(1, a)]⟩ (.register b 4096 4096) ⟨c2, [(2, b), (1, a)]⟩ := .register rfl
  have h4 : DirStep ⟨c3, [(2, b), (1, a)]⟩ (.register a 8192 4096)
      ⟨c4, [(3, a), (2, b), (1, a)]⟩ := .register rfl
  have hfits : DirState.Fits ⟨c2, [(2, b), (1, a)]⟩ 1 := by
    intro name hname
    obtain rfl : name = a := by simpa using hname
    decide
  refine ⟨⟨c4, [(3, a), (2, b), (1, a)]⟩, ⟨by decide +kernel, by decide +kernel⟩,
    ⟨by decide +kernel, by decide +kernel⟩, ?_, dirRun_consistent (.next (.register a 8192 4096)
      (.next (.unregister 1) (.next (.register b 4096 4096) (.next (.register a 0 4096)
        (.start h0) ⟨fun _ => by decide +kernel, h1⟩) ⟨fun _ => by decide +kernel, h2⟩)
        ⟨fun _ => hfits, .unregister⟩) ⟨fun _ => by decide +kernel, h4⟩)⟩
  rintro ⟨hvalid, -⟩
  revert hvalid
  decide +kernel

end Umm
