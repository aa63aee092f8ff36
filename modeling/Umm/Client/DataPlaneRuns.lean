import Umm.Client.DataPlane

/-! Runs of the data plane: all copies and atomic operations of a client act on one memory of its
node, whatever transport serves them. -/
namespace Umm
open Umm.Lib

section Checks

variable {s : UmmState} {desc : Option ChunkDescriptor} {transport : Transport} {gpa : ℕ}

/-- Where a call on a chunk goes. -/
def UmmState.place (s : UmmState) (desc : Option ChunkDescriptor) (offset : UInt64) :
    Option (Tier × ℕ) := do
  let desc ← desc
  let transport ← s.transport
  transport.place (u64 (desc.baseGpa + offset.toNat))

theorem checkAccess_place {hasBuf : Bool} {offset len : UInt64}
    (h : s.checkAccess desc hasBuf offset len = .ok (transport, gpa)) :
    s.transport = some transport ∧ s.place desc offset = transport.place gpa ∧ hasBuf = true ∧
      0 < len.toNat ∧ ∃ d, desc = some d ∧ gpa = u64 (d.baseGpa + offset.toNat) := by
  unfold UmmState.checkAccess at h
  split at h
  · cases h
  cases desc with
  | none => cases h
  | some d =>
    dsimp only at h
    split_ifs at h with hbuf hsize hend
    push Not at hbuf
    split at h
    · cases h
    next t ht =>
      obtain ⟨rfl, rfl⟩ := Prod.mk.inj (Except.ok.inj h)
      refine ⟨ht, ?_, by simpa using hbuf.1, ?_, d, rfl, rfl⟩
      · unfold UmmState.place
        rw [ht]
        rfl
      · exact Nat.pos_of_ne_zero fun hz => hbuf.2 (UInt64.toNat_inj.mp hz)

theorem checkAtomic_place {offset : UInt64} (h : s.checkAtomic desc offset = .ok (transport, gpa)) :
    s.transport = some transport ∧ s.place desc offset = transport.place gpa := by
  unfold UmmState.checkAtomic at h
  split at h
  · cases h
  cases desc with
  | none => cases h
  | some d =>
    dsimp only at h
    split_ifs at h with hend
    split at h
    · cases h
    next t ht =>
      obtain ⟨rfl, rfl⟩ := Prod.mk.inj (Except.ok.inj h)
      refine ⟨ht, ?_⟩
      unfold UmmState.place
      rw [ht]
      rfl

theorem Transport.place_map (f : Tier → ℕ → SegmentOp Tier) :
    (transport.place gpa).map (fun p => f p.1 p.2) =
      (transport.place gpa).map fun p => f p.1 (gpaToOffset gpa) := by
  unfold Transport.place
  split
  · rfl
  · rfl
  · rfl
  · rw [Option.map_map, Option.map_map]
    rfl

end Checks

/-- The operation on the memory of this node that a call is when it succeeds. -/
def DataCall.effect (s : UmmState) : DataCall → CallAnswer → Option (SegmentOp Tier)
  | .read desc offset _ _, .bytes out => (s.place desc offset).map fun p => .read p.1 p.2 out
  | .write desc offset len buf, .done =>
    (s.place desc offset).map fun p => .write p.1 p.2 ((buf.getD []).take len.toNat)
  | .atomicCas desc offset expected desired, .old value =>
    (s.place desc offset).map fun p => .atomic p.1 p.2 value (casWith expected desired value)
  | .atomicFetchAdd desc offset value, .old old =>
    (s.place desc offset).map fun p => .atomic p.1 p.2 old (old + value)
  | .atomicSet desc offset value, .done =>
    (s.place desc offset).map fun p => .write p.1 p.2 (leBytes 8 value.toNat)
  | _, _ => none

/-- The buffers of a call have the length that it says, and what it copies ends below 2^64. -/
def DataCall.Valid : DataCall → Prop
  | .read desc offset len outBuf => (∀ buf ∈ outBuf, len.toNat ≤ buf.length) ∧
      ∀ d ∈ desc, gpaToOffset (u64 (d.baseGpa + offset.toNat)) + len.toNat < 2 ^ 64
  | .write desc offset len buf => (∀ bytes ∈ buf, len.toNat ≤ bytes.length) ∧
      ∀ d ∈ desc, gpaToOffset (u64 (d.baseGpa + offset.toNat)) + len.toNat < 2 ^ 64
  | _ => True

instance : DecidablePred DataCall.Valid
  | .read .. => inferInstanceAs (Decidable (_ ∧ _))
  | .write .. => inferInstanceAs (Decidable (_ ∧ _))
  | .atomicCas .. => inferInstanceAs (Decidable True)
  | .atomicFetchAdd .. => inferInstanceAs (Decidable True)
  | .atomicSet .. => inferInstanceAs (Decidable True)

/-- What a call with a given answer did to the memory of this node. -/
inductive DataEffect (s : UmmState) :
    DataCall → Except Error CallAnswer → List (SegmentOp Tier) → Prop
  | answered (call : DataCall) (answer : CallAnswer) :
      DataEffect s call (.ok answer) (call.effect s answer).toList
  | failed (call : DataCall) (e : Error) : DataEffect s call (.error e) []
  /-- A device of the SSD pool refused its piece after a first part was written. -/
  | torn {desc : Option ChunkDescriptor} {offset len : UInt64} {buf : Option (List UInt8)}
      {target : Transport × ℕ} {o : ℕ} (e : Error) (n : ℕ) :
      s.checkAccess desc buf.isSome offset len = .ok target →
      s.place desc offset = some (.ssd, o) →
      DataEffect s (.write desc offset len buf) (.error e)
        [.write .ssd o (((buf.getD []).take len.toNat).take n)]

section Calls

variable {R : Type} {io : PeerIo R} {env : DataEnv} {s : UmmState} {w w' : DataWorld R}
  {content : ℕ → UInt8} {transport : Transport} {gpa : ℕ}

/-- What a call did went on in the memory of this node. -/
def Did (s : UmmState) (content : ℕ → UInt8) (call : DataCall) (r : Except Error CallAnswer)
    (w w' : DataWorld R) : Prop :=
  ∃ ops, DataEffect s call r ops ∧ SegmentRun (w.segments content) ops (w'.segments content)

theorem DataWorld.Effect.answered {α : Type} {r : Except Error α} {op : Tier → SegmentOp Tier}
    (h : DataWorld.Effect content transport w w' gpa r.isOk op) (answer : α → CallAnswer)
    {call : DataCall}
    (hop : ∀ a, r = .ok a →
      call.effect s (answer a) = (transport.place gpa).map fun p => op p.1)
    (htorn : ∀ e o bytes n, (transport.place gpa).map (fun p => op p.1) =
      some (.write .ssd o bytes) → DataEffect s call (.error e) [.write .ssd o (bytes.take n)]) :
    Did s content call (r.map answer) w w' := by
  obtain ⟨ops, hattempt, hrun⟩ := h.run
  refine ⟨ops, ?_, hrun⟩
  cases r with
  | error e =>
    cases hattempt with
    | failed => exact .failed call e
    | torn n hwrite => exact htorn e _ _ n hwrite
  | ok a =>
    cases hattempt with
    | succeeded =>
      rw [← hop a rfl]
      exact .answered call (answer a)

/-- A value set blindly is a write of its bytes. -/
theorem segmentRun_set {m m' : Segments Tier} {tier : Tier} {offset : ℕ} {old new : UInt64}
    (h : SegmentRun m [.atomic tier offset old new] m') :
    SegmentRun m [.write tier offset (leBytes 8 new.toNat)] m' := by
  obtain ⟨hfits, hrest⟩ := h
  refine ⟨⟨?_, trivial⟩, hrest⟩
  have hin := hfits.inside
  dsimp only [SegmentOp.offset, SegmentOp.length, SegmentOp.segment] at hin ⊢
  rw [length_leBytes]
  exact hin

theorem DataWorld.Effect.set {offset : ℕ} {old value : UInt64} {r : Except Error Unit}
    (h : DataWorld.Effect content transport w w' gpa r.isOk fun tier =>
      .atomic tier offset old value) {call : DataCall}
    (hop : call.effect s .done =
      (transport.place gpa).map fun p => .write p.1 offset (leBytes 8 value.toNat)) :
    Did s content call (r.map fun _ => .done) w w' := by
  obtain ⟨ops, hattempt, hrun⟩ := h.run
  cases r with
  | error e =>
    cases hattempt with
    | failed => exact ⟨[], .failed call e, hrun⟩
    | torn n hwrite =>
      obtain ⟨p, -, hp⟩ := Option.map_eq_some_iff.mp hwrite
      cases hp
  | ok u =>
    cases hattempt with
    | succeeded =>
      refine ⟨_, .answered call .done, ?_⟩
      rw [hop]
      cases hplace : transport.place gpa with
      | none =>
        rw [hplace] at hrun
        exact hrun
      | some p =>
        rw [hplace] at hrun
        exact segmentRun_set hrun

theorem DataWorld.Ready.atomicCell (h : w.Ready transport) (hb : env.backing.Finds content)
    {f : UInt64 → UInt64} {r : Except Error UInt64}
    (hop : transportAtomic w transport gpa
      (fun m => atomicAfter (localResolve m gpa 8 env.backing) f)
      (fun m => atomicAfter (memsvcMapDevice m .ssd (gpaToOffset gpa) 8 .failed) f) =
        some (r, w')) :
    DataWorld.Effect content transport w w' gpa r.isOk fun tier =>
      .atomic tier (gpaToOffset gpa) (r.toOption.getD 0) (f (r.toOption.getD 0)) := by
  refine h.atomic (fun r' mem hcell he => ?_) (fun r' ssd hready hcell he => ?_) hop
  · subst he
    exact localAtomic_effect h.mem hb hcell
  · subst he
    exact ssdTransportAtomic_effect hready hcell

theorem transportAtomicSet_eq (value : UInt64) :
    transportAtomicSet env w transport gpa value =
      (transportAtomic w transport gpa
        (fun m => atomicAfter (localResolve m gpa 8 env.backing) fun _ => value)
        (fun m => atomicAfter (memsvcMapDevice m .ssd (gpaToOffset gpa) 8 .failed)
          fun _ => value)).map fun r => (r.1.map fun _ => (), r.2) := by
  unfold transportAtomicSet transportAtomic localAtomicSet ssdTransportAtomicSet
  split
  · rfl
  · rfl
  · rw [Option.map_map, Option.map_map]
    rfl
  · rw [Option.map_map, Option.map_map]
    rfl

theorem DataWorld.Ready.atomicSet (h : w.Ready transport) (hb : env.backing.Finds content)
    {value : UInt64} {r : Except Error Unit}
    (hop : transportAtomicSet env w transport gpa value = some (r, w')) :
    ∃ old, DataWorld.Effect content transport w w' gpa r.isOk fun tier =>
      .atomic tier (gpaToOffset gpa) old value := by
  rw [transportAtomicSet_eq] at hop
  obtain ⟨⟨r', w''⟩, hcell, hres⟩ := Option.map_eq_some_iff.mp hop
  obtain ⟨rfl, rfl⟩ := Prod.mk.inj hres
  have heffect := h.atomicCell hb hcell
  refine ⟨r'.toOption.getD 0, ?_⟩
  cases r' <;> exact heffect

theorem DataWorld.Ready.stays (ht : s.transport = some transport) (h : w'.Ready transport) :
    ∀ transport ∈ s.transport, w'.Ready transport := by
  intro transport' ht'
  obtain rfl := Option.some.inj (ht.symm.trans ht')
  exact h

/-- A call that is no write leaves nothing behind when it fails. -/
theorem DataWorld.Effect.answered_whole {α : Type} {r : Except Error α}
    {op : Tier → SegmentOp Tier} (h : DataWorld.Effect content transport w w' gpa r.isOk op)
    (answer : α → CallAnswer) {call : DataCall}
    (hop : ∀ a, r = .ok a →
      call.effect s (answer a) = (transport.place gpa).map fun p => op p.1)
    (hno : ∀ tier o bytes, op tier ≠ .write .ssd o bytes) :
    Did s content call (r.map answer) w w' := by
  refine h.answered answer hop fun e o bytes n hwrite => ?_
  obtain ⟨p, -, hp⟩ := Option.map_eq_some_iff.mp hwrite
  exact absurd hp (hno p.1 o bytes)

section Checked

variable {desc : Option ChunkDescriptor} {offset len : UInt64} {buf : Option (List UInt8)}
  {r : Except Error Unit} {out : List UInt8}

theorem read_did (hready : ∀ transport ∈ s.transport, w.Ready transport)
    (hb : env.backing.Finds content) (hvalid : (DataCall.read desc offset len buf).Valid)
    (hcheck : s.checkAccess desc buf.isSome offset len = .ok (transport, gpa))
    (hget : transportGet io env w transport gpa len.toNat ((buf.getD []).take len.toNat) =
      some (r, w', out)) :
    (∀ transport ∈ s.transport, w'.Ready transport) ∧
      Did s content (.read desc offset len buf) (r.map fun _ => .bytes out) w w' := by
  obtain ⟨ht, hplace, hbuf, hlen, d, rfl, rfl⟩ := checkAccess_place hcheck
  obtain ⟨bytes, rfl⟩ := Option.isSome_iff_exists.mp hbuf
  have heffect := (hready transport ht).get hb hlen (hvalid.2 d rfl)
    (List.length_take_of_le (hvalid.1 bytes rfl)) hget
  refine ⟨heffect.ready.stays ht, heffect.answered_whole _ (fun _ _ => ?_)
    fun _ _ _ h => nomatch h⟩
  dsimp only [DataCall.effect]
  rw [hplace]
  exact Transport.place_map fun tier offset => .read tier offset out

theorem write_did (hready : ∀ transport ∈ s.transport, w.Ready transport)
    (hb : env.backing.Finds content) (hvalid : (DataCall.write desc offset len buf).Valid)
    (hcheck : s.checkAccess desc buf.isSome offset len = .ok (transport, gpa))
    (hput : transportPut io env w transport gpa ((buf.getD []).take len.toNat) = some (r, w')) :
    (∀ transport ∈ s.transport, w'.Ready transport) ∧
      Did s content (.write desc offset len buf) (r.map fun _ => .done) w w' := by
  obtain ⟨ht, hplace, hbuf, hlen, d, rfl, rfl⟩ := checkAccess_place hcheck
  obtain ⟨bytes, rfl⟩ := Option.isSome_iff_exists.mp hbuf
  have htake : (((some bytes).getD []).take len.toNat).length = len.toNat :=
    List.length_take_of_le (hvalid.1 bytes rfl)
  have heffect := (hready transport ht).put hb (by rw [htake]; exact hlen)
    (by rw [htake]; exact hvalid.2 d rfl) hput
  have hwrite : (DataCall.write (some d) offset len (some bytes)).effect s .done =
      (transport.place (u64 (d.baseGpa + offset.toNat))).map fun p =>
        .write p.1 (gpaToOffset (u64 (d.baseGpa + offset.toNat)))
          (((some bytes).getD []).take len.toNat) := by
    dsimp only [DataCall.effect]
    rw [hplace]
    exact Transport.place_map fun tier offset => .write tier offset _
  refine ⟨heffect.ready.stays ht, heffect.answered _ (fun _ _ => hwrite)
    fun e o stored n hop => ?_⟩
  -- What is left of a write that failed lies where the write would lie.
  obtain ⟨p, hp, hop⟩ := Option.map_eq_some_iff.mp (hwrite.trans hop)
  injection hop with htier ho hstored
  rw [← hstored]
  exact .torn e n hcheck (hp.trans (congrArg some (Prod.ext htier ho)))

/-- The updates of a cell that return what was in it. -/
theorem update_did (hready : ∀ transport ∈ s.transport, w.Ready transport)
    (hb : env.backing.Finds content) {call : DataCall} {f : UInt64 → UInt64}
    (heffect : ∀ old, call.effect s (.old old) =
      (s.place desc offset).map fun p => .atomic p.1 p.2 old (f old))
    (hcheck : s.checkAtomic desc offset = .ok (transport, gpa)) {r : Except Error UInt64}
    (hcell : transportAtomic w transport gpa
      (fun m => atomicAfter (localResolve m gpa 8 env.backing) f)
      (fun m => atomicAfter (memsvcMapDevice m .ssd (gpaToOffset gpa) 8 .failed) f) =
        some (r, w')) :
    (∀ transport ∈ s.transport, w'.Ready transport) ∧
      Did s content call (r.map .old) w w' := by
  obtain ⟨ht, hplace⟩ := checkAtomic_place hcheck
  have hdone := (hready transport ht).atomicCell hb hcell
  refine ⟨hdone.ready.stays ht, hdone.answered_whole _ (fun old hold => ?_)
    fun _ _ _ h => nomatch h⟩
  subst hold
  rw [heffect, hplace]
  exact Transport.place_map fun tier offset => .atomic tier offset old (f old)

theorem set_did (hready : ∀ transport ∈ s.transport, w.Ready transport)
    (hb : env.backing.Finds content) {value : UInt64}
    (hcheck : s.checkAtomic desc offset = .ok (transport, gpa))
    (hcell : transportAtomicSet env w transport gpa value = some (r, w')) :
    (∀ transport ∈ s.transport, w'.Ready transport) ∧
      Did s content (.atomicSet desc offset value) (r.map fun _ => .done) w w' := by
  obtain ⟨ht, hplace⟩ := checkAtomic_place hcheck
  obtain ⟨old, heffect⟩ := (hready transport ht).atomicSet hb hcell
  refine ⟨heffect.ready.stays ht, heffect.set ?_⟩
  dsimp only [DataCall.effect]
  rw [hplace]
  exact Transport.place_map fun tier offset => .write tier offset _

end Checked

/-- What a call does to the memory of the node. -/
theorem dataCall_effect (hready : ∀ transport ∈ s.transport, w.Ready transport)
    (hb : env.backing.Finds content) {call : DataCall} (hvalid : call.Valid)
    {r : Except Error CallAnswer} (hop : dataCall io env s w call = some (r, w')) :
    (∀ transport ∈ s.transport, w'.Ready transport) ∧ Did s content call r w w' := by
  have hrefused : ∀ e : Error, some (Except.error e, w) = some (r, w') →
      (∀ transport ∈ s.transport, w'.Ready transport) ∧ Did s content call r w w' := by
    intro e he
    obtain ⟨rfl, rfl⟩ := by simpa using he
    exact ⟨hready, [], .failed call e, rfl⟩
  cases call with
  | read desc offset len outBuf =>
    dsimp only [dataCall] at hop
    split at hop
    next e he => exact hrefused e hop
    next transport gpa hcheck =>
      obtain ⟨⟨r', w'', out⟩, hcall, hres⟩ := Option.map_eq_some_iff.mp hop
      obtain ⟨rfl, rfl⟩ := Prod.mk.inj hres
      exact read_did hready hb hvalid hcheck hcall
  | write desc offset len buf =>
    dsimp only [dataCall] at hop
    split at hop
    next e he => exact hrefused e hop
    next transport gpa hcheck =>
      obtain ⟨⟨r', w''⟩, hcall, hres⟩ := Option.map_eq_some_iff.mp hop
      obtain ⟨rfl, rfl⟩ := Prod.mk.inj hres
      exact write_did hready hb hvalid hcheck hcall
  | atomicCas desc offset expected desired =>
    dsimp only [dataCall] at hop
    split at hop
    next e he => exact hrefused e hop
    next transport gpa hcheck =>
      obtain ⟨⟨r', w''⟩, hcall, hres⟩ := Option.map_eq_some_iff.mp hop
      obtain ⟨rfl, rfl⟩ := Prod.mk.inj hres
      exact update_did hready hb (fun _ => rfl) hcheck hcall
  | atomicFetchAdd desc offset value =>
    dsimp only [dataCall] at hop
    split at hop
    next e he => exact hrefused e hop
    next transport gpa hcheck =>
      obtain ⟨⟨r', w''⟩, hcall, hres⟩ := Option.map_eq_some_iff.mp hop
      obtain ⟨rfl, rfl⟩ := Prod.mk.inj hres
      exact update_did hready hb (fun _ => rfl) hcheck hcall
  | atomicSet desc offset value =>
    dsimp only [dataCall] at hop
    split at hop
    next e he => exact hrefused e hop
    next transport gpa hcheck =>
      obtain ⟨⟨r', w''⟩, hcall, hres⟩ := Option.map_eq_some_iff.mp hop
      obtain ⟨rfl, rfl⟩ := Prod.mk.inj hres
      exact set_did hready hb hcheck hcall

end Calls

/-! Calls one after another. -/

/-- The calls take the memory of the node from one state to another, each by what it does. -/
def CallsRun (s : UmmState) :
    Segments Tier → List (DataCall × Except Error CallAnswer) → Segments Tier → Prop
  | m, [], m' => m' = m
  | m, p :: history, m' => ∃ ops m₁, DataEffect s p.1 p.2 ops ∧ SegmentRun m ops m₁ ∧
      CallsRun s m₁ history m'

/-- Whatever a call does, it leaves the range alone. -/
def CallAvoids (s : UmmState) (tier : Tier) (offset length : ℕ)
    (p : DataCall × Except Error CallAnswer) : Prop :=
  ∀ ops, DataEffect s p.1 p.2 ops → ∀ op ∈ ops, op.Avoids tier offset length

namespace CallsRun

variable {s : UmmState} {m m' m'' : Segments Tier} {tier : Tier} {offset length : ℕ}
  {history history' : List (DataCall × Except Error CallAnswer)}

theorem append_iff : CallsRun s m (history ++ history') m'' ↔
    ∃ m', CallsRun s m history m' ∧ CallsRun s m' history' m'' := by
  induction history generalizing m with
  | nil => exact ⟨fun h => ⟨m, rfl, h⟩, fun ⟨_, h, h'⟩ => h ▸ h'⟩
  | cons p history ih =>
    rw [List.cons_append]
    constructor
    · rintro ⟨ops, m₁, heffect, hrun, h⟩
      obtain ⟨m', hfirst, hrest⟩ := ih.mp h
      exact ⟨m', ⟨ops, m₁, heffect, hrun, hfirst⟩, hrest⟩
    · rintro ⟨m', ⟨ops, m₁, heffect, hrun, hfirst⟩, hrest⟩
      exact ⟨ops, m₁, heffect, hrun, ih.mpr ⟨m', hfirst, hrest⟩⟩

theorem length_eq (h : CallsRun s m history m') (tier : Tier) :
    (m' tier).length = (m tier).length := by
  induction history generalizing m with
  | nil => rw [show m' = m from h]
  | cons p history ih =>
    obtain ⟨ops, m₁, -, hrun, h⟩ := h
    rw [ih h, hrun.length_eq]

end CallsRun

namespace DataEffect

variable {s : UmmState} {desc : Option ChunkDescriptor} {offset len value old : UInt64}
  {p : Tier × ℕ} {ops : List (SegmentOp Tier)}

theorem fetchAdd_eq (h : DataEffect s (.atomicFetchAdd desc offset value) (.ok (.old old)) ops)
    (hplace : s.place desc offset = some p) : ops = [.atomic p.1 p.2 old (old + value)] := by
  cases h
  unfold DataCall.effect
  dsimp only
  rw [hplace]
  rfl

/-- An addition without an old value is none. -/
theorem fetchAdd_other {r : Except Error CallAnswer}
    (h : DataEffect s (.atomicFetchAdd desc offset value) r ops) (hr : ∀ old, r ≠ .ok (.old old)) :
    ops = [] := by
  cases h with
  | failed => rfl
  | answered _ answer =>
    cases answer with
    | old old => exact absurd rfl (hr old)
    | bytes out => rfl
    | done => rfl

end DataEffect

/-! The memories at the start. -/

section Start

variable {m : MemServiceCtx}

theorem registerTier_base {t : TierMemCtx} {res : StorageResource}
    (htier : res.tier = .cxl ∨ res.tier = .dram) (ht : t.baseOffset = 0)
    (hres : res.baseOffset = 0) (env : RegisterEnv) :
    (t.registerTier res env).2.baseOffset = 0 := by
  have hregistering : (t.registering res).baseOffset = 0 := by
    unfold TierMemCtx.registering
    split
    · exact ht
    · exact hres
  unfold TierMemCtx.registerTier
  dsimp only
  split
  · exact hregistering
  · rcases htier with htier | htier
    · rw [htier]
      exact hregistering
    · rw [htier]
      dsimp only
      unfold TierMemCtx.registerDram
      split <;> exact hregistering

/-- Memory that is registered at 0 is ready for the local transport. -/
theorem MemServiceCtx.LocalReady.registerStorage (h : m.LocalReady) {res : StorageResource}
    (htier : res.tier = .cxl ∨ res.tier = .dram) (hbase : res.baseOffset = 0)
    (hcap : res.capacity < 2 ^ 64) (env : RegisterEnv) :
    (memsvcRegisterStorage m res env).2.LocalReady := by
  have hssd : Tier.ssd ≠ res.tier := by
    rcases htier with htier | htier <;> rw [htier] <;> decide
  have hdisks := memsvcRegisterStorage_other m res env hssd
  refine ⟨h.sound.registerStorage env hcap (by omega) ?_, fun tier => ?_, ?_⟩
  · intro pool hpool
    rw [hdisks] at hpool
    exact ((h.sound .ssd).pool pool hpool).2.fits
  · by_cases hsame : tier = res.tier
    · subst hsame
      rcases TierMemCtx.memsvcRegisterStorage_cases m res env with he | he
      · rw [he]
        exact h.base _
      · rw [he, MemServiceCtx.tiers_setTier_same]
        exact registerTier_base htier (h.base _) hbase env
    · rw [memsvcRegisterStorage_other m res env hsame]
      exact h.base tier
  · rw [hdisks]
    exact h.disks

theorem memServiceDirectCreateV2_ready : memServiceDirectCreateV2.LocalReady :=
  ⟨fun _ => TierMemCtx.sound_offline, fun _ => rfl, rfl⟩

theorem memServiceDirectCreate_ready {size : ℕ} (hsize : size < 2 ^ 64) {env : RegisterEnv}
    (h : memServiceDirectCreate size 0 env = some m) : m.LocalReady := by
  have hnext : (memsvcRegisterStorage memServiceDirectCreateV2 ⟨.cxl, size, 0, some .file⟩
      env).2.LocalReady :=
    memServiceDirectCreateV2_ready.registerStorage (.inl rfl) rfl hsize env
  unfold memServiceDirectCreate memServiceDirectCreateTiered at h
  split_ifs at h
  split at h
  next m' hreg =>
    obtain rfl := Option.some.inj h
    rw [hreg] at hnext
    exact hnext
  · cases h

theorem localInit_ready {cfg : InitConfig} {dramDevice : Option BackendKind}
    {env env' : RegisterEnv} (h : localInit cfg dramDevice env env' = some m) : m.LocalReady := by
  have hsize : (if cfg.memorySize = 0 then 256 * 1024 * 1024 else cfg.memorySize.toNat) <
      2 ^ 64 := by
    split_ifs
    · norm_num
    · exact cfg.memorySize.toNat_lt
  unfold localInit at h
  dsimp only at h
  generalize (if cfg.memorySize = 0 then 256 * 1024 * 1024 else cfg.memorySize.toNat) = size
    at h hsize
  obtain ⟨m₀, hm₀, rfl⟩ := Option.map_eq_some_iff.mp h
  cases hdram : cfg.localMemAsDram with
  | false =>
    rw [hdram] at hm₀
    exact (memServiceDirectCreate_ready hsize hm₀).registerStorage (.inl rfl) rfl hsize env'
  | true =>
    rw [hdram] at hm₀
    obtain rfl := Option.some.inj hm₀
    exact memServiceDirectCreateV2_ready.registerStorage (.inr rfl) rfl hsize env'

end Start

/-! Runs. -/

/-- The memories at the start of a run and those now, with the calls in between and their
answers. -/
structure DataState (R : Type) where
  start : DataWorld R
  world : DataWorld R
  history : List (DataCall × Except Error CallAnswer)

section Runs

variable {R : Type} (io : PeerIo R) (s : UmmState) (content : ℕ → UInt8)

/-- The memories that the transports create when the client starts. -/
structure DataInit (st : DataState R) : Prop where
  mem : ∃ cfg dramDevice env env', localInit cfg dramDevice env env' = some st.start.mem
  ssd : ∀ transport ∈ s.transport, transport.UsesSsd → SsdCreated st.start.ssd
  world : st.world = st.start
  history : st.history = []

/-- The run after one more call. -/
def DataState.call (st : DataState R) (label : DataEnv × DataCall) : Option (DataState R) :=
  (dataCall io label.1 s st.world label.2).map fun (r, world) =>
    ⟨st.start, world, st.history ++ [(label.2, r)]⟩

/-- One call, whatever the OS answers in it. -/
def DataStep (st : DataState R) (label : DataEnv × DataCall) (st' : DataState R) : Prop :=
  label.1.backing.Finds content ∧ label.2.Valid ∧ st.call io s label = some st'

variable {io s content} {st : DataState R}

theorem DataInit.ready (h : DataInit s st) :
    ∀ transport ∈ s.transport, st.start.Ready transport := by
  intro transport ht
  obtain ⟨cfg, dramDevice, env, env', hmem⟩ := h.mem
  exact ⟨localInit_ready hmem, fun hssd => (h.ssd transport ht hssd).cases⟩

theorem dataRun (h : Reach (DataInit s) (DataStep io s content) st) :
    (∀ transport ∈ s.transport, st.world.Ready transport) ∧
      CallsRun s (st.start.segments content) st.history (st.world.segments content) := by
  refine h.invariant (P := fun st => (∀ transport ∈ s.transport, st.world.Ready transport) ∧
    CallsRun s (st.start.segments content) st.history (st.world.segments content))
    (fun st h0 => ?_) fun st label st' hst hstep => ?_
  · rw [h0.world, h0.history]
    exact ⟨h0.ready, rfl⟩
  · obtain ⟨hready, hrun⟩ := hst
    obtain ⟨hb, hvalid, hcall⟩ := hstep
    obtain ⟨⟨r, world⟩, hop, rfl⟩ := Option.map_eq_some_iff.mp hcall
    obtain ⟨hready', ops, heffect, hrun'⟩ := dataCall_effect hready hb hvalid hop
    exact ⟨hready', CallsRun.append_iff.mpr ⟨_, hrun, ops, _, heffect, hrun', rfl⟩⟩

def pageConfig : InitConfig := { InitConfig.zero with memorySize := 4096 }

theorem localInit_page : (localInit pageConfig none transportEnv transportEnv).isSome = true := by
  decide +kernel

def edgeDevices : List SsdDeviceConfig :=
  [⟨.file, 4096, transportEnv⟩, ⟨.direct, 4096, transportEnv⟩]

theorem createMulti_edge : (ssdTransportCreateMulti edgeDevices transportEnv).isSome = true := by
  decide +kernel

def tiersState : UmmState :=
  { UmmState.fresh with
    initialized := true
    transport := some (.router ⟨pageConfig, some (.multi []), false, none, none⟩) }

def tiersWorld : DataWorld Unit :=
  ⟨(localInit pageConfig none transportEnv transportEnv).get localInit_page,
    (ssdTransportCreateMulti edgeDevices transportEnv).get createMulti_edge, ()⟩

/-- No other node answers. -/
def noRemote : PeerIo Unit :=
  ⟨fun _ _ _ out => (.error .transportError, (), out), fun _ _ _ => (.error .transportError, ())⟩

/-- Sixteen bytes around the end of the file. -/
def edgeChunk : ChunkDescriptor := ⟨2, makeGpa 0 Tier.ssd.id 4088, 16⟩

def wholeEnv : DataEnv := ⟨.whole, .bytes fun _ => 0⟩

theorem tiersWorld_init : DataInit tiersState ⟨tiersWorld, tiersWorld, []⟩ where
  mem := ⟨pageConfig, none, transportEnv, transportEnv, (Option.some_get localInit_page).symm⟩
  ssd := fun _ _ _ => .multi (by decide) (Option.some_get createMulti_edge).symm
  world := rfl
  history := rfl

/-- What a call adds to a counter. -/
def addend (s : UmmState) (cell : Tier × ℕ) : DataCall × Except Error CallAnswer → UInt64
  | (.atomicFetchAdd desc offset value, .ok (.old _)) =>
    if s.place desc offset = some cell then value else 0
  | _ => 0

/-- A call that counts, or has nothing to do with the counter. -/
def CountsOn (s : UmmState) (cell : Tier × ℕ) (p : DataCall × Except Error CallAnswer) : Prop :=
  (∃ desc offset value, p.1 = .atomicFetchAdd desc offset value ∧
    s.place desc offset = some cell) ∨
  CallAvoids s cell.1 cell.2 8 p

variable {cell : Tier × ℕ} {p : DataCall × Except Error CallAnswer}
  {history : List (DataCall × Except Error CallAnswer)}

theorem addend_other {desc : Option ChunkDescriptor} {offset value : UInt64}
    {r : Except Error CallAnswer} (h : ∀ old, r ≠ .ok (.old old)) :
    addend s cell (.atomicFetchAdd desc offset value, r) = 0 := by
  cases r with
  | error e => rfl
  | ok answer =>
    cases answer with
    | old old => exact absurd rfl (h old)
    | bytes out => rfl
    | done => rfl

/-- A call that has nothing to do with a counter adds nothing to it. -/
theorem CallAvoids.addend_eq (h : CallAvoids s cell.1 cell.2 8 p) : addend s cell p = 0 := by
  unfold addend
  split
  next desc offset value old =>
    refine if_neg fun hplace => ?_
    have heffect : DataEffect s (.atomicFetchAdd desc offset value) (.ok (.old old)) _ :=
      .answered _ _
    have hops := h _ heffect
    rw [heffect.fetchAdd_eq hplace] at hops
    exact SegmentOp.not_avoids_atomic (hops _ (List.mem_singleton_self _))
  · rfl

theorem CountsOn.effect (h : CountsOn s cell p) {ops : List (SegmentOp Tier)}
    (heffect : DataEffect s p.1 p.2 ops) :
    (∀ op ∈ ops, op.OnCell cell.1 cell.2) ∧
      (ops.map (SegmentOp.added cell.1 cell.2)).sum = addend s cell p := by
  obtain ⟨call, r⟩ := p
  rcases h with ⟨desc, offset, value, hcall, hplace⟩ | h
  · obtain rfl : call = .atomicFetchAdd desc offset value := hcall
    dsimp only at heffect ⊢
    by_cases hr : ∃ old, r = .ok (.old old)
    · obtain ⟨old, rfl⟩ := hr
      rw [heffect.fetchAdd_eq hplace]
      constructor
      · intro op hop
        obtain rfl := List.mem_singleton.mp hop
        exact .inr ⟨old, old + value, rfl⟩
      · have hadded : (SegmentOp.atomic cell.1 cell.2 old (old + value)).added cell.1 cell.2 =
            old + value - old := if_pos ⟨rfl, rfl⟩
        have haddend : addend s cell (.atomicFetchAdd desc offset value, .ok (.old old)) = value :=
          if_pos hplace
        rw [List.map_cons, List.map_nil, hadded, haddend, List.sum_cons, List.sum_nil,
          UInt64.add_zero, UInt64.add_comm, UInt64.add_sub_cancel]
    · push Not at hr
      rw [heffect.fetchAdd_other hr, addend_other hr]
      exact ⟨fun op hop => (nomatch hop), rfl⟩
  · refine ⟨fun op hop => .inl (h ops heffect op hop), ?_⟩
    rw [h.addend_eq]
    exact SegmentOp.Avoids.sum_added (h ops heffect)

theorem MemServiceCtx.LocalReady.resolve_granted {m : MemServiceCtx} (h : m.LocalReady)
    {tier : Tier} {gpa : ℕ} (htier : Tier.ofId (gpaToTier gpa) = some tier) (hssd : tier ≠ .ssd)
    (hon : (m.tiers tier).online = true) (len : ℕ) :
    ∃ m', localResolve m gpa len (.bytes content) = (.ok (.window tier (gpaToOffset gpa)), m') := by
  have hoff : sub64 (gpaToOffset gpa) (m.tiers tier).baseOffset = gpaToOffset gpa := by
    rw [h.base tier, sub64_zero (gpaToOffset_lt gpa)]
  unfold localResolve
  rw [htier]
  dsimp only
  unfold memsvcMapDevice
  dsimp only
  rw [if_pos hon]
  cases tier with
  | ssd => exact absurd rfl hssd
  | resv =>
    rw [(h.sound .resv).resv rfl] at hon
    cases hon
  | dram =>
    obtain ⟨w, hw⟩ := (h.sound .dram).dram rfl hon
    rw [if_neg (by decide)]
    dsimp only
    rw [hw, hoff]
    exact ⟨_, rfl⟩
  | cxl =>
    rw [if_pos rfl]
    unfold ensureCxlMmap
    cases hw : (m.tiers .cxl).window with
    | some w =>
      dsimp only
      rw [hw, hoff]
      exact ⟨_, rfl⟩
    | none =>
      dsimp only
      rw [hoff]
      exact ⟨_, rfl⟩

theorem MemServiceCtx.LocalReady.resolve_served {m : MemServiceCtx} (h : m.LocalReady)
    {tier : Tier} {gpa : ℕ} (htier : Tier.ofId (gpaToTier gpa) = some tier) (hssd : tier ≠ .ssd)
    (hon : (m.tiers tier).online = true) (len : ℕ) :
    ∃ m', localResolve m gpa len (.bytes content) = (.ok (.window tier (gpaToOffset gpa)), m') ∧
      (m'.tiers tier).window = some (m.memory content tier) := by
  have hb : (Backing.bytes content).Finds content := fun _ hfound => (Backing.bytes.inj hfound).symm
  obtain ⟨m', hr⟩ := h.resolve_granted htier hssd hon len
  obtain ⟨tier', htier', -, -, hw⟩ := h.resolve_ok hb hr
  obtain rfl := Option.some.inj (htier.symm.trans htier')
  exact ⟨m', hr, hw⟩

section Served

variable {m mem : MemServiceCtx} {tier : Tier} {gpa len : ℕ} {transport : Transport}
  {w : DataWorld R} {env : DataEnv}

theorem MemServiceCtx.holds_window {bytes : List UInt8} {o : ℕ}
    (hw : (m.tiers tier).window = some bytes) (hfit : o + len ≤ bytes.length) :
    m.Holds (.window tier o) len := by
  unfold Holds behind
  dsimp only
  rw [hw]
  exact hfit

theorem localGet_served (h : mem.LocalReady) (htier : Tier.ofId (gpaToTier gpa) = some tier)
    (hssd : tier ≠ .ssd) (hon : (mem.tiers tier).online = true)
    (hfit : gpaToOffset gpa + len ≤ (mem.memory content tier).length) {out : List UInt8}
    (hout : out.length = len) : ∃ mem', localGet mem gpa len out (.bytes content) =
      some (.ok (), mem', slice (mem.memory content tier) (gpaToOffset gpa) len) := by
  obtain ⟨m', hr, hw⟩ := h.resolve_served htier hssd hon len
  have hload : m'.loadAt (.window tier (gpaToOffset gpa)) len =
      some (slice (mem.memory content tier) (gpaToOffset gpa) len) := by
    unfold MemServiceCtx.loadAt
    rw [if_pos (MemServiceCtx.holds_window hw hfit)]
    unfold MemServiceCtx.load
    dsimp only
    rw [hw]
    rfl
  refine ⟨m', ?_⟩
  unfold localGet
  rw [hr]
  dsimp only
  rw [hload, Option.map_some, splice_self (by rw [length_slice hfit, hout])]

theorem localPut_served (h : mem.LocalReady) (htier : Tier.ofId (gpaToTier gpa) = some tier)
    (hssd : tier ≠ .ssd) (hon : (mem.tiers tier).online = true) {buf : List UInt8}
    (hfit : gpaToOffset gpa + buf.length ≤ (mem.memory content tier).length) :
    ∃ mem', localPut mem gpa buf (.bytes content) = some (.ok (), mem') := by
  obtain ⟨m', hr, hw⟩ := h.resolve_served htier hssd hon buf.length
  unfold localPut
  rw [hr]
  dsimp only
  unfold MemServiceCtx.storeAt
  rw [if_pos (MemServiceCtx.holds_window hw hfit)]
  exact ⟨_, rfl⟩

/-- Where an address lies says which transport serves it. -/
theorem Transport.place_cases {p : Tier × ℕ} (h : transport.place gpa = some p) :
    p.2 = gpaToOffset gpa ∧
      ((∃ t, transport.resolve gpa = .ok (.ssd t) ∧ p.1 = .ssd) ∨
        ∃ leaf, transport.resolve gpa = .ok leaf ∧ (∀ t, leaf ≠ .remote t) ∧ (∀ t, leaf ≠ .ssd t) ∧
          Tier.ofId (gpaToTier gpa) = some p.1 ∧ p.1 ≠ .ssd) := by
  unfold Transport.place at h
  split at h
  · cases h
  · cases h
  next t hleaf =>
    obtain rfl := Option.some.inj h
    exact ⟨rfl, .inl ⟨t, hleaf, rfl⟩⟩
  next leaf hremote hssd hleaf =>
    obtain ⟨tier, htier, rfl⟩ := Option.map_eq_some_iff.mp h
    obtain ⟨htier, hne⟩ := Option.filter_eq_some_iff.mp htier
    exact ⟨rfl, .inr ⟨leaf, hleaf, fun t ht => hremote t ht, fun t ht => hssd t ht, htier,
      of_decide_eq_true hne⟩⟩

/-- The memory at a place is there to be used: the tier is online and what is mapped is its
content. -/
structure DataWorld.Serves (w : DataWorld R) (content : ℕ → UInt8) (env : DataEnv) (tier : Tier) :
    Prop where
  online : tier ≠ .ssd → (w.mem.tiers tier).online = true
  backing : tier ≠ .ssd → env.backing = .bytes content

/-- The devices of the SSD pool that a range lies on take their pieces of a transfer. -/
def DataWorld.Takes (w : DataWorld R) (env : DataEnv) (isWrite : Bool) (tier : Tier) (o len : ℕ) :
    Prop := tier = .ssd → ∀ pool, (w.ssd.tiers .ssd).ssdPool = some pool →
  pool.Takes env.os isWrite o len

theorem SsdReady.takes_iff {pool : SsdPool} (h : SsdReady w.ssd pool) {isWrite : Bool} {o : ℕ} :
    w.Takes env isWrite .ssd o len ↔ pool.Takes env.os isWrite o len := by
  unfold DataWorld.Takes
  constructor
  · intro htakes
    exact htakes rfl pool h.pool_eq
  · intro htakes _ pool' hpool
    obtain rfl := Option.some.inj (h.pool_eq.symm.trans hpool)
    exact htakes

theorem MemServiceCtx.DisksReady.pool {ssd : MemServiceCtx} (h : ssd.DisksReady) {o : ℕ}
    (hlen : 0 < len) (hfit : o + len ≤ ssd.diskBytes.length) :
    ∃ pool, SsdReady ssd pool ∧ o + len ≤ pool.totalCapacity := by
  rcases h with ⟨pool, h⟩ | h
  · rw [h.diskBytes, h.wf.length_bytes] at hfit
    exact ⟨pool, h, hfit⟩
  · rw [h.diskBytes] at hfit
    exact absurd hfit (by simp; omega)

variable (io) in
theorem DataWorld.Ready.get_served (h : w.Ready transport) (hserves : w.Serves content env tier)
    {o : ℕ} (hplace : transport.place gpa = some (tier, o)) (hlen : 0 < len)
    (hfit : o + len ≤ (w.segments content tier).length) {out : List UInt8}
    (hout : out.length = len) :
    ∃ r w' out', transportGet io env w transport gpa len out = some (r, w', out') ∧
      (r = .ok () ↔ w.Takes env false tier o len) ∧
      (r = .ok () → out' = slice (w.segments content tier) o len) := by
  obtain ⟨ho, ⟨t, hleaf, htier⟩ | ⟨leaf, hleaf, hremote, hnossd, htier, hssd⟩⟩ :=
    Transport.place_cases hplace
  · obtain rfl : tier = .ssd := htier
    obtain rfl : o = gpaToOffset gpa := ho
    obtain ⟨pool, hready, hin⟩ := (h.ssd (Transport.resolve_ssd hleaf).1).pool hlen hfit
    have hsegment : w.segments content .ssd = pool.bytes := hready.diskBytes
    obtain ⟨r, out', hget, hok, hbytes⟩ := ssdTransportGet_inside env.os hready hlen hout hin
    unfold transportGet
    rw [hleaf]
    dsimp only
    rw [hget, hsegment, hready.takes_iff]
    exact ⟨r, _, out', rfl, hok, hbytes⟩
  · obtain rfl : o = gpaToOffset gpa := ho
    have hsegment : w.segments content tier = w.mem.memory content tier := tierSegments_memory hssd
    rw [hsegment] at hfit ⊢
    obtain ⟨mem', hget⟩ := localGet_served h.mem htier hssd (hserves.online hssd) hfit hout
    have htakes : w.Takes env false tier (gpaToOffset gpa) len := fun he => absurd he hssd
    unfold transportGet
    rw [hleaf]
    cases leaf with
    | remote t => exact absurd rfl (hremote t)
    | ssd t => exact absurd rfl (hnossd t)
    | localMem cfg =>
      dsimp only
      rw [hserves.backing hssd, hget]
      exact ⟨.ok (), _, _, rfl, iff_of_true rfl htakes, fun _ => rfl⟩
    | legacy cfg =>
      dsimp only
      rw [hserves.backing hssd, hget]
      exact ⟨.ok (), _, _, rfl, iff_of_true rfl htakes, fun _ => rfl⟩

variable (io) in
theorem DataWorld.Ready.put_served (h : w.Ready transport) (hserves : w.Serves content env tier)
    {o : ℕ} (hplace : transport.place gpa = some (tier, o)) {buf : List UInt8}
    (hlen : 0 < buf.length) (hfit : o + buf.length ≤ (w.segments content tier).length) :
    ∃ r w', transportPut io env w transport gpa buf = some (r, w') ∧
      (r = .ok () ↔ w.Takes env true tier o buf.length) := by
  obtain ⟨ho, ⟨t, hleaf, htier⟩ | ⟨leaf, hleaf, hremote, hnossd, htier, hssd⟩⟩ :=
    Transport.place_cases hplace
  · obtain rfl : tier = .ssd := htier
    obtain rfl : o = gpaToOffset gpa := ho
    obtain ⟨pool, hready, hin⟩ := (h.ssd (Transport.resolve_ssd hleaf).1).pool hlen hfit
    obtain ⟨r, pool', n, hput, -, -, -, -, hok, -⟩ :=
      ssdTransportPut_inside env.os hready hlen rfl hin
    unfold transportPut
    rw [hleaf]
    dsimp only
    rw [hput, hready.takes_iff]
    exact ⟨r, _, rfl, hok⟩
  · obtain rfl : o = gpaToOffset gpa := ho
    have hsegment : w.segments content tier = w.mem.memory content tier := tierSegments_memory hssd
    rw [hsegment] at hfit
    obtain ⟨mem', hput⟩ := localPut_served h.mem htier hssd (hserves.online hssd) hfit
    have htakes : w.Takes env true tier (gpaToOffset gpa) buf.length := fun he => absurd he hssd
    unfold transportPut
    rw [hleaf]
    cases leaf with
    | remote t => exact absurd rfl (hremote t)
    | ssd t => exact absurd rfl (hnossd t)
    | localMem cfg =>
      dsimp only
      rw [hserves.backing hssd, hput]
      exact ⟨.ok (), _, rfl, iff_of_true rfl htakes⟩
    | legacy cfg =>
      dsimp only
      rw [hserves.backing hssd, hput]
      exact ⟨.ok (), _, rfl, iff_of_true rfl htakes⟩

/-- In every state reached, a copy that passes the checks and lies within the memory that a tier had
at the start is served, whatever has failed before, unless a device of the SSD pool refuses its
piece, and a read returns what the memory holds. -/
theorem dataPlane_served (h : Reach (DataInit s) (DataStep io s content) st)
    (hserves : st.world.Serves content env tier) {desc : Option ChunkDescriptor}
    {offset size : UInt64} (hcheck : s.checkAccess desc true offset size = .ok (transport, gpa))
    {o : ℕ} (hplace : s.place desc offset = some (tier, o))
    (hfit : o + size.toNat ≤ (st.start.segments content tier).length) {buf : List UInt8}
    (hbuf : size.toNat ≤ buf.length) :
    (∃ r world, dataCall io env s st.world (.read desc offset size (some buf)) = some (r, world) ∧
      (r.isOk = true ↔ st.world.Takes env false tier o size.toNat) ∧
      (r.isOk = true → r = .ok (.bytes (slice (st.world.segments content tier) o size.toNat)))) ∧
    ∃ r world, dataCall io env s st.world (.write desc offset size (some buf)) = some (r, world) ∧
      (r = .ok .done ↔ st.world.Takes env true tier o size.toNat) := by
  obtain ⟨hready, hrun⟩ := dataRun h
  obtain ⟨ht, hsame, -, hlen, -⟩ := checkAccess_place hcheck
  rw [hsame] at hplace
  rw [← hrun.length_eq tier] at hfit
  have htake : (buf.take size.toNat).length = size.toNat := List.length_take_of_le hbuf
  constructor
  · obtain ⟨r, world, out, hget, hok, hbytes⟩ := (hready transport ht).get_served io hserves hplace
      hlen hfit htake
    refine ⟨r.map fun _ => .bytes out, world, ?_, ?_, ?_⟩
    · unfold dataCall
      dsimp only [Option.isSome_some, Option.getD_some]
      rw [hcheck]
      dsimp only
      rw [hget]
      rfl
    · rw [← hok]
      cases r with
      | ok u => exact iff_of_true rfl rfl
      | error e => exact iff_of_false (nomatch ·) (nomatch ·)
    · intro hr
      cases r with
      | ok u =>
        rw [← hbytes rfl]
        rfl
      | error e => cases hr
  · obtain ⟨r, world, hput, hok⟩ := (hready transport ht).put_served io hserves hplace
      (by rw [htake]; exact hlen) (by rw [htake]; exact hfit)
    rw [htake] at hok
    refine ⟨r.map fun _ => .done, world, ?_, ?_⟩
    · unfold dataCall
      dsimp only [Option.isSome_some, Option.getD_some]
      rw [hcheck]
      dsimp only
      rw [hput]
      rfl
    · rw [← hok]
      cases r with
      | ok u => exact iff_of_true rfl rfl
      | error e => exact iff_of_false (nomatch ·) (nomatch ·)

/-- Before anything else, a write to the file succeeds and one over its end is refused. -/
theorem dataPlane_served_edge :
    (∃ world, dataCall noRemote wholeEnv tiersState tiersWorld
      (.write (some edgeChunk) 0 8 (some [1, 2, 3, 4, 5, 6, 7, 8])) = some (.ok .done, world)) ∧
    ∃ r world, dataCall noRemote wholeEnv tiersState tiersWorld
      (.write (some edgeChunk) 4 8 (some [1, 2, 3, 4, 5, 6, 7, 8])) = some (r, world) ∧
        r ≠ .ok .done := by
  have hserves : tiersWorld.Serves (fun _ => 0) wholeEnv .ssd :=
    ⟨fun hne => absurd rfl hne, fun hne => absurd rfl hne⟩
  have hreach : Reach (DataInit tiersState) (DataStep noRemote tiersState fun _ => 0)
      ⟨tiersWorld, tiersWorld, []⟩ := .start tiersWorld_init
  have hcheck : ∀ offset ∈ [0, 4], tiersState.checkAccess (some edgeChunk) true offset 8 = .ok
      (.router ⟨pageConfig, some (.multi []), false, none, none⟩,
        u64 (edgeChunk.baseGpa + offset.toNat)) ∧
      tiersState.place (some edgeChunk) offset = some (.ssd, 4088 + offset.toNat) := by
    intro offset hoffset
    rcases List.mem_pair.mp hoffset with rfl | rfl <;> decide +kernel
  have hsize : (tiersWorld.segments (fun _ => 0) .ssd).length = 8192 := by decide +kernel
  have hdevices : ((tiersWorld.ssd.tiers .ssd).ssdPool.map fun pool => pool.devices.map fun d =>
      (d.backend.kind, d.virtualBase, d.capacity)) =
        some [(.file, 0, 4096), (.direct, 4096, 4096)] := by decide +kernel
  obtain ⟨pool, hpool, hdevices⟩ := Option.map_eq_some_iff.mp hdevices
  obtain ⟨d, devices, hd, hfirst, hdevices⟩ := List.map_eq_cons_iff.mp hdevices
  obtain ⟨d', devices, rfl, hsecond, hnil⟩ := List.map_eq_cons_iff.mp hdevices
  obtain rfl := List.map_eq_nil_iff.mp hnil
  obtain ⟨hkind, hbase, hcap⟩ := by simpa using hfirst
  obtain ⟨hkind', hbase', hcap'⟩ := by simpa using hsecond
  have hcall : ∀ offset ∈ [0, 4], ∃ r world, dataCall noRemote wholeEnv tiersState tiersWorld
      (.write (some edgeChunk) offset 8 (some [1, 2, 3, 4, 5, 6, 7, 8])) = some (r, world) ∧
        (r = .ok .done ↔ tiersWorld.Takes wholeEnv true .ssd (4088 + offset.toNat) 8) := by
    intro offset hoffset
    obtain ⟨hchecked, hplace⟩ := hcheck offset hoffset
    have hfit : 4088 + offset.toNat + (8 : UInt64).toNat ≤
        (tiersWorld.segments (fun _ => 0) .ssd).length := by
      rw [hsize]
      rcases List.mem_pair.mp hoffset with rfl | rfl <;> decide
    exact (dataPlane_served hreach hserves hchecked hplace hfit (by decide)).2
  constructor
  · obtain ⟨r, world, hwrite, hok⟩ := hcall 0 (by decide)
    refine ⟨world, ?_⟩
    rw [hwrite, hok.mpr]
    intro _ pool' hpool' i e hi hpiece
    obtain rfl := Option.some.inj (hpool.symm.trans hpool')
    rw [hd] at hi
    match i, hi with
    | 0, hi =>
      obtain rfl := Option.some.inj hi
      unfold SsdBackend.Takes
      rw [hkind]
      trivial
    | 1, hi =>
      obtain rfl := Option.some.inj hi
      rw [hbase', hcap'] at hpiece
      exact absurd hpiece (by decide)
  · obtain ⟨r, world, hwrite, hok⟩ := hcall 4 (by decide)
    refine ⟨r, world, hwrite, fun hr => ?_⟩
    have hpiece := hok.mp hr rfl pool hpool 1 d' (by rw [hd]; rfl)
    unfold SsdDevice.TakesPiece SsdBackend.Takes at hpiece
    rw [hbase', hcap', hkind'] at hpiece
    exact absurd hpiece (by decide)

end Served

/-! What a call can reach. -/

section Confined

/-- The chunk that a call names. -/
def DataCall.desc : DataCall → Option ChunkDescriptor
  | .read desc .. | .write desc .. | .atomicCas desc .. | .atomicFetchAdd desc ..
  | .atomicSet desc .. => desc

/-- The checks that a call makes before it goes to the transport. -/
def DataCall.check (s : UmmState) : DataCall → Except Error (Transport × ℕ)
  | .read desc offset len outBuf => s.checkAccess desc outBuf.isSome offset len
  | .write desc offset len buf => s.checkAccess desc buf.isSome offset len
  | .atomicCas desc offset .. | .atomicFetchAdd desc offset _ | .atomicSet desc offset _ =>
    s.checkAtomic desc offset

variable {w w' : DataWorld R} {env : DataEnv} {call : DataCall} {answer : CallAnswer}
  {desc : Option ChunkDescriptor} {transport : Transport} {gpa : ℕ} {tier : Tier} {o size : ℕ}

/-- All bytes of the chunk are apart from a range of a tier. -/
def ChunkDescriptor.Elsewhere (tier : Tier) (o size : ℕ) (d : ChunkDescriptor) : Prop :=
  ∃ node tierId start, Faithful d.baseGpa node tierId start d.userSize ∧
    (tierId ≠ tier.id ∨ start + d.userSize ≤ o ∨ o + size ≤ start)

end Confined

end Runs

end Umm
