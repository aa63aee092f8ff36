import Umm.Transport.SsdBackendNds
import Umm.Lib.Reach

/-! Runs of opens, registrations and closes: the registry keeps the books of every device. -/
namespace Umm
open Umm.Lib

/-- What the backends of one device have in common. -/
structure NdsUse where
  users : ℕ
  /-- The regions that were registered, each once, in their order. -/
  regions : List NdsRegion
  /-- The RPC context that the last user has to disconnect. -/
  bound : Option UInt64

namespace NdsUse

def idle : NdsUse := ⟨0, [], none⟩

def «open» (bound : Option UInt64) (u : NdsUse) : NdsUse :=
  if u.users = 0 then ⟨1, [], bound⟩ else { u with users := u.users + 1 }

def register (region : NdsRegion) (u : NdsUse) : NdsUse :=
  if region ∈ u.regions then u else { u with regions := u.regions ++ [region] }

def close (u : NdsUse) : NdsUse :=
  if u.users = 1 then idle else { u with users := u.users - 1 }

theorem users_close (u : NdsUse) : u.close.users = u.users - 1 := by
  unfold close
  split
  next h => rw [h, idle]
  next => rfl

theorem regions_close (u : NdsUse) : u.close.regions = [] ∨ u.close.regions = u.regions := by
  unfold close
  split
  · exact Or.inl rfl
  · exact Or.inr rfl

end NdsUse

/-- The context that a first open binds and that can be disconnected. -/
def NdsOpenEnv.bound (env : NdsOpenEnv) : Option UInt64 :=
  match ndsRpcContext env with
  | .ok (rpcCtx, true) => rpcCtx
  | _ => none

/-- The registry, the backends that are open, and the books of every device. -/
structure NdsWorld where
  devs : NdsDevices
  opened : List SsdNdsBackend
  uses : UInt32 → NdsUse

inductive NdsEvent where
  | open (spec : CString) (env : NdsOpenEnv)
  | registerMem (backend : ℕ) (devMem alignedSize : UInt64)
  | close (backend : ℕ)

namespace NdsWorld

variable (w : NdsWorld)

def init : NdsWorld := ⟨fun _ => .zero, [], fun _ => .idle⟩

/-- The number of backends that are open on a device. -/
def openOn (id : UInt32) : ℕ :=
  w.opened.countP fun b => b.deviceId = id

def withUse (id : UInt32) (f : NdsUse → NdsUse) : NdsWorld :=
  { w with uses := Function.update w.uses id (f (w.uses id)) }

def open' (spec : CString) (env : NdsOpenEnv) : Except Error Unit × List NdsCall × NdsWorld :=
  match ssdNdsOpen spec env w.devs with
  | (.error e, calls, devs) => (.error e, calls, { w with devs := devs })
  | (.ok b, calls, devs) =>
    (.ok (), calls, ({ w with devs := devs, opened := w.opened ++ [b] } : NdsWorld).withUse
      b.deviceId (.open env.bound))

def registerMem (b : SsdNdsBackend) (devMem alignedSize : UInt64) :
    Except Error Unit × List NdsCall × NdsWorld :=
  match ssdNdsRegisterMem b devMem alignedSize w.devs with
  | (.error e, calls, devs) => (.error e, calls, { w with devs := devs })
  | (.ok (), calls, devs) =>
    (.ok (), calls, ({ w with devs := devs } : NdsWorld).withUse b.deviceId
      (.register ⟨devMem, alignedSize⟩))

def close (i : ℕ) (b : SsdNdsBackend) : Except Error Unit × List NdsCall × NdsWorld :=
  (.ok (), (ssdNdsClose b w.devs).1,
    ({ w with devs := (ssdNdsClose b w.devs).2, opened := w.opened.eraseIdx i } : NdsWorld).withUse
      b.deviceId .close)

/-- One call: its result, the calls into the libraries, and the world after it. -/
def run : NdsEvent → Option (Except Error Unit × List NdsCall × NdsWorld)
  | .open spec env => some (w.open' spec env)
  | .registerMem i devMem alignedSize =>
    w.opened[i]?.map fun b => w.registerMem b devMem alignedSize
  | .close i => w.opened[i]?.map fun b => w.close i b

end NdsWorld

/-! What one open does to the registry. -/

namespace NdsDevices

variable {devs devs' : NdsDevices} {p : NdsDeviceEntry → Bool} {i : Fin ndsMaxDevices}

theorem findEntry_some (h : devs.findEntry p = some i) : p (devs i) = true := by
  simpa using List.find?_some h

theorem findEntry_none (h : devs.findEntry p = none) (i : Fin ndsMaxDevices) :
    p (devs i) = false := by
  simpa using List.find?_eq_none.mp h i (List.mem_finRange i)

/-- The entry that an open gets: one more user of an entry, or a new entry. -/
inductive Acquired (devs : NdsDevices) (env : NdsOpenEnv) (nds : UInt64) (id : UInt32) :
    Fin ndsMaxDevices → List NdsCall → NdsDevices → Prop
  | again {i : Fin ndsMaxDevices} (hused : (devs i).used = true) (hid : (devs i).deviceId = id) :
    Acquired devs env nds id i []
      (Function.update devs i { devs i with refcount := (devs i).refcount + 1 })
  | first {i : Fin ndsMaxDevices} {rpcCtx : Option UInt64} {rpcDisconnect : Bool}
      (queueDepth coreNum pageSize maxPageNum : UInt64) (hfree : (devs i).used = false)
      (hnone : ∀ j, (devs j).used = true → (devs j).deviceId ≠ id)
      (hrpc : ndsRpcContext env = .ok (rpcCtx, rpcDisconnect)) :
    Acquired devs env nds id i
      (rpcCtx.toList.map NdsCall.setRpcContext ++
        [.init nds id queueDepth coreNum pageSize maxPageNum])
      (Function.update devs i
        ⟨true, id, 1, [], pageSize, maxPageNum, rpcCtx, rpcDisconnect⟩)

theorem acquire_cases (env : NdsOpenEnv) (nds : UInt64) (id : UInt32) :
    (∃ e, devs.acquire env nds id = (.error e, [], devs)) ∨
      ∃ i calls devs', devs.acquire env nds id = (.ok i, calls, devs') ∧
        devs.Acquired env nds id i calls devs' := by
  unfold acquire
  split
  next i hi =>
    have hfound := findEntry_some hi
    rw [Bool.and_eq_true, decide_eq_true_eq] at hfound
    exact Or.inr ⟨i, _, _, rfl, .again hfound.1 hfound.2⟩
  next hnone =>
    split
    next => exact Or.inl ⟨_, rfl⟩
    next i hi =>
      have hfree : (devs i).used = false := by simpa using findEntry_some hi
      split
      next => exact Or.inl ⟨_, rfl⟩
      next rpcCtx rpcDisconnect hrpc =>
        refine Or.inr ⟨i, _, _, rfl, .first _ _ _ _ hfree (fun j hj he => ?_) hrpc⟩
        have hother := findEntry_none hnone j
        rw [hj, he] at hother
        simp at hother

end NdsDevices

theorem ssdNdsOpen_cases (spec : CString) (env : NdsOpenEnv) (devs : NdsDevices) :
    (∃ e, ssdNdsOpen spec env devs = (.error e, [], devs)) ∨
      ∃ b calls devs', ssdNdsOpen spec env devs = (.ok b, calls, devs') ∧
        (∃ off, ndsSpec spec = some (b.deviceId, off)) ∧
        devs.Acquired env b.nds b.deviceId b.dev calls devs' := by
  unfold ssdNdsOpen
  split
  next => exact Or.inl ⟨_, rfl⟩
  next id off hspec =>
    split
    next => exact Or.inl ⟨_, rfl⟩
    split
    next => exact Or.inl ⟨_, rfl⟩
    next nds hnds =>
      split
      next => exact Or.inl ⟨_, rfl⟩
      obtain ⟨e, he⟩ | ⟨i, calls, devs', h, hacq⟩ := devs.acquire_cases env nds id
      · rw [he]
        exact Or.inl ⟨e, rfl⟩
      · rw [h]
        exact Or.inr ⟨_, calls, devs', rfl, ⟨off, hspec⟩, hacq⟩

def NdsCall.isInit (id : UInt32) : NdsCall → Bool
  | init _ deviceId _ _ _ _ => deviceId = id
  | _ => false

/-- A call that ends the use of a device. -/
def NdsCall.isRelease : NdsCall → Bool
  | uninit _ | rpcDisconnect _ => true
  | _ => false

/-- What an entry keeps about the use of its device. -/
def NdsDeviceEntry.use (e : NdsDeviceEntry) : NdsUse := ⟨e.refcount.toNat, e.regions, e.bound⟩

namespace NdsWorld

variable {w w' : NdsWorld} {b : SsdNdsBackend} {id : UInt32}

def Init (w : NdsWorld) : Prop := w = .init

def Step (w : NdsWorld) (e : NdsEvent) (w' : NdsWorld) : Prop :=
  ∃ r calls, w.run e = some (r, calls, w')

/-- The reference count does not wrap around. -/
def Fits (w : NdsWorld) : NdsEvent → Prop
  | .open spec _ => ∀ id off, ndsSpec spec = some (id, off) → w.openOn id + 1 < 2 ^ 32
  | _ => True

/-- The registry agrees with the books of every device. -/
structure Booked (w : NdsWorld) : Prop where
  unique : ∀ i j, (w.devs i).used = true → (w.devs j).used = true →
    (w.devs i).deviceId = (w.devs j).deviceId → i = j
  refcount : ∀ i, (w.devs i).used = true →
    (w.devs i).refcount.toNat = w.openOn (w.devs i).deviceId
  shared : ∀ b ∈ w.opened, (w.devs b.dev).used = true ∧ (w.devs b.dev).deviceId = b.deviceId
  regions : ∀ i, (w.devs i).used = true →
    (w.devs i).regions = (w.uses (w.devs i).deviceId).regions
  once : ∀ id, (w.uses id).regions.Nodup
  bounded : ∀ i, (w.devs i).regions.length ≤ ndsMaxRegions
  free : ∀ i, (w.devs i).used = false → (w.devs i).regions = []
  closed : ∀ id, w.openOn id = 0 → (w.uses id).regions = []

/-- The libraries are called when the number of backends of a device says so, and a call that
fails leaves the registry as it is. -/
structure Answered (w : NdsWorld) (r : Except Error Unit) (calls : List NdsCall) (w' : NdsWorld) :
    Prop where
  first : ∀ id, calls.countP (NdsCall.isInit id) =
    if w.openOn id = 0 ∧ w'.openOn id = 1 then 1 else 0
  last : ∀ id, w.openOn id = 1 → w'.openOn id = 0 →
    ∃ nds, calls = .uninit nds :: (w.uses id).bound.toList.map NdsCall.rpcDisconnect
  between : (∀ id, w.openOn id = 1 → w'.openOn id ≠ 0) → ∀ c ∈ calls, c.isRelease = false
  failed : ∀ e, r = .error e → w'.devs = w.devs

/-! The invariant of the runs. -/

structure Inv (w : NdsWorld) : Prop where
  unique : ∀ i j, (w.devs i).used = true → (w.devs j).used = true →
    (w.devs i).deviceId = (w.devs j).deviceId → i = j
  entry : ∀ i, (w.devs i).used = true →
    w.uses (w.devs i).deviceId = (w.devs i).use ∧ 0 < (w.devs i).refcount.toNat
  free : ∀ i, (w.devs i).used = false → (w.devs i).regions = []
  shared : ∀ b ∈ w.opened, (w.devs b.dev).used = true ∧ (w.devs b.dev).deviceId = b.deviceId
  users : ∀ id, (w.uses id).users = w.openOn id
  idle : ∀ id, (w.uses id).users = 0 → w.uses id = .idle
  table : ∀ id, (w.uses id).regions.Nodup ∧ (w.uses id).regions.length ≤ ndsMaxRegions

theorem Inv.booked (h : w.Inv) : w.Booked where
  unique := h.unique
  refcount i hi := by
    have huse := (h.entry i hi).1
    rw [← h.users, huse]
    rfl
  shared := h.shared
  regions i hi := by
    rw [(h.entry i hi).1]
    rfl
  once id := (h.table id).1
  bounded i := by
    cases hi : (w.devs i).used with
    | false =>
      rw [h.free i hi]
      exact Nat.zero_le _
    | true =>
      have htable := (h.table (w.devs i).deviceId).2
      rw [(h.entry i hi).1] at htable
      exact htable
  free := h.free
  closed id hid := by
    rw [h.idle id ((h.users id).trans hid)]
    rfl

theorem inv_init : init.Inv where
  unique _ _ hi := nomatch hi
  entry _ hi := nomatch hi
  free _ _ := rfl
  shared _ hb := nomatch hb
  users _ := rfl
  idle _ _ := rfl
  table _ := ⟨List.nodup_nil, Nat.zero_le _⟩

/-- One entry, the open backends and the books of its device change. -/
theorem Inv.set (h : w.Inv) {i : Fin ndsMaxDevices} {e : NdsDeviceEntry}
    {opened : List SsdNdsBackend} {u : NdsUse} (hid : e.deviceId = id)
    (hown : (w.devs i).used = true → (w.devs i).deviceId = id)
    (honly : ∀ j, (w.devs j).used = true → (w.devs j).deviceId = id → j = i)
    (hopened : ∀ b ∈ opened, b ∈ w.opened ∨ b.deviceId = id ∧ b.dev = i)
    (hcount : ∀ id', opened.countP (fun b => b.deviceId = id') =
      if id' = id then u.users else w.openOn id')
    (hused : e.used = true → u = e.use ∧ 0 < u.users)
    (hfree : e.used = false → e.regions = [] ∧ u = .idle)
    (htable : u.regions.Nodup ∧ u.regions.length ≤ ndsMaxRegions) :
    (⟨Function.update w.devs i e, opened, Function.update w.uses id u⟩ : NdsWorld).Inv := by
  have hother : ∀ j, j ≠ i → (w.devs j).used = true → (w.devs j).deviceId ≠ id :=
    fun j hj hu he => hj (honly j hu he)
  have hlive : ∀ b ∈ opened, b.deviceId = id → e.used = true := by
    intro b hb hbid
    have hpos : 0 < opened.countP fun b => b.deviceId = id :=
      List.countP_pos_iff.mpr ⟨b, hb, by simpa using hbid⟩
    rw [hcount id, if_pos rfl] at hpos
    by_contra hu
    rw [(hfree (by simpa using hu)).2] at hpos
    exact absurd hpos (lt_irrefl 0)
  constructor
  · intro j k hj hk hjk
    dsimp only at hj hk hjk
    by_cases hji : j = i <;> by_cases hki : k = i
    · rw [hji, hki]
    · subst hji
      rw [Function.update_self, Function.update_of_ne hki] at hjk
      rw [Function.update_of_ne hki] at hk
      exact absurd (hjk.symm.trans hid) (hother k hki hk)
    · subst hki
      rw [Function.update_self, Function.update_of_ne hji] at hjk
      rw [Function.update_of_ne hji] at hj
      exact absurd (hjk.trans hid) (hother j hji hj)
    · rw [Function.update_of_ne hji] at hj hjk
      rw [Function.update_of_ne hki] at hk hjk
      exact h.unique j k hj hk hjk
  · refine (Function.forall_update_iff w.devs fun _ e' => e'.used = true →
      Function.update w.uses id u e'.deviceId = e'.use ∧ 0 < e'.refcount.toNat).mpr ⟨?_, ?_⟩
    · intro hu
      rw [hid, Function.update_self]
      obtain ⟨rfl, hpos⟩ := hused hu
      exact ⟨rfl, hpos⟩
    · intro j hji hj
      rw [Function.update_of_ne (hother j hji hj)]
      exact h.entry j hj
  · exact (Function.forall_update_iff w.devs fun _ e' => e'.used = false → e'.regions = []).mpr
      ⟨fun hu => (hfree hu).1, fun j _ => h.free j⟩
  · intro b hb
    dsimp only at hb ⊢
    by_cases hbi : b.dev = i
    · have hbid : b.deviceId = id := by
        obtain hold | hnew := hopened b hb
        · have hs := h.shared b hold
          rw [hbi] at hs
          exact hs.2.symm.trans (hown hs.1)
        · exact hnew.1
      rw [hbi, Function.update_self]
      exact ⟨hlive b hb hbid, hid.trans hbid.symm⟩
    · rw [Function.update_of_ne hbi]
      exact h.shared b ((hopened b hb).resolve_right fun hnew => hbi hnew.2)
  · refine (Function.forall_update_iff w.uses fun id' u' =>
      u'.users = opened.countP fun b => b.deviceId = id').mpr ⟨?_, fun id' hne => ?_⟩
    · rw [hcount id, if_pos rfl]
    · rw [hcount id', if_neg hne]
      exact h.users id'
  · refine (Function.forall_update_iff w.uses fun _ u' => u'.users = 0 → u' = .idle).mpr
      ⟨fun h0 => ?_, fun id' _ => h.idle id'⟩
    cases hu : e.used with
    | false => exact (hfree hu).2
    | true => exact absurd h0 (hused hu).2.ne'
  · exact (Function.forall_update_iff w.uses fun _ u' =>
      u'.regions.Nodup ∧ u'.regions.length ≤ ndsMaxRegions).mpr ⟨htable, fun id' _ => h.table id'⟩

/-! The three calls. -/

theorem countP_eraseIdx {α : Type} {l : List α} {p : α → Bool} {i : ℕ} {a : α}
    (h : l[i]? = some a) :
    l.countP p = (l.eraseIdx i).countP p + if p a = true then 1 else 0 := by
  obtain ⟨hi, rfl⟩ := List.getElem?_eq_some_iff.mp h
  rw [← (List.getElem_cons_eraseIdx_perm hi).countP_eq p, List.countP_cons]

theorem openOn_concat (w : NdsWorld) (b : SsdNdsBackend) (id : UInt32) :
    (w.opened ++ [b]).countP (fun b => b.deviceId = id) =
      w.openOn id + if b.deviceId = id then 1 else 0 := by
  rw [List.countP_append, List.countP_singleton, openOn]
  simp only [decide_eq_true_eq]

/-- The entry of a device that has backends. -/
theorem Inv.entry_of_users (h : w.Inv) (hpos : (w.uses id).users ≠ 0) :
    ∃ i, (w.devs i).used = true ∧ (w.devs i).deviceId = id := by
  rw [h.users] at hpos
  obtain ⟨b, hb, hid⟩ := List.countP_pos_iff.mp (Nat.pos_of_ne_zero hpos)
  have hs := h.shared b hb
  exact ⟨b.dev, hs.1, hs.2.trans (of_decide_eq_true hid)⟩

/-- A step that neither starts nor ends the use of a device. -/
theorem Answered.of_quiet {r : Except Error Unit} {calls : List NdsCall}
    (hinit : ∀ c ∈ calls, ∀ id, c.isInit id = false) (hrelease : ∀ c ∈ calls, c.isRelease = false)
    (hfirst : ∀ id, w.openOn id = 0 → w'.openOn id ≠ 1)
    (hlast : ∀ id, w.openOn id = 1 → w'.openOn id ≠ 0)
    (hfailed : ∀ e, r = .error e → w'.devs = w.devs) : w.Answered r calls w' where
  first id := by
    rw [if_neg fun h => hfirst id h.1 h.2]
    exact List.countP_eq_zero.mpr fun c hc => by simp [hinit c hc id]
  last id h1 h0 := absurd h0 (hlast id h1)
  between _ := hrelease
  failed := hfailed

theorem Inv.again (h : w.Inv) {i : Fin ndsMaxDevices} (bound : Option UInt64)
    (hused : (w.devs i).used = true) (hid : (w.devs i).deviceId = b.deviceId) (hdev : b.dev = i)
    (hfit : w.openOn b.deviceId + 1 < 2 ^ 32) :
    (⟨Function.update w.devs i { w.devs i with refcount := (w.devs i).refcount + 1 },
      w.opened ++ [b], Function.update w.uses b.deviceId ((w.uses b.deviceId).open bound)⟩ :
      NdsWorld).Inv := by
  obtain ⟨huse, hpos⟩ := h.entry i hused
  rw [hid] at huse
  have hcount : (w.devs i).refcount.toNat = w.openOn b.deviceId := by
    rw [← h.users, huse]
    rfl
  have hnext : ((w.devs i).refcount + 1).toNat = (w.devs i).refcount.toNat + 1 := by
    rw [UInt32.toNat_add, hcount]
    exact Nat.mod_eq_of_lt hfit
  have hopen : (w.uses b.deviceId).open bound =
      NdsDeviceEntry.use { w.devs i with refcount := (w.devs i).refcount + 1 } := by
    rw [huse, NdsUse.open, if_neg (show (w.devs i).use.users ≠ 0 from hpos.ne')]
    simp only [NdsDeviceEntry.use, hnext]
    rfl
  refine h.set hid (fun _ => hid) (fun j hj he => h.unique j i hj hused (he.trans hid.symm))
    (fun b' hb' => ?_) (fun id' => ?_) (fun _ => ⟨hopen, ?_⟩) (fun hf => ?_) ?_
  · obtain hold | hnew := List.mem_append.mp hb'
    · exact Or.inl hold
    · obtain rfl := List.mem_singleton.mp hnew
      exact Or.inr ⟨rfl, hdev⟩
  · rw [openOn_concat, hopen]
    change _ = if _ then ((w.devs i).refcount + 1).toNat else _
    rw [hnext, hcount]
    split_ifs with h1 h2 h2
    · rw [h2]
    · exact absurd h1.symm h2
    · exact absurd h2.symm h1
    · rfl
  · rw [hopen]
    change 0 < ((w.devs i).refcount + 1).toNat
    omega
  · rw [hused] at hf
    exact Bool.noConfusion hf
  · have htable := h.table b.deviceId
    rw [huse] at htable
    rw [hopen]
    exact htable

theorem Inv.first (h : w.Inv) {i : Fin ndsMaxDevices} {e : NdsDeviceEntry}
    (hnone : ∀ j, (w.devs j).used = true → (w.devs j).deviceId ≠ b.deviceId)
    (hfree : (w.devs i).used = false) (hdev : b.dev = i) (hused : e.used = true)
    (hid : e.deviceId = b.deviceId) (hcount : e.refcount = 1) (hregions : e.regions = []) :
    (⟨Function.update w.devs i e, w.opened ++ [b],
      Function.update w.uses b.deviceId ((w.uses b.deviceId).open e.bound)⟩ : NdsWorld).Inv ∧
      w.openOn b.deviceId = 0 := by
  have hzero : (w.uses b.deviceId).users = 0 := by
    by_contra hpos
    obtain ⟨j, hj, he⟩ := h.entry_of_users hpos
    exact hnone j hj he
  have hopen : (w.uses b.deviceId).open e.bound = e.use := by
    rw [NdsUse.open, if_pos hzero, NdsDeviceEntry.use, hcount, hregions]
    rfl
  rw [hopen]
  refine ⟨h.set hid (fun hi => ?_) (fun j hj he => absurd he (hnone j hj)) (fun b' hb' => ?_)
    (fun id' => ?_) (fun _ => ⟨rfl, ?_⟩) (fun hf => ?_) ?_, (h.users _).symm.trans hzero⟩
  · rw [hfree] at hi
    exact Bool.noConfusion hi
  · obtain hold | hnew := List.mem_append.mp hb'
    · exact Or.inl hold
    · obtain rfl := List.mem_singleton.mp hnew
      exact Or.inr ⟨rfl, hdev⟩
  · rw [openOn_concat]
    change _ = if _ then e.refcount.toNat else _
    rw [hcount]
    split_ifs with h1 h2 h2
    · rw [h2, ← h.users, hzero]
      rfl
    · exact absurd h1.symm h2
    · exact absurd h2.symm h1
    · rfl
  · change 0 < e.refcount.toNat
    rw [hcount]
    decide
  · rw [hused] at hf
    exact Bool.noConfusion hf
  · change e.regions.Nodup ∧ e.regions.length ≤ _
    rw [hregions]
    exact ⟨List.nodup_nil, Nat.zero_le _⟩

theorem Inv.register (h : w.Inv) (hb : b ∈ w.opened) {region : NdsRegion}
    (hnew : region ∉ (w.devs b.dev).regions)
    (hroom : (w.devs b.dev).regions.length < ndsMaxRegions) :
    (⟨Function.update w.devs b.dev
        { w.devs b.dev with regions := (w.devs b.dev).regions ++ [region] },
      w.opened, Function.update w.uses b.deviceId ((w.uses b.deviceId).register region)⟩ :
      NdsWorld).Inv := by
  obtain ⟨hused, hid⟩ := h.shared b hb
  obtain ⟨huse, hpos⟩ := h.entry b.dev hused
  rw [hid] at huse
  have hregister : (w.uses b.deviceId).register region =
      NdsDeviceEntry.use { w.devs b.dev with regions := (w.devs b.dev).regions ++ [region] } := by
    rw [huse, NdsUse.register, if_neg (show region ∉ (w.devs b.dev).use.regions from hnew)]
    rfl
  have htable := h.table b.deviceId
  rw [huse] at htable
  rw [hregister]
  refine h.set hid (fun _ => hid)
    (fun j hj he => h.unique j b.dev hj hused (he.trans hid.symm)) (fun b' hb' => Or.inl hb')
    (fun id' => ?_) (fun _ => ⟨rfl, hpos⟩) (fun hf => ?_) ⟨?_, ?_⟩
  · change w.openOn id' = if _ then (w.devs b.dev).refcount.toNat else _
    split_ifs with he
    · rw [he, ← h.users, huse]
      rfl
    · rfl
  · rw [hused] at hf
    exact Bool.noConfusion hf
  · change ((w.devs b.dev).regions ++ [region]).Nodup
    rw [← List.concat_eq_append]
    exact htable.1.concat hnew
  · change ((w.devs b.dev).regions ++ [region]).length ≤ _
    rw [List.length_append, List.length_singleton]
    omega

theorem openOn_eraseIdx {i : ℕ} (hi : w.opened[i]? = some b) (id : UInt32) :
    w.openOn id = (w.opened.eraseIdx i).countP (fun b => b.deviceId = id) +
      if b.deviceId = id then 1 else 0 := by
  rw [openOn, countP_eraseIdx hi]
  simp only [decide_eq_true_eq]

/-- A close leaves the entry with one user less, or gives it back. -/
theorem Inv.close (h : w.Inv) {i : ℕ} (hi : w.opened[i]? = some b) {e : NdsDeviceEntry}
    (hid : e.deviceId = b.deviceId) (hclose : (w.uses b.deviceId).close = e.use)
    (hused : e.used = true → 0 < e.refcount.toNat) (hfree : e.used = false → e.use = .idle) :
    (⟨Function.update w.devs b.dev e, w.opened.eraseIdx i,
      Function.update w.uses b.deviceId (w.uses b.deviceId).close⟩ : NdsWorld).Inv := by
  have hb : b ∈ w.opened := List.mem_of_getElem? hi
  obtain ⟨hold, hbid⟩ := h.shared b hb
  refine h.set hid (fun _ => hbid)
    (fun j hj he => h.unique j b.dev hj hold (he.trans hbid.symm))
    (fun b' hb' => Or.inl (List.mem_of_mem_eraseIdx hb')) (fun id' => ?_)
    (fun hu => ⟨hclose, ?_⟩) (fun hf => ?_) ?_
  · have herase := openOn_eraseIdx hi id'
    rw [NdsUse.users_close, h.users]
    split_ifs at herase ⊢ with h1 h2 h2
    · rw [h2]
      omega
    · exact absurd h1.symm h2
    · exact absurd h2.symm h1
    · omega
  · rw [hclose]
    exact hused hu
  · rw [hclose, hfree hf]
    exact ⟨congrArg NdsUse.regions (hfree hf), rfl⟩
  · obtain hr | hr := (w.uses b.deviceId).regions_close
    · rw [hr]
      exact ⟨List.nodup_nil, Nat.zero_le _⟩
    · rw [hr]
      exact h.table b.deviceId

/-! One call keeps the invariant and calls the libraries as it should. -/

variable {r : Except Error Unit} {calls : List NdsCall}

/-- A call that changes nothing. -/
theorem Answered.refused (e : Error) : w.Answered (.error e) [] w :=
  .of_quiet (fun c hc => nomatch hc) (fun c hc => nomatch hc)
    (fun id h0 h1 => by omega) (fun id h1 h0 => by omega) fun _ _ => rfl

theorem countP_firstCalls (rpcCtx : Option UInt64) (nds queueDepth coreNum pageSize maxPageNum : UInt64)
    (id id' : UInt32) :
    (rpcCtx.toList.map NdsCall.setRpcContext ++
      [NdsCall.init nds id queueDepth coreNum pageSize maxPageNum]).countP (NdsCall.isInit id') =
      if id = id' then 1 else 0 := by
  have hset : (rpcCtx.toList.map NdsCall.setRpcContext).countP (NdsCall.isInit id') = 0 := by
    refine List.countP_eq_zero.mpr fun c hc => ?_
    obtain ⟨ctx, -, rfl⟩ := List.mem_map.mp hc
    exact Bool.false_ne_true
  rw [List.countP_append, hset, List.countP_singleton, zero_add]
  simp only [NdsCall.isInit, decide_eq_true_eq]

theorem bound_of_rpc {env : NdsOpenEnv} {rpcCtx : Option UInt64} {rpcDisconnect : Bool}
    (id : UInt32) (pageSize maxPageNum : UInt64)
    (h : ndsRpcContext env = .ok (rpcCtx, rpcDisconnect)) :
    env.bound =
      NdsDeviceEntry.bound ⟨true, id, 1, [], pageSize, maxPageNum, rpcCtx, rpcDisconnect⟩ := by
  unfold NdsOpenEnv.bound NdsDeviceEntry.bound
  rw [h]
  cases rpcDisconnect <;> rfl

theorem Inv.open_step (h : w.Inv) {spec : CString} {env : NdsOpenEnv}
    (hfit : w.Fits (.open spec env)) :
    (w.open' spec env).2.2.Inv ∧
      w.Answered (w.open' spec env).1 (w.open' spec env).2.1 (w.open' spec env).2.2 := by
  unfold open'
  obtain ⟨e, he⟩ | ⟨b, calls, devs', hopen, ⟨off, hspec⟩, hacq⟩ :=
    ssdNdsOpen_cases spec env w.devs
  · rw [he]
    exact ⟨h, .refused e⟩
  rw [hopen]
  dsimp only [withUse]
  have hcount : ∀ id, openOn (⟨devs', w.opened ++ [b],
      Function.update w.uses b.deviceId ((w.uses b.deviceId).open env.bound)⟩ : NdsWorld) id =
      w.openOn id + if b.deviceId = id then 1 else 0 := openOn_concat w b
  cases hacq with
  | again hused hid =>
    have hinv := h.again env.bound hused hid rfl (hfit _ _ hspec)
    have hpos : 0 < w.openOn b.deviceId := by
      have hentry := h.entry _ hused
      rw [hid] at hentry
      rw [← h.users, hentry.1]
      exact hentry.2
    refine ⟨hinv, .of_quiet (fun c hc => nomatch hc) (fun c hc => nomatch hc)
      (fun id h0 h1 => ?_) (fun id h1 h0 => ?_) fun e he => nomatch he⟩
    · rw [hcount] at h1
      split_ifs at h1 with he
      · rw [he] at hpos
        omega
      · omega
    · rw [hcount] at h0
      omega
  | first queueDepth coreNum pageSize maxPageNum hfree hnone hrpc =>
    rw [bound_of_rpc b.deviceId pageSize maxPageNum hrpc] at hcount ⊢
    obtain ⟨hinv, hzero⟩ := h.first
      (e := ⟨true, b.deviceId, 1, [], pageSize, maxPageNum, _, _⟩) hnone hfree rfl rfl rfl rfl rfl
    refine ⟨hinv, ⟨fun id => ?_, fun id h1 h0 => ?_, fun _ c hc => ?_, fun e he => nomatch he⟩⟩
    · rw [countP_firstCalls, hcount]
      split_ifs with he h01 h01
      · rfl
      · rw [← he] at h01
        omega
      · omega
      · rfl
    · rw [hcount] at h0
      omega
    · obtain hc | hc := List.mem_append.mp hc
      · obtain ⟨ctx, -, rfl⟩ := List.mem_map.mp hc
        rfl
      · obtain rfl := List.mem_singleton.mp hc
        rfl

theorem Inv.registerMem_step (h : w.Inv) (hb : b ∈ w.opened) (devMem alignedSize : UInt64) :
    (w.registerMem b devMem alignedSize).2.2.Inv ∧
      w.Answered (w.registerMem b devMem alignedSize).1 (w.registerMem b devMem alignedSize).2.1
        (w.registerMem b devMem alignedSize).2.2 := by
  unfold registerMem ssdNdsRegisterMem
  split_ifs with h0 halign hknown hroom
  · exact ⟨h, .refused _⟩
  · exact ⟨h, .refused _⟩
  · -- The table of the device has the region already.
    have hsame : w.withUse b.deviceId (.register ⟨devMem, alignedSize⟩) = w := by
      obtain ⟨hused, hid⟩ := h.shared b hb
      have huse := (h.entry b.dev hused).1
      rw [hid] at huse
      rw [withUse, NdsUse.register, if_pos (by rw [huse]; exact hknown), Function.update_eq_self]
    dsimp only
    rw [hsame]
    exact ⟨h, .of_quiet (fun c hc => nomatch hc) (fun c hc => nomatch hc)
      (fun id h0 h1 => by omega) (fun id h1 h0 => by omega) fun _ he => nomatch he⟩
  · exact ⟨h, .refused _⟩
  · refine ⟨h.register hb hknown (not_le.mp hroom), .of_quiet (fun c hc id => ?_) (fun c hc => ?_)
      (fun id h0 h1 => ?_) (fun id h1 h0 => ?_) fun _ he => nomatch he⟩
    · obtain rfl := List.mem_singleton.mp hc
      rfl
    · obtain rfl := List.mem_singleton.mp hc
      rfl
    · exact absurd (h0.symm.trans h1) Nat.zero_ne_one
    · exact absurd (h0.symm.trans h1) Nat.zero_ne_one

section Close

variable {i : ℕ} (h : w.Inv) (hi : w.opened[i]? = some b)
include h hi

/-- The count of a device is that of its open backends. -/
theorem Inv.refcount_opened : (w.devs b.dev).used = true ∧ (w.devs b.dev).deviceId = b.deviceId ∧
    w.uses b.deviceId = (w.devs b.dev).use ∧
    (w.devs b.dev).refcount.toNat = w.openOn b.deviceId ∧
    ((w.devs b.dev).refcount - 1).toNat = (w.devs b.dev).refcount.toNat - 1 := by
  obtain ⟨hused, hid⟩ := h.shared b (List.mem_of_getElem? hi)
  obtain ⟨huse, hpos⟩ := h.entry b.dev hused
  rw [hid] at huse
  have hone : 1 ≤ (w.devs b.dev).refcount := UInt32.le_iff_toNat_le.mpr hpos
  refine ⟨hused, hid, huse, ?_, UInt32.toNat_sub_of_le _ _ hone⟩
  rw [← h.users, huse]
  rfl

omit h in
/-- A close opens no device. -/
theorem openOn_closed_ne_one {id : UInt32} (h0 : w.openOn id = 0) :
    (w.opened.eraseIdx i).countP (fun b => b.deviceId = id) ≠ 1 := by
  intro h1
  have herase := openOn_eraseIdx hi id
  omega

/-- The last close gives the device back. -/
theorem Inv.close_last (hlast : (w.devs b.dev).refcount - 1 = 0) :
    (w.close i b).2.2.Inv ∧ w.Answered (w.close i b).1 (w.close i b).2.1 (w.close i b).2.2 := by
  obtain ⟨hused, hid, huse, hcount, hless⟩ := h.refcount_opened hi
  have hpos := (h.entry b.dev hused).2
  have herase := openOn_eraseIdx hi
  have hc1 : w.openOn b.deviceId = 1 := by
    have h0 : ((w.devs b.dev).refcount - 1).toNat = 0 := congrArg UInt32.toNat hlast
    omega
  have hidle : (w.uses b.deviceId).close = .idle := if_pos ((h.users _).trans hc1)
  unfold NdsWorld.close ssdNdsClose
  rw [if_pos hused, if_pos hlast]
  refine ⟨h.close hi hid hidle (fun hf => Bool.noConfusion hf) fun _ => rfl, ?_⟩
  constructor
  · intro id
    rw [if_neg fun h01 => openOn_closed_ne_one hi h01.1 h01.2]
    refine List.countP_eq_zero.mpr fun c hc => ?_
    obtain rfl | hc := List.mem_cons.mp hc
    · exact Bool.false_ne_true
    · obtain ⟨ctx, -, rfl⟩ := List.mem_map.mp hc
      exact Bool.false_ne_true
  · intro id h1 h0
    have hsame : b.deviceId = id := by
      have := herase id
      by_contra hne
      rw [if_neg hne] at this
      change (w.opened.eraseIdx i).countP _ = 0 at h0
      omega
    rw [← hsame, huse]
    exact ⟨b.nds, rfl⟩
  · intro hnone
    refine absurd ?_ (hnone b.deviceId hc1)
    have := herase b.deviceId
    rw [if_pos rfl] at this
    change (w.opened.eraseIdx i).countP _ = 0
    omega
  · exact fun e he => nomatch he

/-- Any other close leaves the device as it is. -/
theorem Inv.close_shared (hlast : (w.devs b.dev).refcount - 1 ≠ 0) :
    (w.close i b).2.2.Inv ∧ w.Answered (w.close i b).1 (w.close i b).2.1 (w.close i b).2.2 := by
  obtain ⟨hused, hid, huse, hcount, hless⟩ := h.refcount_opened hi
  have hpos := (h.entry b.dev hused).2
  have hmore : w.openOn b.deviceId ≠ 1 := by
    intro h1
    refine hlast (UInt32.toNat_inj.mp ?_)
    rw [hless, hcount, h1]
    rfl
  have hclose : (w.uses b.deviceId).close =
      NdsDeviceEntry.use { w.devs b.dev with refcount := (w.devs b.dev).refcount - 1 } := by
    rw [NdsUse.close, if_neg (by rwa [h.users]), huse]
    simp only [NdsDeviceEntry.use, hless]
    rfl
  unfold NdsWorld.close ssdNdsClose
  rw [if_pos hused, if_neg hlast]
  refine ⟨h.close hi hid hclose (fun _ => ?_) (fun hf => ?_),
    .of_quiet (fun c hc => nomatch hc) (fun c hc => nomatch hc)
      (fun id => openOn_closed_ne_one hi) (fun id h1 h0 => ?_) fun _ he => nomatch he⟩
  · change 0 < ((w.devs b.dev).refcount - 1).toNat
    rw [hless]
    omega
  · rw [hused] at hf
    exact Bool.noConfusion hf
  · have := openOn_eraseIdx hi id
    change (w.opened.eraseIdx i).countP _ = 0 at h0
    split_ifs at this with he
    · rw [he] at hmore
      exact hmore h1
    · omega

theorem Inv.close_step :
    (w.close i b).2.2.Inv ∧ w.Answered (w.close i b).1 (w.close i b).2.1 (w.close i b).2.2 := by
  by_cases hlast : (w.devs b.dev).refcount - 1 = 0
  · exact h.close_last hi hlast
  · exact h.close_shared hi hlast

end Close

theorem Inv.step (h : w.Inv) {e : NdsEvent} (hfit : w.Fits e)
    (hrun : w.run e = some (r, calls, w')) : w'.Inv ∧ w.Answered r calls w' := by
  cases e with
  | «open» spec env =>
    have hstep := h.open_step hfit
    rw [Option.some.inj hrun] at hstep
    exact hstep
  | registerMem i devMem alignedSize =>
    obtain ⟨b, hb, hr⟩ := Option.map_eq_some_iff.mp hrun
    have hstep := h.registerMem_step (List.mem_of_getElem? hb) devMem alignedSize
    rw [hr] at hstep
    exact hstep
  | close i =>
    obtain ⟨b, hb, hr⟩ := Option.map_eq_some_iff.mp hrun
    have hstep := h.close_step hb
    rw [hr] at hstep
    exact hstep

end NdsWorld

open NdsWorld

/-- As long as fewer than 2^32 backends are open on a device, the registry keeps its books. -/
theorem ndsRegistry_booked {w : NdsWorld} (h : Reach Init (Guarded Fits Step) w) :
    w.Booked ∧ ∀ e r calls w', w.Fits e → w.run e = some (r, calls, w') →
      w.Answered r calls w' := by
  have hinv : w.Inv := h.invariant
    (fun s hs => hs ▸ inv_init)
    fun s e t hs ht => by
      obtain ⟨hfit, r, calls, hrun⟩ := ht
      exact (hs.step hfit hrun).1
  exact ⟨hinv.booked, fun e r calls w' hfit hrun => (hinv.step hfit hrun).2⟩

/-! Many backends on device 0. -/

def deviceZero : CString := ⟨[48], by decide⟩

/-- Everything is there, and no RPC socket is named. -/
def plainOpen : NdsOpenEnv :=
  ⟨none, none, none, none, none, none, none, none, true, true, true, some 1, true, false, false,
    none⟩

def zeroBackend : SsdNdsBackend :=
  ⟨1, 0, ndsDefaultMaxIo, ndsDefaultPageSize, 0, 0, false, false⟩

def crowdEntry (refcount : UInt32) : NdsDeviceEntry :=
  ⟨true, 0, refcount, [], ndsDefaultPageSize, ndsDefaultMaxPageNum, none, false⟩

/-- `n` backends are open on device 0. -/
def NdsWorld.crowd (n : ℕ) : NdsWorld where
  devs := Function.update (fun _ => .zero) 0 (crowdEntry (UInt32.ofNat n))
  opened := List.replicate n zeroBackend
  uses := Function.update (fun _ => .idle) 0 ⟨n, [], none⟩

theorem NdsWorld.openOn_crowd (n : ℕ) : (crowd n).openOn 0 = n := by
  simp [openOn, crowd, List.countP_replicate, zeroBackend]

theorem NdsWorld.crowd_one :
    init.run (.open deviceZero plainOpen) =
      some (.ok (), [.init 1 0 ndsDefaultQueueDepth ndsDefaultCoreNum ndsDefaultPageSize
        ndsDefaultMaxPageNum], crowd 1) := rfl

theorem NdsWorld.crowd_succ (n : ℕ) :
    (crowd (n + 1)).run (.open deviceZero plainOpen) = some (.ok (), [], crowd (n + 2)) := by
  have hdevs : Function.update (crowd (n + 1)).devs 0 (crowdEntry (UInt32.ofNat (n + 1) + 1)) =
      (crowd (n + 2)).devs := by
    have hnext : UInt32.ofNat (n + 1) + 1 = UInt32.ofNat (n + 2) := (UInt32.ofNat_add _ _).symm
    rw [hnext]
    exact Function.update_idem _ _ _
  have huses : Function.update (crowd (n + 1)).uses 0 ⟨n + 2, [], none⟩ = (crowd (n + 2)).uses :=
    Function.update_idem _ _ _
  have hopened : (crowd (n + 1)).opened ++ [zeroBackend] = (crowd (n + 2)).opened :=
    List.replicate_succ'.symm
  calc (crowd (n + 1)).run (.open deviceZero plainOpen)
    _ = some (.ok (), [],
        ⟨Function.update (crowd (n + 1)).devs 0 (crowdEntry (UInt32.ofNat (n + 1) + 1)),
          (crowd (n + 1)).opened ++ [zeroBackend],
          Function.update (crowd (n + 1)).uses 0 ⟨n + 2, [], none⟩⟩) := rfl
    _ = some (.ok (), [], crowd (n + 2)) := by rw [hdevs, huses, hopened]

theorem NdsWorld.reach_crowd (n : ℕ) : Reach Init Step (crowd (n + 1)) := by
  induction n with
  | zero => exact .next _ (.start rfl) ⟨_, _, crowd_one⟩
  | succ n ih => exact .next _ ih ⟨_, _, crowd_succ n⟩

/-- The device is released with its only backend, and the next open initialises it again. -/
theorem ndsRegistry_booked_reopened : ∃ w₁ w₂,
    (crowd 1).run (.close 0) = some (.ok (), [.uninit 1], w₁) ∧
      w₁.run (.open deviceZero plainOpen) = some (.ok (),
        [.init 1 0 ndsDefaultQueueDepth ndsDefaultCoreNum ndsDefaultPageSize
          ndsDefaultMaxPageNum], w₂) ∧
      w₂.Booked ∧ ∀ e r calls w', w₂.Fits e → w₂.run e = some (r, calls, w') →
        w₂.Answered r calls w' := by
  let w₁ := ((crowd 1).close 0 zeroBackend).2.2
  let w₂ := (w₁.open' deviceZero plainOpen).2.2
  have hclose : (crowd 1).run (.close 0) = some (.ok (), [.uninit 1], w₁) := rfl
  have hopen : w₁.run (.open deviceZero plainOpen) = some (.ok (), _, w₂) := rfl
  have hfits : ∀ w : NdsWorld, w.openOn 0 = 0 → w.Fits (.open deviceZero plainOpen) := by
    intro w hw id off hspec
    obtain rfl : (0 : UInt32) = id :=
      congrArg Prod.fst (Option.some.inj ((rfl : some (0, 0) = ndsSpec deviceZero).trans hspec))
    rw [hw]
    norm_num
  exact ⟨w₁, w₂, hclose, hopen, ndsRegistry_booked (.next _ (.next (.close 0)
    (.next _ (.start rfl) ⟨hfits _ rfl, _, _, crowd_one⟩) ⟨trivial, _, _, hclose⟩) ⟨hfits _ rfl, _, _, hopen⟩)⟩

/-- 2^32 backends that are open on one device leave a reference count of 0. -/
theorem ndsRegistry_wraps : ¬ ∀ w, Reach Init Step w → w.Booked := by
  intro h
  have hcount := (h _ (reach_crowd (2 ^ 32 - 1))).refcount 0 rfl
  have hzero : (crowd (2 ^ 32)).openOn 0 = 0 := hcount.symm
  rw [openOn_crowd] at hzero
  exact absurd hzero (by norm_num)

end Umm
