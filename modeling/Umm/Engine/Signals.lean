import Umm.Engine.Accounting
import Umm.Engine.Completion

/-! What holds of the handles, whoever runs in between: every callback that was registered waits with
its handle, waits with the call that is to run it, was run or was left out, and who waits waits for a
result. -/
namespace Umm
open Umm.Lib

theorem IOHandle.Shows.pos {handle : IOHandle} {n i : ℕ} {written : ℕ → IOResult → Prop}
    (hs : handle.Shows n written) (hi : handle.results[i]? = some none) : 0 < handle.remaining := by
  have hpos : 0 < handle.results.countP Option.isNone :=
    List.countP_pos_iff.mpr ⟨none, List.mem_of_getElem? hi, rfl⟩
  have := hs.remaining
  omega

/-- A handle that is not open has all its results. -/
theorem IOHandle.Shows.done_of_closed {handle : IOHandle} {n : ℕ} {written : ℕ → IOResult → Prop}
    (hs : handle.Shows n written) : handle.done = true ↔ ¬ 0 < handle.remaining := by
  have := hs.remaining
  unfold IOHandle.done
  rw [decide_eq_true_eq]
  omega

/-- What is stored leaves the other requests as they are. -/
theorem IOHandle.Shows.setMany_other {handle : IOHandle} {n i : ℕ} {pairs : List (ℕ × IOResult)}
    (hs : handle.Shows n fun i v => handle.results[i]? = some (some v))
    (hs' : (handle.setMany pairs).Shows n fun i v =>
      handle.results[i]? = some (some v) ∨ (i, v) ∈ pairs)
    (hi : handle.results[i]? = some none) (hnot : i ∉ pairs.map Prod.fst) :
    (handle.setMany pairs).results[i]? = some none := by
  have hlt : i < (handle.setMany pairs).results.length := by
    rw [hs'.length, ← hs.length]
    exact (List.getElem?_eq_some_iff.mp hi).1
  rw [List.getElem?_eq_getElem hlt]
  cases hv : (handle.setMany pairs).results[i] with
  | none => rfl
  | some v =>
    have hsome : (handle.setMany pairs).results[i]? = some (some v) := by
      rw [List.getElem?_eq_getElem hlt, hv]
    rcases (hs'.results i v).mp hsome with hold | hnew
    · rw [hi] at hold
      cases hold
    · exact absurd (List.mem_map_of_mem (f := Prod.fst) hnew) hnot

/-- A handle of `size` requests. Results of `undelivered` are on their way to it, and `pending` are
the callbacks that some call is to run. -/
structure HandleState.Inv (x : HandleState) (size nextId : ℕ) (undelivered : List ℕ)
    (pending : List Callback) : Prop where
  shows : x.Shows size fun i v => x.results[i]? = some (some v)
  nodup : undelivered.Nodup
  missing : ∀ i ∈ undelivered, x.results[i]? = some none
  account : x.registered.Perm
    (x.ran ++ x.skipped ++ (pending ++ if 0 < x.remaining then x.callbacks else []))
  early : 0 < x.remaining → x.ran = [] ∧ x.skipped = [] ∧ pending = []
  ids : (x.registered.map Callback.id).Nodup
  below : ∀ cb ∈ x.registered, cb.id < nextId
  waiters : ¬ 0 < x.remaining → x.waiters = []
  raised : x.raised ⊆ x.ran
  behind : ∀ cb ∈ x.skipped, ∃ bad ∈ x.raised, [bad, cb].Sublist x.callbacks

namespace HandleState

variable {x : HandleState} {size nextId t : ℕ} {U U' : List ℕ} {P P' rest : List Callback}
  {cb : Callback} {pairs : List (ℕ × IOResult)}

theorem inv_init (n : ℕ) : (init n).Inv n nextId [] [] where
  shows := by
    have hs := IOHandle.shows_init n
    refine ⟨hs.length, hs.remaining, fun i v => Iff.rfl⟩
  nodup := List.nodup_nil
  missing := by simp
  account := by
    change List.Perm [] ([] ++ [] ++ ([] ++ if 0 < (n : ℤ) then [] else []))
    rw [ite_self]
    rfl
  early _ := ⟨rfl, rfl, rfl⟩
  ids := List.nodup_nil
  below := by simp [init]
  waiters _ := rfl
  raised := by simp [init]
  behind := by simp [init]

namespace Inv

theorem perm (hx : x.Inv size nextId U P) (hU : U.Perm U') (hP : P.Perm P') :
    x.Inv size nextId U' P' where
  shows := hx.shows
  nodup := hU.nodup_iff.mp hx.nodup
  missing i hi := hx.missing i (hU.mem_iff.mpr hi)
  account := hx.account.trans ((hP.append_right _).append_left _)
  early hopen := by
    obtain ⟨hran, hskipped, hpending⟩ := hx.early hopen
    rw [hpending] at hP
    exact ⟨hran, hskipped, hP.symm.eq_nil⟩
  ids := hx.ids
  below := hx.below
  waiters := hx.waiters
  raised := hx.raised
  behind := hx.behind

theorem mono (hx : x.Inv size nextId U P) {nextId' : ℕ} (hle : nextId ≤ nextId') :
    x.Inv size nextId' U P :=
  { hx with below := fun cb hcb => (hx.below cb hcb).trans_le hle }

theorem done_iff (hx : x.Inv size nextId U P) : x.done = true ↔ ¬ 0 < x.remaining :=
  hx.shows.done_of_closed

/-- Results on their way are those of an open handle. -/
theorem remaining_pos (hx : x.Inv size nextId (pairs.map Prod.fst ++ U) P) (hne : pairs ≠ []) :
    0 < x.remaining := by
  obtain ⟨pair, hp⟩ := List.exists_mem_of_ne_nil pairs hne
  exact hx.shows.pos (hx.missing pair.1 (List.mem_append_left _ (List.mem_map_of_mem hp)))

theorem store_shows (hx : x.Inv size nextId (pairs.map Prod.fst ++ U) P) :
    (x.store pairs).Shows size fun i v => x.results[i]? = some (some v) ∨ (i, v) ∈ pairs := by
  refine hx.shows.setMany (List.nodup_append.mp hx.nodup).1 fun pair hp => ?_
  have hnone := hx.missing pair.1 (List.mem_append_left _ (List.mem_map_of_mem hp))
  refine ⟨hx.shows.length ▸ (List.getElem?_eq_some_iff.mp hnone).1, fun v hv => ?_⟩
  rw [hnone] at hv
  cases hv

theorem store_missing (hx : x.Inv size nextId (pairs.map Prod.fst ++ U) P) :
    ∀ i ∈ U, (x.store pairs).results[i]? = some none := by
  intro i hi
  refine hx.shows.setMany_other hx.store_shows (hx.missing i (List.mem_append_right _ hi)) ?_
  exact fun hmem => (List.nodup_append.mp hx.nodup).2.2 i hmem i hi rfl

/-- Results that are not the last. -/
theorem store (hx : x.Inv size nextId (pairs.map Prod.fst ++ U) P)
    (hopen : 0 < (x.store pairs).remaining) : (x.store pairs).Inv size nextId U P := by
  have hstore := hx.store_shows
  have hpos : 0 < x.remaining := by
    change 0 < x.remaining - pairs.length at hopen
    omega
  have haccount := hx.account
  rw [if_pos hpos] at haccount
  refine ⟨⟨hstore.length, hstore.remaining, fun i v => Iff.rfl⟩, (List.nodup_append.mp hx.nodup).2.1,
    hx.store_missing, ?_, fun _ => hx.early hpos, hx.ids, hx.below, fun h => absurd hopen h,
    hx.raised, hx.behind⟩
  rw [if_pos hopen]
  exact haccount

/-- With the last result every callback that waits with the handle goes to the call. -/
theorem complete (hx : x.Inv size nextId (pairs.map Prod.fst ++ U) P) (hne : pairs ≠ [])
    (hdone : ¬ 0 < (x.store pairs).remaining) :
    (x.store pairs).notifyAll.Inv size nextId U (x.callbacks ++ P) := by
  have hstore := hx.store_shows
  have hpos := hx.remaining_pos hne
  have haccount := hx.account
  obtain ⟨hran, hskipped, hpending⟩ := hx.early hpos
  rw [if_pos hpos, hpending] at haccount
  refine ⟨⟨hstore.length, hstore.remaining, fun i v => Iff.rfl⟩, (List.nodup_append.mp hx.nodup).2.1,
    hx.store_missing, ?_, fun h => absurd h hdone, hx.ids, hx.below, fun _ => rfl,
    hx.raised, hx.behind⟩
  change x.registered.Perm (x.ran ++ x.skipped ++ (x.callbacks ++ P ++
    if 0 < (x.store pairs).remaining then x.callbacks else []))
  rw [if_neg hdone, hpending, List.append_nil, List.append_nil]
  exact haccount

/-- Whoever has a callback to run runs it. -/
theorem call (hx : x.Inv size nextId U (cb :: P)) : (x.call cb).Inv size nextId U P := by
  have hclosed : ¬ 0 < x.remaining := fun hopen => List.cons_ne_nil _ _ (hx.early hopen).2.2
  have haccount := hx.account
  rw [if_neg hclosed] at haccount
  refine ⟨hx.shows, hx.nodup, hx.missing, ?_, fun h => absurd h hclosed, hx.ids, hx.below,
    hx.waiters, fun bad hbad => List.mem_append_left _ (hx.raised hbad), hx.behind⟩
  change x.registered.Perm (x.ran ++ [cb] ++ x.skipped ++ (P ++
    if 0 < x.remaining then x.callbacks else []))
  rw [if_neg hclosed]
  refine haccount.trans ?_
  have hmove : (x.skipped ++ cb :: (P ++ [])).Perm (cb :: (x.skipped ++ (P ++ []))) :=
    List.perm_middle
  simpa only [List.append_assoc, List.cons_append, List.nil_append] using hmove.append_left x.ran

/-- What is left behind a callback that raised is left out. -/
theorem skip (hx : x.Inv size nextId U (rest ++ P)) (hclosed : ¬ 0 < x.remaining)
    (hran : cb ∈ x.ran) (hsuffix : (cb :: rest) <:+ x.callbacks) :
    (x.skip cb rest).Inv size nextId U P := by
  have haccount := hx.account
  rw [if_neg hclosed] at haccount
  refine ⟨hx.shows, hx.nodup, hx.missing, ?_, fun h => absurd h hclosed, hx.ids, hx.below,
    hx.waiters, ?_, ?_⟩
  · change x.registered.Perm (x.ran ++ (x.skipped ++ rest) ++ (P ++
      if 0 < x.remaining then x.callbacks else []))
    rw [if_neg hclosed]
    simpa only [List.append_assoc] using haccount
  · intro bad hbad
    rcases List.mem_append.mp hbad with hbad | hbad
    · exact hx.raised hbad
    · rwa [List.mem_singleton.mp hbad]
  · intro late hlate
    rcases List.mem_append.mp hlate with hlate | hlate
    · obtain ⟨bad, hbad, hsub⟩ := hx.behind late hlate
      exact ⟨bad, List.mem_append_left _ hbad, hsub⟩
    · refine ⟨cb, List.mem_append_right _ (List.mem_singleton_self cb), ?_⟩
      have hpair : [cb, late].Sublist (cb :: rest) := (List.singleton_sublist.mpr hlate).cons_cons cb
      exact hpair.trans hsuffix.sublist

theorem fresh_ids (hx : x.Inv size nextId U P) (hid : cb.id = nextId) :
    ((x.register cb).registered.map Callback.id).Nodup := by
  change ((x.registered ++ [cb]).map Callback.id).Nodup
  rw [List.map_append, List.map_singleton, ← List.concat_eq_append]
  refine hx.ids.concat fun hmem => ?_
  obtain ⟨old, hold, hsame⟩ := List.mem_map.mp hmem
  have hlt := hx.below old hold
  omega

theorem fresh_below (hx : x.Inv size nextId U P) (hid : cb.id = nextId) :
    ∀ c ∈ (x.register cb).registered, c.id < nextId + 1 := by
  intro c hc
  rcases List.mem_append.mp hc with hc | hc
  · exact (hx.below c hc).trans (Nat.lt_succ_self _)
  · rw [List.mem_singleton.mp hc, hid]
    exact Nat.lt_succ_self _

/-- An open handle keeps a callback for the call that stores its last result. -/
theorem keep (hx : x.Inv size nextId U P) (hopen : 0 < x.remaining) (hid : cb.id = nextId) :
    ((x.register cb).keep cb).Inv size (nextId + 1) U P := by
  have haccount := hx.account
  rw [if_pos hopen] at haccount
  refine ⟨hx.shows, hx.nodup, hx.missing, ?_, hx.early, hx.fresh_ids hid, hx.fresh_below hid,
    hx.waiters, hx.raised, fun late hlate => ?_⟩
  · change (x.registered ++ [cb]).Perm (x.ran ++ x.skipped ++ (P ++
      if 0 < x.remaining then x.callbacks ++ [cb] else []))
    rw [if_pos hopen]
    simpa only [List.append_assoc] using haccount.append_right [cb]
  · have hnone : ((x.register cb).keep cb).skipped = [] := (hx.early hopen).2.1
    rw [hnone] at hlate
    cases hlate

/-- A callback that comes too late for that is the caller's to run. -/
theorem late (hx : x.Inv size nextId U P) (hclosed : ¬ 0 < x.remaining) (hid : cb.id = nextId) :
    (x.register cb).Inv size (nextId + 1) U (cb :: P) := by
  have haccount := hx.account
  rw [if_neg hclosed, List.append_nil] at haccount
  refine ⟨hx.shows, hx.nodup, hx.missing, ?_, fun h => absurd h hclosed, hx.fresh_ids hid,
    hx.fresh_below hid, hx.waiters, hx.raised, hx.behind⟩
  change (x.registered ++ [cb]).Perm (x.ran ++ x.skipped ++ (cb :: P ++
    if 0 < x.remaining then x.callbacks else []))
  rw [if_neg hclosed, List.append_nil]
  refine (haccount.append_right [cb]).trans ?_
  rw [List.append_assoc]
  exact (List.perm_append_singleton cb P).append_left _

theorem block (hx : x.Inv size nextId U P) (hopen : 0 < x.remaining) :
    (x.block t).Inv size nextId U P :=
  ⟨hx.shows, hx.nodup, hx.missing, hx.account, hx.early, hx.ids, hx.below,
    fun h => absurd hopen h, hx.raised, hx.behind⟩

theorem unblock (hx : x.Inv size nextId U P) : (x.unblock t).Inv size nextId U P := by
  refine ⟨hx.shows, hx.nodup, hx.missing, hx.account, hx.early, hx.ids, hx.below,
    fun hclosed => ?_, hx.raised, hx.behind⟩
  change x.waiters.filter _ = []
  rw [hx.waiters hclosed]
  rfl

/-- A call that brings results nobody else brings. -/
theorem deliver (hx : x.Inv size nextId U P) (hnodup : (pairs.map Prod.fst).Nodup)
    (hfresh : ∀ i ∈ pairs.map Prod.fst, x.results[i]?.map Option.isNone = some true ∧ i ∉ U) :
    x.Inv size nextId (U ++ pairs.map Prod.fst) P := by
  refine { hx with nodup := ?_, missing := fun i hi => ?_ }
  · refine List.nodup_append.mpr ⟨hx.nodup, hnodup, fun a ha b hb hab => ?_⟩
    exact (hfresh b hb).2 (hab ▸ ha)
  · rcases List.mem_append.mp hi with hi | hi
    · exact hx.missing i hi
    · obtain ⟨r, hr, hnone⟩ := Option.map_eq_some_iff.mp (hfresh i hi).1
      rw [hr, Option.isNone_iff_eq_none.mp hnone]

end Inv

end HandleState

namespace Shared

variable {s : Shared} {h k t u : ℕ} {x : HandleState} {cb : Callback}

@[simp] theorem set_self : (s.set h x).handle h = x := by
  simp [Shared.set]

theorem set_ne (hk : k ≠ h) : (s.set h x).handle k = s.handle k := by
  simp [Shared.set, hk]

@[simp] theorem set_event : (s.set h x).event = s.event := rfl

@[simp] theorem set_nextId : (s.set h x).nextId = s.nextId := rfl

@[simp] theorem setEvent_handle {value : Bool} : (s.setEvent t value).handle = s.handle := rfl

@[simp] theorem setEvent_nextId {value : Bool} : (s.setEvent t value).nextId = s.nextId := rfl

theorem setEvent_self {value : Bool} : (s.setEvent t value).event t = value := by
  simp [setEvent]

theorem setEvent_ne {value : Bool} (hu : u ≠ t) : (s.setEvent t value).event u = s.event u := by
  simp [setEvent, hu]

theorem runCallback_handle : (s.runCallback h cb).handle = (s.set h ((s.handle h).call cb)).handle := by
  unfold runCallback
  split <;> rfl

theorem runCallback_nextId : (s.runCallback h cb).nextId = s.nextId := by
  unfold runCallback
  split <;> rfl

theorem runCallback_event_set (hcb : cb.event = some u) : (s.runCallback h cb).event u = true := by
  simp [runCallback, hcb, setEvent_self]

theorem runCallback_event_ne (hcb : cb.event ≠ some u) :
    (s.runCallback h cb).event u = s.event u := by
  unfold runCallback
  split
  next t ht =>
    have hu : u ≠ t := fun he => hcb (he ▸ ht)
    rw [setEvent_ne hu, set_event]
  next => rw [set_event]

theorem addDoneCallback_cases {β : Type} {event : Option ℕ} {kept : β} {now : Callback → β}
    {next : β × Shared} (hnext : s.addDoneCallback h event kept now = next) :
    (0 < (s.handle h).remaining ∧ next.1 = kept ∧ next.2 = ({ s with nextId := s.nextId + 1 } : Shared).set h
      (((s.handle h).register ⟨s.nextId, event⟩).keep ⟨s.nextId, event⟩)) ∨
    (¬ 0 < (s.handle h).remaining ∧ next.1 = now ⟨s.nextId, event⟩ ∧
      next.2 = ({ s with nextId := s.nextId + 1 } : Shared).set h
        ((s.handle h).register ⟨s.nextId, event⟩)) := by
  unfold addDoneCallback at hnext
  dsimp only at hnext
  split at hnext
  next hopen =>
    subst hnext
    exact .inl ⟨hopen, rfl, rfl⟩
  next hclosed =>
    subst hnext
    exact .inr ⟨hclosed, rfl, rfl⟩

/-- `wait_any` has a callback with the handle. -/
def Listens (t h : ℕ) (s : Shared) : Prop :=
  ∃ cb ∈ (s.handle h).registered, cb.event = some t

/-- No callback with the handle has set the event of the call. -/
def Silent (t h : ℕ) (s : Shared) : Prop :=
  ∀ cb ∈ (s.handle h).ran, cb.event ≠ some t

/-- What a turn of the call `t` does, as another call sees it. -/
structure Later (t : ℕ) (s s' : Shared) : Prop where
  closed : ∀ h, ¬ 0 < (s.handle h).remaining →
    (s'.handle h).toIOHandle = (s.handle h).toIOHandle ∧
      (s'.handle h).callbacks = (s.handle h).callbacks
  registered : ∀ h, (s.handle h).registered ⊆ (s'.handle h).registered
  ran : ∀ h, (s.handle h).ran ⊆ (s'.handle h).ran
  event : ∀ u, u ≠ t → s'.event u = false →
    s.event u = false ∧ ∀ h, s.Silent u h → s'.Silent u h

namespace Later

variable {s' : Shared}

theorem refl (s : Shared) : s.Later t s :=
  ⟨fun _ _ => ⟨rfl, rfl⟩, fun _ => List.Subset.refl _, fun _ => List.Subset.refl _,
    fun _ _ hu => ⟨hu, fun _ => id⟩⟩

theorem set (hclosed : ¬ 0 < (s.handle h).remaining →
      x.toIOHandle = (s.handle h).toIOHandle ∧ x.callbacks = (s.handle h).callbacks)
    (hregistered : (s.handle h).registered ⊆ x.registered) (hran : x.ran = (s.handle h).ran) :
    s.Later t (s.set h x) := by
  refine ⟨fun k hk => ?_, fun k => ?_, fun k => ?_, fun u _ hu => ⟨hu, fun k hk => ?_⟩⟩
  · by_cases hkh : k = h
    · subst hkh
      rw [set_self]
      exact hclosed hk
    · rw [set_ne hkh]
      exact ⟨rfl, rfl⟩
  · by_cases hkh : k = h
    · subst hkh
      rw [set_self]
      exact hregistered
    · rw [set_ne hkh]
      exact List.Subset.refl _
  · by_cases hkh : k = h
    · subst hkh
      rw [set_self, hran]
      exact List.Subset.refl _
    · rw [set_ne hkh]
      exact List.Subset.refl _
  · by_cases hkh : k = h
    · subst hkh
      unfold Silent
      rw [set_self, hran]
      exact hk
    · unfold Silent
      rw [set_ne hkh]
      exact hk

theorem runCallback : s.Later t (s.runCallback h cb) := by
  refine ⟨fun k _ => ?_, fun k => ?_, fun k => ?_, fun u _ hu => ?_⟩
  · rw [runCallback_handle]
    by_cases hkh : k = h
    · subst hkh
      rw [set_self]
      exact ⟨rfl, rfl⟩
    · rw [set_ne hkh]
      exact ⟨rfl, rfl⟩
  · rw [runCallback_handle]
    by_cases hkh : k = h
    · subst hkh
      rw [set_self]
      exact List.Subset.refl _
    · rw [set_ne hkh]
      exact List.Subset.refl _
  · rw [runCallback_handle]
    by_cases hkh : k = h
    · subst hkh
      rw [set_self]
      exact List.subset_append_left _ _
    · rw [set_ne hkh]
      exact List.Subset.refl _
  · have hcb : cb.event ≠ some u := by
      intro hset
      rw [runCallback_event_set hset] at hu
      cases hu
    rw [runCallback_event_ne hcb] at hu
    refine ⟨hu, fun k hk => ?_⟩
    unfold Silent
    rw [runCallback_handle]
    by_cases hkh : k = h
    · subst hkh
      rw [set_self]
      intro c hc
      rcases List.mem_append.mp hc with hc | hc
      · exact hk c hc
      · rwa [List.mem_singleton.mp hc]
    · rw [set_ne hkh]
      exact hk

theorem addDoneCallback {β : Type} {event : Option ℕ} {kept : β} {now : Callback → β}
    {next : β × Shared} (hnext : s.addDoneCallback h event kept now = next) : s.Later t next.2 := by
  rcases addDoneCallback_cases hnext with ⟨hopen, _, hs⟩ | ⟨_, _, hs⟩
  · rw [hs]
    have hset : s.Later t (s.set h
        (((s.handle h).register ⟨s.nextId, event⟩).keep ⟨s.nextId, event⟩)) :=
      set (fun hclosed => absurd hopen hclosed) (fun c hc => List.mem_append_left _ hc) rfl
    exact ⟨hset.closed, hset.registered, hset.ran, hset.event⟩
  · rw [hs]
    have hset : s.Later t (s.set h ((s.handle h).register ⟨s.nextId, event⟩)) :=
      set (fun _ => ⟨rfl, rfl⟩) (fun c hc => List.mem_append_left _ hc) rfl
    exact ⟨hset.closed, hset.registered, hset.ran, hset.event⟩

theorem setEvent {value : Bool} : s.Later t (s.setEvent t value) :=
  ⟨fun _ _ => ⟨rfl, rfl⟩, fun _ => List.Subset.refl _, fun _ => List.Subset.refl _,
    fun _ hne hu => ⟨by rwa [setEvent_ne hne] at hu, fun _ => id⟩⟩

theorem listens (hl : s.Later t s') (hs : s.Listens u h) : s'.Listens u h := by
  obtain ⟨cb, hcb, hevent⟩ := hs
  exact ⟨cb, hl.registered h hcb, hevent⟩

theorem not_pos (hl : s.Later t s') (hclosed : ¬ 0 < (s.handle h).remaining) :
    ¬ 0 < (s'.handle h).remaining := by
  rw [(hl.closed h hclosed).1]
  exact hclosed

end Later

end Shared

/-- What holds of a call of `wait_any` with its handles: while its event is not set, no callback has
set it for a handle that was found open. -/
def AnyStage.Sound (t : ℕ) (handles : List ℕ) (s : Shared) : AnyStage → Prop
  | register i => ∀ h ∈ handles.take i, s.Listens t h
  | calling i h cb => handles[i]? = some h ∧ cb.event = some t ∧
      ∀ h ∈ handles.take (i + 1), s.Listens t h
  | check i => (∀ h ∈ handles, s.Listens t h) ∧
      (s.event t = false → ∀ h ∈ handles.take i, s.Silent t h)
  | waiting => (∀ h ∈ handles, s.Listens t h) ∧
      (s.event t = false → ∀ h ∈ handles, s.Silent t h)
  | clear => ∀ h ∈ handles, s.Listens t h
  | returned h => h ∈ handles ∧ ¬ 0 < (s.handle h).remaining
  | timedOut => True

namespace CallPhase

/-- Callbacks of the handle that the call is to run. -/
def pending (h : ℕ) : CallPhase → List Callback
  | notify h' callbacks => if h' = h then callbacks else []
  | inCallback h' _ callbacks => if h' = h then callbacks else []
  | calling h' cb => if h' = h then [cb] else []
  | waitAny _ _ (.calling _ h' cb) => if h' = h then [cb] else []
  | _ => []

/-- What holds of the call `t` wherever it is. -/
def Sound (t : ℕ) (s : Shared) : CallPhase → Prop
  | setMany _ pairs => pairs ≠ []
  | notify h callbacks => ¬ 0 < (s.handle h).remaining ∧ callbacks <:+ (s.handle h).callbacks
  | inCallback h cb callbacks => ¬ 0 < (s.handle h).remaining ∧
      (cb :: callbacks) <:+ (s.handle h).callbacks ∧ cb ∈ (s.handle h).ran
  | waited h true => ¬ 0 < (s.handle h).remaining
  | waitAny handles timed stage =>
      (stage = .timedOut → timed = true) ∧ stage.Sound t handles s
  | _ => True

end CallPhase

section Turn

variable {t u h k size : ℕ} {s s' : Shared} {phase phase' : CallPhase} {stage : AnyStage}
  {handles : List ℕ} {cb : Callback} {U : List ℕ} {P : List Callback}

theorem AnyStage.Sound.later (hs : stage.Sound u handles s) (hu : u ≠ t) (hl : s.Later t s') :
    stage.Sound u handles s' := by
  cases stage with
  | register i => exact fun h hh => hl.listens (hs h hh)
  | calling i h cb => exact ⟨hs.1, hs.2.1, fun h hh => hl.listens (hs.2.2 h hh)⟩
  | check i =>
    refine ⟨fun h hh => hl.listens (hs.1 h hh), fun hevent h hh => ?_⟩
    obtain ⟨hold, hsilent⟩ := hl.event u hu hevent
    exact hsilent h (hs.2 hold h hh)
  | waiting =>
    refine ⟨fun h hh => hl.listens (hs.1 h hh), fun hevent h hh => ?_⟩
    obtain ⟨hold, hsilent⟩ := hl.event u hu hevent
    exact hsilent h (hs.2 hold h hh)
  | clear => exact fun h hh => hl.listens (hs h hh)
  | returned h => exact ⟨hs.1, hl.not_pos hs.2⟩
  | timedOut => exact hs

/-- A turn of another call does not disturb it. -/
theorem CallPhase.Sound.later (hs : phase.Sound u s) (hu : u ≠ t) (hl : s.Later t s') :
    phase.Sound u s' := by
  cases phase with
  | setMany h pairs => exact hs
  | notify h callbacks =>
    refine ⟨hl.not_pos hs.1, ?_⟩
    rw [(hl.closed h hs.1).2]
    exact hs.2
  | inCallback h cb callbacks =>
    refine ⟨hl.not_pos hs.1, ?_, hl.ran h hs.2.2⟩
    rw [(hl.closed h hs.1).2]
    exact hs.2.1
  | addDone h => trivial
  | calling h cb => trivial
  | wait h timed => trivial
  | waiting h timed => trivial
  | waited h result =>
    cases result with
    | false => trivial
    | true => exact hl.not_pos hs
  | waitAny handles timed stage => exact ⟨hs.1, hs.2.later hu hl⟩
  | finished => trivial

theorem runCallback_inv {nextId : ℕ}
    (hk : (s.handle k).Inv size nextId U ((if h = k then [cb] else []) ++ P)) :
    ((s.runCallback h cb).handle k).Inv size nextId U P := by
  rw [Shared.runCallback_handle]
  by_cases hkh : k = h
  · subst hkh
    rw [if_pos rfl] at hk
    rw [Shared.set_self]
    exact hk.call
  · rw [if_neg (Ne.symm hkh)] at hk
    rw [Shared.set_ne hkh]
    exact hk

/-- Where a new callback goes: to the handle, or to the caller. -/
theorem addDoneCallback_inv {β : Type} {event : Option ℕ} {kept : β} {now : Callback → β}
    {next : β × Shared} (hnext : s.addDoneCallback h event kept now = next)
    (pending : β → List Callback) (hkept : pending kept = [])
    (hnow : ∀ cb, pending (now cb) = if h = k then [cb] else [])
    (hk : (s.handle k).Inv size s.nextId U P) :
    (next.2.handle k).Inv size next.2.nextId U (pending next.1 ++ P) := by
  rcases Shared.addDoneCallback_cases hnext with ⟨hopen, hfst, hs⟩ | ⟨hclosed, hfst, hs⟩
  · rw [hs, hfst, hkept, Shared.set_nextId, List.nil_append]
    by_cases hkh : k = h
    · subst hkh
      rw [Shared.set_self]
      exact hk.keep hopen rfl
    · rw [Shared.set_ne hkh]
      exact hk.mono (Nat.le_succ _)
  · rw [hs, hfst, hnow, Shared.set_nextId]
    by_cases hkh : k = h
    · subst hkh
      rw [Shared.set_self, if_pos rfl]
      exact hk.late hclosed rfl
    · rw [Shared.set_ne hkh, if_neg (Ne.symm hkh)]
      exact hk.mono (Nat.le_succ _)

/-- The stage's part of `pending`. -/
theorem any_inv {next : AnyStage × Shared} {timed : Bool}
    (hnext : stage.move t handles s = some next)
    (hk : (s.handle k).Inv size s.nextId U ((CallPhase.waitAny handles timed stage).pending k ++ P)) :
    (next.2.handle k).Inv size next.2.nextId U
      ((CallPhase.waitAny handles timed next.1).pending k ++ P) := by
  cases AnyStage.move_turn hnext with
  | add hi hnext =>
    exact addDoneCallback_inv hnext
      (fun stage => (CallPhase.waitAny handles timed stage).pending k) rfl (fun _ => rfl) hk
  | added hi => exact hk
  | run =>
    rw [Shared.runCallback_nextId]
    exact runCallback_inv hk
  | found hi hdone => exact hk
  | pass hi hopen => exact hk
  | block hi => exact hk
  | wake hset => exact hk
  | clear => exact hk

/-- A turn takes of what the call was to do what it does, and adds what it is to do then. -/
theorem Turn.inv (ht : Turn t s phase phase' s') (hsound : phase.Sound t s)
    (hk : (s.handle k).Inv size s.nextId (phase.undelivered k ++ U) (phase.pending k ++ P)) :
    (s'.handle k).Inv size s'.nextId (phase'.undelivered k ++ U) (phase'.pending k ++ P) := by
  cases ht with
  | @store h pairs hopen =>
    by_cases hkh : k = h
    · subst hkh
      simp only [CallPhase.undelivered, CallPhase.pending, if_true] at hk ⊢
      rw [Shared.set_self]
      exact hk.store hopen
    · simp only [CallPhase.undelivered, if_neg (Ne.symm hkh)] at hk
      rw [Shared.set_ne hkh]
      exact hk
  | @complete h pairs hdone =>
    by_cases hkh : k = h
    · subst hkh
      simp only [CallPhase.undelivered, CallPhase.pending, if_true] at hk ⊢
      rw [Shared.set_self]
      exact hk.complete hsound hdone
    · simp only [CallPhase.undelivered, if_neg (Ne.symm hkh)] at hk
      simp only [CallPhase.pending, if_neg (Ne.symm hkh)]
      rw [Shared.set_ne hkh]
      exact hk
  | @notified h =>
    simp only [CallPhase.pending, ite_self] at hk
    exact hk
  | @start h cb rest =>
    rw [Shared.runCallback_nextId]
    refine runCallback_inv (hk.perm (List.Perm.refl _) ?_)
    by_cases hkh : h = k
    · simp only [CallPhase.pending, if_pos hkh]
      rfl
    · simp only [CallPhase.pending, if_neg hkh]
      rfl
  | back => exact hk
  | @abort h cb rest =>
    by_cases hkh : k = h
    · subst hkh
      simp only [CallPhase.pending, if_true] at hk
      rw [Shared.set_self]
      exact hk.skip hsound.1 hsound.2.2 hsound.2.1
    · simp only [CallPhase.pending, if_neg (Ne.symm hkh)] at hk
      rw [Shared.set_ne hkh]
      exact hk
  | @add h next hnext =>
    have hnone : next.1.undelivered k = [] := by
      rcases Shared.addDoneCallback_cases hnext with ⟨_, hfst, _⟩ | ⟨_, hfst, _⟩
      · rw [hfst]
        rfl
      · rw [hfst]
        rfl
    rw [hnone]
    exact addDoneCallback_inv hnext (CallPhase.pending k) rfl (fun _ => rfl) hk
  | @run h cb =>
    rw [Shared.runCallback_nextId]
    exact runCallback_inv hk
  | @block h timed hopen =>
    by_cases hkh : k = h
    · subst hkh
      rw [Shared.set_self]
      exact hk.block hopen
    · rw [Shared.set_ne hkh]
      exact hk
  | pass hdone => exact hk
  | wake hfree => exact hk
  | @unblock h =>
    by_cases hkh : k = h
    · subst hkh
      rw [Shared.set_self]
      exact hk.unblock
    · rw [Shared.set_ne hkh]
      exact hk
  | giveUp hopen => exact hk
  | any hnext => exact any_inv hnext hk
  | anyGiveUp hi => exact hk
  | anyExpire => exact hk

theorem AnyStage.move_later {next : AnyStage × Shared}
    (hnext : stage.move t handles s = some next) : s.Later t next.2 := by
  cases AnyStage.move_turn hnext with
  | add hi hnext => exact .addDoneCallback hnext
  | added hi => exact .refl s
  | run => exact .runCallback
  | found hi hdone => exact .refl s
  | pass hi hopen => exact .refl s
  | block hi => exact .refl s
  | wake hset => exact .refl s
  | clear => exact .setEvent

/-- No turn touches the results or the callbacks of a handle that has all its results. -/
theorem Turn.later (ht : Turn t s phase phase' s') (hsound : phase.Sound t s)
    (hinv : ∀ k, ∃ size U P, (s.handle k).Inv size s.nextId (phase.undelivered k ++ U) P) :
    s.Later t s' := by
  have hpos : ∀ h pairs, phase = .setMany h pairs → 0 < (s.handle h).remaining := by
    rintro h pairs rfl
    obtain ⟨size, U, P, hk⟩ := hinv h
    simp only [CallPhase.undelivered, if_true] at hk
    exact hk.remaining_pos hsound
  cases ht with
  | @store h pairs hopen =>
    exact .set (fun hclosed => absurd (hpos h pairs rfl) hclosed) (List.Subset.refl _) rfl
  | @complete h pairs hdone =>
    exact .set (fun hclosed => absurd (hpos h pairs rfl) hclosed) (List.Subset.refl _) rfl
  | notified => exact .refl s
  | start => exact .runCallback
  | back => exact .refl s
  | abort => exact .set (fun _ => ⟨rfl, rfl⟩) (List.Subset.refl _) rfl
  | add hnext => exact .addDoneCallback hnext
  | run => exact .runCallback
  | block hopen => exact .set (fun _ => ⟨rfl, rfl⟩) (List.Subset.refl _) rfl
  | pass hdone => exact .refl s
  | wake hfree => exact .refl s
  | unblock => exact .set (fun _ => ⟨rfl, rfl⟩) (List.Subset.refl _) rfl
  | giveUp hopen => exact .refl s
  | any hnext => exact AnyStage.move_later hnext
  | anyGiveUp hi => exact .refl s
  | anyExpire => exact .refl s

end Turn

end Umm
