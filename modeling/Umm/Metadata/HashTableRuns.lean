import Umm.Metadata.HashTableCalls
import Umm.Lib.Reach

/-! Whole runs of the name table against a finite map. They agree as long as no insertion
takes over a tombstone that lies on the probe path of an entry that it would hide. -/
namespace Umm
open Umm.Lib

section Spec

variable {V : Type} (m : CString → Option V)

def specLookup (key : CString) : Except Error V :=
  match m key with
  | none => .error .notFound
  | some v => .ok v

def specInsert (key : CString) (value : V) : Except Error Unit × (CString → Option V) :=
  match m key with
  | none => (.ok (), Function.update m key (some value))
  | some _ => (.error .alreadyExists, m)

def specRemove (key : CString) : Except Error Unit × (CString → Option V) :=
  match m key with
  | none => (.error .notFound, m)
  | some _ => (.ok (), Function.update m key none)

end Spec

structure MhtState (V : Type) where
  table : MetaHashTable V
  /-- The map that the calls so far should have produced. -/
  map : CString → Option V

inductive MhtOp (V : Type) where
  | insert (key : CString) (value : V)
  | remove (key : CString)
  | lookup (key : CString)

section Runs

variable {V : Type}

inductive MhtInit : MhtState V → Prop
  | create {initialCapacity : ℕ} {table : MetaHashTable V} :
      mhtCreate V initialCapacity = some table → table.capacity < 2 ^ 29 →
      MhtInit ⟨table, fun _ => none⟩

/-- One call on the table, beside the same call on the map. -/
inductive MhtStep : MhtState V → MhtOp V → MhtState V → Prop
  | insert {s : MhtState V} {key : CString} {value : V} {r : Except Error Unit}
      {table' : MetaHashTable V} : s.table.capacity < 2 ^ 29 →
      mhtInsert s.table key value = some (r, table') →
      MhtStep s (.insert key value) ⟨table', (specInsert s.map key value).2⟩
  | remove {s : MhtState V} {key : CString} :
      MhtStep s (.remove key) ⟨(mhtRemove s.table key).2, (specRemove s.map key).2⟩
  | lookup {s : MhtState V} {key : CString} : MhtStep s (.lookup key) s

namespace MhtState

/-- Every call answers as on the map; insertions are looked at where `ok` holds. -/
structure Agrees (ok : CString → Prop) (s : MhtState V) : Prop where
  lookup : ∀ key, mhtLookup s.table key = specLookup s.map key
  remove : ∀ key, (mhtRemove s.table key).1 = (specRemove s.map key).1
  insert : ∀ key value, s.table.capacity < 2 ^ 29 → ok key →
    ∃ table', mhtInsert s.table key value = some ((specInsert s.map key value).1, table')

/-- The insertion of the key into the grown table is safe. -/
def SafeKey (s : MhtState V) (key : CString) : Prop :=
  ∀ ht, mhtMaybeGrow s.table = some ht → InsertSafe ht key

def Safe (s : MhtState V) : MhtOp V → Prop
  | .insert key _ => s.SafeKey key
  | _ => True

end MhtState

theorem mhtInit_refines {s : MhtState V} (h : MhtInit s) : s.table.Refines s.map := by
  obtain ⟨hc, hlt⟩ := h
  unfold mhtCreate at hc
  obtain ⟨cap, hcap, rfl⟩ := Option.map_eq_some_iff.mp hc
  obtain ⟨k, hk4, -, rfl⟩ := doubleUntil_pow 33 4 cap (by norm_num) hcap
  have hk29 : k ≤ 29 := ((Nat.pow_lt_pow_iff_right (by norm_num)).mp hlt).le
  have hr := rehashed_nil (V := V) k
  refine ⟨⟨k, hk4, hk29, rfl⟩, hr.length, hr.ordered, hr.distinct, ?_, hr.count_eq,
    (slotCount_eq_zero hr.live).symm, Nat.two_pow_pos k, ?_⟩
  · intro j _ x hx
    dsimp only at hx
    rw [slotAt_replicate] at hx
    cases hx
  · intro key v
    simp [slotAt_replicate]

theorem mhtStep_refines {s t : MhtState V} {op : MhtOp V} (h : s.table.Refines s.map)
    (hs : Guarded MhtState.Safe MhtStep s op t) : t.table.Refines t.map := by
  obtain ⟨hg, hs⟩ := hs
  cases hs with
  | @insert key value r table' hcap hi =>
    obtain ⟨hsome, hnone⟩ := mhtInsert_refines h hcap key value hg
    cases hm : s.map key with
    | none =>
      obtain ⟨ht', he, hr⟩ := hnone hm
      rw [he] at hi
      obtain ⟨-, rfl⟩ := by simpa using hi
      simpa [specInsert, hm] using hr
    | some v =>
      obtain ⟨ht', he, hr⟩ := hsome v hm
      rw [he] at hi
      obtain ⟨-, rfl⟩ := by simpa using hi
      simpa [specInsert, hm] using hr
  | @remove key =>
    cases hm : s.map key with
    | none =>
      rw [mhtRemove_none h hm]
      simpa [specRemove, hm] using h
    | some v => simpa [specRemove, hm] using (mhtRemove_some h hm).2
  | lookup => exact h

theorem MetaHashTable.Refines.agrees {s : MhtState V} (h : s.table.Refines s.map) :
    s.Agrees s.SafeKey := by
  refine ⟨fun key => ?_, fun key => ?_, fun key value hcap hsafe => ?_⟩
  · cases hm : s.map key with
    | none => simpa [specLookup, hm] using mhtLookup_none h hm
    | some v => simpa [specLookup, hm] using mhtLookup_some h hm
  · cases hm : s.map key with
    | none => simpa [specRemove, hm] using congrArg Prod.fst (mhtRemove_none h hm)
    | some v => simpa [specRemove, hm] using (mhtRemove_some h hm).1
  · obtain ⟨hsome, hnone⟩ := mhtInsert_refines h hcap key value hsafe
    cases hm : s.map key with
    | none =>
      obtain ⟨ht', he, -⟩ := hnone hm
      exact ⟨ht', by simpa [specInsert, hm] using he⟩
    | some v =>
      obtain ⟨ht', he, -⟩ := hsome v hm
      exact ⟨ht', by simpa [specInsert, hm] using he⟩

/-- In every run whose insertions are safe the table answers every call as a finite map. -/
theorem mhtRun_agrees {s : MhtState V}
    (h : Reach MhtInit (Guarded MhtState.Safe MhtStep) s) : s.Agrees s.SafeKey := by
  have hr : s.table.Refines s.map :=
    h.invariant (P := fun s => s.table.Refines s.map) (fun _ h0 => mhtInit_refines h0)
      (fun _ _ _ hi hs => mhtStep_refines hi hs)
  exact hr.agrees

/-- Two keys of one home; the first is removed, and the second is inserted again into the
tombstone before it. -/
theorem mhtRun_not_agrees :
    ¬ ∀ s : MhtState ℕ, Reach MhtInit MhtStep s → s.Agrees (fun _ => True) := by
  intro hall
  let a : CString := CString.ofBytes [97]
  let q : CString := CString.ofBytes [113]
  let t0 : MetaHashTable ℕ := ⟨List.replicate 16 .empty, 16, 0, 0⟩
  let t1 := ((mhtInsert t0 a 1).map Prod.snd).getD t0
  let t2 := ((mhtInsert t1 q 2).map Prod.snd).getD t1
  have h0 : MhtInit ⟨t0, fun _ => none⟩ := .create (by decide +kernel : mhtCreate ℕ 16 = some t0)
    (by decide +kernel)
  have h1 : MhtStep ⟨t0, fun _ => none⟩ (.insert a 1) ⟨t1, (specInsert (fun _ => none) a 1).2⟩ :=
    .insert (by decide +kernel) (by decide +kernel : mhtInsert t0 a 1 = some (.ok (), t1))
  have h2 : MhtStep ⟨t1, (specInsert (fun _ => none) a 1).2⟩ (.insert q 2)
      ⟨t2, (specInsert (specInsert (fun _ => none) a 1).2 q 2).2⟩ :=
    .insert (by decide +kernel) (by decide +kernel : mhtInsert t1 q 2 = some (.ok (), t2))
  have h3 := hall _ (.next (.remove a) (.next _ (.next _ (.start h0) h1) h2) .remove)
  obtain ⟨table', he⟩ := h3.insert q 9 (by decide +kernel) trivial
  have hok : (mhtInsert (mhtRemove t2 a).2 q 9).map Prod.fst = some (.ok ()) := by decide +kernel
  have hspec : (specInsert (specRemove (specInsert (specInsert (fun _ => none) a 1).2 q 2).2 a).2
      q 9).1 = .error .alreadyExists := by decide +kernel
  rw [he, Option.map_some, hspec] at hok
  cases hok

/-- With all entries at home no path leads over a slot. -/
theorem safeKey_of_homes {s : MhtState V} (hgrow : mhtMaybeGrow s.table = some s.table)
    (h : ((List.range s.table.capacity).all fun j =>
      match slotAt s.table.entries j with
      | .full x => itemHome s.table.capacity x = j
      | _ => true) = true) (key : CString) : s.SafeKey key := by
  intro ht hg i _ j hj x hx hc
  obtain rfl : s.table = ht := Option.some.inj (hgrow.symm.trans hg)
  have hhome := List.all_eq_true.mp h j (List.mem_range.mpr hj)
  rw [hx] at hhome
  unfold Crosses at hc
  rw [of_decide_eq_true hhome, cdist_self] at hc
  exact absurd hc (Nat.not_lt_zero _)

/-- The second key goes behind the first, whose home it has too, is removed, and comes back into
its own tombstone. -/
theorem mhtRun_agrees_collision :
    ∃ s : MhtState ℕ, s.map (CString.ofBytes [97]) = some 1 ∧
      s.map (CString.ofBytes [113]) = some 3 ∧ s.Agrees s.SafeKey := by
  let a : CString := CString.ofBytes [97]
  let q : CString := CString.ofBytes [113]
  let t0 : MetaHashTable ℕ := ⟨List.replicate 16 .empty, 16, 0, 0⟩
  let t1 := ((mhtInsert t0 a 1).map Prod.snd).getD t0
  let t2 := ((mhtInsert t1 q 2).map Prod.snd).getD t1
  let t3 := (mhtRemove t2 q).2
  let t4 := ((mhtInsert t3 q 3).map Prod.snd).getD t3
  let m0 : CString → Option ℕ := fun _ => none
  let m1 := (specInsert m0 a 1).2
  let m2 := (specInsert m1 q 2).2
  let m3 := (specRemove m2 q).2
  have h0 : MhtInit ⟨t0, m0⟩ := .create (by decide +kernel : mhtCreate ℕ 16 = some t0)
    (by decide +kernel)
  have h1 : MhtStep ⟨t0, m0⟩ (.insert a 1) ⟨t1, m1⟩ :=
    .insert (by decide +kernel) (by decide +kernel : mhtInsert t0 a 1 = some (.ok (), t1))
  have h2 : MhtStep ⟨t1, m1⟩ (.insert q 2) ⟨t2, m2⟩ :=
    .insert (by decide +kernel) (by decide +kernel : mhtInsert t1 q 2 = some (.ok (), t2))
  have h4 : MhtStep ⟨t3, m3⟩ (.insert q 3) ⟨t4, (specInsert m3 q 3).2⟩ :=
    .insert (by decide +kernel) (by decide +kernel : mhtInsert t3 q 3 = some (.ok (), t4))
  have hsafe0 : MhtState.SafeKey ⟨t0, m0⟩ a :=
    safeKey_of_homes (by decide +kernel) (by decide +kernel) a
  have hsafe1 : MhtState.SafeKey ⟨t1, m1⟩ q :=
    safeKey_of_homes (by decide +kernel) (by decide +kernel) q
  have hsafe3 : MhtState.SafeKey ⟨t3, m3⟩ q :=
    safeKey_of_homes (by decide +kernel) (by decide +kernel) q
  refine ⟨_, by decide +kernel, by decide +kernel, mhtRun_agrees (.next (.insert q 3)
    (.next (.remove q) (.next (.insert q 2) (.next (.insert a 1) (.start h0) ⟨hsafe0, h1⟩)
      ⟨hsafe1, h2⟩) ⟨trivial, .remove⟩) ⟨hsafe3, h4⟩)⟩

end Runs

end Umm
