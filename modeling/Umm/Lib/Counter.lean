import Umm.Lib.Dict
import Mathlib.Algebra.BigOperators.Group.Finset.Basic

/-! Counters: dictionaries of numbers, where a key without an entry counts 0. -/
namespace Umm.Lib

abbrev Counter (κ : Type*) := Dict κ ℤ

namespace Counter

variable {κ : Type*} [DecidableEq κ]

def get (c : Counter κ) (k : κ) : ℤ := (c.lookup k).getD 0

def add (c : Counter κ) (k : κ) (n : ℤ) : Counter κ := c.insert k (c.get k + n)

/-- Each element of the list counts `n` more. -/
def addEach (n : ℤ) (c : Counter κ) (l : List κ) : Counter κ := l.foldl (fun c k => c.add k n) c

/-- The counts of another counter are added. -/
def update (c d : Counter κ) : Counter κ := d.entries.foldl (fun c e => c.add e.1 e.2) c

@[simp] theorem get_empty (k : κ) : get (∅ : Counter κ) k = 0 := rfl

theorem get_add (c : Counter κ) (k k' : κ) (n : ℤ) :
    (c.add k n).get k' = c.get k' + if k' = k then n else 0 := by
  unfold add get
  rw [lookup_insert_eq]
  split_ifs with h
  · rw [h]
    rfl
  · rw [add_zero]

theorem get_addEach [BEq κ] [LawfulBEq κ] (n : ℤ) (c : Counter κ) (l : List κ) (k : κ) :
    (c.addEach n l).get k = c.get k + n * l.count k := by
  induction l generalizing c with
  | nil => simp [addEach]
  | cons a l ih =>
    have hstep : c.addEach n (a :: l) = (c.add a n).addEach n l := rfl
    rw [hstep, ih, get_add, List.count_cons]
    split_ifs with h1 h2 h2
    · push_cast
      ring
    · simp [h1] at h2
    · simp [eq_of_beq h2] at h1
    · push_cast
      ring

/-- A sum over the entries is one over any set that has all keys. -/
theorem sum_entries {f : κ → ℤ → ℤ} (hzero : ∀ k, f k 0 = 0) (c : Counter κ) {s : Finset κ}
    (hs : ∀ k ∈ c.keys, k ∈ s) :
    (c.entries.map fun e => f e.1 e.2).sum = ∑ k ∈ s, f k (c.get k) := by
  have hentries : c.entries.map (fun e => f e.1 e.2) = c.keys.map fun k => f k (c.get k) := by
    rw [AList.keys, List.keys, List.map_map]
    refine List.map_congr_left fun e he => ?_
    have hlookup : c.lookup e.1 = some e.2 := AList.mem_lookup_iff.mpr he
    simp [get, hlookup]
  rw [hentries, ← List.sum_toFinset _ (AList.keys_nodup c)]
  refine Finset.sum_subset (fun k hk => hs k (List.mem_toFinset.mp hk)) fun k _ hk => ?_
  have hnone : c.lookup k = none :=
    AList.lookup_eq_none.mpr fun hin => hk (List.mem_toFinset.mpr (AList.mem_keys.mp hin))
  rw [get, hnone]
  exact hzero k

theorem get_foldl_add (l : List (Σ _ : κ, ℤ)) (c : Counter κ) (k : κ) :
    (l.foldl (fun c e => c.add e.1 e.2) c).get k =
      c.get k + (l.map fun e => if k = e.1 then e.2 else 0).sum := by
  induction l generalizing c with
  | nil => simp
  | cons e l ih => rw [List.foldl_cons, ih, get_add, List.map_cons, List.sum_cons, add_assoc]

theorem get_update (c d : Counter κ) (k : κ) : (c.update d).get k = c.get k + d.get k := by
  have hsum := sum_entries (f := fun k' n => if k = k' then n else 0)
    (fun k' => by split_ifs <;> rfl) d (s := insert k d.keys.toFinset)
    (fun k' hk' => Finset.mem_insert_of_mem (List.mem_toFinset.mpr hk'))
  rw [update, get_foldl_add, hsum, Finset.sum_ite_eq, if_pos (Finset.mem_insert_self k _)]

/-- The sum of the squares of the counts. -/
def squares (c : Counter κ) : ℤ := (c.entries.map fun e => e.2 * e.2).sum

theorem squares_eq (c : Counter κ) {s : Finset κ} (hs : ∀ k ∈ c.keys, k ∈ s) :
    c.squares = ∑ k ∈ s, c.get k * c.get k :=
  sum_entries (f := fun _ n => n * n) (fun _ => rfl) c hs

/-- Counters that count alike have the same sum of squares. -/
theorem squares_congr {c d : Counter κ} (h : ∀ k, c.get k = d.get k) : c.squares = d.squares := by
  have hc : ∀ k ∈ c.keys, k ∈ c.keys.toFinset ∪ d.keys.toFinset := fun k hk =>
    Finset.mem_union_left _ (List.mem_toFinset.mpr hk)
  have hd : ∀ k ∈ d.keys, k ∈ c.keys.toFinset ∪ d.keys.toFinset := fun k hk =>
    Finset.mem_union_right _ (List.mem_toFinset.mpr hk)
  rw [squares_eq c hc, squares_eq d hd]
  exact Finset.sum_congr rfl fun k _ => by rw [h k]

/-- What the sum of the squares changes by when a counter is added. -/
theorem squares_update (c d : Counter κ) :
    (c.update d).squares =
      c.squares + (d.entries.map fun e => 2 * c.get e.1 * e.2 + e.2 * e.2).sum := by
  let s := c.keys.toFinset ∪ d.keys.toFinset ∪ (c.update d).keys.toFinset
  have hc : ∀ k ∈ c.keys, k ∈ s := fun k hk => by simp [s, hk]
  have hd : ∀ k ∈ d.keys, k ∈ s := fun k hk => by simp [s, hk]
  have hu : ∀ k ∈ (c.update d).keys, k ∈ s := fun k hk => by simp [s, hk]
  have hdelta := sum_entries (f := fun k n => 2 * c.get k * n + n * n) (fun k => by ring) d hd
  rw [squares_eq _ hu, squares_eq _ hc, hdelta, ← Finset.sum_add_distrib]
  refine Finset.sum_congr rfl fun k _ => ?_
  rw [get_update]
  ring

end Counter

end Umm.Lib
