import Mathlib.Tactic
import Mathlib.Data.List.SplitBy
import Mathlib.Data.List.TakeWhile

/-! Lists split into groups by a key, the groups in the order of their first element, or into
the runs of adjacent elements that have one key. -/
namespace Umm.Lib

variable {κ β : Type*} [DecidableEq κ]

def addTo (k : κ) (x : β) : List (κ × List β) → List (κ × List β)
  | [] => [(k, [x])]
  | (k', group) :: rest =>
    if k' = k then (k', group ++ [x]) :: rest else (k', group) :: addTo k x rest

/-- What is in the groups, one group after the other. -/
def grouped (groups : List (κ × List β)) : List β :=
  groups.flatMap (·.2)

omit [DecidableEq κ] in
@[simp] theorem grouped_nil : grouped ([] : List (κ × List β)) = [] := rfl

omit [DecidableEq κ] in
@[simp] theorem grouped_cons (g : κ × List β) (groups : List (κ × List β)) :
    grouped (g :: groups) = g.2 ++ grouped groups := rfl

theorem grouped_addTo_perm (k : κ) (x : β) (groups : List (κ × List β)) :
    (grouped (addTo k x groups)).Perm (x :: grouped groups) := by
  induction groups with
  | nil => exact .rfl
  | cons g rest ih =>
    obtain ⟨k', group⟩ := g
    unfold addTo
    split_ifs with hk
    · rw [grouped_cons, grouped_cons, List.append_assoc]
      exact List.perm_middle
    · rw [grouped_cons, grouped_cons]
      exact (ih.append_left _).trans List.perm_middle

/-- Every element lies in the group of its key. -/
def Keyed (key : β → κ) (groups : List (κ × List β)) : Prop :=
  ∀ g ∈ groups, ∀ x ∈ g.2, key x = g.1

theorem Keyed.addTo {key : β → κ} {groups : List (κ × List β)} (h : Keyed key groups) (x : β) :
    Keyed key (addTo (key x) x groups) := by
  induction groups with
  | nil =>
    intro g hg y hy
    rw [List.mem_singleton.mp hg] at hy ⊢
    rw [List.mem_singleton.mp hy]
  | cons g rest ih =>
    obtain ⟨k', group⟩ := g
    have hrest := ih fun g hg => h g (List.mem_cons_of_mem _ hg)
    unfold Lib.addTo
    split_ifs with hk
    · intro g hg y hy
      rcases List.mem_cons.mp hg with rfl | hg
      · rcases List.mem_append.mp hy with hy | hy
        · exact h _ List.mem_cons_self y hy
        · rw [List.mem_singleton.mp hy]
          exact hk.symm
      · exact h g (List.mem_cons_of_mem _ hg) y hy
    · intro g hg
      rcases List.mem_cons.mp hg with rfl | hg
      · exact h _ List.mem_cons_self
      · exact hrest g hg

/-- Elements that all have one key keep the order they came in. -/
theorem filter_grouped_addTo {key : β → κ} {groups : List (κ × List β)} (h : Keyed key groups)
    (p : β → Bool) (x : β) (hp : ∀ y, p y → p x → key y = key x) (hkeys : (groups.map (·.1)).Nodup) :
    (grouped (addTo (key x) x groups)).filter p = (grouped groups).filter p ++ [x].filter p := by
  induction groups with
  | nil => simp [addTo, grouped]
  | cons g rest ih =>
    obtain ⟨k', group⟩ := g
    have hkr : Keyed key rest := fun g hg => h g (List.mem_cons_of_mem _ hg)
    rw [List.map_cons, List.nodup_cons] at hkeys
    unfold addTo
    split_ifs with hk
    · rw [grouped_cons, grouped_cons, List.filter_append, List.filter_append, List.filter_append,
        List.append_assoc, List.append_assoc]
      congr 1
      cases hx : p x with
      | false => simp [hx]
      | true =>
        have hnone : (grouped rest).filter p = [] := by
          rw [List.filter_eq_nil_iff]
          intro y hy hpy
          obtain ⟨g, hg, hyg⟩ := List.mem_flatMap.mp hy
          have hkey : k' = g.1 := by
            rw [hk, ← hp y hpy hx, hkr g hg y hyg]
          exact hkeys.1 (List.mem_map.mpr ⟨g, hg, hkey.symm⟩)
        rw [hnone, List.append_nil, List.nil_append]
    · rw [grouped_cons, grouped_cons, List.filter_append, List.filter_append, ih hkr hkeys.2,
        List.append_assoc]

theorem keys_addTo (k : κ) (x : β) {groups : List (κ × List β)}
    (h : (groups.map (·.1)).Nodup) : ((addTo k x groups).map (·.1)).Nodup ∧
      ∀ k' ∈ (addTo k x groups).map (·.1), k' = k ∨ k' ∈ groups.map (·.1) := by
  induction groups with
  | nil => simp [addTo]
  | cons g rest ih =>
    obtain ⟨k', group⟩ := g
    rw [List.map_cons, List.nodup_cons] at h
    obtain ⟨hnodup, hmem⟩ := ih h.2
    unfold addTo
    split_ifs with hk
    · exact ⟨List.nodup_cons.mpr h, fun k'' hk'' => .inr hk''⟩
    · refine ⟨List.nodup_cons.mpr ⟨fun hin => ?_, hnodup⟩, fun k'' hk'' => ?_⟩
      · rcases hmem _ hin with hin | hin
        · exact hk hin
        · exact h.1 hin
      · rcases List.mem_cons.mp hk'' with rfl | hk''
        · exact .inr List.mem_cons_self
        · exact (hmem _ hk'').imp_right (List.mem_cons_of_mem _)

section Rows

variable {α : Type*} {l : List α} {j : ℕ} {a : α}

theorem flatMap_at (f : α → List β) (h : l[j]? = some a) :
    l.flatMap f = (l.take j).flatMap f ++ f a ++ (l.drop (j + 1)).flatMap f := by
  obtain ⟨hlt, rfl⟩ := List.getElem?_eq_some_iff.mp h
  conv_lhs => rw [← List.take_append_drop j l, List.drop_eq_getElem_cons hlt]
  rw [List.flatMap_append, List.flatMap_cons, List.append_assoc]

theorem flatMap_set (f : α → List β) (h : l[j]? = some a) (b : α) :
    (l.set j b).flatMap f = (l.take j).flatMap f ++ f b ++ (l.drop (j + 1)).flatMap f := by
  have hlt := (List.getElem?_eq_some_iff.mp h).1
  rw [List.set_eq_take_append_cons_drop, if_pos hlt, List.flatMap_append, List.flatMap_cons,
    List.append_assoc]

theorem flatMap_set_same (f : α → List β) (h : l[j]? = some a) {b : α} (hf : f b = f a) :
    (l.set j b).flatMap f = l.flatMap f := by
  rw [flatMap_set f h, flatMap_at f h, hf]

/-- What the row has, and what the others have. -/
theorem flatMap_perm_at (f : α → List β) (h : l[j]? = some a) :
    (l.flatMap f).Perm (f a ++ ((l.take j).flatMap f ++ (l.drop (j + 1)).flatMap f)) := by
  rw [flatMap_at f h, List.append_assoc]
  exact List.perm_append_comm_assoc _ _ _

theorem flatMap_perm_set (f : α → List β) (h : l[j]? = some a) (b : α) :
    ((l.set j b).flatMap f).Perm (f b ++ ((l.take j).flatMap f ++ (l.drop (j + 1)).flatMap f)) := by
  rw [flatMap_set f h, List.append_assoc]
  exact List.perm_append_comm_assoc _ _ _

/-- Only one element has something. -/
theorem flatMap_of_nodup {f : α → List β} (hl : l.Nodup) (ha : a ∈ l)
    (hf : ∀ b ∈ l, b ≠ a → f b = []) : l.flatMap f = f a := by
  induction l with
  | nil => cases ha
  | cons b l ih =>
    rw [List.nodup_cons] at hl
    rw [List.flatMap_cons]
    rcases List.mem_cons.mp ha with rfl | ha
    · have hrest : l.flatMap f = [] := by
        rw [List.flatMap_eq_nil_iff]
        intro c hc
        exact hf c (List.mem_cons_of_mem _ hc) fun he => hl.1 (he ▸ hc)
      rw [hrest, List.append_nil]
    · have hb : f b = [] := hf b List.mem_cons_self fun he => hl.1 (he ▸ ha)
      rw [hb, List.nil_append, ih hl.2 ha fun c hc => hf c (List.mem_cons_of_mem _ hc)]

end Rows

/-- Rows that are filled one after another: what is there is the front of the whole. -/
theorem flatMap_isPrefix {α : Type*} {f g : α → List β} {l : List α}
    (hpre : ∀ a ∈ l, f a <+: g a)
    (horder : l.Pairwise fun a b => f b ≠ [] → f a = g a) : l.flatMap f <+: l.flatMap g := by
  induction l with
  | nil => exact List.nil_prefix
  | cons a l ih =>
    rw [List.pairwise_cons] at horder
    rw [List.flatMap_cons, List.flatMap_cons]
    by_cases hrest : ∀ b ∈ l, f b = []
    · rw [List.flatMap_eq_nil_iff.mpr hrest, List.append_nil]
      exact (hpre a List.mem_cons_self).trans (List.prefix_append _ _)
    · push Not at hrest
      obtain ⟨b, hb, hne⟩ := hrest
      rw [horder.1 b hb hne, List.prefix_append_right_inj]
      exact ih (fun c hc => hpre c (List.mem_cons_of_mem _ hc)) horder.2

section Adjacent

variable {α : Type*} (key : α → κ) {l : List α}

/-- The elements of a run have one key. -/
theorem key_of_mem_splitBy {g : List α} (hg : g ∈ l.splitBy fun a b => key a == key b) :
    ∀ x ∈ g, ∀ y ∈ g, key x = key y := by
  have hchain : g.IsChain fun x y => key x = key y :=
    (List.isChain_of_mem_splitBy hg).imp fun _ _ h => beq_iff_eq.mp h
  have : Trans (fun x y => key x = key y) (fun x y => key x = key y) fun x y => key x = key y :=
    ⟨fun h h' => h.trans h'⟩
  have : Std.Symm fun x y => key x = key y := ⟨fun _ _ h => h.symm⟩
  have hpairs := List.isChain_iff_pairwise.mp hchain
  exact hpairs.forall_of_forall fun x _ => (rfl : key x = key x)

/-- The key changes where a run begins. -/
theorem key_of_splitBy_eq {pre post : List (List α)} {g : List α}
    (h : (l.splitBy fun a b => key a == key b) = pre ++ g :: post) :
    ∀ x ∈ pre.flatten.getLast?, ∀ y ∈ g, key x ≠ key y := by
  intro x hx y hy
  have hg : g ∈ l.splitBy fun a b => key a == key b := by
    rw [h]
    exact List.mem_append_right _ List.mem_cons_self
  have hborder := List.isChain_getLast_head_splitBy (fun a b => key a == key b) l
  rw [h] at hborder
  rcases List.eq_nil_or_concat pre with rfl | ⟨init, last, rfl⟩
  · cases hx
  · obtain ⟨hlast, hhead, hne⟩ := (List.isChain_append.mp hborder).2.2 last (by simp) g rfl
    rw [List.concat_eq_append, List.flatten_append, List.flatten_singleton,
      List.getLast?_append_of_ne_nil _ hlast, List.getLast?_eq_some_getLast hlast] at hx
    obtain rfl := Option.some.inj hx
    rw [key_of_mem_splitBy key hg y hy _ (List.head_mem hhead)]
    exact beq_eq_false_iff_ne.mp hne

/-- Elements of one key at the front are in the first run. -/
theorem splitBy_of_front {xs : List α} {k : κ} (hne : xs ≠ []) (hxs : ∀ x ∈ xs, key x = k)
    (ys : List α) : ∃ zs gs,
      ((xs ++ ys).splitBy fun a b => key a == key b) = (xs ++ zs) :: gs := by
  refine ⟨ys.takeWhile fun y => key y == k,
    (ys.dropWhile fun y => key y == k).splitBy fun a b => key a == key b, ?_⟩
  have hfront : ∀ x ∈ xs ++ ys.takeWhile fun y => key y == k, key x = k := by
    intro x hx
    rcases List.mem_append.mp hx with hx | hx
    · exact hxs x hx
    · have hkey := List.mem_takeWhile_imp hx
      exact beq_iff_eq.mp hkey
  have hsplit : xs ++ ys = (xs ++ ys.takeWhile fun y => key y == k) ++
      ys.dropWhile fun y => key y == k := by
    rw [List.append_assoc, List.takeWhile_append_dropWhile]
  have hchain : (xs ++ ys.takeWhile fun y => key y == k).IsChain fun x y => key x == key y :=
    (List.pairwise_of_forall_mem_list fun x hx y hy =>
      beq_iff_eq.mpr ((hfront x hx).trans (hfront y hy).symm)).isChain
  have hborder : ∀ x ∈ (xs ++ ys.takeWhile fun y => key y == k).getLast?,
      ∀ y ∈ (ys.dropWhile fun y => key y == k).head?, (key x == key y) = false := by
    intro x hx y hy
    have hstop := List.head?_dropWhile_not (fun y => key y == k) ys
    rw [Option.mem_def.mp hy] at hstop
    rw [hfront x (List.mem_of_getLast? hx), beq_eq_false_iff_ne]
    exact (beq_eq_false_iff_ne.mp hstop).symm
  rw [hsplit, List.splitBy_append hborder,
    List.splitBy_of_isChain (List.append_ne_nil_of_left_ne_nil hne _) hchain]
  rfl

end Adjacent

end Umm.Lib
