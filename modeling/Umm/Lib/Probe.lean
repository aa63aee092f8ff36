import Mathlib.Tactic

/-! Linear probing around a ring of `c` slots, with the rule that nobody on the way of an
item sits closer to home than the item would there. -/
namespace Umm.Lib

inductive Slot (α : Type*) where
  | empty
  | deleted
  | full (a : α)
deriving DecidableEq, Repr

/-- Steps from slot `a` up to slot `b`, around the end. -/
def cdist (c a b : ℕ) : ℕ := if a ≤ b then b - a else c - a + b

def cnext (c i : ℕ) : ℕ := if i + 1 = c then 0 else i + 1

section Ring

variable {c a b i : ℕ}

@[simp] theorem cdist_self (c a : ℕ) : cdist c a a = 0 := by
  simp [cdist]

theorem cdist_lt (ha : a < c) (hb : b < c) : cdist c a b < c := by
  unfold cdist
  split_ifs <;> omega

theorem cdist_inj (ha : a < c) (hb : b < c) (hi : i < c) (h : cdist c a b = cdist c a i) :
    b = i := by
  unfold cdist at h
  split_ifs at h <;> omega

theorem cnext_lt (hi : i < c) : cnext c i < c := by
  unfold cnext
  split_ifs <;> omega

theorem cdist_cnext (ha : a < c) (h : cnext c i ≠ a) :
    cdist c a (cnext c i) = cdist c a i + 1 := by
  unfold cnext at h ⊢
  unfold cdist
  split_ifs at h ⊢ <;> omega

theorem cdist_cnext_left (hi : i < c) (hb : b < c) (h : i ≠ b) :
    cdist c (cnext c i) b + 1 = cdist c i b := by
  unfold cnext cdist
  split_ifs <;> omega

/-- A slot one step nearer than the next one, or the slot itself. -/
theorem cdist_lt_cnext (ha : a < c) (hi : i < c) (hb : b < c) (h : cnext c i ≠ a)
    (hlt : cdist c a b < cdist c a (cnext c i)) : cdist c a b < cdist c a i ∨ b = i := by
  rw [cdist_cnext ha h] at hlt
  by_cases he : cdist c a b = cdist c a i
  · exact Or.inr (cdist_inj ha hb hi he)
  · exact Or.inl (by omega)

end Ring

section Table

variable {α : Type*} {c : ℕ} {home : α → ℕ} {T : ℕ → Slot α}

/-- An item whose home is `a` may sit at slot `i`: no slot on its way is empty, and none
holds an item closer to home than this one would be there. -/
def PathOk (c : ℕ) (home : α → ℕ) (T : ℕ → Slot α) (a i : ℕ) : Prop :=
  ∀ j < c, cdist c a j < cdist c a i →
    T j ≠ .empty ∧ ∀ y, T j = .full y → cdist c a j ≤ cdist c (home y) j

def Ordered (c : ℕ) (home : α → ℕ) (T : ℕ → Slot α) : Prop :=
  ∀ i < c, ∀ x, T i = .full x → PathOk c home T (home x) i

/-- The way of the item `x` at slot `i` leads over slot `s`. -/
def Crosses (c : ℕ) (home : α → ℕ) (x : α) (i s : ℕ) : Prop :=
  cdist c (home x) s < cdist c (home x) i

theorem PathOk.start (a : ℕ) : PathOk c home T a a := by
  intro j _ h
  rw [cdist_self] at h
  exact absurd h (Nat.not_lt_zero _)

/-- The way goes on over a slot that is in order. -/
theorem PathOk.next {a i : ℕ} (h : PathOk c home T a i) (ha : a < c) (hi : i < c)
    (hne : cnext c i ≠ a) (he : T i ≠ .empty)
    (hd : ∀ y, T i = .full y → cdist c a i ≤ cdist c (home y) i) :
    PathOk c home T a (cnext c i) := by
  intro j hj hlt
  rcases cdist_lt_cnext ha hi hj hne hlt with hlt | rfl
  · exact h j hj hlt
  · exact ⟨he, hd⟩

/-- A way over non-empty slots does not go around the whole ring. -/
theorem PathOk.cnext_ne {a i : ℕ} (h : PathOk c home T a i) (ha : a < c) (hi : i < c)
    (he : T i ≠ .empty) (hm : ∃ m < c, T m = .empty) : cnext c i ≠ a := by
  obtain ⟨m, hmc, hme⟩ := hm
  intro hc
  by_cases hmi : m = i
  · exact he (hmi ▸ hme)
  · refine (h m hmc ?_).1 hme
    have hlast : cdist c a i = c - 1 := by
      rw [← hc]
      unfold cnext cdist
      split_ifs <;> omega
    have hlt := cdist_lt ha hmc
    have hne : cdist c a m ≠ cdist c a i := fun heq => hmi (cdist_inj ha hmc hi heq)
    omega

/-- Ways stay in order when a slot gets an item that is farther from home than every item
on whose way the slot lies. -/
theorem PathOk.set {a i s : ℕ} {e : α} (h : PathOk c home T a i)
    (hd : cdist c a s < cdist c a i → cdist c a s ≤ cdist c (home e) s) :
    PathOk c home (Function.update T s (.full e)) a i := by
  intro j hj hlt
  by_cases hjs : j = s
  · subst hjs
    rw [Function.update_self]
    refine ⟨by simp, ?_⟩
    rintro y ⟨⟩
    exact hd hlt
  · rw [Function.update_of_ne hjs]
    exact h j hj hlt

/-- An item may be put into a slot when its own way is in order and no item whose way leads
over the slot is farther from home there. -/
theorem Ordered.set {s : ℕ} {e : α} (h : Ordered c home T) (hp : PathOk c home T (home e) s)
    (hd : ∀ i < c, ∀ x, T i = .full x → i ≠ s → Crosses c home x i s →
      cdist c (home x) s ≤ cdist c (home e) s) :
    Ordered c home (Function.update T s (.full e)) := by
  intro i hi x hx
  by_cases his : i = s
  · subst his
    rw [Function.update_self] at hx
    obtain rfl := Slot.full.inj hx
    exact hp.set (fun hlt => absurd hlt (lt_irrefl _))
  · rw [Function.update_of_ne his] at hx
    exact (h i hi x hx).set (hd i hi x hx his)

/-- Exchanging an item for one that is at least as far from home. -/
theorem Ordered.exchange {s : ℕ} {e y : α} (h : Ordered c home T) (hs : s < c)
    (hy : T s = .full y) (hp : PathOk c home T (home e) s)
    (hle : cdist c (home y) s ≤ cdist c (home e) s) :
    Ordered c home (Function.update T s (.full e)) :=
  h.set hp (fun i hi x hx _ hcross => (((h i hi x hx) s hs hcross).2 y hy).trans hle)

theorem Ordered.delete {s : ℕ} (h : Ordered c home T) :
    Ordered c home (Function.update T s .deleted) := by
  intro i hi x hx
  have his : i ≠ s := by
    rintro rfl
    rw [Function.update_self] at hx
    cases hx
  rw [Function.update_of_ne his] at hx
  intro j hj hlt
  by_cases hjs : j = s
  · subst hjs
    rw [Function.update_self]
    exact ⟨by simp, by simp⟩
  · rw [Function.update_of_ne hjs]
    exact h i hi x hx j hj hlt

end Table

section Count

variable {α : Type*} (p : Slot α → Bool)

/-- How many of the first `c` slots satisfy `p`. -/
def slotCount (T : ℕ → Slot α) : ℕ → ℕ
  | 0 => 0
  | c + 1 => slotCount T c + if p (T c) then 1 else 0

variable {p} {T T' : ℕ → Slot α} {c : ℕ}

theorem slotCount_congr (h : ∀ i < c, p (T i) = p (T' i)) : slotCount p T c = slotCount p T' c := by
  induction c with
  | zero => rfl
  | succ c ih => rw [slotCount, slotCount, ih (fun i hi => h i (by omega)), h c (by omega)]

theorem slotCount_eq_card (p : Slot α → Bool) (T : ℕ → Slot α) (c : ℕ) :
    slotCount p T c = ((Finset.range c).filter (fun i => p (T i) = true)).card := by
  induction c with
  | zero => rfl
  | succ c ih =>
    rw [slotCount, ih, Finset.range_add_one, Finset.filter_insert]
    split_ifs with hc
    · rw [Finset.card_insert_of_notMem (by simp)]
    · rfl

theorem slotCount_update {s : ℕ} (b : Slot α) (hs : s < c) :
    slotCount p (Function.update T s b) c + (if p (T s) then 1 else 0) =
      slotCount p T c + if p b then 1 else 0 := by
  induction c with
  | zero => exact absurd hs (Nat.not_lt_zero s)
  | succ c ih =>
    rw [slotCount, slotCount]
    by_cases hsc : s = c
    · subst hsc
      have hbelow : slotCount p (Function.update T s b) s = slotCount p T s :=
        slotCount_congr (fun i hi => by rw [Function.update_of_ne (by omega)])
      rw [hbelow, Function.update_self]
      omega
    · rw [Function.update_of_ne (Ne.symm hsc)]
      have := ih (by omega)
      omega

theorem slotCount_eq_zero (h : ∀ i < c, p (T i) = false) : slotCount p T c = 0 := by
  induction c with
  | zero => rfl
  | succ c ih =>
    rw [slotCount, ih (fun i hi => h i (by omega)), h c (by omega), if_neg Bool.false_ne_true]

def Slot.isFull : Slot α → Bool
  | .full _ => true
  | _ => false

def Slot.isDeleted : Slot α → Bool
  | .deleted => true
  | _ => false

/-- Deleting an item turns it into a tombstone. -/
theorem slotCount_delete {s : ℕ} {a : α} (hs : s < c) (ha : T s = .full a) :
    slotCount Slot.isFull (Function.update T s .deleted) c + 1 = slotCount Slot.isFull T c ∧
      slotCount Slot.isDeleted (Function.update T s .deleted) c =
        slotCount Slot.isDeleted T c + 1 := by
  have hfull := slotCount_update (p := Slot.isFull) (T := T) .deleted hs
  have hdel := slotCount_update (p := Slot.isDeleted) (T := T) .deleted hs
  rw [ha] at hfull hdel
  simp only [Slot.isFull, Slot.isDeleted, Bool.false_eq_true, if_false, if_true] at hfull hdel
  exact ⟨hfull, hdel⟩

/-- A table that is not taken up by items and tombstones has an empty slot. -/
theorem exists_empty (h : slotCount Slot.isFull T c + slotCount Slot.isDeleted T c < c) :
    ∃ m < c, T m = .empty := by
  induction c with
  | zero => exact absurd h (Nat.not_lt_zero _)
  | succ c ih =>
    rw [slotCount, slotCount] at h
    cases hc : T c with
    | empty => exact ⟨c, Nat.lt_succ_self c, hc⟩
    | deleted =>
      simp only [hc, Slot.isFull, Slot.isDeleted, Bool.false_eq_true, if_false, if_true] at h
      obtain ⟨m, hm, he⟩ := ih (by omega)
      exact ⟨m, by omega, he⟩
    | full a =>
      simp only [hc, Slot.isFull, Slot.isDeleted, Bool.false_eq_true, if_false, if_true] at h
      obtain ⟨m, hm, he⟩ := ih (by omega)
      exact ⟨m, by omega, he⟩

end Count

section Items

variable {α : Type*} {l : List (Slot α)}

def Slot.item? : Slot α → Option α
  | .full a => some a
  | _ => none

/-- All items in the slots, in their order. -/
def slotItems (l : List (Slot α)) : List α := l.filterMap Slot.item?

theorem mem_slotItems {a : α} : a ∈ slotItems l ↔ .full a ∈ l := by
  unfold slotItems
  rw [List.mem_filterMap]
  constructor
  · rintro ⟨s, hs, hi⟩
    cases s with
    | full b =>
      obtain rfl := Option.some.inj hi
      exact hs
    | empty => cases hi
    | deleted => cases hi
  · intro h
    exact ⟨_, h, rfl⟩

theorem slotItems_cons_full (a : α) : slotItems (.full a :: l) = a :: slotItems l := rfl

theorem slotItems_replicate (n : ℕ) : slotItems (List.replicate n (Slot.empty : Slot α)) = [] := by
  refine List.eq_nil_iff_forall_not_mem.mpr fun a ha => ?_
  cases List.eq_of_mem_replicate (mem_slotItems.mp ha)

private theorem slotItems_split {i : ℕ} (hi : i < l.length) :
    slotItems l = slotItems (l.take i) ++ l[i].item?.toList ++ slotItems (l.drop (i + 1)) := by
  have hsplit : l = l.take i ++ l[i] :: l.drop (i + 1) := by
    rw [List.cons_getElem_drop_succ, List.take_append_drop]
  conv_lhs => rw [hsplit]
  unfold slotItems
  rw [List.filterMap_append]
  cases h : l[i] with
  | full a => simp [Slot.item?]
  | empty => simp [Slot.item?, List.filterMap_cons]
  | deleted => simp [Slot.item?, List.filterMap_cons]

/-- Putting an item into a slot adds it to the others. -/
theorem slotItems_set {i : ℕ} (hi : i < l.length) (a : α) :
    (l[i].item?.toList ++ slotItems (l.set i (.full a))).Perm (a :: slotItems l) := by
  have hold := slotItems_split hi
  have hnew := slotItems_split (l := l.set i (.full a)) (i := i) (by rw [List.length_set]; exact hi)
  rw [List.take_set_of_le le_rfl, List.drop_set_of_lt (Nat.lt_succ_self i),
    List.getElem_set_self] at hnew
  rw [hold, hnew]
  simp only [Slot.item?, Option.toList_some, List.append_assoc, List.cons_append, List.nil_append]
  have hmove : (l[i].item?.toList ++ (slotItems (l.take i) ++ a :: slotItems (l.drop (i + 1)))).Perm
      (a :: (l[i].item?.toList ++ (slotItems (l.take i) ++ slotItems (l.drop (i + 1))))) := by
    refine ((List.perm_middle).append_left _).trans ?_
    exact List.perm_middle
  refine hmove.trans (List.Perm.cons a ?_)
  rw [← List.append_assoc, ← List.append_assoc]
  exact List.perm_append_comm.append_right _

end Items

end Umm.Lib
