import Umm.Lib.Probe

/-! Robin Hood insertion: an item walks from its home to the first slot without an item and
takes the place of every item on the way that is closer to home. What one round does, and what
the finished table has in common with the old one. -/
namespace Umm.Lib

variable {α κ : Type*} {c : ℕ} {home : α → ℕ} {key : α → κ} {T T' : ℕ → Slot α}

/-- No two slots hold the same key. -/
def Distinct (c : ℕ) (key : α → κ) (T : ℕ → Slot α) : Prop :=
  ∀ i < c, ∀ j < c, ∀ x y, T i = .full x → T j = .full y → key x = key y → i = j

/-- No slot holds the key `k`. -/
def Fresh (c : ℕ) (key : α → κ) (T : ℕ → Slot α) (k : κ) : Prop :=
  ∀ i < c, ∀ x, T i = .full x → key x ≠ k

/-- Slots whose items have distinct keys in the list of items. -/
theorem distinct_of_nodup {l : List (Slot α)} (h : ((slotItems l).map key).Nodup) :
    Distinct l.length key (fun j => l.getD j .empty) := by
  have hpair : l.Pairwise fun s t => ∀ x, s = .full x → ∀ y, t = .full y → key x ≠ key y := by
    rw [List.Nodup, List.pairwise_map, slotItems, List.pairwise_filterMap] at h
    refine h.imp fun hst x hx y hy => ?_
    exact hst x (by rw [hx]; rfl) y (by rw [hy]; rfl)
  have hget := List.pairwise_iff_getElem.mp hpair
  intro i hi j hj x y hx hy hk
  dsimp only at hx hy
  rw [List.getD_eq_getElem?_getD, List.getElem?_eq_getElem hi, Option.getD_some] at hx
  rw [List.getD_eq_getElem?_getD, List.getElem?_eq_getElem hj, Option.getD_some] at hy
  rcases Nat.lt_trichotomy i j with hlt | rfl | hlt
  · exact absurd hk (hget i j hi hj hlt x hx y hy)
  · rfl
  · exact absurd hk.symm (hget j i hj hi hlt y hy x hx)

/-- `s` is the first slot from `a` on that holds no item. -/
structure FirstFree (c : ℕ) (T : ℕ → Slot α) (a s : ℕ) : Prop where
  lt : s < c
  stop : (T s).isFull = false
  before : ∀ j < c, cdist c a j < cdist c a s → (T j).isFull = true

/-- The item `e` has walked to slot `i` on its way to `s`. The last field is what keeps the
table in order when `s` is a tombstone: the items whose way leads over `s` are no farther from
home there than `e` and the items that `e` will still meet. -/
structure Carry (c : ℕ) (home : α → ℕ) (T : ℕ → Slot α) (e : α) (i s : ℕ) : Prop where
  lt : i < c
  home_lt : ∀ x, home x < c
  ordered : Ordered c home T
  path : PathOk c home T (home e) i
  free : FirstFree c T i s
  room : ∃ m < c, T m = .empty
  crossed : ∀ j < c, ∀ x, T j = .full x → Crosses c home x j s →
    cdist c (home x) s ≤ cdist c (home e) s ∧
      ∀ l < c, ∀ y, T l = .full y → cdist c i l < cdist c i s →
        cdist c (home x) s ≤ cdist c (home y) s

/-- The table `T'` is `T` with the item `e` added and slot `s` taken. -/
structure Placed (c : ℕ) (home : α → ℕ) (key : α → κ) (T : ℕ → Slot α) (e : α)
    (T' : ℕ → Slot α) (s : ℕ) : Prop where
  ordered : Ordered c home T'
  full : (T' s).isFull = true
  shape : ∀ j, j ≠ s → (T' j).isFull = (T j).isFull ∧ (T' j).isDeleted = (T j).isDeleted
  content : ∀ z, (∃ j < c, T' j = .full z) ↔ z = e ∨ ∃ j < c, T j = .full z
  distinct : Distinct c key T → Fresh c key T (key e) → Distinct c key T'

theorem exists_firstFree {a : ℕ} (h : ∃ m < c, (T m).isFull = false) :
    ∃ s, FirstFree c T a s := by
  obtain ⟨m, hm, hf⟩ := h
  obtain ⟨s, hs, hmin⟩ := Finset.exists_min_image
    ((Finset.range c).filter (fun j => (T j).isFull = false)) (fun j => cdist c a j)
    ⟨m, Finset.mem_filter.mpr ⟨Finset.mem_range.mpr hm, hf⟩⟩
  obtain ⟨hsc, hsf⟩ := Finset.mem_filter.mp hs
  refine ⟨s, Finset.mem_range.mp hsc, hsf, fun j hj hlt => ?_⟩
  by_contra hc
  have := hmin j (Finset.mem_filter.mpr ⟨Finset.mem_range.mpr hj, by simpa using hc⟩)
  omega

theorem FirstFree.next {i s : ℕ} (h : FirstFree c T i s) (hi : i < c) (hne : i ≠ s) :
    FirstFree c T (cnext c i) s := by
  refine ⟨h.lt, h.stop, fun j hj hlt => ?_⟩
  have hs := cdist_cnext_left hi h.lt hne
  by_cases hji : j = i
  · subst hji
    exact h.before j hj (by rw [cdist_self]; omega)
  · have := cdist_cnext_left hi hj (Ne.symm hji)
    exact h.before j hj (by omega)

/-- The slot where the walk stands, while it has not reached `s`. -/
theorem FirstFree.ne_of_full {i s : ℕ} {y : α} (h : FirstFree c T i s) (hy : T i = .full y) :
    i ≠ s := by
  rintro rfl
  have := h.stop
  rw [hy] at this
  exact Bool.noConfusion this

/-- A later part of the window is a part of the window, without its first slot. -/
theorem window_next {i l s : ℕ} (hi : i < c) (hl : l < c) (hs : s < c) (hne : i ≠ s)
    (hlt : cdist c (cnext c i) l < cdist c (cnext c i) s) : l ≠ i ∧ cdist c i l < cdist c i s := by
  have h1 := cdist_cnext_left hi hs hne
  have hli : l ≠ i := by
    rintro rfl
    unfold cdist cnext at hlt
    split_ifs at hlt <;> omega
  have h2 := cdist_cnext_left hi hl (Ne.symm hli)
  exact ⟨hli, by omega⟩

/-- A way that has come to a slot before `s` has not led over `s`: it would have gone around
the ring and met the empty slot. -/
theorem PathOk.not_over {a i s : ℕ} (hp : PathOk c home T a i) (hf : FirstFree c T i s)
    (ha : a < c) (hi : i < c) (he : T i ≠ .empty) (hm : ∃ m < c, T m = .empty) :
    ¬ cdist c a s < cdist c a i := by
  intro hlt
  obtain ⟨m, hmc, hme⟩ := hm
  by_cases hmi : m = i
  · exact he (hmi ▸ hme)
  · by_cases hon : cdist c a m < cdist c a i
    · exact (hp m hmc hon).1 hme
    · have hin : cdist c i m < cdist c i s := by
        have hs := hf.lt
        unfold cdist at hlt hon ⊢
        split_ifs at hlt hon ⊢ <;> omega
      have hfull := hf.before m hmc hin
      rw [hme] at hfull
      exact Bool.noConfusion hfull

/-- A round that leaves the slot as it is. -/
theorem Carry.pass {e y : α} {i s : ℕ} (h : Carry c home T e i s) (hy : T i = .full y)
    (hle : cdist c (home e) i ≤ cdist c (home y) i) :
    Carry c home T e (cnext c i) s ∧
      cdist c (home e) (cnext c i) = cdist c (home e) i + 1 := by
  have hne := h.free.ne_of_full hy
  have hfull : T i ≠ .empty := by
    rw [hy]
    simp
  have hturn := h.path.cnext_ne (h.home_lt e) h.lt hfull h.room
  refine ⟨⟨cnext_lt h.lt, h.home_lt, h.ordered, ?_, h.free.next h.lt hne, h.room, ?_⟩,
    cdist_cnext (h.home_lt e) hturn⟩
  · refine h.path.next (h.home_lt e) h.lt hturn hfull (fun z hz => ?_)
    rw [hy] at hz
    obtain rfl := Slot.full.inj hz
    exact hle
  · intro j hj x hx hc
    obtain ⟨h1, h2⟩ := h.crossed j hj x hx hc
    exact ⟨h1, fun l hl z hz hlt => h2 l hl z hz (window_next h.lt hl h.free.lt hne hlt).2⟩

/-- A round that exchanges the item for the one in the slot. -/
theorem Carry.exchange {e y : α} {i s : ℕ} (h : Carry c home T e i s) (hy : T i = .full y)
    (hlt : cdist c (home y) i < cdist c (home e) i) :
    Carry c home (Function.update T i (.full e)) y (cnext c i) s ∧
      cdist c (home y) (cnext c i) = cdist c (home y) i + 1 := by
  have hne := h.free.ne_of_full hy
  have hfull : T i ≠ .empty := by
    rw [hy]
    simp
  have hpath : PathOk c home T (home y) i := h.ordered i h.lt y hy
  have hturn := hpath.cnext_ne (h.home_lt y) h.lt hfull h.room
  have hstate : ∀ j, (Function.update T i (.full e) j).isFull = (T j).isFull := by
    intro j
    by_cases hj : j = i
    · rw [hj, Function.update_self, hy]
      rfl
    · rw [Function.update_of_ne hj]
  have hi0 : cdist c i i < cdist c i s := by
    have := cdist_cnext_left h.lt h.free.lt hne
    rw [cdist_self]
    omega
  refine ⟨⟨cnext_lt h.lt, h.home_lt, h.ordered.exchange h.lt hy h.path hlt.le, ?_, ?_, ?_, ?_⟩,
    cdist_cnext (h.home_lt y) hturn⟩
  · have hset := hpath.set (s := i) (e := e) (fun hcon => absurd hcon (lt_irrefl _))
    refine hset.next (h.home_lt y) h.lt hturn ?_ ?_
    · rw [Function.update_self]
      simp
    · intro z hz
      rw [Function.update_self] at hz
      obtain rfl := Slot.full.inj hz
      exact hlt.le
  · have hnext := h.free.next h.lt hne
    exact ⟨hnext.lt, by rw [hstate]; exact hnext.stop, fun j hj hw => by
      rw [hstate]
      exact hnext.before j hj hw⟩
  · obtain ⟨m, hm, he⟩ := h.room
    refine ⟨m, hm, ?_⟩
    have hmi : m ≠ i := by
      rintro rfl
      exact hfull he
    rw [Function.update_of_ne hmi]
    exact he
  · intro j hj x hx hc
    by_cases hji : j = i
    · subst hji
      rw [Function.update_self] at hx
      obtain rfl := Slot.full.inj hx
      exact absurd hc (h.path.not_over h.free (h.home_lt _) h.lt hfull h.room)
    · rw [Function.update_of_ne hji] at hx
      obtain ⟨h1, h2⟩ := h.crossed j hj x hx hc
      refine ⟨h2 i h.lt y hy hi0, fun l hl z hz hw => ?_⟩
      by_cases hli : l = i
      · subst hli
        rw [Function.update_self] at hz
        obtain rfl := Slot.full.inj hz
        exact h1
      · rw [Function.update_of_ne hli] at hz
        exact h2 l hl z hz (window_next h.lt hl h.free.lt hne hw).2

/-- The end of the walk. -/
theorem Carry.place {e : α} {s : ℕ} (h : Carry c home T e s s) :
    Placed c home key T e (Function.update T s (.full e)) s := by
  have hs := h.free.lt
  have hstop := h.free.stop
  refine ⟨?_, ?_, ?_, ?_, ?_⟩
  · exact h.ordered.set h.path (fun i hi x hx _ hc => (h.crossed i hi x hx hc).1)
  · rw [Function.update_self]
    rfl
  · intro j hj
    rw [Function.update_of_ne hj]
    exact ⟨rfl, rfl⟩
  · intro z
    constructor
    · rintro ⟨j, hj, hz⟩
      by_cases hjs : j = s
      · rw [hjs, Function.update_self] at hz
        exact Or.inl (Slot.full.inj hz).symm
      · rw [Function.update_of_ne hjs] at hz
        exact Or.inr ⟨j, hj, hz⟩
    · rintro (rfl | ⟨j, hj, hz⟩)
      · exact ⟨s, hs, Function.update_self _ _ _⟩
      · refine ⟨j, hj, ?_⟩
        have hjs : j ≠ s := by
          rintro rfl
          rw [hz] at hstop
          exact Bool.noConfusion hstop
        rw [Function.update_of_ne hjs]
        exact hz
  · intro hd hf i hi j hj x y hx hy hk
    by_cases his : i = s
    · by_cases hjs : j = s
      · rw [his, hjs]
      · rw [his, Function.update_self] at hx
        rw [Function.update_of_ne hjs] at hy
        obtain rfl := Slot.full.inj hx
        exact absurd hk.symm (hf j hj y hy)
    · rw [Function.update_of_ne his] at hx
      by_cases hjs : j = s
      · rw [hjs, Function.update_self] at hy
        obtain rfl := Slot.full.inj hy
        exact absurd hk (hf i hi x hx)
      · rw [Function.update_of_ne hjs] at hy
        exact hd i hi j hj x y hx hy hk

/-- What was placed after an exchange was placed from before it. -/
theorem Placed.of_exchange {e y : α} {i s : ℕ} (hi : i < c) (hy : T i = .full y)
    (h : Placed c home key (Function.update T i (.full e)) y T' s) :
    Placed c home key T e T' s := by
  have hsame : ∀ j, j ≠ i → Function.update T i (.full e) j = T j := fun j hj =>
    Function.update_of_ne hj _ _
  have hself : Function.update T i (.full e) i = .full e := Function.update_self _ _ _
  refine ⟨h.ordered, h.full, ?_, ?_, ?_⟩
  · intro j hj
    have hshape := h.shape j hj
    by_cases hji : j = i
    · subst hji
      rw [hself] at hshape
      rw [hy]
      exact hshape
    · rw [hsame j hji] at hshape
      exact hshape
  · intro z
    rw [h.content z]
    constructor
    · rintro (rfl | ⟨j, hj, hz⟩)
      · exact Or.inr ⟨i, hi, hy⟩
      · by_cases hji : j = i
        · rw [hji, hself] at hz
          exact Or.inl (Slot.full.inj hz).symm
        · exact Or.inr ⟨j, hj, by rw [← hsame j hji]; exact hz⟩
    · rintro (rfl | ⟨j, hj, hz⟩)
      · exact Or.inr ⟨i, hi, hself⟩
      · by_cases hji : j = i
        · subst hji
          rw [hy] at hz
          exact Or.inl (Slot.full.inj hz).symm
        · exact Or.inr ⟨j, hj, by rw [hsame j hji]; exact hz⟩
  · intro hd hf
    have hne : ∀ j < c, j ≠ i → ∀ x, T j = .full x → key x ≠ key y := fun j hj hji x hx hk =>
      hji (hd j hj i hi x y hx hy hk)
    refine h.distinct ?_ ?_
    · intro j hj l hl x z hx hz hk
      by_cases hji : j = i
      · by_cases hli : l = i
        · rw [hji, hli]
        · rw [hji, hself] at hx
          rw [hsame l hli] at hz
          obtain rfl := Slot.full.inj hx
          exact absurd hk.symm (hf l hl z hz)
      · rw [hsame j hji] at hx
        by_cases hli : l = i
        · rw [hli, hself] at hz
          obtain rfl := Slot.full.inj hz
          exact absurd hk (hf j hj x hx)
        · rw [hsame l hli] at hz
          exact hd j hj l hl x z hx hz hk
    · intro j hj x hx
      by_cases hji : j = i
      · rw [hji, hself] at hx
        obtain rfl := Slot.full.inj hx
        exact fun hk => hf i hi y hy hk.symm
      · rw [hsame j hji] at hx
        exact hne j hj hji x hx

/-- The table `T'` is `T` with slot `s` taken. The others are free or taken as they were,
whoever holds them now. -/
structure Filled (c : ℕ) (T T' : ℕ → Slot α) (s : ℕ) : Prop where
  lt : s < c
  free : (T s).isFull = false
  full : (T' s).isFull = true
  shape : ∀ j, j ≠ s → (T' j).isFull = (T j).isFull ∧ (T' j).isDeleted = (T j).isDeleted

theorem Filled.place {s : ℕ} (hs : s < c) (hfree : (T s).isFull = false) (e : α) :
    Filled c T (Function.update T s (.full e)) s := by
  refine ⟨hs, hfree, ?_, fun j hj => ?_⟩
  · rw [Function.update_self]
    rfl
  · rw [Function.update_of_ne hj]
    exact ⟨rfl, rfl⟩

/-- What was filled after an exchange was filled from before it. -/
theorem Filled.of_exchange {e y : α} {i s : ℕ} (hy : T i = .full y)
    (h : Filled c (Function.update T i (.full e)) T' s) : Filled c T T' s := by
  have his : s ≠ i := by
    rintro rfl
    have hfree := h.free
    rw [Function.update_self] at hfree
    exact Bool.noConfusion hfree
  have hfree := h.free
  rw [Function.update_of_ne his] at hfree
  refine ⟨h.lt, hfree, h.full, fun j hj => ?_⟩
  have hshape := h.shape j hj
  by_cases hji : j = i
  · rw [hji, Function.update_self] at hshape
    rw [hji, hy]
    exact hshape
  · rw [Function.update_of_ne hji] at hshape
    exact hshape

theorem Filled.count_full {s : ℕ} (h : Filled c T T' s) :
    slotCount Slot.isFull T' c = slotCount Slot.isFull T c + 1 := by
  have hcongr : slotCount Slot.isFull T' c =
      slotCount Slot.isFull (Function.update T s (T' s)) c := by
    refine slotCount_congr (fun j _ => ?_)
    by_cases hj : j = s
    · rw [hj, Function.update_self]
    · rw [Function.update_of_ne hj, (h.shape j hj).1]
  have hup := slotCount_update (p := Slot.isFull) (T := T) (T' s) h.lt
  rw [h.free, h.full, if_neg Bool.false_ne_true, if_pos rfl] at hup
  omega

theorem Slot.isDeleted_of_isFull {x : Slot α} (h : x.isFull = true) : x.isDeleted = false := by
  cases x with
  | empty => rfl
  | deleted => exact Bool.noConfusion h
  | full a => rfl

theorem Filled.count_deleted {s : ℕ} (h : Filled c T T' s) :
    slotCount Slot.isDeleted T' c + (if (T s).isDeleted then 1 else 0) =
      slotCount Slot.isDeleted T c := by
  have hcongr : slotCount Slot.isDeleted T' c =
      slotCount Slot.isDeleted (Function.update T s (T' s)) c := by
    refine slotCount_congr (fun j _ => ?_)
    by_cases hj : j = s
    · rw [hj, Function.update_self]
    · rw [Function.update_of_ne hj, (h.shape j hj).2]
  have hup := slotCount_update (p := Slot.isDeleted) (T := T) (T' s) h.lt
  rw [Slot.isDeleted_of_isFull h.full, if_neg Bool.false_ne_true, Nat.add_zero] at hup
  rw [hcongr]
  exact hup

theorem Placed.filled {e : α} {s : ℕ} (h : Placed c home key T e T' s) (hs : s < c)
    (hstop : (T s).isFull = false) : Filled c T T' s :=
  ⟨hs, hstop, h.full, h.shape⟩

end Umm.Lib
