import Umm.Metadata.HashTable
import Umm.Lib.RobinHood

/-! What the loops of the name table do to a table whose probe paths are in order. -/
namespace Umm
open Umm.Lib

section Ring

variable {k : ℕ}

theorem desiredPos_lt (hash : UInt32) (k : ℕ) : desiredPos hash (2 ^ k) < 2 ^ k := by
  unfold desiredPos
  rw [Nat.and_two_pow_sub_one_eq_mod]
  exact Nat.mod_lt _ (Nat.two_pow_pos k)

theorem nextIdx_eq {idx : ℕ} (h : idx < 2 ^ k) : nextIdx idx (2 ^ k) = cnext (2 ^ k) idx := by
  unfold nextIdx cnext
  rw [Nat.and_two_pow_sub_one_eq_mod]
  split_ifs with hc
  · rw [hc, Nat.mod_self]
  · exact Nat.mod_eq_of_lt (by omega)

end Ring

section Loops

variable {V : Type} {k : ℕ}

/-- The slot where the search for an item starts. -/
def itemHome (capacity : ℕ) (x : MHTItem V) : ℕ := desiredPos x.hash capacity

theorem probeDistance_eq (x : MHTItem V) (idx capacity : ℕ) :
    probeDistance x.hash idx capacity = cdist capacity (itemHome capacity x) idx := rfl

theorem slotAt_set {entries : List (MHTEntry V)} {s : ℕ} (e : MHTEntry V)
    (hs : s < entries.length) :
    slotAt (entries.set s e) = Function.update (slotAt entries) s e := by
  funext j
  unfold slotAt
  rw [List.getD_eq_getElem?_getD, List.getElem?_set]
  by_cases hj : s = j
  · subst hj
    rw [if_pos rfl, if_pos hs, Function.update_self]
    rfl
  · rw [if_neg hj, Function.update_of_ne (Ne.symm hj), List.getD_eq_getElem?_getD]

/-- A walk that stands before a slot without an item has arrived. -/
private theorem arrived {c idx s : ℕ} {T : ℕ → MHTEntry V} (hf : FirstFree c T idx s)
    (hi : idx < c) (hn : (T idx).isFull = false) : idx = s := by
  by_contra hne
  have hstep := cdist_cnext_left hi hf.lt hne
  have := hf.before idx hi (by rw [cdist_self]; omega)
  rw [hn] at this
  exact Bool.noConfusion this

theorem reinsertLoop_placed {s : ℕ} :
    ∀ fuel (entries : List (MHTEntry V)) item idx, entries.length = 2 ^ k →
      Carry (2 ^ k) (itemHome (2 ^ k)) (slotAt entries) item idx s →
      cdist (2 ^ k) idx s < fuel →
      ∃ out, reinsertLoop (2 ^ k) fuel entries item idx
          (cdist (2 ^ k) (itemHome (2 ^ k) item) idx) = some out ∧ out.length = 2 ^ k ∧
        Placed (2 ^ k) (itemHome (2 ^ k)) MHTItem.key (slotAt entries) item (slotAt out) s := by
  intro fuel
  induction fuel with
  | zero =>
    intro entries item idx _ _ hf
    exact absurd hf (Nat.not_lt_zero _)
  | succ fuel ih =>
    intro entries item idx hlen hc hf
    unfold reinsertLoop
    cases hT : slotAt entries idx with
    | full there =>
      have hne := hc.free.ne_of_full hT
      have hstep := cdist_cnext_left hc.lt hc.free.lt hne
      simp only [probeDistance_eq, nextIdx_eq hc.lt]
      by_cases hlt : cdist (2 ^ k) (itemHome (2 ^ k) there) idx <
          cdist (2 ^ k) (itemHome (2 ^ k) item) idx
      · obtain ⟨hc', hd⟩ := hc.exchange hT hlt
        have hset : slotAt (entries.set idx (.full item)) =
            Function.update (slotAt entries) idx (.full item) :=
          slotAt_set _ (by rw [hlen]; exact hc.lt)
        rw [← hset] at hc'
        obtain ⟨out, he, hl, hp⟩ := ih (entries.set idx (.full item)) there _
          (by rw [List.length_set]; exact hlen) hc' (by omega)
        rw [hset] at hp
        rw [hd] at he
        refine ⟨out, ?_, hl, hp.of_exchange hc.lt hT⟩
        rw [if_pos hlt]
        exact he
      · obtain ⟨hc', hd⟩ := hc.pass hT (by omega)
        obtain ⟨out, he, hl, hp⟩ := ih entries item _ hlen hc' (by omega)
        rw [hd] at he
        refine ⟨out, ?_, hl, hp⟩
        rw [if_neg hlt]
        exact he
    | empty =>
      obtain rfl := arrived hc.free hc.lt (by rw [hT]; rfl)
      refine ⟨_, rfl, by rw [List.length_set]; exact hlen, ?_⟩
      rw [slotAt_set _ (by rw [hlen]; exact hc.lt)]
      exact hc.place
    | deleted =>
      obtain rfl := arrived hc.free hc.lt (by rw [hT]; rfl)
      refine ⟨_, rfl, by rw [List.length_set]; exact hlen, ?_⟩
      rw [slotAt_set _ (by rw [hlen]; exact hc.lt)]
      exact hc.place

/-- The insertion of a key that is not met on the way. -/
theorem mhtInsertLoop_placed (key : CString) {s : ℕ} :
    ∀ fuel (entries : List (MHTEntry V)) item idx, entries.length = 2 ^ k →
      Carry (2 ^ k) (itemHome (2 ^ k)) (slotAt entries) item idx s →
      (∀ j < 2 ^ k, cdist (2 ^ k) idx j < cdist (2 ^ k) idx s → ∀ x, slotAt entries j = .full x →
        x.key ≠ key) → cdist (2 ^ k) idx s < fuel →
      ∃ out last, mhtInsertLoop (2 ^ k) key fuel entries item item.hash idx
          (cdist (2 ^ k) (itemHome (2 ^ k) item) idx) = some (out, some (last, s)) ∧
        out.length = 2 ^ k ∧ slotAt out s = slotAt entries s ∧
        Placed (2 ^ k) (itemHome (2 ^ k)) MHTItem.key (slotAt entries) item
          (slotAt (out.set s (.full last))) s := by
  intro fuel
  induction fuel with
  | zero =>
    intro entries item idx _ _ _ hf
    exact absurd hf (Nat.not_lt_zero _)
  | succ fuel ih =>
    intro entries item idx hlen hc hkey hf
    unfold mhtInsertLoop
    cases hT : slotAt entries idx with
    | full there =>
      have hne := hc.free.ne_of_full hT
      have hstep := cdist_cnext_left hc.lt hc.free.lt hne
      have hther := hkey idx hc.lt (by rw [cdist_self]; omega) there hT
      simp only [probeDistance_eq, nextIdx_eq hc.lt]
      rw [if_neg (fun h => hther h.2)]
      by_cases hlt : cdist (2 ^ k) (itemHome (2 ^ k) there) idx <
          cdist (2 ^ k) (itemHome (2 ^ k) item) idx
      · obtain ⟨hc', hd⟩ := hc.exchange hT hlt
        have hset : slotAt (entries.set idx (.full item)) =
            Function.update (slotAt entries) idx (.full item) :=
          slotAt_set _ (by rw [hlen]; exact hc.lt)
        rw [← hset] at hc'
        obtain ⟨out, last, he, hl, hs, hp⟩ := ih (entries.set idx (.full item)) there _
          (by rw [List.length_set]; exact hlen) hc' (fun j hj hw x hx => by
            obtain ⟨hji, hw'⟩ := window_next hc.lt hj hc.free.lt hne hw
            rw [hset, Function.update_of_ne hji] at hx
            exact hkey j hj hw' x hx) (by omega)
        rw [hset] at hp
        rw [hset, Function.update_of_ne (Ne.symm hne)] at hs
        rw [hd] at he
        refine ⟨out, last, ?_, hl, hs, hp.of_exchange hc.lt hT⟩
        rw [if_pos hlt]
        exact he
      · obtain ⟨hc', hd⟩ := hc.pass hT (by omega)
        obtain ⟨out, last, he, hl, hs, hp⟩ := ih entries item _ hlen hc'
          (fun j hj hw x hx => hkey j hj (window_next hc.lt hj hc.free.lt hne hw).2 x hx) (by omega)
        rw [hd] at he
        refine ⟨out, last, ?_, hl, hs, hp⟩
        rw [if_neg hlt]
        exact he
    | empty =>
      obtain rfl := arrived hc.free hc.lt (by rw [hT]; rfl)
      refine ⟨_, _, rfl, hlen, rfl, ?_⟩
      rw [slotAt_set _ (by rw [hlen]; exact hc.lt)]
      exact hc.place
    | deleted =>
      obtain rfl := arrived hc.free hc.lt (by rw [hT]; rfl)
      refine ⟨_, _, rfl, hlen, rfl, ?_⟩
      rw [slotAt_set _ (by rw [hlen]; exact hc.lt)]
      exact hc.place

private theorem closer_of_ne {i j : ℕ} {x : MHTItem V} (hi : i < 2 ^ k) (hj : j < 2 ^ k)
    (hle : cdist (2 ^ k) (itemHome (2 ^ k) x) j ≤ cdist (2 ^ k) (itemHome (2 ^ k) x) i)
    (hne : j ≠ i) :
    cdist (2 ^ k) (itemHome (2 ^ k) x) j < cdist (2 ^ k) (itemHome (2 ^ k) x) i :=
  lt_of_le_of_ne hle fun he => hne (cdist_inj (desiredPos_lt x.hash k) hj hi he)

/-- The next slot on the way to the key. -/
private theorem toward_key {i j : ℕ} {x : MHTItem V} (hi : i < 2 ^ k) (hj : j < 2 ^ k)
    (hlt : cdist (2 ^ k) (itemHome (2 ^ k) x) j < cdist (2 ^ k) (itemHome (2 ^ k) x) i) :
    cdist (2 ^ k) (itemHome (2 ^ k) x) (cnext (2 ^ k) j) =
        cdist (2 ^ k) (itemHome (2 ^ k) x) j + 1 ∧
      cdist (2 ^ k) (itemHome (2 ^ k) x) (cnext (2 ^ k) j) ≤
        cdist (2 ^ k) (itemHome (2 ^ k) x) i := by
  have hh : itemHome (2 ^ k) x < 2 ^ k := desiredPos_lt x.hash k
  have hne : cnext (2 ^ k) j ≠ itemHome (2 ^ k) x := by
    intro he
    rw [← he] at hlt
    unfold cnext cdist at hlt
    split_ifs at hlt <;> omega
  have := cdist_cnext hh hne
  omega

section Present

variable {entries : List (MHTEntry V)} {i : ℕ} {x : MHTItem V}
  (hord : Ordered (2 ^ k) (itemHome (2 ^ k)) (slotAt entries))
  (hdis : Distinct (2 ^ k) MHTItem.key (slotAt entries)) (hi : i < 2 ^ k)
  (hx : slotAt entries i = .full x)

include hord hdis hi hx

/-- Before it reaches the key, a walk from home meets neither the key nor an item closer to
home. -/
private theorem before_key {j : ℕ} (hj : j < 2 ^ k) {y : MHTItem V}
    (hy : slotAt entries j = .full y)
    (hlt : cdist (2 ^ k) (itemHome (2 ^ k) x) j < cdist (2 ^ k) (itemHome (2 ^ k) x) i) :
    y.key ≠ x.key ∧
      cdist (2 ^ k) (itemHome (2 ^ k) x) j ≤ cdist (2 ^ k) (itemHome (2 ^ k) y) j := by
  refine ⟨fun hk => ?_, (hord i hi x hx j hj hlt).2 y hy⟩
  have := hdis j hj i hi y x hy hx hk
  subst this
  exact absurd hlt (lt_irrefl _)

/-- The search finds a key that is in the table. -/
theorem mhtSearch_found :
    ∀ r idx, idx < 2 ^ k → cdist (2 ^ k) (itemHome (2 ^ k) x) idx ≤
        cdist (2 ^ k) (itemHome (2 ^ k) x) i →
      cdist (2 ^ k) (itemHome (2 ^ k) x) i < cdist (2 ^ k) (itemHome (2 ^ k) x) idx + r →
      mhtSearch entries (2 ^ k) x.key x.hash r idx (cdist (2 ^ k) (itemHome (2 ^ k) x) idx) =
        some i := by
  intro r
  induction r with
  | zero =>
    intro idx _ h1 h2
    omega
  | succ r ih =>
    intro idx hidx h1 h2
    unfold mhtSearch
    by_cases hii : idx = i
    · subst hii
      simp [hx]
    · have hlt := closer_of_ne hi hidx h1 hii
      obtain ⟨hn, hle⟩ := toward_key hi hidx hlt
      have hrest := ih (cnext (2 ^ k) idx) (cnext_lt hidx) hle (by omega)
      rw [hn] at hrest
      simp only [nextIdx_eq hidx]
      cases hT : slotAt entries idx with
      | empty => exact absurd hT (hord i hi x hx idx hidx hlt).1
      | deleted => exact hrest
      | full there =>
        obtain ⟨hk, hd⟩ := before_key hord hdis hi hx hidx hT hlt
        rw [← probeDistance_eq there] at hd
        dsimp only
        rw [if_neg (fun h => hk h.2), if_neg (not_lt.mpr hd)]
        exact hrest

/-- An insertion meets a key that is in the table, if no slot on its way is without an item. -/
theorem mhtInsertLoop_met (item : MHTItem V)
    (hfull : ∀ j < 2 ^ k, cdist (2 ^ k) (itemHome (2 ^ k) x) j <
      cdist (2 ^ k) (itemHome (2 ^ k) x) i → (slotAt entries j).isFull = true) :
    ∀ fuel idx, idx < 2 ^ k → cdist (2 ^ k) (itemHome (2 ^ k) x) idx ≤
        cdist (2 ^ k) (itemHome (2 ^ k) x) i →
      cdist (2 ^ k) (itemHome (2 ^ k) x) i < cdist (2 ^ k) (itemHome (2 ^ k) x) idx + fuel →
      mhtInsertLoop (2 ^ k) x.key fuel entries item x.hash idx
        (cdist (2 ^ k) (itemHome (2 ^ k) x) idx) = some (entries, none) := by
  intro fuel
  induction fuel with
  | zero =>
    intro idx _ h1 h2
    omega
  | succ fuel ih =>
    intro idx hidx h1 h2
    unfold mhtInsertLoop
    by_cases hii : idx = i
    · subst hii
      simp [hx]
    · have hlt := closer_of_ne hi hidx h1 hii
      obtain ⟨hn, hle⟩ := toward_key hi hidx hlt
      have hrest := ih (cnext (2 ^ k) idx) (cnext_lt hidx) hle (by omega)
      rw [hn] at hrest
      have hf := hfull idx hidx hlt
      cases hT : slotAt entries idx with
      | empty =>
        rw [hT] at hf
        exact Bool.noConfusion hf
      | deleted =>
        rw [hT] at hf
        exact Bool.noConfusion hf
      | full there =>
        obtain ⟨hk, hd⟩ := before_key hord hdis hi hx hidx hT hlt
        rw [← probeDistance_eq there] at hd
        simp only [nextIdx_eq hidx]
        rw [if_neg (fun h => hk h.2), if_neg (not_lt.mpr hd)]
        exact hrest

end Present

/-- The search reports a key that no slot holds as missing. -/
theorem mhtSearch_missing {entries : List (MHTEntry V)} {key : CString} {hash : UInt32}
    (h : Fresh (2 ^ k) MHTItem.key (slotAt entries) key) :
    ∀ r idx dist, idx < 2 ^ k → mhtSearch entries (2 ^ k) key hash r idx dist = none := by
  intro r
  induction r with
  | zero =>
    intro idx dist _
    rfl
  | succ r ih =>
    intro idx dist hidx
    have hrest := ih (cnext (2 ^ k) idx) (dist + 1) (cnext_lt hidx)
    unfold mhtSearch
    simp only [nextIdx_eq hidx]
    cases hT : slotAt entries idx with
    | empty => rfl
    | deleted => exact hrest
    | full there =>
      dsimp only
      rw [if_neg (fun hc => h idx hidx there hT hc.2)]
      split_ifs
      · rfl
      · exact hrest

end Loops

end Umm
