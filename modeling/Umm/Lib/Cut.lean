import Mathlib.Data.List.TakeWhile

/-! Lists cut at a separator: at the first one, or at the last one. -/
namespace Umm.Lib

variable {α : Type*} {sep x : α} {xs piece : List α} {pieces : List (List α)}

theorem mem_intercalate (h : x ∈ [sep].intercalate pieces) :
    x = sep ∨ ∃ piece ∈ pieces, x ∈ piece := by
  induction pieces with
  | nil => cases h
  | cons piece pieces ih =>
    cases pieces with
    | nil =>
      rw [List.intercalate_singleton] at h
      exact Or.inr ⟨piece, List.mem_cons_self, h⟩
    | cons next pieces =>
      rw [List.intercalate_cons_cons, List.mem_append, List.mem_append, List.mem_singleton] at h
      obtain (h | h) | h := h
      · exact Or.inr ⟨piece, List.mem_cons_self, h⟩
      · exact Or.inl h
      · obtain hsep | ⟨other, hother, hx⟩ := ih h
        · exact Or.inl hsep
        · exact Or.inr ⟨other, List.mem_cons_of_mem _ hother, hx⟩

theorem mem_intercalate_of_mem (hp : piece ∈ pieces) (hx : x ∈ piece) :
    x ∈ [sep].intercalate pieces := by
  induction pieces with
  | nil => cases hp
  | cons first pieces ih =>
    cases pieces with
    | nil =>
      rw [List.mem_singleton.mp hp] at hx
      rw [List.intercalate_singleton]
      exact hx
    | cons next pieces =>
      rw [List.intercalate_cons_cons, List.mem_append, List.mem_append]
      obtain rfl | hp := List.mem_cons.mp hp
      · exact Or.inl (Or.inl hx)
      · exact Or.inr (ih hp)

variable [DecidableEq α] {front front' back back' : List α}

theorem takeWhile_cut (h : sep ∉ front) (back : List α) :
    (front ++ sep :: back).takeWhile (· ≠ sep) = front := by
  have hall : ∀ b ∈ front, decide (b ≠ sep) = true := fun b hb => decide_eq_true fun he => h (he ▸ hb)
  rw [List.takeWhile_append_of_pos hall, List.takeWhile_cons_of_neg (by simp), List.append_nil]

theorem dropWhile_cut (h : sep ∉ front) (back : List α) :
    (front ++ sep :: back).dropWhile (· ≠ sep) = sep :: back := by
  have hall : ∀ b ∈ front, decide (b ≠ sep) = true := fun b hb => decide_eq_true fun he => h (he ▸ hb)
  rw [List.dropWhile_append_of_pos hall, List.dropWhile_cons_of_neg (by simp)]

theorem dropWhile_uncut (h : sep ∉ front) : front.dropWhile (· ≠ sep) = [] :=
  List.dropWhile_eq_nil_iff.mpr fun _ hb => decide_eq_true fun he => h (he ▸ hb)

theorem takeWhile_uncut (h : sep ∉ front) : front.takeWhile (· ≠ sep) = front :=
  List.takeWhile_eq_self_iff.mpr fun _ hb => decide_eq_true fun he => h (he ▸ hb)

/-- The first separator cuts a list in one way only. -/
theorem cut_unique (h : sep ∉ front) (h' : sep ∉ front')
    (he : front ++ sep :: back = front' ++ sep :: back') : front = front' ∧ back = back' := by
  have htake := takeWhile_cut h back
  have hdrop := dropWhile_cut h back
  rw [he, takeWhile_cut h'] at htake
  rw [he, dropWhile_cut h'] at hdrop
  exact ⟨htake.symm, (List.cons.inj hdrop).2.symm⟩

/-- The parts before and after the last separator. -/
def cutLast (sep : α) : List α → Option (List α × List α)
  | [] => none
  | x :: xs =>
    match cutLast sep xs with
    | some (front, back) => some (x :: front, back)
    | none => if x = sep then some ([], xs) else none

theorem cutLast_eq_none : cutLast sep xs = none ↔ sep ∉ xs := by
  induction xs with
  | nil => exact ⟨fun _ => List.not_mem_nil, fun _ => rfl⟩
  | cons x xs ih =>
    unfold cutLast
    rw [List.mem_cons, not_or]
    cases hxs : cutLast sep xs with
    | some cut =>
      rw [hxs] at ih
      constructor
      · intro h
        cases h
      · rintro ⟨-, hno⟩
        cases ih.mpr hno
    | none =>
      have hno := ih.mp hxs
      dsimp only
      split_ifs with hx
      · constructor
        · intro h
          cases h
        · rintro ⟨hne, -⟩
          exact absurd hx.symm hne
      · exact ⟨fun _ => ⟨Ne.symm hx, hno⟩, fun _ => rfl⟩

theorem cutLast_eq_some :
    cutLast sep xs = some (front, back) ↔ xs = front ++ sep :: back ∧ sep ∉ back := by
  induction xs generalizing front with
  | nil =>
    constructor
    · intro h
      cases h
    · rintro ⟨he, -⟩
      exact absurd he.symm (List.append_ne_nil_of_right_ne_nil _ (List.cons_ne_nil _ _))
  | cons x xs ih =>
    unfold cutLast
    cases hxs : cutLast sep xs with
    | some cut =>
      obtain ⟨front', back'⟩ := cut
      dsimp only
      constructor
      · intro h
        obtain ⟨rfl, rfl⟩ := Prod.mk.inj (Option.some.inj h)
        obtain ⟨rfl, hno⟩ := ih.mp hxs
        exact ⟨rfl, hno⟩
      · rintro ⟨he, hno⟩
        cases front with
        | nil =>
          obtain ⟨rfl, rfl⟩ := List.cons.inj he
          rw [cutLast_eq_none.mpr hno] at hxs
          cases hxs
        | cons y front =>
          obtain ⟨rfl, htail⟩ := List.cons.inj he
          rw [ih.mpr ⟨htail, hno⟩] at hxs
          obtain ⟨rfl, rfl⟩ := Prod.mk.inj (Option.some.inj hxs)
          rfl
    | none =>
      have hnone := cutLast_eq_none.mp hxs
      dsimp only
      constructor
      · intro h
        split_ifs at h with hx
        obtain ⟨rfl, rfl⟩ := Prod.mk.inj (Option.some.inj h)
        exact ⟨by rw [hx, List.nil_append], hnone⟩
      · rintro ⟨he, -⟩
        cases front with
        | nil =>
          obtain ⟨rfl, rfl⟩ := List.cons.inj he
          rw [if_pos rfl]
        | cons y front =>
          obtain ⟨-, rfl⟩ := List.cons.inj he
          exact absurd (List.mem_append_right _ List.mem_cons_self) hnone

/-- So does the last separator. -/
theorem cutLast_unique (h : sep ∉ back) (h' : sep ∉ back')
    (he : front ++ sep :: back = front' ++ sep :: back') : front = front' ∧ back = back' := by
  have hcut : cutLast sep (front ++ sep :: back) = some (front, back) := cutLast_eq_some.mpr ⟨rfl, h⟩
  rw [cutLast_eq_some.mpr ⟨he, h'⟩] at hcut
  obtain ⟨rfl, rfl⟩ := Prod.mk.inj (Option.some.inj hcut)
  exact ⟨rfl, rfl⟩

/-- The pieces between separators hold nothing new. -/
theorem mem_of_mem_splitOn (hp : piece ∈ xs.splitOn sep) (hx : x ∈ piece) : x ∈ xs := by
  have hjoin : [sep].intercalate (xs.splitOn sep) = xs := List.intercalate_splitOn sep
  rw [← hjoin]
  exact mem_intercalate_of_mem hp hx

theorem mem_splitOn (hx : x ∈ xs) : x = sep ∨ ∃ piece ∈ xs.splitOn sep, x ∈ piece := by
  have hjoin : [sep].intercalate (xs.splitOn sep) = xs := List.intercalate_splitOn sep
  rw [← hjoin] at hx
  exact mem_intercalate hx

end Umm.Lib
