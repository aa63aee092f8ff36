import Mathlib.Tactic

/-! Write-back caches of several nodes over one medium, page by page: what a node sees, and when
it sees what another node wrote. -/
namespace Umm.Lib

/-- A page in a cache. It is dirty while the medium does not have its content. -/
structure Frame (β : Type*) where
  content : β
  dirty : Bool

/-- The content of a page for a node with the frame `p`, where the medium has `m`. -/
def seen {β : Type*} (m : β) (p : Option (Frame β)) : β := (p.map Frame.content).getD m

/-- What can happen to one page of one cache. -/
inductive CacheOp (ν κ β : Type*) where
  | load (n : ν) (k : κ)
  | write (n : ν) (k : κ) (f : β → β)
  | writeback (n : ν) (k : κ)
  | evict (n : ν) (k : κ)
  | drop (n : ν) (k : κ)

namespace CacheOp

variable {ν κ β : Type*}

def node : CacheOp ν κ β → ν
  | load n _ | write n _ _ | writeback n _ | evict n _ | drop n _ => n

def page : CacheOp ν κ β → κ
  | load _ k | write _ k _ | writeback _ k | evict _ k | drop _ k => k

/-- The operation does not write the page. -/
def Quiet (k : κ) : CacheOp ν κ β → Prop
  | write _ k' _ => k' ≠ k
  | load _ _ | writeback _ _ | evict _ _ | drop _ _ => True

/-- The page on the medium and in the cache of the node afterwards. A clean page is not written
back, a dirty one not evicted, and one that is cached not loaded again. A page that is dropped
loses its changes. -/
def effect (m : β) (p : Option (Frame β)) : CacheOp ν κ β → β × Option (Frame β)
  | load _ _ => (m, some (p.getD ⟨m, false⟩))
  | write _ _ f => (m, some ⟨f (seen m p), true⟩)
  | writeback _ _ =>
    match p with
    | some ⟨v, true⟩ => (v, some ⟨v, false⟩)
    | some ⟨v, false⟩ => (m, some ⟨v, false⟩)
    | none => (m, none)
  | evict _ _ =>
    match p with
    | some ⟨v, true⟩ => (m, some ⟨v, true⟩)
    | some ⟨_, false⟩ | none => (m, none)
  | drop _ _ => (m, none)

end CacheOp

/-- The nodes `ν` cache the pages `κ` of one medium. -/
structure Caches (ν κ β : Type*) where
  medium : κ → β
  frame : ν → κ → Option (Frame β)

namespace Caches

variable {ν κ β : Type*} [DecidableEq ν] [DecidableEq κ]

def view (c : Caches ν κ β) (n : ν) (k : κ) : β := seen (c.medium k) (c.frame n k)

def apply (c : Caches ν κ β) (op : CacheOp ν κ β) : Caches ν κ β :=
  let after := op.effect (c.medium op.page) (c.frame op.node op.page)
  { medium := Function.update c.medium op.page after.1
    frame := Function.update c.frame op.node
      (Function.update (c.frame op.node) op.page after.2) }

def run (c : Caches ν κ β) (ops : List (CacheOp ν κ β)) : Caches ν κ β := ops.foldl apply c

/-- No other node than `w` has changes to the page that are not on the medium. -/
def Sole (c : Caches ν κ β) (w : ν) (k : κ) : Prop :=
  ∀ n ≠ w, ∀ p, c.frame n k = some p → p.dirty = false

/-- Only the owner of a page may have it dirty, and what the owner has clean is on the medium. -/
structure Owned (c : Caches ν κ β) (w : ν) (k : κ) : Prop where
  others : c.Sole w k
  clean : ∀ v, c.frame w k = some ⟨v, false⟩ → v = c.medium k

/-- No node has changes to the page that are not on the medium. -/
def Settled (c : Caches ν κ β) (k : κ) : Prop := ∀ n p, c.frame n k = some p → p.dirty = false

/-- What the node sees of the page is what the medium has. -/
def Fresh (c : Caches ν κ β) (n : ν) (k : κ) : Prop :=
  ∀ p, c.frame n k = some p → p.content = c.medium k

variable {c : Caches ν κ β} {n w r : ν} {k : κ} {op : CacheOp ν κ β}
  {l l' : List (CacheOp ν κ β)}

@[simp] theorem run_nil : c.run [] = c := rfl

@[simp] theorem run_cons : c.run (op :: l) = (c.apply op).run l := rfl

theorem run_append : c.run (l ++ l') = (c.run l).run l' := List.foldl_append

/-! One operation, on its page and on the others. -/

theorem apply_medium_other (hk : op.page ≠ k) : (c.apply op).medium k = c.medium k :=
  Function.update_of_ne hk.symm _ _

theorem apply_frame_other (h : op.node ≠ n ∨ op.page ≠ k) :
    (c.apply op).frame n k = c.frame n k := by
  simp only [apply]
  by_cases hn : n = op.node
  · subst hn
    rw [Function.update_self, Function.update_of_ne (h.resolve_left (by simp)).symm]
  · rw [Function.update_of_ne hn]

theorem apply_medium_page (hk : op.page = k) :
    (c.apply op).medium k = (op.effect (c.medium k) (c.frame op.node k)).1 := by
  subst hk
  exact Function.update_self _ _ _

theorem apply_frame_page (hn : op.node = n) (hk : op.page = k) :
    (c.apply op).frame n k = (op.effect (c.medium k) (c.frame n k)).2 := by
  subst hn hk
  simp only [apply, Function.update_self]

theorem view_other (hk : op.page ≠ k) : (c.apply op).view n k = c.view n k := by
  unfold view
  rw [apply_frame_other (Or.inr hk), apply_medium_other hk]

omit [DecidableEq ν] [DecidableEq κ] in
/-- What an operation that writes nothing can make of its page: nothing; the frame goes, and
changes with it only when it is dropped; the page is loaded; it is written back. -/
theorem effect_cases (hq : op.Quiet op.page) (m : β) (p : Option (Frame β)) :
    op.effect m p = (m, p) ∨
    (op.effect m p = (m, none) ∧
      (op = .drop op.node op.page ∨ ∀ q, p = some q → q.dirty = false)) ∨
    (p = none ∧ op.effect m p = (m, some ⟨m, false⟩)) ∨
    ∃ v, p = some ⟨v, true⟩ ∧ op.effect m p = (v, some ⟨v, false⟩) := by
  cases op with
  | load n k =>
    cases p with
    | none => exact Or.inr (Or.inr (Or.inl ⟨rfl, rfl⟩))
    | some p => exact Or.inl rfl
  | write n k f => exact absurd rfl hq
  | writeback n k =>
    match p with
    | none | some ⟨_, false⟩ => exact Or.inl rfl
    | some ⟨v, true⟩ => exact Or.inr (Or.inr (Or.inr ⟨v, rfl, rfl⟩))
  | evict n k =>
    match p with
    | none | some ⟨_, true⟩ => exact Or.inl rfl
    | some ⟨v, false⟩ =>
      refine Or.inr (Or.inl ⟨rfl, Or.inr fun q hq => ?_⟩)
      obtain rfl := Option.some.inj hq
      rfl
  | drop n k => exact Or.inr (Or.inl ⟨rfl, Or.inl rfl⟩)

/-- The operations of `w`, and those of others that do not write, leave the page to `w`. -/
theorem Sole.apply (h : c.Sole w k) (hop : op.Quiet k ∨ op.node = w) : (c.apply op).Sole w k := by
  intro n hn p hp
  by_cases hother : op.node ≠ n ∨ op.page ≠ k
  · rw [apply_frame_other hother] at hp
    exact h n hn p hp
  push Not at hother
  obtain ⟨rfl, rfl⟩ := hother
  rw [apply_frame_page rfl rfl] at hp
  rcases effect_cases (hop.resolve_right hn) (c.medium op.page) (c.frame op.node op.page) with
    he | ⟨he, -⟩ | ⟨-, he⟩ | ⟨v, hv, -⟩
  · rw [he] at hp
    exact h _ hn p hp
  · rw [he] at hp
    cases hp
  · rw [he] at hp
    obtain rfl := Option.some.inj hp
    rfl
  · exact absurd (h _ hn _ hv) (by simp)

theorem Owned.apply_other (h : c.Owned w k) (hop : op.Quiet k ∨ op.node = w) (hk : op.page ≠ k) :
    (c.apply op).Owned w k := by
  refine ⟨h.others.apply hop, fun v hv => ?_⟩
  rw [apply_frame_other (Or.inr hk)] at hv
  rw [apply_medium_other hk]
  exact h.clean v hv

/-- An operation that does not write the page leaves every frame of it clean that was. -/
theorem Owned.apply_quiet (h : c.Owned w op.page) (hq : op.Quiet op.page) :
    (c.apply op).Owned w op.page := by
  have hm : (c.apply op).medium op.page = _ := apply_medium_page rfl
  have hf : (c.apply op).frame op.node op.page = _ := apply_frame_page rfl rfl
  have hcases := effect_cases hq (c.medium op.page) (c.frame op.node op.page)
  refine ⟨h.others.apply (Or.inl hq), fun v hv => ?_⟩
  by_cases hnode : op.node = w
  · subst hnode
    rw [hf] at hv
    rw [hm]
    rcases hcases with he | ⟨he, -⟩ | ⟨-, he⟩ | ⟨u, -, he⟩
    · rw [he] at hv ⊢
      exact h.clean v hv
    · rw [he] at hv
      cases hv
    all_goals
      rw [he] at hv ⊢
      exact (Frame.mk.inj (Option.some.inj hv)).1.symm
  · rw [apply_frame_other (Or.inl hnode)] at hv
    rw [hm]
    rcases hcases with he | ⟨he, -⟩ | ⟨-, he⟩ | ⟨u, hu, -⟩
    · rw [he]
      exact h.clean v hv
    · rw [he]
      exact h.clean v hv
    · rw [he]
      exact h.clean v hv
    · exact absurd (h.others _ hnode _ hu) (by simp)

/-- What `w` has of a page once it has written it is dirty, whatever it was before. -/
theorem Sole.owned_write {f : β → β} (h : c.Sole w k) : (c.apply (.write w k f)).Owned w k := by
  have hf : (c.apply (.write w k f)).frame w k = some ⟨f (c.view w k), true⟩ :=
    apply_frame_page rfl rfl
  refine ⟨h.apply (Or.inr rfl), fun v hv => ?_⟩
  rw [hf] at hv
  simp at hv

/-- The owner's operations, and those of others that do not write, keep the page owned. -/
theorem Owned.apply (h : c.Owned w k) (hop : op.Quiet k ∨ op.node = w) : (c.apply op).Owned w k := by
  by_cases hk : op.page = k
  swap
  · exact h.apply_other hop hk
  subst hk
  by_cases hq : op.Quiet op.page
  · exact h.apply_quiet hq
  · obtain rfl := hop.resolve_left hq
    cases op with
    | write n j f => exact h.others.owned_write
    | load | writeback | evict | drop => exact absurd trivial hq

/-- The owner goes on seeing a page that nobody writes and that it does not drop. -/
theorem Owned.view_apply (h : c.Owned w k) (hq : op.Quiet k) (hkeep : op ≠ .drop w k) :
    (c.apply op).view w k = c.view w k := by
  by_cases hk : op.page = k
  swap
  · exact view_other hk
  subst hk
  unfold view
  rw [apply_medium_page rfl]
  have hcases := effect_cases hq (c.medium op.page) (c.frame op.node op.page)
  by_cases hnode : op.node = w
  · subst hnode
    rw [apply_frame_page rfl rfl]
    rcases hcases with he | ⟨he, hdrop | hclean⟩ | ⟨hp, he⟩ | ⟨v, hv, he⟩
    · rw [he]
    · exact absurd hdrop hkeep
    · rw [he]
      cases hp : c.frame op.node op.page with
      | none => rfl
      | some p =>
        obtain ⟨v, dirty⟩ := p
        obtain rfl : dirty = false := hclean _ hp
        exact (h.clean v hp).symm
    · rw [he, hp]
      rfl
    · rw [he, hv]
      rfl
  · rw [apply_frame_other (Or.inl hnode)]
    rcases hcases with he | ⟨he, -⟩ | ⟨-, he⟩ | ⟨v, hv, -⟩
    · rw [he]
    · rw [he]
    · rw [he]
    · exact absurd (h.others _ hnode _ hv) (by simp)

/-- While nobody writes a settled page, it stays settled, and the medium and what has been fresh
stay as they are. -/
theorem Settled.apply (h : c.Settled k) (hq : op.Quiet k) :
    (c.apply op).Settled k ∧ (c.apply op).medium k = c.medium k ∧
      ∀ n, c.Fresh n k → (c.apply op).Fresh n k := by
  by_cases hk : op.page = k
  swap
  · unfold Settled Fresh
    simp only [apply_frame_other (Or.inr hk), apply_medium_other hk]
    exact ⟨h, trivial, fun _ hf => hf⟩
  subst hk
  have hmedium : (c.apply op).medium op.page = c.medium op.page := by
    rw [apply_medium_page rfl]
    rcases effect_cases hq (c.medium op.page) (c.frame op.node op.page) with
      he | ⟨he, -⟩ | ⟨-, he⟩ | ⟨v, hv, -⟩
    · rw [he]
    · rw [he]
    · rw [he]
    · exact absurd (h _ _ hv) (by simp)
  have hframe : ∀ n p, (c.apply op).frame n op.page = some p →
      c.frame n op.page = some p ∨ p = ⟨c.medium op.page, false⟩ := by
    intro n p hp
    by_cases hnode : op.node = n
    · subst hnode
      rw [apply_frame_page rfl rfl] at hp
      rcases effect_cases hq (c.medium op.page) (c.frame op.node op.page) with
        he | ⟨he, -⟩ | ⟨-, he⟩ | ⟨v, hv, -⟩
      · rw [he] at hp
        exact Or.inl hp
      · rw [he] at hp
        cases hp
      · rw [he] at hp
        exact Or.inr (Option.some.inj hp).symm
      · exact absurd (h _ _ hv) (by simp)
    · rw [apply_frame_other (Or.inl hnode)] at hp
      exact Or.inl hp
  refine ⟨fun n p hp => ?_, hmedium, fun n hf p hp => ?_⟩
  · rcases hframe n p hp with hp | rfl
    · exact h n p hp
    · rfl
  · rw [hmedium]
    rcases hframe n p hp with hp | rfl
    · exact hf p hp
    · rfl

omit [DecidableEq ν] [DecidableEq κ] in
theorem Owned.fresh (h : c.Owned w k) (hs : c.Settled k) : c.Fresh w k := by
  rintro ⟨v, dirty⟩ hp
  obtain rfl : dirty = false := hs w _ hp
  exact h.clean v hp

omit [DecidableEq ν] [DecidableEq κ] in
theorem Fresh.view_eq (h : c.Fresh n k) : c.view n k = c.medium k := by
  unfold view
  cases hp : c.frame n k with
  | none => rfl
  | some p => exact h p hp

/-- The owner's changes reach the medium. -/
theorem Owned.settled_writeback (h : c.Owned w k) : (c.apply (.writeback w k)).Settled k := by
  intro n p hp
  by_cases hn : CacheOp.node (.writeback w k : CacheOp ν κ β) = n
  · obtain rfl : w = n := hn
    have hafter : (c.apply (.writeback w k)).frame w k = _ := apply_frame_page rfl rfl
    rw [hafter] at hp
    match hf : c.frame w k with
    | none =>
      rw [hf] at hp
      cases hp
    | some ⟨v, true⟩ | some ⟨v, false⟩ =>
      rw [hf] at hp
      obtain rfl := Option.some.inj hp
      rfl
  · rw [apply_frame_other (Or.inl hn)] at hp
    exact h.others n (Ne.symm hn) p hp

theorem fresh_drop : (c.apply (.drop r k)).Fresh r k := by
  have hgone : (c.apply (.drop r k)).frame r k = none := apply_frame_page rfl rfl
  intro p hp
  rw [hgone] at hp
  cases hp

/-! Runs, in which the operations of all nodes come in any order. -/

theorem Sole.run (h : c.Sole w k) (hops : ∀ op ∈ l, op.Quiet k ∨ op.node = w) :
    (c.run l).Sole w k := by
  induction l generalizing c with
  | nil => exact h
  | cons op l ih =>
    exact ih (h.apply (hops op List.mem_cons_self)) fun o ho => hops o (List.mem_cons_of_mem _ ho)

theorem Owned.run (h : c.Owned w k) (hops : ∀ op ∈ l, op.Quiet k ∨ op.node = w) :
    (c.run l).Owned w k := by
  induction l generalizing c with
  | nil => exact h
  | cons op l ih =>
    exact ih (h.apply (hops op List.mem_cons_self)) fun o ho => hops o (List.mem_cons_of_mem _ ho)

theorem Owned.view_run (h : c.Owned w k) (hq : ∀ op ∈ l, op.Quiet k)
    (hkeep : .drop w k ∉ l) : (c.run l).view w k = c.view w k := by
  induction l generalizing c with
  | nil => rfl
  | cons op l ih =>
    have hop := hq op List.mem_cons_self
    rw [List.mem_cons, not_or] at hkeep
    rw [run_cons, ih (h.apply (Or.inl hop)) (fun o ho => hq o (List.mem_cons_of_mem _ ho)) hkeep.2,
      h.view_apply hop (Ne.symm hkeep.1)]

theorem Settled.run (h : c.Settled k) (hq : ∀ op ∈ l, op.Quiet k) :
    (c.run l).Settled k ∧ (c.run l).medium k = c.medium k ∧
      ∀ n, c.Fresh n k → (c.run l).Fresh n k := by
  induction l generalizing c with
  | nil => exact ⟨h, rfl, fun _ hf => hf⟩
  | cons op l ih =>
    obtain ⟨hs, hm, hf⟩ := h.apply (hq op List.mem_cons_self)
    obtain ⟨hs', hm', hf'⟩ := ih hs fun o ho => hq o (List.mem_cons_of_mem _ ho)
    exact ⟨hs', hm'.trans hm, fun n hn => hf' n (hf n hn)⟩

theorem view_write {f : β → β} : (c.apply (.write n k f)).view n k = f (c.view n k) := by
  have hset : (c.apply (.write n k f)).frame n k = some ⟨f (c.view n k), true⟩ :=
    apply_frame_page rfl rfl
  rw [view, hset]
  rfl

/-- A node writes several pages, each once. -/
theorem view_run_writes {pages : List κ} (hnodup : pages.Nodup) (f : κ → β → β) :
    (c.run (pages.map fun p => .write n p (f p))).view n k =
      if k ∈ pages then f k (c.view n k) else c.view n k := by
  induction pages generalizing c with
  | nil => rfl
  | cons p pages ih =>
    obtain ⟨hp, hnodup⟩ := List.nodup_cons.mp hnodup
    rw [List.map_cons, run_cons, ih hnodup]
    by_cases hk : k = p
    · subst hk
      rw [if_neg hp, if_pos List.mem_cons_self, view_write]
    · have hother : (c.apply (.write n p (f p))).view n k = c.view n k := view_other (Ne.symm hk)
      rw [hother]
      exact if_congr (by rw [List.mem_cons, or_iff_right hk]) rfl rfl

/-- A part of a page that every write to the page sets to one value keeps it for the owner. -/
theorem Owned.part_run {γ : Type*} {g : β → γ} {x : γ} (h : c.Owned w k)
    (hops : ∀ op ∈ l, op.Quiet k ∨ ∃ f, op = .write w k f ∧ ∀ b, g (f b) = x)
    (hkeep : .drop w k ∉ l) (hpart : g (c.view w k) = x) : g ((c.run l).view w k) = x := by
  induction l generalizing c with
  | nil => exact hpart
  | cons op l ih =>
    rw [List.mem_cons, not_or] at hkeep
    have hrest := fun o ho => hops o (List.mem_cons_of_mem op ho)
    rcases hops op List.mem_cons_self with hq | ⟨f, rfl, hset⟩
    · refine ih (h.apply (Or.inl hq)) hrest hkeep.2 ?_
      rw [h.view_apply hq (Ne.symm hkeep.1)]
      exact hpart
    · refine ih (h.apply (Or.inr rfl)) hrest hkeep.2 ?_
      rw [view_write]
      exact hset _

/-- The first write of a page makes its writer the owner, and what every write sets is there in the
end. -/
theorem Sole.written {γ : Type*} {g : β → γ} {x : γ} (h : c.Sole w k)
    (hops : ∀ op ∈ l, op.Quiet k ∨ ∃ f, op = .write w k f ∧ ∀ b, g (f b) = x)
    (hkeep : .drop w k ∉ l) (hwrite : ∃ f, .write w k f ∈ l) :
    (c.run l).Owned w k ∧ g ((c.run l).view w k) = x := by
  have hmine : ∀ op ∈ l, op.Quiet k ∨ op.node = w := by
    intro op hop
    refine (hops op hop).imp_right ?_
    rintro ⟨f, rfl, -⟩
    rfl
  obtain ⟨f, hwrite⟩ := hwrite
  obtain ⟨front, back, rfl⟩ := List.append_of_mem hwrite
  have hsole := h.run (l := front) fun op hop => hmine op (List.mem_append_left _ hop)
  have hset : ∀ b, g (f b) = x := by
    obtain hq | ⟨f', hf', hset⟩ := hops (.write w k f) hwrite
    · exact absurd rfl hq
    · obtain rfl : f = f' := by injection hf'
      exact hset
  have hback : ∀ op ∈ back, op ∈ front ++ .write w k f :: back := fun op hop =>
    List.mem_append_right _ (List.mem_cons_of_mem _ hop)
  rw [run_append, run_cons]
  refine ⟨hsole.owned_write.run fun op hop => hmine op (hback op hop), ?_⟩
  refine hsole.owned_write.part_run (fun op hop => hops op (hback op hop))
    (fun hdrop => hkeep (hback _ hdrop)) ?_
  rw [view_write]
  exact hset _

/-- Written by one node, then written back, then dropped by a reader: whatever else happens
meanwhile, the reader sees what was written. -/
theorem Sole.published {γ : Type*} {g : β → γ} {x : γ} (h : c.Sole w k)
    {written synced dropped later : List (CacheOp ν κ β)}
    (hwrites : ∀ op ∈ written, op.Quiet k ∨ ∃ f, op = .write w k f ∧ ∀ b, g (f b) = x)
    (hwrite : ∃ f, .write w k f ∈ written)
    (hsynced : ∀ op ∈ synced, op.Quiet k) (hdropped : ∀ op ∈ dropped, op.Quiet k)
    (hlater : ∀ op ∈ later, op.Quiet k)
    (hkeep : .drop w k ∉ written ∧ .drop w k ∉ synced)
    (hback : .writeback w k ∈ synced) (hdrop : .drop r k ∈ dropped) :
    g ((c.run (written ++ synced ++ dropped ++ later)).view r k) = x := by
  obtain ⟨howned, hview⟩ := h.written hwrites hkeep.1 hwrite
  -- the page is settled from the write-back on
  have hsettled : ((c.run written).run synced).Settled k := by
    obtain ⟨front, back, rfl⟩ := List.append_of_mem hback
    rw [run_append, run_cons]
    have hfront := howned.run (l := front) fun op hop =>
      Or.inl (hsynced op (List.mem_append_left _ hop))
    exact (hfront.settled_writeback.run fun op hop =>
      hsynced op (List.mem_append_right _ (List.mem_cons_of_mem _ hop))).1
  have hmedium : g (((c.run written).run synced).medium k) = x := by
    have howned' := howned.run (l := synced) fun op hop => Or.inl (hsynced op hop)
    rw [← (howned'.fresh hsettled).view_eq, howned.view_run hsynced hkeep.2, hview]
  -- the reader is fresh from the drop on
  obtain ⟨front, back, rfl⟩ := List.append_of_mem hdrop
  obtain ⟨hs₁, hm₁, -⟩ := hsettled.run (l := front) fun op hop =>
    hdropped op (List.mem_append_left _ hop)
  obtain ⟨hs₂, hm₂, -⟩ := hs₁.apply (hdropped (.drop r k)
    (List.mem_append_right _ List.mem_cons_self))
  obtain ⟨hs₃, hm₃, hf₃⟩ := hs₂.run (l := back) fun op hop =>
    hdropped op (List.mem_append_right _ (List.mem_cons_of_mem _ hop))
  obtain ⟨-, hm₄, hf₄⟩ := hs₃.run (l := later) hlater
  rw [run_append, run_append, run_append, run_append, run_cons,
    (hf₄ r (hf₃ r fresh_drop)).view_eq, hm₄, hm₃, hm₂, hm₁, hmedium]

end Caches

end Umm.Lib
