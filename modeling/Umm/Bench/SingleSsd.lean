import Umm.Ppa.BatchLru
import Umm.Lib.Dict

/-! The read planning of `single_ssd.py`: the rows of a batch once each, in order, and the runs
of adjacent rows that one read takes. -/
namespace Umm
open Umm.Lib

def benchPage : ℤ := 4096

/-- A read of `count` rows from `start` on, into the output from row `dst` on. -/
structure ReadRun where
  start : ℤ
  dst : ℕ
  count : ℕ
deriving DecidableEq, Repr

structure ReadPlan where
  rows : List ℤ
  slots : List ℕ
  runs : List ReadRun
deriving DecidableEq, Repr

/-- The row joins the last run, or starts one of its own. -/
def addRow (merge : Bool) (maxRows : ℤ) (runs : List ReadRun) (row : ℤ) (pos : ℕ) :
    List ReadRun :=
  match runs.getLast? with
  | some last =>
    if merge = true ∧ row = last.start + last.count ∧ last.count < maxRows then
      runs.dropLast ++ [{ last with count := last.count + 1 }]
    else runs ++ [⟨row, pos, 1⟩]
  | none => runs ++ [⟨row, pos, 1⟩]

def planRuns (merge : Bool) (maxRows : ℤ) (rows : List ℤ) : List ReadRun :=
  rows.zipIdx.foldl (fun runs entry => addRow merge maxRows runs entry.1 entry.2) []

/-- The position of each row. -/
def rowLookup (rows : List ℤ) : Dict ℤ ℕ := dictOf rows.zipIdx

/-- `none` is a row that the dictionary does not have. -/
def planRows (indices : List ℤ) (base : ℤ) (merge : Bool) (maxRead : ℤ) : Option ReadPlan := do
  let rows := BatchLru.sorted (indices.map fun t => base + t)
  let slots ← indices.mapM fun t => (rowLookup rows).lookup (base + t)
  return ⟨rows, slots, planRuns merge (maxRead / benchPage) rows⟩

namespace ReadRun

def rows (run : ReadRun) : List ℤ := (List.range run.count).map fun (k : ℕ) => run.start + k

def slots (run : ReadRun) : List ℕ := List.range' run.dst run.count

/-- The run goes on where this one ends. -/
def Meets (run next : ReadRun) : Prop := next.start = run.start + run.count

theorem rows_grow (run : ReadRun) :
    ({ run with count := run.count + 1 } : ReadRun).rows =
      run.rows ++ [run.start + run.count] := by
  simp [rows, List.range_succ]

theorem slots_grow (run : ReadRun) :
    ({ run with count := run.count + 1 } : ReadRun).slots = run.slots ++ [run.dst + run.count] := by
  simp [slots, List.range'_concat]

end ReadRun

/-- The most rows that a run may take. -/
def runLimit (merge : Bool) (maxRows : ℤ) : ℤ := if merge then maxRows else 1

/-- The runs split `rows` into stretches of consecutive rows, each as long as it may be. -/
structure SplitInto (merge : Bool) (maxRows : ℤ) (rows : List ℤ) (runs : List ReadRun) :
    Prop where
  covers : ∀ run ∈ runs, ∀ k < run.count, rows[run.dst + k]? = some (run.start + k)
  allRows : runs.flatMap ReadRun.rows = rows
  allSlots : runs.flatMap ReadRun.slots = List.range rows.length
  counts : ∀ run ∈ runs, 0 < run.count ∧ run.count ≤ runLimit merge maxRows
  adjacent : runs.IsChain fun run next => run.Meets next → run.count = maxRows ∨ merge = false

section Step

variable {merge : Bool} {maxRows row : ℤ} {rows : List ℤ} {runs : List ReadRun} {last : ReadRun}

@[simp] theorem addRow_nil (pos : ℕ) :
    addRow merge maxRows [] row pos = [⟨row, pos, 1⟩] := rfl

theorem addRow_concat (pos : ℕ) :
    addRow merge maxRows (runs ++ [last]) row pos =
      if merge = true ∧ row = last.start + last.count ∧ last.count < maxRows then
        runs ++ [{ last with count := last.count + 1 }]
      else runs ++ [last] ++ [⟨row, pos, 1⟩] := by
  unfold addRow
  rw [List.getLast?_concat, List.dropLast_concat]

theorem one_le_runLimit (h : 1 ≤ maxRows) : 1 ≤ runLimit merge maxRows := by
  unfold runLimit
  split_ifs <;> omega

theorem covers_concat {run : ReadRun}
    (h : ∀ k < run.count, rows[run.dst + k]? = some (run.start + k)) :
    ∀ k < run.count, (rows ++ [row])[run.dst + k]? = some (run.start + k) := by
  intro k hk
  have hin := h k hk
  rwa [List.getElem?_append_left (List.getElem?_eq_some_iff.mp hin).1]

/-- The last run ends where the rows end. -/
theorem SplitInto.last_end (h : SplitInto merge maxRows rows (runs ++ [last])) :
    last.dst + last.count = rows.length := by
  have hall := congrArg List.getLast? h.allSlots
  have hpos := (h.counts last (by simp)).1
  have hne : last.slots ≠ [] := by
    simp [ReadRun.slots, hpos.ne']
  rw [List.flatMap_append, List.flatMap_singleton, List.getLast?_append_of_ne_nil _ hne] at hall
  obtain ⟨n, hn⟩ : ∃ n, last.count = n + 1 := ⟨last.count - 1, by omega⟩
  have hlen : rows.length ≠ 0 := by
    intro hz
    have hcov := h.covers last (by simp) 0 hpos
    rw [List.eq_nil_of_length_eq_zero hz] at hcov
    cases hcov
  obtain ⟨m, hm⟩ : ∃ m, rows.length = m + 1 := ⟨rows.length - 1, by omega⟩
  rw [ReadRun.slots, hn, hm, List.range'_concat, List.range_succ, List.getLast?_concat,
    List.getLast?_concat] at hall
  have := Option.some.inj hall
  omega

/-- The last run takes the next row. -/
theorem SplitInto.grow (h : SplitInto merge maxRows rows (runs ++ [last])) (hm : merge = true)
    (hrow : row = last.start + last.count) (hroom : last.count < maxRows) :
    SplitInto merge maxRows (rows ++ [row])
      (runs ++ [{ last with count := last.count + 1 }]) := by
  have hend := h.last_end
  have hin : last ∈ runs ++ [last] := by simp
  constructor
  · intro run hrun
    rcases List.mem_append.mp hrun with hrun | hrun
    · exact covers_concat (h.covers run (List.mem_append_left _ hrun))
    · obtain rfl := List.mem_singleton.mp hrun
      intro k hk
      dsimp only at hk ⊢
      rcases Nat.lt_succ_iff_lt_or_eq.mp hk with hk | rfl
      · exact covers_concat (h.covers last hin) k hk
      · rw [hend, List.getElem?_concat_length, hrow]
  · rw [List.flatMap_append, List.flatMap_singleton, ReadRun.rows_grow, ← List.append_assoc, hrow,
      ← h.allRows, List.flatMap_append, List.flatMap_singleton]
  · rw [List.flatMap_append, List.flatMap_singleton, ReadRun.slots_grow, ← List.append_assoc, hend,
      List.length_append, List.length_singleton, List.range_succ, ← h.allSlots,
      List.flatMap_append, List.flatMap_singleton]
  · intro run hrun
    rcases List.mem_append.mp hrun with hrun | hrun
    · exact h.counts run (List.mem_append_left _ hrun)
    · obtain rfl := List.mem_singleton.mp hrun
      rw [runLimit, if_pos hm]
      dsimp only
      omega
  · have hchain := h.adjacent
    rw [List.isChain_append] at hchain ⊢
    refine ⟨hchain.1, List.isChain_singleton _, ?_⟩
    intro run hrun next hnext
    obtain rfl := Option.some.inj hnext
    exact hchain.2.2 run hrun last rfl

/-- The next row starts a run where it may not join the last one. -/
theorem SplitInto.start (h : SplitInto merge maxRows rows runs) (hlimit : 1 ≤ maxRows)
    (hstop : ∀ last ∈ runs.getLast?, last.Meets ⟨row, rows.length, 1⟩ →
      last.count = maxRows ∨ merge = false) :
    SplitInto merge maxRows (rows ++ [row]) (runs ++ [⟨row, rows.length, 1⟩]) := by
  have hone : ReadRun.rows ⟨row, rows.length, 1⟩ = [row] := by simp [ReadRun.rows]
  have hslot : ReadRun.slots ⟨row, rows.length, 1⟩ = [rows.length] := by simp [ReadRun.slots]
  constructor
  · intro run hrun
    rcases List.mem_append.mp hrun with hrun | hrun
    · exact covers_concat (h.covers run hrun)
    · obtain rfl := List.mem_singleton.mp hrun
      intro k hk
      obtain rfl : k = 0 := Nat.lt_one_iff.mp hk
      simp
  · rw [List.flatMap_append, List.flatMap_singleton, hone, h.allRows]
  · rw [List.flatMap_append, List.flatMap_singleton, hslot, h.allSlots, List.length_append,
      List.length_singleton, List.range_succ]
  · intro run hrun
    rcases List.mem_append.mp hrun with hrun | hrun
    · exact h.counts run hrun
    · obtain rfl := List.mem_singleton.mp hrun
      exact ⟨Nat.one_pos, by exact_mod_cast one_le_runLimit hlimit⟩
  · rw [List.isChain_append]
    refine ⟨h.adjacent, List.isChain_singleton _, ?_⟩
    intro run hrun next hnext
    obtain rfl := Option.some.inj hnext
    exact hstop run hrun

theorem SplitInto.addRow (h : SplitInto merge maxRows rows runs) (hlimit : 1 ≤ maxRows) :
    SplitInto merge maxRows (rows ++ [row]) (Umm.addRow merge maxRows runs row rows.length) := by
  rcases List.eq_nil_or_concat runs with rfl | ⟨init, last, rfl⟩
  · exact h.start hlimit (by simp)
  · rw [List.concat_eq_append] at h ⊢
    rw [addRow_concat]
    split_ifs with hjoin
    · obtain ⟨hm, hrow, hroom⟩ := hjoin
      exact h.grow hm hrow hroom
    · refine h.start hlimit fun run hrun hmeets => ?_
      rw [List.getLast?_concat] at hrun
      obtain rfl := Option.some.inj hrun
      cases hm : merge with
      | false => exact .inr rfl
      | true =>
        have hle := (h.counts last (by simp)).2
        rw [runLimit, if_pos hm] at hle
        have hfull : ¬ last.count < maxRows := fun hroom => hjoin ⟨hm, hmeets, hroom⟩
        left
        omega

end Step

theorem planRuns_concat (merge : Bool) (maxRows : ℤ) (rows : List ℤ) (row : ℤ) :
    planRuns merge maxRows (rows ++ [row]) =
      addRow merge maxRows (planRuns merge maxRows rows) row rows.length := by
  unfold planRuns
  rw [List.zipIdx_append, List.foldl_append]
  simp

/-- The pass over any rows. -/
theorem planRuns_split {merge : Bool} {maxRows : ℤ} (hlimit : 1 ≤ maxRows) (rows : List ℤ) :
    SplitInto merge maxRows rows (planRuns merge maxRows rows) := by
  induction rows using List.reverseRecOn with
  | nil => exact ⟨by simp [planRuns], rfl, rfl, by simp [planRuns], List.isChain_nil⟩
  | append_singleton rows row ih =>
    rw [planRuns_concat]
    exact ih.addRow hlimit

/-! The dictionary. -/

theorem rowLookup_eq {rows : List ℤ} {row : ℤ} (h : row ∈ rows) :
    ∃ slot, (rowLookup rows).lookup row = some slot ∧ rows[slot]? = some row := by
  obtain ⟨slot, hslot⟩ := List.mem_iff_getElem?.mp h
  have hsome : ((rowLookup rows).lookup row).isSome :=
    lookup_dictOf_isSome.mpr ⟨slot, List.mem_zipIdx_iff_getElem?.mpr hslot⟩
  obtain ⟨last, hlast⟩ := Option.isSome_iff_exists.mp hsome
  exact ⟨last, hlast, List.mem_zipIdx_iff_getElem?.mp (mem_of_lookup_dictOf hlast)⟩

theorem mapM_rowLookup {rows : List ℤ} (indices : List ℤ) {base : ℤ}
    (h : ∀ t ∈ indices, base + t ∈ rows) :
    ∃ slots, indices.mapM (fun t => (rowLookup rows).lookup (base + t)) = some slots ∧
      List.Forall₂ (fun t slot => rows[slot]? = some (base + t)) indices slots := by
  induction indices with
  | nil => exact ⟨[], rfl, .nil⟩
  | cons t rest ih =>
    obtain ⟨slot, hslot, hrow⟩ := rowLookup_eq (h t List.mem_cons_self)
    obtain ⟨slots, hslots, hall⟩ := ih fun t ht => h t (List.mem_cons_of_mem _ ht)
    refine ⟨slot :: slots, ?_, .cons hrow hall⟩
    simp [hslot, hslots]

theorem pairwise_sorted (tokens : List ℤ) : (BatchLru.sorted tokens).Pairwise (· < ·) := by
  rw [BatchLru.sorted_eq]
  exact Finset.sortedLT_sort _ |>.pairwise

theorem mem_sorted {tokens : List ℤ} {t : ℤ} : t ∈ BatchLru.sorted tokens ↔ t ∈ tokens := by
  rw [BatchLru.sorted_eq, Finset.mem_sort, List.mem_toFinset]

/-- A plan takes each row asked for once, in order, and each index finds its row. -/
structure ReadPlan.Exact (plan : ReadPlan) (indices : List ℤ) (base : ℤ) (merge : Bool)
    (maxRows : ℤ) : Prop where
  increasing : plan.rows.Pairwise (· < ·)
  asked : ∀ row, row ∈ plan.rows ↔ ∃ t ∈ indices, base + t = row
  split : SplitInto merge maxRows plan.rows plan.runs
  found : List.Forall₂ (fun t slot => plan.rows[slot]? = some (base + t)) indices plan.slots

/-! What the reads of a plan leave in the output. -/

section Reads

variable {β : Type}

/-- One read, whose rows are copied into the output. -/
def readRun (device : ℤ → β) (output : ℕ → β) (run : ReadRun) : ℕ → β := fun slot =>
  if run.dst ≤ slot ∧ slot < run.dst + run.count then device (run.start + (slot - run.dst : ℕ))
  else output slot

theorem SplitInto.reads_row {merge : Bool} {maxRows : ℤ} {rows : List ℤ} {runs : List ReadRun}
    (h : SplitInto merge maxRows rows runs) {slot : ℕ} {row : ℤ} (hrow : rows[slot]? = some row)
    (device : ℤ → β) {run : ReadRun} (hrun : run ∈ runs) (output : ℕ → β) :
    readRun device output run slot = device row ∨
      readRun device output run slot = output slot ∧ slot ∉ run.slots := by
  unfold readRun
  split_ifs with hin
  · have hcov := h.covers run hrun (slot - run.dst) (by omega)
    rw [Nat.add_sub_cancel' hin.1, hrow] at hcov
    rw [Option.some.inj hcov]
    exact .inl rfl
  · refine .inr ⟨rfl, fun hslot => hin ?_⟩
    rw [ReadRun.slots, List.mem_range'_1] at hslot
    exact hslot

/-- A slot that has its row, or is read by one of the runs that are left, has it in the end. -/
theorem SplitInto.foldl_readRun {merge : Bool} {maxRows : ℤ} {rows : List ℤ} {runs : List ReadRun}
    (h : SplitInto merge maxRows rows runs) {slot : ℕ} {row : ℤ} (hrow : rows[slot]? = some row)
    (device : ℤ → β) {left : List ReadRun} {output : ℕ → β} (hin : ∀ run ∈ left, run ∈ runs)
    (hready : output slot = device row ∨ ∃ run ∈ left, slot ∈ run.slots) :
    left.foldl (readRun device) output slot = device row := by
  induction left generalizing output with
  | nil =>
    rcases hready with hout | ⟨run, hrun, -⟩
    · exact hout
    · cases hrun
  | cons run left ih =>
    refine ih (fun run hrun => hin run (List.mem_cons_of_mem _ hrun)) ?_
    rcases h.reads_row hrow device (hin run List.mem_cons_self) output with hread | ⟨hkeep, hnot⟩
    · exact .inl hread
    · rcases hready with hout | ⟨run', hrun', hslot⟩
      · exact .inl (hkeep.trans hout)
      · rcases List.mem_cons.mp hrun' with rfl | hrun'
        · exact absurd hslot hnot
        · exact .inr ⟨run', hrun', hslot⟩

/-- In whatever order the reads end, the output has every row in its slot. -/
theorem SplitInto.output {merge : Bool} {maxRows : ℤ} {rows : List ℤ} {runs order : List ReadRun}
    (h : SplitInto merge maxRows rows runs) (horder : order.Perm runs) (device : ℤ → β)
    (output : ℕ → β) {slot : ℕ} {row : ℤ} (hrow : rows[slot]? = some row) :
    order.foldl (readRun device) output slot = device row := by
  have hslot : slot ∈ runs.flatMap ReadRun.slots := by
    rw [h.allSlots, List.mem_range]
    exact (List.getElem?_eq_some_iff.mp hrow).1
  obtain ⟨run, hrun, hcov⟩ := List.mem_flatMap.mp hslot
  exact h.foldl_readRun hrow device (fun run hrun => horder.mem_iff.mp hrun)
    (.inr ⟨run, horder.mem_iff.mpr hrun, hcov⟩)

/-- The rows put back into the order of the indices, repetitions included. -/
def orderedOutput (output : ℕ → β) (slots : List ℕ) : List β := slots.map output

theorem ReadPlan.Exact.orderedOutput {plan : ReadPlan} {indices : List ℤ} {base maxRows : ℤ}
    {merge : Bool} (h : plan.Exact indices base merge maxRows) {order : List ReadRun}
    (horder : order.Perm plan.runs) (device : ℤ → β) (output : ℕ → β) :
    Umm.orderedOutput (order.foldl (readRun device) output) plan.slots =
      indices.map fun t => device (base + t) := by
  have hread := h.found.imp fun t slot hrow => h.split.output horder device output hrow
  unfold Umm.orderedOutput
  generalize plan.slots = slots at hread
  clear h
  induction hread with
  | nil => rfl
  | cons hrow _ ih => rw [List.map_cons, List.map_cons, ih, hrow]

end Reads

/-- In whatever order the reads end, every position of the ordered output has the row of its
index. -/
def ReadPlan.Serves (plan : ReadPlan) (indices : List ℤ) (base : ℤ) : Prop :=
  ∀ (β : Type) (device : ℤ → β) (output : ℕ → β) (order : List ReadRun), order.Perm plan.runs →
    orderedOutput (order.foldl (readRun device) output) plan.slots =
      indices.map fun t => device (base + t)

theorem planRows_exact (indices : List ℤ) (base : ℤ) (merge : Bool) {maxRead : ℤ}
    (h : benchPage ≤ maxRead) :
    ∃ plan, planRows indices base merge maxRead = some plan ∧
      plan.Exact indices base merge (maxRead / benchPage) ∧ plan.Serves indices base := by
  have hlimit : 1 ≤ maxRead / benchPage := by
    unfold benchPage at h ⊢
    omega
  have hrows : ∀ row, row ∈ BatchLru.sorted (indices.map fun t => base + t) ↔
      ∃ t ∈ indices, base + t = row := by
    intro row
    rw [mem_sorted, List.mem_map]
  obtain ⟨slots, hslots, hfound⟩ := mapM_rowLookup indices fun t ht =>
    (hrows (base + t)).mpr ⟨t, ht, rfl⟩
  let plan : ReadPlan := ⟨BatchLru.sorted (indices.map fun t => base + t), slots,
    planRuns merge (maxRead / benchPage) (BatchLru.sorted (indices.map fun t => base + t))⟩
  have hplan : planRows indices base merge maxRead = some plan := by
    unfold planRows
    dsimp only
    rw [hslots]
    rfl
  have hexact : plan.Exact indices base merge (maxRead / benchPage) :=
    ⟨pairwise_sorted _, hrows, planRuns_split hlimit _, hfound⟩
  exact ⟨plan, hplan, hexact, fun _ device output _ horder =>
    hexact.orderedOutput horder device output⟩

theorem planRows_exact_merged : ∃ plan, planRows [7, 2, 1, 2, 0, 3] 10 true 8192 = some plan ∧
    plan.Exact [7, 2, 1, 2, 0, 3] 10 true (8192 / benchPage) ∧
      plan.Serves [7, 2, 1, 2, 0, 3] 10 :=
  planRows_exact [7, 2, 1, 2, 0, 3] 10 true (by decide)

example : planRows [7, 2, 1, 2, 0, 3] 10 true 8192 =
    some ⟨[10, 11, 12, 13, 17], [4, 2, 1, 2, 0, 3], [⟨10, 0, 2⟩, ⟨12, 2, 2⟩, ⟨17, 4, 1⟩]⟩ := by
  decide

end Umm
