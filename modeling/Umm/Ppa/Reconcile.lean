import Umm.Ppa.HookRuns

/-! `reconcile_swaps.py`: the tokens of the gold text in a prompt, and how often the records of a
sample dropped them. The search yields identifiers of the vocabulary, the records hold positions
in the context. -/
namespace Umm

section Find

/-- The places where `needle` stands in `prompt`, also those that overlap. -/
def occurrences (prompt needle : List Char) : List ℕ :=
  (List.range (prompt.length + 1)).filter fun p => needle.isPrefixOf (prompt.drop p)

/-- `prompt.find(needle, start)`. -/
def strFind (prompt needle : List Char) (start : ℕ) : Option ℕ :=
  (occurrences prompt needle).find? fun p => start ≤ p

/-- One entry of `input_ids` with its entry of `offset_mapping`. -/
structure EncodedToken where
  id : ℤ
  offset : ℕ × ℕ
  deriving DecidableEq, Repr

/-- The condition of the comprehension for the occurrence at `position`. -/
def EncodedToken.Overlaps (t : EncodedToken) (position length : ℕ) : Prop :=
  position < t.offset.2 ∧ t.offset.1 < position + length

instance (t : EncodedToken) (position length : ℕ) : Decidable (t.Overlaps position length) :=
  inferInstanceAs (Decidable (_ ∧ _))

/-- The `while True` of `find_gold_token_ids`, with `none` when the fuel does not suffice. -/
def goldLoop (prompt needle : List Char) (tokens : List EncodedToken) :
    ℕ → Finset ℤ → ℕ → Option (Finset ℤ)
  | 0, _, _ => none
  | fuel + 1, found, start =>
    match strFind prompt needle start with
    | none => some found
    | some position =>
      goldLoop prompt needle tokens fuel
        (found ∪ ((tokens.filter fun t => t.Overlaps position needle.length).map
          EncodedToken.id).toFinset) (position + 1)

def findGoldTokenIds (tokenizer : List Char → List EncodedToken) (prompt needle : List Char) :
    Option (Finset ℤ) :=
  goldLoop prompt needle (tokenizer prompt) (prompt.length + 2) ∅ 0

end Find

section Model

/-- The fields of a dump record that are read. `selected` is `none` where the key is missing. -/
structure SwapRecord where
  seq : Option ℤ
  indices : List ℤ
  selected : Option (List ℤ)
  swaps : List (ℤ × ℤ)
  deriving DecidableEq, Repr

structure ReconcileStats where
  goldTokens : ℕ
  records : ℕ
  goldInNativeRecords : ℕ
  goldSwappedOut : ℕ
  minGoldInSelected : Option ℕ
  worstStep : Option ℤ
  swappedRecords : ℕ
  deriving DecidableEq, Repr

inductive ReconcileError
  | noGoldText
  | noDumpDirectory
  | goldNotFound
  | noRecords
  deriving DecidableEq, Repr

def ReconcileError.text (dumpDir : String) : ReconcileError → String
  | .noGoldText => "gold text not found verbatim in prompt"
  | .noDumpDirectory => "no dump directory " ++ dumpDir
  | .goldNotFound => "gold tokens not found via offsets"
  | .noRecords => "no second-generation records (not overridden?)"

/-- The fields of a dataset row that are read. -/
structure QualityExample where
  prompt : List Char
  goldText : Option (List Char)
  references : List (List Char)

/-- `gold_text_of`. -/
def goldTextOf (row : QualityExample) : Option (List Char) :=
  match row.goldText with
  | some (c :: text) => some (c :: text)
  | _ => row.references.find? fun ref => (strFind row.prompt ref 0).isSome

/-- The turn of one record. -/
def countRecord (gold : Finset ℤ) (stats : ReconcileStats) (record : SwapRecord) :
    ReconcileStats :=
  match record.selected with
  | none => stats
  | some selected =>
    let inNative := (gold ∩ record.indices.toFinset).card
    let inSelected := (gold ∩ selected.toFinset).card
    let worse := inNative ≠ 0 ∧ stats.minGoldInSelected.all (inSelected < ·)
    { goldTokens := stats.goldTokens
      records := stats.records + 1
      goldInNativeRecords := stats.goldInNativeRecords + if 0 < inNative then 1 else 0
      goldSwappedOut := stats.goldSwappedOut + record.swaps.countP fun swap => swap.1 ∈ gold
      minGoldInSelected := if worse then some inSelected else stats.minGoldInSelected
      worstStep := if worse then record.seq else stats.worstStep
      swappedRecords := stats.swappedRecords + if record.swaps = [] then 0 else 1 }

def ReconcileStats.start (gold : Finset ℤ) : ReconcileStats := ⟨gold.card, 0, 0, 0, none, none, 0⟩

/-- `gold_ever_absent`. -/
def ReconcileStats.goldEverAbsent (stats : ReconcileStats) : Bool :=
  stats.minGoldInSelected = some 0

/-- `reconcile_example` on the records of the dump directory, in the order of their files, or
`none` where there is no directory. -/
def reconcileExample (tokenizer : List Char → List EncodedToken) (row : QualityExample)
    (dump : Option (List SwapRecord)) : Option (Except ReconcileError ReconcileStats) :=
  match goldTextOf row with
  | none => some (.error .noGoldText)
  | some needle =>
    match dump with
    | none => some (.error .noDumpDirectory)
    | some records =>
      match findGoldTokenIds tokenizer row.prompt needle with
      | none => none
      | some gold =>
        if gold = ∅ then some (.error .goldNotFound)
        else
          let stats := records.foldl (countRecord gold) (.start gold)
          if stats.records = 0 then some (.error .noRecords) else some (.ok stats)

end Model

section Spec

/-- The token overlaps an occurrence of the needle. -/
def EncodedToken.IsGold (prompt needle : List Char) (t : EncodedToken) : Prop :=
  ∃ position ∈ occurrences prompt needle, t.Overlaps position needle.length

instance (prompt needle : List Char) (t : EncodedToken) : Decidable (t.IsGold prompt needle) :=
  inferInstanceAs (Decidable (∃ position ∈ occurrences prompt needle, _))

def goldIds (prompt needle : List Char) (tokens : List EncodedToken) : Finset ℤ :=
  ((tokens.filter fun t => t.IsGold prompt needle).map EncodedToken.id).toFinset

/-- The positions of the gold tokens in the prompt. -/
def goldPositions (prompt needle : List Char) (tokens : List EncodedToken) : Finset ℤ :=
  ((tokens.zipIdx.filter fun t => t.1.IsGold prompt needle).map fun t => (t.2 : ℤ)).toFinset

namespace SwapRecord

def native (r : SwapRecord) : Finset ℤ := r.indices.toFinset

def chosen (r : SwapRecord) : Finset ℤ := (r.selected.getD []).toFinset

/-- The record has a selection that was applied. -/
def overridden (r : SwapRecord) : Bool := r.selected.isSome

/-- The record speaks of positions in `U` only. -/
structure Within (U : Set ℤ) (r : SwapRecord) : Prop where
  native : ∀ p ∈ r.native, p ∈ U
  chosen : ∀ p ∈ r.chosen, p ∈ U
  swaps : ∀ swap ∈ r.swaps, swap.1 ∈ U

end SwapRecord

/-- The swaps that drop a gold position are counted, and of the records whose native set has one
the fewest that were selected are kept. -/
structure Reconciled (gold : Finset ℤ) (dump : List SwapRecord) (stats : ReconcileStats) : Prop where
  swappedOut : stats.goldSwappedOut =
    ((dump.filter SwapRecord.overridden).flatMap SwapRecord.swaps).countP fun swap => swap.1 ∈ gold
  fewest : stats.minGoldInSelected =
    (((dump.filter SwapRecord.overridden).filter fun r => (gold ∩ r.native).Nonempty).map
      fun r => (gold ∩ r.chosen).card).min?

end Spec

section Search

variable {prompt needle : List Char} {tokens : List EncodedToken}

theorem strFind_eq_none {start : ℕ} (h : strFind prompt needle start = none) :
    ∀ q ∈ occurrences prompt needle, q < start := by
  intro q hq
  have := List.find?_eq_none.mp h q hq
  simpa using this

theorem strFind_eq_some {start p : ℕ} (h : strFind prompt needle start = some p) :
    p ∈ occurrences prompt needle ∧ start ≤ p ∧
      ∀ q ∈ occurrences prompt needle, start ≤ q → p ≤ q := by
  obtain ⟨hp, before, after, hsplit, hbefore⟩ := List.find?_eq_some_iff_append.mp h
  have hsorted : (occurrences prompt needle).Pairwise (· < ·) :=
    List.Pairwise.filter _ List.pairwise_lt_range
  refine ⟨List.mem_of_find?_eq_some h, by simpa using hp, fun q hq hle => ?_⟩
  rw [hsplit] at hq hsorted
  rcases List.mem_append.mp hq with hq | hq
  · have hlt := hbefore q hq
    simp only [Bool.not_eq_true', decide_eq_false_iff_not] at hlt
    exact absurd hle hlt
  · rcases List.mem_cons.mp hq with rfl | hq
    · exact le_rfl
    · have hafter := (List.pairwise_cons.mp (List.pairwise_append.mp hsorted).2.1).1
      exact (hafter q hq).le

theorem le_length_of_mem_occurrences {q : ℕ} (h : q ∈ occurrences prompt needle) :
    q ≤ prompt.length := by
  have hrange := List.mem_range.mp (List.mem_filter.mp h).1
  omega

/-- The identifiers that the loop still finds from `start` on. The fuel is enough, because every
round starts behind the occurrence of the last one. -/
theorem goldLoop_eq (prompt needle : List Char) (tokens : List EncodedToken) :
    ∀ fuel found start, start ≤ prompt.length + 1 → prompt.length + 1 < fuel + start →
      ∃ ids, goldLoop prompt needle tokens fuel found start = some (found ∪ ids) ∧
        ∀ x, x ∈ ids ↔ ∃ t ∈ tokens, (∃ position ∈ occurrences prompt needle,
          start ≤ position ∧ t.Overlaps position needle.length) ∧ t.id = x := by
  intro fuel
  induction fuel with
  | zero =>
    intro found start hstart hfuel
    omega
  | succ fuel ih =>
    intro found start hstart hfuel
    unfold goldLoop
    cases hfind : strFind prompt needle start with
    | none =>
      refine ⟨∅, by rw [Finset.union_empty], fun x => ?_⟩
      constructor
      · intro hx
        exact absurd hx (Finset.notMem_empty x)
      · rintro ⟨t, -, ⟨q, hq, hle, -⟩, -⟩
        have := strFind_eq_none hfind q hq
        omega
    | some position =>
      obtain ⟨hmem, hle, hfirst⟩ := strFind_eq_some hfind
      have hlen := le_length_of_mem_occurrences hmem
      obtain ⟨ids, he, hids⟩ := ih (found ∪ ((tokens.filter fun t =>
        t.Overlaps position needle.length).map EncodedToken.id).toFinset) (position + 1)
        (by omega) (by omega)
      refine ⟨_, by rw [Finset.union_assoc] at he; exact he, fun x => ?_⟩
      rw [Finset.mem_union, hids, List.mem_toFinset, List.mem_map]
      simp only [List.mem_filter, decide_eq_true_eq]
      constructor
      · rintro (⟨t, ⟨ht, hover⟩, hx⟩ | ⟨t, ht, ⟨q, hq, hlt, hover⟩, hx⟩)
        · exact ⟨t, ht, ⟨position, hmem, hle, hover⟩, hx⟩
        · exact ⟨t, ht, ⟨q, hq, by omega, hover⟩, hx⟩
      · rintro ⟨t, ht, ⟨q, hq, hlt, hover⟩, hx⟩
        have hpos := hfirst q hq hlt
        by_cases hqp : q = position
        · subst hqp
          exact Or.inl ⟨t, ⟨ht, hover⟩, hx⟩
        · exact Or.inr ⟨t, ht, ⟨q, hq, by omega, hover⟩, hx⟩

theorem findGoldTokenIds_eq (tokenizer : List Char → List EncodedToken) (prompt needle : List Char) :
    findGoldTokenIds tokenizer prompt needle =
      some (goldIds prompt needle (tokenizer prompt)) := by
  obtain ⟨ids, he, hids⟩ := goldLoop_eq prompt needle (tokenizer prompt) (prompt.length + 2) ∅ 0
    (Nat.zero_le _) (by omega)
  have hsame : ids = goldIds prompt needle (tokenizer prompt) := by
    ext x
    rw [hids]
    simp only [goldIds, List.mem_toFinset, List.mem_map, List.mem_filter, decide_eq_true_eq,
      Nat.zero_le, true_and, and_assoc]
    rfl
  unfold findGoldTokenIds
  rw [he, hsame, Finset.empty_union]

theorem mem_goldPositions (x : ℤ) :
    x ∈ goldPositions prompt needle tokens ↔
      ∃ (i : ℕ) (t : EncodedToken), tokens[i]? = some t ∧ t.IsGold prompt needle ∧ (i : ℤ) = x := by
  unfold goldPositions
  rw [List.mem_toFinset, List.mem_map]
  constructor
  · rintro ⟨⟨t, i⟩, hmem, hx⟩
    obtain ⟨hzip, hgold⟩ := List.mem_filter.mp hmem
    exact ⟨i, t, List.mem_zipIdx_iff_getElem?.mp hzip, by simpa using hgold, hx⟩
  · rintro ⟨i, t, hget, hgold, hx⟩
    exact ⟨(t, i), List.mem_filter.mpr ⟨List.mem_zipIdx_iff_getElem?.mpr hget, by simpa using hgold⟩,
      hx⟩

theorem goldIds_eq_empty_iff :
    goldIds prompt needle tokens = ∅ ↔ goldPositions prompt needle tokens = ∅ := by
  rw [Finset.eq_empty_iff_forall_notMem, Finset.eq_empty_iff_forall_notMem]
  constructor
  · intro h x hx
    obtain ⟨i, t, hget, hgold, -⟩ := (mem_goldPositions x).mp hx
    refine h t.id ?_
    simp only [goldIds, List.mem_toFinset, List.mem_map, List.mem_filter, decide_eq_true_eq]
    exact ⟨t, ⟨List.mem_of_getElem? hget, hgold⟩, rfl⟩
  · intro h x hx
    simp only [goldIds, List.mem_toFinset, List.mem_map, List.mem_filter, decide_eq_true_eq] at hx
    obtain ⟨t, ⟨ht, hgold⟩, -⟩ := hx
    obtain ⟨i, hget⟩ := List.mem_iff_getElem?.mp ht
    exact h i ((mem_goldPositions _).mpr ⟨i, t, hget, hgold, rfl⟩)

end Search

section Counting

variable {gold gold' : Finset ℤ} {dump : List SwapRecord} {stats : ReconcileStats} {U : Set ℤ}

theorem reconciled_nil (gold : Finset ℤ) : Reconciled gold [] (.start gold) := ⟨rfl, rfl⟩

theorem min?_concat (l : List ℕ) (n : ℕ) :
    (l ++ [n]).min? = if l.min?.all (n < ·) then some n else l.min? := by
  cases l with
  | nil => rfl
  | cons x xs =>
    rw [List.cons_append, List.min?_cons', List.min?_cons', List.foldl_append, List.foldl_cons,
      List.foldl_nil, Option.all_some]
    by_cases hlt : n < xs.foldl min x
    · rw [if_pos (by simpa using hlt), Nat.min_eq_right hlt.le]
    · rw [if_neg (by simpa using hlt), Nat.min_eq_left (by omega)]

theorem Reconciled.step (h : Reconciled gold dump stats) (r : SwapRecord) :
    Reconciled gold (dump ++ [r]) (countRecord gold stats r) := by
  obtain ⟨hswaps, hmin⟩ := h
  unfold countRecord
  cases hsel : r.selected with
  | none =>
    have hskip : r.overridden = false := by
      unfold SwapRecord.overridden
      rw [hsel]
      rfl
    have hfilter : (dump ++ [r]).filter SwapRecord.overridden =
        dump.filter SwapRecord.overridden := by
      rw [List.filter_append, List.filter_singleton, hskip, cond_false, List.append_nil]
    refine ⟨?_, ?_⟩
    · rw [hfilter]
      exact hswaps
    · rw [hfilter]
      exact hmin
  | some selected =>
    have htake : r.overridden = true := by
      unfold SwapRecord.overridden
      rw [hsel]
      rfl
    have hchosen : r.chosen = selected.toFinset := by
      unfold SwapRecord.chosen
      rw [hsel]
      rfl
    have hfilter : (dump ++ [r]).filter SwapRecord.overridden =
        dump.filter SwapRecord.overridden ++ [r] := by
      rw [List.filter_append, List.filter_singleton, htake]
      rfl
    refine ⟨?_, ?_⟩
    · rw [hfilter, List.flatMap_append, List.countP_append, ← hswaps, List.flatMap_singleton]
    · rw [hfilter, List.filter_append, List.map_append, List.filter_singleton]
      dsimp only
      by_cases hgold : (gold ∩ r.native).Nonempty
      · have hcard : (gold ∩ r.indices.toFinset).card ≠ 0 := Finset.card_ne_zero.mpr hgold
        rw [decide_eq_true hgold, cond_true, List.map_singleton, min?_concat, ← hmin, hchosen]
        simp only [hcard, ne_eq, not_false_eq_true, true_and]
      · have hcard : (gold ∩ r.indices.toFinset).card = 0 := by
          rw [Finset.card_eq_zero]
          exact Finset.not_nonempty_iff_eq_empty.mp hgold
        rw [decide_eq_false hgold, cond_false, List.map_nil, List.append_nil, ← hmin]
        simp only [hcard, ne_eq, not_true_eq_false, false_and, if_false]

theorem foldl_countRecord (gold : Finset ℤ) (dump : List SwapRecord) :
    Reconciled gold dump (dump.foldl (countRecord gold) (.start gold)) := by
  induction dump using List.reverseRecOn with
  | nil => exact reconciled_nil gold
  | append_singleton dump r ih =>
    rw [List.foldl_append, List.foldl_cons, List.foldl_nil]
    exact ih.step r

theorem Reconciled.congr (h : Reconciled gold dump stats) (hU : ∀ r ∈ dump, r.Within U)
    (hsame : ∀ p ∈ U, p ∈ gold ↔ p ∈ gold') : Reconciled gold' dump stats := by
  obtain ⟨hswaps, hmin⟩ := h
  have hinter : ∀ S : Finset ℤ, (∀ p ∈ S, p ∈ U) → gold' ∩ S = gold ∩ S := by
    intro S hS
    ext p
    rw [Finset.mem_inter, Finset.mem_inter]
    constructor
    · rintro ⟨hp, hpS⟩
      exact ⟨(hsame p (hS p hpS)).mpr hp, hpS⟩
    · rintro ⟨hp, hpS⟩
      exact ⟨(hsame p (hS p hpS)).mp hp, hpS⟩
  refine ⟨?_, ?_⟩
  · rw [hswaps]
    refine List.countP_congr fun swap hswap => ?_
    obtain ⟨r, hr, hmem⟩ := List.mem_flatMap.mp hswap
    simp only [decide_eq_true_eq]
    exact hsame _ ((hU r (List.mem_filter.mp hr).1).swaps swap hmem)
  · rw [hmin]
    have hfilter : (dump.filter SwapRecord.overridden).filter
          (fun r => (gold' ∩ r.native).Nonempty) =
        (dump.filter SwapRecord.overridden).filter (fun r => (gold ∩ r.native).Nonempty) := by
      refine List.filter_congr fun r hr => ?_
      rw [hinter r.native (hU r (List.mem_filter.mp hr).1).native]
    rw [hfilter]
    congr 1
    refine List.map_congr_left fun r hr => ?_
    have hdump := (List.mem_filter.mp (List.mem_filter.mp hr).1).1
    rw [hinter r.chosen (hU r hdump).chosen]

/-- A record that selects the one native position `p` again. -/
theorem Reconciled.single {p : ℤ} {seq : Option ℤ}
    (h : Reconciled gold [⟨seq, [p], some [p], []⟩] stats) :
    p ∈ gold ↔ stats.minGoldInSelected ≠ none := by
  have hmin := h.fewest
  have hover : SwapRecord.overridden ⟨seq, [p], some [p], []⟩ = true := rfl
  rw [List.filter_singleton, hover, cond_true, List.filter_singleton] at hmin
  rw [hmin]
  have hnative : SwapRecord.native ⟨seq, [p], some [p], []⟩ = {p} := rfl
  rw [hnative]
  by_cases hp : p ∈ gold
  · have hne : (gold ∩ {p}).Nonempty := ⟨p, Finset.mem_inter.mpr ⟨hp, Finset.mem_singleton_self p⟩⟩
    rw [decide_eq_true hne]
    exact iff_of_true hp (by simp)
  · have hempty : ¬ (gold ∩ {p}).Nonempty := by
      rintro ⟨q, hq⟩
      obtain ⟨hg, hqp⟩ := Finset.mem_inter.mp hq
      exact hp (Finset.mem_singleton.mp hqp ▸ hg)
    rw [decide_eq_false hempty]
    exact iff_of_false hp (by simp)

end Counting

section Example

variable {tokenizer : List Char → List EncodedToken} {row : QualityExample} {needle : List Char}

theorem reconcileExample_eq (hneedle : goldTextOf row = some needle) (dump : List SwapRecord) :
    reconcileExample tokenizer row (some dump) =
      let gold := goldIds row.prompt needle (tokenizer row.prompt)
      let stats := dump.foldl (countRecord gold) (.start gold)
      if gold = ∅ then some (.error .goldNotFound)
      else if stats.records = 0 then some (.error .noRecords) else some (.ok stats) := by
  unfold reconcileExample
  rw [hneedle]
  dsimp only
  rw [findGoldTokenIds_eq]

/-- What is reported counts the identifiers as if they were positions. -/
theorem reconcileExample_reconciled (hneedle : goldTextOf row = some needle)
    {dump : List SwapRecord} {stats : ReconcileStats}
    (h : reconcileExample tokenizer row (some dump) = some (.ok stats)) :
    Reconciled (goldIds row.prompt needle (tokenizer row.prompt)) dump stats := by
  rw [reconcileExample_eq hneedle] at h
  dsimp only at h
  split at h
  · cases h
  · split at h
    · cases h
    · obtain rfl := Except.ok.inj (Option.some.inj h)
      exact foldl_countRecord _ dump

/-- One record with a selection is enough for a report, if some token is gold. -/
theorem reconcileExample_one (hneedle : goldTextOf row = some needle)
    (hgold : goldIds row.prompt needle (tokenizer row.prompt) ≠ ∅) {r : SwapRecord}
    (hr : r.overridden = true) :
    ∃ stats, reconcileExample tokenizer row (some [r]) = some (.ok stats) := by
  rw [reconcileExample_eq hneedle]
  dsimp only
  obtain ⟨selected, hsel⟩ := Option.isSome_iff_exists.mp hr
  have hrecords : ((([r] : List SwapRecord).foldl
      (countRecord (goldIds row.prompt needle (tokenizer row.prompt)))
      (.start (goldIds row.prompt needle (tokenizer row.prompt)))).records) ≠ 0 := by
    rw [List.foldl_cons, List.foldl_nil]
    unfold countRecord
    rw [hsel]
    exact Nat.succ_ne_zero _
  rw [if_neg hgold, if_neg hrecords]
  exact ⟨_, rfl⟩

/-- The report is right for all records over the positions `U` exactly when the identifiers of the
gold tokens are their positions, as far as `U` goes. -/
theorem reconcileExample_positions_iff (U : Set ℤ) (hneedle : goldTextOf row = some needle) :
    (∀ dump stats, (∀ r ∈ dump, r.Within U) →
        reconcileExample tokenizer row (some dump) = some (.ok stats) →
        Reconciled (goldPositions row.prompt needle (tokenizer row.prompt)) dump stats) ↔
      ∀ p ∈ U, (p ∈ goldIds row.prompt needle (tokenizer row.prompt) ↔
        p ∈ goldPositions row.prompt needle (tokenizer row.prompt)) := by
  constructor
  · intro h p hp
    by_cases hgold : goldIds row.prompt needle (tokenizer row.prompt) = ∅
    · rw [hgold, goldIds_eq_empty_iff.mp hgold]
    · obtain ⟨stats, hstats⟩ := reconcileExample_one hneedle hgold
        (show SwapRecord.overridden ⟨none, [p], some [p], []⟩ = true from rfl)
      have hwithin : SwapRecord.Within U ⟨none, [p], some [p], []⟩ := by
        refine ⟨fun q hq => ?_, fun q hq => ?_, fun swap hswap => ?_⟩
        · rwa [List.mem_singleton.mp (List.mem_toFinset.mp hq)]
        · rwa [List.mem_singleton.mp (List.mem_toFinset.mp hq)]
        · cases hswap
      have hids := reconcileExample_reconciled hneedle hstats
      have hpositions := h _ stats (fun r hr => by rw [List.mem_singleton.mp hr]; exact hwithin)
        hstats
      rw [hids.single, hpositions.single]
  · intro h dump stats hU hstats
    exact (reconcileExample_reconciled hneedle hstats).congr hU h

/-- `a` and `b`, with the identifiers 5 and 7 in the vocabulary. -/
def twoLetters (first second : ℤ) : List Char → List EncodedToken := fun _ =>
  [⟨first, (0, 1)⟩, ⟨second, (1, 2)⟩]

def lookForB : QualityExample := ⟨['a', 'b'], some ['b'], []⟩

/-- The record swaps the position of `b` out; its identifier is not among the positions. -/
theorem reconcileExample_not_positions :
    ∃ stats, reconcileExample (twoLetters 5 7) lookForB
        (some [⟨some 3, [0, 1], some [0, 2], [(1, 2)]⟩]) = some (.ok stats) ∧
      stats.goldSwappedOut = 0 ∧ stats.minGoldInSelected = none ∧
      ¬ Reconciled (goldPositions ['a', 'b'] ['b'] (twoLetters 5 7 ['a', 'b']))
        [⟨some 3, [0, 1], some [0, 2], [(1, 2)]⟩] stats := by
  refine ⟨_, rfl, by decide +kernel, by decide +kernel, ?_⟩
  intro h
  have hout := h.swappedOut
  revert hout
  decide +kernel

theorem reconcileExample_positions_iff_letters :
    (∀ dump stats, (∀ r ∈ dump, r.Within Set.univ) →
        reconcileExample (twoLetters 0 1) lookForB (some dump) = some (.ok stats) →
        Reconciled (goldPositions lookForB.prompt ['b'] (twoLetters 0 1 lookForB.prompt))
          dump stats) ↔
      ∀ p ∈ Set.univ, (p ∈ goldIds lookForB.prompt ['b'] (twoLetters 0 1 lookForB.prompt) ↔
        p ∈ goldPositions lookForB.prompt ['b'] (twoLetters 0 1 lookForB.prompt)) :=
  reconcileExample_positions_iff Set.univ rfl

end Example

section Recorded

variable {δ : Type} {layerId : String → Option ℕ} {lruDigest : List ℤ → δ} {cfg : DumpConfig}
  {c : HookCall} {s : HookState δ}

/-- What `reconcile_swaps.py` reads of a file of the hook. -/
def HookRecord.swapRecord (f : HookRecord δ) : SwapRecord where
  seq := some f.seq
  indices := f.indices
  selected := f.applied.map fun a => BatchLru.sorted a.selected
  swaps := (f.applied.map AppliedSelection.swaps).getD []

/-- The indices in the files are positions in the context of their step. -/
def HookState.Positions (s : HookState δ) : Prop :=
  ∀ f ∈ s.files, ∀ t ∈ f.swapRecord.native, 0 ≤ t ∧ t < f.seq

theorem applyOverride_files (ocfg : OverrideConfig) :
    (applyOverride layerId lruDigest ocfg c s).2.files = s.files := by
  unfold applyOverride
  split
  · rfl
  · split
    · rfl
    · dsimp only
      split
      · rfl
      · split
        · rfl
        · split <;> rfl

theorem HookState.Positions.dumpStep (h : s.Positions) (hvalid : c.nativeValid cfg = true)
    (overriding : Bool) (sample : Option String) (applied : Option (AppliedSelection δ)) :
    (dumpStep cfg overriding sample c applied s).2.Positions := by
  unfold Umm.dumpStep
  split
  · exact h
  · split
    · exact h
    next name =>
      split
      · exact h
      · have hsaved : (HookState.save ⟨name, c.layerName, c.seq, BatchLru.sorted c.topkIndices,
            applied⟩ { s with ready := true }).Positions := by
          intro f hf t ht
          rcases List.mem_append.mp hf with hf | hf
          · exact h f (List.mem_filter.mp hf).1 t ht
          · obtain rfl := List.mem_singleton.mp hf
            have hmem : t ∈ c.topkIndices := by
              change t ∈ (BatchLru.sorted c.topkIndices).toFinset at ht
              rw [BatchLru.toFinset_sorted] at ht
              exact List.mem_toFinset.mp ht
            unfold HookCall.nativeValid at hvalid
            simp only [Bool.and_eq_true, List.all_eq_true, decide_eq_true_eq] at hvalid
            exact hvalid.2 t hmem
        cases overriding with
        | false => exact hsaved
        | true => cases applied <;> exact hsaved

theorem HookCall.nativeValid_of_unfit {dumps : ℕ} (h : c.unfit cfg dumps = none) :
    c.nativeValid cfg = true := by
  unfold HookCall.unfit at h
  cases hvalid : c.nativeValid cfg with
  | true => rfl
  | false =>
    rw [hvalid] at h
    split_ifs at h
    exact absurd rfl ‹¬ (!false) = true›

/-- Every call of the hook keeps this: it checks the native indices before it writes a file. -/
theorem HookState.Positions.maybeDump (h : s.Positions) (ocfg : Option OverrideConfig) :
    (maybeDump layerId lruDigest cfg ocfg c s).2.Positions := by
  unfold Umm.maybeDump
  split
  · exact h
  dsimp only
  split
  · exact h
  split
  · exact h
  split
  · split <;> exact h
  next hfit =>
    have hvalid := HookCall.nativeValid_of_unfit hfit
    generalize hs1 : (if Option.any _ _ = true then HookState.bump .seqGaps _ else _) = s1
    have h1 : s1.Positions := by
      rw [← hs1]
      split_ifs <;> exact h
    generalize hs2 : (if Option.any _ _ = true then HookState.rotateSample _ _ else _) = s2
    have h2 : s2.Positions := by
      rw [← hs2]
      split_ifs <;> exact h1
    have hselect : ∀ {r : Except HookError (Option (AppliedSelection δ))} {t : HookState δ},
        Option.elim ocfg (.ok none, s2) (fun o => applyOverride layerId lruDigest o c s2) = (r, t) →
          t.Positions := by
      intro r t hr
      cases ocfg with
      | none =>
        obtain ⟨-, rfl⟩ := Prod.mk.inj hr
        exact h2
      | some o =>
        have hfiles : (applyOverride layerId lruDigest o c s2).2.files = s2.files :=
          applyOverride_files o
        rw [Option.elim_some] at hr
        rw [hr] at hfiles
        intro f hf
        rw [hfiles] at hf
        exact h2 f hf
    split
    next e t hr => exact hselect (by cases ocfg <;> exact hr)
    next applied t hr =>
      have ht : t.Positions := hselect (by cases ocfg <;> exact hr)
      have hwrite : ∀ {overriding sample r} {u : HookState δ},
          Umm.dumpStep cfg overriding sample c applied t = (r, u) → u.Positions := by
        intro overriding sample r u hd
        have hu := ht.dumpStep hvalid overriding sample applied
        rw [hd] at hu
        exact hu
      split
      · exact ht
      · split
        next e u hd => exact hwrite hd
        next u hd => exact hwrite hd

end Recorded

end Umm
