import Umm.Ppa.ExportCandidates
import Umm.Ppa.Hook
import Umm.Lib.Counter
import Umm.Lib.Exchange

/-! `select` of `ppa_selection.py`: native misses are swapped for other misses, one after the
other, as long as the loads of the device get flatter. -/
namespace Umm
open Umm.Lib

/-- A row of the mapping file. -/
structure MappingRow where
  lpa : ℕ
  ppa : ℕ
  channel : ℕ
  chip : ℕ
  die : ℕ
  plane : ℕ
  block : ℕ
  page : ℕ
deriving DecidableEq, Repr

structure DenseMapping where
  data : List MappingRow

/-- `none` is a `KeyError`. -/
def DenseMapping.get (m : DenseMapping) (lpa : ℤ) : Option MappingRow :=
  if lpa < 0 ∨ m.data.length ≤ lpa then none else m.data[lpa.toNat]?

/-- A channel, or what is inside of it down to a plane. -/
abbrev Resource := List ℕ

def resources (row : MappingRow) : List Resource :=
  let full := [row.channel, row.chip, row.die, row.plane]
  (List.range' 1 4).map fun i => full.take i

def pressure (info : Dict ℤ MappingRow) (ids : List ℤ) : Option (Counter Resource) := do
  let rows ← ids.mapM fun t => info.lookup t
  return rows.foldl (fun loads row => loads.addEach 1 (resources row)) ∅

def objective (loads : Counter Resource) : ℤ := loads.squares

/-- The order in which the elements of a set are found, each time that a loop goes over it. -/
structure SetOrder where
  rows : ℕ → Finset ℤ → List ℤ
  nodup : ∀ n s, (rows n s).Nodup
  mem : ∀ n s t, t ∈ rows n s ↔ t ∈ s

/-- What is looked up for a token: its score, and the row of its page. -/
structure SelectData (σ : Type) where
  score : Dict ℤ σ
  info : Dict ℤ MappingRow

structure SwapChoice where
  old : ℤ
  new : ℤ
  change : Counter Resource
  delta : ℤ

structure SelectState where
  selected : Finset ℤ
  removable : Finset ℤ
  available : Finset ℤ
  loads : Counter Resource
  exchanges : List (ℤ × ℤ)

structure Selection where
  selected : Finset ℤ
  swaps : List (ℤ × ℤ)
  initial : ℤ
  final : ℤ
deriving DecidableEq

section Select

variable {σ δ : Type} [LinearOrder σ] [LinearOrder δ]

/-- The scored candidates, the best first. -/
def scoredRows (rows : List (CandidateEntry σ)) : List (ℤ × σ) :=
  sortBy (fun r => toLex (OrderDual.toDual r.2, r.1))
    (rows.filterMap fun r => r.score.map fun s => (r.token, s))

namespace SelectData

/-- The tokens of the loop are scored, and have a page. -/
def scoreOf (d : SelectData σ) (t : ℤ) : WithBot σ := d.score.lookup t

def path (d : SelectData σ) (t : ℤ) : List Resource :=
  ((d.info.lookup t).map resources).getD []

def groupOf (d : SelectData σ) (t : ℤ) : Resource := (d.path t).getLastD []

/-- One native token for each plane, the one with the worst score. -/
def removeGroups (d : SelectData σ) (removable : List ℤ) : List ℤ :=
  groupValues (groupBest d.groupOf (fun t => toLex (d.scoreOf t, -t)) removable)

/-- One extra token for each plane, the one with the best score. -/
def addGroups (d : SelectData σ) (available : List ℤ) : List ℤ :=
  groupValues (groupBest d.groupOf (fun t => toLex (OrderDual.toDual (d.scoreOf t), t)) available)

def removals (d : SelectData σ) (loads : Counter Resource) (removable : List ℤ) : List ℤ :=
  (sortBy (fun t => toLex (-((d.path t).map fun k => 2 * loads.get k - 1).sum,
    toLex (d.scoreOf t, t))) (d.removeGroups removable)).take 16

def additions (d : SelectData σ) (loads : Counter Resource) (available : List ℤ) : List ℤ :=
  (sortBy (fun t => toLex (((d.path t).map fun k => 2 * loads.get k + 1).sum,
    toLex (OrderDual.toDual (d.scoreOf t), t))) (d.addGroups available)).take 16

def swapOf (d : SelectData σ) (loads : Counter Resource) (old new : ℤ) : SwapChoice :=
  let change := ((∅ : Counter Resource).addEach 1 (d.path new)).addEach (-1) (d.path old)
  ⟨old, new, change,
    (change.entries.map fun e => 2 * loads.get e.1 * e.2 + e.2 * e.2).sum⟩

variable (diff : σ → σ → δ)

/-- How choices compare; `diff` subtracts scores. -/
def swapKey (d : SelectData σ) (c : SwapChoice) : ℤ ×ₗ WithBot δ ×ₗ ℤ ×ₗ ℤ :=
  toLex (c.delta, toLex (WithBot.map₂ diff (d.scoreOf c.old) (d.scoreOf c.new),
    toLex (c.old, c.new)))

def improve (d : SelectData σ) (loads : Counter Resource) (best : Option SwapChoice)
    (pair : ℤ × ℤ) : Option SwapChoice :=
  let c := d.swapOf loads pair.1 pair.2
  if c.delta < 0 ∧ best.all fun b => d.swapKey diff c < d.swapKey diff b then some c else best

/-- The loops over all pairs. -/
def bestSwap (d : SelectData σ) (loads : Counter Resource) (removals additions : List ℤ) :
    Option SwapChoice :=
  (removals.product additions).foldl (d.improve diff loads) none

end SelectData

variable (diff : σ → σ → δ)

def SelectState.swap (st : SelectState) (c : SwapChoice) : SelectState where
  selected := insert c.new (st.selected.erase c.old)
  removable := st.removable.erase c.old
  available := st.available.erase c.new
  loads := st.loads.update c.change
  exchanges := st.exchanges ++ [(c.old, c.new)]

/-- One round; `none` breaks the loop. -/
def selectRound (order : SetOrder) (d : SelectData σ) (n : ℕ) (st : SelectState) :
    Option SelectState :=
  let removals := d.removals st.loads (order.rows (2 * n + 1) st.removable)
  let additions := d.additions st.loads (order.rows (2 * n + 2) st.available)
  (d.bestSwap diff st.loads removals additions).map st.swap

/-- At most `budget` rounds from round `n` on. -/
def selectLoop (order : SetOrder) (d : SelectData σ) : ℕ → ℕ → SelectState → SelectState
  | 0, _, st => st
  | budget + 1, n, st =>
    match selectRound diff order d n st with
    | none => st
    | some st' => selectLoop order d budget (n + 1) st'

/-- The position of each scored token. -/
def scoredRank (rows : List (CandidateEntry σ)) : Dict ℤ ℕ :=
  dictOf ((scoredRows rows).map (·.1)).zipIdx

def candidateInfo (rows : List (CandidateEntry σ)) (mapping : DenseMapping) :
    Option (Dict ℤ MappingRow) :=
  (rows.mapM fun r => (mapping.get (r.offsetBytes / pageBytes)).map fun row => (r.token, row)).map
    dictOf

def selectAvailable (native resident : Finset ℤ) (rows : List (CandidateEntry σ)) : Finset ℤ :=
  (((scoredRows rows).map (·.1)).toFinset \ native) \ resident

def selectRemovable (native resident : Finset ℤ) (rows : List (CandidateEntry σ))
    (protectTop : ℤ) : Finset ℤ :=
  native.filter fun t =>
    t ∉ resident ∧ ((scoredRank rows).lookup t).any fun (rank : ℕ) => protectTop ≤ rank

def selectStart (native resident : Finset ℤ) (rows : List (CandidateEntry σ)) (protectTop : ℤ)
    (loads : Counter Resource) : SelectState where
  selected := native
  removable := selectRemovable native resident rows protectTop
  available := selectAvailable native resident rows
  loads := loads
  exchanges := []

/-- The selection in place of `native`; `none` is a `KeyError`. -/
def select (order : SetOrder) (native : Finset ℤ) (rows : List (CandidateEntry σ))
    (mapping : DenseMapping) (current budget protectTop : ℤ) (cached : Finset ℤ) :
    Option Selection := do
  let resident := insert current cached
  let info ← candidateInfo rows mapping
  let loads ← pressure info (order.rows 0 (native \ resident))
  let st := selectLoop diff order ⟨dictOf (scoredRows rows), info⟩ budget.toNat 0
    (selectStart native resident rows protectTop loads)
  return ⟨st.selected, st.exchanges, objective loads, objective st.loads⟩

end Select

end Umm
