import BranchLab.Predictor.Geometry
import BranchLab.Stepper.Basic

/-! A two-level predictor and the account of its correct predictions. The outcomes of the last
branches, read as a binary number, select a table, and the branch selects an entry of it. The entry
predicts, is trained with the outcome, and then the outcome becomes part of the history. The account
is over all branches and for each branch by itself; counts stop at the greatest 64-bit number. -/

namespace BranchLab

def countLimit : Nat := 2 ^ 64 - 1

def countUp (count : Nat) : Nat := min (count + 1) countLimit

structure Tally where
  total : Nat := 0
  correct : Nat := 0
deriving DecidableEq

namespace Tally

def record (tally : Tally) (correct : Bool) : Tally :=
  ⟨countUp tally.total, if correct then countUp tally.correct else tally.correct⟩

def ratio (tally : Tally) : Option Float :=
  if tally.total = 0 then none
  else some ((UInt64.ofNat tally.correct).toFloat / (UInt64.ofNat tally.total).toFloat)

end Tally

structure Ledger where
  overall : Tally := {}
  sites : Catalog Nat Tally := .empty
deriving DecidableEq

namespace Ledger

def empty : Ledger := {}

/-- The tally of one branch; zeros for a branch that has not been resolved. -/
def site (ledger : Ledger) (pc : Nat) : Tally := (ledger.sites.get? pc).getD {}

def record (ledger : Ledger) (pc : Nat) (correct : Bool) : Ledger :=
  ⟨ledger.overall.record correct, ledger.sites.put pc ((ledger.site pc).record correct)⟩

theorem site_record (ledger : Ledger) (pc other : Nat) (correct : Bool) :
    (ledger.record pc correct).site other =
      if other = pc then (ledger.site pc).record correct else ledger.site other := by
  by_cases same : other = pc <;> simp [record, site, Catalog.get?_put, same]

end Ledger

structure Bank where
  geometry : Geometry
  tables : Array (Array Counter)
  history : Nat
  lastTouched : Option (Nat × Nat)

structure Prediction where
  table : Nat
  entry : Nat
  predicted : Bool
  taken : Bool
  correct : Bool
  state : Counter
deriving DecidableEq

namespace Bank

def fresh (geometry : Geometry) : Bank where
  geometry
  tables := Array.replicate geometry.tableCount
    (Array.replicate geometry.tableSize (.initial geometry.mode))
  history := 0
  lastTouched := none

def entryIndex (bank : Bank) (pc : Nat) : Nat := pc % bank.geometry.tableSize

def counter (bank : Bank) (table entry : Nat) : Counter :=
  (bank.tables[table]?.bind (·[entry]?)).getD (.initial bank.geometry.mode)

def predict (bank : Bank) (pc : Nat) : Bool :=
  (bank.counter bank.history (bank.entryIndex pc)).predictsTaken

/-- The history after one more outcome, the oldest one dropped. -/
def shift (geometry : Geometry) (history : Nat) (taken : Bool) : Nat :=
  (2 * history + taken.toNat) % geometry.tableCount

def train (bank : Bank) (entry : Nat) (taken : Bool) : Bank :=
  let ⟨geometry, tables, history, _⟩ := bank
  { geometry
    tables := tables.modify history (·.modify entry (·.observe taken))
    history := shift geometry history taken
    lastTouched := some (history, entry) }

def predictAndUpdate (bank : Bank) (event : BranchEvent) (ledger : Ledger) :
    Prediction × Bank × Ledger :=
  let table := bank.history
  let entry := bank.entryIndex event.pc
  let before := bank.counter table entry
  let predicted := before.predictsTaken
  let correct := predicted == event.taken
  (⟨table, entry, predicted, event.taken, correct, before.observe event.taken⟩,
    bank.train entry event.taken, ledger.record event.pc correct)

/-- The history in binary, the most recent outcome last; as many digits as the history has bits. -/
def historyText (bank : Bank) : String :=
  let width := bank.geometry.historyBits
  String.ofList ((List.range width).reverse.map fun place =>
    if bank.history.testBit place then '1' else '0')

def labels (bank : Bank) : List (List String) :=
  bank.tables.toList.map fun table => table.toList.map Counter.label

end Bank
end BranchLab
