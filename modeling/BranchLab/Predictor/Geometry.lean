import BranchLab.Text.Basic
import BranchLab.Text.Quoted

/-! The counters that predict one branch, and the shape of a predictor: how many entries each table
has, how many bits each entry has, and how many past outcomes select the table. A counter of one bit
repeats the last outcome. A counter of two bits moves one state towards each outcome and stays at
the ends. -/

namespace BranchLab

inductive CounterMode where
  | oneBit | twoBit
deriving DecidableEq

def CounterMode.bits : CounterMode → Nat
  | oneBit => 1
  | twoBit => 2

def CounterMode.text (mode : CounterMode) : String := toString mode.bits ++ "-bit"

inductive Counter where
  | lastOutcome (taken : Bool)
  | stronglyNotTaken | weaklyNotTaken | weaklyTaken | stronglyTaken
deriving DecidableEq

namespace Counter

/-- The counter that has seen nothing, which predicts not taken. -/
def initial : CounterMode → Counter
  | .oneBit => lastOutcome false
  | .twoBit => stronglyNotTaken

def mode : Counter → CounterMode
  | lastOutcome _ => .oneBit
  | _ => .twoBit

def predictsTaken : Counter → Bool
  | lastOutcome taken => taken
  | stronglyNotTaken | weaklyNotTaken => false
  | weaklyTaken | stronglyTaken => true

def observe : Counter → (taken : Bool) → Counter
  | lastOutcome _, taken => lastOutcome taken
  | stronglyNotTaken, true => weaklyNotTaken
  | weaklyNotTaken, true => weaklyTaken
  | weaklyTaken, true | stronglyTaken, true => stronglyTaken
  | stronglyTaken, false => weaklyTaken
  | weaklyTaken, false => weaklyNotTaken
  | weaklyNotTaken, false | stronglyNotTaken, false => stronglyNotTaken

def value : Counter → Nat
  | lastOutcome false | stronglyNotTaken => 0
  | lastOutcome true | weaklyNotTaken => 1
  | weaklyTaken => 2
  | stronglyTaken => 3

def label : Counter → String
  | lastOutcome false => "N"
  | lastOutcome true => "T"
  | stronglyNotTaken => "SN"
  | weaklyNotTaken => "WN"
  | weaklyTaken => "WT"
  | stronglyTaken => "ST"

@[simp] theorem mode_initial (mode : CounterMode) : (initial mode).mode = mode := by
  cases mode <;> rfl

@[simp] theorem mode_observe (counter : Counter) (taken : Bool) :
    (counter.observe taken).mode = counter.mode := by
  cases counter <;> cases taken <;> rfl

/-- A counter predicts taken from the upper half of its range on. -/
theorem predictsTaken_iff (counter : Counter) :
    counter.predictsTaken = true ↔ 1 <<< counter.mode.bits ≤ 2 * counter.value := by
  rcases counter with ⟨_ | _⟩ | _ | _ | _ | _ <;> decide

end Counter

def maxHistoryBits : Nat := 16

structure Geometry where
  tableSize : Nat
  mode : CounterMode
  historyBits : Nat
  tableSize_pos : 0 < tableSize
  historyBits_le : historyBits ≤ maxHistoryBits
deriving DecidableEq

inductive GeometryError where
  | negativeTableSize (got : Int)
  | emptyTable
  | negativeHistory (got : Int)
  | historyTooWide (got : Int)
  | unknownCounterMode (text : String)
deriving DecidableEq

def GeometryError.message : GeometryError → String
  | negativeTableSize got => "table size must not be negative (got " ++ toString got ++ ")"
  | emptyTable => "table size must be at least 1"
  | negativeHistory got => "history width must not be negative (got " ++ toString got ++ ")"
  | historyTooWide got =>
    "history width " ++ toString got ++ " exceeds the maximum of " ++ toString maxHistoryBits ++
      " bits"
  | unknownCounterMode text =>
    "counter mode must be \"1\" or \"2\" (got " ++ Text.quoteText text ++ ")"

/-- The mode that a text names, blanks around it aside. -/
def CounterMode.ofText (text : String) : Except GeometryError CounterMode :=
  let word := String.ofList (Text.trim text.toList)
  if word = "1" then .ok oneBit
  else if word = "2" then .ok twoBit
  else .error (.unknownCounterMode word)

namespace Geometry

def default : Geometry := ⟨16, .twoBit, 2, by decide, by decide⟩

def ofSizes (tableSize : Nat) (mode : CounterMode) (historyBits : Nat) :
    Except GeometryError Geometry :=
  if size : 0 < tableSize then
    if width : historyBits ≤ maxHistoryBits then
      .ok ⟨tableSize, mode, historyBits, size, width⟩
    else .error (.historyTooWide historyBits)
  else .error .emptyTable

/-- A shape from what a user enters. A negative number is reported first, then the mode, then a
history that is too wide, then an empty table. -/
def ofInput (tableSize : Int) (mode : String) (historyBits : Int) :
    Except GeometryError Geometry := do
  if tableSize < 0 then throw (.negativeTableSize tableSize)
  if historyBits < 0 then throw (.negativeHistory historyBits)
  let mode ← CounterMode.ofText mode
  if maxHistoryBits < historyBits then throw (.historyTooWide historyBits)
  ofSizes tableSize.toNat mode historyBits.toNat

def tableCount (geometry : Geometry) : Nat := 1 <<< geometry.historyBits

def historyMask (geometry : Geometry) : Nat := geometry.tableCount - 1

theorem tableCount_pos (geometry : Geometry) : 0 < geometry.tableCount := by
  rw [tableCount, Nat.one_shiftLeft]
  exact Nat.two_pow_pos geometry.historyBits

end Geometry
end BranchLab
