import BranchLab.Program.Scope

/-! Execution one statement at a time. The position is a stack of frames, one for each block that
has been entered; a frame holds the bindings of its block and the index of a statement, and the
block itself is found by following the indexes of the frames below it. A step reports the lines of
the statement, the branch it resolved if it was a guarded block, and how the position moved. -/

namespace BranchLab

structure BranchEvent where
  pc : Nat
  taken : Bool
deriving DecidableEq

inductive Transition where
  | advanced
  | enteredBlock
  | leftBlocks (popped : Nat)
  | newIteration (iteration : UInt64)
deriving DecidableEq

inductive StepOutcome where
  | idle
  | executed (lines : LineRange) (branch : Option BranchEvent) (transition : Transition)
deriving DecidableEq

namespace StepOutcome

def branch : StepOutcome → Option BranchEvent
  | idle => none
  | executed _ branch _ => branch

def lines : StepOutcome → Option LineRange
  | idle => none
  | executed lines _ _ => some lines

def startedIteration : StepOutcome → Bool
  | executed _ _ (.newIteration _) => true
  | _ => false

end StepOutcome

open Chance (Generator)

structure Frame where
  bindings : Bindings
  index : Nat := 0
deriving DecidableEq

/-- A program in execution. The frames below the top one are listed from the innermost out. -/
structure Stepper where
  program : Program
  top : Frame
  below : List Frame
  iteration : UInt64
  generator : Generator

namespace Stepper

/-- The block in which a frame runs that stands on the given frames. -/
def blockOver (statements : List Statement) : List Frame → List Statement
  | [] => statements
  | parent :: below =>
    match (blockOver statements below)[parent.index]? with
    | some statement => statement.body
    | none => []

def block (s : Stepper) : List Statement := blockOver s.program.statements s.below

/-- The statement that the next step executes; none for a program without statements. -/
def current? (s : Stepper) : Option Statement := s.block[s.top.index]?

def currentLines (s : Stepper) : Option LineRange := s.current?.map Statement.lines

def frames (s : Stepper) : List Frame := (s.top :: s.below).reverse

def startIteration (s : Stepper) (iteration : UInt64) : Stepper :=
  { s with top := ⟨.ofIteration iteration, 0⟩, below := [], iteration }

/-- Back to the start of iteration zero; the generator goes on where it is. -/
def reset (s : Stepper) : Stepper := s.startIteration 0

/-- A program that passes the scope check, at the start of iteration zero. -/
def ofProgram (program : Program) (seed : UInt64) : Except ScopeError Stepper := do
  program.check (.ofIteration 0)
  return ⟨program, ⟨.ofIteration 0, 0⟩, [], 0, .ofSeed seed⟩

/-- Moves past the statement on which `top` stands, leaving each block that it ends; none when it
ends the outermost block too. -/
def moveOn (statements : List Statement) (top : Frame) :
    (below : List Frame) → (popped : Nat) → Option (Frame × List Frame × Nat)
  | below, popped =>
    if top.index + 1 < (blockOver statements below).length then
      some (⟨top.bindings, top.index + 1⟩, below, popped)
    else
      match below with
      | [] => none
      | parent :: below => moveOn statements parent below (popped + 1)

/-- Moves past the current statement, into the next iteration after the last. -/
def advance (s : Stepper) : Transition × Stepper :=
  match moveOn s.program.statements s.top s.below 0 with
  | some (top, below, popped) =>
    (if popped = 0 then .advanced else .leftBlocks popped, { s with top, below })
  | none => (.newIteration (s.iteration + 1), s.startIteration (s.iteration + 1))

/-- Executes the current statement. A name that is not bound stops the step before any binding or
position changes. -/
def step (s : Stepper) : Except EvalError StepOutcome × Stepper :=
  match s.current? with
  | none => (.ok .idle, s)
  | some (.bind name value lines) =>
    match value.value s.top.bindings s.generator with
    | (.error error, generator) => (.error error, { s with generator })
    | (.ok v, generator) =>
      let (transition, s) :=
        { s with top := ⟨s.top.bindings.put name v, s.top.index⟩, generator }.advance
      (.ok (.executed lines none transition), s)
  | some (.guarded cond body lines) =>
    match cond.value s.top.bindings s.generator with
    | (.error error, generator) => (.error error, { s with generator })
    | (.ok v, generator) =>
      let taken := decide (v ≠ 0)
      let (transition, s) :=
        if taken = true ∧ body ≠ [] then
          (.enteredBlock,
            { s with top := ⟨s.top.bindings, 0⟩, below := s.top :: s.below, generator })
        else { s with generator }.advance
      (.ok (.executed lines (some ⟨lines.start, taken⟩) transition), s)

end Stepper
end BranchLab
