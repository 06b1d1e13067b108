import BranchLab.Session.Basic

/-! Steps of a session and batches of them. What happens is also reported as events, appended to a
trace: for each statement its lines, then for a guarded block the branch and the prediction, then
the iteration that it started. -/

namespace BranchLab

inductive TraceEvent where
  | statementExecuted (lines : LineRange)
  | branchResolved (pc : Nat) (taken : Bool)
  | predictionRecorded (pc : Nat) (predicted correct : Bool)
  | iterationStarted (iteration : UInt64)
deriving DecidableEq

abbrev Trace := Array TraceEvent

structure SessionStep where
  outcome : StepOutcome
  prediction : Option Prediction
deriving DecidableEq

structure Traced (α : Type) where
  answer : Except SessionError α
  session : Session
  trace : Trace

def Transition.events : Transition → List TraceEvent
  | newIteration iteration => [.iterationStarted iteration]
  | _ => []

def SessionStep.events : SessionStep → List TraceEvent
  | ⟨.idle, _⟩ => []
  | ⟨.executed lines (some event) transition, some prediction⟩ =>
    .statementExecuted lines :: .branchResolved event.pc event.taken ::
      .predictionRecorded event.pc prediction.predicted prediction.correct :: transition.events
  | ⟨.executed lines _ transition, _⟩ => .statementExecuted lines :: transition.events

inductive RunBoundary where
  | steps | nextBranch | iterationEnd
deriving DecidableEq

def RunBoundary.isMet : RunBoundary → StepOutcome → Bool
  | steps, _ => false
  | nextBranch, outcome => outcome.branch.isSome
  | iterationEnd, outcome => outcome.startedIteration

structure RunSummary where
  steps : Nat := 0
  branches : Nat := 0
  final : StepOutcome := .idle
deriving DecidableEq

namespace Session

/-- Executes a statement and lets the predictor score and learn the branch that it resolves. -/
def stepTraced (s : Session) (trace : Trace) : Traced SessionStep :=
  match s with
  | ⟨none, bank, ledger, generation, seeds⟩ =>
    ⟨.error .notVerified, ⟨none, bank, ledger, generation, seeds⟩, trace⟩
  | ⟨some stepper, bank, ledger, generation, seeds⟩ =>
    match stepper.step with
    | (.error error, stepper) =>
      ⟨.error (.eval error), ⟨some stepper, bank, ledger, generation, seeds⟩, trace⟩
    | (.ok outcome, stepper) =>
      match outcome.branch with
      | none =>
        let step : SessionStep := ⟨outcome, none⟩
        ⟨.ok step, ⟨some stepper, bank, ledger, generation, seeds⟩, trace ++ step.events⟩
      | some event =>
        let (prediction, bank, ledger) := bank.predictAndUpdate event ledger
        let step : SessionStep := ⟨outcome, some prediction⟩
        ⟨.ok step, ⟨some stepper, bank, ledger, generation, seeds⟩, trace ++ step.events⟩

def step (s : Session) : Except SessionError SessionStep × Session :=
  let done := s.stepTraced (Array.empty : Trace)
  (done.answer, done.session)

def runFrom (boundary : RunBoundary) :
    (left : Nat) → RunSummary → Session → Trace → Traced RunSummary
  | 0, sum, s, trace => ⟨.ok sum, s, trace⟩
  | left + 1, sum, s, trace =>
    match s.stepTraced trace with
    | ⟨.error error, s, trace⟩ => ⟨.error error, s, trace⟩
    | ⟨.ok step, s, trace⟩ =>
      if step.outcome = .idle then ⟨.ok { sum with final := .idle }, s, trace⟩
      else
        let sum := ⟨sum.steps + 1, sum.branches + step.prediction.isSome.toNat, step.outcome⟩
        if boundary.isMet step.outcome then ⟨.ok sum, s, trace⟩
        else runFrom boundary left sum s trace

/-- Steps up to `most` times, less if a step meets the boundary or there is nothing to execute.
An error ends the batch and keeps the steps that were taken. -/
def run (s : Session) (boundary : RunBoundary) (most : Nat) (trace : Trace) : Traced RunSummary :=
  runFrom boundary most {} s trace

end Session
end BranchLab
