import BranchLab.Session.AutoRun

/-! Everything that can be asked of a session, as data. An operation is performed on a session and the
trace that its events go to, and a history is a list of operations performed one after the other. -/

namespace BranchLab

def Traced.map {α β : Type} (f : α → β) (done : Traced α) : Traced β :=
  ⟨done.answer.map f, done.session, done.trace⟩

namespace Session

inductive Operation where
  | compile (program : Program)
  | edit
  | resetExecution
  | configure (tableSize : Int) (mode : String) (historyBits : Int)
  | reconfigure (geometry : Geometry)
  | resetAccuracy
  | step
  | stepTraced
  | run (boundary : RunBoundary) (most : Nat)
  | beginAutoRun (steps : Nat)
  | cancelAutoRun
  | advanceAutoRun (ticket : Ticket)
  | runPaced (ticket : Ticket) (pacer : Pacer)

inductive Reply where
  | done
  | stepped (step : SessionStep)
  | ran (summary : RunSummary)
  | issued (ticket : Ticket)
  | advanced (step : Option SessionStep) (ticket : Ticket)
  | paced (run : PacedRun)

/-- An operation that reports no events leaves the trace as it is. -/
def untraced {α : Type} (reply : α → Reply) (done : Except SessionError α × Session)
    (trace : Trace) : Traced Reply :=
  ⟨done.1.map reply, done.2, trace⟩

def perform (s : Session) (operation : Operation) (trace : Trace) : Traced Reply :=
  match operation with
  | .compile program => untraced (fun _ => .done) (s.compile program) trace
  | .edit => ⟨.ok .done, s.edit, trace⟩
  | .resetExecution => untraced (fun _ => .done) s.resetExecution trace
  | .configure tableSize mode historyBits =>
    untraced (fun _ => .done) (s.configure tableSize mode historyBits) trace
  | .reconfigure geometry => ⟨.ok .done, s.reconfigure geometry, trace⟩
  | .resetAccuracy => ⟨.ok .done, s.resetAccuracy, trace⟩
  | .step => untraced .stepped s.step trace
  | .stepTraced => (s.stepTraced trace).map .stepped
  | .run boundary most => (s.run boundary most trace).map .ran
  | .beginAutoRun steps => untraced .issued (s.beginAutoRun steps) trace
  | .cancelAutoRun => ⟨.ok .done, s.cancelAutoRun, trace⟩
  | .advanceAutoRun ticket =>
    (s.advanceAutoRun ticket trace).map fun (step, ticket) => .advanced step ticket
  | .runPaced ticket pacer => (s.runPaced ticket pacer trace).map .paced

def after (s : Session) (trace : Trace) (operations : List Operation) : Session × Trace :=
  operations.foldl (fun (s, trace) operation =>
    ((s.perform operation trace).session, (s.perform operation trace).trace)) (s, trace)

/-- What the predictor makes of the branch that a step resolved, if it resolved one. -/
def score (s : Session) : Option BranchEvent → Option Prediction × Bank × Ledger
  | none => (none, s.bank, s.ledger)
  | some event =>
    let (prediction, bank, ledger) := s.bank.predictAndUpdate event s.ledger
    (some prediction, bank, ledger)

theorem stepTraced_of_none {s : Session} (empty : s.stepper = none) (trace : Trace) :
    s.stepTraced trace = ⟨.error .notVerified, s, trace⟩ := by
  obtain ⟨slot, bank, ledger, generation, seeds⟩ := s
  subst empty
  rfl

/-- A step of the installed program moves it on, and the predictor scores the branch. -/
theorem stepTraced_of_some {s : Session} {stepper next : Stepper} {outcome : StepOutcome}
    (installed : s.stepper = some stepper) (stepped : stepper.step = (.ok outcome, next))
    (trace : Trace) :
    s.stepTraced trace =
      ⟨.ok ⟨outcome, (s.score outcome.branch).1⟩,
        { s with
          stepper := some next
          bank := (s.score outcome.branch).2.1
          ledger := (s.score outcome.branch).2.2 },
        trace ++ (SessionStep.mk outcome (s.score outcome.branch).1).events⟩ := by
  obtain ⟨slot, bank, ledger, generation, seeds⟩ := s
  subst installed
  simp only [stepTraced, stepped]
  cases outcome.branch <;> rfl

end Session
end BranchLab
