import BranchLab.Session.AutoRun
import BranchLab.Source.Reader

/-! A session for one user who edits, steps and runs a program. At most one automatic run is live; it
is known by a number, and an edit, a restart, a stop, a newer run or a new program ends it. A text
with a syntax error changes nothing. -/

namespace BranchLab

inductive WorkbenchError where
  | malformed (error : Source.SyntaxError)
  | session (error : SessionError)
deriving DecidableEq

def WorkbenchError.message : WorkbenchError → String
  | malformed error => error.message
  | session error => error.message

structure LiveRun where
  number : UInt32
  ticket : Ticket
deriving DecidableEq

structure Workbench where
  session : Session
  live : Option LiveRun
  lastNumber : UInt32

structure StepReport where
  step : SessionStep
  iteration : UInt64
  nextLines : Option LineRange
deriving DecidableEq

namespace Workbench

def start (seed : UInt64) : Workbench := ⟨.start .default seed, none, 0⟩

def settle {α : Type} (w : Workbench) (done : Except SessionError α × Session) :
    Except WorkbenchError α × Workbench :=
  (done.1.mapError .session, { w with session := done.2 })

def report (session : Session) (step : SessionStep) : StepReport where
  step
  iteration := (session.stepper.map Stepper.iteration).getD 0
  nextLines := session.stepper.bind Stepper.currentLines

def compile (w : Workbench) (text : String) : Except WorkbenchError Unit × Workbench :=
  match Program.ofText text with
  | .error error => (.error (.malformed error), w)
  | .ok program => { w with live := none }.settle (w.session.compile program)

def edit (w : Workbench) : Workbench := { w with live := none, session := w.session.edit }

def restart (w : Workbench) : Except WorkbenchError Unit × Workbench :=
  { w with live := none }.settle w.session.resetExecution

def step (w : Workbench) : Except WorkbenchError StepReport × Workbench :=
  let (answer, session) := w.session.step
  w.settle (answer.map (report session), session)

def beginAutoRun (w : Workbench) (steps : Nat) : Except WorkbenchError UInt32 × Workbench :=
  match w.session.beginAutoRun steps with
  | (.error error, session) => (.error (.session error), { w with session })
  | (.ok ticket, session) =>
    (.ok (w.lastNumber + 1), ⟨session, some ⟨w.lastNumber + 1, ticket⟩, w.lastNumber + 1⟩)

/-- The next step of the automatic run with a number; none if that run is not live or has ended. -/
def autoStep (w : Workbench) (number : UInt32) :
    Except WorkbenchError (Option StepReport) × Workbench :=
  match w.live with
  | none => (.ok none, w)
  | some run =>
    if run.number ≠ number then (.ok none, w)
    else
      match w.session.advanceAutoRun run.ticket (Array.empty : Trace) with
      | ⟨.ok (some step, ticket), session, _⟩ =>
        let live := if ticket.isFinished then none else some { run with ticket }
        (.ok (some (report session step)), { w with session, live })
      | ⟨.ok (none, _), session, _⟩ => (.ok none, { w with session, live := none })
      | ⟨.error .staleRun, session, _⟩ => (.ok none, { w with session, live := none })
      | ⟨.error error, session, _⟩ =>
        (.error (.session error), { w with session, live := none })

def stop (w : Workbench) : Workbench :=
  { w with live := none, session := w.session.cancelAutoRun }

def configure (w : Workbench) (tableSize : Int) (mode : String) (historyBits : Int) :
    Except WorkbenchError Unit × Workbench :=
  w.settle (w.session.configure tableSize mode historyBits)

def resetAccuracy (w : Workbench) : Workbench := { w with session := w.session.resetAccuracy }

end Workbench
end BranchLab
