import BranchLab.Session.Run

/-! Automatic runs. A ticket permits a number of steps in the generation in which it was issued, and
a paced run asks before each step after the first whether to go on. -/

namespace BranchLab

/-- Permission for a number of steps in one generation of a session. -/
structure Ticket where
  generation : UInt64
  remaining : Nat
deriving DecidableEq

def Ticket.isFinished (ticket : Ticket) : Bool := ticket.remaining == 0

inductive Pace where
  | goOn | cancel
deriving DecidableEq

abbrev Pacer := Nat → Pace

def Pacer.unhurried : Pacer := fun _ => .goOn

/-- Cancels once a number of pauses have been granted. -/
def Pacer.granting (pauses : Nat) : Pacer := fun n => if n < pauses then .goOn else .cancel

structure PacedRun where
  executed : Nat := 0
  pauses : Nat := 0
deriving DecidableEq

namespace Session

def beginAutoRun (s : Session) (steps : Nat) : Except SessionError Ticket × Session :=
  if s.isCompiled then (.ok ⟨s.supersede.generation, steps⟩, s.supersede)
  else (.error .notVerified, s)

def cancelAutoRun (s : Session) : Session := s.supersede

/-- The next step that a ticket permits with the ticket after it; no step when the ticket is finished
or the program is empty, which finishes it. -/
def advanceAutoRun (s : Session) (ticket : Ticket) (trace : Trace) :
    Traced (Option SessionStep × Ticket) :=
  if ticket.generation ≠ s.generation then ⟨.error .staleRun, s, trace⟩
  else if ticket.isFinished then ⟨.ok (none, ticket), s, trace⟩
  else
    match s.stepTraced trace with
    | ⟨.error error, s, trace⟩ => ⟨.error error, s, trace⟩
    | ⟨.ok step, s, trace⟩ =>
      if step.outcome = .idle then ⟨.ok (none, { ticket with remaining := 0 }), s, trace⟩
      else ⟨.ok (some step, { ticket with remaining := ticket.remaining - 1 }), s, trace⟩

/-- A paced run after some steps. At most `turns` further steps are looked for. -/
def runPacedFrom (pacer : Pacer) :
    (turns : Nat) → PacedRun → Session → Ticket → Trace → Traced PacedRun
  | 0, run, s, _, trace => ⟨.ok run, s, trace⟩
  | turns + 1, run, s, ticket, trace =>
    match s.advanceAutoRun ticket trace with
    | ⟨.error error, s, trace⟩ => ⟨.error error, s, trace⟩
    | ⟨.ok (none, _), s, trace⟩ => ⟨.ok run, s, trace⟩
    | ⟨.ok (some _, ticket), s, trace⟩ =>
      if ticket.isFinished then ⟨.ok ⟨run.executed + 1, run.pauses⟩, s, trace⟩
      else
        match pacer run.pauses with
        | .cancel => ⟨.ok ⟨run.executed + 1, run.pauses⟩, s.cancelAutoRun, trace⟩
        | .goOn => runPacedFrom pacer turns ⟨run.executed + 1, run.pauses + 1⟩ s ticket trace

/-- Runs a ticket to its end, with a pause between steps. A pause that cancels ends the run and makes
the ticket stale. -/
def runPaced (s : Session) (ticket : Ticket) (pacer : Pacer) (trace : Trace) : Traced PacedRun :=
  runPacedFrom pacer (ticket.remaining + 1) {} s ticket trace

end Session
end BranchLab
