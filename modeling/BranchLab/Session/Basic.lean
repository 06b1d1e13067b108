import BranchLab.Predictor.Bank

/-! A session: a slot for a program in execution, a predictor and its account. Changes of the program
leave the predictor alone and changes of the predictor leave the program alone. Each change of
what is being run starts a new generation, and runs started in an older one are stale. -/

namespace BranchLab

open Chance (Generator)

inductive SessionError where
  | notVerified
  | scope (error : ScopeError)
  | eval (error : EvalError)
  | geometry (error : GeometryError)
  | staleRun
deriving DecidableEq

def SessionError.message : SessionError → String
  | notVerified => "no verified program; compile before stepping"
  | scope error => error.message
  | eval error => "evaluation failed: " ++ error.message
  | geometry error => "invalid predictor configuration: " ++ error.message
  | staleRun => "auto-run was cancelled by a later edit or reset"

structure Session where
  stepper : Option Stepper
  bank : Bank
  ledger : Ledger
  generation : UInt64
  seeds : Generator

namespace Session

/-- A session without a program. The seed decides what all programs will draw. -/
def start (geometry : Geometry) (seed : UInt64) : Session :=
  ⟨none, .fresh geometry, .empty, 0, .ofSeed seed⟩

def isCompiled (s : Session) : Bool := s.stepper.isSome

/-- Starts a new generation, in which no earlier ticket is valid. -/
def supersede (s : Session) : Session := { s with generation := s.generation + 1 }

/-- Checks a program and installs it. The check takes the next seed of the session whether or not
the program passes; a program that fails leaves the installed one in place. -/
def compile (s : Session) (program : Program) : Except SessionError Unit × Session :=
  let (seed, seeds) := s.seeds.next
  match Stepper.ofProgram program seed with
  | .ok stepper => (.ok (), { s with stepper := some stepper, seeds }.supersede)
  | .error error => (.error (.scope error), { s with seeds })

def edit (s : Session) : Session := { s with stepper := none }.supersede

def resetExecution (s : Session) : Except SessionError Unit × Session :=
  match s.stepper with
  | none => (.error .notVerified, s)
  | some stepper => (.ok (), { s with stepper := some stepper.reset }.supersede)

/-- Replaces the predictor by a fresh one; the account is kept. -/
def reconfigure (s : Session) (geometry : Geometry) : Session :=
  { s with bank := .fresh geometry }

def configure (s : Session) (tableSize : Int) (mode : String) (historyBits : Int) :
    Except SessionError Unit × Session :=
  match Geometry.ofInput tableSize mode historyBits with
  | .ok geometry => (.ok (), s.reconfigure geometry)
  | .error error => (.error (.geometry error), s)

/-- Empties the account; the predictor is kept. -/
def resetAccuracy (s : Session) : Session := { s with ledger := .empty }

end Session
end BranchLab
