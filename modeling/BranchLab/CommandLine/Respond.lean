import BranchLab.CommandLine.Arguments
import BranchLab.Session.AutoRun
import BranchLab.Source.Load

/-! The response of the command to its arguments: lines for the two outputs with pauses between
them, and an exit code. It depends on nothing but the arguments and the texts of the files. A run
prints a line for each event if they are asked for, and at the end the counters of the predictor and
the account of correct predictions. -/

namespace BranchLab.CommandLine

def direction (taken : Bool) : String := if taken then "taken" else "not-taken"

def describe : TraceEvent → String
  | .statementExecuted lines => "line " ++ lines.text
  | .branchResolved pc taken => s!"branch pc={pc} {direction taken}"
  | .predictionRecorded pc predicted correct =>
    let verdict := if correct then "hit" else "miss"
    s!"predict pc={pc} {direction predicted} ({verdict})"
  | .iterationStarted iteration => "iteration " ++ toString iteration.toNat

def tallyText (tally : Tally) : String :=
  let percentage := match tally.ratio with
    | none => "n/a"
    | some ratio => Text.tenths (ratio * 100.0) ++ "%"
  s!"{tally.correct}/{tally.total} ({percentage})"

def headline (session : Session) (executed : Nat) : String :=
  let geometry := session.bank.geometry
  let iteration := ((session.stepper.map Stepper.iteration).getD 0).toNat
  s!"Executed {executed} statements, now in iteration {iteration} " ++
    s!"(predictor: {geometry.tableSize} entries, {geometry.mode.text}, " ++
    s!"{geometry.historyBits} history bits)"

def bankLines (bank : Bank) : List String :=
  let history :=
    if bank.geometry.historyBits = 0 then [] else ["History: " ++ bank.historyText]
  let tables := bank.labels.zipIdx.map fun (labels, index) =>
    s!"Table {index}: " ++ " ".intercalate labels
  history ++ tables

def ledgerLines (ledger : Ledger) : List String :=
  ("Accuracy: " ++ tallyText ledger.overall) ::
    ledger.sites.entries.map fun (pc, tally) => s!"  line {pc}: {tallyText tally}"

def reportLines (session : Session) (executed : Nat) : List String :=
  headline session executed :: bankLines session.bank ++ ledgerLines session.ledger

open Source (ReadFile load)

inductive Emission where
  | out (line : String)
  | err (line : String)
  | pause (milliseconds : Nat)
deriving DecidableEq

structure Response where
  emissions : List Emission
  code : Nat
deriving DecidableEq

namespace Response

def failure (message : String) : Response := ⟨[.err message], 1⟩

def stdout (response : Response) : String :=
  "".intercalate (response.emissions.map fun
    | .out line => line ++ "\n"
    | _ => "")

def stderr (response : Response) : String :=
  "".intercalate (response.emissions.map fun
    | .err line => line ++ "\n"
    | _ => "")

end Response

def check (read : ReadFile) (input : String) : Response :=
  match load read input with
  | .error error => .failure error.message
  | .ok loaded =>
    match loaded.program.check (.ofIteration 0) with
    | .error error => .failure (input ++ ": error: " ++ error.message)
    | .ok () =>
      let statements := loaded.program.statements.length
      let sites := loaded.program.branchSites.length
      ⟨[.out s!"{input}: ok ({statements} top-level statements, {sites} branch sites)"], 0⟩

/-- What a run emits while it goes on: a line for each event if they are wanted, and the pause before
each statement but the first if there is a delay. -/
def progress (options : RunOptions) (events : List TraceEvent) : List Emission :=
  events.zipIdx.flatMap fun (event, index) =>
    let waits : Bool := match event with
      | .statementExecuted _ => options.delay ≠ 0 ∧ index ≠ 0
      | _ => false
    (if waits then [.pause options.delay] else []) ++
      (if options.trace then [.err ("trace: " ++ describe event)] else [])

def run (read : ReadFile) (input : String) (options : RunOptions) : Response :=
  match load read input with
  | .error error => .failure error.message
  | .ok loaded =>
    match options.geometry with
    | .error error => .failure ("error: " ++ (SessionError.geometry error).message)
    | .ok geometry =>
      let refusal (error : SessionError) := Emission.err (input ++ ": error: " ++ error.message)
      match (Session.start geometry options.seed).compile loaded.program with
      | (.error error, _) => ⟨[refusal error], 1⟩
      | (.ok (), session) =>
        match session.beginAutoRun options.steps with
        | (.error error, _) => ⟨[refusal error], 1⟩
        | (.ok ticket, session) =>
          let done := session.runPaced ticket .unhurried (Array.empty : Trace)
          let emissions := progress options done.trace.toList
          match done.answer with
          | .error error => ⟨emissions ++ [refusal error], 1⟩
          | .ok summary =>
            ⟨emissions ++ (reportLines done.session summary.executed).map .out, 0⟩

def respond (read : ReadFile) (arguments : List String) : Response :=
  match Command.ofArguments arguments with
  | .ok .help => ⟨[.out usage], 0⟩
  | .ok (.check input) => check read input
  | .ok (.run input options) => run read input options
  | .error .helpWanted => ⟨[.out usage], 1⟩
  | .error error => ⟨[.err ("error: " ++ error.message), .err usage], 1⟩

end BranchLab.CommandLine
