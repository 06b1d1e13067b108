import BranchLab.Predictor.Geometry

/-! What the command line asks for. Options may stand in any order around the one input; the last
value of an option counts. -/

namespace BranchLab.CommandLine

def usageLines : List String :=
  ["Usage: ibp <command> [options]",
   "",
   "Commands:",
   "  check <input>            Parse and scope-check a program",
   "  run   <input> [options]  Step a program through the branch predictor",
   "",
   "Run options:",
   "      --steps <N>        Statements to execute (default: 100)",
   "      --table-size <M>   Entries per predictor table (default: 16)",
   "      --counter <1|2>    Counter width in bits (default: 2)",
   "      --history <P>      Global history bits; 2^P tables (default: 2)",
   "      --seed <S>         Seed for rand(..) (default: 0)",
   "      --delay-ms <D>     Pause between steps in milliseconds (default: 0)",
   "      --trace            Print every execution event to stderr",
   "  -h, --help             Show this help message",
   "",
   "Inputs ending in .md contribute only their ```ibp fenced blocks.",
   "",
   "Examples:",
   "  ibp check loop.ibp",
   "  ibp run loop.ibp --steps 500 --counter 1 --history 0",
   "  ibp run lesson.md --delay-ms 250 --trace",
   ""]

def usage : String := "\n".intercalate usageLines

inductive UsageError where
  | missingCommand
  | unknownCommand (text : String)
  | unknownOption (text : String)
  | manyInputs
  | missingInput
  | missingValue (flag : String)
  | invalidValue (flag text : String)
  | helpWanted
deriving DecidableEq

structure RunOptions where
  steps : Nat := 100
  tableSize : Option Int := none
  counter : Option String := none
  history : Option Int := none
  seed : UInt64 := 0
  delay : Nat := 0
  trace : Bool := false
deriving DecidableEq

inductive Command where
  | help
  | check (input : String)
  | run (input : String) (options : RunOptions)
deriving DecidableEq

def asksHelp (arg : String) : Bool := arg = "--help" ∨ arg = "-h"

def checkInput (input : Option String) : List String → Except UsageError String
  | [] =>
    match input with
    | some path => .ok path
    | none => .error .missingInput
  | arg :: rest =>
    if asksHelp arg then .error .helpWanted
    else if arg.startsWith "-" then .error (.unknownOption arg)
    else if input.isSome then .error .manyInputs
    else checkInput (some arg) rest

inductive Flag where
  | steps | tableSize | counter | history | seed | delay
deriving DecidableEq

def Flag.ofText : String → Option Flag
  | "--steps" => some steps
  | "--table-size" => some tableSize
  | "--counter" => some counter
  | "--history" => some history
  | "--seed" => some seed
  | "--delay-ms" => some delay
  | _ => none

def signedWord? (text : List Char) : Option Int := Text.signed? (-2 ^ 63) (2 ^ 63 - 1) text

/-- The options with the value of a flag, blanks around the value aside; none if it has the wrong
form. -/
def Flag.set? (flag : Flag) (value : String) (options : RunOptions) : Option RunOptions :=
  let text := Text.trim value.toList
  match flag with
  | steps => (Text.unsigned? (2 ^ 32 - 1) text).map fun n => { options with steps := n }
  | tableSize => (signedWord? text).map fun n => { options with tableSize := some n }
  | counter => some { options with counter := some (String.ofList text) }
  | history => (signedWord? text).map fun n => { options with history := some n }
  | seed => (Text.unsigned? (2 ^ 64 - 1) text).map fun n => { options with seed := .ofNat n }
  | delay => (Text.unsigned? (2 ^ 64 - 1) text).map fun n => { options with delay := n }

def runArguments (input : Option String) (options : RunOptions) :
    List String → Except UsageError (String × RunOptions)
  | [] =>
    match input with
    | some path => .ok (path, options)
    | none => .error .missingInput
  | arg :: rest =>
    if asksHelp arg then .error .helpWanted
    else if arg = "--trace" then runArguments input { options with trace := true } rest
    else
      match Flag.ofText arg with
      | some flag =>
        match rest with
        | [] => .error (.missingValue arg)
        | value :: rest =>
          match flag.set? value options with
          | some options => runArguments input options rest
          | none => .error (.invalidValue arg value)
      | none =>
        if arg.startsWith "-" then .error (.unknownOption arg)
        else if input.isSome then .error .manyInputs
        else runArguments (some arg) options rest

def Command.ofArguments : List String → Except UsageError Command
  | [] => .error .missingCommand
  | first :: rest =>
    if asksHelp first then .ok .help
    else if first = "check" then (checkInput none rest).map .check
    else if first = "run" then
      (runArguments none {} rest).map fun (input, options) => .run input options
    else .error (.unknownCommand first)

def Command.input? : Command → Option String
  | help => none
  | check input => some input
  | run input _ => some input

def UsageError.message : UsageError → String
  | missingCommand => "missing command"
  | unknownCommand text => "unknown command: " ++ text
  | unknownOption text => "unknown option: " ++ text
  | manyInputs => "multiple input paths provided"
  | missingInput => "missing input path"
  | missingValue flag => "missing value for " ++ flag
  | invalidValue flag text => "invalid value for " ++ flag ++ ": " ++ text
  | helpWanted => usage

def RunOptions.geometry (options : RunOptions) : Except GeometryError Geometry :=
  let base := Geometry.default
  if options.tableSize = none ∧ options.counter = none ∧ options.history = none then .ok base
  else
    Geometry.ofInput (options.tableSize.getD base.tableSize)
      (options.counter.getD (toString base.mode.bits)) (options.history.getD base.historyBits)

end BranchLab.CommandLine
