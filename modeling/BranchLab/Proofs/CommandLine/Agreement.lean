import BranchLab.CommandLine.Respond
import BranchLab.Proofs.Session.Batches
import BranchLab.Proofs.Session.Drivers
import BranchLab.Proofs.Session.Refusals
import BranchLab.Proofs.Source.Fences
import BranchLab.Proofs.Source.Messages

/-! A program is refused in the same words when it is checked and when it is run. One that passes the
check is run to the end, since no evaluation of it can fail. -/

namespace BranchLab.CommandLine

open Source (ReadFile load programText)

/-- The line with which the text of an input is refused: what is wrong with it and where, or the name
that nothing binds. -/
inductive Refusal (input content : String) : String → Prop
  | malformed {error : Source.SyntaxError}
      (unread : Program.ofText (programText input content) = .error error) :
      Refusal input content (input ++ ":" ++ toString error.place.line ++ ":" ++
        toString error.place.column ++ ": error: " ++ error.cause.message)
  | unscoped {program : Program} {error : ScopeError}
      (parsed : Program.ofText (programText input content) = .ok program)
      (rejected : program.check (.ofIteration 0) = .error error) :
      Refusal input content (input ++ ": error: " ++ error.message)

section Responding

variable {read : ReadFile} {input content : String} {options : RunOptions} {geometry : Geometry}
  {program : Program}

theorem Refusal.oneLine {line : String} (refusal : Refusal input content line)
    (plain : OneLine input) : OneLine line := by
  have words : OneLine ":" ∧ OneLine ": error: " := by simp [OneLine]
  cases refusal with
  | malformed unread => simp [plain, words, Source.oneLine_of_malformed unread]
  | unscoped parsed rejected => simp [plain, words, Source.oneLine_of_unscoped parsed rejected]

theorem load_of_malformed {error : Source.SyntaxError} (readable : read input = .ok content)
    (unread : Program.ofText (programText input content) = .error error) :
    load read input = .error (.malformed input error) := by
  simp only [load, readable, unread]

theorem load_of_parsed (readable : read input = .ok content)
    (parsed : Program.ofText (programText input content) = .ok program) :
    load read input = .ok ⟨programText input content, program⟩ := by
  simp only [load, readable, parsed]

theorem malformed_message (input : String) (error : Source.SyntaxError) :
    (Source.LoadError.malformed input error).message =
      input ++ ":" ++ toString error.place.line ++ ":" ++ toString error.place.column ++ ": error: " ++
        error.cause.message := by
  simp only [Source.LoadError.message, Source.Location.text, String.append_assoc]

theorem Refusal.check {line : String} (refusal : Refusal input content line)
    (readable : read input = .ok content) : check read input = .failure line := by
  cases refusal with
  | @malformed error unread =>
    simp only [CommandLine.check, load_of_malformed readable unread, malformed_message]
  | unscoped parsed rejected =>
    simp only [CommandLine.check, load_of_parsed readable parsed, rejected]

theorem Refusal.run {line : String} (refusal : Refusal input content line)
    (readable : read input = .ok content) (shaped : options.geometry = .ok geometry) :
    run read input options = .failure line := by
  cases refusal with
  | @malformed error unread =>
    simp only [CommandLine.run, load_of_malformed readable unread, malformed_message]
  | unscoped parsed rejected =>
    have refused := Session.compile_of_rejected (.start geometry options.seed) rejected
    simp only [CommandLine.run, load_of_parsed readable parsed, shaped, refused]
    rfl

theorem check_of_passed (readable : read input = .ok content)
    (parsed : Program.ofText (programText input content) = .ok program)
    (passed : program.check (.ofIteration 0) = .ok ()) : (check read input).code = 0 := by
  simp only [check, load_of_parsed readable parsed, passed]

theorem progress_of_silent (undelayed : options.delay = 0) (untraced : options.trace = false)
    (events : List TraceEvent) : progress options events = [] := by
  rw [progress, List.flatMap_eq_nil_iff]
  rintro ⟨event, index⟩ -
  cases event <;> simp [undelayed, untraced]

theorem intercalate_empty_cons (text : String) (texts : List String) :
    "".intercalate (text :: texts) = text ++ "".intercalate texts := by
  cases texts <;> simp

theorem Response.stdout_out (line : String) (lines : List String) (code : Nat) :
    (Response.mk ((line :: lines).map .out) code).stdout =
      line ++ "\n" ++ (Response.mk (lines.map .out) code).stdout :=
  intercalate_empty_cons ..

theorem Response.stderr_out (lines : List String) (code : Nat) :
    (Response.mk (lines.map .out) code).stderr = "" := by
  induction lines with
  | nil => rfl
  | cons line lines ih => exact (intercalate_empty_cons ..).trans ih

theorem stdout_report {session : Session} {stepper : Stepper}
    (installed : session.stepper = some stepper) (shaped : session.bank.geometry = geometry)
    (executed : Nat) :
    ∃ others, (Response.mk ((reportLines session executed).map .out) 0).stdout =
      "Executed " ++ toString executed ++ " statements, now in iteration " ++
        toString stepper.iteration.toNat ++ " (predictor: " ++ toString geometry.tableSize ++
        " entries, " ++ geometry.mode.text ++ ", " ++ toString geometry.historyBits ++
        " history bits)" ++ "\n" ++ others := by
  let others := bankLines session.bank ++ ledgerLines session.ledger
  refine ⟨(Response.mk (others.map .out) 0).stdout, ?_⟩
  rw [reportLines, List.cons_append, Response.stdout_out]
  simp only [headline, installed, shaped, Option.map_some, Option.getD_some, String.append_assoc]
  rfl

theorem run_of_passed (readable : read input = .ok content)
    (shaped : options.geometry = .ok geometry)
    (parsed : Program.ofText (programText input content) = .ok program)
    (passed : program.check (.ofIteration 0) = .ok ()) :
    let compiled := ((Session.start geometry options.seed).compile program).2
    let executed := if program.statements = [] then 0 else options.steps
    ∃ events, run read input options = ⟨progress options events ++
      (reportLines (compiled.stepped Array.empty options.steps).1 executed).map .out, 0⟩ := by
  intro compiled executed
  have answered := (Session.start geometry options.seed).compile_of_passed passed
  obtain ⟨-, seed, installed, -⟩ := Session.compile_ok answered
  have sound : compiled.Sound := ((Session.sound_start _ _).compile program).1
  have compiles : (Session.start geometry options.seed).compile program = (.ok (), compiled) :=
    Prod.ext answered rfl
  have begins : compiled.beginAutoRun options.steps =
      (.ok ⟨compiled.supersede.generation, options.steps⟩, compiled.supersede) := by
    rw [Session.beginAutoRun, if_pos]
    rw [Session.isCompiled, installed]
    rfl
  obtain ⟨paced, ended, count⟩ := sound.supersede.runPaced_unhurried installed
    ⟨compiled.supersede.generation, options.steps⟩ rfl Array.empty
  rw [Session.stepped_supersede] at ended
  simp only [run, load_of_parsed readable parsed, shaped, compiles, begins, ended]
  exact ⟨_, by rw [count]; rfl⟩

/-- A text is refused, or it is a program that passes the check. -/
theorem refused_or_passed (input content : String) :
    (∃ line, Refusal input content line) ∨
      ∃ program, Program.ofText (programText input content) = .ok program ∧
        program.check (.ofIteration 0) = .ok () := by
  cases read : Program.ofText (programText input content) with
  | error error => exact .inl ⟨_, .malformed read⟩
  | ok program =>
    cases checked : program.check (.ofIteration 0) with
    | error error => exact .inl ⟨_, .unscoped read checked⟩
    | ok done => exact .inr ⟨program, rfl, checked⟩

theorem respond_check {arguments : List String}
    (asked : Command.ofArguments arguments = .ok (.check input)) :
    respond read arguments = check read input := by
  rw [respond, asked]

theorem respond_run {arguments : List String}
    (asked : Command.ofArguments arguments = .ok (.run input options)) :
    respond read arguments = run read input options := by
  rw [respond, asked]

end Responding

/-- The check of a file that can be read and its run, with a predictor that exists and neither pauses
nor events, succeed together. If they fail they print the same line and nothing else, a syntax error
with its place or a scope error. If they succeed, the run executes all the statements it is asked for,
or none of an empty program, and reports the session that as many steps lead to. The first line that it
prints says how many statements it has executed. -/
theorem check_and_run_agree (read : ReadFile) (checking running : List String)
    (input content : String) (options : RunOptions) (geometry : Geometry)
    (checks : Command.ofArguments checking = .ok (.check input))
    (runs : Command.ofArguments running = .ok (.run input options))
    (readable : read input = .ok content) (shaped : options.geometry = .ok geometry)
    (undelayed : options.delay = 0) (untraced : options.trace = false) :
    let checked := respond read checking
    let ran := respond read running
    (ran.code = 0 ↔ checked.code = 0) ∧
    (checked.code ≠ 0 → ran = checked ∧ checked.code = 1 ∧ checked.stdout = "" ∧
      ∃ line, checked.stderr = line ++ "\n" ∧ Refusal input content line ∧
        (OneLine input → OneLine line)) ∧
    (checked.code = 0 → ∃ program stepper,
      let compiled := ((Session.start geometry options.seed).compile program).2
      let executed := if program.statements = [] then 0 else options.steps
      Program.ofText (programText input content) = .ok program ∧
      program.check (.ofIteration 0) = .ok () ∧
      compiled.stepper = some stepper ∧ (stepper.course options.steps).length = executed ∧
      ran = ⟨(reportLines (compiled.stepped Array.empty options.steps).1 executed).map .out, 0⟩ ∧
      ran.stderr = "" ∧
      ∃ others, ran.stdout = "Executed " ++ toString executed ++ " statements, now in iteration " ++
        toString (stepper.stepped options.steps).iteration.toNat ++ " (predictor: " ++
        toString geometry.tableSize ++ " entries, " ++ geometry.mode.text ++ ", " ++
        toString geometry.historyBits ++ " history bits)" ++ "\n" ++ others) := by
  intro checked ran
  have asked : checked = check read input := respond_check checks
  have started : ran = run read input options := respond_run runs
  rcases refused_or_passed input content with ⟨line, refusal⟩ | ⟨program, parsed, passed⟩
  · have rejected : checked = .failure line := asked.trans (refusal.check readable)
    have stopped : ran = checked :=
      (started.trans (refusal.run readable shaped)).trans rejected.symm
    have code : checked.code = 1 := by rw [rejected]; rfl
    refine ⟨by rw [stopped], fun _ => ⟨stopped, code, ?_, line, ?_, refusal, refusal.oneLine⟩,
      fun done => ?_⟩
    · rw [rejected]
      rfl
    · rw [rejected]
      rfl
    · rw [code] at done
      cases done
  · have answered : checked.code = 0 := asked ▸ check_of_passed readable parsed passed
    obtain ⟨events, ended⟩ := run_of_passed readable shaped parsed passed
    rw [progress_of_silent undelayed untraced, List.nil_append, ← started] at ended
    have succeeded : ran.code = 0 := congrArg Response.code ended
    refine ⟨iff_of_true succeeded answered, fun failed => absurd answered failed, fun _ => ?_⟩
    obtain ⟨-, seed, installed, -⟩ :=
      Session.compile_ok ((Session.start geometry options.seed).compile_of_passed passed)
    have sound := ((Session.sound_start geometry options.seed).compile program).1
    have moved := Session.stepper_stepped_of_installed installed Array.empty options.steps
    have shape := (sound.geometry_stepped installed options.steps Array.empty).trans
      (congrArg Bank.geometry (Session.bank_compile ..))
    refine ⟨program, _, parsed, passed, installed, (sound _ installed).length_course options.steps,
      ended, ?_, ?_⟩
    · rw [ended, Response.stderr_out]
    · rw [ended]
      exact stdout_report moved shape _

/-- A literate program is run with a longer history than by default. -/
theorem check_and_run_agree_literate :
    let content := "# A\n```ibp\nlet a = rand(4);\nif (a) \x7b\n\x7d\n```\n"
    let program : Program :=
      ⟨[.bind "a" (.random (.number 4)) ⟨3, 3⟩, .guarded (.ident "a") [] ⟨4, 5⟩]⟩
    let read : ReadFile := fun _ => .ok content
    let checking := ["check", "a.md"]
    let running := ["run", "a.md", "--steps", "7", "--history", "3"]
    let options : RunOptions := { steps := 7, history := some 3 }
    let geometry : Geometry := ⟨16, .twoBit, 3, by decide, by decide⟩
    Command.ofArguments checking = .ok (.check "a.md") ∧
      Command.ofArguments running = .ok (.run "a.md" options) ∧
      options.geometry = .ok geometry ∧ Program.ofText (programText "a.md" content) = .ok program ∧
      (respond read checking).code = 0 ∧
      (respond read running).stderr = "" ∧
      ∃ others, (respond read running).stdout =
        "Executed 7 statements, now in iteration 3 (predictor: 16 entries, 2-bit, 3 history bits)\n" ++
          others := by
  intro content program read checking running options geometry
  have checks : Command.ofArguments checking = .ok (.check "a.md") := by decide +kernel
  have runs : Command.ofArguments running = .ok (.run "a.md" options) := by decide +kernel
  have shaped : options.geometry = .ok geometry := by decide +kernel
  have parsed : Program.ofText (programText "a.md" content) = .ok program := by
    rw [programText, if_pos Source.isLiterate_md]
    decide +kernel
  have answered : (respond read checking).code = 0 :=
    respond_check checks ▸ check_of_passed rfl parsed (by decide +kernel)
  obtain ⟨-, -, succeeds⟩ := check_and_run_agree read checking running "a.md" content options geometry
    checks runs rfl shaped rfl rfl
  obtain ⟨found, stepper, again, -, installed, -, -, silent, others, printed⟩ := succeeds answered
  cases parsed.symm.trans again
  have wrapped :
      ((Session.start geometry options.seed).compile program).2.stepper.map
        (fun stepper => (stepper.stepped 7).iteration) = some 3 := by
    decide +kernel
  have iteration : (stepper.stepped 7).iteration = 3 := by
    rw [installed] at wrapped
    exact Option.some.inj wrapped
  have first :
      "Executed " ++ toString (if program.statements = [] then 0 else options.steps) ++
        " statements, now in iteration " ++ toString (UInt64.toNat 3) ++ " (predictor: " ++
        toString geometry.tableSize ++ " entries, " ++ geometry.mode.text ++ ", " ++
        toString geometry.historyBits ++ " history bits)" ++ "\n" =
      "Executed 7 statements, now in iteration 3 (predictor: 16 entries, 2-bit, 3 history bits)\n" := by
    decide +kernel
  rw [iteration, first] at printed
  exact ⟨checks, runs, shaped, parsed, answered, silent, others, printed⟩

end BranchLab.CommandLine
