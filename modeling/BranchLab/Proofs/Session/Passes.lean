import BranchLab.Proofs.Session.Batches
import BranchLab.Proofs.Stepper.Positions

/-! An iteration as a pass over the tree. It comes to statements in source order and to none twice, and
its length follows from the blocks that were entered. Since it can be no longer than the program, a
batch of as many steps always comes to the end of an iteration. -/

namespace BranchLab

open Chance (Generator)

namespace Execution

def place (e : Execution) : List Nat × Option Statement := (e.before.position, e.before.current?)

def entered (e : Execution) : Nat :=
  if e.outcome.transition = some .enteredBlock then
    (e.before.current?.elim [] Statement.body).length
  else 0

end Execution

namespace Stepper

variable {s last : Stepper} {outcomes : List StepOutcome}

theorem Pass.stepped (pass : Pass s outcomes last) : s.stepped outcomes.length = last := by
  induction pass with
  | @wraps s next outcome stepped starts => exact congrArg Prod.snd stepped
  | @goesOn s next last outcome outcomes stepped stays rest ih =>
    change s.step.2.stepped outcomes.length = last
    rwa [stepped]

theorem entered_of_current {statement : Statement} {outcome : StepOutcome}
    (current : s.current? = some statement) (answered : s.step.1 = .ok outcome) :
    Execution.entered ⟨s, s.step.2⟩ =
      if outcome.transition = some .enteredBlock then statement.body.length else 0 := by
  have reported := Execution.outcome_of_answered answered s.step.2
  rw [Execution.entered, reported, current]
  rfl

theorem place_of_current {statement : Statement} (current : s.current? = some statement) :
    Execution.place ⟨s, s.step.2⟩ = (s.position, some statement) := congrArg (Prod.mk _) current

/-- The statements of an iteration are among those ahead, in their order, and there are as many as were
still pending and were entered on the way. -/
theorem Pass.in_order (pass : Pass s outcomes last) (sound : s.Sound)
    (filled : s.program.statements ≠ []) :
    ((s.course outcomes.length).map Execution.place).Sublist (s.ahead.map (Prod.map id some)) ∧
      outcomes.length =
        1 + s.stillPending + ((s.course outcomes.length).map Execution.entered).sum := by
  induction pass with
  | @wraps s next outcome stepped starts =>
    obtain ⟨statement, found, current, answered, progress⟩ := sound.progress filled
    obtain ⟨same, rfl⟩ := Prod.mk.inj (stepped.symm.trans answered)
    obtain rfl := Except.ok.inj same
    have entered := entered_of_current current (congrArg Prod.fst answered)
    rw [List.length_singleton, course_of_some current, Stepper.course, List.map_singleton,
      List.map_singleton, List.sum_singleton, ahead_of_current current, place_of_current current,
      entered]
    refine ⟨(List.nil_sublist _).cons_cons _, ?_⟩
    cases progress with
    | enters _ stays | passes _ stays =>
      rw [stays] at starts
      cases starts
    | wraps passed _ count => rw [if_neg passed, count]
  | @goesOn s next last outcome outcomes stepped stays rest ih =>
    obtain ⟨statement, found, current, answered, progress⟩ := sound.progress filled
    obtain ⟨same, rfl⟩ := Prod.mk.inj (stepped.symm.trans answered)
    obtain rfl := Except.ok.inj same
    obtain ⟨-, -, -, steady, program⟩ := sound.step
    obtain ⟨within, length⟩ := ih steady (program ▸ filled)
    have entered := entered_of_current current (congrArg Prod.fst answered)
    rw [List.length_cons, course_of_some current, List.map_cons, List.map_cons, List.sum_cons,
      ahead_of_current current, place_of_current current, entered]
    cases progress with
    | enters entered stays first count =>
      rw [if_pos entered, ← first]
      exact ⟨within.cons_cons _, by omega⟩
    | passes passed stays first count =>
      rw [if_neg passed, List.map_cons, List.map_append, ← first]
      exact ⟨(within.trans (List.sublist_append_right ..)).cons_cons _, by omega⟩
    | wraps passed starts count =>
      rw [stays] at starts
      cases starts

section FromStart

variable (program : Program) (iteration : UInt64) (generator : Generator)

theorem ahead_atStart : (atStart program iteration generator).ahead = program.places :=
  List.append_nil _

theorem stillPending_atStart (filled : program.statements ≠ []) :
    1 + (atStart program iteration generator).stillPending = program.statements.length := by
  have counted : (atStart program iteration generator).stillPending = program.statements.length - 1 :=
    rfl
  have := List.length_pos_iff.mpr filled
  omega

theorem sound_atStart (checked : program.check (.ofIteration 0) = .ok ()) :
    (atStart program iteration generator).Sound :=
  sound_startIteration (s := atStart program iteration generator) checked iteration

end FromStart

/-- An iteration of the program was begun, some of its steps taken, and the rest are still to come. -/
def Underway (program : Program) (s : Stepper) : Prop :=
  ∃ iteration generator outcomes later m,
    Pass (atStart program iteration generator) outcomes (atStart program (iteration + 1) later) ∧
      m < outcomes.length ∧ s = (atStart program iteration generator).stepped m

section Histories

variable {program : Program}

theorem underway_atStart (filled : program.statements ≠ [])
    (checked : program.check (.ofIteration 0) = .ok ()) (iteration : UInt64)
    (generator : Generator) : Underway program (atStart program iteration generator) := by
  obtain ⟨outcomes, later, pass, -⟩ := exists_pass filled checked iteration generator
  obtain ⟨earlier, final, rfl, -⟩ := pass.ends
  exact ⟨iteration, generator, _, later, 0, pass, by simp, rfl⟩

theorem Underway.step (filled : program.statements ≠ [])
    (checked : program.check (.ofIteration 0) = .ok ()) (underway : Underway program s) :
    Underway program s.step.2 := by
  obtain ⟨iteration, generator, outcomes, later, m, pass, before, rfl⟩ := underway
  have next : ((atStart program iteration generator).stepped m).step.2 =
      (atStart program iteration generator).stepped (m + 1) := stepped_add _ m 1
  rw [next]
  rcases Nat.lt_or_eq_of_le before with inside | rest
  · exact ⟨iteration, generator, outcomes, later, m + 1, pass, inside, rfl⟩
  · -- It was the last step of its iteration.
    rw [← Nat.succ_eq_add_one, rest, pass.stepped]
    exact underway_atStart filled checked (iteration + 1) later

theorem underway_after (filled : program.statements ≠ [])
    (checked : program.check (.ofIteration 0) = .ok ()) (underway : Underway program s)
    (calls : List Call) : Underway program (s.after calls) := by
  induction calls generalizing s with
  | nil => exact underway
  | cons call calls ih =>
    apply ih
    cases call with
    | step => exact underway.step filled checked
    | reset =>
      have same : s.program = program := by
        obtain ⟨iteration, generator, outcomes, later, m, -, -, rfl⟩ := underway
        exact ((sound_atStart program iteration generator checked).after _).2
      have reset : s.reset = atStart program 0 s.generator := by rw [← same]; rfl
      rw [perform, reset]
      exact underway_atStart filled checked 0 s.generator

end Histories

/-- The last step of an iteration is where a batch for iterations stops. -/
theorem Pass.met (pass : Pass s outcomes last) (sound : s.Sound)
    (filled : s.program.statements ≠ []) :
    ∃ n, outcomes.length = n + 1 ∧ RunBoundary.iterationEnd.MetAt s n := by
  induction pass with
  | @wraps s next outcome stepped starts =>
    obtain ⟨statement, current⟩ :=
      Option.ne_none_iff_exists'.mp (Pass.wraps stepped starts).current
    have answered : s.step.1 = .ok outcome := congrArg Prod.fst stepped
    exact ⟨0, rfl, (RunBoundary.iterationEnd.isMet_iff current answered).mp starts⟩
  | @goesOn s next last outcome outcomes stepped stays rest ih =>
    obtain ⟨-, -, -, steady, program⟩ := sound.step
    obtain rfl : s.step.2 = next := congrArg Prod.snd stepped
    obtain ⟨n, length, met⟩ := ih steady (program ▸ filled)
    have later := congrFun (RunBoundary.iterationEnd.metAt_stepped s 1) n
    exact ⟨n + 1, congrArg (· + 1) length, Nat.add_comm n 1 ▸ later ▸ met⟩

end Stepper

/-- From wherever a session is, a batch of as many steps as there are statements ends an iteration. -/
theorem Session.Sound.run_iterationEnd {s : Session} {stepper : Stepper} (sound : s.Sound)
    (installed : s.stepper = some stepper) (filled : stepper.program.statements ≠ []) {most : Nat}
    (enough : stepper.program.outline.length ≤ most) (trace : Trace) :
    ∃ summary, (s.run .iterationEnd most trace).answer = .ok summary ∧
      summary.final.startedIteration = true := by
  have stands := sound stepper installed
  obtain ⟨outcomes, last, pass, within⟩ := stands.finishes filled
  obtain ⟨n, length, met⟩ := pass.met stands filled
  have room : n < most := by
    have fewer := stands.ahead_isSuffix.length_le
    rw [Program.length_places] at fewer
    omega
  obtain ⟨k, stops, ran⟩ := sound.run_stops .iterationEnd most installed filled trace
  obtain ⟨m, rfl, ended⟩ := stops.stopped_of_room room met
  rw [stands.lastOutcome_eq filled] at ran
  refine ⟨_, congrArg Traced.answer ran, ?_⟩
  exact (RunBoundary.iterationEnd.isMet_executionAt stands filled m).mpr ended

/-- Each iteration of a program that passed the check is a pass over its tree. The positions of the
statements in it, in source order, ascend in the order of their indexes. However a program is
stepped on and reset, it is always within an iteration that comes to its end, unless it is reset
before. The statements that an iteration executes are some of these places, in that order; there are
as many as in the outermost block and in the blocks that were entered, at least the former and at most
all of the program. From every state of a session a batch of that many steps ends an iteration. -/
theorem iterations_pass_in_order (program : Program) (filled : program.statements ≠ [])
    (checked : program.check (.ofIteration 0) = .ok ()) :
    program.places.map Prod.snd = program.outline.map Prod.snd ∧
    (program.places.map Prod.fst).Pairwise (List.Lex (· < ·)) ∧
    (∀ seed calls, ∃ iteration generator outcomes last m,
      let start := Stepper.atStart program iteration generator
      Stepper.Pass start outcomes last ∧ m < outcomes.length ∧
        (Stepper.atStart program 0 (.ofSeed seed)).after calls = start.stepped m) ∧
    (∀ iteration generator outcomes last,
      Stepper.Pass (Stepper.atStart program iteration generator) outcomes last →
        let executions := (Stepper.atStart program iteration generator).course outcomes.length
        executions.map Execution.outcome = outcomes ∧
        (executions.map Execution.place).Sublist (program.places.map (Prod.map id some)) ∧
        (executions.map (·.before.position)).Pairwise (List.Lex (· < ·)) ∧
        outcomes.length =
          program.statements.length + (executions.map Execution.entered).sum ∧
        program.statements.length ≤ outcomes.length ∧
        outcomes.length ≤ program.outline.length) ∧
    ∀ geometry seed before stepper most trace,
      let s := ((Session.start geometry seed).after Array.empty before).1
      s.stepper = some stepper → stepper.program = program → program.outline.length ≤ most →
        ∃ summary, (s.run .iterationEnd most trace).answer = .ok summary ∧
          summary.final.startedIteration = true := by
  have ordered := Statement.ordered_blockPlaces [] 0 program.statements
  refine ⟨Statement.map_blockPlaces [] 0 0 program.statements, ordered, fun seed calls => ?_,
    fun iteration generator outcomes last pass => ?_, ?_⟩
  · have begun := Stepper.underway_atStart filled checked 0 (.ofSeed seed)
    obtain ⟨iteration, generator, outcomes, later, m, pass, before, reached⟩ :=
      Stepper.underway_after filled checked begun calls
    exact ⟨iteration, generator, outcomes, _, m, pass, before, reached⟩
  · intro executions
    have sound := Stepper.sound_atStart program iteration generator checked
    obtain ⟨within, length⟩ := pass.in_order sound filled
    rw [Stepper.ahead_atStart] at within
    rw [Stepper.stillPending_atStart program iteration generator filled] at length
    have reported : executions.map Execution.outcome = outcomes := by
      rw [pass.course, Nat.sub_self, List.take_length]
      exact List.append_nil _
    have count : executions.length = outcomes.length := by
      simpa using congrArg List.length reported
    have fewer := within.length_le
    rw [List.length_map, List.length_map, Program.length_places, count] at fewer
    have positions := within.map Prod.fst
    rw [List.map_map, List.map_map] at positions
    exact ⟨reported, within, ordered.sublist positions, length, by omega, fewer⟩
  · intro geometry seed before stepper most trace s installed same enough
    subst same
    have sound : s.Sound := (Session.sound_start geometry seed).after Array.empty before
    exact sound.run_iterationEnd installed filled enough trace

/-- A batch of five steps ends an iteration of five statements, begun in the block of the first. -/
theorem iterations_pass_in_order_nested :
    let program : Program :=
      ⟨[.guarded (.number 1)
          [.bind "a" (.ident "i") ⟨2, 2⟩, .guarded (.ident "a") [.bind "b" (.number 0) ⟨4, 4⟩] ⟨3, 5⟩]
          ⟨1, 6⟩,
        .bind "a" (.number 7) ⟨7, 7⟩]⟩
    let s := ((Session.start .default 0).after Array.empty [.compile program, .run .steps 1]).1
    program.statements ≠ [] ∧ program.check (.ofIteration 0) = .ok () ∧
      (program.places.map Prod.fst = [[0], [0, 0], [0, 1], [0, 1, 0], [1]]) ∧
      (∀ generator outcomes last,
        Stepper.Pass (Stepper.atStart program 1 generator) outcomes last →
          2 ≤ outcomes.length ∧ outcomes.length ≤ 5) ∧
      ∃ summary, (s.run .iterationEnd 5 Array.empty).answer = .ok summary ∧
        summary.final.startedIteration = true := by
  intro program s
  have filled : program.statements ≠ [] := List.cons_ne_nil _ _
  have checked : program.check (.ofIteration 0) = .ok () := rfl
  let first := Stepper.atStart program 0 (.ofSeed (Chance.Generator.ofSeed 0).next.1)
  have installed : s.stepper = some (first.stepped 1) := rfl
  obtain ⟨-, -, -, passes, ends⟩ := iterations_pass_in_order program filled checked
  refine ⟨filled, checked, rfl, fun generator outcomes last pass => ?_, ?_⟩
  · obtain ⟨-, -, -, -, bounds⟩ := passes 1 generator outcomes last pass
    exact bounds
  · exact ends .default 0 _ _ 5 Array.empty installed rfl (Nat.le_refl 5)

end BranchLab
