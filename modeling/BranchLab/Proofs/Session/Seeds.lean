import BranchLab.Proofs.Session.Refusals
import BranchLab.Proofs.Stepper.Draws

/-! What a refused program leaves behind. It has taken a seed, so the programs installed later are
seeded with other words than they would have been. As long as none of these draws, nobody can tell:
seeds, and the generator of a program that draws nothing, have no part in anything else. -/

namespace BranchLab

open Chance (Generator)

namespace Stepper

/-- The program in execution without its generator, if it draws nothing. -/
def unseeded (s : Stepper) : Stepper := if s.program.draws then s else s.seeded ⟨0, 0, 0, 0⟩

theorem unseeded_of_drawless {s : Stepper} (drawless : s.program.draws = false) :
    s.unseeded = s.seeded ⟨0, 0, 0, 0⟩ := by
  rw [unseeded, drawless]
  rfl

@[simp] theorem unseeded_unseeded (s : Stepper) : s.unseeded.unseeded = s.unseeded := by
  cases draws : s.program.draws with
  | true => simp only [unseeded, draws, if_true]
  | false =>
    rw [unseeded_of_drawless draws]
    exact unseeded_of_drawless draws

theorem reset_unseeded (s : Stepper) : s.unseeded.reset = s.reset.unseeded := by
  cases draws : s.program.draws with
  | true =>
    have same : s.reset.program.draws = true := draws
    simp only [unseeded, draws, same, if_true]
  | false =>
    have same : s.reset.program.draws = false := draws
    rw [unseeded_of_drawless draws, unseeded_of_drawless same]
    rfl

theorem step_unseeded (s : Stepper) : s.unseeded.step = (s.step.1, s.step.2.unseeded) := by
  have same : s.step.2.program.draws = s.program.draws := congrArg Program.draws s.step_program
  cases draws : s.program.draws with
  | true => simp only [unseeded, draws, same, if_true]
  | false =>
    rw [unseeded_of_drawless draws, unseeded_of_drawless (same.trans draws), step_seeded draws]

end Stepper

/-- The session without its seeds, and without the generator of a program that draws nothing. -/
def Session.unseeded (s : Session) : Session :=
  { s with stepper := s.stepper.map Stepper.unseeded, seeds := ⟨0, 0, 0, 0⟩ }

def Traced.unseeded {α : Type} (done : Traced α) : Traced α :=
  ⟨done.answer, done.session.unseeded, done.trace⟩

namespace Session

@[simp] theorem unseeded_unseeded (s : Session) : s.unseeded.unseeded = s.unseeded := by
  have same : Stepper.unseeded ∘ Stepper.unseeded = Stepper.unseeded :=
    funext Stepper.unseeded_unseeded
  simp only [unseeded, Option.map_map, same]

section Unseeded

variable (s : Session) (trace : Trace)

theorem stepTraced_unseeded : s.unseeded.stepTraced trace = (s.stepTraced trace).unseeded := by
  obtain ⟨slot, bank, ledger, generation, seeds⟩ := s
  cases slot with
  | none => rfl
  | some stepper =>
    simp only [unseeded, Option.map_some, stepTraced, Stepper.step_unseeded]
    generalize stepper.step = moved
    obtain ⟨answer, next⟩ := moved
    cases answer with
    | error error => rfl
    | ok outcome =>
      dsimp only
      cases outcome.branch <;> rfl

theorem runFrom_unseeded (boundary : RunBoundary) (left : Nat) (sum : RunSummary) :
    runFrom boundary left sum s.unseeded trace = (runFrom boundary left sum s trace).unseeded := by
  induction left generalizing s sum trace with
  | zero => rfl
  | succ left ih =>
    rw [runFrom, runFrom, stepTraced_unseeded]
    generalize s.stepTraced trace = stepped
    obtain ⟨answer, next, seen⟩ := stepped
    cases answer with
    | error error => rfl
    | ok step =>
      simp only [Traced.unseeded]
      split
      · rfl
      · split
        · rfl
        · exact ih next seen _

theorem advanceAutoRun_unseeded (ticket : Ticket) :
    s.unseeded.advanceAutoRun ticket trace = (s.advanceAutoRun ticket trace).unseeded := by
  have same : s.unseeded.generation = s.generation := rfl
  rw [advanceAutoRun, advanceAutoRun, stepTraced_unseeded, same]
  generalize s.stepTraced trace = stepped
  obtain ⟨answer, next, seen⟩ := stepped
  split
  · rfl
  · split
    · rfl
    · cases answer with
      | error error => rfl
      | ok step =>
        simp only [Traced.unseeded]
        split <;> rfl

theorem runPacedFrom_unseeded (pacer : Pacer) (turns : Nat) (run : PacedRun) (ticket : Ticket) :
    runPacedFrom pacer turns run s.unseeded ticket trace =
      (runPacedFrom pacer turns run s ticket trace).unseeded := by
  induction turns generalizing s run ticket trace with
  | zero => rfl
  | succ turns ih =>
    rw [runPacedFrom, runPacedFrom, advanceAutoRun_unseeded]
    generalize s.advanceAutoRun ticket trace = advanced
    obtain ⟨answer, next, seen⟩ := advanced
    cases answer with
    | error error => rfl
    | ok found =>
      obtain ⟨step, rest⟩ := found
      cases step with
      | none => rfl
      | some step =>
        simp only [Traced.unseeded]
        split
        · rfl
        · split
          · rfl
          · exact ih next seen _ _

theorem compile_unseeded {program : Program}
    (plain : program.check (.ofIteration 0) = .ok () → program.draws = false) :
    (s.unseeded.compile program).1 = (s.compile program).1 ∧
      (s.unseeded.compile program).2.unseeded = (s.compile program).2.unseeded := by
  cases checked : program.check (.ofIteration 0) with
  | error error =>
    rw [compile_of_rejected _ checked, compile_of_rejected _ checked]
    exact ⟨rfl, s.unseeded_unseeded⟩
  | ok done =>
    have built (seed : UInt64) := (Stepper.ofProgram_eq_ok program seed _).mpr ⟨checked, rfl⟩
    simp only [compile, built]
    refine ⟨trivial, ?_⟩
    simp only [supersede, unseeded, Option.map_some]
    rw [Stepper.unseeded_of_drawless (plain checked), Stepper.unseeded_of_drawless (plain checked)]
    simp only [Stepper.seeded]

end Unseeded

def Operation.InstallsDraws : Operation → Prop
  | .compile program => program.check (.ofIteration 0) = .ok () ∧ program.draws = true
  | _ => False

/-- Unless a program that draws is installed, an operation does not use the seeds. -/
theorem perform_unseeded (s : Session) {operation : Operation} (plain : ¬operation.InstallsDraws)
    (trace : Trace) :
    (s.unseeded.perform operation trace).unseeded = (s.perform operation trace).unseeded := by
  have again {done other : Traced Reply} (same : done = other.unseeded) :
      done.unseeded = other.unseeded := by
    rw [same, Traced.unseeded, Traced.unseeded, unseeded_unseeded]
  cases operation with
  | compile program =>
    -- What is installed has a generator from the seeds, which is cleared only afterwards.
    have drawless (passed : program.check (.ofIteration 0) = .ok ()) : program.draws = false :=
      Bool.eq_false_iff.mpr fun draws => plain ⟨passed, draws⟩
    obtain ⟨answer, session⟩ := s.compile_unseeded drawless
    simp only [perform, untraced, Traced.unseeded, answer, session]
  | edit | reconfigure | resetAccuracy | cancelAutoRun => exact again rfl
  | resetExecution =>
    refine again ?_
    obtain ⟨slot, bank, ledger, generation, seeds⟩ := s
    cases slot with
    | none => rfl
    | some stepper =>
      simp only [perform, untraced, resetExecution, unseeded, Option.map_some,
        Stepper.reset_unseeded]
      rfl
  | configure tableSize mode historyBits =>
    refine again ?_
    simp only [perform, untraced, configure]
    split <;> rfl
  | step =>
    refine again ?_
    simp only [perform, untraced, step, stepTraced_unseeded]
    rfl
  | stepTraced =>
    refine again ?_
    simp only [perform, stepTraced_unseeded]
    rfl
  | run boundary most =>
    refine again ?_
    simp only [perform, run, runFrom_unseeded]
    rfl
  | beginAutoRun steps =>
    refine again ?_
    obtain ⟨slot, bank, ledger, generation, seeds⟩ := s
    cases slot <;> rfl
  | advanceAutoRun ticket =>
    refine again ?_
    simp only [perform, advanceAutoRun_unseeded]
    rfl
  | runPaced ticket pacer =>
    refine again ?_
    simp only [perform, runPaced, runPacedFrom_unseeded]
    rfl

theorem history_unseeded {s t : Session} (same : s.unseeded = t.unseeded)
    {operations : List Operation} (plain : ∀ operation ∈ operations, ¬operation.InstallsDraws)
    (trace : Trace) :
    s.record trace operations = t.record trace operations ∧
      (s.after trace operations).2 = (t.after trace operations).2 ∧
      (s.after trace operations).1.unseeded = (t.after trace operations).1.unseeded := by
  induction operations generalizing s t trace with
  | nil => exact ⟨rfl, rfl, same⟩
  | cons operation rest ih =>
    have quiet := plain operation List.mem_cons_self
    have both : (s.perform operation trace).unseeded = (t.perform operation trace).unseeded := by
      rw [← perform_unseeded s quiet, ← perform_unseeded t quiet, same]
    have answer := congrArg Traced.answer both
    have session := congrArg Traced.session both
    have seen := congrArg Traced.trace both
    simp only [Traced.unseeded] at answer session seen
    have others : ∀ other ∈ rest, ¬other.InstallsDraws := fun other inside =>
      plain other (List.mem_cons_of_mem operation inside)
    have later := ih session others (s.perform operation trace).trace
    simp only [record, after_cons]
    rw [answer]
    rw [seen] at later ⊢
    exact ⟨congrArg _ later.1, later.2⟩

end Session

open Session

/-- A program that is refused leaves nothing behind but that a seed is taken. As long as no program
that draws is installed after it, the answers and events are the same as without it, whatever is
asked, and so is all of the session that is not a seed; the program installed before may draw. -/
theorem refused_program_takes_only_a_seed (s : Session) (program : Program) (error : ScopeError)
    (rejected : program.check (.ofIteration 0) = .error error) :
    let refused := (s.compile program).2
    s.compile program = (.error (.scope error), { s with seeds := s.seeds.next.2 }) ∧
    ∀ (trace : Trace) (operations : List Operation),
      (∀ operation ∈ operations, ¬operation.InstallsDraws) →
      refused.record trace operations = s.record trace operations ∧
      (refused.after trace operations).2 = (s.after trace operations).2 ∧
      (refused.after trace operations).1.unseeded = (s.after trace operations).1.unseeded := by
  intro refused
  have left : s.compile program = (.error (.scope error), { s with seeds := s.seeds.next.2 }) :=
    s.compile_of_rejected rejected
  have same : refused.unseeded = s.unseeded := congrArg (fun done => done.2.unseeded) left
  exact ⟨left, fun trace operations plain => history_unseeded same plain trace⟩

/-- The installed program draws, and goes on to draw what it would have drawn. -/
theorem refused_program_takes_only_a_seed_installed :
    let dice : Program := ⟨[.guarded (.random (.number 2)) [] ⟨1, 1⟩]⟩
    let unbound : Program := ⟨[.bind "a" (.ident "z") ⟨1, 1⟩]⟩
    let s := ((Session.start .default 1).compile dice).2
    let later : List Operation := [.stepTraced, .resetExecution, .run .steps 5, .compile unbound]
    unbound.check (.ofIteration 0) = .error ⟨"z", 1⟩ ∧
      (∀ operation ∈ later, ¬operation.InstallsDraws) ∧
      (s.compile unbound).2.record Array.empty later = s.record Array.empty later := by
  intro dice unbound s later
  have rejected : unbound.check (.ofIteration 0) = .error ⟨"z", 1⟩ := rfl
  have plain : ∀ operation ∈ later, ¬operation.InstallsDraws := by
    simp [later, Operation.InstallsDraws, unbound, Program.draws, Statement.blockDraws,
      Statement.draws, Expr.draws]
  exact ⟨rejected, plain,
    ((refused_program_takes_only_a_seed s unbound _ rejected).2 Array.empty later plain).1⟩

/-- A program that draws is installed after one that was refused. Its first draw is another one, and
the number of statements that are executed with it. -/
theorem refused_program_changes_draws :
    let dice : Program := ⟨[.guarded (.random (.number 2)) [.bind "a" (.number 1) ⟨2, 2⟩] ⟨1, 3⟩]⟩
    let unbound : Program := ⟨[.bind "a" (.ident "z") ⟨1, 1⟩]⟩
    let s := Session.start .default 1
    let later : List Operation := [.compile dice, .run .iterationEnd 5]
    unbound.check (.ofIteration 0) = .error ⟨"z", 1⟩ ∧
      (s.compile unbound).2.record Array.empty later ≠ s.record Array.empty later := by
  intro dice unbound s later
  refine ⟨rfl, fun same => ?_⟩
  have executed := congrArg (List.map fun entry => statements entry.2) same
  revert executed
  decide +kernel

end BranchLab
