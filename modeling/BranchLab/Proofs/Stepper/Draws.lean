import BranchLab.Proofs.Stepper.Frames

/-! Programs without draws. Whatever such a program is seeded with, it executes the same statements
with the same values: nothing is taken from the generator, and nothing depends on it. -/

namespace BranchLab

open Chance (Generator)

namespace Expr

def draws : Expr → Bool
  | number _ | ident _ => false
  | binary _ lhs rhs => lhs.draws || rhs.draws
  | unary _ operand => operand.draws
  | random _ => true

/-- Without draws a value does not depend on the generator, which is left alone. -/
theorem value_of_drawless {e : Expr} (drawless : e.draws = false) (bindings : Bindings)
    (g other : Generator) : e.value bindings g = ((e.value bindings other).1, g) := by
  induction e generalizing g other with
  | number n => rfl
  | ident name =>
    simp only [value]
    split <;> rfl
  | binary op lhs rhs left right =>
    obtain ⟨plain, others⟩ := Bool.or_eq_false_iff.mp drawless
    rw [value_binary, value_binary, left plain g other]
    generalize lhs.value bindings other = first
    obtain ⟨answer, after⟩ := first
    cases answer with
    | error error => rfl
    | ok a =>
      dsimp only
      cases op.decided? a with
      | some v => rfl
      | none =>
        -- The right operand goes on with whatever generator the left one hands on.
        dsimp only
        rw [right others g after]
        generalize rhs.value bindings after = second
        obtain ⟨answer, last⟩ := second
        cases answer <;> rfl
  | unary op operand ih =>
    rw [value, value, ih drawless g other]
    generalize operand.value bindings other = first
    obtain ⟨answer, after⟩ := first
    cases answer <;> rfl
  | random bound => cases drawless

end Expr

namespace Statement

mutual

def draws : Statement → Bool
  | bind _ value _ => value.draws
  | guarded cond body _ => cond.draws || blockDraws body

def blockDraws : List Statement → Bool
  | [] => false
  | statement :: rest => draws statement || blockDraws rest

end

theorem draws_of_mem {block : List Statement} (drawless : blockDraws block = false)
    {statement : Statement} (member : statement ∈ block) : statement.draws = false := by
  induction block with
  | nil => cases member
  | cons first rest ih =>
    obtain ⟨plain, others⟩ := Bool.or_eq_false_iff.mp drawless
    rcases List.mem_cons.mp member with rfl | inside
    · exact plain
    · exact ih others inside

end Statement

def Program.draws (program : Program) : Bool := Statement.blockDraws program.statements

namespace Stepper

theorem draws_blockOver {statements : List Statement}
    (drawless : Statement.blockDraws statements = false) (below : List Frame) :
    Statement.blockDraws (blockOver statements below) = false := by
  induction below with
  | nil => exact drawless
  | cons parent below ih =>
    rw [blockOver]
    split
    · rename_i statement current
      have plain := Statement.draws_of_mem ih (List.mem_of_getElem? current)
      cases statement with
      | bind name value lines => rfl
      | guarded cond body lines => exact (Bool.or_eq_false_iff.mp plain).2
    · rfl

variable {s : Stepper}

theorem draws_current (drawless : s.program.draws = false) {statement : Statement}
    (current : s.current? = some statement) : statement.draws = false :=
  Statement.draws_of_mem (draws_blockOver drawless s.below) (List.mem_of_getElem? current)

def seeded (s : Stepper) (generator : Generator) : Stepper := { s with generator }

theorem advance_seeded (s : Stepper) (g : Generator) :
    (s.seeded g).advance = (s.advance.1, s.advance.2.seeded g) := by
  simp only [advance, seeded]
  split <;> rfl

theorem value_seeded {e : Expr} (drawless : e.draws = false) (g : Generator)
    {answer : Except EvalError Int64} {after : Generator}
    (valued : e.value s.top.bindings s.generator = (answer, after)) :
    e.value (s.seeded g).top.bindings (s.seeded g).generator = (answer, g) := by
  have same := Expr.value_of_drawless drawless s.top.bindings g s.generator
  rwa [valued] at same

theorem step_seeded (drawless : s.program.draws = false) (g : Generator) :
    (s.seeded g).step = (s.step.1, s.step.2.seeded g) := by
  have kept : (s.seeded g).current? = s.current? := rfl
  cases current : s.current? with
  | none => rw [step_of_idle current, step_of_idle (kept.trans current)]
  | some statement =>
    have plain := draws_current drawless current
    rw [← kept] at current
    cases statement with
    | bind name value lines =>
      rcases valued : value.value s.top.bindings s.generator with ⟨answer, after⟩
      have again := value_seeded plain g valued
      cases answer with
      | error error =>
        simp only [step, ← kept, current, valued, again]
        rfl
      | ok v =>
        have same : (s.seeded g).bound name v g = (s.bound name v after).seeded g := rfl
        rw [step_of_bind current again, step_of_bind (kept ▸ current) valued, same, advance_seeded]
    | guarded cond body lines =>
      rcases valued : cond.value s.top.bindings s.generator with ⟨answer, after⟩
      have again := value_seeded (Bool.or_eq_false_iff.mp plain).1 g valued
      cases answer with
      | error error =>
        simp only [step, ← kept, current, valued, again]
        rfl
      | ok v =>
        by_cases passed : v = 0 ∨ body = []
        · have same : { s.seeded g with generator := g } =
              ({ s with generator := after } : Stepper).seeded g := rfl
          rw [step_of_passed current again passed, step_of_passed (kept ▸ current) valued passed,
            same, advance_seeded]
        · obtain ⟨taken, filled⟩ := not_or.mp passed
          rw [step_of_entered current again taken filled,
            step_of_entered (kept ▸ current) valued taken filled]
          rfl

theorem step_program (s : Stepper) : s.step.2.program = s.program := by
  rw [step]
  split
  · rfl
  · split
    · rfl
    · rw [program_advance]
  · split
    · rfl
    · dsimp only
      split
      · rfl
      · rw [program_advance]

end Stepper
end BranchLab
