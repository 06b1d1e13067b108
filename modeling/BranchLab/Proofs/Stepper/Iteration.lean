import BranchLab.Proofs.Stepper.Walk

/-! One iteration of a stepper, from its first statement up to the step that starts the next one. It
visits what a walk of the program visits. Since a frame does not hold its block, the argument
carries along what is left to do once the current statement is done: the steps from where the
position moves on to, or the start of the next iteration. -/

namespace BranchLab

open Chance (Generator)

namespace Stepper

/-- The steps up to and including the first that starts an iteration, and the stepper after them. -/
inductive Pass : Stepper → List StepOutcome → Stepper → Prop
  | wraps {s next : Stepper} {outcome : StepOutcome} (stepped : s.step = (.ok outcome, next))
      (starts : outcome.startedIteration = true) : Pass s [outcome] next
  | goesOn {s next last : Stepper} {outcome : StepOutcome} {outcomes : List StepOutcome}
      (stepped : s.step = (.ok outcome, next)) (stays : outcome.startedIteration = false)
      (rest : Pass next outcomes last) : Pass s (outcome :: outcomes) last

/-- The steps that are left of an iteration once the current statement is done. -/
def Onward (s : Stepper) (outcomes : List StepOutcome) (last : Stepper) : Prop :=
  match moveOn s.program.statements s.top s.below 0 with
  | some (top, below, _) => Pass { s with top, below } outcomes last
  | none => outcomes = [] ∧ last = s.startIteration (s.iteration + 1)

/-- A step that does no more than to move past a statement is followed by the steps left after it. -/
theorem pass_of_advance {s t last : Stepper} {lines : LineRange} {branch : Option BranchEvent}
    {outcomes : List StepOutcome}
    (stepped : s.step = (.ok (.executed lines branch t.advance.1), t.advance.2))
    (onward : t.Onward outcomes last) :
    Pass s (.executed lines branch t.advance.1 :: outcomes) last := by
  rw [Onward] at onward
  cases moved : moveOn t.program.statements t.top t.below 0 with
  | none =>
    simp only [moved] at onward
    obtain ⟨rfl, rfl⟩ := onward
    have wrapped : t.advance = (.newIteration (t.iteration + 1), t.startIteration (t.iteration + 1)) := by
      simp only [advance, moved]
    rw [wrapped] at stepped ⊢
    exact .wraps stepped rfl
  | some landing =>
    obtain ⟨top, below, popped⟩ := landing
    simp only [moved] at onward
    have landed : t.advance =
        (if popped = 0 then .advanced else .leftBlocks popped, { t with top, below }) := by
      simp only [advance, moved]
    rw [landed] at stepped ⊢
    refine .goesOn stepped ?_ onward
    by_cases none : popped = 0 <;> simp [none, StepOutcome.startedIteration]

theorem moveOn_of_room {statements : List Statement} {top : Frame} {below : List Frame}
    (room : top.index + 1 < (blockOver statements below).length) (popped : Nat) :
    moveOn statements top below popped = some (⟨top.bindings, top.index + 1⟩, below, popped) := by
  cases below <;> rw [moveOn, if_pos room]

/-- Before the last statement of a block it goes on with the next one. -/
theorem onward_of_room {s last : Stepper} {outcomes : List StepOutcome}
    (room : s.top.index + 1 < s.block.length)
    (rest : Pass { s with top := ⟨s.top.bindings, s.top.index + 1⟩ } outcomes last) :
    s.Onward outcomes last := by
  rw [Onward, moveOn_of_room room]
  exact rest

/-- After the last statement of the outermost block the next iteration starts. -/
theorem onward_of_end {s : Stepper} (outermost : s.below = [])
    (full : ¬ s.top.index + 1 < s.block.length) :
    s.Onward [] (s.startIteration (s.iteration + 1)) := by
  rw [block, outermost] at full
  rw [Onward, outermost, moveOn, if_neg full]
  exact ⟨rfl, rfl⟩

/-- How many blocks were left before does not change where the position moves on to. -/
theorem moveOn_popped (statements : List Statement) (top : Frame) (below : List Frame)
    (popped : Nat) :
    (moveOn statements top below popped).map (fun landing => (landing.1, landing.2.1)) =
      (moveOn statements top below 0).map fun landing => (landing.1, landing.2.1) := by
  induction below generalizing top popped with
  | nil =>
    rw [moveOn, moveOn]
    split <;> rfl
  | cons parent below ih =>
    rw [moveOn, moveOn]
    split
    · rfl
    · rw [ih parent (popped + 1), ih parent (0 + 1)]

/-- After the last statement of a block it goes on as after the guarded block that holds it. -/
theorem onward_of_last {s last : Stepper} {parent : Frame} {below : List Frame}
    {outcomes : List StepOutcome} (enclosing : s.below = parent :: below)
    (full : ¬ s.top.index + 1 < s.block.length)
    (onward : { s with top := parent, below }.Onward outcomes last) : s.Onward outcomes last := by
  have leaving : moveOn s.program.statements s.top s.below 0 =
      moveOn s.program.statements parent below 1 := by
    rw [enclosing, moveOn, if_neg (by rwa [block, enclosing] at full)]
  have same := moveOn_popped s.program.statements parent below 1
  rw [Onward] at onward ⊢
  rw [leaving]
  cases moved : moveOn s.program.statements parent below 0 with
  | none =>
    rw [moved, Option.map_none, Option.map_eq_none_iff] at same
    simp only [moved, same] at onward ⊢
    exact onward
  | some landing =>
    rw [moved, Option.map_some, Option.map_eq_some_iff] at same
    obtain ⟨⟨top, outer, popped⟩, found, equal⟩ := same
    simp only [Prod.mk.injEq] at equal
    simp only [moved, found, equal.1, equal.2] at onward ⊢
    exact onward

theorem block_entered {s : Stepper} {cond : Expr} {body : List Statement} {lines : LineRange}
    (current : s.current? = some (.guarded cond body lines)) (g : Generator) :
    (s.entered g).block = body := by
  have found : (blockOver s.program.statements s.below)[s.top.index]? =
      some (.guarded cond body lines) := current
  simp [block, entered, blockOver, found, Statement.body]

end Stepper

namespace Statement

open Stepper (Pass Onward)

mutual

/-- The steps that execute a statement with all that is under it visit what its walk visits. -/
theorem pass_of_walk : (statement : Statement) → ∀ {s last : Stepper} {visits : List Visit}
    {after : Bindings} {g : Generator} {outcomes : List StepOutcome},
    s.current? = some statement → walk statement s.top.bindings s.generator = (.ok (visits, after), g) →
    { s with top := ⟨after, s.top.index⟩, generator := g }.Onward outcomes last →
      ∃ steps, Pass s (steps ++ outcomes) last ∧ steps.map StepOutcome.visit = visits.map some
  | bind name value lines, s, last, visits, after, g, outcomes, current, walked, onward => by
    obtain ⟨v, valued, rfl, rfl⟩ := walk_bind walked
    have stepped := Stepper.step_of_bind current valued
    exact ⟨[_], Stepper.pass_of_advance stepped onward, rfl⟩
  | guarded cond body lines, s, last, visits, after, g, outcomes, current, walked, onward => by
    obtain ⟨rfl, v, drawn, valued, ⟨zero, rfl, rfl⟩ | ⟨taken, inner, block, rfl⟩⟩ :=
      walk_guarded walked
    · have stepped := Stepper.step_of_passed current valued (.inl zero)
      refine ⟨[_], Stepper.pass_of_advance stepped onward, ?_⟩
      simp [StepOutcome.visit, zero]
    · by_cases empty : body = []
      · subst empty
        cases block
        have stepped := Stepper.step_of_passed current valued (.inr rfl)
        refine ⟨[_], Stepper.pass_of_advance stepped onward, ?_⟩
        simp [StepOutcome.visit, taken]
      · have stepped := Stepper.step_of_entered current valued taken empty
        have same := Stepper.block_entered current drawn
        obtain ⟨steps, passed, seen⟩ := pass_of_walkBlock body (s := s.entered drawn) same empty
          block fun final => by
            refine Stepper.onward_of_last rfl ?_ onward
            change ¬ (s.entered drawn).block.length - 1 + 1 < (s.entered drawn).block.length
            omega
        exact ⟨_ :: steps, .goesOn stepped rfl passed, by simp [StepOutcome.visit, seen]⟩

/-- The steps from a statement of a block to its last one visit what a walk of them visits, whatever
the block has bound in the end. -/
theorem pass_of_walkBlock : (rest : List Statement) → ∀ {s last : Stepper} {visits : List Visit}
    {g : Generator} {outcomes : List StepOutcome},
    s.block.drop s.top.index = rest → rest ≠ [] →
    walkBlock rest s.top.bindings s.generator = (.ok visits, g) →
    (∀ final, { s with top := ⟨final, s.block.length - 1⟩, generator := g }.Onward outcomes last) →
      ∃ steps, Pass s (steps ++ outcomes) last ∧ steps.map StepOutcome.visit = visits.map some
  | [], _, _, _, _, _, _, filled, _, _ => absurd rfl filled
  | statement :: rest, s, last, visits, g, outcomes, here, _, walked, onward => by
    obtain ⟨first, others, between, middle, head, tail, rfl⟩ := walkBlock_cons walked
    have current : s.current? = some statement := by
      rw [Stepper.current?, ← List.head?_drop, here, List.head?_cons]
    have later : s.block.drop (s.top.index + 1) = rest := by
      rw [← List.tail_drop, here, List.tail_cons]
    have size : s.block.length = s.top.index + (rest.length + 1) := by
      have counted := congrArg List.length here
      rw [List.length_drop, List.length_cons] at counted
      omega
    by_cases ended : rest = []
    · subst ended
      cases tail
      have place : s.block.length - 1 = s.top.index := by rw [size]; simp
      obtain ⟨steps, passed, seen⟩ := pass_of_walk statement current head
        (by simpa only [place] using onward between)
      exact ⟨steps, passed, by simpa using seen⟩
    · let t : Stepper := { s with top := ⟨between, s.top.index + 1⟩, generator := middle }
      obtain ⟨more, onwards, seen⟩ := pass_of_walkBlock rest (s := t) later ended tail onward
      have next : { s with top := ⟨between, s.top.index⟩, generator := middle }.Onward
          (more ++ outcomes) last := by
        refine Stepper.onward_of_room ?_ onwards
        have := List.length_pos_iff.mpr ended
        change s.top.index + 1 < s.block.length
        omega
      obtain ⟨steps, passed, visited⟩ := pass_of_walk statement current head next
      exact ⟨steps ++ more, by rwa [List.append_assoc], by simp [visited, seen]⟩

end

end Statement

theorem inductionValue_toInt {iteration : UInt64} (small : iteration.toNat < 2 ^ 63) :
    (inductionValue iteration).toInt = iteration.toNat := by
  have held : min iteration.toNat (2 ^ 63 - 1) = iteration.toNat := by omega
  rw [inductionValue, held, Int64.toInt_ofNat_of_lt small]

/-- From the start of an iteration on, the steps up to the one that starts the next iteration visit
what a walk of the program visits. They leave the generator as the walk does, and the stepper with
one frame that has bound the number of the next iteration, held at the greatest signed word. -/
theorem iteration_follows_walk (program : Program) (filled : program.statements ≠ [])
    (checked : program.check (.ofIteration 0) = .ok ()) (iteration : UInt64)
    (generator : Generator) :
    ∃ visits after outcomes,
      Statement.walkBlock program.statements (.ofIteration iteration) generator =
        (.ok visits, after) ∧
      Stepper.Pass ⟨program, ⟨.ofIteration iteration, 0⟩, [], iteration, generator⟩ outcomes
        ⟨program, ⟨.ofIteration (iteration + 1), 0⟩, [], iteration + 1, after⟩ ∧
      outcomes.map StepOutcome.visit = visits.map some ∧
      (iteration.toNat < 2 ^ 63 - 1 → ∃ v : Int64, v.toInt = iteration.toNat + 1 ∧
        Bindings.ofIteration (iteration + 1) = Catalog.empty.put inductionName v) := by
  have keys : ∀ name ∈ [inductionName], name ∈ (Bindings.ofIteration iteration).keys :=
    fun name known => (Bindings.mem_keys_ofIteration iteration name).mpr known
  obtain ⟨visits, after, walked⟩ :=
    Statement.walkBlock_of_check generator keys program.statements checked
  let start : Stepper := ⟨program, ⟨.ofIteration iteration, 0⟩, [], iteration, generator⟩
  let final : Stepper :=
    ⟨program, ⟨.ofIteration (iteration + 1), 0⟩, [], iteration + 1, after⟩
  have ended : ∀ bound, { start with
      top := ⟨bound, start.block.length - 1⟩, generator := after }.Onward [] final := by
    intro bound
    refine Stepper.onward_of_end rfl ?_
    change ¬ start.block.length - 1 + 1 < start.block.length
    omega
  obtain ⟨outcomes, passed, seen⟩ :=
    Statement.pass_of_walkBlock program.statements (s := start) rfl filled walked ended
  refine ⟨visits, after, outcomes, walked, by simpa using passed, seen, ?_⟩
  intro small
  have next : (iteration + 1).toNat = iteration.toNat + 1 := by
    rw [UInt64.toNat_add]
    have := iteration.toNat_lt
    simp
    omega
  refine ⟨inductionValue (iteration + 1), ?_, rfl⟩
  rw [inductionValue_toInt (by omega), next]
  rfl

/-- Two blocks end with the last statement, and a draw decides whether they are entered. -/
theorem iteration_follows_walk_nested :
    let program : Program :=
      ⟨[.bind "x" (.random (.ident "i")) ⟨1, 1⟩,
        .guarded (.ident "x") [.guarded (.ident "i") [.bind "x" (.number 0) ⟨4, 4⟩] ⟨3, 5⟩] ⟨2, 6⟩]⟩
    program.statements ≠ [] ∧ program.check (.ofIteration 0) = .ok () ∧
      ∃ visits after outcomes,
        Statement.walkBlock program.statements (.ofIteration 5) (.ofSeed 7) = (.ok visits, after) ∧
        Stepper.Pass ⟨program, ⟨.ofIteration 5, 0⟩, [], 5, .ofSeed 7⟩ outcomes
          ⟨program, ⟨.ofIteration 6, 0⟩, [], 6, after⟩ ∧
        outcomes.map StepOutcome.visit = visits.map some ∧
        ∃ v : Int64, v.toInt = 6 ∧ Bindings.ofIteration 6 = Catalog.empty.put inductionName v := by
  intro program
  refine ⟨List.cons_ne_nil _ _, rfl, ?_⟩
  obtain ⟨visits, after, outcomes, walked, passed, seen, small⟩ :=
    iteration_follows_walk program (List.cons_ne_nil _ _) rfl 5 (.ofSeed 7)
  exact ⟨visits, after, outcomes, walked, passed, seen, small (by decide)⟩

end BranchLab
