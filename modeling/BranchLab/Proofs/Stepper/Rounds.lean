import BranchLab.Proofs.Stepper.Iteration

/-! The branches of one iteration. A walk of a block comes to each statement at most once, so the
branches that it resolves are among the sites of the block, in source order, and those of the
outermost block are all among them. So it is with the steps of an iteration. -/

namespace BranchLab

open Chance (Generator)

def StepOutcome.site (outcome : StepOutcome) : Option Nat := outcome.branch.map BranchEvent.pc

def Visit.site (visit : Visit) : Option Nat := visit.2.map BranchEvent.pc

/-- Outcomes that show the visits of a walk resolve the branches of the walk. -/
theorem filterMap_site {outcomes : List StepOutcome} {visits : List Visit}
    (seen : outcomes.map StepOutcome.visit = visits.map some) :
    outcomes.filterMap StepOutcome.site = visits.filterMap Visit.site := by
  have read : StepOutcome.site = (·.bind Visit.site) ∘ StepOutcome.visit := by
    funext outcome
    cases outcome <;> rfl
  rw [read, ← List.filterMap_map, seen, List.filterMap_map]
  rfl

namespace Statement

mutual

theorem sites_walk : (statement : Statement) → ∀ {bindings after : Bindings} {g g' : Generator}
    {visits : List Visit}, walk statement bindings g = (.ok (visits, after), g') →
      (visits.filterMap Visit.site).Sublist (sites statement)
  | bind name value lines, bindings, after, g, g', visits, walked => by
    obtain ⟨v, valued, rfl, rfl⟩ := walk_bind walked
    exact .refl []
  | guarded cond body lines, bindings, after, g, g', visits, walked => by
    obtain ⟨-, v, drawn, valued, ⟨-, rfl, -⟩ | ⟨-, inner, block, rfl⟩⟩ := walk_guarded walked
    · exact (List.nil_sublist (blockSites body)).cons_cons lines.start
    · exact (sites_walkBlock body block).cons_cons lines.start

/-- The branches of a walk are sites of the block, each at most once and in source order. -/
theorem sites_walkBlock : (block : List Statement) → ∀ {bindings : Bindings} {g g' : Generator}
    {visits : List Visit}, walkBlock block bindings g = (.ok visits, g') →
      (visits.filterMap Visit.site).Sublist (blockSites block)
  | [], bindings, g, g', visits, walked => by
    cases walked
    exact .refl []
  | statement :: rest, bindings, g, g', visits, walked => by
    obtain ⟨first, others, between, middle, head, tail, rfl⟩ := walkBlock_cons walked
    rw [List.filterMap_append]
    exact (sites_walk statement head).append (sites_walkBlock rest tail)

end

/-- No guarded block of the block itself is left out of a walk. -/
theorem site_mem_walkBlock {cond : Expr} {body : List Statement} {lines : LineRange}
    {block : List Statement} (inside : guarded cond body lines ∈ block) {bindings : Bindings}
    {g g' : Generator} {visits : List Visit}
    (walked : walkBlock block bindings g = (.ok visits, g')) :
    lines.start ∈ visits.filterMap Visit.site := by
  induction block generalizing bindings g visits with
  | nil => cases inside
  | cons statement rest ih =>
    obtain ⟨first, others, between, middle, head, tail, rfl⟩ := walkBlock_cons walked
    rw [List.filterMap_append, List.mem_append]
    rcases List.mem_cons.mp inside with rfl | later
    · obtain ⟨-, v, drawn, valued, ⟨-, rfl, -⟩ | ⟨-, inner, block, rfl⟩⟩ := walk_guarded head
      · exact .inl (List.mem_cons_self ..)
      · exact .inl (List.mem_cons_self ..)
    · exact .inr (ih later tail)

end Statement

namespace Stepper

def atStart (program : Program) (iteration : UInt64) (generator : Generator) : Stepper :=
  ⟨program, ⟨.ofIteration iteration, 0⟩, [], iteration, generator⟩

/-- Only the last step of an iteration starts another. -/
theorem Pass.ends {s last : Stepper} {outcomes : List StepOutcome} (pass : Pass s outcomes last) :
    ∃ earlier final, outcomes = earlier ++ [final] ∧ final.startedIteration = true ∧
      ∀ outcome ∈ earlier, outcome.startedIteration = false := by
  induction pass with
  | @wraps s next outcome stepped starts => exact ⟨[], outcome, rfl, starts, nofun⟩
  | @goesOn s next last outcome outcomes stepped stays rest ih =>
    obtain ⟨earlier, final, rfl, starts, before⟩ := ih
    exact ⟨outcome :: earlier, final, rfl, starts, List.forall_mem_cons.mpr ⟨stays, before⟩⟩

/-- The steps of an iteration resolve sites of the program, each at most once and in source order, and
come to every guarded block of the outermost block. -/
theorem exists_pass {program : Program} (filled : program.statements ≠ [])
    (checked : program.check (.ofIteration 0) = .ok ()) (iteration : UInt64)
    (generator : Generator) :
    ∃ outcomes after,
      Pass (atStart program iteration generator) outcomes (atStart program (iteration + 1) after) ∧
      (outcomes.filterMap StepOutcome.site).Sublist program.branchSites ∧
      ∀ cond body lines, .guarded cond body lines ∈ program.statements →
        lines.start ∈ outcomes.filterMap StepOutcome.site := by
  have known : ∀ name ∈ [inductionName], name ∈ (Bindings.ofIteration iteration).keys :=
    fun name => (Bindings.mem_keys_ofIteration iteration name).mpr
  obtain ⟨visits, after, walked⟩ :=
    Statement.walkBlock_of_check generator known program.statements checked
  let start := atStart program iteration generator
  have ended : ∀ bound, { start with
      top := ⟨bound, start.block.length - 1⟩, generator := after }.Onward []
        (atStart program (iteration + 1) after) := by
    intro bound
    refine onward_of_end rfl ?_
    change ¬ start.block.length - 1 + 1 < start.block.length
    omega
  obtain ⟨outcomes, pass, seen⟩ :=
    Statement.pass_of_walkBlock program.statements (s := start) rfl filled walked ended
  rw [List.append_nil] at pass
  refine ⟨outcomes, after, pass, ?_⟩
  rw [filterMap_site seen]
  exact ⟨Statement.sites_walkBlock program.statements walked,
    fun cond body lines inside => Statement.site_mem_walkBlock inside walked⟩

end Stepper
end BranchLab
