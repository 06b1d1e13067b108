import BranchLab.Proofs.Stepper.Frames

/-! Stepping against walking the tree. A walk executes a block from its first statement to its last,
each taken body on bindings of its own, and needs no position to come back to. The steps of one
iteration visit the statements that a walk of the program visits, and draw the same words. -/

namespace BranchLab

open Chance (Generator)

/-- A statement that was executed: its lines, and its branch if it is a guarded block. -/
abbrev Visit := LineRange × Option BranchEvent

def StepOutcome.visit : StepOutcome → Option Visit
  | idle => none
  | executed lines branch _ => some (lines, branch)

namespace Statement

mutual

/-- Executes a statement with all that is under it: what was visited, and the bindings after it. -/
def walk : Statement → Bindings → Generator → Except EvalError (List Visit × Bindings) × Generator
  | bind name value lines, bindings, g =>
    match value.value bindings g with
    | (.error error, g) => (.error error, g)
    | (.ok v, g) => (.ok ([(lines, none)], bindings.put name v), g)
  | guarded cond body lines, bindings, g =>
    match cond.value bindings g with
    | (.error error, g) => (.error error, g)
    | (.ok v, g) =>
      let branch : BranchEvent := ⟨lines.start, decide (v ≠ 0)⟩
      if v = 0 then (.ok ([(lines, some branch)], bindings), g)
      else
        match walkBlock body bindings g with
        | (.error error, g) => (.error error, g)
        | (.ok visits, g) => (.ok ((lines, some branch) :: visits, bindings), g)

/-- Executes the statements of a block in order; what they bind is gone afterwards. -/
def walkBlock : List Statement → Bindings → Generator → Except EvalError (List Visit) × Generator
  | [], _, g => (.ok [], g)
  | statement :: rest, bindings, g =>
    match walk statement bindings g with
    | (.error error, g) => (.error error, g)
    | (.ok (visits, bindings), g) =>
      match walkBlock rest bindings g with
      | (.error error, g) => (.error error, g)
      | (.ok others, g) => (.ok (visits ++ others), g)

end

section Success

variable {bindings after : Bindings} {g g' : Generator} {visits : List Visit}

theorem walk_bind {name : String} {value : Expr} {lines : LineRange}
    (walked : walk (bind name value lines) bindings g = (.ok (visits, after), g')) :
    ∃ v, value.value bindings g = (.ok v, g') ∧ visits = [(lines, none)] ∧
      after = bindings.put name v := by
  rw [walk] at walked
  split at walked
  · cases walked
  · rename_i v drawn valued
    cases walked
    exact ⟨v, valued, rfl, rfl⟩

/-- A guarded block is passed, or its body is walked on a copy of the bindings. -/
theorem walk_guarded {cond : Expr} {body : List Statement} {lines : LineRange}
    (walked : walk (guarded cond body lines) bindings g = (.ok (visits, after), g')) :
    after = bindings ∧ ∃ v drawn, cond.value bindings g = (.ok v, drawn) ∧
      ((v = 0 ∧ visits = [(lines, some ⟨lines.start, false⟩)] ∧ g' = drawn) ∨
        (v ≠ 0 ∧ ∃ inner, walkBlock body bindings drawn = (.ok inner, g') ∧
          visits = (lines, some ⟨lines.start, true⟩) :: inner)) := by
  rw [walk] at walked
  split at walked
  · cases walked
  · rename_i v drawn valued
    dsimp only at walked
    split at walked
    · rename_i zero
      cases walked
      exact ⟨rfl, v, g', valued, .inl ⟨zero, by simp [zero], rfl⟩⟩
    · rename_i taken
      split at walked
      · cases walked
      · rename_i inner last block
        cases walked
        exact ⟨rfl, v, drawn, valued, .inr ⟨taken, inner, block, by simp [taken]⟩⟩

theorem walkBlock_cons {statement : Statement} {rest : List Statement}
    (walked : walkBlock (statement :: rest) bindings g = (.ok visits, g')) :
    ∃ first others between middle, walk statement bindings g = (.ok (first, between), middle) ∧
      walkBlock rest between middle = (.ok others, g') ∧ visits = first ++ others := by
  rw [walkBlock] at walked
  split at walked
  · cases walked
  · rename_i first between middle head
    split at walked
    · cases walked
    · rename_i others last tail
      cases walked
      exact ⟨first, others, between, middle, head, tail, rfl⟩

end Success

mutual

/-- A statement that passes the check is walked to its end when the names known are bound. -/
theorem walk_of_check {known after : List String} {bindings : Bindings} (g : Generator)
    (bound : ∀ name ∈ known, name ∈ bindings.keys) :
    (statement : Statement) → check known statement = .ok after →
      ∃ visits next g', walk statement bindings g = (.ok (visits, next), g') ∧
        ∀ name ∈ after, name ∈ next.keys
  | bind name value lines, checked => by
    obtain ⟨used, rfl⟩ := (check_bind ..).mp checked
    obtain ⟨v, g', valued⟩ := value.value_of_bound bindings g
      fun name inside => bound name (used name inside)
    refine ⟨[(lines, none)], bindings.put name v, g', by simp [walk, valued], ?_⟩
    intro other member
    rw [Catalog.mem_keys_put]
    rcases List.mem_cons.mp member with same | inside
    · exact .inl same
    · exact .inr (bound other inside)
  | guarded cond body lines, checked => by
    obtain ⟨used, inner, rfl⟩ := (check_guarded ..).mp checked
    obtain ⟨v, drawn, valued⟩ := cond.value_of_bound bindings g
      fun name inside => bound name (used name inside)
    by_cases taken : v = 0
    · exact ⟨_, bindings, drawn, by simp [walk, valued, taken]; rfl, bound⟩
    · obtain ⟨visits, g', walked⟩ := walkBlock_of_check drawn bound body inner
      exact ⟨_, bindings, g', by simp [walk, valued, taken, walked]; rfl, bound⟩

theorem walkBlock_of_check {known : List String} {bindings : Bindings} (g : Generator)
    (bound : ∀ name ∈ known, name ∈ bindings.keys) :
    (block : List Statement) → checkBlock known block = .ok () →
      ∃ visits g', walkBlock block bindings g = (.ok visits, g')
  | [], _ => ⟨[], g, rfl⟩
  | statement :: rest, checked => by
    obtain ⟨after, first, others⟩ := (checkBlock_cons ..).mp checked
    obtain ⟨visits, next, middle, head, keys⟩ := walk_of_check g bound statement first
    obtain ⟨more, g', tail⟩ := walkBlock_of_check middle keys rest others
    exact ⟨visits ++ more, g', by simp [walkBlock, head, tail]⟩

end

end Statement
end BranchLab
