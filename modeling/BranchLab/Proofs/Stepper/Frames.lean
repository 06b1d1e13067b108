import BranchLab.Proofs.Program.Scoped
import BranchLab.Stepper.Basic

/-! The frames of a program that passed the scope check. Each frame below the top one stands on a
guarded block whose body is the block of the frame above it, and each frame has bound exactly the
names known before its statement. A step finds every name it uses and leaves the frames so. -/

namespace BranchLab

open Chance (Generator)

theorem Bindings.mem_keys_ofIteration (iteration : UInt64) (name : String) :
    name ∈ (Bindings.ofIteration iteration).keys ↔ name ∈ [inductionName] := by
  rw [Bindings.keys_ofIteration]

/-- The bindings of a frame are those of the names known before its statement in a block that is
entered with some names known. -/
def Frame.Binds (frame : Frame) (known : List String) (block : List Statement) : Prop :=
  ∀ name, name ∈ frame.bindings.keys ↔ name ∈ Statement.namesBefore known block frame.index

/-- The frames below a frame lead into a block, which was entered with some names known: each stands
on a guarded block that is not empty and has bound the names known there. -/
inductive Enclosed (statements : List Statement) :
    (below : List Frame) → (block : List Statement) → (known : List String) → Prop
  | outermost : Enclosed statements [] statements [inductionName]
  | inside {parent : Frame} {below : List Frame} {block body : List Statement}
      {known : List String} {cond : Expr} {lines : LineRange}
      (outer : Enclosed statements below block known)
      (current : block[parent.index]? = some (.guarded cond body lines)) (filled : body ≠ [])
      (bound : parent.Binds known block) :
      Enclosed statements (parent :: below) body
        (Statement.namesBefore known block parent.index)

namespace Enclosed

variable {statements block : List Statement} {below : List Frame} {known : List String}

theorem blockOver_eq (enclosed : Enclosed statements below block known) :
    Stepper.blockOver statements below = block := by
  induction enclosed with
  | outermost => rfl
  | inside outer current filled bound ih => simp [Stepper.blockOver, ih, current, Statement.body]

theorem check_block (enclosed : Enclosed statements below block known)
    (checked : Statement.checkBlock [inductionName] statements = .ok ()) :
    Statement.checkBlock known block = .ok () := by
  induction enclosed with
  | outermost => exact checked
  | inside outer current filled bound ih =>
    obtain ⟨after, passed⟩ := Statement.check_at ih current
    exact ((Statement.check_guarded ..).mp passed).2.1

/-- No frame is entered from a program without statements. -/
theorem block_eq_nil (enclosed : Enclosed statements below block known)
    (empty : statements = []) : block = [] := by
  induction enclosed with
  | outermost => exact empty
  | inside outer current filled bound ih =>
    rw [ih] at current
    contradiction

end Enclosed

/-- A frame on top of others that is past a statement of its block has somewhere to stand after
moving on, with the names known there. -/
theorem Enclosed.moveOn {statements : List Statement} {top : Frame} {below : List Frame}
    {block : List Statement} {known : List String} {popped : Nat}
    (enclosed : Enclosed statements below block known)
    (bound : ∀ name, name ∈ top.bindings.keys ↔
      name ∈ Statement.namesBefore known block (top.index + 1))
    {next : Frame} {rest : List Frame} {left : Nat}
    (moved : Stepper.moveOn statements top below popped = some (next, rest, left)) :
    ∃ outer names, Enclosed statements rest outer names ∧ next.Binds names outer ∧
      next.index < outer.length := by
  induction enclosed generalizing top popped with
  | outermost =>
    rw [Stepper.moveOn] at moved
    split at moved
    · rename_i room
      cases moved
      exact ⟨statements, [inductionName], .outermost, bound, room⟩
    · contradiction
  | @inside parent below block body known cond lines outer current filled parentBound ih =>
    rw [Stepper.moveOn] at moved
    split at moved
    · rename_i room
      rw [(Enclosed.inside outer current filled parentBound).blockOver_eq] at room
      cases moved
      exact ⟨body, _, .inside outer current filled parentBound, bound, room⟩
    · -- A guarded block adds no name, so the parent is past it with the names it has bound.
      refine ih ?_ moved
      rw [Statement.namesBefore_succ known current]
      exact parentBound

namespace Stepper

/-- The program passed the scope check, and every frame stands on a statement of the block it is in
with the names known there. -/
structure Sound (s : Stepper) : Prop where
  checked : Statement.checkBlock [inductionName] s.program.statements = .ok ()
  placed : ∃ known, Enclosed s.program.statements s.below s.block known ∧ s.top.Binds known s.block
  inside : s.program.statements ≠ [] → s.top.index < s.block.length

variable {s : Stepper}

theorem sound_startIteration
    (checked : Statement.checkBlock [inductionName] s.program.statements = .ok ())
    (iteration : UInt64) : (s.startIteration iteration).Sound where
  checked := checked
  placed := ⟨[inductionName], .outermost, fun _ => Iff.rfl⟩
  inside filled := List.length_pos_iff.mpr filled

theorem Sound.reset (sound : s.Sound) : s.reset.Sound := sound_startIteration sound.checked 0

theorem ofProgram_eq_ok (program : Program) (seed : UInt64) (stepper : Stepper) :
    ofProgram program seed = .ok stepper ↔
      program.check (.ofIteration 0) = .ok () ∧
        stepper = ⟨program, ⟨.ofIteration 0, 0⟩, [], 0, .ofSeed seed⟩ := by
  rw [ofProgram, bind_ok]
  constructor
  · rintro ⟨⟨⟩, passed, same⟩
    exact ⟨passed, (Except.ok.inj same).symm⟩
  · rintro ⟨passed, rfl⟩
    exact ⟨(), passed, rfl⟩

theorem sound_ofProgram {program : Program} {seed : UInt64} {stepper : Stepper}
    (built : ofProgram program seed = .ok stepper) : stepper.Sound := by
  obtain ⟨checked, rfl⟩ := (ofProgram_eq_ok ..).mp built
  exact sound_startIteration (s := ⟨program, ⟨.ofIteration 0, 0⟩, [], 0, .ofSeed seed⟩) checked 0

/-- Moving past the current statement keeps a stepper sound once the names it binds are bound. -/
theorem sound_advance {known : List String}
    (checked : Statement.checkBlock [inductionName] s.program.statements = .ok ())
    (enclosed : Enclosed s.program.statements s.below s.block known)
    (bound : ∀ name, name ∈ s.top.bindings.keys ↔
      name ∈ Statement.namesBefore known s.block (s.top.index + 1)) :
    s.advance.2.Sound := by
  rw [advance]
  split
  · rename_i next rest left moved
    obtain ⟨outer, names, inner, binds, room⟩ := enclosed.moveOn bound moved
    have same : blockOver s.program.statements rest = outer := inner.blockOver_eq
    subst same
    exact ⟨checked, ⟨names, inner, binds⟩, fun _ => room⟩
  · exact sound_startIteration checked _

@[simp] theorem program_advance (s : Stepper) : s.advance.2.program = s.program := by
  rw [advance]
  split <;> rfl

def bound (s : Stepper) (name : String) (v : Int64) (generator : Generator) : Stepper :=
  { s with top := ⟨s.top.bindings.put name v, s.top.index⟩, generator }

def entered (s : Stepper) (generator : Generator) : Stepper :=
  { s with top := ⟨s.top.bindings, 0⟩, below := s.top :: s.below, generator }

theorem step_of_idle (current : s.current? = none) : s.step = (.ok .idle, s) := by
  simp only [step, current]

theorem step_of_bind {name : String} {value : Expr} {lines : LineRange} {v : Int64}
    {g : Generator} (current : s.current? = some (.bind name value lines))
    (valued : value.value s.top.bindings s.generator = (.ok v, g)) :
    s.step = (.ok (.executed lines none (s.bound name v g).advance.1),
      (s.bound name v g).advance.2) := by
  simp only [step, current, valued, bound]

theorem step_of_entered {cond : Expr} {body : List Statement} {lines : LineRange} {v : Int64}
    {g : Generator} (current : s.current? = some (.guarded cond body lines))
    (valued : cond.value s.top.bindings s.generator = (.ok v, g)) (taken : v ≠ 0)
    (filled : body ≠ []) :
    s.step = (.ok (.executed lines (some ⟨lines.start, true⟩) .enteredBlock), s.entered g) := by
  simp [step, current, valued, taken, filled, entered]

/-- A guarded block that is not taken or is empty is passed like a binding. -/
theorem step_of_passed {cond : Expr} {body : List Statement} {lines : LineRange} {v : Int64}
    {g : Generator} (current : s.current? = some (.guarded cond body lines))
    (valued : cond.value s.top.bindings s.generator = (.ok v, g)) (passed : v = 0 ∨ body = []) :
    s.step = (.ok (.executed lines (some ⟨lines.start, decide (v ≠ 0)⟩)
      { s with generator := g }.advance.1), { s with generator := g }.advance.2) := by
  have stays : ¬ (decide (v ≠ 0) = true ∧ body ≠ []) := by
    rintro ⟨taken, filled⟩
    have nonzero : v ≠ 0 := by simpa using taken
    exact passed.elim nonzero filled
  simp only [step, current, valued, if_neg stays]

/-- The stepper stands on a statement unless its program has none. -/
theorem Sound.current?_eq_none (sound : s.Sound) :
    s.current? = none ↔ s.program.statements = [] := by
  obtain ⟨known, enclosed, -⟩ := sound.placed
  constructor
  · intro absent
    rw [current?, List.getElem?_eq_none_iff] at absent
    refine Classical.byContradiction fun filled => ?_
    have room := sound.inside filled
    omega
  · intro empty
    simp [current?, enclosed.block_eq_nil empty]

theorem Sound.exists_current (sound : s.Sound) (filled : s.program.statements ≠ []) :
    ∃ statement, s.current? = some statement :=
  Option.ne_none_iff_exists'.mp (mt sound.current?_eq_none.mp filled)

/-- The names that the current statement uses are bound, and its body, if it has one, passes the
check with the names known there. -/
theorem Sound.check_current (sound : s.Sound) {known : List String}
    (enclosed : Enclosed s.program.statements s.below s.block known)
    (binds : s.top.Binds known s.block) {statement : Statement}
    (current : s.current? = some statement) :
    ∃ names after, (∀ name, name ∈ s.top.bindings.keys ↔ name ∈ names) ∧
      Statement.check names statement = .ok after ∧
      Statement.namesBefore known s.block (s.top.index + 1) =
        Statement.namesAfter names statement := by
  obtain ⟨after, passed⟩ := Statement.check_at (enclosed.check_block sound.checked) current
  exact ⟨_, after, binds, passed, Statement.namesBefore_succ known current⟩

/-- A sound stepper executes a statement, unless its program has none, and is sound afterwards. -/
theorem Sound.step (sound : s.Sound) :
    ∃ outcome, s.step.1 = .ok outcome ∧ (outcome = .idle ↔ s.program.statements = []) ∧
      s.step.2.Sound ∧ s.step.2.program = s.program := by
  cases current : s.current? with
  | none =>
    have empty := sound.current?_eq_none.mp current
    rw [step_of_idle current]
    exact ⟨.idle, rfl, by simp [empty], sound, rfl⟩
  | some statement =>
    have filled : s.program.statements ≠ [] := fun empty => by
      rw [sound.current?_eq_none.mpr empty] at current
      contradiction
    obtain ⟨known, enclosed, binds⟩ := sound.placed
    obtain ⟨names, after, keys, passed, next⟩ := sound.check_current enclosed binds current
    cases statement with
    | bind name value lines =>
      obtain ⟨used, -⟩ := (Statement.check_bind ..).mp passed
      obtain ⟨v, g, valued⟩ := value.value_of_bound s.top.bindings s.generator
        fun name inside => (keys name).mpr (used name inside)
      rw [step_of_bind current valued]
      refine ⟨_, rfl, by simp [filled], ?_, by simp [bound]⟩
      refine sound_advance (s := s.bound name v g) sound.checked enclosed ?_
      intro other
      change other ∈ (s.top.bindings.put name v).keys ↔ _
      rw [Catalog.mem_keys_put, keys, show Statement.namesBefore known (s.bound name v g).block
        ((s.bound name v g).top.index + 1) = _ from next]
      simp [Statement.namesAfter]
    | guarded cond body lines =>
      obtain ⟨used, -, -⟩ := (Statement.check_guarded ..).mp passed
      obtain ⟨v, g, valued⟩ := cond.value_of_bound s.top.bindings s.generator
        fun name inside => (keys name).mpr (used name inside)
      by_cases passes : v = 0 ∨ body = []
      · rw [step_of_passed current valued passes]
        refine ⟨_, rfl, by simp [filled], ?_, by simp⟩
        refine sound_advance (s := { s with generator := g }) sound.checked enclosed ?_
        intro other
        change other ∈ s.top.bindings.keys ↔ other ∈ Statement.namesBefore known s.block (s.top.index + 1)
        rw [next]
        exact keys other
      · obtain ⟨taken, inner⟩ := not_or.mp passes
        rw [step_of_entered current valued taken inner]
        have nested := Enclosed.inside enclosed current inner binds
        have same : (s.entered g).block = body := nested.blockOver_eq
        refine ⟨_, rfl, by simp [filled], ⟨sound.checked, ⟨_, same ▸ nested, ?_⟩, ?_⟩, rfl⟩
        · exact binds
        · intro _
          rw [same]
          exact List.length_pos_iff.mpr inner

inductive Call where
  | step | reset
deriving DecidableEq

def perform (s : Stepper) : Call → Stepper
  | .step => s.step.2
  | .reset => s.reset

def after (s : Stepper) (calls : List Call) : Stepper := calls.foldl perform s

def answers (s : Stepper) : List Call → List (Except EvalError StepOutcome)
  | [] => []
  | .step :: calls => s.step.1 :: s.step.2.answers calls
  | .reset :: calls => s.reset.answers calls

theorem Sound.perform (sound : s.Sound) (call : Call) :
    (s.perform call).Sound ∧ (s.perform call).program = s.program := by
  cases call with
  | step =>
    obtain ⟨outcome, -, -, next, same⟩ := sound.step
    exact ⟨next, same⟩
  | reset => exact ⟨sound.reset, rfl⟩

theorem Sound.after (sound : s.Sound) (calls : List Call) :
    (s.after calls).Sound ∧ (s.after calls).program = s.program := by
  induction calls generalizing s with
  | nil => exact ⟨sound, rfl⟩
  | cons call calls ih =>
    obtain ⟨next, same⟩ := sound.perform call
    obtain ⟨last, kept⟩ := ih next
    exact ⟨last, kept.trans same⟩

/-- Every step of a history succeeds, and idles just in a program without statements. -/
theorem Sound.answers (sound : s.Sound) (calls : List Call) :
    ∀ answer ∈ s.answers calls, ∃ outcome, answer = .ok outcome ∧
      (outcome = .idle ↔ s.program.statements = []) := by
  induction calls generalizing s with
  | nil => simp [Stepper.answers]
  | cons call calls ih =>
    cases call with
    | step =>
      obtain ⟨outcome, answered, idle, next, same⟩ := sound.step
      intro answer member
      rcases List.mem_cons.mp member with rfl | later
      · exact ⟨outcome, answered, idle⟩
      · rw [← same]
        exact ih next answer later
    | reset => exact ih sound.reset

end Stepper
end BranchLab
