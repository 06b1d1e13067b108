import Mathlib.Data.List.Lex
import BranchLab.Proofs.Stepper.Rounds
import BranchLab.Proofs.Stepper.Transitions

/-! Where a program in execution stands in its tree. The indexes of the frames lead to the current
statement, and the statements of a program are listed with the indexes that lead to them, in source
order. What is still ahead is the rest of this list, from which a step takes the first and, unless it
enters a block, all that is under it. -/

namespace BranchLab

open Chance (Generator)

namespace Statement

mutual

def places (position : List Nat) : Statement → List (List Nat × Statement)
  | bind name value lines => [(position, bind name value lines)]
  | guarded cond body lines => (position, guarded cond body lines) :: blockPlaces position 0 body

/-- The statements of a block from an index on, where the block is under the one at a position. -/
def blockPlaces (above : List Nat) (index : Nat) : List Statement → List (List Nat × Statement)
  | [] => []
  | statement :: rest => places (above ++ [index]) statement ++ blockPlaces above (index + 1) rest

end

theorem places_eq (position : List Nat) (statement : Statement) :
    places position statement = (position, statement) :: blockPlaces position 0 statement.body := by
  cases statement <;> rfl

mutual

theorem map_places (position : List Nat) (depth : Nat) : (statement : Statement) →
    (places position statement).map Prod.snd = (outline depth statement).map Prod.snd
  | bind _ _ _ => rfl
  | guarded cond body lines =>
    congrArg (guarded cond body lines :: ·) (map_blockPlaces position 0 (depth + 1) body)

/-- The places are in source order. -/
theorem map_blockPlaces (above : List Nat) (index depth : Nat) : (block : List Statement) →
    (blockPlaces above index block).map Prod.snd = (blockOutline depth block).map Prod.snd
  | [] => rfl
  | statement :: rest => by
    rw [blockPlaces, blockOutline, List.map_append, List.map_append, map_places _ depth statement,
      map_blockPlaces above (index + 1) depth rest]

end

mutual

theorem isPrefix_of_mem_places {position : List Nat} : (statement : Statement) →
    ∀ place ∈ places position statement, position <+: place.1
  | bind _ _ _, place, member => by
    cases List.mem_singleton.mp member
    exact List.prefix_rfl
  | guarded cond body lines, place, member => by
    rcases List.mem_cons.mp member with rfl | inside
    · exact List.prefix_rfl
    · obtain ⟨later, -, below⟩ := isPrefix_of_mem_blockPlaces body place inside
      exact (List.prefix_append ..).trans below

/-- What is in a block is under one of its statements. -/
theorem isPrefix_of_mem_blockPlaces {above : List Nat} {index : Nat} : (block : List Statement) →
    ∀ place ∈ blockPlaces above index block, ∃ later, index ≤ later ∧ above ++ [later] <+: place.1
  | [], place, member => by cases member
  | statement :: rest, place, member => by
    rcases List.mem_append.mp member with here | behind
    · exact ⟨index, Nat.le_refl _, isPrefix_of_mem_places statement place here⟩
    · obtain ⟨later, after, below⟩ := isPrefix_of_mem_blockPlaces rest place behind
      exact ⟨later, Nat.le_of_succ_le after, below⟩

end

mutual

theorem ordered_places (position : List Nat) : (statement : Statement) →
    ((places position statement).map Prod.fst).Pairwise (List.Lex (· < ·))
  | bind _ _ _ => List.pairwise_singleton _ position
  | guarded cond body lines => by
    refine List.pairwise_cons.mpr ⟨fun other member => ?_, ordered_blockPlaces position 0 body⟩
    obtain ⟨place, inside, rfl⟩ := List.mem_map.mp member
    obtain ⟨later, -, rest, below⟩ := isPrefix_of_mem_blockPlaces body place inside
    rw [← below, List.append_assoc]
    have longer : List.Lex (· < ·) [] ([later] ++ rest) := .nil
    simpa using longer.append_left _ position

/-- Each position comes before the later ones in the order of indexes from the outermost in, and
therefore none is listed twice. -/
theorem ordered_blockPlaces (above : List Nat) (index : Nat) : (block : List Statement) →
    ((blockPlaces above index block).map Prod.fst).Pairwise (List.Lex (· < ·))
  | [] => .nil
  | statement :: rest => by
    rw [blockPlaces, List.map_append, List.pairwise_append]
    refine ⟨ordered_places _ statement, ordered_blockPlaces above (index + 1) rest, ?_⟩
    intro position here other behind
    obtain ⟨place, inside, rfl⟩ := List.mem_map.mp here
    obtain ⟨place', member, rfl⟩ := List.mem_map.mp behind
    obtain ⟨front, first⟩ := isPrefix_of_mem_places statement place inside
    obtain ⟨later, after, back, second⟩ := isPrefix_of_mem_blockPlaces rest place' member
    rw [← first, ← second, List.append_assoc, List.append_assoc]
    -- The two statements of the block have the same position above them and different indexes.
    have order : List.Lex (· < ·) ([index] ++ front) ([later] ++ back) := .rel after
    exact order.append_left _ above

end

end Statement

def Program.places (program : Program) : List (List Nat × Statement) :=
  Statement.blockPlaces [] 0 program.statements

theorem Program.length_places (program : Program) : program.places.length = program.outline.length := by
  have counted := congrArg List.length (Statement.map_blockPlaces [] 0 0 program.statements)
  rwa [List.length_map, List.length_map] at counted

namespace Stepper

open Statement (blockPlaces places)

/-- The indexes of frames, given from the innermost out, from the outermost in. -/
def path (frames : List Frame) : List Nat := (frames.map Frame.index).reverse

def position (s : Stepper) : List Nat := path (s.top :: s.below)

/-- What stands behind the current statements of frames in the blocks that these are in. -/
def behind (statements : List Statement) : List Frame → List (List Nat × Statement)
  | [] => []
  | frame :: below =>
    blockPlaces (path below) (frame.index + 1)
      ((blockOver statements below).drop (frame.index + 1)) ++ behind statements below

def ahead (s : Stepper) : List (List Nat × Statement) :=
  blockPlaces (path s.below) s.top.index (s.block.drop s.top.index) ++
    behind s.program.statements s.below

/-- How many statements there are behind the current ones of frames in their blocks, without those under
them. -/
def pending (statements : List Statement) : List Frame → Nat
  | [] => 0
  | frame :: below =>
    (blockOver statements below).length - (frame.index + 1) + pending statements below

def stillPending (s : Stepper) : Nat := pending s.program.statements (s.top :: s.below)

theorem path_cons (frame : Frame) (below : List Frame) :
    path (frame :: below) = path below ++ [frame.index] := List.reverse_cons

section Moving

variable {statements : List Statement} {top next : Frame} {below rest : List Frame}
  {popped left : Nat}

/-- Moving on comes to the first statement behind the current ones. -/
theorem behind_of_moveOn (moved : moveOn statements top below popped = some (next, rest, left)) :
    behind statements (top :: below) =
      blockPlaces (path rest) next.index ((blockOver statements rest).drop next.index) ++
        behind statements rest := by
  induction below generalizing top popped with
  | nil =>
    rw [moveOn] at moved
    split at moved
    · cases moved
      rfl
    · cases moved
  | cons parent below ih =>
    rw [moveOn] at moved
    split at moved
    · cases moved
      rfl
    · rename_i full
      rw [behind, List.drop_of_length_le (Nat.le_of_not_lt full)]
      exact ih moved

theorem pending_of_moveOn (moved : moveOn statements top below popped = some (next, rest, left)) :
    pending statements (top :: below) = pending statements (next :: rest) + 1 := by
  induction below generalizing top popped with
  | nil =>
    rw [moveOn] at moved
    split at moved
    · cases moved
      simp only [pending]
      omega
    · cases moved
  | cons parent below ih =>
    rw [moveOn] at moved
    split at moved
    · cases moved
      simp only [pending]
      omega
    · rename_i full
      rw [pending, Nat.sub_eq_zero_of_le (Nat.le_of_not_lt full), Nat.zero_add]
      exact ih moved

/-- When all frames are over nothing is behind them. -/
theorem pending_of_moveOn_none (moved : moveOn statements top below popped = none) :
    pending statements (top :: below) = 0 := by
  induction below generalizing top popped with
  | nil =>
    rw [moveOn] at moved
    split at moved
    · cases moved
    · rename_i full
      exact Nat.sub_eq_zero_of_le (Nat.le_of_not_lt full)
  | cons parent below ih =>
    rw [moveOn] at moved
    split at moved
    · cases moved
    · rename_i full
      rw [pending, Nat.sub_eq_zero_of_le (Nat.le_of_not_lt full), Nat.zero_add]
      exact ih moved

end Moving

variable {s : Stepper}

/-- The current statement is the first of what is ahead, and all that is under it comes next. -/
theorem ahead_of_current {statement : Statement} (current : s.current? = some statement) :
    s.ahead = (s.position, statement) :: (blockPlaces s.position 0 statement.body ++
      behind s.program.statements (s.top :: s.below)) := by
  obtain ⟨inside, found⟩ := List.getElem?_eq_some_iff.mp current
  rw [ahead, List.drop_eq_getElem_cons inside, found, blockPlaces, Statement.places_eq, ← path_cons,
    List.cons_append, List.cons_append, List.append_assoc]
  rfl

inductive Progress (s next : Stepper) (statement : Statement) (outcome : StepOutcome) : Prop
  | enters (entered : outcome.transition = some .enteredBlock)
      (stays : outcome.startedIteration = false)
      (first : next.ahead = blockPlaces s.position 0 statement.body ++
        behind s.program.statements (s.top :: s.below))
      (count : next.stillPending + 1 = statement.body.length + s.stillPending)
  | passes (passed : outcome.transition ≠ some .enteredBlock)
      (stays : outcome.startedIteration = false)
      (first : next.ahead = behind s.program.statements (s.top :: s.below))
      (count : next.stillPending + 1 = s.stillPending)
  | wraps (passed : outcome.transition ≠ some .enteredBlock)
      (starts : outcome.startedIteration = true) (count : s.stillPending = 0)

/-- Moving past the current statement passes it or, behind the last one, starts an iteration. -/
theorem progress_advance (s : Stepper) (bindings : Bindings) (g : Generator) (lines : LineRange)
    (branch : Option BranchEvent) (statement : Statement) :
    s.Progress (s.settled bindings g).advance.2 statement
      (.executed lines branch (s.settled bindings g).advance.1) := by
  rw [advance]
  split
  · rename_i next rest left moved
    refine .passes ?_ ?_ (behind_of_moveOn moved).symm (pending_of_moveOn moved).symm
    · by_cases none : left = 0 <;> simp [none, StepOutcome.transition]
    · by_cases none : left = 0 <;> simp [none, StepOutcome.startedIteration]
  · rename_i moved
    have none := pending_of_moveOn_none moved
    exact .wraps (by simp [StepOutcome.transition]) rfl none

theorem progress_entered {cond : Expr} {body : List Statement} {lines : LineRange}
    (current : s.current? = some (.guarded cond body lines)) (filled : body ≠ []) (g : Generator) :
    s.Progress (s.entered g) (.guarded cond body lines)
      (.executed lines (some ⟨lines.start, true⟩) .enteredBlock) := by
  have inner : blockOver s.program.statements (s.top :: s.below) = body := block_entered current g
  refine .enters rfl rfl ?_ ?_
  · rw [ahead, show (s.entered g).block = body from inner]
    rfl
  · have counted : (s.entered g).stillPending = body.length - 1 + s.stillPending := by
      rw [← inner]
      rfl
    have := List.length_pos_iff.mpr filled
    rw [counted]
    change body.length - 1 + s.stillPending + 1 = body.length + s.stillPending
    omega

theorem Sound.progress (sound : s.Sound) (filled : s.program.statements ≠ []) :
    ∃ statement outcome, s.current? = some statement ∧ s.step = (.ok outcome, s.step.2) ∧
      s.Progress s.step.2 statement outcome := by
  obtain ⟨statement, current⟩ := sound.exists_current filled
  rcases sound.step_cases filled with
    ⟨cond, body, lines, g, here, inner, -, stepped⟩ | ⟨bindings, g, lines, branch, -, stepped⟩
  · obtain rfl := Option.some.inj (here.symm.trans current)
    rw [stepped]
    exact ⟨_, _, current, rfl, progress_entered current inner g⟩
  · rw [stepped]
    exact ⟨statement, _, current, rfl, s.progress_advance bindings g lines branch statement⟩

/-- From any statement the iteration ends within as many steps as there are statements ahead. -/
theorem Sound.finishes (sound : s.Sound) (filled : s.program.statements ≠ []) :
    ∃ outcomes last, Pass s outcomes last ∧ outcomes.length ≤ s.ahead.length := by
  obtain ⟨size, bound⟩ : ∃ size, s.ahead.length ≤ size := ⟨_, Nat.le_refl _⟩
  induction size generalizing s with
  | zero =>
    obtain ⟨statement, outcome, current, -⟩ := sound.progress filled
    rw [ahead_of_current current, List.length_cons] at bound
    omega
  | succ size ih =>
    obtain ⟨statement, outcome, current, stepped, progress⟩ := sound.progress filled
    obtain ⟨-, -, -, steady, same⟩ := sound.step
    have longer := congrArg List.length (ahead_of_current current)
    rw [List.length_cons, List.length_append] at longer
    have goesOn (stays : outcome.startedIteration = false)
        (fewer : s.step.2.ahead.length < s.ahead.length) :
        ∃ outcomes last, Pass s outcomes last ∧ outcomes.length ≤ s.ahead.length := by
      obtain ⟨outcomes, last, pass, within⟩ := ih steady (by rwa [same]) (by omega)
      exact ⟨outcome :: outcomes, last, .goesOn stepped stays pass, by rw [List.length_cons]; omega⟩
    cases progress with
    | enters entered stays first count =>
      refine goesOn stays ?_
      rw [first, List.length_append]
      omega
    | passes passed stays first count =>
      refine goesOn stays ?_
      rw [first]
      omega
    | wraps passed starts count =>
      exact ⟨[outcome], _, .wraps stepped starts, by rw [List.length_singleton]; omega⟩

/-- What stands behind an index of a block comes last in the block. -/
theorem blockPlaces_drop (above : List Nat) (index n : Nat) (block : List Statement) :
    blockPlaces above (index + n) (block.drop n) <:+ blockPlaces above index block := by
  induction n generalizing index block with
  | zero => exact List.suffix_rfl
  | succ n ih =>
    cases block with
    | nil => exact List.suffix_rfl
    | cons statement rest =>
      rw [List.drop_succ_cons, ← Nat.succ_add_eq_add_succ]
      exact (ih (index + 1) rest).trans (List.suffix_append ..)

end Stepper

open Stepper in
/-- The places from an index on of the block in which frames stand, with those behind the frames, come
last in the program. -/
theorem Enclosed.isSuffix_places {statements block : List Statement} {below : List Frame}
    {known : List String} (enclosed : Enclosed statements below block known) (index : Nat) :
    Statement.blockPlaces (path below) index (block.drop index) ++ behind statements below <:+
      Statement.blockPlaces [] 0 statements := by
  induction enclosed generalizing index with
  | outermost =>
    have last := blockPlaces_drop [] 0 index statements
    rw [Nat.zero_add] at last
    rwa [behind, List.append_nil]
  | @inside parent below block body known cond lines outer current filled bound ih =>
    obtain ⟨inside, found⟩ := List.getElem?_eq_some_iff.mp current
    obtain ⟨front, split⟩ := blockPlaces_drop (path (parent :: below)) 0 index body
    refine List.IsSuffix.trans ⟨(path (parent :: below), .guarded cond body lines) :: front, ?_⟩
      (ih parent.index)
    rw [Nat.zero_add] at split
    rw [List.drop_eq_getElem_cons inside, found, Statement.blockPlaces, Statement.places,
      ← path_cons, ← split, behind, outer.blockOver_eq]
    simp only [List.cons_append, List.append_assoc]

namespace Stepper

variable {s : Stepper}

/-- What is ahead comes last in the program. -/
theorem Sound.ahead_isSuffix (sound : s.Sound) : s.ahead <:+ s.program.places := by
  obtain ⟨known, enclosed, -⟩ := sound.placed
  exact enclosed.isSuffix_places s.top.index

end Stepper
end BranchLab
