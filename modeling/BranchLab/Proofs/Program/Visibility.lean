import Mathlib.Data.List.Nodup
import BranchLab.Proofs.Source.Sites
import BranchLab.Proofs.Stepper.Positions

/-! Lexical scope said by positions in the tree, and the scope check against it. A use of a name is
visible if the name is bound from the start, or by a binding that stands earlier in the block of the
use or of a guarded block around it. The check goes through the uses in source order, and the first
that is not visible is what it reports. -/

namespace BranchLab

structure Occurrence where
  name : String
  position : List Nat
  line : Nat

def Statement.uses (place : List Nat × Statement) : List Occurrence :=
  place.2.expr.names.map fun name => ⟨name, place.1, place.2.lines.start⟩

namespace Program

def uses (program : Program) : List Occurrence := program.places.flatMap Statement.uses

/-- A binding of the name stands before an index on the way to the position: before the statement there
in its block, or before one of the guarded blocks around it in the block of that one. -/
def BindsBefore (program : Program) (name : String) (position : List Nat) : Prop :=
  ∃ outer index inner earlier, position = outer ++ index :: inner ∧ earlier < index ∧
    ∃ value lines, (outer ++ [earlier], .bind name value lines) ∈ program.places

/-- Names bound from the start are visible everywhere, and others behind a binding of them. -/
def Visible (program : Program) (initial : Bindings) (name : String) (position : List Nat) : Prop :=
  name ∈ initial.keys ∨ program.BindsBefore name position

section Places

variable {program : Program} {initial : Bindings} {name : String} {above : List Nat} {index : Nat}

theorem statement_unique {position : List Nat} {statement other : Statement}
    (member : (position, statement) ∈ program.places) (again : (position, other) ∈ program.places) :
    other = statement := by
  have ordered := Statement.ordered_blockPlaces [] 0 program.statements
  have distinct : (program.places.map Prod.fst).Nodup := by
    refine ordered.imp fun {first second} less same => ?_
    subst same
    exact irrefl_of (List.Lex (· < ·)) first less
  exact congrArg Prod.snd (List.inj_on_of_nodup_map distinct again member rfl)

theorem bindsBefore_append_singleton :
    program.BindsBefore name (above ++ [index]) ↔ program.BindsBefore name above ∨
      ∃ earlier < index, ∃ value lines, (above ++ [earlier], .bind name value lines) ∈ program.places := by
  constructor
  · rintro ⟨outer, next, inner, earlier, split, before, binding⟩
    rcases inner.eq_nil_or_concat' with rfl | ⟨inner, last, rfl⟩
    · obtain ⟨rfl, same⟩ := List.append_inj' split rfl
      cases same
      exact .inr ⟨earlier, before, binding⟩
    · rw [← List.cons_append, ← List.append_assoc] at split
      obtain ⟨rfl, -⟩ := List.append_inj' split rfl
      exact .inl ⟨outer, next, inner, earlier, rfl, before, binding⟩
  · rintro (⟨outer, next, inner, earlier, rfl, before, binding⟩ | ⟨earlier, before, binding⟩)
    · exact ⟨outer, next, inner ++ [index], earlier, by simp, before, binding⟩
    · exact ⟨above, index, [], earlier, rfl, before, binding⟩

/-- At the first statement of a body the names are visible that are visible at its guard. -/
theorem visible_body (position : List Nat) :
    program.Visible initial name (position ++ [0]) ↔ program.Visible initial name position := by
  simp [Visible, bindsBefore_append_singleton]

/-- Behind a statement of a block one more name is visible, if it is a binding. -/
theorem visible_succ {statement : Statement}
    (here : (above ++ [index], statement) ∈ program.places) :
    program.Visible initial name (above ++ [index + 1]) ↔
      program.Visible initial name (above ++ [index]) ∨
        ∃ value lines, statement = .bind name value lines := by
  rw [Visible, Visible, bindsBefore_append_singleton, bindsBefore_append_singleton, or_assoc, or_assoc]
  refine or_congr_right (or_congr_right ?_)
  constructor
  · rintro ⟨earlier, before, value, lines, binding⟩
    rcases Nat.lt_succ_iff_lt_or_eq.mp before with less | rfl
    · exact .inl ⟨earlier, less, value, lines, binding⟩
    · exact .inr ⟨value, lines, (statement_unique binding here)⟩
  · rintro (⟨earlier, less, binding⟩ | ⟨value, lines, rfl⟩)
    · exact ⟨earlier, Nat.lt_succ_of_lt less, binding⟩
    · exact ⟨index, Nat.lt_succ_self index, value, lines, here⟩

end Places
end Program

/-- A check of uses in order: it passes if they are all seen, and otherwise reports the first that is
not. -/
inductive Reports {α : Type} (seen : Occurrence → Prop) (uses : List Occurrence) :
    Except ScopeError α → Prop
  | passes {value : α} (all : ∀ use ∈ uses, seen use) : Reports seen uses (.ok value)
  | fails {before after : List Occurrence} {use : Occurrence} (split : uses = before ++ use :: after)
      (earlier : ∀ other ∈ before, seen other) (unseen : ¬seen use) :
      Reports seen uses (.error ⟨use.name, use.line⟩)

namespace Reports

variable {α β : Type} {seen : Occurrence → Prop} {uses more : List Occurrence}
  {answer : Except ScopeError α}

theorem bind {first : Except ScopeError α} {next : α → Except ScopeError β}
    (reports : Reports seen uses first)
    (others : ∀ value, first = .ok value → Reports seen more (next value)) :
    Reports seen (uses ++ more) (first >>= next) := by
  cases reports with
  | @passes value all =>
    rw [ok_bind]
    cases rest : next value with
    | ok result =>
      cases rest ▸ others value rfl with
      | passes rest =>
        refine .passes fun use member => ?_
        exact (List.mem_append.mp member).elim (all use) (rest use)
    | error error =>
      cases rest ▸ others value rfl with
      | @fails before after use split earlier unseen =>
        have later : uses ++ more = (uses ++ before) ++ use :: after := by rw [split, List.append_assoc]
        refine .fails later (fun other member => ?_) unseen
        exact (List.mem_append.mp member).elim (all other) (earlier other)
  | @fails before after use split earlier unseen =>
    have sooner : uses ++ more = before ++ use :: (after ++ more) := by
      rw [split, List.append_assoc, List.cons_append]
    exact .fails sooner earlier unseen

/-- What is reported first does not depend on how the uses are split. -/
theorem first_unique {before after front back : List Occurrence} {use other : Occurrence}
    (same : before ++ use :: after = front ++ other :: back) (earlier : ∀ u ∈ before, seen u)
    (unseen : ¬seen use) (seenFront : ∀ u ∈ front, seen u) (unseenOther : ¬seen other) :
    use = other := by
  classical
  have found {uses before after : List Occurrence} {use : Occurrence}
      (split : uses = before ++ use :: after) (earlier : ∀ u ∈ before, seen u)
      (unseen : ¬seen use) : uses.find? (fun u => ¬seen u) = some use :=
    List.find?_eq_some_iff_append.mpr
      ⟨by simpa using unseen, before, after, split, by simpa using earlier⟩
  exact Option.some.inj ((found rfl earlier unseen).symm.trans (found same seenFront unseenOther))

theorem ok_iff {answer : Except ScopeError Unit} (reports : Reports seen uses answer) :
    answer = .ok () ↔ ∀ use ∈ uses, seen use := by
  cases reports with
  | passes all => exact ⟨fun _ => all, fun _ => rfl⟩
  | @fails before after use split earlier unseen =>
    constructor
    · intro passed
      cases passed
    · intro all
      exact absurd (all use (by simp [split])) unseen

theorem error_iff (reports : Reports seen uses answer) (error : ScopeError) :
    answer = .error error ↔ ∃ before use after, uses = before ++ use :: after ∧
      (∀ other ∈ before, seen other) ∧ ¬seen use ∧ error = ⟨use.name, use.line⟩ := by
  cases reports with
  | passes all =>
    constructor
    · intro failed
      cases failed
    · rintro ⟨before, use, after, split, -, unseen, -⟩
      exact absurd (all use (by simp [split])) unseen
  | @fails before after use split earlier unseen =>
    constructor
    · intro failed
      cases failed
      exact ⟨before, use, after, split, earlier, unseen, rfl⟩
    · rintro ⟨front, other, back, again, first, hidden, rfl⟩
      rw [first_unique (split.symm.trans again) earlier unseen first hidden]

end Reports

namespace Statement

section Checking

variable {program : Program} {initial : Bindings}

theorem reports_checkNames {known : List String} {position : List Nat} (line : Nat) (e : Expr)
    (seen : ∀ name, name ∈ known ↔ program.Visible initial name position) :
    Reports (fun use => program.Visible initial use.name use.position)
      (e.names.map fun name => ⟨name, position, line⟩) (e.checkNames known line) := by
  rw [Expr.checkNames]
  cases found : e.firstUnknown known with
  | none =>
    refine .passes fun use member => ?_
    obtain ⟨name, inside, rfl⟩ := List.mem_map.mp member
    have none := List.find?_eq_none.mp found name inside
    exact (seen name).mp (by simpa using none)
  | some name =>
    obtain ⟨unknown, before, after, split, earlier⟩ := List.find?_eq_some_iff_append.mp found
    have uses := congrArg (List.map fun name => (⟨name, position, line⟩ : Occurrence)) split
    rw [List.map_append, List.map_cons] at uses
    refine .fails uses ?_ ?_
    · intro other member
      obtain ⟨known, inside, rfl⟩ := List.mem_map.mp member
      exact (seen known).mp (by simpa using earlier known inside)
    · exact fun visible => absurd ((seen name).mpr visible) (by simpa using unknown)

mutual

/-- The check of a statement of the program reports on the uses in it and under it, if it is given the
names that are visible there. -/
theorem reports_check {known : List String} {position : List Nat} : (statement : Statement) →
    (∀ place ∈ places position statement, place ∈ program.places) →
    (∀ name, name ∈ known ↔ program.Visible initial name position) →
    Reports (fun use => program.Visible initial use.name use.position)
      ((places position statement).flatMap uses) (check known statement)
  | bind name value lines, _, seen => by
    have names := reports_checkNames lines.start value seen
    rw [places, List.flatMap_singleton, check, ← List.append_nil (uses _)]
    exact names.bind fun _ _ => .passes (List.forall_mem_nil _)
  | guarded cond body lines, inside, seen => by
    have names := reports_checkNames lines.start cond seen
    have within : ∀ place ∈ blockPlaces position 0 body, place ∈ program.places :=
      fun place member => inside place (List.mem_cons_of_mem _ member)
    have below := reports_checkBlock body within fun name =>
      (seen name).trans (Program.visible_body _).symm
    rw [places, List.flatMap_cons, check]
    refine names.bind fun _ _ => ?_
    rw [← List.append_nil (List.flatMap ..)]
    exact below.bind fun _ _ => .passes (List.forall_mem_nil _)

theorem reports_checkBlock {known : List String} {above : List Nat} {index : Nat} :
    (block : List Statement) → (∀ place ∈ blockPlaces above index block, place ∈ program.places) →
    (∀ name, name ∈ known ↔ program.Visible initial name (above ++ [index])) →
    Reports (fun use => program.Visible initial use.name use.position)
      ((blockPlaces above index block).flatMap uses) (checkBlock known block)
  | [], _, _ => .passes (List.forall_mem_nil _)
  | statement :: rest, inside, seen => by
    have first : ∀ place ∈ places (above ++ [index]) statement, place ∈ program.places :=
      fun place member => inside place (List.mem_append_left _ member)
    have others : ∀ place ∈ blockPlaces above (index + 1) rest, place ∈ program.places :=
      fun place member => inside place (List.mem_append_right _ member)
    have here : (above ++ [index], statement) ∈ program.places :=
      first _ (by rw [places_eq]; exact List.mem_cons_self)
    rw [blockPlaces, List.flatMap_append, checkBlock]
    refine (reports_check statement first seen).bind fun after checked => ?_
    refine reports_checkBlock rest others fun name => ?_
    rw [names_after_check checked, Program.visible_succ here, ← seen name]
    cases statement with
    | bind bound value lines => simp [namesAfter, or_comm, eq_comm]
    | guarded cond body lines => simp [namesAfter]

end

end Checking
end Statement

theorem Program.reports_check (program : Program) (initial : Bindings) :
    Reports (fun use => program.Visible initial use.name use.position) program.uses
      (program.check initial) := by
  refine Statement.reports_checkBlock program.statements (fun _ member => member) fun name => ?_
  have outermost : ¬program.BindsBefore name [] := by simp [BindsBefore]
  rw [visible_body [], Visible, or_iff_left outermost]

/-- The check passes just if every use in the program is visible, and otherwise reports the name of the
first that is not, with the first line of its statement. It makes no difference which values are bound
from the start. -/
theorem check_reports_first_invisible_use (program : Program) (initial : Bindings) :
    (program.check initial = .ok () ↔
      ∀ use ∈ program.uses, program.Visible initial use.name use.position) ∧
    (∀ error, program.check initial = .error error ↔
      ∃ before use after, program.uses = before ++ use :: after ∧
        (∀ other ∈ before, program.Visible initial other.name other.position) ∧
        ¬program.Visible initial use.name use.position ∧ error = ⟨use.name, use.line⟩) ∧
    ∀ other : Bindings, (∀ name, name ∈ other.keys ↔ name ∈ initial.keys) →
      program.check other = program.check initial := by
  have reports := program.reports_check initial
  refine ⟨reports.ok_iff, reports.error_iff, fun other same => ?_⟩
  have again := program.reports_check other
  have alike (use : Occurrence) : program.Visible other use.name use.position ↔
      program.Visible initial use.name use.position := or_congr_left (same use.name)
  simp only [alike] at again
  cases checked : program.check initial with
  | ok done => exact again.ok_iff.mpr (reports.ok_iff.mp checked)
  | error error => exact (again.error_iff error).mpr ((reports.error_iff error).mp checked)

/-- One name is bound in a block that is over and another by the statement itself, which uses both. The
one on the left is reported, from whatever number of the iteration. -/
theorem check_reports_first_invisible_use_left_block :
    let program : Program :=
      ⟨[.guarded (.ident "i") [.bind "y" (.ident "i") ⟨2, 2⟩] ⟨1, 3⟩,
        .bind "z" (.binary .add (.ident "y") (.ident "z")) ⟨4, 4⟩]⟩
    let zero := Bindings.ofIteration 0
    let seven := Bindings.ofIteration 7
    (∀ name, name ∈ seven.keys ↔ name ∈ zero.keys) ∧ program.check zero = .error ⟨"y", 4⟩ ∧
      program.check seven = program.check zero ∧
      (∃ before use after, program.uses = before ++ use :: after ∧
        (∀ other ∈ before, program.Visible zero other.name other.position) ∧
        ¬program.Visible zero use.name use.position ∧ (⟨"y", 4⟩ : ScopeError) = ⟨use.name, use.line⟩) ∧
      ¬∀ use ∈ program.uses, program.Visible zero use.name use.position := by
  intro program zero seven
  have same : ∀ name, name ∈ seven.keys ↔ name ∈ zero.keys := fun _ => Iff.rfl
  have failed : program.check zero = .error ⟨"y", 4⟩ := rfl
  obtain ⟨passes, fails, values⟩ := check_reports_first_invisible_use program zero
  refine ⟨same, failed, values seven same, (fails _).mp failed, fun all => ?_⟩
  cases failed.symm.trans (passes.mpr all)

end BranchLab
