import Mathlib.Data.List.Basic
import BranchLab.Proofs.Stepper.Frames

/-! The statements that a program executes, one after another, and where some of its steps stop. What
stops them is left open: they may be the steps of a batch or of an automatic run. -/

namespace BranchLab

structure Execution where
  before : Stepper
  after : Stepper

namespace Execution

def outcome (e : Execution) : StepOutcome := e.before.step.1.toOption.getD .idle

theorem outcome_of_answered {s : Stepper} {answer : StepOutcome} (answered : s.step.1 = .ok answer)
    (next : Stepper) : outcome ⟨s, next⟩ = answer := by
  rw [outcome, answered]
  rfl

def branch (e : Execution) : Option BranchEvent := e.outcome.branch

end Execution

def Stepper.course : Nat → Stepper → List Execution
  | 0, _ => []
  | n + 1, s =>
    match s.current? with
    | none => []
    | some _ => ⟨s, s.step.2⟩ :: course n s.step.2

namespace Stepper

variable {s : Stepper} {statement : Statement} {outcome : StepOutcome}

def stepped (s : Stepper) (n : Nat) : Stepper := s.after (List.replicate n .step)

theorem course_of_none (absent : s.current? = none) (n : Nat) : s.course n = [] := by
  cases n with
  | zero => rfl
  | succ n => rw [course, absent]

theorem course_of_some (current : s.current? = some statement) (n : Nat) :
    s.course (n + 1) = ⟨s, s.step.2⟩ :: s.step.2.course n := by
  rw [course, current]

theorem Sound.length_course (sound : s.Sound) (n : Nat) :
    (s.course n).length = if s.program.statements = [] then 0 else n := by
  induction n generalizing s with
  | zero => exact (ite_self 0).symm
  | succ n ih =>
    cases current : s.current? with
    | none =>
      rw [course_of_none current, if_pos (sound.current?_eq_none.mp current)]
      rfl
    | some statement =>
      obtain ⟨-, -, -, next, same⟩ := sound.step
      have filled : s.program.statements ≠ [] := fun empty => by
        rw [sound.current?_eq_none.mpr empty] at current
        cases current
      rw [course_of_some current, List.length_cons, ih next, same, if_neg filled, if_neg filled]

theorem stepped_of_none (absent : s.current? = none) (n : Nat) : s.stepped n = s := by
  induction n with
  | zero => rfl
  | succ n ih =>
    change s.step.2.stepped n = s
    rw [step_of_idle absent, ih]

/-- Two courses, the second from where the first ends, are one. -/
theorem course_add (s : Stepper) (m n : Nat) :
    s.course (m + n) = s.course m ++ (s.stepped m).course n := by
  induction m generalizing s with
  | zero => rw [Nat.zero_add]; rfl
  | succ m ih =>
    cases current : s.current? with
    | none => rw [stepped_of_none current, course_of_none current, course_of_none current,
        course_of_none current, List.append_nil]
    | some statement =>
      rw [Nat.add_right_comm, course_of_some current, course_of_some current, ih]
      rfl

theorem stepped_add (s : Stepper) (m n : Nat) : (s.stepped m).stepped n = s.stepped (m + n) := by
  rw [stepped, stepped, stepped, after, after, after, List.replicate_add, List.foldl_append]

def executionAt (s : Stepper) (n : Nat) : Execution := ⟨s.stepped n, s.stepped (n + 1)⟩

theorem executionAt_add (s : Stepper) (m n : Nat) :
    (s.stepped m).executionAt n = s.executionAt (m + n) := by
  rw [executionAt, executionAt, stepped_add, stepped_add, Nat.add_assoc]

theorem executionAt_eq (s : Stepper) (n : Nat) :
    s.executionAt n = ⟨s.stepped n, (s.stepped n).step.2⟩ :=
  congrArg (Execution.mk _) (stepped_add s n 1).symm

theorem outcome_executionAt {n : Nat} (answered : (s.stepped n).step.1 = .ok outcome) :
    (s.executionAt n).outcome = outcome :=
  Execution.outcome_of_answered answered _

def branches (s : Stepper) (n : Nat) : Nat := (s.course n).countP (·.branch.isSome)

theorem branches_succ (current : s.current? = some statement) (answered : s.step.1 = .ok outcome)
    (n : Nat) : s.branches (n + 1) = outcome.branch.isSome.toNat + s.step.2.branches n := by
  have first := Execution.outcome_of_answered answered s.step.2
  rw [branches, course_of_some current, List.countP_cons, Execution.branch, first, Nat.add_comm]
  cases outcome.branch <;> rfl

def lastOutcome (s : Stepper) (n : Nat) (otherwise : StepOutcome) : StepOutcome :=
  ((s.course n).getLast?.map Execution.outcome).getD otherwise

theorem lastOutcome_succ (current : s.current? = some statement)
    (answered : s.step.1 = .ok outcome) (n : Nat) (otherwise : StepOutcome) :
    s.lastOutcome (n + 1) otherwise = s.step.2.lastOutcome n outcome := by
  have first := Execution.outcome_of_answered answered s.step.2
  rw [lastOutcome, course_of_some current, List.getLast?_cons, lastOutcome, ← first]
  cases (s.step.2.course n).getLast? <;> rfl

/-- The course of a program with statements is made of its executions. -/
theorem Sound.course_eq_map (sound : s.Sound) (filled : s.program.statements ≠ []) (n : Nat) :
    s.course n = (List.range n).map s.executionAt := by
  induction n generalizing s with
  | zero => rfl
  | succ n ih =>
    obtain ⟨statement, current⟩ := sound.exists_current filled
    obtain ⟨-, -, -, steady, same⟩ := sound.step
    have later : s.step.2.executionAt = s.executionAt ∘ Nat.succ := funext fun n => by
      exact (executionAt_add s 1 n).trans (congrArg _ (Nat.add_comm 1 n))
    rw [course_of_some current, ih steady (same ▸ filled), List.range_succ_eq_map, List.map_cons,
      List.map_map, later]
    rfl

/-- Each step of a program with statements executes one, and succeeds. -/
theorem Sound.answers_stepped (sound : s.Sound) (filled : s.program.statements ≠ []) (n : Nat) :
    ∃ statement outcome, (s.stepped n).current? = some statement ∧
      (s.stepped n).step.1 = .ok outcome := by
  obtain ⟨steady, same⟩ := sound.after (List.replicate n .step)
  obtain ⟨outcome, answered, -⟩ := steady.step
  obtain ⟨statement, current⟩ := steady.exists_current (same ▸ filled)
  exact ⟨statement, outcome, current, answered⟩

theorem Sound.lastOutcome_eq (sound : s.Sound) (filled : s.program.statements ≠ []) (n : Nat)
    (otherwise : StepOutcome) : s.lastOutcome (n + 1) otherwise = (s.executionAt n).outcome := by
  rw [lastOutcome, sound.course_eq_map filled, List.range_succ, List.map_append, List.map_singleton,
    List.getLast?_concat]
  rfl

end Stepper

def IsFirst (stop : Nat → Prop) (n : Nat) : Prop := stop n ∧ ∀ earlier < n, ¬stop earlier

/-- Of at most `most` steps, numbered from zero, `k` are taken, because the last of them is where to
stop or no more are left. -/
structure StopsAfter (stop : Nat → Prop) (most k : Nat) : Prop where
  within : k ≤ most
  goesOn : ∀ n, n + 1 < k → ¬stop n
  stopped : k < most → ∃ n, k = n + 1 ∧ stop n

namespace StopsAfter

variable {stop : Nat → Prop} {most more k j n : Nat}

theorem eq_min (stops : StopsAfter stop most k) (first : IsFirst stop n) : k = min most (n + 1) := by
  have late : ¬n + 1 < k := fun before => stops.goesOn n before first.1
  rcases Nat.lt_or_eq_of_le stops.within with early | rfl
  · obtain ⟨last, rfl, reason⟩ := stops.stopped early
    have after : ¬last < n := fun before => first.2 last before reason
    omega
  · omega

theorem first (stops : StopsAfter stop most k) (early : k < most) :
    ∃ n, k = n + 1 ∧ IsFirst stop n := by
  obtain ⟨last, rfl, reason⟩ := stops.stopped early
  exact ⟨last, rfl, reason, fun n before => stops.goesOn n (Nat.succ_lt_succ before)⟩

theorem eq_most (stops : StopsAfter stop most k) (never : ∀ n < k, ¬stop n) : k = most := by
  refine (Nat.lt_or_eq_of_le stops.within).resolve_left fun early => ?_
  obtain ⟨last, rfl, reason⟩ := stops.stopped early
  exact never last (Nat.lt_succ_self last) reason

theorem unique (stops : StopsAfter stop most k) (again : StopsAfter stop most j) : k = j := by
  have order {a b : Nat} (first : StopsAfter stop most a) (second : StopsAfter stop most b) :
      ¬a < b := by
    intro less
    obtain ⟨last, rfl, reason⟩ := first.stopped (Nat.lt_of_lt_of_le less second.within)
    exact second.goesOn last less reason
  have := order stops again
  have := order again stops
  omega

theorem pos (stops : StopsAfter stop most k) (room : 0 < most) : 0 < k := by
  refine Nat.pos_of_ne_zero fun none => ?_
  obtain ⟨last, some, -⟩ := stops.stopped (none ▸ room)
  omega

/-- After steps none of which was where to stop, the others go on as all of them at once do. -/
theorem add (never : ∀ n < most, ¬stop n)
    (stops : StopsAfter (fun n => stop (most + n)) more k) :
    StopsAfter stop (most + more) (most + k) where
  within := Nat.add_le_add_left stops.within most
  goesOn n before := by
    rcases Nat.lt_or_ge n most with early | late
    · exact never n early
    · obtain ⟨rest, rfl⟩ := Nat.exists_eq_add_of_le late
      exact stops.goesOn rest (by omega)
  stopped early := by
    obtain ⟨last, rfl, reason⟩ := stops.stopped (by omega)
    exact ⟨most + last, rfl, reason⟩

theorem zero (stop : Nat → Prop) : StopsAfter stop 0 0 := ⟨Nat.le_refl 0, by simp, by simp⟩

theorem once (most : Nat) (reason : stop 0) : StopsAfter stop (most + 1) 1 :=
  ⟨Nat.le_add_left 1 most, by simp, fun _ => ⟨0, rfl, reason⟩⟩

theorem succ (goesOn : ¬stop 0) (stops : StopsAfter (fun n => stop (1 + n)) most k) :
    StopsAfter stop (most + 1) (k + 1) := by
  rw [Nat.add_comm most, Nat.add_comm k]
  refine stops.add fun n before => ?_
  obtain rfl : n = 0 := Nat.lt_one_iff.mp before
  exact goesOn

/-- Where the steps come to a reason to stop, they end with one. -/
theorem stopped_of_room (stops : StopsAfter stop most k) (room : n < most) (reason : stop n) :
    ∃ last, k = last + 1 ∧ stop last := by
  rcases Nat.lt_or_eq_of_le stops.within with early | rfl
  · exact stops.stopped early
  · have reached : ¬n + 1 < k := fun before => stops.goesOn n before reason
    exact ⟨n, by omega, reason⟩

end StopsAfter

end BranchLab
