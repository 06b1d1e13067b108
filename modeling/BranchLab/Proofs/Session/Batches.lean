import BranchLab.Proofs.Session.SiteCounts

/-! Where a batch stops: after the first statement that meets its boundary, or when its steps are used
up. Since the statement at which it stops is decided by the program in execution alone, a batch that
was not stopped can be continued by another, as if the steps of both had been asked for at once. -/

namespace BranchLab

/-- Below the greatest count, an account counts each of the branches. -/
theorem Bank.total_after (bank : Bank) (ledger : Ledger) (events : List BranchEvent)
    (room : ledger.overall.total + events.length ≤ countLimit) :
    (bank.after ledger events).2.overall.total = ledger.overall.total + events.length := by
  induction events generalizing bank ledger with
  | nil => rfl
  | cons event events ih =>
    rw [List.length_cons] at room ⊢
    have counted : (bank.predictAndUpdate event ledger).2.2.overall.total = ledger.overall.total + 1 :=
      Nat.min_eq_left (by omega)
    rw [after_cons, ih _ _ (by omega), counted, Nat.add_right_comm, Nat.add_assoc]

namespace RunBoundary

/-- A batch stops at the execution: of a guarded block, or of a statement after which an iteration
starts. -/
def Met : RunBoundary → Execution → Prop
  | steps, _ => False
  | nextBranch, e => ∃ cond body lines, e.before.current? = some (.guarded cond body lines)
  | iterationEnd, e => e.after.iteration = e.before.iteration + 1

def MetAt (boundary : RunBoundary) (s : Stepper) (n : Nat) : Prop := boundary.Met (s.executionAt n)

theorem metAt_stepped (boundary : RunBoundary) (s : Stepper) (m : Nat) :
    boundary.MetAt (s.stepped m) = fun n => boundary.MetAt s (m + n) :=
  funext fun n => congrArg boundary.Met (s.executionAt_add m n)

/-- What a batch looks at in an outcome is whether its boundary is met. -/
theorem isMet_iff (boundary : RunBoundary) {s : Stepper} {statement : Statement}
    {outcome : StepOutcome} (current : s.current? = some statement)
    (answered : s.step.1 = .ok outcome) :
    boundary.isMet outcome = true ↔ boundary.Met ⟨s, s.step.2⟩ := by
  cases boundary with
  | steps => simp [isMet, Met]
  | nextBranch =>
    obtain ⟨branch, transition, rfl, -, resolves⟩ := Stepper.step_of_current current answered
    cases statement with
    | bind name value lines =>
      obtain rfl : branch = none := resolves
      simp [isMet, Met, StepOutcome.branch, current]
    | guarded cond body lines =>
      obtain ⟨taken, rfl⟩ := resolves
      simp [isMet, Met, StepOutcome.branch, current]
  | iterationEnd =>
    have stays : s.iteration + 0 ≠ s.iteration + 1 := by
      rw [UInt64.add_zero]
      exact fun same => Nat.one_ne_zero ((Session.self_eq_add_ofNat s.iteration (by decide)).mp same)
    rw [isMet, Met, Stepper.iteration_step current answered]
    cases outcome.startedIteration
    · exact iff_of_false Bool.false_ne_true stays
    · exact iff_of_true rfl rfl

theorem isMet_executionAt (boundary : RunBoundary) {s : Stepper} (sound : s.Sound)
    (filled : s.program.statements ≠ []) (n : Nat) :
    boundary.isMet (s.executionAt n).outcome = true ↔ boundary.MetAt s n := by
  obtain ⟨statement, outcome, current, answered⟩ := sound.answers_stepped filled n
  rw [Stepper.outcome_executionAt answered, MetAt, Stepper.executionAt_eq]
  exact boundary.isMet_iff current answered

/-- A batch that stops at a branch has resolved no other. -/
theorem branches_le_one {s : Stepper} {most k : Nat}
    (stops : StopsAfter (nextBranch.MetAt s) most k) (sound : s.Sound)
    (filled : s.program.statements ≠ []) : s.branches k ≤ 1 := by
  cases k with
  | zero => exact Nat.zero_le 1
  | succ k =>
    have unresolved : ∀ e ∈ (List.range k).map s.executionAt, ¬e.branch.isSome = true := by
      intro e executed
      obtain ⟨n, before, rfl⟩ := List.mem_map.mp executed
      have unmet := stops.goesOn n (Nat.succ_lt_succ (List.mem_range.mp before))
      exact mt (nextBranch.isMet_executionAt sound filled n).mp unmet
    rw [Stepper.branches, sound.course_eq_map filled, List.range_succ, List.map_append,
      List.countP_append, List.countP_eq_zero.mpr unresolved, Nat.zero_add]
    exact List.countP_le_length

end RunBoundary

namespace Session

variable {s : Session} {stepper : Stepper}

/-- A batch performs single steps and stops at the first statement that meets its boundary. -/
theorem Sound.run_stops (boundary : RunBoundary) (most : Nat) (sound : s.Sound)
    (installed : s.stepper = some stepper) (filled : stepper.program.statements ≠ [])
    (trace : Trace) :
    ∃ k, StopsAfter (boundary.MetAt stepper) most k ∧
      s.run boundary most trace =
        ⟨.ok ⟨k, stepper.branches k, stepper.lastOutcome k .idle⟩,
          (s.stepped trace k).1, (s.stepped trace k).2⟩ := by
  obtain ⟨k, stops, ran⟩ := sound.runFrom_stops boundary most {} installed filled trace
  simp only [boundary.isMet_executionAt (sound stepper installed) filled] at stops
  rw [Nat.zero_add, Nat.zero_add] at ran
  exact ⟨k, stops, ran⟩

theorem run_of_empty (installed : s.stepper = some stepper) (rests : stepper.current? = none)
    (boundary : RunBoundary) (most : Nat) (trace : Trace) :
    s.run boundary most trace = ⟨.ok {}, s, trace⟩ := by
  rw [run, runFrom_of_empty installed rests]
  simp only [ite_self]

theorem stepper_stepped_of_installed (installed : s.stepper = some stepper) (trace : Trace)
    (n : Nat) : (s.stepped trace n).1.stepper = some (stepper.stepped n) := by
  rw [stepper_stepped, installed, Option.map_some]

/-- A batch that was not stopped can be continued. -/
theorem Sound.run_add (boundary : RunBoundary) (most more : Nat) (sound : s.Sound)
    (installed : s.stepper = some stepper) (filled : stepper.program.statements ≠ [])
    (trace : Trace) (never : ∀ n < most, ¬boundary.MetAt stepper n) :
    let now := s.stepped trace most
    let further := now.1.run boundary more now.2
    let all := s.run boundary (most + more) trace
    further.session = all.session ∧ further.trace = all.trace := by
  intro now further all
  obtain ⟨-, program⟩ := (sound stepper installed).after (List.replicate most .step)
  obtain ⟨k, first, ran⟩ := (sound.after trace _ : now.1.Sound).run_stops boundary more
    (stepper_stepped_of_installed installed trace most) (program ▸ filled) now.2
  obtain ⟨j, second, ranAll⟩ := sound.run_stops boundary (most + more) installed filled trace
  rw [RunBoundary.metAt_stepped] at first
  obtain rfl : j = most + k := second.unique (first.add never)
  have same := s.stepped_add trace most k
  exact ⟨(congrArg Traced.session ran).trans
      ((congrArg Prod.fst same).symm.trans (congrArg Traced.session ranAll).symm),
    (congrArg Traced.trace ran).trans
      ((congrArg Prod.snd same).symm.trans (congrArg Traced.trace ranAll).symm)⟩

/-- The branches of the steps are what the account grows by. -/
theorem Sound.total_stepped (sound : s.Sound) (installed : s.stepper = some stepper) (n : Nat)
    (trace : Trace) (room : s.ledger.overall.total + stepper.branches n ≤ countLimit) :
    (s.stepped trace n).1.ledger.overall.total = s.ledger.overall.total + stepper.branches n := by
  obtain ⟨events, -, tells⟩ := sound.tells_stepped installed n trace
  have count : ((stepper.course n).filterMap Execution.branch).length = stepper.branches n :=
    List.length_filterMap_eq_countP ..
  have replayed := tells.replayed
  rw [tells.branches] at replayed
  rw [← count] at room ⊢
  exact (congrArg (·.2.overall.total) replayed).symm.trans (Bank.total_after _ _ _ room)

end Session

/-- A batch of a session with a program: it performs single steps, and stops after the first statement
that meets its boundary or when it has performed as many as were asked for; nothing else stops it but
that there is nothing to execute. What it reports are these steps, the branches that they resolved,
by which the account has grown, and the last outcome. A batch that was not stopped and another after
it do what one of all their steps does. -/
theorem batch_stops_at_boundary (geometry : Geometry) (seed : UInt64)
    (before : List Session.Operation) (stepper : Stepper)
    (installed :
      ((Session.start geometry seed).after Array.empty before).1.stepper = some stepper)
    (boundary : RunBoundary) (most : Nat) (trace : Trace) :
    let s := ((Session.start geometry seed).after Array.empty before).1
    (∀ n, (s.stepped trace n).1.stepper = some (stepper.stepped n)) ∧
    ∃ summary,
      let now := s.stepped trace summary.steps
      s.run boundary most trace = ⟨.ok summary, now.1, now.2⟩ ∧
      (stepper.program.statements = [] → summary.steps = 0) ∧
      (stepper.program.statements ≠ [] →
        (∀ n, IsFirst (boundary.MetAt stepper) n → summary.steps = min most (n + 1)) ∧
        ((∀ n, ¬boundary.MetAt stepper n) → summary.steps = most)) ∧
      summary.branches = (stepper.course summary.steps).countP (·.branch.isSome) ∧
      (s.ledger.overall.total + summary.branches < 2 ^ 64 →
        now.1.ledger.overall.total = s.ledger.overall.total + summary.branches) ∧
      (boundary = .nextBranch → summary.branches ≤ 1) ∧
      (summary.steps = 0 → summary.final = .idle) ∧
      (∀ n, summary.steps = n + 1 → ∃ prediction,
        ((s.stepped trace n).1.stepTraced (s.stepped trace n).2).answer =
          .ok ⟨summary.final, prediction⟩) ∧
      ((∀ n < summary.steps, ¬boundary.MetAt stepper n) → ∀ more,
        let further := now.1.run boundary more now.2
        let all := s.run boundary (most + more) trace
        further.session = all.session ∧ further.trace = all.trace) := by
  intro s
  have sound : s.Sound := (Session.sound_start geometry seed).after Array.empty before
  have stands := sound stepper installed
  have moved := Session.stepper_stepped_of_installed installed trace
  refine ⟨moved, ?_⟩
  by_cases empty : stepper.program.statements = []
  · have rests := stands.current?_eq_none.mpr empty
    have still (m : Nat) : s.run boundary m trace = ⟨.ok {}, s, trace⟩ :=
      Session.run_of_empty installed rests boundary m trace
    refine ⟨{}, still most, fun _ => rfl, fun filled => absurd empty filled, rfl, fun _ => rfl,
      fun _ => Nat.zero_le 1, fun _ => rfl, fun n first => absurd first (Nat.succ_ne_zero n).symm,
      fun _ more => ?_⟩
    have same := (still more).trans (still (most + more)).symm
    exact ⟨congrArg Traced.session same, congrArg Traced.trace same⟩
  · obtain ⟨k, stops, ran⟩ := sound.run_stops boundary most installed empty trace
    refine ⟨_, ran, fun none => absurd none empty, fun _ => ⟨fun n => stops.eq_min, fun never => ?_⟩,
      rfl, fun few => ?_, ?_, ?_, fun n last => ?_, fun never more => ?_⟩
    · exact stops.eq_most fun n _ => never n
    · exact sound.total_stepped installed k trace (Nat.le_sub_one_of_lt few)
    · rintro rfl
      exact RunBoundary.branches_le_one stops stands empty
    · rintro rfl
      rfl
    · obtain rfl : k = n + 1 := last
      obtain ⟨statement, outcome, current, answered⟩ := stands.answers_stepped empty n
      have moves : (stepper.stepped n).step = (.ok outcome, _) := Prod.ext answered rfl
      rw [Session.stepTraced_of_some (moved n) moves, stands.lastOutcome_eq empty,
        Stepper.outcome_executionAt answered]
      exact ⟨_, rfl⟩
    · obtain rfl : k = most := stops.eq_most never
      exact sound.run_add boundary k more installed empty trace never

/-- The second iteration of a program, which enters the block that the first passed by, in a batch of at
most nine steps and by three. -/
theorem batch_stops_at_boundary_second_iteration :
    let program : Program :=
      ⟨[.bind "a" (.ident "i") ⟨1, 1⟩, .guarded (.ident "a") [.bind "b" (.number 7) ⟨3, 3⟩] ⟨2, 4⟩]⟩
    let before : List Session.Operation := [.compile program, .run .iterationEnd 9]
    let s := ((Session.start .default 0).after Array.empty before).1
    let stepper := (Stepper.atStart program 0 (.ofSeed (Chance.Generator.ofSeed 0).next.1)).stepped 2
    s.stepper = some stepper ∧ IsFirst (RunBoundary.iterationEnd.MetAt stepper) 2 ∧
      ∃ summary, summary.steps = 3 ∧ summary.branches = 1 ∧
        s.run .iterationEnd 9 Array.empty =
          ⟨.ok summary, (s.stepped Array.empty 3).1, (s.stepped Array.empty 3).2⟩ := by
  intro program before s stepper
  have installed : s.stepper = some stepper := rfl
  have starts : (stepper.executionAt 2).after.iteration =
      (stepper.executionAt 2).before.iteration + 1 := by decide +kernel
  have stays : ∀ n < 2, (stepper.executionAt n).after.iteration ≠
      (stepper.executionAt n).before.iteration + 1 := by decide +kernel
  have first : IsFirst (RunBoundary.iterationEnd.MetAt stepper) 2 := ⟨starts, stays⟩
  have filled : stepper.program.statements ≠ [] := by decide +kernel
  have resolved : (stepper.course 3).countP (·.branch.isSome) = 1 := by decide +kernel
  obtain ⟨-, summary, ran, -, stops, counted, -⟩ :=
    batch_stops_at_boundary .default 0 before stepper installed .iterationEnd 9 Array.empty
  have steps : summary.steps = 3 := (stops filled).1 2 first
  rw [steps] at ran counted
  exact ⟨installed, first, summary, steps, counted.trans resolved, ran⟩

end BranchLab
