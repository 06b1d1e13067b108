import BranchLab.Proofs.Predictor.Account
import BranchLab.Proofs.Session.Independence
import BranchLab.Proofs.Stepper.Rounds

/-! What the account says of a program that is only stepped on. The branches that it lists are sites of
the program, and none is counted more often than the program has it in each iteration that was begun.
A guarded block of the outermost block is counted in each iteration that was completed. -/

namespace BranchLab

def Execution.site (e : Execution) : Option Nat := e.outcome.site

def completedIterations (executions : List Execution) : Nat :=
  (executions.map Execution.outcome).countP StepOutcome.startedIteration

namespace Stepper

variable {s : Stepper}

/-- There is a statement to execute where an iteration goes on. -/
theorem Pass.current {last : Stepper} {outcomes : List StepOutcome} (pass : Pass s outcomes last) :
    s.current? ≠ none := by
  induction pass with
  | wraps stepped starts =>
    intro absent
    rw [step_of_idle absent] at stepped
    cases stepped
    cases starts
  | goesOn stepped stays rest ih =>
    intro absent
    rw [step_of_idle absent] at stepped
    cases stepped
    exact ih absent

/-- The course begins with the steps of the iteration and goes on after them. -/
theorem Pass.course {last : Stepper} {outcomes : List StepOutcome} (pass : Pass s outcomes last)
    (n : Nat) :
    (s.course n).map Execution.outcome =
      outcomes.take n ++ (last.course (n - outcomes.length)).map Execution.outcome := by
  have first {s next : Stepper} {outcome : StepOutcome} (current : s.current? ≠ none)
      (stepped : s.step = (.ok outcome, next)) (n : Nat) :
      (s.course (n + 1)).map Execution.outcome = outcome :: (next.course n).map Execution.outcome := by
    obtain ⟨statement, found⟩ := Option.ne_none_iff_exists'.mp current
    rw [course_of_some found, List.map_cons, Execution.outcome, stepped]
    rfl
  induction pass generalizing n with
  | wraps stepped starts =>
    cases n with
    | zero => rfl
    | succ n =>
      rw [first (Pass.wraps stepped starts).current stepped, List.length_singleton,
        Nat.add_sub_cancel, List.take_succ_cons, List.take_nil]
      rfl
  | goesOn stepped stays rest ih =>
    cases n with
    | zero => rw [Nat.zero_sub]; rfl
    | succ n =>
      rw [first (Pass.goesOn stepped stays rest).current stepped, ih, List.length_cons,
        Nat.add_sub_add_right]
      rfl

theorem iteration_advance (s : Stepper) (lines : LineRange) (branch : Option BranchEvent) :
    s.advance.2.iteration = s.iteration +
      if (StepOutcome.executed lines branch s.advance.1).startedIteration then 1 else 0 := by
  rw [advance]
  split
  · rename_i top below popped moved
    by_cases stays : popped = 0 <;> simp [stays, StepOutcome.startedIteration]
  · rfl

/-- The steps that start an iteration are those that count it. -/
theorem iteration_step {statement : Statement} (current : s.current? = some statement)
    {outcome : StepOutcome} (answered : s.step.1 = .ok outcome) :
    s.step.2.iteration = s.iteration + if outcome.startedIteration then 1 else 0 := by
  cases statement with
  | bind name value lines =>
    simp only [step, current] at answered ⊢
    split at answered
    · cases answered
    · cases answered
      exact iteration_advance _ lines none
  | guarded cond body lines =>
    simp only [step, current] at answered ⊢
    split at answered
    · cases answered
    · cases answered
      dsimp only
      split
      · simp [StepOutcome.startedIteration]
      · exact iteration_advance _ lines _

theorem Sound.iteration_stepped (sound : s.Sound) (n : Nat) :
    (s.stepped n).iteration = s.iteration + UInt64.ofNat (completedIterations (s.course n)) := by
  induction n generalizing s with
  | zero => exact (UInt64.add_zero _).symm
  | succ n ih =>
    cases current : s.current? with
    | none =>
      rw [stepped_of_none current, course_of_none current]
      exact (UInt64.add_zero _).symm
    | some statement =>
      obtain ⟨outcome, answered, -, next, -⟩ := sound.step
      have reported := Execution.outcome_of_answered answered s.step.2
      change (s.step.2.stepped n).iteration = _
      rw [ih next, iteration_step current answered, course_of_some current, completedIterations,
        completedIterations, List.map_cons, List.countP_cons, reported, UInt64.ofNat_add,
        UInt64.add_assoc, UInt64.add_comm (UInt64.ofNat _)]
      cases outcome.startedIteration <;> rfl

end Stepper

/-- Branches that a program may have resolved: none more often than the program has it in each
iteration that was begun, and each of the outermost block once in each that was completed. -/
structure Fits (program : Program) (outcomes : List StepOutcome) : Prop where
  most : ∀ pc, (outcomes.filterMap StepOutcome.site).count pc ≤
    (outcomes.countP StepOutcome.startedIteration + 1) * program.branchSites.count pc
  least : ∀ cond body lines, .guarded cond body lines ∈ program.statements →
    outcomes.countP StepOutcome.startedIteration ≤
      (outcomes.filterMap StepOutcome.site).count lines.start

namespace Fits

variable {program : Program} {outcomes others : List StepOutcome}

/-- An iteration that was not completed. -/
theorem of_begun (within : (outcomes.filterMap StepOutcome.site).Sublist program.branchSites)
    (stays : ∀ outcome ∈ outcomes, outcome.startedIteration = false) : Fits program outcomes := by
  have none : outcomes.countP StepOutcome.startedIteration = 0 :=
    List.countP_eq_zero.mpr fun outcome inside => by simp [stays outcome inside]
  constructor
  · intro pc
    rw [none, Nat.zero_add, Nat.one_mul]
    exact within.count_le pc
  · intro cond body lines inside
    rw [none]
    exact Nat.zero_le _

/-- An iteration that was completed, and what came after it. -/
theorem round (within : (outcomes.filterMap StepOutcome.site).Sublist program.branchSites)
    (all : ∀ cond body lines, .guarded cond body lines ∈ program.statements →
      lines.start ∈ outcomes.filterMap StepOutcome.site)
    (once : outcomes.countP StepOutcome.startedIteration = 1) (rest : Fits program others) :
    Fits program (outcomes ++ others) := by
  constructor
  · intro pc
    have here := within.count_le pc
    have later := rest.most pc
    rw [List.filterMap_append, List.count_append, List.countP_append, once]
    calc _ ≤ program.branchSites.count pc +
          (others.countP StepOutcome.startedIteration + 1) * program.branchSites.count pc :=
        Nat.add_le_add here later
      _ = (1 + others.countP StepOutcome.startedIteration + 1) * program.branchSites.count pc := by
        rw [Nat.add_comm, ← Nat.succ_mul, Nat.add_comm 1]
  · intro cond body lines inside
    have here := List.count_pos_iff.mpr (all cond body lines inside)
    have later := rest.least cond body lines inside
    rw [List.filterMap_append, List.count_append, List.countP_append, once]
    exact Nat.add_le_add here later

theorem mem_branchSites (fits : Fits program outcomes) {pc : Nat}
    (resolved : pc ∈ outcomes.filterMap StepOutcome.site) : pc ∈ program.branchSites := by
  have some : 0 < (outcomes.countP StepOutcome.startedIteration + 1) * program.branchSites.count pc :=
    (List.count_pos_iff.mpr resolved).trans_le (fits.most pc)
  exact List.count_pos_iff.mp (Nat.pos_of_mul_pos_left some)

/-- However many steps are taken from the start of an iteration. -/
theorem course_of_filled (filled : program.statements ≠ [])
    (checked : program.check (.ofIteration 0) = .ok ()) (n : Nat) (iteration : UInt64)
    (generator : Chance.Generator) :
    Fits program
      (((Stepper.atStart program iteration generator).course n).map Execution.outcome) := by
  induction n using Nat.strong_induction_on generalizing iteration generator with
  | h n ih =>
    obtain ⟨outcomes, after, pass, within, all⟩ :=
      Stepper.exists_pass filled checked iteration generator
    obtain ⟨earlier, final, rfl, starts, stays⟩ := pass.ends
    rw [pass.course]
    rcases Nat.lt_or_ge n (earlier ++ [final]).length with part | whole
    · rw [Nat.sub_eq_zero_of_le part.le, Stepper.course, List.map_nil, List.append_nil]
      have before : n ≤ earlier.length := by simpa using Nat.le_of_lt_succ (by simpa using part)
      rw [List.take_append_of_le_length before]
      refine of_begun (((List.take_sublist n earlier).trans
        (List.sublist_append_left ..)).filterMap StepOutcome.site |>.trans within) ?_
      exact fun outcome inside => stays outcome (List.mem_of_mem_take inside)
    · rw [List.take_of_length_le whole]
      have fewer : n - (earlier ++ [final]).length < n := by
        rw [List.length_append, List.length_singleton] at whole ⊢
        omega
      have none : earlier.countP StepOutcome.startedIteration = 0 :=
        List.countP_eq_zero.mpr fun outcome inside => by simp [stays outcome inside]
      refine round within all ?_ (ih _ fewer (iteration + 1) after)
      simp [List.countP_append, none, starts]

theorem course (checked : program.check (.ofIteration 0) = .ok ()) (generator : Chance.Generator)
    (n : Nat) :
    Fits program (((Stepper.atStart program 0 generator).course n).map Execution.outcome) := by
  by_cases empty : program.statements = []
  · have sound : (Stepper.atStart program 0 generator).Sound :=
      Stepper.sound_startIteration (s := Stepper.atStart program 0 generator) checked 0
    rw [Stepper.course_of_none (sound.current?_eq_none.mpr empty)]
    exact of_begun (List.nil_sublist _) nofun
  · exact course_of_filled empty checked n 0 generator

end Fits

namespace Session

/-- The operation leaves the program where execution has brought it, and the account as it stands, but
for the statements that it executes. -/
def Operation.goesOn : Operation → Bool
  | .compile _ | .edit | .resetExecution | .resetAccuracy => false
  | _ => true

variable {s : Session} {stepper : Stepper}

theorem stepper_stepTraced (s : Session) (trace : Trace) :
    (s.stepTraced trace).session.stepper = s.stepper.map fun stepper => stepper.step.2 := by
  obtain ⟨slot, bank, ledger, generation, seeds⟩ := s
  cases slot with
  | none => rfl
  | some stepper =>
    rw [stepTraced, Option.map_some]
    split
    · rename_i stepped
      rw [stepped]
    · rename_i stepped
      rw [stepped]
      split <;> rfl

theorem stepper_stepped (s : Session) (trace : Trace) (n : Nat) :
    (s.stepped trace n).1.stepper = s.stepper.map fun stepper => stepper.stepped n := by
  induction n generalizing s trace with
  | zero => exact (Option.map_id' ..).symm
  | succ n ih =>
    have goes : s.stepped trace (n + 1) =
        (s.stepTraced trace).session.stepped (s.stepTraced trace).trace n := stepped_succ rfl n
    rw [goes, ih, stepper_stepTraced, Option.map_map]
    rfl

/-- An operation that executes nothing. -/
theorem perform_of_still (s : Session) (operation : Operation) (trace : Trace)
    (goesOn : operation.goesOn = true) (still : operation.drives = false) :
    let done := s.perform operation trace
    statements done.answer = 0 ∧ done.session.stepper = s.stepper ∧
      done.session.ledger = s.ledger := by
  cases operation with
  | beginAutoRun steps =>
    simp only [perform, untraced, beginAutoRun]
    split <;> exact ⟨rfl, rfl, rfl⟩
  | configure tableSize mode historyBits =>
    simp only [perform, untraced, configure]
    split <;> exact ⟨rfl, rfl, rfl⟩
  | cancelAutoRun | reconfigure => exact ⟨rfl, rfl, rfl⟩
  | compile | edit | resetExecution | resetAccuracy => cases goesOn
  | step | stepTraced | run | advanceAutoRun | runPaced => cases still

/-- Where some operations have brought a session: the program is so many steps on, and the account
has counted the branches that it resolved there. -/
structure GoneOn (stepper : Stepper) (records : List (Nat × Bool)) (n : Nat)
    (executions : List Execution) (now : Session) : Prop where
  executed : executions = stepper.course n
  moved : now.stepper = some (stepper.stepped n)
  counted : ∃ more, now.ledger.Counts (records ++ more) ∧
    Ledger.resolved more = executions.filterMap Execution.site

theorem Sound.goneOn_perform (sound : s.Sound) (installed : s.stepper = some stepper)
    {records : List (Nat × Bool)} (counts : s.ledger.Counts records) (operation : Operation)
    (trace : Trace) (goesOn : operation.goesOn = true) :
    let done := s.perform operation trace
    GoneOn stepper records (statements done.answer) (s.executed done.answer) done.session := by
  intro done
  have executed : s.executed done.answer = stepper.course (statements done.answer) := by
    rw [Session.executed, installed]
    rfl
  cases drives : operation.drives with
  | false =>
    obtain ⟨nothing, same, ledger⟩ := s.perform_of_still operation trace goesOn drives
    refine ⟨executed, ?_, [], ?_, ?_⟩
    · rw [same, nothing, installed]
      rfl
    · rwa [List.append_nil, ledger]
    · rw [executed_of_nothing nothing]
      rfl
  | true =>
    obtain ⟨generation, moved⟩ := sound.moves_perform operation trace drives
    have trained := sound.trained_perform operation trace (.inl drives)
    have stepped : done.session.stepper = some (stepper.stepped (statements done.answer)) := by
      refine (congrArg Session.stepper moved).trans ((stepper_stepped ..).trans ?_)
      rw [installed, Option.map_some]
    have scored := s.bank.counts_scored
      ((s.executed done.answer).filterMap Execution.branch) counts
    rw [trained] at scored
    refine ⟨executed, stepped, _, scored, ?_⟩
    rw [Bank.resolved_scored, List.map_filterMap]
    rfl

theorem Sound.goneOn_after (sound : s.Sound) (installed : s.stepper = some stepper)
    {records : List (Nat × Bool)} (counts : s.ledger.Counts records) (operations : List Operation)
    (trace : Trace) (goesOn : ∀ operation ∈ operations, operation.goesOn = true) :
    ∃ n, GoneOn stepper records n (s.executions trace operations) (s.after trace operations).1 := by
  induction operations generalizing s stepper records trace with
  | nil => exact ⟨0, rfl, installed, [], by rwa [List.append_nil], rfl⟩
  | cons operation operations ih =>
    obtain ⟨first, others⟩ := List.forall_mem_cons.mp goesOn
    obtain ⟨executed, moved, more, counted, resolved⟩ :=
      sound.goneOn_perform installed counts operation trace first
    obtain ⟨n, later, last, rest, all, resolves⟩ :=
      ih (sound.perform operation trace).sound moved counted (s.perform operation trace).trace others
    refine ⟨statements (s.perform operation trace).answer + n, ?_, ?_, more ++ rest, ?_, ?_⟩
    · rw [executions, executed, later]
      exact (Stepper.course_add ..).symm
    · rw [after_cons, last, Stepper.stepped_add]
    · rw [after_cons, ← List.append_assoc]
      exact all
    · rw [Ledger.resolved, List.map_append, executions, List.filterMap_append]
      exact congr (congrArg _ resolved) resolves

theorem compile_of_passed (s : Session) {program : Program}
    (passed : program.check (.ofIteration 0) = .ok ()) : (s.compile program).1 = .ok () := by
  have built := (Stepper.ofProgram_eq_ok program s.seeds.next.1 _).mpr ⟨passed, rfl⟩
  simp only [compile, built]

theorem compile_ok {program : Program} (compiled : (s.compile program).1 = .ok ()) :
    program.check (.ofIteration 0) = .ok () ∧ ∃ seed,
      (s.compile program).2.stepper = some (Stepper.atStart program 0 (.ofSeed seed)) ∧
      (s.compile program).2.ledger = s.ledger := by
  rw [compile] at compiled ⊢
  cases built : Stepper.ofProgram program s.seeds.next.1 with
  | error error => simp [built] at compiled
  | ok stepper =>
    obtain ⟨checked, same⟩ := (Stepper.ofProgram_eq_ok ..).mp built
    refine ⟨checked, s.seeds.next.1, ?_, ?_⟩
    · simp [built, supersede, same, Stepper.atStart]
    · simp [built, supersede]

theorem bank_compile (s : Session) (program : Program) : (s.compile program).2.bank = s.bank := by
  rw [compile]
  cases built : Stepper.ofProgram program s.seeds.next.1 <;> simp [built, supersede]

end Session

/-- After a program is compiled into a new session and stepped on in any way, the predictor replaced or
not, and neither it nor the account is reset: the account lists sites of the program alone; each is
counted at most as often as the program has it in each iteration that was begun, the last one
included; and a guarded block of the outermost block whose line no other shares is counted once in
each iteration that was completed, and at most once more. -/
theorem sites_are_counted_by_iterations (geometry : Geometry) (seed : UInt64) (program : Program)
    (compiled : ((Session.start geometry seed).compile program).1 = .ok ()) (trace : Trace)
    (operations : List Session.Operation)
    (goesOn : ∀ operation ∈ operations, operation.goesOn = true)
    (few : (((Session.start geometry seed).compile program).2.executions trace operations).length <
      2 ^ 64) :
    let origin := ((Session.start geometry seed).compile program).2
    let now := (origin.after trace operations).1
    let k := completedIterations (origin.executions trace operations)
    (∃ stepper, now.stepper = some stepper ∧ stepper.program = program ∧
      stepper.iteration.toNat = k) ∧
    (∀ pc ∈ now.ledger.sites.keys, pc ∈ program.branchSites) ∧
    (∀ pc, (now.ledger.site pc).total ≤ (k + 1) * program.branchSites.count pc) ∧
    ∀ cond body lines, .guarded cond body lines ∈ program.statements →
      program.branchSites.count lines.start = 1 →
        k ≤ (now.ledger.site lines.start).total ∧ (now.ledger.site lines.start).total ≤ k + 1 := by
  intro origin now k
  obtain ⟨checked, first, installed, ledger⟩ := Session.compile_ok compiled
  have sound : origin.Sound := ((Session.sound_start geometry seed).compile program).1
  have counts : origin.ledger.Counts [] := ledger ▸ Ledger.counts_empty
  obtain ⟨n, executed, moved, records, counted, resolved⟩ :=
    sound.goneOn_after installed counts operations trace goesOn
  rw [List.nil_append] at counted
  have fits := Fits.course checked (.ofSeed first) n
  let start := Stepper.atStart program 0 (.ofSeed first)
  let outcomes := (start.course n).map Execution.outcome
  have sites : Ledger.resolved records = outcomes.filterMap StepOutcome.site := by
    rw [resolved, executed, List.filterMap_map]
    rfl
  have ended : k = outcomes.countP StepOutcome.startedIteration :=
    congrArg completedIterations executed
  have small : k ≤ countLimit := by
    refine Nat.le_sub_one_of_lt (List.countP_le_length.trans_lt ?_)
    rwa [List.length_map]
  have total (pc : Nat) : (now.ledger.site pc).total =
      min ((outcomes.filterMap StepOutcome.site).count pc) countLimit := by
    rw [counted.site, sites]
  have most (pc : Nat) : (now.ledger.site pc).total ≤ (k + 1) * program.branchSites.count pc := by
    rw [total, ended]
    exact (Nat.min_le_left ..).trans (fits.most pc)
  refine ⟨⟨_, moved, ?_, ?_⟩, fun pc listed => ?_, most, fun cond body lines inside once => ⟨?_, ?_⟩⟩
  · exact ((sound _ installed).after _).2
  · rw [(sound _ installed).iteration_stepped n, completedIterations, ← ended]
    exact (congrArg UInt64.toNat (UInt64.zero_add _)).trans
      (UInt64.toNat_ofNat_of_lt (Nat.lt_of_le_pred (by decide) small))
  · rw [counted.keys, sites] at listed
    exact fits.mem_branchSites listed
  · rw [total]
    exact Nat.le_min.mpr ⟨ended.trans_le (fits.least cond body lines inside), small⟩
  · have bound := most lines.start
    rwa [once, Nat.mul_one] at bound

/-- Two iterations and the first step of a third, in a batch and with a ticket, and a new predictor in
between. -/
theorem sites_are_counted_by_iterations_nested :
    let program : Program :=
      ⟨[.guarded (.ident "i") [.guarded (.number 0) [] ⟨2, 3⟩] ⟨1, 4⟩]⟩
    let operations : List Session.Operation :=
      [.run .steps 2, .reconfigure .default, .beginAutoRun 2, .advanceAutoRun ⟨2, 2⟩, .step]
    let origin := ((Session.start .default 0).compile program).2
    let now := (origin.after Array.empty operations).1
    ((Session.start .default 0).compile program).1 = .ok () ∧
      (∀ operation ∈ operations, operation.goesOn = true) ∧
      (origin.executions Array.empty operations).length < 2 ^ 64 ∧
      completedIterations (origin.executions Array.empty operations) = 2 ∧
      (∀ pc, (now.ledger.site pc).total ≤ 3 * program.branchSites.count pc) ∧
      2 ≤ (now.ledger.site 1).total ∧ (now.ledger.site 1).total ≤ 3 := by
  intro program operations origin now
  have goesOn : ∀ operation ∈ operations, operation.goesOn = true := by decide
  have few : (origin.executions Array.empty operations).length < 2 ^ 64 := by decide +kernel
  have twice : completedIterations (origin.executions Array.empty operations) = 2 := by decide +kernel
  obtain ⟨-, -, most, least⟩ := sites_are_counted_by_iterations .default 0 program rfl Array.empty
    operations goesOn few
  rw [twice] at most least
  exact ⟨rfl, goesOn, few, twice, most, least _ _ ⟨1, 4⟩ (List.mem_cons_self ..) rfl⟩

end BranchLab
