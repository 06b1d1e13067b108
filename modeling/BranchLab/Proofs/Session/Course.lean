import BranchLab.Proofs.Session.Tickets
import BranchLab.Proofs.Stepper.Course

/-! Single steps as the measure of what a session executes. However it is driven, by single steps, in
batches, or with a ticket, a session ends where some number of single steps end, and that number is
in the answer. The statements which those steps execute are the course of the program. -/

namespace BranchLab

def Pacer.Cancels (pacer : Pacer) (pause : Nat) : Prop := pacer pause = .cancel

theorem Pacer.not_cancels {pacer : Pacer} {pause : Nat} :
    ¬pacer.Cancels pause ↔ pacer pause = .goOn := by
  rw [Cancels]
  cases pacer pause <;> simp

namespace Session

/-- The operation executes statements of the program in the slot. -/
def Operation.drives : Operation → Bool
  | .step | .stepTraced | .run .. | .advanceAutoRun _ | .runPaced .. => true
  | _ => false

/-- The operation installs, drops or restarts the program, or begins or ends an automatic run. -/
def Operation.manages : Operation → Bool
  | .compile _ | .edit | .resetExecution | .beginAutoRun _ | .cancelAutoRun => true
  | _ => false

def Operation.isSetting : Operation → Bool
  | .configure .. | .reconfigure _ | .resetAccuracy => true
  | _ => false

def Reply.statements : Reply → Nat
  | stepped step => if step.outcome = .idle then 0 else 1
  | ran summary => summary.steps
  | advanced step _ => step.toList.length
  | paced run => run.executed
  | done | issued _ => 0

def statements : Except SessionError Reply → Nat
  | .ok reply => reply.statements
  | .error _ => 0

def executed (s : Session) (answer : Except SessionError Reply) : List Execution :=
  s.stepper.elim [] (Stepper.course (statements answer))

def executions (s : Session) (trace : Trace) : List Operation → List Execution
  | [] => []
  | operation :: rest =>
    let done := s.perform operation trace
    s.executed done.answer ++ executions done.session done.trace rest

def stepped (s : Session) (trace : Trace) (n : Nat) : Session × Trace :=
  s.after trace (List.replicate n .stepTraced)

theorem stepped_succ {s next : Session} {trace seen : Trace}
    {answer : Except SessionError SessionStep} (taken : s.stepTraced trace = ⟨answer, next, seen⟩)
    (n : Nat) : s.stepped trace (n + 1) = next.stepped seen n := by
  rw [stepped, List.replicate_succ, after_cons]
  simp only [perform, taken]
  rfl

theorem stepped_add (s : Session) (trace : Trace) (m n : Nat) :
    s.stepped trace (m + n) = (s.stepped trace m).1.stepped (s.stepped trace m).2 n := by
  rw [stepped, List.replicate_add]
  exact after_append ..

/-- The session ended where `n` single steps end, in some generation. -/
def Takes {α : Type} (s : Session) (trace : Trace) (n : Nat) (done : Traced α) : Prop :=
  (∃ generation, done.session = { (s.stepped trace n).1 with generation }) ∧
    done.trace = (s.stepped trace n).2

/-- An answered step of the installed program: there is nothing to execute, or a statement is. -/
inductive Single (s : Session) (stepper : Stepper) (trace : Trace) : Prop
  | rests (empty : stepper.program.statements = [])
      (taken : s.stepTraced trace = ⟨.ok ⟨.idle, none⟩, s, trace⟩)
  | executes {step : SessionStep} {next : Session} {seen : Trace}
      (filled : stepper.program.statements ≠ [])
      (taken : s.stepTraced trace = ⟨.ok step, next, seen⟩) (executed : step.outcome ≠ .idle)
      (sound : next.Sound) (moved : next.stepper = some stepper.step.2)
      (same : stepper.step.2.program = stepper.program) (generation : next.generation = s.generation)

section Driving

variable {s : Session} {stepper : Stepper} {ticket : Ticket}

theorem stepTraced_of_empty (installed : s.stepper = some stepper) (rests : stepper.current? = none)
    (trace : Trace) : s.stepTraced trace = ⟨.ok ⟨.idle, none⟩, s, trace⟩ := by
  rw [stepTraced_of_some installed (Stepper.step_of_idle rests)]
  obtain ⟨slot, bank, ledger, generation, seeds⟩ := s
  subst installed
  simp [score, StepOutcome.branch, SessionStep.events]

/-- With nothing to execute, steps change nothing. -/
theorem stepped_of_empty (installed : s.stepper = some stepper) (rests : stepper.current? = none)
    (trace : Trace) (n : Nat) : s.stepped trace n = (s, trace) := by
  induction n with
  | zero => rfl
  | succ n ih => rw [stepped_succ (stepTraced_of_empty installed rests trace), ih]

theorem Sound.single (sound : s.Sound) (installed : s.stepper = some stepper) (trace : Trace) :
    s.Single stepper trace := by
  have stands := sound stepper installed
  by_cases empty : stepper.program.statements = []
  · exact .rests empty (stepTraced_of_empty installed (stands.current?_eq_none.mpr empty) trace)
  · obtain ⟨outcome, answered, idle, next, same⟩ := stands.step
    have moves : stepper.step = (.ok outcome, stepper.step.2) := Prod.ext answered rfl
    refine .executes empty (stepTraced_of_some installed moves trace) (mt idle.mp empty) ?_ rfl same rfl
    intro other found
    cases found
    exact next

/-- The steps of a batch are single steps, and it stops at the first that reports to meet its boundary. -/
theorem Sound.runFrom_stops (boundary : RunBoundary) (left : Nat) (sum : RunSummary)
    (sound : s.Sound) (installed : s.stepper = some stepper)
    (filled : stepper.program.statements ≠ []) (trace : Trace) :
    ∃ k, StopsAfter (fun n => boundary.isMet (stepper.executionAt n).outcome = true) left k ∧
      Session.runFrom boundary left sum s trace =
        ⟨.ok ⟨sum.steps + k, sum.branches + stepper.branches k, stepper.lastOutcome k sum.final⟩,
          (s.stepped trace k).1, (s.stepped trace k).2⟩ := by
  induction left generalizing s stepper sum trace with
  | zero => exact ⟨0, .zero _, rfl⟩
  | succ left ih =>
    have stands := sound stepper installed
    obtain ⟨statement, current⟩ := stands.exists_current filled
    obtain ⟨outcome, answered, idle, -, same⟩ := stands.step
    have moves : stepper.step = (.ok outcome, stepper.step.2) := Prod.ext answered rfl
    have taken := stepTraced_of_some installed moves trace
    have onward : (s.stepTraced trace).session.Sound := (sound.stepTraced trace).sound
    rw [taken] at onward
    have first : (stepper.executionAt 0).outcome = outcome := Stepper.outcome_executionAt answered
    have scored : (s.score outcome.branch).1.isSome = outcome.branch.isSome := by
      cases outcome.branch <;> rfl
    have counted := Stepper.branches_succ current answered
    have final := Stepper.lastOutcome_succ current answered
    rw [Session.runFrom, taken]
    simp only [if_neg (mt idle.mp filled), scored]
    split
    · rename_i met
      refine ⟨1, .once left (first ▸ met), ?_⟩
      rw [stepped_succ taken, counted, final]
      rfl
    · rename_i unmet
      obtain ⟨k, stops, ran⟩ := ih ⟨sum.steps + 1, sum.branches + outcome.branch.isSome.toNat, outcome⟩
        onward rfl (same ▸ filled) _
      have later (n : Nat) : stepper.step.2.executionAt n = stepper.executionAt (1 + n) :=
        stepper.executionAt_add 1 n
      simp only [later] at stops
      refine ⟨k + 1, stops.succ (first ▸ unmet), ran.trans ?_⟩
      rw [stepped_succ taken, counted, final]
      congr 3
      · exact Nat.add_right_comm ..
      · exact Nat.add_assoc ..

/-- With nothing to execute, a batch takes no step. -/
theorem runFrom_of_empty (installed : s.stepper = some stepper) (rests : stepper.current? = none)
    (boundary : RunBoundary) (left : Nat) (sum : RunSummary) (trace : Trace) :
    Session.runFrom boundary left sum s trace =
      ⟨.ok { sum with final := if left = 0 then sum.final else .idle }, s, trace⟩ := by
  cases left with
  | zero => rfl
  | succ left =>
    rw [runFrom, stepTraced_of_empty installed rests]
    rfl

/-- A batch ends after the steps that it counts. It is shorter than was asked for only if there is
nothing to execute or the last step met the boundary. -/
theorem Sound.runFrom_takes (boundary : RunBoundary) (left : Nat) (sum : RunSummary)
    (sound : s.Sound) (installed : s.stepper = some stepper) (trace : Trace) :
    let done := Session.runFrom boundary left sum s trace
    ∃ n summary, done.answer = .ok summary ∧ summary.steps = sum.steps + n ∧
      (done.session, done.trace) = s.stepped trace n ∧
      (stepper.program.statements = [] → n = 0) ∧
      (stepper.program.statements ≠ [] → n = left ∨ boundary.isMet summary.final = true) := by
  have stands := sound stepper installed
  by_cases empty : stepper.program.statements = []
  · rw [runFrom_of_empty installed (stands.current?_eq_none.mpr empty)]
    exact ⟨0, _, rfl, rfl, rfl, fun _ => rfl, fun filled => absurd empty filled⟩
  · obtain ⟨k, stops, ran⟩ := sound.runFrom_stops boundary left sum installed empty trace
    rw [ran]
    refine ⟨k, _, rfl, rfl, rfl, fun none => absurd none empty, fun _ => ?_⟩
    rcases Nat.lt_or_eq_of_le stops.within with early | all
    · obtain ⟨last, rfl, met⟩ := stops.stopped early
      rw [stands.lastOutcome_eq empty]
      exact .inr met
    · exact .inl all

theorem advanceAutoRun_of_finished (trace : Trace) (live : ticket.generation = s.generation)
    (finished : ticket.remaining = 0) :
    s.advanceAutoRun ticket trace = ⟨.ok (none, ticket), s, trace⟩ := by
  rw [advanceAutoRun, if_neg (not_not_intro live), if_pos (by simp [Ticket.isFinished, finished])]

theorem advanceAutoRun_of_idle {trace : Trace} (live : ticket.generation = s.generation)
    (unfinished : ticket.remaining ≠ 0)
    (taken : s.stepTraced trace = ⟨.ok ⟨.idle, none⟩, s, trace⟩) :
    s.advanceAutoRun ticket trace = ⟨.ok (none, { ticket with remaining := 0 }), s, trace⟩ := by
  rw [advanceAutoRun, if_neg (not_not_intro live),
    if_neg (by simpa [Ticket.isFinished] using unfinished), taken]
  rfl

theorem advanceAutoRun_of_executed {step : SessionStep} {next : Session} {trace seen : Trace}
    (live : ticket.generation = s.generation) (unfinished : ticket.remaining ≠ 0)
    (taken : s.stepTraced trace = ⟨.ok step, next, seen⟩) (executed : step.outcome ≠ .idle) :
    s.advanceAutoRun ticket trace =
      ⟨.ok (some step, { ticket with remaining := ticket.remaining - 1 }), next, seen⟩ := by
  rw [advanceAutoRun, if_neg (not_not_intro live),
    if_neg (by simpa [Ticket.isFinished] using unfinished), taken]
  simp only [if_neg executed]

/-- The steps of a paced run are single steps, and it stops where the pacer cancels. -/
theorem Sound.runPacedFrom_stops (pacer : Pacer) (turns : Nat) (run : PacedRun) (ticket : Ticket)
    (sound : s.Sound) (installed : s.stepper = some stepper)
    (filled : stepper.program.statements ≠ []) (live : ticket.generation = s.generation)
    (enough : ticket.remaining < turns) (trace : Trace) :
    ∃ k, StopsAfter (fun n => pacer.Cancels (run.pauses + n)) ticket.remaining k ∧
      Session.runPacedFrom pacer turns run s ticket trace =
        ⟨.ok ⟨run.executed + k, run.pauses + (k - 1)⟩,
          if k < ticket.remaining then (s.stepped trace k).1.supersede else (s.stepped trace k).1,
          (s.stepped trace k).2⟩ := by
  induction turns generalizing s stepper ticket run trace with
  | zero => exact absurd enough (Nat.not_lt_zero _)
  | succ turns ih =>
    obtain ⟨generation, remaining⟩ := ticket
    rw [Session.runPacedFrom]
    cases remaining with
    | zero =>
      rw [advanceAutoRun_of_finished trace live rfl]
      exact ⟨0, .zero _, rfl⟩
    | succ remaining =>
      cases sound.single installed trace with
      | rests empty => exact absurd empty filled
      | @executes step next seen filled taken executed sound moved same steady =>
        have onward := stepped_succ taken
        have advanced := advanceAutoRun_of_executed live (Nat.succ_ne_zero remaining) taken executed
        rw [advanced]
        simp only [Nat.add_sub_cancel]
        cases remaining with
        | zero =>
          -- There is no pause behind the last step.
          refine ⟨1, ⟨Nat.le_refl 1, by simp, by simp⟩, ?_⟩
          rw [onward]
          rfl
        | succ remaining =>
          have unfinished : ¬(Ticket.mk generation (remaining + 1)).isFinished = true := by
            simp [Ticket.isFinished]
          rw [if_neg unfinished]
          cases answer : pacer run.pauses with
          | cancel =>
            refine ⟨1, .once (remaining + 1) answer, ?_⟩
            rw [onward, if_pos (by omega)]
            rfl
          | goOn =>
            obtain ⟨k, stops, ran⟩ := ih ⟨run.executed + 1, run.pauses + 1⟩
              ⟨generation, remaining + 1⟩ sound moved (same ▸ filled) (live.trans steady.symm)
              (Nat.lt_of_succ_lt_succ enough) seen
            simp only [Nat.add_assoc run.pauses] at stops
            have begun : 0 < k := stops.pos (Nat.succ_pos remaining)
            refine ⟨k + 1, stops.succ (Pacer.not_cancels.mpr answer), ran.trans ?_⟩
            have steps : run.executed + 1 + k = run.executed + (k + 1) := by omega
            have pauses : run.pauses + 1 + (k - 1) = run.pauses + (k + 1 - 1) := by omega
            rw [onward, steps, pauses]
            simp only [Nat.add_lt_add_iff_right]

theorem runPacedFrom_of_empty (installed : s.stepper = some stepper) (rests : stepper.current? = none)
    (live : ticket.generation = s.generation) (pacer : Pacer) (turns : Nat) (run : PacedRun)
    (trace : Trace) : Session.runPacedFrom pacer turns run s ticket trace = ⟨.ok run, s, trace⟩ := by
  cases turns with
  | zero => rfl
  | succ turns =>
    rw [runPacedFrom]
    by_cases finished : ticket.remaining = 0
    · rw [advanceAutoRun_of_finished trace live finished]
    · rw [advanceAutoRun_of_idle live finished (stepTraced_of_empty installed rests trace)]

/-- A paced run ends after the steps that it counts, all of its ticket unless there is nothing to
execute. A pause that cancels ends it earlier and starts a new generation. -/
theorem Sound.runPacedFrom_takes (pacer : Pacer) (turns : Nat) (run : PacedRun) (ticket : Ticket)
    (sound : s.Sound) (installed : s.stepper = some stepper)
    (live : ticket.generation = s.generation) (enough : ticket.remaining < turns)
    (trace : Trace) :
    let done := Session.runPacedFrom pacer turns run s ticket trace
    ∃ n result, done.answer = .ok result ∧ result.executed = run.executed + n ∧
      (stepper.program.statements = [] → n = 0) ∧
      (((done.session, done.trace) = s.stepped trace n ∧
          (stepper.program.statements ≠ [] → n = ticket.remaining)) ∨
        ((done.session, done.trace) = ((s.stepped trace n).1.supersede, (s.stepped trace n).2) ∧
          ∃ pause, pacer pause = .cancel)) := by
  by_cases empty : stepper.program.statements = []
  · have rests := (sound stepper installed).current?_eq_none.mpr empty
    rw [runPacedFrom_of_empty installed rests live]
    exact ⟨0, run, rfl, rfl, fun _ => rfl, .inl ⟨rfl, fun filled => absurd empty filled⟩⟩
  · obtain ⟨k, stops, ran⟩ :=
      sound.runPacedFrom_stops pacer turns run ticket installed empty live enough trace
    rw [ran]
    refine ⟨k, _, rfl, rfl, fun none => absurd none empty, ?_⟩
    by_cases early : k < ticket.remaining
    · obtain ⟨last, -, cancelled⟩ := stops.stopped early
      rw [if_pos early]
      exact .inr ⟨rfl, _, cancelled⟩
    · rw [if_neg early]
      exact .inl ⟨rfl, fun _ => by have := stops.within; omega⟩

theorem takes_zero {α : Type} {done : Traced α} {trace : Trace} (session : done.session = s)
    (kept : done.trace = trace) : s.Takes trace 0 done := by
  obtain ⟨answer, next, seen⟩ := done
  subst session kept
  exact ⟨⟨_, rfl⟩, rfl⟩

theorem takes_of_stepped {α : Type} {done : Traced α} {trace : Trace} {n : Nat}
    (reached : (done.session, done.trace) = s.stepped trace n) : s.Takes trace n done := by
  rw [Takes, ← reached]
  exact ⟨⟨_, rfl⟩, rfl⟩

/-- Without a program nothing is executed. -/
theorem takes_of_none (absent : s.stepper = none) (operation : Operation) (trace : Trace)
    (drives : operation.drives = true) :
    statements (s.perform operation trace).answer = 0 ∧
      s.Takes trace 0 (s.perform operation trace) := by
  have refused := stepTraced_of_none absent
  have advance (ticket : Ticket) : (s.advanceAutoRun ticket trace).session = s ∧
      (s.advanceAutoRun ticket trace).trace = trace ∧
        ∀ step rest, (s.advanceAutoRun ticket trace).answer = .ok (step, rest) → step = none := by
    rw [advanceAutoRun, refused]
    split
    · exact ⟨rfl, rfl, by simp⟩
    · split
      · exact ⟨rfl, rfl, fun _ _ same => by cases same; rfl⟩
      · exact ⟨rfl, rfl, by simp⟩
  cases operation with
  | step =>
    simp only [perform, untraced, step, refused]
    exact ⟨rfl, takes_zero rfl rfl⟩
  | stepTraced =>
    simp only [perform, refused]
    exact ⟨rfl, takes_zero rfl rfl⟩
  | run boundary most =>
    simp only [perform, run]
    cases most with
    | zero => exact ⟨rfl, takes_zero rfl rfl⟩
    | succ most =>
      rw [runFrom, refused]
      exact ⟨rfl, takes_zero rfl rfl⟩
  | advanceAutoRun ticket =>
    obtain ⟨session, kept, unstepped⟩ := advance ticket
    refine ⟨?_, takes_zero session kept⟩
    simp only [perform, Traced.map]
    cases answered : (s.advanceAutoRun ticket trace).answer with
    | error cause => rfl
    | ok found =>
      obtain ⟨step, rest⟩ := found
      cases unstepped step rest answered
      rfl
  | runPaced ticket pacer =>
    obtain ⟨session, kept, unstepped⟩ := advance ticket
    simp only [perform, runPaced]
    rw [runPacedFrom]
    split
    all_goals
      rename_i advanced
      rw [advanced] at session kept unstepped
    · exact ⟨rfl, takes_zero session kept⟩
    · exact ⟨rfl, takes_zero session kept⟩
    · cases unstepped _ _ rfl
  | compile | edit | resetExecution | configure | reconfigure | resetAccuracy | beginAutoRun
  | cancelAutoRun => cases drives

theorem takes_of_stepTraced (sound : s.Sound) (installed : s.stepper = some stepper)
    (trace : Trace) : s.Takes trace
      (statements ((s.stepTraced trace).answer.map Reply.stepped)) (s.stepTraced trace) := by
  cases sound.single installed trace with
  | rests empty taken =>
    rw [taken]
    exact takes_zero rfl rfl
  | executes filled taken executed =>
    have once := (stepped_succ taken 0).symm
    rw [taken]
    simp only [Except.map, statements, Reply.statements, if_neg executed]
    exact takes_of_stepped once

theorem takes_of_run (sound : s.Sound) (installed : s.stepper = some stepper)
    (boundary : RunBoundary) (most : Nat) (trace : Trace) : s.Takes trace
      (statements ((s.run boundary most trace).answer.map Reply.ran)) (s.run boundary most trace) := by
  obtain ⟨n, summary, answered, count, reached, -⟩ :=
    sound.runFrom_takes boundary most {} installed trace
  rw [run, answered]
  simp only [Except.map, statements, Reply.statements, count, Nat.zero_add]
  exact takes_of_stepped reached

theorem takes_of_advanceAutoRun (sound : s.Sound) (installed : s.stepper = some stepper)
    (ticket : Ticket) (trace : Trace) : s.Takes trace
      (statements ((s.advanceAutoRun ticket trace).answer.map fun found =>
        Reply.advanced found.1 found.2)) (s.advanceAutoRun ticket trace) := by
  by_cases live : ticket.generation = s.generation
  · by_cases unfinished : ticket.remaining = 0
    · rw [advanceAutoRun_of_finished trace live unfinished]
      exact takes_zero rfl rfl
    · cases sound.single installed trace with
      | rests empty taken =>
        rw [advanceAutoRun_of_idle live unfinished taken]
        exact takes_zero rfl rfl
      | executes filled taken executed =>
        rw [advanceAutoRun_of_executed live unfinished taken executed]
        exact takes_of_stepped (stepped_succ taken 0).symm
  · rw [advanceAutoRun_of_stale trace live]
    exact takes_zero rfl rfl

theorem takes_of_runPaced (sound : s.Sound) (installed : s.stepper = some stepper)
    (ticket : Ticket) (pacer : Pacer) (trace : Trace) : s.Takes trace
      (statements ((s.runPaced ticket pacer trace).answer.map Reply.paced))
      (s.runPaced ticket pacer trace) := by
  by_cases live : ticket.generation = s.generation
  · obtain ⟨n, result, answered, count, -, ends⟩ :=
      sound.runPacedFrom_takes pacer _ {} ticket installed live (Nat.lt_succ_self _) trace
    rw [runPaced, answered]
    simp only [Except.map, statements, Reply.statements, count, Nat.zero_add]
    rcases ends with ⟨reached, -⟩ | ⟨reached, -⟩
    · exact takes_of_stepped reached
    · obtain ⟨session, kept⟩ := Prod.mk.inj reached
      exact ⟨⟨_, session⟩, kept⟩
  · rw [runPaced_of_stale trace pacer live]
    exact takes_zero rfl rfl

/-- What manages the program executes nothing and leaves the predictor and the account as they are. -/
theorem perform_of_manages (s : Session) (operation : Operation) (trace : Trace)
    (manages : operation.manages = true) :
    let done := s.perform operation trace
    statements done.answer = 0 ∧ done.trace = trace ∧
      done.session.bank = s.bank ∧ done.session.ledger = s.ledger := by
  cases operation with
  | compile program =>
    simp only [perform, untraced, compile]
    split <;> exact ⟨rfl, trivial, rfl, rfl⟩
  | resetExecution =>
    simp only [perform, untraced, resetExecution]
    split <;> exact ⟨rfl, trivial, rfl, rfl⟩
  | beginAutoRun steps =>
    simp only [perform, untraced, beginAutoRun]
    split <;> exact ⟨rfl, trivial, rfl, rfl⟩
  | edit | cancelAutoRun => exact ⟨rfl, rfl, rfl, rfl⟩
  | configure | reconfigure | resetAccuracy | step | stepTraced | run | advanceAutoRun
  | runPaced => cases manages

/-- What a step does to a session does not depend on the trace. -/
theorem stepTraced_anywhere (s : Session) (trace other : Trace) :
    (s.stepTraced trace).answer = (s.stepTraced other).answer ∧
      (s.stepTraced trace).session = (s.stepTraced other).session := by
  obtain ⟨slot, bank, ledger, generation, seeds⟩ := s
  cases slot with
  | none => exact ⟨rfl, rfl⟩
  | some stepper =>
    simp only [stepTraced]
    split
    · exact ⟨rfl, rfl⟩
    · split <;> exact ⟨rfl, rfl⟩

/-- A driven session ends where as many single steps end as it reports to have executed. -/
theorem Sound.takes_perform (sound : s.Sound) (operation : Operation) (trace : Trace)
    (drives : operation.drives = true) (traced : operation ≠ .step) :
    s.Takes trace (statements (s.perform operation trace).answer) (s.perform operation trace) := by
  cases installed : s.stepper with
  | none =>
    obtain ⟨nothing, kept⟩ := takes_of_none installed operation trace drives
    rwa [nothing]
  | some stepper =>
    cases operation with
    | step => exact absurd rfl traced
    | stepTraced => exact takes_of_stepTraced sound installed trace
    | run boundary most => exact takes_of_run sound installed boundary most trace
    | advanceAutoRun ticket => exact takes_of_advanceAutoRun sound installed ticket trace
    | runPaced ticket pacer => exact takes_of_runPaced sound installed ticket pacer trace
    | compile | edit | resetExecution | configure | reconfigure | resetAccuracy | beginAutoRun
    | cancelAutoRun => cases drives

/-- The same, on the trace or off it, for the session alone. -/
theorem Sound.moves_perform (sound : s.Sound) (operation : Operation) (trace : Trace)
    (drives : operation.drives = true) :
    let done := s.perform operation trace
    ∃ generation,
      done.session = { (s.stepped trace (statements done.answer)).1 with generation } := by
  cases operation with
  | step =>
    obtain ⟨answered, moved⟩ := s.stepTraced_anywhere Array.empty trace
    have same : s.perform .step trace =
        ⟨(s.perform .stepTraced trace).answer, (s.perform .stepTraced trace).session, trace⟩ := by
      simp only [Session.perform, untraced, Session.step, Traced.map, answered, moved]
    rw [same]
    exact (sound.takes_perform .stepTraced trace rfl (by simp)).1
  | stepTraced | run | advanceAutoRun | runPaced =>
    exact (sound.takes_perform _ trace drives (by simp)).1
  | compile | edit | resetExecution | configure | reconfigure | resetAccuracy | beginAutoRun
  | cancelAutoRun => cases drives

end Driving
end Session
end BranchLab
