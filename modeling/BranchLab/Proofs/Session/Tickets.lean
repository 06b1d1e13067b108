import BranchLab.Proofs.Session.Evaluation

/-! Which automatic runs are live. Some operations supersede all runs before them, which is read off
what was asked and what was answered, and never off the generation. A ticket is honoured until the
session is superseded and refused from then on, and what is refused leaves no mark. -/

namespace BranchLab

/-- How often a paced run paused: after each step but one that finished the ticket. -/
def PacedRun.asked (run : PacedRun) (ticket : Ticket) : Nat :=
  min run.executed (ticket.remaining - 1)

def PacedRun.cancelled (run : PacedRun) (ticket : Ticket) (pacer : Pacer) : Bool :=
  (List.range (run.asked ticket)).any fun pause => pacer pause = .cancel

namespace Session

def Operation.supersedes : Operation → Except SessionError Reply → Bool
  | .compile _, .ok _ | .resetExecution, .ok _ | .beginAutoRun _, .ok _ => true
  | .edit, _ | .cancelAutoRun, _ => true
  | .runPaced ticket pacer, .ok (.paced result) => result.cancelled ticket pacer
  | _, _ => false

def record (s : Session) (trace : Trace) :
    List Operation → List (Operation × Except SessionError Reply)
  | [] => []
  | operation :: rest =>
    let done := s.perform operation trace
    (operation, done.answer) :: record done.session done.trace rest

def supersessions (s : Session) (trace : Trace) (operations : List Operation) : Nat :=
  (s.record trace operations).countP fun entry => entry.1.supersedes entry.2

def Superseded (s : Session) (trace : Trace) (operations : List Operation) : Prop :=
  ∃ entry ∈ s.record trace operations, entry.1.supersedes entry.2 = true

section History

variable (s : Session) (trace : Trace)

theorem after_cons (operation : Operation) (rest : List Operation) :
    s.after trace (operation :: rest) =
      (s.perform operation trace).session.after (s.perform operation trace).trace rest := rfl

theorem after_append (before rest : List Operation) :
    s.after trace (before ++ rest) =
      (s.after trace before).1.after (s.after trace before).2 rest :=
  List.foldl_append

theorem record_append (before rest : List Operation) :
    s.record trace (before ++ rest) = s.record trace before ++
      (s.after trace before).1.record (s.after trace before).2 rest := by
  induction before generalizing s trace with
  | nil => rfl
  | cons operation before ih => simp only [List.cons_append, record, after_cons, ih]

theorem supersessions_append (before rest : List Operation) :
    s.supersessions trace (before ++ rest) = s.supersessions trace before +
      (s.after trace before).1.supersessions (s.after trace before).2 rest := by
  simp only [supersessions, record_append, List.countP_append]

theorem supersessions_cons (operation : Operation) (rest : List Operation) :
    s.supersessions trace (operation :: rest) =
      (s.perform operation trace).session.supersessions (s.perform operation trace).trace rest +
        (operation.supersedes (s.perform operation trace).answer).toNat := by
  simp only [supersessions, record, List.countP_cons]
  cases operation.supersedes (s.perform operation trace).answer <;> rfl

theorem superseded_iff (operations : List Operation) :
    s.Superseded trace operations ↔ 0 < s.supersessions trace operations :=
  List.countP_pos_iff.symm

end History

section Generations

variable {s : Session}

structure Continues (s next : Session) : Prop where
  generation : next.generation = s.generation
  compiled : next.isCompiled = s.isCompiled

theorem Continues.refl (s : Session) : s.Continues s := ⟨rfl, rfl⟩

theorem Continues.trans {next last : Session} (first : s.Continues next)
    (second : next.Continues last) : s.Continues last :=
  ⟨second.generation.trans first.generation, second.compiled.trans first.compiled⟩

theorem continues_stepTraced (s : Session) (trace : Trace) :
    s.Continues (s.stepTraced trace).session := by
  obtain ⟨slot, bank, ledger, generation, seeds⟩ := s
  cases slot with
  | none => exact .refl _
  | some stepper =>
    simp only [stepTraced]
    split
    · exact ⟨rfl, rfl⟩
    · split
      · exact ⟨rfl, rfl⟩
      · exact ⟨rfl, rfl⟩

theorem continues_runFrom (boundary : RunBoundary) (left : Nat) (sum : RunSummary) (s : Session)
    (trace : Trace) : s.Continues (runFrom boundary left sum s trace).session := by
  induction left generalizing s sum trace with
  | zero => exact .refl s
  | succ left ih =>
    have stepped := continues_stepTraced s trace
    rw [runFrom]
    split
    · rename_i error next events failed
      rwa [failed] at stepped
    · rename_i step next events taken
      rw [taken] at stepped
      split
      · exact stepped
      · dsimp only
        split
        · exact stepped
        · exact stepped.trans (ih _ next events)

theorem continues_advanceAutoRun (s : Session) (ticket : Ticket) (trace : Trace) :
    s.Continues (s.advanceAutoRun ticket trace).session := by
  have stepped := continues_stepTraced s trace
  rw [advanceAutoRun]
  split
  · exact .refl s
  · split
    · exact .refl s
    · split
      · rename_i error next events failed
        rwa [failed] at stepped
      · rename_i step next events taken
        rw [taken] at stepped
        split
        · exact stepped
        · exact stepped

def Granted (pacer : Pacer) (run : PacedRun) : Prop :=
  run.executed = run.pauses ∧ ∀ pause < run.pauses, pacer pause = .goOn

theorem Granted.next {pacer : Pacer} {run : PacedRun} (granted : Granted pacer run)
    (paced : pacer run.pauses = .goOn) : Granted pacer ⟨run.executed + 1, run.pauses + 1⟩ := by
  obtain ⟨same, earlier⟩ := granted
  refine ⟨by rw [same], ?_⟩
  intro pause before
  rcases Nat.lt_succ_iff_lt_or_eq.mp before with less | rfl
  · exact earlier pause less
  · exact paced

theorem Granted.not_cancelled {pacer : Pacer} {run : PacedRun} (granted : Granted pacer run)
    {result : PacedRun} {ticket : Ticket} (within : result.asked ticket ≤ run.pauses) :
    result.cancelled ticket pacer = false := by
  simp only [PacedRun.cancelled, List.any_eq_false, List.mem_range, decide_eq_true_eq]
  intro pause before
  rw [granted.2 pause (by omega)]
  decide

/-- A step takes one from what the ticket permits, and an answer without a step adds nothing to it. -/
theorem advanceAutoRun_ok {ticket next : Ticket} {trace : Trace} {step : Option SessionStep}
    (advanced : (s.advanceAutoRun ticket trace).answer = .ok (step, next)) :
    next.generation = ticket.generation ∧ next.remaining ≤ ticket.remaining ∧
      (step ≠ none → next.remaining + 1 = ticket.remaining) := by
  rw [advanceAutoRun] at advanced
  split at advanced
  · cases advanced
  · split at advanced
    · cases advanced
      exact ⟨rfl, Nat.le_refl _, fun some => absurd rfl some⟩
    · rename_i unfinished
      have left : 0 < ticket.remaining := by
        simp only [Ticket.isFinished, beq_iff_eq] at unfinished
        omega
      split at advanced
      · cases advanced
      · split at advanced
        · cases advanced
          exact ⟨rfl, Nat.zero_le _, fun some => absurd rfl some⟩
        · cases advanced
          exact ⟨rfl, Nat.sub_le _ _, fun _ => Nat.sub_add_cancel left⟩

theorem Continues.counted {next : Session} (continues : s.Continues next) {operation : Operation}
    {answer : Except SessionError Reply} (quiet : operation.supersedes answer = false) :
    next.generation = s.generation + UInt64.ofNat (operation.supersedes answer).toNat := by
  rw [quiet, continues.generation]
  simp

/-- The run began with the ticket `first`. While it goes on, every pause was granted. -/
theorem generation_runPacedFrom {pacer : Pacer} {first : Ticket} (turns : Nat) {run : PacedRun}
    (s : Session) (ticket : Ticket) (trace : Trace) (granted : Granted pacer run)
    (spent : ticket.remaining + run.executed = first.remaining) :
    let done := (runPacedFrom pacer turns run s ticket trace).map Reply.paced
    done.session.isCompiled = s.isCompiled ∧
      done.session.generation = s.generation +
        UInt64.ofNat ((Operation.runPaced first pacer).supersedes done.answer).toNat := by
  have same := granted.1
  have quiet : run.cancelled first pacer = false :=
    granted.not_cancelled (by simp only [PacedRun.asked]; omega)
  induction turns generalizing run s ticket trace with
  | zero => exact ⟨rfl, (Continues.refl s).counted quiet⟩
  | succ turns ih =>
    have continues := continues_advanceAutoRun s ticket trace
    rw [runPacedFrom]
    split
    · rename_i error next events failed
      rw [failed] at continues
      exact ⟨continues.compiled, continues.counted rfl⟩
    · rename_i rest next events ended
      rw [ended] at continues
      exact ⟨continues.compiled, continues.counted quiet⟩
    · rename_i step rest next events advanced
      rw [advanced] at continues
      have taken := (advanceAutoRun_ok (congrArg Traced.answer advanced)).2.2 (by simp)
      split
      · rename_i finished
        have last : rest.remaining = 0 := by simpa [Ticket.isFinished] using finished
        have unasked : PacedRun.cancelled ⟨run.executed + 1, run.pauses⟩ first pacer = false :=
          granted.not_cancelled (by simp only [PacedRun.asked]; omega)
        exact ⟨continues.compiled, continues.counted unasked⟩
      · rename_i unfinished
        have more : rest.remaining ≠ 0 := by simpa [Ticket.isFinished] using unfinished
        split
        · rename_i stopped
          have cancels : PacedRun.cancelled ⟨run.executed + 1, run.pauses⟩ first pacer = true := by
            simp only [PacedRun.cancelled, List.any_eq_true, List.mem_range, decide_eq_true_eq]
            refine ⟨run.pauses, ?_, stopped⟩
            simp only [PacedRun.asked]
            omega
          refine ⟨continues.compiled, ?_⟩
          change next.generation + 1 = s.generation + UInt64.ofNat
            (PacedRun.cancelled ⟨run.executed + 1, run.pauses⟩ first pacer).toNat
          rw [cancels, continues.generation]
          rfl
        · rename_i goes
          have onward := granted.next goes
          have paced := ih next rest events onward (by simp only; omega) onward.1
            (onward.not_cancelled (by simp only [PacedRun.asked]; omega))
          refine ⟨paced.1.trans continues.compiled, ?_⟩
          rw [← continues.generation]
          exact paced.2

theorem generation_runPaced (s : Session) (ticket : Ticket) (pacer : Pacer) (trace : Trace) :
    let done := (s.runPaced ticket pacer trace).map Reply.paced
    done.session.isCompiled = s.isCompiled ∧
      done.session.generation = s.generation +
        UInt64.ofNat ((Operation.runPaced ticket pacer).supersedes done.answer).toNat := by
  have none : Granted pacer {} := ⟨rfl, fun pause before => absurd before (Nat.not_lt_zero pause)⟩
  exact generation_runPacedFrom (ticket.remaining + 1) s ticket trace none rfl

theorem generation_perform (s : Session) (operation : Operation) (trace : Trace) :
    (s.perform operation trace).session.generation = s.generation +
      UInt64.ofNat (operation.supersedes (s.perform operation trace).answer).toNat := by
  cases operation with
  | compile program =>
    simp only [perform, untraced, compile]
    split <;> simp [Except.map, Operation.supersedes, supersede]
  | edit => rfl
  | resetExecution =>
    simp only [perform, untraced, resetExecution]
    split <;> simp [Except.map, Operation.supersedes, supersede]
  | configure tableSize mode historyBits =>
    simp only [perform, untraced, configure]
    split <;> simp [Operation.supersedes, reconfigure]
  | reconfigure geometry => exact (Continues.mk rfl rfl : s.Continues _).counted rfl
  | resetAccuracy => exact (Continues.mk rfl rfl : s.Continues _).counted rfl
  | step => exact (continues_stepTraced s _).counted rfl
  | stepTraced => exact (continues_stepTraced s trace).counted rfl
  | run boundary most => exact (continues_runFrom boundary most {} s trace).counted rfl
  | beginAutoRun steps =>
    simp only [perform, untraced, beginAutoRun]
    split <;> simp [Except.map, Operation.supersedes, supersede]
  | cancelAutoRun => rfl
  | advanceAutoRun ticket => exact (continues_advanceAutoRun s ticket trace).counted rfl
  | runPaced ticket pacer => exact (generation_runPaced s ticket pacer trace).2

theorem compiled_perform (operation : Operation) (trace : Trace) (compiled : s.isCompiled = true)
    (live : operation.supersedes (s.perform operation trace).answer = false) :
    (s.perform operation trace).session.isCompiled = true := by
  cases operation with
  | compile program =>
    simp only [perform, untraced, compile]
    split
    · rfl
    · exact compiled
  | edit => cases live
  | resetExecution =>
    simp only [perform, untraced, resetExecution]
    split
    · exact compiled
    · rfl
  | configure tableSize mode historyBits =>
    simp only [perform, untraced, configure]
    split <;> exact compiled
  | reconfigure geometry => exact compiled
  | resetAccuracy => exact compiled
  | step => exact (continues_stepTraced s _).compiled.trans compiled
  | stepTraced => exact (continues_stepTraced s trace).compiled.trans compiled
  | run boundary most => exact (continues_runFrom boundary most {} s trace).compiled.trans compiled
  | beginAutoRun steps =>
    simp only [perform, untraced, beginAutoRun]
    split <;> exact compiled
  | cancelAutoRun => exact compiled
  | advanceAutoRun ticket => exact (continues_advanceAutoRun s ticket trace).compiled.trans compiled
  | runPaced ticket pacer => exact (generation_runPaced s ticket pacer trace).1.trans compiled

theorem generation_after (s : Session) (trace : Trace) (operations : List Operation) :
    (s.after trace operations).1.generation =
      s.generation + UInt64.ofNat (s.supersessions trace operations) := by
  induction operations generalizing s trace with
  | nil => simp [after, supersessions, record]
  | cons operation rest ih =>
    rw [after_cons, ih, generation_perform, supersessions_cons, UInt64.ofNat_add]
    ac_rfl

theorem compiled_after (trace : Trace) (operations : List Operation)
    (compiled : s.isCompiled = true) (live : s.supersessions trace operations = 0) :
    (s.after trace operations).1.isCompiled = true := by
  induction operations generalizing s trace with
  | nil => exact compiled
  | cons operation rest ih =>
    rw [supersessions_cons] at live
    have quiet : operation.supersedes (s.perform operation trace).answer = false := by
      simpa using (Nat.add_eq_zero_iff.mp live).2
    exact ih _ (compiled_perform operation trace compiled quiet) (Nat.add_eq_zero_iff.mp live).1

end Generations

theorem self_eq_add_ofNat (g : UInt64) {k : Nat} (few : k < 2 ^ 64) :
    g = g + UInt64.ofNat k ↔ k = 0 := by
  have small := g.toNat_lt
  rw [← UInt64.toNat_inj, UInt64.toNat_add, UInt64.toNat_ofNat', Nat.mod_eq_of_lt few]
  omega

section Honour

variable {s : Session} {ticket : Ticket} (trace : Trace)

theorem advanceAutoRun_of_stale (stale : ticket.generation ≠ s.generation) :
    s.advanceAutoRun ticket trace = ⟨.error .staleRun, s, trace⟩ := by
  rw [advanceAutoRun, if_pos stale]

theorem runPaced_of_stale (pacer : Pacer) (stale : ticket.generation ≠ s.generation) :
    s.runPaced ticket pacer trace = ⟨.error .staleRun, s, trace⟩ := by
  rw [runPaced, runPacedFrom, advanceAutoRun_of_stale trace stale]

theorem Sound.stepTraced_answers (sound : s.Sound) (compiled : s.isCompiled = true) :
    ∃ step, (s.stepTraced trace).answer = .ok step := by
  obtain ⟨stepper, installed⟩ := Option.isSome_iff_exists.mp compiled
  obtain ⟨outcome, answered, -⟩ := (sound stepper installed).step
  have stepped : stepper.step = (.ok outcome, stepper.step.2) := Prod.ext answered rfl
  rw [stepTraced_of_some installed stepped]
  exact ⟨_, rfl⟩

theorem Sound.advanceAutoRun_answers (sound : s.Sound) (compiled : s.isCompiled = true)
    (live : ticket.generation = s.generation) :
    ∃ step next, (s.advanceAutoRun ticket trace).answer = .ok (step, next) := by
  obtain ⟨step, answered⟩ := sound.stepTraced_answers trace compiled
  rw [Session.advanceAutoRun, if_neg (not_not_intro live)]
  split
  · exact ⟨none, ticket, rfl⟩
  · split
    · rename_i error next events failed
      rw [failed] at answered
      cases answered
    · split
      · exact ⟨none, _, rfl⟩
      · exact ⟨_, _, rfl⟩

theorem Sound.runPacedFrom_answers (sound : s.Sound) (compiled : s.isCompiled = true)
    (live : ticket.generation = s.generation) (pacer : Pacer) (turns : Nat) (run : PacedRun) :
    ∃ result, (Session.runPacedFrom pacer turns run s ticket trace).answer = .ok result := by
  induction turns generalizing s ticket run trace with
  | zero => exact ⟨run, rfl⟩
  | succ turns ih =>
    obtain ⟨step, rest, answered⟩ := sound.advanceAutoRun_answers trace compiled live
    have continues := continues_advanceAutoRun s ticket trace
    have safe := sound.advanceAutoRun ticket trace
    rw [Session.runPacedFrom]
    split
    · rename_i error next events failed
      rw [failed] at answered
      cases answered
    · exact ⟨run, rfl⟩
    · rename_i step rest next events advanced
      rw [advanced] at continues safe
      split
      · exact ⟨_, rfl⟩
      · split
        · exact ⟨_, rfl⟩
        · have same := (advanceAutoRun_ok (congrArg Traced.answer advanced)).1
          exact ih events safe.sound (continues.compiled.trans compiled)
            ((same.trans live).trans continues.generation.symm) _

theorem Sound.runPaced_answers (sound : s.Sound) (compiled : s.isCompiled = true)
    (live : ticket.generation = s.generation) (pacer : Pacer) :
    ∃ run, (s.runPaced ticket pacer trace).answer = .ok run :=
  sound.runPacedFrom_answers trace compiled live pacer _ _

/-- A ticket is refused exactly in another generation than its own. -/
theorem Sound.advanceAutoRun_refused (sound : s.Sound)
    (compiled : ticket.generation = s.generation → s.isCompiled = true) :
    (s.advanceAutoRun ticket trace).answer = .error .staleRun ↔
      ticket.generation ≠ s.generation := by
  constructor
  · intro refused live
    obtain ⟨step, next, answered⟩ := sound.advanceAutoRun_answers trace (compiled live) live
    rw [answered] at refused
    cases refused
  · intro stale
    rw [advanceAutoRun_of_stale trace stale]

theorem Sound.runPaced_refused (sound : s.Sound) (pacer : Pacer)
    (compiled : ticket.generation = s.generation → s.isCompiled = true) :
    (s.runPaced ticket pacer trace).answer = .error .staleRun ↔
      ticket.generation ≠ s.generation := by
  constructor
  · intro refused live
    obtain ⟨run, answered⟩ := sound.runPaced_answers trace (compiled live) live pacer
    rw [answered] at refused
    cases refused
  · intro stale
    rw [runPaced_of_stale trace pacer stale]

theorem beginAutoRun_ok {steps : Nat} (issued : (s.beginAutoRun steps).1 = .ok ticket) :
    s.isCompiled = true ∧ ticket = ⟨s.generation + 1, steps⟩ ∧
      s.beginAutoRun steps = (.ok ticket, s.supersede) := by
  rw [beginAutoRun] at issued ⊢
  split at issued
  · rename_i compiled
    cases issued
    rw [if_pos compiled]
    exact ⟨compiled, rfl, rfl⟩
  · cases issued

end Honour
end Session

/-- An automatic run in a history: what was asked before it was begun, for how many steps it was
begun, and what was asked after that. -/
structure AutoRun where
  past : List Session.Operation
  steps : Nat
  since : List Session.Operation

namespace AutoRun

open Session

variable (flight : AutoRun) (s : Session) (trace : Trace)

def history : List Operation := flight.past ++ .beginAutoRun flight.steps :: flight.since

def Issues (ticket : Ticket) : Prop :=
  ((s.after trace flight.past).1.beginAutoRun flight.steps).1 = .ok ticket

def opened : Session × Trace := s.after trace (flight.past ++ [.beginAutoRun flight.steps])

def Superseded : Prop := (flight.opened s trace).1.Superseded (flight.opened s trace).2 flight.since

theorem after_history :
    s.after trace flight.history =
      (flight.opened s trace).1.after (flight.opened s trace).2 flight.since := by
  rw [opened, ← after_append, List.append_assoc]
  rfl

variable {flight s trace} {ticket : Ticket}

theorem opened_of_issues (issues : flight.Issues s trace ticket) :
    (flight.opened s trace).1 = (s.after trace flight.past).1.supersede := by
  obtain ⟨compiled, same, begun⟩ := beginAutoRun_ok issues
  rw [opened, after_append, after_cons]
  change ((s.after trace flight.past).1.beginAutoRun flight.steps).2 = _
  rw [begun]

theorem supersessions_since_le :
    (flight.opened s trace).1.supersessions (flight.opened s trace).2 flight.since ≤
      s.supersessions trace flight.history := by
  have split : flight.history = (flight.past ++ [.beginAutoRun flight.steps]) ++ flight.since := by
    simp [history]
  rw [split, supersessions_append]
  exact Nat.le_add_left ..

/-- Too few generations pass for the number of one to come round again. -/
theorem stale_iff (issues : flight.Issues s trace ticket)
    (few : s.supersessions trace flight.history < 2 ^ 64) :
    ticket.generation ≠ (s.after trace flight.history).1.generation ↔
      flight.Superseded s trace := by
  have passed := Nat.lt_of_le_of_lt supersessions_since_le few
  have now := generation_after (flight.opened s trace).1 (flight.opened s trace).2 flight.since
  have issued : ticket.generation = (flight.opened s trace).1.generation := by
    obtain ⟨compiled, same, begun⟩ := beginAutoRun_ok issues
    rw [opened_of_issues issues, same]
    rfl
  rw [after_history, now, issued, Superseded, superseded_iff, Nat.pos_iff_ne_zero]
  exact not_congr (self_eq_add_ofNat _ passed)

theorem compiled_of_live (issues : flight.Issues s trace ticket)
    (live : ¬flight.Superseded s trace) :
    (s.after trace flight.history).1.isCompiled = true := by
  obtain ⟨compiled, -, -⟩ := beginAutoRun_ok issues
  rw [Superseded, superseded_iff, Nat.not_lt, Nat.le_zero] at live
  rw [after_history]
  refine compiled_after _ _ ?_ live
  rw [opened_of_issues issues]
  exact compiled

def Precedes (flight other : AutoRun) : Prop :=
  ∃ between, other.past = flight.past ++ .beginAutoRun flight.steps :: between ∧
    flight.since = between ++ .beginAutoRun other.steps :: other.since

theorem eq_or_precedes {flight other : AutoRun} (whole : flight.history = other.history) :
    flight = other ∨ flight.Precedes other ∨ other.Precedes flight := by
  obtain ⟨past, steps, since⟩ := flight
  obtain ⟨past', steps', since'⟩ := other
  rcases List.append_eq_append_iff.mp whole with ⟨between, later, rest⟩ | ⟨between, later, rest⟩ <;>
    dsimp only at later rest
  · cases between with
    | nil =>
      cases rest
      exact .inl (by rw [later, List.append_nil])
    | cons first between =>
      obtain ⟨rfl, tail⟩ := List.cons.inj rest
      exact .inr (.inl ⟨between, later, tail⟩)
  · cases between with
    | nil =>
      cases rest
      exact .inl (by rw [later, List.append_nil])
    | cons first between =>
      obtain ⟨rfl, tail⟩ := List.cons.inj rest
      exact .inr (.inr ⟨between, later, tail⟩)

theorem Precedes.superseded {other : AutoRun} (earlier : flight.Precedes other)
    (issues : other.Issues s trace ticket) : flight.Superseded s trace := by
  obtain ⟨between, later, same⟩ := earlier
  have reached : s.after trace other.past =
      (flight.opened s trace).1.after (flight.opened s trace).2 between := by
    rw [later, opened, ← after_append, List.append_assoc]
    rfl
  rw [Issues, reached] at issues
  refine ⟨(.beginAutoRun other.steps, .ok (.issued ticket)), ?_, rfl⟩
  rw [same, record_append, List.mem_append]
  refine .inr (List.mem_cons.mpr (.inl ?_))
  simp only [perform, untraced, issues]
  rfl

/-- Of the runs of one history that were not superseded there is one at most. -/
theorem eq_of_live {other : AutoRun} {next : Ticket} (whole : flight.history = other.history)
    (issues : flight.Issues s trace ticket) (again : other.Issues s trace next)
    (live : ¬flight.Superseded s trace) (alive : ¬other.Superseded s trace) :
    flight = other ∧ ticket = next := by
  rcases eq_or_precedes whole with rfl | earlier | later
  · exact ⟨rfl, Except.ok.inj (issues.symm.trans again)⟩
  · exact absurd (earlier.superseded again) live
  · exact absurd (later.superseded issues) alive

end AutoRun

/-- However much of a ticket is left, it is refused exactly when its run was superseded. A refusal
changes nothing; a ticket that is not refused finds a program and is answered; and of all the runs
of a history at most one has a ticket that is not refused. -/
theorem auto_runs_are_single_flight (geometry : Geometry) (seed : UInt64) (trace : Trace)
    (flight : AutoRun) (ticket : Ticket)
    (issues : flight.Issues (.start geometry seed) trace ticket)
    (few : (Session.start geometry seed).supersessions trace flight.history < 2 ^ 64) :
    let now := (Session.start geometry seed).after trace flight.history
    (∀ left pacer,
      let held : Ticket := { ticket with remaining := left }
      let advanced := now.1.advanceAutoRun held now.2
      let paced := now.1.runPaced held pacer now.2
      (advanced.answer = .error .staleRun ↔ flight.Superseded (.start geometry seed) trace) ∧
      (paced.answer = .error .staleRun ↔ flight.Superseded (.start geometry seed) trace) ∧
      (flight.Superseded (.start geometry seed) trace →
        advanced = ⟨.error .staleRun, now.1, now.2⟩ ∧ paced = ⟨.error .staleRun, now.1, now.2⟩) ∧
      (¬flight.Superseded (.start geometry seed) trace → now.1.isCompiled = true ∧
        (∃ step next, advanced.answer = .ok (step, next) ∧ next.generation = ticket.generation) ∧
        ∃ run, paced.answer = .ok run)) ∧
    ∀ other next, other.history = flight.history → other.Issues (.start geometry seed) trace next →
      (now.1.advanceAutoRun ticket now.2).answer ≠ .error .staleRun →
      (now.1.advanceAutoRun next now.2).answer ≠ .error .staleRun → flight = other ∧ ticket = next := by
  intro now
  have sound : now.1.Sound := (Session.sound_start geometry seed).after trace flight.history
  have stale := AutoRun.stale_iff issues few
  refine ⟨?_, ?_⟩
  · intro left pacer held advanced paced
    have compiled (live : held.generation = now.1.generation) : now.1.isCompiled = true :=
      AutoRun.compiled_of_live issues (mt stale.mpr (not_not_intro live))
    refine ⟨(sound.advanceAutoRun_refused now.2 compiled).trans stale,
      (sound.runPaced_refused now.2 pacer compiled).trans stale, ?_, ?_⟩
    · intro superseded
      have old : held.generation ≠ now.1.generation := stale.mpr superseded
      exact ⟨Session.advanceAutoRun_of_stale now.2 old, Session.runPaced_of_stale now.2 pacer old⟩
    · intro alive
      have live : held.generation = now.1.generation := Decidable.of_not_not (mt stale.mp alive)
      obtain ⟨step, next, answered⟩ := sound.advanceAutoRun_answers now.2 (compiled live) live
      exact ⟨compiled live, ⟨step, next, answered, (Session.advanceAutoRun_ok answered).1⟩,
        sound.runPaced_answers now.2 (compiled live) live pacer⟩
  · intro other next whole again first second
    have later : next.generation ≠ now.1.generation ↔ other.Superseded (.start geometry seed) trace := by
      have fewer := whole ▸ few
      have both := AutoRun.stale_iff again fewer
      rwa [whole] at both
    refine AutoRun.eq_of_live whole.symm issues again ?_ ?_
    · intro superseded
      have refused := Session.advanceAutoRun_of_stale now.2 (stale.mpr superseded)
      exact first (congrArg Traced.answer refused)
    · intro superseded
      have refused := Session.advanceAutoRun_of_stale now.2 (later.mpr superseded)
      exact second (congrArg Traced.answer refused)

/-- A program that is refused leaves the run as it is; a pause that is not granted ends it. -/
theorem auto_runs_are_single_flight_cancelled :
    let origin := Session.start .default 0
    let program : Program := ⟨[.bind "x" (.ident "i") ⟨1, 1⟩, .bind "y" (.ident "x") ⟨2, 2⟩]⟩
    let unbound : Program := ⟨[.bind "x" (.ident "z") ⟨1, 1⟩]⟩
    let calm : AutoRun := ⟨[.compile program], 4,
      [.step, .compile unbound, .advanceAutoRun ⟨2, 4⟩]⟩
    let ended : AutoRun := { calm with since := calm.since ++ [.runPaced ⟨2, 3⟩ (.granting 1)] }
    let later := origin.after Array.empty calm.history
    let last := origin.after Array.empty ended.history
    calm.Issues origin Array.empty ⟨2, 4⟩ ∧
      origin.supersessions Array.empty calm.history < 2 ^ 64 ∧
      (∃ step next, (later.1.advanceAutoRun ⟨2, 3⟩ later.2).answer = .ok (step, next) ∧
        next.generation = 2) ∧
      ended.Issues origin Array.empty ⟨2, 4⟩ ∧
      origin.supersessions Array.empty ended.history < 2 ^ 64 ∧
      last.1.runPaced ⟨2, 3⟩ .unhurried last.2 = ⟨.error .staleRun, last.1, last.2⟩ := by
  intro origin program unbound calm ended later last
  have issued : calm.Issues origin Array.empty ⟨2, 4⟩ := rfl
  have few : origin.supersessions Array.empty calm.history < 2 ^ 64 := by decide +kernel
  have more : origin.supersessions Array.empty ended.history < 2 ^ 64 := by decide +kernel
  have alive : ¬calm.Superseded origin Array.empty := by
    rw [AutoRun.Superseded, Session.superseded_iff]
    decide +kernel
  have superseded : ended.Superseded origin Array.empty := by
    rw [AutoRun.Superseded, Session.superseded_iff]
    decide +kernel
  obtain ⟨honoured, -⟩ :=
    auto_runs_are_single_flight .default 0 Array.empty calm ⟨2, 4⟩ issued few
  obtain ⟨refused, -⟩ :=
    auto_runs_are_single_flight .default 0 Array.empty ended ⟨2, 4⟩ issued more
  exact ⟨issued, few, ((honoured 3 .unhurried).2.2.2 alive).2.1, issued, more,
    ((refused 3 .unhurried).2.2.1 superseded).2⟩

end BranchLab
