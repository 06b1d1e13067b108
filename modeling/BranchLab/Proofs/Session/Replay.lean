import Mathlib.Data.List.Forall2
import BranchLab.Proofs.Predictor.Training
import BranchLab.Proofs.Session.Course

/-! The trace as a record of the predictor. As long as nothing is executed off the trace and nothing but
branches changes the predictor, the branches of the trace, replayed on a fresh bank, give the bank,
the account and every prediction back. The trace is made of one group for each statement that was
executed. -/

namespace BranchLab

def TraceEvent.branch : TraceEvent → Option BranchEvent
  | branchResolved pc taken => some ⟨pc, taken⟩
  | _ => none

/-- What stands right behind each resolved branch. -/
def followUps : List TraceEvent → List (Option TraceEvent)
  | [] => []
  | .branchResolved _ _ :: rest => rest.head? :: followUps rest
  | _ :: rest => followUps rest

def Prediction.event (event : BranchEvent) (prediction : Prediction) : TraceEvent :=
  .predictionRecorded event.pc prediction.predicted prediction.correct

namespace Execution

/-- The iteration that was started, if the statement was the last of its iteration. -/
def wrap (e : Execution) : List TraceEvent :=
  if e.after.iteration = e.before.iteration then [] else [.iterationStarted e.after.iteration]

/-- A group of events tells of the statement: its lines, the branch and the prediction of a guarded
block at its first line, and the iteration that it started. -/
inductive Told (e : Execution) : List TraceEvent → Prop
  | bind {name : String} {value : Expr} {lines : LineRange}
      (current : e.before.current? = some (.bind name value lines)) :
      Told e (.statementExecuted lines :: e.wrap)
  | guarded {cond : Expr} {body : List Statement} {lines : LineRange} {taken : Bool}
      (predicted correct : Bool)
      (current : e.before.current? = some (.guarded cond body lines))
      (resolved : e.branch = some ⟨lines.start, taken⟩) :
      Told e (.statementExecuted lines :: .branchResolved lines.start taken ::
        .predictionRecorded lines.start predicted correct :: e.wrap)

theorem filterMap_wrap (e : Execution) : e.wrap.filterMap TraceEvent.branch = [] := by
  rw [wrap]
  split <;> rfl

theorem followUps_wrap (e : Execution) (events : List TraceEvent) :
    followUps (e.wrap ++ events) = followUps events := by
  rw [wrap]
  split <;> rfl

end Execution

/-- The events tell of the executed statements one after another, and their branches take the
predictor from the first bank and account to the last. -/
inductive Tells : List Execution → Bank → Ledger → List TraceEvent → Bank → Ledger → Prop
  | nothing (bank : Bank) (ledger : Ledger) : Tells [] bank ledger [] bank ledger
  | bind {e : Execution} {executions : List Execution} {name : String} {value : Expr}
      {lines : LineRange} {bank last : Bank} {ledger account : Ledger} {events : List TraceEvent}
      (current : e.before.current? = some (.bind name value lines)) (unresolved : e.branch = none)
      (rest : Tells executions bank ledger events last account) :
      Tells (e :: executions) bank ledger (.statementExecuted lines :: (e.wrap ++ events)) last account
  | guarded {e : Execution} {executions : List Execution} {cond : Expr} {body : List Statement}
      {lines : LineRange} {taken : Bool} {bank next last : Bank} {ledger scored account : Ledger}
      {prediction : Prediction} {events : List TraceEvent}
      (current : e.before.current? = some (.guarded cond body lines))
      (resolved : e.branch = some ⟨lines.start, taken⟩)
      (trained : bank.predictAndUpdate ⟨lines.start, taken⟩ ledger = (prediction, next, scored))
      (rest : Tells executions next scored events last account) :
      Tells (e :: executions) bank ledger
        (.statementExecuted lines :: .branchResolved lines.start taken ::
          prediction.event ⟨lines.start, taken⟩ :: (e.wrap ++ events)) last account

namespace Tells

variable {executions others : List Execution} {bank next last : Bank}
  {ledger scored account : Ledger} {events later : List TraceEvent}

theorem append (tells : Tells executions bank ledger events next scored)
    (more : Tells others next scored later last account) :
    Tells (executions ++ others) bank ledger (events ++ later) last account := by
  induction tells with
  | nothing => exact more
  | bind current unresolved rest ih =>
    simpa only [List.cons_append, List.append_assoc] using .bind current unresolved (ih more)
  | guarded current resolved trained rest ih =>
    simpa only [List.cons_append, List.append_assoc] using .guarded current resolved trained (ih more)

theorem branches (tells : Tells executions bank ledger events last account) :
    events.filterMap TraceEvent.branch = executions.filterMap Execution.branch := by
  induction tells with
  | nothing => rfl
  | bind current unresolved rest ih =>
    simpa [List.filterMap_cons, TraceEvent.branch, unresolved, Execution.filterMap_wrap] using ih
  | guarded current resolved trained rest ih =>
    simpa [List.filterMap_cons, TraceEvent.branch, Prediction.event, resolved,
      Execution.filterMap_wrap] using ih

/-- The branches alone, in the order of the events, train the bank and fill the account. -/
theorem replayed (tells : Tells executions bank ledger events last account) :
    bank.after ledger (events.filterMap TraceEvent.branch) = (last, account) := by
  rw [tells.branches]
  induction tells with
  | nothing => rfl
  | bind current unresolved rest ih =>
    rw [List.filterMap_cons_none unresolved]
    exact ih
  | guarded current resolved trained rest ih =>
    rw [List.filterMap_cons_some resolved, Bank.after_cons, trained]
    exact ih

/-- Behind each branch stands the prediction that the replay makes of it. -/
theorem predicted (tells : Tells executions bank ledger events last account) :
    followUps events =
      List.zipWith (fun event prediction => some (prediction.event event))
        (events.filterMap TraceEvent.branch)
        (bank.predictions ledger (events.filterMap TraceEvent.branch)) := by
  induction tells with
  | nothing => rfl
  | bind current unresolved rest ih =>
    simpa [followUps, List.filterMap_cons, TraceEvent.branch, Execution.filterMap_wrap,
      Execution.followUps_wrap] using ih
  | guarded current resolved trained rest ih =>
    simpa [followUps, List.filterMap_cons, TraceEvent.branch, Prediction.event, Bank.predictions,
      trained, Execution.filterMap_wrap, Execution.followUps_wrap] using ih

theorem groups (tells : Tells executions bank ledger events last account) :
    ∃ groups, List.Forall₂ Execution.Told executions groups ∧ events = groups.flatten := by
  induction tells with
  | nothing => exact ⟨[], .nil, rfl⟩
  | bind current unresolved rest ih =>
    obtain ⟨groups, told, rfl⟩ := ih
    exact ⟨_ :: groups, .cons (.bind current) told, rfl⟩
  | guarded current resolved trained rest ih =>
    obtain ⟨groups, told, rfl⟩ := ih
    exact ⟨_ :: groups, .cons (.guarded _ _ current resolved) told, rfl⟩

end Tells

namespace Stepper

variable {s : Stepper}

theorem events_advance (s : Stepper) : s.advance.1.events =
    if s.advance.2.iteration = s.iteration then [] else [.iterationStarted s.advance.2.iteration] := by
  rw [advance]
  split
  · rw [if_pos rfl]
    split <;> rfl
  · have grown : s.iteration + 1 ≠ s.iteration := fun same =>
      Nat.one_ne_zero ((Session.self_eq_add_ofNat s.iteration (by decide)).mp same.symm)
    exact (if_neg grown).symm

/-- A step that succeeds reports the lines of the current statement, its branch, and an iteration just
if it has started one. -/
theorem step_of_current {statement : Statement} {outcome : StepOutcome}
    (current : s.current? = some statement) (answered : s.step.1 = .ok outcome) :
    ∃ branch transition, outcome = .executed statement.lines branch transition ∧
      (transition.events =
        if s.step.2.iteration = s.iteration then [] else [.iterationStarted s.step.2.iteration]) ∧
      match statement with
      | .bind .. => branch = none
      | .guarded _ _ lines => ∃ taken, branch = some ⟨lines.start, taken⟩ := by
  cases statement with
  | bind name value lines =>
    simp only [step, current] at answered ⊢
    split at answered
    · cases answered
    · cases answered
      exact ⟨none, _, rfl, events_advance _, rfl⟩
  | guarded cond body lines =>
    simp only [step, current] at answered ⊢
    split at answered
    · cases answered
    · cases answered
      refine ⟨_, _, rfl, ?_, _, rfl⟩
      split
      · exact (if_pos rfl).symm
      · exact events_advance _

end Stepper

namespace Session

variable {s : Session} {stepper : Stepper}

/-- A single step tells of the statement that it executes. -/
theorem Sound.tells_stepTraced (sound : s.Sound) (installed : s.stepper = some stepper)
    {statement : Statement} (current : stepper.current? = some statement) (trace : Trace) :
    (s.stepTraced trace).session.stepper = some stepper.step.2 ∧
      ∃ events, (s.stepTraced trace).trace.toList = trace.toList ++ events ∧
        Tells [⟨stepper, stepper.step.2⟩] s.bank s.ledger events
          (s.stepTraced trace).session.bank (s.stepTraced trace).session.ledger := by
  obtain ⟨outcome, answered, -⟩ := (sound stepper installed).step
  have moves : stepper.step = (.ok outcome, stepper.step.2) := Prod.ext answered rfl
  have reported := Execution.outcome_of_answered answered stepper.step.2
  obtain ⟨branch, transition, same, wraps, resolves⟩ := Stepper.step_of_current current answered
  have wrap : (Execution.mk stepper stepper.step.2).wrap = transition.events := by
    rw [Execution.wrap, wraps]
  rw [stepTraced_of_some installed moves]
  refine ⟨rfl, _, Array.toList_appendList .., ?_⟩
  subst same
  -- What is reported decides the group: a branch is resolved by a guarded block and by no binding.
  have resolved : (Execution.mk stepper stepper.step.2).branch = branch := by
    rw [Execution.branch, reported]
    rfl
  cases statement with
  | bind name value lines =>
    subst resolves
    have told := Tells.bind current resolved (.nothing s.bank s.ledger)
    rw [List.append_nil, wrap] at told
    exact told
  | guarded cond body lines =>
    obtain ⟨taken, rfl⟩ := resolves
    have trained : s.bank.predictAndUpdate ⟨lines.start, taken⟩ s.ledger = (_, _, _) := rfl
    have told := Tells.guarded current resolved trained (.nothing _ _)
    rw [List.append_nil, wrap] at told
    exact told

/-- The steps of the installed program tell of its course. -/
theorem Sound.tells_stepped (sound : s.Sound) (installed : s.stepper = some stepper) (n : Nat)
    (trace : Trace) :
    ∃ events, (s.stepped trace n).2.toList = trace.toList ++ events ∧
      Tells (stepper.course n) s.bank s.ledger events
        (s.stepped trace n).1.bank (s.stepped trace n).1.ledger := by
  induction n generalizing s stepper trace with
  | zero => exact ⟨[], (List.append_nil _).symm, .nothing _ _⟩
  | succ n ih =>
    rw [Stepper.course]
    cases current : stepper.current? with
    | none =>
      -- A program without a current statement never gets one, so its course is over.
      rw [stepped_of_empty installed current]
      exact ⟨[], (List.append_nil _).symm, .nothing _ _⟩
    | some statement =>
      obtain ⟨moved, first, shown, told⟩ := sound.tells_stepTraced installed current trace
      obtain ⟨rest, onward, others⟩ := ih (sound.stepTraced trace).sound moved
        (s.stepTraced trace).trace
      have goes : s.stepped trace (n + 1) =
          (s.stepTraced trace).session.stepped (s.stepTraced trace).trace n := stepped_succ rfl n
      rw [goes]
      refine ⟨first ++ rest, ?_, told.append others⟩
      rw [onward, shown, List.append_assoc]

theorem Sound.geometry_stepped (sound : s.Sound) (installed : s.stepper = some stepper) (n : Nat)
    (trace : Trace) : (s.stepped trace n).1.bank.geometry = s.bank.geometry := by
  obtain ⟨events, -, tells⟩ := sound.tells_stepped installed n trace
  have replayed := s.bank.geometry_after s.ledger (events.filterMap TraceEvent.branch)
  rwa [tells.replayed] at replayed

/-- Whatever the operation executes, it executes on the trace, and it changes the predictor in no other
way. -/
def Operation.tellsAll : Operation → Bool
  | .step => false
  | operation => operation.drives || operation.manages

theorem executed_of_nothing {answer : Except SessionError Reply} (nothing : statements answer = 0) :
    s.executed answer = [] := by
  rw [executed, nothing]
  cases s.stepper <;> rfl

/-- The steps at whose end an operation leaves the session tell of what it executed. -/
theorem Sound.tells_driven (sound : s.Sound) (operation : Operation) (trace : Trace)
    (drives : operation.drives = true) :
    let answer := (s.perform operation trace).answer
    let reached := s.stepped trace (statements answer)
    ∃ events, reached.2.toList = trace.toList ++ events ∧
      Tells (s.executed answer) s.bank s.ledger events reached.1.bank reached.1.ledger := by
  intro answer
  cases installed : s.stepper with
  | none =>
    have nothing : statements answer = 0 := (takes_of_none installed operation trace drives).1
    rw [executed_of_nothing nothing, nothing]
    exact ⟨[], (List.append_nil _).symm, .nothing _ _⟩
  | some stepper =>
    rw [executed, installed]
    exact sound.tells_stepped installed _ trace

/-- An operation tells of the statements that it executes. -/
theorem Sound.tells_perform (sound : s.Sound) (operation : Operation) (trace : Trace)
    (tells : operation.tellsAll = true) :
    let done := s.perform operation trace
    ∃ events, done.trace.toList = trace.toList ++ events ∧
      Tells (s.executed done.answer) s.bank s.ledger events done.session.bank done.session.ledger := by
  intro done
  have traced : operation ≠ .step := by
    rintro rfl
    cases tells
  have active : operation.drives = true ∨ operation.manages = true := by
    cases operation <;> simp_all [Operation.tellsAll]
  rcases active with drives | manages
  · obtain ⟨⟨generation, session⟩, seen⟩ := sound.takes_perform operation trace drives traced
    rw [session, seen]
    exact sound.tells_driven operation trace drives
  · obtain ⟨nothing, seen, bank, ledger⟩ := s.perform_of_manages operation trace manages
    rw [executed_of_nothing nothing, seen, bank, ledger]
    exact ⟨[], (List.append_nil _).symm, .nothing _ _⟩

theorem Sound.tells_after (sound : s.Sound) (trace : Trace) (operations : List Operation)
    (told : ∀ operation ∈ operations, operation.tellsAll = true) :
    let now := s.after trace operations
    ∃ events, now.2.toList = trace.toList ++ events ∧
      Tells (s.executions trace operations) s.bank s.ledger events now.1.bank now.1.ledger := by
  induction operations generalizing s trace with
  | nil => exact ⟨[], (List.append_nil _).symm, .nothing _ _⟩
  | cons operation operations ih =>
    obtain ⟨first, tells⟩ := List.forall_mem_cons.mp told
    obtain ⟨events, shown, done⟩ := sound.tells_perform operation trace first
    obtain ⟨later, onward, others⟩ := ih (sound.perform operation trace).sound
      (s.perform operation trace).trace tells
    refine ⟨events ++ later, ?_, done.append others⟩
    rw [after_cons, onward, shown, List.append_assoc]

end Session

/-- A history in which nothing but traced branches changes the predictor: its branches, taken from the
trace in order and replayed on a fresh bank and an empty account, give the bank and the account of
the session, and the prediction that stands behind each branch in the trace. The trace is made of
one group for each executed statement. -/
theorem trace_replays_predictor (geometry : Geometry) (seed : UInt64)
    (operations : List Session.Operation)
    (told : ∀ operation ∈ operations, operation.tellsAll = true) :
    let origin := Session.start geometry seed
    let now := origin.after Array.empty operations
    let events := now.2.toList
    let branches := events.filterMap TraceEvent.branch
    (Bank.fresh geometry).after .empty branches = (now.1.bank, now.1.ledger) ∧
      followUps events =
        List.zipWith (fun event prediction => some (prediction.event event)) branches
          ((Bank.fresh geometry).predictions .empty branches) ∧
      ∃ groups, List.Forall₂ Execution.Told (origin.executions Array.empty operations) groups ∧
        events = groups.flatten := by
  intro origin now
  obtain ⟨events, shown, tells⟩ :=
    (Session.sound_start geometry seed).tells_after Array.empty operations told
  have seen : now.2.toList = events := shown
  rw [seen]
  exact ⟨tells.replayed, tells.predicted, tells.groups⟩

/-- Single steps, a batch, tickets and a cancelled run, with a refused program and a new one between. -/
theorem trace_replays_predictor_recompiled :
    let nested : Program :=
      ⟨[.guarded (.ident "i") [.guarded (.number 0) [] ⟨2, 3⟩] ⟨1, 4⟩]⟩
    let other : Program := ⟨[.bind "a" (.ident "i") ⟨1, 1⟩, .guarded (.ident "a") [] ⟨2, 3⟩]⟩
    let unbound : Program := ⟨[.bind "a" (.ident "z") ⟨1, 1⟩]⟩
    let operations : List Session.Operation :=
      [.compile nested, .stepTraced, .run .nextBranch 4, .compile unbound, .beginAutoRun 3,
        .advanceAutoRun ⟨2, 3⟩, .runPaced ⟨2, 2⟩ (.granting 0), .runPaced ⟨2, 2⟩ .unhurried,
        .compile other, .run .iterationEnd 9, .resetExecution]
    let now := (Session.start .default 0).after Array.empty operations
    let branches := now.2.toList.filterMap TraceEvent.branch
    (∀ operation ∈ operations, operation.tellsAll = true) ∧
      branches = [⟨1, false⟩, ⟨1, true⟩, ⟨2, false⟩, ⟨1, true⟩, ⟨2, false⟩] ∧
      (Bank.fresh .default).after .empty branches = (now.1.bank, now.1.ledger) := by
  intro nested other unbound operations now branches
  have told : ∀ operation ∈ operations, operation.tellsAll = true := by decide
  obtain ⟨replayed, -⟩ := trace_replays_predictor .default 0 operations told
  exact ⟨told, by decide +kernel, replayed⟩

end BranchLab
