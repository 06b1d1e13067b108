import BranchLab.Proofs.Workbench.LiveRun

/-! Texts that a workbench refuses. A malformed text changes nothing. A text that is read and then fails
the scope check leaves the program, the predictor and the account as they are too, but the live run
is gone by then, and nothing else than that keeps it from going on. -/

namespace BranchLab

namespace Session

theorem stepTraced_seeds (s : Session) (seeds : Chance.Generator) (trace : Trace) :
    { s with seeds }.stepTraced trace = ⟨(s.stepTraced trace).answer,
      { (s.stepTraced trace).session with seeds }, (s.stepTraced trace).trace⟩ := by
  obtain ⟨slot, bank, ledger, generation, others⟩ := s
  cases slot with
  | none => rfl
  | some stepper =>
    simp only [stepTraced]
    split
    · rfl
    · split <;> rfl

theorem advanceAutoRun_seeds (s : Session) (seeds : Chance.Generator) (ticket : Ticket)
    (trace : Trace) :
    { s with seeds }.advanceAutoRun ticket trace = ⟨(s.advanceAutoRun ticket trace).answer,
      { (s.advanceAutoRun ticket trace).session with seeds },
      (s.advanceAutoRun ticket trace).trace⟩ := by
  simp only [advanceAutoRun, stepTraced_seeds]
  generalize s.stepTraced trace = stepped
  obtain ⟨answer, next, seen⟩ := stepped
  split
  · rfl
  split
  · rfl
  cases answer with
  | error error => rfl
  | ok step =>
    dsimp only
    split <;> rfl

end Session

namespace Workbench

variable {w : Workbench}

theorem autoStep_seeds (w : Workbench) (seeds : Chance.Generator) (number : UInt32) :
    ({ w with session := { w.session with seeds } }.autoStep number).1 = (w.autoStep number).1 := by
  obtain ⟨session, live, lastNumber⟩ := w
  cases live with
  | none => rfl
  | some run =>
    simp only [autoStep, Session.advanceAutoRun_seeds]
    generalize session.advanceAutoRun run.ticket Array.empty = advanced
    obtain ⟨answer, next, seen⟩ := advanced
    split
    · rfl
    cases answer with
    | error error => cases error <;> rfl
    | ok found =>
      obtain ⟨step, ticket⟩ := found
      cases step <;> rfl

/-- A refused text leaves the program, the predictor, the account and the generation as they are. If it
is malformed, nothing changes. If it is read and fails the scope check, no run is live any more,
though with the live run in its place every number would show what it would have shown. So a number
shows the same as without the text exactly if that is malformed or the number had nothing to show. -/
theorem refused_text_drops_the_run_once_read (seed : UInt64) (operations : List Operation)
    (text : String) (error : WorkbenchError)
    (refused : (((start seed).after operations).compile text).1 = .error error) :
    let now := (start seed).after operations
    let later := (now.compile text).2
    (later.session.stepper = now.session.stepper ∧ later.session.bank = now.session.bank ∧
      later.session.ledger = now.session.ledger ∧
      later.session.generation = now.session.generation ∧ later.lastNumber = now.lastNumber) ∧
    (∀ cause, Program.ofText text = .error cause → error = .malformed cause ∧ later = now) ∧
    (∀ program, Program.ofText text = .ok program →
      (∃ cause, program.check (.ofIteration 0) = .error cause ∧ error = .session (.scope cause)) ∧
      later.session = { now.session with seeds := now.session.seeds.next.2 } ∧
      (∀ number, later.autoStep number = (.ok none, later)) ∧
      ∀ number, ({ later with live := now.live }.autoStep number).1 = (now.autoStep number).1) ∧
    ∀ number, (later.autoStep number).1 = (now.autoStep number).1 ↔
      (∃ cause, Program.ofText text = .error cause) ∨ ¬now.session.Busy ∨
        ∀ ticket, now.live = some ⟨number, ticket⟩ → ticket.remaining = 0 := by
  intro now later
  have current : now.Current := (current_start seed).after operations
  rcases now.compile_cases text with
    ⟨cause, misread, same⟩ | ⟨program, cause, read, rejected, same⟩ | ⟨next, same, -⟩
  · have unchanged : later = now := congrArg Prod.snd same
    have answer := (congrArg Prod.fst same).symm.trans refused
    cases answer
    rw [unchanged]
    refine ⟨⟨rfl, rfl, rfl, rfl, rfl⟩, fun _ found => ?_, fun _ found => ?_,
      fun number => ⟨fun _ => .inl ⟨cause, misread⟩, fun _ => rfl⟩⟩
    · cases misread.symm.trans found
      exact ⟨rfl, rfl⟩
    · cases misread.symm.trans found
  · have dropped : later = { now with
        live := none, session := { now.session with seeds := now.session.seeds.next.2 } } :=
      congrArg Prod.snd same
    have answer := (congrArg Prod.fst same).symm.trans refused
    cases answer
    have ended (number : UInt32) : later.autoStep number = (.ok none, later) :=
      autoStep_of_none (by rw [dropped]) number
    refine ⟨by rw [dropped]; exact ⟨rfl, rfl, rfl, rfl, rfl⟩, fun _ found => ?_, fun _ found => ?_,
      fun number => ?_⟩
    · cases read.symm.trans found
    · cases read.symm.trans found
      refine ⟨⟨cause, rejected, rfl⟩, by rw [dropped], ended, fun number => ?_⟩
      rw [dropped]
      exact autoStep_seeds now _ number
    · rw [ended, eq_comm, current.silent_iff number, read]
      exact ⟨.inr, fun alike => alike.elim (by simp) fun silent => silent⟩
  · cases (congrArg Prod.fst same).symm.trans refused

theorem ofText_unbound :
    Program.ofText "let b = z;" = .ok ⟨[.bind "b" (.ident "z") ⟨1, 1⟩]⟩ := by decide +kernel

theorem unbound_name_drops (w : Workbench) :
    (w.compile "let b = z;").1 = .error (.session (.scope ⟨"z", 1⟩)) ∧
      (w.compile "let b = z;").2.session.stepper = w.session.stepper ∧
      ∀ number, ((w.compile "let b = z;").2.autoStep number).1 = .ok none := by
  let program : Program := ⟨[.bind "b" (.ident "z") ⟨1, 1⟩]⟩
  have rejected : program.check (.ofIteration 0) = .error ⟨"z", 1⟩ := rfl
  rw [compile_of_unscoped ofText_unbound rejected]
  exact ⟨rfl, rfl, fun number => by rw [autoStep_of_none rfl]⟩

/-- A malformed text comes before the first step of a run, and one with an unbound name after it. -/
theorem refused_text_drops_the_run_once_read_unbound :
    let operations : List Operation :=
      [.compile "let a = 1;", .beginAutoRun 3, .compile "let", .autoStep 1]
    let now := (start 1).after operations
    let later := (now.compile "let b = z;").2
    (now.compile "let b = z;").1 = .error (.session (.scope ⟨"z", 1⟩)) ∧
      later.session.stepper = now.session.stepper ∧ (later.autoStep 1).1 = .ok none ∧
      ({ later with live := now.live }.autoStep 1).1 = (now.autoStep 1).1 := by
  intro operations
  obtain ⟨refused, -⟩ := unbound_name_drops ((start 1).after operations)
  obtain ⟨⟨stepper, -⟩, -, dropped, -⟩ :=
    refused_text_drops_the_run_once_read 1 operations "let b = z;" _ refused
  obtain ⟨-, -, ended, restored⟩ := dropped _ ofText_unbound
  refine ⟨refused, stepper, ?_, restored 1⟩
  rw [ended]

/-- The run has two steps left and the program is still installed, and no step is shown any more. -/
theorem unbound_name_stops_live_run :
    let operations : List Operation := [.compile "let a = 1;", .beginAutoRun 3, .autoStep 1]
    let now := (start 1).after operations
    let later := (now.compile "let b = z;").2
    now.session.isCompiled = true ∧ now.live = some ⟨1, ⟨2, 2⟩⟩ ∧
      (∃ error, (now.compile "let b = z;").1 = .error error) ∧
      later.session.stepper = now.session.stepper ∧ (later.autoStep 1).1 = .ok none ∧
      (now.autoStep 1).1 =
        .ok (some ⟨⟨.executed ⟨1, 1⟩ none (.newIteration 2), none⟩, 2, some ⟨1, 1⟩⟩) := by
  intro operations
  have compiled : ((start 1).after operations).session.isCompiled = true := by decide +kernel
  have live : ((start 1).after operations).live = some ⟨1, ⟨2, 2⟩⟩ := by decide +kernel
  have shown : (((start 1).after operations).autoStep 1).1 =
      .ok (some ⟨⟨.executed ⟨1, 1⟩ none (.newIteration 2), none⟩, 2, some ⟨1, 1⟩⟩) := by decide +kernel
  obtain ⟨refused, kept, ended⟩ := unbound_name_drops ((start 1).after operations)
  exact ⟨compiled, live, ⟨_, refused⟩, kept, ended 1, shown⟩

end Workbench
end BranchLab
