import BranchLab.Workbench
import BranchLab.Proofs.Session.Refusals
import BranchLab.Proofs.Stepper.Draws

/-! Everything that can be asked of a workbench, as data. Each operation asks its session for one thing
at most, so what holds of all histories of a session holds of the one in a workbench. Which
operations end the live run is read off what was asked and what was answered. -/

namespace BranchLab
namespace Workbench

inductive Operation where
  | compile (text : String)
  | edit
  | restart
  | step
  | beginAutoRun (steps : Nat)
  | autoStep (number : UInt32)
  | stop
  | configure (tableSize : Int) (mode : String) (historyBits : Int)
  | resetAccuracy

inductive Reply where
  | done
  | stepped (report : StepReport)
  | begun (number : UInt32)
  | shown (report : Option StepReport)

def replying {α : Type} (reply : α → Reply) (done : Except WorkbenchError α × Workbench) :
    Except WorkbenchError Reply × Workbench :=
  (done.1.map reply, done.2)

def perform (w : Workbench) : Operation → Except WorkbenchError Reply × Workbench
  | .compile text => replying (fun _ => .done) (w.compile text)
  | .edit => (.ok .done, w.edit)
  | .restart => replying (fun _ => .done) w.restart
  | .step => replying .stepped w.step
  | .beginAutoRun steps => replying .begun (w.beginAutoRun steps)
  | .autoStep number => replying .shown (w.autoStep number)
  | .stop => (.ok .done, w.stop)
  | .configure tableSize mode historyBits =>
    replying (fun _ => .done) (w.configure tableSize mode historyBits)
  | .resetAccuracy => (.ok .done, w.resetAccuracy)

def after (w : Workbench) (operations : List Operation) : Workbench :=
  operations.foldl (fun w operation => (w.perform operation).2) w

def record (w : Workbench) : List Operation → List (Operation × Except WorkbenchError Reply)
  | [] => []
  | operation :: rest =>
    (operation, (w.perform operation).1) :: (w.perform operation).2.record rest

def asks (w : Workbench) : Operation → Option Session.Operation
  | .compile text => (Program.ofText text).toOption.map .compile
  | .edit => some .edit
  | .restart => some .resetExecution
  | .step => some .step
  | .beginAutoRun steps => some (.beginAutoRun steps)
  | .autoStep number =>
    match w.live with
    | none => none
    | some run => if run.number = number then some (.advanceAutoRun run.ticket) else none
  | .stop => some .cancelAutoRun
  | .configure tableSize mode historyBits => some (.configure tableSize mode historyBits)
  | .resetAccuracy => some .resetAccuracy

section Histories

variable (w : Workbench)

theorem after_append (before rest : List Operation) :
    w.after (before ++ rest) = (w.after before).after rest :=
  List.foldl_append

theorem record_append (before rest : List Operation) :
    w.record (before ++ rest) = w.record before ++ (w.after before).record rest := by
  induction before generalizing w with
  | nil => rfl
  | cons operation before ih =>
    rw [List.cons_append, record, record, ih]
    rfl

end Histories

section Equations

variable {w : Workbench}

theorem compile_of_malformed {text : String} {error : Source.SyntaxError}
    (misread : Program.ofText text = .error error) :
    w.compile text = (.error (.malformed error), w) := by
  simp only [compile, misread]

theorem compile_of_unscoped {text : String} {program : Program} {error : ScopeError}
    (read : Program.ofText text = .ok program)
    (rejected : program.check (.ofIteration 0) = .error error) :
    w.compile text = (.error (.session (.scope error)),
      { w with live := none, session := { w.session with seeds := w.session.seeds.next.2 } }) := by
  simp only [compile, read, settle, Session.compile_of_rejected w.session rejected]
  rfl

theorem compile_of_verified {text : String} {program : Program}
    (read : Program.ofText text = .ok program)
    (verified : program.check (.ofIteration 0) = .ok ()) :
    ∃ next, w.compile text = (.ok (), next) ∧ next.live = none := by
  have built := (Stepper.ofProgram_eq_ok program w.session.seeds.next.1 _).mpr ⟨verified, rfl⟩
  simp only [compile, read, settle, Session.compile, built]
  exact ⟨_, rfl, rfl⟩

/-- A text is malformed, or read and refused by the scope check, or installed. -/
theorem compile_cases (w : Workbench) (text : String) :
    (∃ error, Program.ofText text = .error error ∧
      w.compile text = (.error (.malformed error), w)) ∨
    (∃ program error, Program.ofText text = .ok program ∧
      program.check (.ofIteration 0) = .error error ∧ w.compile text =
        (.error (.session (.scope error)),
          { w with live := none, session := { w.session with seeds := w.session.seeds.next.2 } })) ∨
    ∃ next, w.compile text = (.ok (), next) ∧ next.live = none := by
  cases read : Program.ofText text with
  | error error => exact .inl ⟨error, rfl, compile_of_malformed read⟩
  | ok program =>
    cases checked : program.check (.ofIteration 0) with
    | error error => exact .inr (.inl ⟨program, error, rfl, checked, compile_of_unscoped read checked⟩)
    | ok done => exact .inr (.inr (compile_of_verified read checked))

theorem restart_of_compiled (compiled : w.session.isCompiled = true) :
    ∃ next, w.restart = (.ok (), next) ∧ next.live = none := by
  obtain ⟨stepper, installed⟩ := Option.isSome_iff_exists.mp compiled
  simp only [restart, settle, Session.resetExecution, installed]
  exact ⟨_, rfl, rfl⟩

theorem restart_of_absent (absent : w.session.stepper = none) :
    w.restart = (.error (.session .notVerified), { w with live := none }) := by
  simp only [restart, settle, Session.resetExecution, absent]
  rfl

theorem beginAutoRun_of_compiled (compiled : w.session.isCompiled = true) (steps : Nat) :
    w.beginAutoRun steps = (.ok (w.lastNumber + 1), ⟨w.session.supersede,
      some ⟨w.lastNumber + 1, ⟨w.session.generation + 1, steps⟩⟩, w.lastNumber + 1⟩) := by
  simp only [beginAutoRun, Session.beginAutoRun, compiled]
  rfl

theorem beginAutoRun_of_absent (absent : ¬w.session.isCompiled = true) (steps : Nat) :
    w.beginAutoRun steps = (.error (.session .notVerified), w) := by
  simp only [beginAutoRun, Session.beginAutoRun, absent]
  rfl

theorem autoStep_of_other {number : UInt32} (other : ∀ run, w.live = some run → run.number ≠ number) :
    w.autoStep number = (.ok none, w) := by
  rw [autoStep]
  split
  · rfl
  · rename_i run live
    rw [if_pos (other run live)]

theorem autoStep_of_none (idle : w.live = none) (number : UInt32) :
    w.autoStep number = (.ok none, w) :=
  autoStep_of_other fun run live => by cases idle.symm.trans live

/-- A number is that of the live run, or nothing happens for it. -/
theorem live_or_silent (w : Workbench) (number : UInt32) :
    (∃ run, w.live = some run ∧ run.number = number) ∨
      ((∀ run, w.live = some run → run.number ≠ number) ∧ w.autoStep number = (.ok none, w)) := by
  by_cases held : ∃ run, w.live = some run ∧ run.number = number
  · exact .inl held
  · have other : ∀ run, w.live = some run → run.number ≠ number :=
      fun run live same => held ⟨run, live, same⟩
    exact .inr ⟨other, autoStep_of_other other⟩

theorem session_autoStep_of_live {run : LiveRun} (live : w.live = some run) :
    (w.autoStep run.number).2.session =
      (w.session.advanceAutoRun run.ticket Array.empty).session := by
  simp only [autoStep, live, ne_eq, not_true_eq_false, if_false]
  split <;> rename_i advanced <;> rw [advanced]

end Equations

theorem session_perform (w : Workbench) (operation : Operation) :
    (w.perform operation).2.session = ((w.asks operation).elim w.session fun asked =>
      (w.session.perform asked Array.empty).session) := by
  cases operation with
  | compile text =>
    simp only [perform, replying, compile, asks]
    cases Program.ofText text <;> rfl
  | autoStep number =>
    rcases w.live_or_silent number with ⟨run, live, rfl⟩ | ⟨other, silent⟩
    · have asked : w.asks (.autoStep run.number) = some (.advanceAutoRun run.ticket) := by
        simp [asks, live]
      rw [asked]
      exact session_autoStep_of_live live
    · have unasked : w.asks (.autoStep number) = none := by
        cases live : w.live with
        | none => simp [asks, live]
        | some run => simp [asks, live, other run live]
      rw [unasked, perform, silent]
      rfl
  | edit | restart | step | stop | configure | resetAccuracy => rfl
  | beginAutoRun steps =>
    simp only [perform, replying, beginAutoRun, asks]
    split <;> rename_i begun <;> simp [Session.perform, Session.untraced, begun]

end Workbench
end BranchLab
