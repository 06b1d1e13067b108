import BranchLab.Proofs.Session.Operations
import BranchLab.Proofs.Stepper.Frames

/-! Evaluation never fails in a program that passed the scope check: not in the steps of a stepper,
however it is stepped and reset, and not in an operation of a session, whatever was asked before. -/

namespace BranchLab

namespace Session

def Sound (s : Session) : Prop := ∀ stepper, s.stepper = some stepper → stepper.Sound

end Session

structure Traced.Safe {α : Type} (done : Traced α) : Prop where
  sound : done.session.Sound
  valued : ∀ error, done.answer ≠ .error (.eval error)

theorem Traced.Safe.map {α β : Type} {done : Traced α} (safe : done.Safe) (f : α → β) :
    (done.map f).Safe := by
  refine ⟨safe.sound, fun error failed => safe.valued error ?_⟩
  obtain ⟨answer, session, trace⟩ := done
  cases answer with
  | error cause => exact congrArg Except.error (Except.error.inj failed)
  | ok value => cases failed

namespace Session

variable {s : Session}

theorem sound_start (geometry : Geometry) (seed : UInt64) : (start geometry seed).Sound := by
  intro stepper installed
  cases installed

theorem Sound.supersede (sound : s.Sound) : s.supersede.Sound := sound

theorem sound_edit (s : Session) : s.edit.Sound := by
  intro stepper installed
  cases installed

theorem safe_untraced {α : Type} (reply : α → Reply) {done : Except SessionError α × Session}
    (trace : Trace) (sound : done.2.Sound) (valued : ∀ error, done.1 ≠ .error (.eval error)) :
    (untraced reply done trace).Safe := by
  have safe : Traced.Safe ⟨done.1, done.2, trace⟩ := ⟨sound, valued⟩
  exact safe.map reply

/-- A program is installed only if it passes the check. -/
theorem Sound.compile (sound : s.Sound) (program : Program) :
    (s.compile program).2.Sound ∧ ∀ error, (s.compile program).1 ≠ .error (.eval error) := by
  simp only [Session.compile]
  cases built : Stepper.ofProgram program s.seeds.next.1 with
  | error error => exact ⟨sound, by simp⟩
  | ok stepper =>
    refine ⟨?_, by simp⟩
    intro installed same
    cases same
    exact Stepper.sound_ofProgram built

theorem Sound.resetExecution (sound : s.Sound) :
    s.resetExecution.2.Sound ∧ ∀ error, s.resetExecution.1 ≠ .error (.eval error) := by
  rw [Session.resetExecution]
  cases installed : s.stepper with
  | none => exact ⟨sound, by simp⟩
  | some stepper =>
    refine ⟨?_, by simp⟩
    intro again same
    cases same
    exact (sound stepper installed).reset

theorem Sound.configure (sound : s.Sound) (tableSize : Int) (mode : String) (historyBits : Int) :
    (s.configure tableSize mode historyBits).2.Sound ∧
      ∀ error, (s.configure tableSize mode historyBits).1 ≠ .error (.eval error) := by
  rw [Session.configure]
  cases Geometry.ofInput tableSize mode historyBits with
  | error error => exact ⟨sound, by simp⟩
  | ok geometry => exact ⟨sound, by simp⟩

theorem Sound.beginAutoRun (sound : s.Sound) (steps : Nat) :
    (s.beginAutoRun steps).2.Sound ∧ ∀ error, (s.beginAutoRun steps).1 ≠ .error (.eval error) := by
  rw [Session.beginAutoRun]
  split
  · exact ⟨sound.supersede, by simp⟩
  · exact ⟨sound, by simp⟩

theorem Sound.stepTraced (sound : s.Sound) (trace : Trace) : (s.stepTraced trace).Safe := by
  cases installed : s.stepper with
  | none =>
    rw [stepTraced_of_none installed]
    exact ⟨sound, by simp⟩
  | some stepper =>
    obtain ⟨outcome, answered, -, next, -⟩ := (sound stepper installed).step
    have stepped : stepper.step = (.ok outcome, stepper.step.2) := Prod.ext answered rfl
    rw [stepTraced_of_some installed stepped]
    refine ⟨?_, by simp⟩
    intro other same
    cases same
    exact next

theorem Sound.runFrom (sound : s.Sound) (boundary : RunBoundary) (left : Nat) (sum : RunSummary)
    (trace : Trace) : (runFrom boundary left sum s trace).Safe := by
  induction left generalizing s sum trace with
  | zero => exact ⟨sound, by simp [Session.runFrom]⟩
  | succ left ih =>
    have safe := sound.stepTraced trace
    rw [Session.runFrom]
    split
    · rename_i error next events stepped
      rw [stepped] at safe
      exact ⟨safe.sound, fun cause same => safe.valued cause (congrArg _ (Except.error.inj same))⟩
    · rename_i step next events stepped
      rw [stepped] at safe
      split
      · exact ⟨safe.sound, by simp⟩
      · dsimp only
        split
        · exact ⟨safe.sound, by simp⟩
        · exact ih safe.sound _ _

theorem Sound.advanceAutoRun (sound : s.Sound) (ticket : Ticket) (trace : Trace) :
    (s.advanceAutoRun ticket trace).Safe := by
  have safe := sound.stepTraced trace
  rw [Session.advanceAutoRun]
  split
  · exact ⟨sound, by simp⟩
  · split
    · exact ⟨sound, by simp⟩
    · split
      · rename_i error next events stepped
        rw [stepped] at safe
        exact ⟨safe.sound, fun cause same => safe.valued cause (congrArg _ (Except.error.inj same))⟩
      · rename_i step next events stepped
        rw [stepped] at safe
        split
        · exact ⟨safe.sound, by simp⟩
        · exact ⟨safe.sound, by simp⟩

theorem Sound.runPacedFrom (sound : s.Sound) (pacer : Pacer) (turns : Nat) (run : PacedRun)
    (ticket : Ticket) (trace : Trace) : (runPacedFrom pacer turns run s ticket trace).Safe := by
  induction turns generalizing s run ticket trace with
  | zero => exact ⟨sound, by simp [Session.runPacedFrom]⟩
  | succ turns ih =>
    have safe := sound.advanceAutoRun ticket trace
    rw [Session.runPacedFrom]
    split
    · rename_i error next events advanced
      rw [advanced] at safe
      exact ⟨safe.sound, fun cause same => safe.valued cause (congrArg _ (Except.error.inj same))⟩
    · rename_i rest next events advanced
      rw [advanced] at safe
      exact ⟨safe.sound, by simp⟩
    · rename_i step rest next events advanced
      rw [advanced] at safe
      split
      · exact ⟨safe.sound, by simp⟩
      · split
        · exact ⟨safe.sound.supersede, by simp⟩
        · exact ih safe.sound _ _ _

theorem Sound.perform (sound : s.Sound) (operation : Operation) (trace : Trace) :
    (s.perform operation trace).Safe := by
  cases operation with
  | compile program =>
    obtain ⟨next, valued⟩ := sound.compile program
    exact safe_untraced _ trace next valued
  | edit => exact ⟨sound_edit s, by simp [Session.perform]⟩
  | resetExecution =>
    obtain ⟨next, valued⟩ := sound.resetExecution
    exact safe_untraced _ trace next valued
  | configure tableSize mode historyBits =>
    obtain ⟨next, valued⟩ := sound.configure tableSize mode historyBits
    exact safe_untraced _ trace next valued
  | reconfigure geometry => exact ⟨sound, by simp [Session.perform]⟩
  | resetAccuracy => exact ⟨sound, by simp [Session.perform]⟩
  | step =>
    obtain ⟨next, valued⟩ := sound.stepTraced (Array.empty : Trace)
    exact safe_untraced _ trace next valued
  | stepTraced => exact (sound.stepTraced trace).map _
  | run boundary most => exact (sound.runFrom boundary most {} trace).map _
  | beginAutoRun steps =>
    obtain ⟨next, valued⟩ := sound.beginAutoRun steps
    exact safe_untraced _ trace next valued
  | cancelAutoRun => exact ⟨sound.supersede, by simp [Session.perform]⟩
  | advanceAutoRun ticket => exact (sound.advanceAutoRun ticket trace).map _
  | runPaced ticket pacer => exact (sound.runPacedFrom pacer _ {} ticket trace).map _

theorem Sound.after (sound : s.Sound) (trace : Trace) (operations : List Operation) :
    (s.after trace operations).1.Sound := by
  induction operations generalizing s trace with
  | nil => exact sound
  | cons operation operations ih => exact ih (sound.perform operation trace).sound _

end Session

/-- A program that passes the scope check never meets an unbound name, however it is stepped and reset,
and executes a statement at every step unless it has none; so no operation of a session, whatever
was asked before, answers a failed evaluation. -/
theorem evaluation_never_fails :
    (∀ (program : Program) (seed : UInt64), program.check (.ofIteration 0) = .ok () →
      ∃ stepper, Stepper.ofProgram program seed = .ok stepper ∧
        ∀ calls, ∀ answer ∈ stepper.answers calls, ∃ outcome, answer = .ok outcome ∧
          (outcome = .idle ↔ program.statements = [])) ∧
    ∀ (geometry : Geometry) (seed : UInt64) (before : Trace) (history : List Session.Operation)
      (operation : Session.Operation) (trace : Trace) (error : EvalError),
      (((Session.start geometry seed).after before history).1.perform operation trace).answer ≠
        .error (.eval error) := by
  constructor
  · intro program seed checked
    have built := (Stepper.ofProgram_eq_ok program seed _).mpr ⟨checked, rfl⟩
    have sound := Stepper.sound_ofProgram built
    exact ⟨_, built, fun calls => sound.answers calls⟩
  · intro geometry seed before history operation trace error
    have sound := (Session.sound_start geometry seed).after before history
    exact (sound.perform operation trace).valued error

/-- A draw decides whether the inner block is entered, and the inner block shadows a name. -/
theorem evaluation_never_fails_guarded_draw :
    let program : Program :=
      ⟨[.bind "x" (.random (.ident "i")) ⟨1, 1⟩,
        .guarded (.binary .lt (.ident "x") (.number 3))
          [.bind "x" (.unary .not (.ident "x")) ⟨3, 3⟩, .guarded (.ident "x") [] ⟨4, 5⟩] ⟨2, 6⟩]⟩
    program.check (.ofIteration 0) = .ok () ∧
      ∃ stepper, Stepper.ofProgram program 7 = .ok stepper ∧
        ∀ calls, ∀ answer ∈ stepper.answers calls, ∃ outcome, answer = .ok outcome ∧
          (outcome = .idle ↔ program.statements = []) :=
  ⟨rfl, evaluation_never_fails.1 _ 7 rfl⟩

end BranchLab
