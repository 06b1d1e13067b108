import BranchLab.Proofs.Stepper.Draws
import BranchLab.Proofs.Stepper.Positions

/-! The start of an iteration, and what a program without draws does from there on. The position is at
the first statement only when an iteration was begun, and then nothing is left of what was executed
before but the number of the iteration and the generator, on which such a program does not depend. -/

namespace BranchLab

open Chance (Generator)

namespace Stepper

structure View where
  iteration : UInt64
  lines : Option LineRange
  frames : List Bindings

def view (s : Stepper) : View := ⟨s.iteration, s.currentLines, s.frames.map Frame.bindings⟩

/-- The last of some calls began an iteration: nothing was called, it was a reset, or a step that
reports a new iteration. -/
def Begins (start : Stepper) (calls : List Call) : Prop :=
  calls = [] ∨ ∃ earlier, calls = earlier ++ [.reset] ∨ (calls = earlier ++ [.step] ∧
    ∃ outcome, (start.after earlier).step.1 = .ok outcome ∧ outcome.startedIteration = true)

section Positions

variable {s : Stepper}

theorem position_eq_first : s.position = [0] ↔ s.below = [] ∧ s.top.index = 0 := by
  rw [position, path_cons]
  constructor
  · intro first
    obtain ⟨outside, index⟩ := List.append_inj' (first.trans (List.nil_append [0]).symm) rfl
    exact ⟨by simpa [path] using outside, by simpa using index⟩
  · rintro ⟨outside, index⟩
    simp [outside, index, path]

theorem position_atStart (program : Program) (iteration : UInt64) (g : Generator) :
    (atStart program iteration g).position = [0] := rfl

/-- A step that does not start an iteration leaves the position elsewhere than at the first statement. -/
theorem Sound.begins_or_not (sound : s.Sound) (filled : s.program.statements ≠ []) :
    ∃ outcome, s.step.1 = .ok outcome ∧
      ((outcome.startedIteration = false ∧ s.step.2.position ≠ [0]) ∨
        (outcome.startedIteration = true ∧
          s.step.2 = atStart s.program s.step.2.iteration s.step.2.generator)) := by
  rcases sound.step_cases filled with
    ⟨cond, body, lines, g, -, -, -, stepped⟩ | ⟨bindings, g, lines, branch, -, stepped⟩
  · rw [stepped]
    refine ⟨_, rfl, .inl ⟨rfl, fun first => ?_⟩⟩
    cases (position_eq_first.mp first).1
  · rw [stepped]
    refine ⟨_, rfl, ?_⟩
    rw [advance]
    split
    · rename_i next rest left moved
      obtain ⟨inner, frame, -, rfl, -⟩ := moveOn_eq_some moved
      refine .inl ⟨by by_cases none : left = 0 <;> simp [none, StepOutcome.startedIteration], ?_⟩
      exact fun first => absurd (position_eq_first.mp first).2 (Nat.succ_ne_zero frame.index)
    · exact .inr ⟨rfl, rfl⟩

end Positions

section Histories

variable {start : Stepper}

/-- At the first statement everything is as it is when an iteration is begun. -/
theorem Sound.eq_atStart (sound : start.Sound) (fresh : start.position = [0] →
      start = atStart start.program start.iteration start.generator) (calls : List Call)
    (first : (start.after calls).position = [0]) :
    start.after calls =
      atStart start.program (start.after calls).iteration (start.after calls).generator := by
  induction calls generalizing start with
  | nil => exact fresh first
  | cons call calls ih =>
    obtain ⟨steady, same⟩ := sound.perform call
    have next : (start.perform call).position = [0] → start.perform call =
        atStart (start.perform call).program (start.perform call).iteration
          (start.perform call).generator := by
      cases call with
      | reset => exact fun _ => rfl
      | step =>
        intro begun
        by_cases empty : start.program.statements = []
        · have idle : start.perform .step = start :=
            congrArg Prod.snd (step_of_idle (sound.current?_eq_none.mpr empty))
          rw [idle] at begun ⊢
          exact fresh begun
        · obtain ⟨outcome, -, ⟨-, elsewhere⟩ | ⟨-, reached⟩⟩ := sound.begins_or_not empty
          · exact absurd begun elsewhere
          · rw [same]
            exact reached
    rw [← same]
    exact ih steady next first

/-- The position is at the first statement just after calls of which the last began an iteration. -/
theorem Sound.position_eq_first_iff (sound : start.Sound) (begun : start.position = [0])
    (filled : start.program.statements ≠ []) (calls : List Call) :
    (start.after calls).position = [0] ↔ start.Begins calls := by
  rcases calls.eq_nil_or_concat' with rfl | ⟨earlier, call, rfl⟩
  · exact ⟨fun _ => .inl rfl, fun _ => begun⟩
  have last : start.after (earlier ++ [call]) = (start.after earlier).perform call :=
    List.foldl_append
  have nonempty : earlier ++ [call] ≠ [] := List.append_ne_nil_of_right_ne_nil _ (List.cons_ne_nil _ _)
  obtain ⟨steady, same⟩ := sound.after earlier
  rw [last, Begins, or_iff_right nonempty]
  cases call with
  | reset => exact ⟨fun _ => ⟨earlier, .inl rfl⟩, fun _ => rfl⟩
  | step =>
    obtain ⟨outcome, answered, ⟨stays, elsewhere⟩ | ⟨starts, reached⟩⟩ :=
      steady.begins_or_not (same ▸ filled)
    · refine ⟨fun first => absurd first elsewhere, ?_⟩
      rintro ⟨others, ends | ⟨ends, other, again, starts⟩⟩
      · cases (List.append_inj' ends rfl).2
      · obtain ⟨rfl, -⟩ := List.append_inj' ends rfl
        cases answered.symm.trans again
        cases stays.symm.trans starts
    · refine ⟨fun _ => ⟨earlier, .inr ⟨rfl, outcome, answered, starts⟩⟩, fun _ => ?_⟩
      exact (congrArg position reached).trans (position_atStart ..)

/-- Without statements there is nowhere else to be. -/
theorem Sound.position_of_empty (sound : start.Sound) (begun : start.position = [0])
    (empty : start.program.statements = []) (calls : List Call) :
    (start.after calls).position = [0] := by
  induction calls generalizing start with
  | nil => exact begun
  | cons call calls ih =>
    obtain ⟨steady, same⟩ := sound.perform call
    refine ih steady ?_ (same ▸ empty)
    cases call with
    | step =>
      have idle := step_of_idle (sound.current?_eq_none.mpr empty)
      exact (congrArg (fun done => position done.2) idle).trans begun
    | reset => rfl

end Histories

section Seeds

variable {s : Stepper}

theorem perform_seeded (drawless : s.program.draws = false) (g : Generator) (call : Call) :
    (s.seeded g).perform call = (s.perform call).seeded g := by
  cases call with
  | step => exact congrArg Prod.snd (step_seeded drawless g)
  | reset => rfl

/-- Without draws another generator makes no difference to what is answered and shown. -/
theorem replay_seeded (drawless : s.program.draws = false) (g : Generator) (calls : List Call) :
    (s.seeded g).answers calls = s.answers calls ∧
      (s.seeded g).after calls = (s.after calls).seeded g := by
  induction calls generalizing s with
  | nil => exact ⟨rfl, rfl⟩
  | cons call calls ih =>
    have same : (s.perform call).program = s.program := by
      cases call with
      | step => exact s.step_program
      | reset => rfl
    obtain ⟨answers, reached⟩ := ih (s := s.perform call) (same ▸ drawless)
    rw [← perform_seeded drawless] at answers reached
    refine ⟨?_, reached⟩
    cases call with
    | step =>
      have answered : (s.seeded g).step.1 = s.step.1 := by rw [step_seeded drawless g]
      exact congrArg₂ List.cons answered answers
    | reset => exact answers

end Seeds
end Stepper

/-- A program without draws that passes the scope check, with any two seeds, after any two histories of
steps and resets that leave it at the first statement of an iteration of the same number: it answers
all later calls alike, and shows the same after them. It is at the first statement just when the last
call began an iteration, or if it has no statements. -/
theorem drawless_programs_replay (program : Program) (drawless : program.draws = false)
    (checked : program.check (.ofIteration 0) = .ok ()) (seed other : UInt64) :
    ∃ first second, Stepper.ofProgram program seed = .ok first ∧
      Stepper.ofProgram program other = .ok second ∧
      (∀ calls, (first.after calls).position = [0] ↔
        program.statements = [] ∨ first.Begins calls) ∧
      ∀ calls others,
        let s := first.after calls
        let t := second.after others
        s.position = [0] → t.position = [0] → s.iteration = t.iteration → ∀ later,
          s.answers later = t.answers later ∧ (s.after later).view = (t.after later).view := by
  have built (word : UInt64) := (Stepper.ofProgram_eq_ok program word _).mpr ⟨checked, rfl⟩
  have sound (word : UInt64) := Stepper.sound_ofProgram (built word)
  refine ⟨_, _, built seed, built other, fun calls => ?_, fun calls others => ?_⟩
  · by_cases empty : program.statements = []
    · exact iff_of_true ((sound seed).position_of_empty rfl empty calls) (.inl empty)
    · rw [or_iff_right empty]
      exact (sound seed).position_eq_first_iff rfl empty calls
  · intro s t begun again same later
    have here : s = Stepper.atStart program s.iteration s.generator :=
      (sound seed).eq_atStart (fun _ => rfl) calls begun
    have there : t = Stepper.atStart program t.iteration t.generator :=
      (sound other).eq_atStart (fun _ => rfl) others again
    have seeded : t = s.seeded t.generator := by
      rw [there, here, same]
      rfl
    have plain : s.program.draws = false := by rw [here]; exact drawless
    obtain ⟨answers, reached⟩ := Stepper.replay_seeded plain t.generator later
    rw [seeded, answers, reached]
    exact ⟨rfl, rfl⟩

/-- One history goes straight to the second iteration, the other was reset inside the block of the first,
where the name of the iteration number has another value. -/
theorem drawless_programs_replay_reset :
    let program : Program :=
      ⟨[.bind "i" (.binary .add (.ident "i") (.number 1)) ⟨1, 1⟩,
        .guarded (.ident "i") [.bind "a" (.ident "i") ⟨3, 3⟩] ⟨2, 4⟩]⟩
    let calls : List Stepper.Call := [.step, .step, .step]
    let others : List Stepper.Call := [.step, .step, .reset, .step, .step, .step]
    program.draws = false ∧ program.check (.ofIteration 0) = .ok () ∧
      ∃ first second, Stepper.ofProgram program 1 = .ok first ∧
        Stepper.ofProgram program 2 = .ok second ∧ first.Begins calls ∧
        (first.after calls).position = [0] ∧ (second.after others).position = [0] ∧
        (first.after calls).iteration = (second.after others).iteration ∧
        (first.after calls).answers calls = (second.after others).answers calls ∧
        ((first.after calls).after others).view = ((second.after others).after others).view := by
  intro program calls others
  obtain ⟨first, second, built, again, begins, replay⟩ := drawless_programs_replay program rfl rfl 1 2
  have one : first = ⟨program, ⟨.ofIteration 0, 0⟩, [], 0, .ofSeed 1⟩ :=
    ((Stepper.ofProgram_eq_ok program 1 first).mp built).2
  have two : second = ⟨program, ⟨.ofIteration 0, 0⟩, [], 0, .ofSeed 2⟩ :=
    ((Stepper.ofProgram_eq_ok program 2 second).mp again).2
  have here : (first.after calls).position = [0] := by
    rw [one]
    decide +kernel
  have there : (second.after others).position = [0] := by
    rw [two]
    decide +kernel
  have same : (first.after calls).iteration = (second.after others).iteration := by
    rw [one, two]
    decide +kernel
  have begun : first.Begins calls := ((begins calls).mp here).resolve_left (List.cons_ne_nil _ _)
  have replayed := replay calls others here there same
  exact ⟨rfl, rfl, first, second, built, again, begun, here, there, same, (replayed calls).1,
    (replayed others).2⟩

end BranchLab
