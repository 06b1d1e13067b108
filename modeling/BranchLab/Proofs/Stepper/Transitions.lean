import Mathlib.Data.List.Induction
import BranchLab.Proofs.Stepper.Stack

/-! What the transition of a step says of the stack. A step either stands a frame on the others or moves
past the current statement, and then it drops just the frames whose blocks are over. The frames below
those are as they were, so a block that is left gives back the bindings with which it was entered. -/

namespace BranchLab

open Chance (Generator)

def StepOutcome.transition : StepOutcome → Option Transition
  | idle => none
  | executed _ _ transition => some transition

def Frame.next (frame : Frame) : Frame := { frame with index := frame.index + 1 }

theorem toInt_inductionValue (iteration : UInt64) :
    (inductionValue iteration).toInt = (min iteration.toNat (2 ^ 63 - 1) : Nat) := by
  have small : min iteration.toNat (2 ^ 63 - 1) < 2 ^ 63 := by omega
  rw [inductionValue, Int64.toInt_ofNat_of_lt small]

namespace Stepper

def settled (s : Stepper) (bindings : Bindings) (generator : Generator) : Stepper :=
  { s with top := { s.top with bindings }, generator }

def framesBound (s : Stepper) : List Frame :=
  match s.current? with
  | some (.bind name value _) =>
    match value.value s.top.bindings s.generator with
    | (.ok v, g) => (s.bound name v g).frames
    | (.error _, _) => s.frames
  | _ => s.frames

def Ends (s : Stepper) (depth : Nat) (frame : Frame) : Prop :=
  frame.index + 1 = (s.blockAt depth).length

/-- What each transition says of the frames before it, with the value bound, and after it. -/
inductive Accounts (s next : Stepper) : Transition → Prop
  | advanced {outer : List Frame} {top : Frame} (before : s.framesBound = outer ++ [top])
      (after : next.frames = outer ++ [top.next]) : Accounts s next .advanced
  | enteredBlock {outer : List Frame} {top : Frame} (before : s.framesBound = outer ++ [top])
      (after : next.frames = s.framesBound ++ [⟨top.bindings, 0⟩]) : Accounts s next .enteredBlock
  | leftBlocks {outer inner : List Frame} {top : Frame} {popped : Nat}
      (before : s.framesBound = outer ++ top :: inner) (size : inner.length = popped)
      (positive : 1 ≤ popped)
      (ended : ∀ depth frame, s.framesBound[depth]? = some frame → outer.length < depth →
        s.Ends depth frame)
      (after : next.frames = outer ++ [top.next]) : Accounts s next (.leftBlocks popped)
  | newIteration {iteration : UInt64} {v : Int64}
      (ended : ∀ depth frame, s.framesBound[depth]? = some frame → s.Ends depth frame)
      (counted : iteration = s.iteration + 1) (reached : next.iteration = iteration)
      (held : v.toInt = (min iteration.toNat (2 ^ 63 - 1) : Nat))
      (after : next.frames = [⟨Catalog.empty.put inductionName v, 0⟩]) :
      Accounts s next (.newIteration iteration)

section Moving

variable {statements : List Statement} {top next : Frame} {below rest : List Frame}
  {popped left : Nat}

def Over (statements : List Statement) (inner outer : List Frame) : Prop :=
  ∀ further frame nearer, inner = further ++ frame :: nearer →
    (blockOver statements (nearer ++ outer)).length ≤ frame.index + 1

theorem Over.cons {frame : Frame} {inner outer : List Frame}
    (full : (blockOver statements (inner ++ outer)).length ≤ frame.index + 1)
    (spent : Over statements inner outer) : Over statements (frame :: inner) outer := by
  intro further other nearer split
  cases further with
  | nil =>
    obtain ⟨rfl, rfl⟩ := List.cons.inj split
    exact full
  | cons first further =>
    obtain ⟨-, later⟩ := List.cons.inj split
    exact spent further other nearer later

/-- Moving on drops the frames that are over, and puts the first that is not at its next statement. -/
theorem moveOn_eq_some (moved : moveOn statements top below popped = some (next, rest, left)) :
    ∃ inner frame, top :: below = inner ++ frame :: rest ∧ next = frame.next ∧
      left = popped + inner.length ∧ Over statements inner (frame :: rest) := by
  induction below generalizing top popped with
  | nil =>
    rw [moveOn] at moved
    split at moved
    · cases moved
      exact ⟨[], top, rfl, rfl, rfl, by simp [Over]⟩
    · cases moved
  | cons parent below ih =>
    rw [moveOn] at moved
    split at moved
    · cases moved
      exact ⟨[], top, rfl, rfl, rfl, by simp [Over]⟩
    · rename_i full
      obtain ⟨inner, frame, split, same, count, spent⟩ := ih moved
      refine ⟨top :: inner, frame, by rw [split, List.cons_append], same, ?_, spent.cons ?_⟩
      · rw [count, List.length_cons]
        omega
      · rw [← split]
        omega

/-- It fails to move on if all frames are over. -/
theorem moveOn_eq_none (moved : moveOn statements top below popped = none) :
    Over statements (top :: below) [] := by
  induction below generalizing top popped with
  | nil =>
    rw [moveOn] at moved
    split at moved
    · cases moved
    · rename_i full
      exact Over.cons (Nat.le_of_not_lt full) (by simp [Over])
  | cons parent below ih =>
    rw [moveOn] at moved
    split at moved
    · cases moved
    · rename_i full
      refine Over.cons ?_ (ih moved)
      rw [List.append_nil]
      exact Nat.le_of_not_lt full

end Moving

variable {s : Stepper}

/-- A step of a program that has statements enters the block that it is at, or settles the bindings of
the current statement and moves past it. -/
theorem Sound.step_cases (sound : s.Sound) (filled : s.program.statements ≠ []) :
    (∃ cond body lines g, s.current? = some (.guarded cond body lines) ∧ body ≠ [] ∧
      s.framesBound = s.frames ∧
      s.step = (.ok (.executed lines (some ⟨lines.start, true⟩) .enteredBlock), s.entered g)) ∨
    ∃ bindings g lines branch, s.framesBound = (s.settled bindings g).frames ∧
      s.step = (.ok (.executed lines branch (s.settled bindings g).advance.1),
        (s.settled bindings g).advance.2) := by
  obtain ⟨outcome, answered, idle, -⟩ := sound.step
  cases current : s.current? with
  | none => exact absurd (sound.current?_eq_none.mp current) filled
  | some statement =>
    obtain ⟨known, enclosed, binds⟩ := sound.placed
    obtain ⟨names, after, keys, passed, -⟩ := sound.check_current enclosed binds current
    cases statement with
    | bind name value lines =>
      obtain ⟨used, -⟩ := (Statement.check_bind ..).mp passed
      obtain ⟨v, g, valued⟩ := value.value_of_bound s.top.bindings s.generator
        fun name inside => (keys name).mpr (used name inside)
      refine .inr ⟨_, g, lines, none, ?_, step_of_bind current valued⟩
      simp only [framesBound, current, valued]
      rfl
    | guarded cond body lines =>
      obtain ⟨used, -, -⟩ := (Statement.check_guarded ..).mp passed
      obtain ⟨v, g, valued⟩ := cond.value_of_bound s.top.bindings s.generator
        fun name inside => (keys name).mpr (used name inside)
      have unbound : s.framesBound = s.frames := by simp only [framesBound, current]
      by_cases passes : v = 0 ∨ body = []
      · exact .inr ⟨s.top.bindings, g, lines, _, unbound, step_of_passed current valued passes⟩
      · obtain ⟨taken, inner⟩ := not_or.mp passes
        exact .inl ⟨cond, body, lines, g, rfl, inner, unbound,
          step_of_entered current valued taken inner⟩

theorem take_frames {depth : Nat} (within : depth ≤ s.below.length) :
    s.frames.take depth = s.below.reverse.take depth := by
  rw [frames, List.reverse_cons, List.take_append_of_le_length (by simpa using within)]

theorem length_frames (s : Stepper) : s.frames.length = s.below.length + 1 := by
  rw [frames, List.length_reverse, List.length_cons]

/-- A frame that is over in a stepper with settled bindings is at the last statement of its block. -/
theorem Sound.ends (sound : s.Sound) (filled : s.program.statements ≠ []) {bindings : Bindings}
    {g : Generator} {inner outer : List Frame} {frame : Frame}
    (split : (s.settled bindings g).top :: s.below = inner ++ frame :: outer)
    (full : (blockOver s.program.statements outer).length ≤ frame.index + 1) :
    s.Ends outer.length frame := by
  have within : outer.length ≤ s.below.length := by
    have counted := congrArg List.length split
    simp only [List.length_cons, List.length_append] at counted
    omega
  have same : s.blockAt outer.length = blockOver s.program.statements outer := by
    have there := blockAt_of_split (s := s.settled bindings g) split
    rw [blockAt, take_frames (s := s.settled bindings g) within] at there
    rw [blockAt, take_frames within]
    exact there
  obtain ⟨found, here, index⟩ : ∃ found, s.frames[outer.length]? = some found ∧
      found.index = frame.index := by
    cases inner with
    | nil =>
      obtain ⟨rfl, rfl⟩ := List.cons.inj split
      exact ⟨s.top, getElem?_frames.mpr ⟨[], s.below, rfl, rfl⟩, rfl⟩
    | cons first inner =>
      obtain ⟨-, below⟩ := List.cons.inj split
      exact ⟨frame, getElem?_frames.mpr ⟨s.top :: inner, outer, by rw [below]; rfl, rfl⟩, rfl⟩
  have inside := sound.index_lt filled here
  rw [Ends]
  rw [same] at inside ⊢
  omega

/-- Frames that stand above others in a split of the stack are above them in every split. -/
theorem split_above {α : Type} {inner outer further lower : List α} {frame : α}
    (same : inner ++ outer = further ++ frame :: lower) (above : outer.length ≤ lower.length) :
    ∃ nearer, lower = nearer ++ outer ∧ inner = further ++ frame :: nearer := by
  rcases List.append_eq_append_iff.mp same with ⟨between, -, rest⟩ | ⟨between, rest, shared⟩
  · rw [rest, List.length_append, List.length_cons] at above
    omega
  · cases between with
    | nil =>
      have longer : outer = frame :: lower := shared.symm
      rw [longer, List.length_cons] at above
      omega
    | cons first nearer =>
      obtain ⟨rfl, rfl⟩ := List.cons.inj shared
      exact ⟨nearer, rfl, rest⟩

/-- The transition that moving past the current statement reports accounts for the frames. -/
theorem Sound.accounts_advance (sound : s.Sound) (filled : s.program.statements ≠ [])
    {bindings : Bindings} {g : Generator}
    (before : s.framesBound = (s.settled bindings g).frames) :
    s.Accounts (s.settled bindings g).advance.2 (s.settled bindings g).advance.1 := by
  have ended {inner outer : List Frame} (split : (s.settled bindings g).top :: s.below = inner ++ outer)
      (spent : Over s.program.statements inner outer) :
      ∀ depth frame, s.framesBound[depth]? = some frame → outer.length ≤ depth →
        s.Ends depth frame := by
    intro depth frame here above
    rw [before] at here
    obtain ⟨further, lower, again, rfl⟩ := getElem?_frames.mp here
    obtain ⟨nearer, rfl, rest⟩ := split_above (split.symm.trans again) above
    exact sound.ends filled again (spent further frame nearer rest)
  rw [advance]
  split
  · rename_i next rest left moved
    obtain ⟨inner, frame, split, rfl, count, spent⟩ := moveOn_eq_some moved
    have bound : s.framesBound = rest.reverse ++ frame :: inner.reverse :=
      before.trans (frames_of_split split)
    have after : ({ s.settled bindings g with top := frame.next, below := rest } : Stepper).frames =
        rest.reverse ++ [frame.next] := List.reverse_cons
    by_cases none : left = 0
    · have empty : inner = [] := by
        rw [← List.length_eq_zero_iff]
        omega
      subst empty
      rw [if_pos none]
      exact .advanced bound after
    · rw [if_neg none]
      refine .leftBlocks bound ?_ (Nat.pos_of_ne_zero none) ?_ after
      · rw [List.length_reverse, count, Nat.zero_add]
      · intro depth other here above
        rw [List.length_reverse] at above
        exact ended split spent depth other here above
  · rename_i moved
    have spent := moveOn_eq_none moved
    refine .newIteration (fun depth frame here => ?_) rfl rfl (toInt_inductionValue _) rfl
    exact ended (List.append_nil _).symm spent depth frame here (Nat.zero_le depth)

/-- A step of a sound stepper accounts for its frames by the transition that it reports. -/
theorem Sound.accounts (sound : s.Sound) (filled : s.program.statements ≠ []) :
    ∃ lines branch transition, s.step.1 = .ok (.executed lines branch transition) ∧
      s.Accounts s.step.2 transition := by
  rcases sound.step_cases filled with
    ⟨cond, body, lines, g, -, -, unbound, stepped⟩ | ⟨bindings, g, lines, branch, before, stepped⟩
  · rw [stepped]
    have below : s.framesBound = s.below.reverse ++ [s.top] := unbound.trans List.reverse_cons
    exact ⟨_, _, _, rfl, .enteredBlock below (by rw [unbound]; exact List.reverse_cons)⟩
  · rw [stepped]
    exact ⟨_, _, _, rfl, sound.accounts_advance filled before⟩

theorem length_framesBound (s : Stepper) : s.framesBound.length = s.frames.length := by
  rw [framesBound]
  split
  · split
    · rw [length_frames, length_frames]
      rfl
    · rfl
  · rfl

/-- Which transition it was can be read off the numbers of frames and the index on top. -/
theorem Accounts.eq {next : Stepper} {transition : Transition} (accounts : s.Accounts next transition) :
    transition =
      if s.frames.length < next.frames.length then .enteredBlock
      else if next.frames.getLast?.map Frame.index = some 0 then .newIteration (s.iteration + 1)
      else if next.frames.length = s.frames.length then .advanced
      else .leftBlocks (s.frames.length - next.frames.length) := by
  have standing : 0 < s.frames.length := by
    rw [length_frames]
    exact Nat.succ_pos _
  rw [← length_framesBound s] at standing ⊢
  cases accounts with
  | advanced before after => simp [before, after, Frame.next]
  | enteredBlock before after => simp [after]
  | @leftBlocks outer inner top popped before size positive ended after =>
    have fewer : s.framesBound.length = outer.length + 1 + popped := by
      rw [before, List.length_append, List.length_cons, size]
      omega
    have now : next.frames.length = outer.length + 1 := by simp [after]
    have raised : next.frames.getLast?.map Frame.index ≠ some 0 := by simp [after, Frame.next]
    rw [if_neg (by omega), if_neg raised, if_neg (by omega), fewer, now, Nat.add_sub_cancel_left]
  | newIteration ended counted reached held after =>
    have now : next.frames.length = 1 := by simp [after]
    have first : next.frames.getLast?.map Frame.index = some 0 := by simp [after]
    rw [if_neg (by omega), if_pos first, counted]

theorem Accounts.unique {next : Stepper} {transition other : Transition}
    (accounts : s.Accounts next transition) (again : s.Accounts next other) : other = transition :=
  again.eq.trans accounts.eq.symm

/-- Some calls end with a step that entered a block when the stack was as given, and with steps that
did not leave the block. -/
def Inside (start : Stepper) (calls : List Call) (stack : List Frame) : Prop :=
  ∃ past n, calls = past ++ List.replicate (n + 1) .step ∧
    (start.after past).framesBound = stack ∧
    (∃ lines branch,
      (start.after past).step.1 = .ok (.executed lines branch .enteredBlock)) ∧
    ∀ k ≤ n, stack.length < (start.after (past ++ List.replicate (k + 1) .step)).frames.length

theorem take_framesBound {depth : Nat} (within : depth ≤ s.below.length) :
    s.framesBound.take depth = s.frames.take depth := by
  rw [framesBound]
  split
  · split
    · exact (take_frames (s := s.bound ..) within).trans (take_frames within).symm
    · rfl
  · rfl

/-- A step changes no frame below those that it drops or moves, and enters a block only over all. -/
theorem Accounts.take_frames {next : Stepper} {transition : Transition}
    (accounts : s.Accounts next transition) {depth : Nat} (some : 0 < depth)
    (within : depth < next.frames.length) :
    (depth < s.frames.length ∧ next.frames.take depth = s.framesBound.take depth) ∨
      (transition = .enteredBlock ∧ next.frames.take depth = s.framesBound) := by
  rw [← length_framesBound s]
  cases accounts with
  | @advanced outer top before after =>
    have lower : depth ≤ outer.length := by simpa [after, Nat.lt_succ_iff] using within
    refine .inl ⟨by simp [before]; omega, ?_⟩
    rw [after, before, List.take_append_of_le_length lower, List.take_append_of_le_length lower]
  | @enteredBlock outer top before after =>
    rw [after, List.length_append, List.length_singleton] at within
    rw [after, List.take_append_of_le_length (Nat.le_of_lt_succ within)]
    rcases Nat.lt_succ_iff_lt_or_eq.mp within with lower | rfl
    · exact .inl ⟨lower, rfl⟩
    · exact .inr ⟨rfl, List.take_length⟩
  | @leftBlocks outer inner top popped before size positive ended after =>
    have lower : depth ≤ outer.length := by simpa [after, Nat.lt_succ_iff] using within
    refine .inl ⟨by simp [before]; omega, ?_⟩
    rw [after, before, List.take_append_of_le_length lower, List.take_append_of_le_length lower]
  | newIteration ended counted reached held after =>
    rw [after, List.length_singleton] at within
    omega

/-- Each block in execution was entered when the frames outside it were as they are. -/
theorem Sound.inside_blocks {start : Stepper} (sound : start.Sound)
    (filled : start.program.statements ≠ []) (fresh : start.below = []) (calls : List Call)
    (depth : Nat) (some : 0 < depth) (within : depth < (start.after calls).frames.length) :
    Inside start calls ((start.after calls).frames.take depth) := by
  induction calls using List.reverseRecOn generalizing depth with
  | nil =>
    have one : (start.after []).frames.length = 1 := by
      rw [length_frames]
      exact congrArg (·.length + 1) fresh
    omega
  | append_singleton calls call ih =>
    have last : start.after (calls ++ [call]) = (start.after calls).perform call :=
      List.foldl_append
    cases call with
    | reset =>
      have one : (start.after (calls ++ [.reset])).frames.length = 1 := by rw [last]; rfl
      omega
    | step =>
      obtain ⟨steady, same⟩ := sound.after calls
      have running : (start.after calls).program.statements ≠ [] := by rwa [same]
      obtain ⟨lines, branch, transition, answered, accounts⟩ := steady.accounts running
      have moved : start.after (calls ++ [.step]) = (start.after calls).step.2 := last
      rw [← moved] at accounts
      rcases accounts.take_frames some within with ⟨lower, kept⟩ | ⟨rfl, kept⟩
      · have below : depth ≤ (start.after calls).below.length := by
          rw [length_frames] at lower
          omega
        obtain ⟨past, n, rfl, stack, entered, stayed⟩ := ih depth some lower
        rw [take_framesBound below] at kept
        refine ⟨past, n + 1, ?_, stack.trans kept.symm, entered, fun k most => ?_⟩
        · rw [List.append_assoc, List.replicate_succ' (n := n + 1)]
        · rcases Nat.le_succ_iff.mp most with before | rfl
          · rw [kept]
            exact stayed k before
          · rw [List.replicate_succ' (n := n + 1), ← List.append_assoc, List.length_take]
            omega
      · refine ⟨calls, 0, rfl, kept.symm, ⟨lines, branch, answered⟩, fun k most => ?_⟩
        obtain rfl := Nat.le_zero.mp most
        rw [List.length_take]
        exact Nat.lt_of_le_of_lt (Nat.min_le_left ..) within

end Stepper

/-- In a program that passes the scope check and has statements, whatever was stepped and reset before,
every step reports one transition and no other accounts for what became of the frames. A frame that
others stand on is what it was when the block above it was entered, and so it is when that block is
left. -/
theorem transition_accounts_for_stack (program : Program) (seed : UInt64)
    (filled : program.statements ≠ []) (checked : program.check (.ofIteration 0) = .ok ()) :
    ∃ start, Stepper.ofProgram program seed = .ok start ∧ ∀ calls,
      let s := start.after calls
      (∃ lines branch transition, s.step.1 = .ok (.executed lines branch transition) ∧
        ∀ other, s.Accounts s.step.2 other ↔ other = transition) ∧
      ∀ outer top inner, s.framesBound = outer ++ top :: inner → inner ≠ [] →
        Stepper.Inside start calls (outer ++ [top]) := by
  have built := (Stepper.ofProgram_eq_ok program seed _).mpr ⟨checked, rfl⟩
  refine ⟨_, built, fun calls => ?_⟩
  intro s
  have first := Stepper.sound_ofProgram built
  obtain ⟨sound, same⟩ := first.after calls
  have running : s.program.statements ≠ [] := by rwa [show s.program = program from same]
  constructor
  · obtain ⟨lines, branch, transition, answered, accounts⟩ := sound.accounts running
    refine ⟨lines, branch, transition, answered, fun other => ⟨accounts.unique, ?_⟩⟩
    rintro rfl
    exact accounts
  · intro outer top inner stack others
    have deep : outer.length + 1 < s.frames.length := by
      rw [← s.length_framesBound, stack, List.length_append, List.length_cons]
      have := List.length_pos_iff.mpr others
      omega
    have below : outer.length + 1 ≤ s.below.length := by
      rw [s.length_frames] at deep
      omega
    have inside := first.inside_blocks filled rfl calls (outer.length + 1) (Nat.succ_pos _) deep
    have kept : s.frames.take (outer.length + 1) = outer ++ [top] := by
      rw [← Stepper.take_framesBound below, stack, List.append_cons, List.take_left' (by simp)]
    rwa [kept] at inside

/-- A binding ends two blocks at once, and the name that both bind is back at its first value. -/
theorem transition_accounts_for_stack_twice :
    let inner : List Statement := [.bind "x" (.number 3) ⟨5, 5⟩]
    let program : Program :=
      ⟨[.bind "x" (.number 1) ⟨1, 1⟩,
        .guarded (.ident "x")
          [.bind "x" (.number 2) ⟨3, 3⟩, .guarded (.number 1) inner ⟨4, 6⟩] ⟨2, 7⟩,
        .bind "y" (.ident "x") ⟨8, 8⟩]⟩
    program.statements ≠ [] ∧ program.check (.ofIteration 0) = .ok () ∧
      ∃ start, Stepper.ofProgram program 7 = .ok start ∧
        let calls := List.replicate 4 .step
        let s := start.after calls
        s.frames.length = 3 ∧ s.Accounts s.step.2 (.leftBlocks 2) ∧
          s.step.2.frames = [⟨⟨[("i", 0), ("x", 1)]⟩, 2⟩] ∧
          start.Inside calls [⟨⟨[("i", 0), ("x", 1)]⟩, 1⟩] := by
  intro inner program
  obtain ⟨start, built, follows⟩ :=
    transition_accounts_for_stack program 7 (List.cons_ne_nil _ _) rfl
  have first : start = ⟨program, ⟨.ofIteration 0, 0⟩, [], 0, .ofSeed 7⟩ :=
    ((Stepper.ofProgram_eq_ok program 7 start).mp built).2
  obtain ⟨⟨lines, branch, transition, answered, accounts⟩, inside⟩ := follows (List.replicate 4 .step)
  have stack : (start.after (List.replicate 4 .step)).framesBound =
      [⟨⟨[("i", 0), ("x", 1)]⟩, 1⟩, ⟨⟨[("i", 0), ("x", 2)]⟩, 1⟩, ⟨⟨[("i", 0), ("x", 3)]⟩, 0⟩] := by
    rw [first]
    decide +kernel
  have reported : (start.after (List.replicate 4 .step)).step.1.toOption =
      some (.executed ⟨5, 5⟩ none (.leftBlocks 2)) := by
    rw [first]
    decide +kernel
  have left : transition = .leftBlocks 2 := by
    rw [answered] at reported
    cases reported
    rfl
  refine ⟨List.cons_ne_nil _ _, rfl, start, built, ?_, (accounts _).mpr left.symm, ?_,
    inside [] _ _ stack (List.cons_ne_nil _ _)⟩
  · rw [first]
    decide +kernel
  · rw [first]
    decide +kernel

end BranchLab
