import BranchLab.Proofs.Stepper.Frames

/-! The stack of a program in execution, from the outermost frame in. The block of a frame is found
by following the frames outside it, and every frame but the innermost stands on a guarded block that
was entered. The names a frame has bound can be read off the program: they are those of the bindings
which stand before it and before the frames outside it, and the number of the iteration. -/

namespace BranchLab

namespace Statement

mutual

/-- How many guarded blocks that are not empty stand one inside the other in a statement. -/
def nesting : Statement → Nat
  | bind .. => 0
  | guarded _ body _ => if body = [] then 0 else blockNesting body + 1

def blockNesting : List Statement → Nat
  | [] => 0
  | statement :: rest => max (nesting statement) (blockNesting rest)

end

def BindsBefore (name : String) (block : List Statement) (index : Nat) : Prop :=
  ∃ earlier < index, ∃ value lines, block[earlier]? = some (.bind name value lines)

section Blocks

variable {block body : List Statement} {index : Nat}

theorem nesting_le_blockNesting {statement : Statement} (inside : statement ∈ block) :
    nesting statement ≤ blockNesting block := by
  induction block with
  | nil => cases inside
  | cons first rest ih =>
    rw [blockNesting]
    rcases List.mem_cons.mp inside with rfl | later
    · exact Nat.le_max_left ..
    · exact Nat.le_trans (ih later) (Nat.le_max_right ..)

theorem blockNesting_body_lt {cond : Expr} {lines : LineRange}
    (current : block[index]? = some (.guarded cond body lines)) (filled : body ≠ []) :
    blockNesting body < blockNesting block := by
  have held := nesting_le_blockNesting (List.mem_of_getElem? current)
  rw [nesting, if_neg filled] at held
  exact held

theorem bindsBefore_succ {name : String} {statement : Statement}
    (current : block[index]? = some statement) :
    BindsBefore name block (index + 1) ↔
      BindsBefore name block index ∨ ∃ value lines, statement = .bind name value lines := by
  constructor
  · rintro ⟨earlier, before, value, lines, found⟩
    rcases Nat.lt_succ_iff_lt_or_eq.mp before with less | rfl
    · exact .inl ⟨earlier, less, value, lines, found⟩
    · exact .inr ⟨value, lines, Option.some.inj (current.symm.trans found)⟩
  · rintro (⟨earlier, before, bound⟩ | ⟨value, lines, rfl⟩)
    · exact ⟨earlier, Nat.lt_succ_of_lt before, bound⟩
    · exact ⟨index, Nat.lt_succ_self index, value, lines, current⟩

theorem bindsBefore_of_length_le {name : String} (beyond : block.length ≤ index) :
    BindsBefore name block (index + 1) ↔ BindsBefore name block index := by
  refine ⟨?_, fun ⟨earlier, before, bound⟩ => ⟨earlier, Nat.lt_succ_of_lt before, bound⟩⟩
  rintro ⟨earlier, -, value, lines, found⟩
  have within := (List.getElem?_eq_some_iff.mp found).1
  exact ⟨earlier, Nat.lt_of_lt_of_le within beyond, value, lines, found⟩

theorem mem_namesBefore {known : List String} {name : String} :
    name ∈ namesBefore known block index ↔ name ∈ known ∨ BindsBefore name block index := by
  induction index with
  | zero => simp [BindsBefore]
  | succ index ih =>
    cases current : block[index]? with
    | none =>
      have beyond := List.getElem?_eq_none_iff.mp current
      rw [bindsBefore_of_length_le beyond, ← ih, namesBefore, namesBefore,
        List.take_of_length_le beyond, List.take_of_length_le (Nat.le_succ_of_le beyond)]
    | some statement =>
      rw [namesBefore_succ known current, bindsBefore_succ current, ← or_assoc, ← ih]
      cases statement with
      | bind bound value lines => simp [namesAfter, or_comm, eq_comm]
      | guarded cond body lines => simp [namesAfter]

end Blocks
end Statement

namespace Enclosed

variable {statements block : List Statement} {below : List Frame} {known : List String}

/-- As many blocks are entered as are nested in the program, less those still nested further in. -/
theorem length_le (enclosed : Enclosed statements below block known) :
    below.length + Statement.blockNesting block ≤ Statement.blockNesting statements := by
  induction enclosed with
  | outermost => exact Nat.le_of_eq (Nat.zero_add _)
  | inside outer current filled bound ih =>
    have less := Statement.blockNesting_body_lt current filled
    rw [List.length_cons]
    omega

/-- The frames outside a frame enclose it as they did when its block was entered. -/
theorem outside {inner outer : List Frame} {frame : Frame}
    (enclosed : Enclosed statements (inner ++ frame :: outer) block known) :
    ∃ names, Enclosed statements outer (Stepper.blockOver statements outer) names ∧
      frame.Binds names (Stepper.blockOver statements outer) ∧
      ∃ cond body lines, (Stepper.blockOver statements outer)[frame.index]? =
        some (.guarded cond body lines) ∧ body ≠ [] := by
  induction inner generalizing block known with
  | nil =>
    cases enclosed with
    | inside enclosing current filled bound =>
      rw [enclosing.blockOver_eq]
      exact ⟨_, enclosing, bound, _, _, _, current, filled⟩
  | cons parent inner ih =>
    cases enclosed with
    | inside enclosing => exact ih enclosing

/-- A name is known in a block if a binding of it stands before one of the frames around it. -/
theorem mem_known (enclosed : Enclosed statements below block known) (name : String) :
    name ∈ known ↔ name = inductionName ∨ ∃ inner frame outer, below = inner ++ frame :: outer ∧
      Statement.BindsBefore name (Stepper.blockOver statements outer) frame.index := by
  induction enclosed with
  | outermost => simp
  | @inside parent below block body known cond lines enclosing current filled bound ih =>
    have same := enclosing.blockOver_eq
    rw [Statement.mem_namesBefore, ih, or_assoc]
    refine or_congr_right ?_
    constructor
    · rintro (⟨inner, frame, outer, rfl, binds⟩ | binds)
      · exact ⟨parent :: inner, frame, outer, rfl, binds⟩
      · exact ⟨[], parent, below, rfl, same ▸ binds⟩
    · rintro ⟨inner, frame, outer, split, binds⟩
      cases inner with
      | nil =>
        cases split
        exact .inr (same ▸ binds)
      | cons first inner =>
        cases split
        exact .inl ⟨inner, frame, outer, rfl, binds⟩

end Enclosed

namespace Stepper

/-- The block of the frame at a depth, to which the frames outside it lead. -/
def blockAt (s : Stepper) (depth : Nat) : List Statement :=
  blockOver s.program.statements (s.frames.take depth).reverse

variable {s : Stepper}

theorem frames_of_split {inner outer : List Frame} {frame : Frame}
    (split : s.top :: s.below = inner ++ frame :: outer) :
    s.frames = outer.reverse ++ frame :: inner.reverse := by
  simp [frames, split]

theorem getElem?_frames {depth : Nat} {frame : Frame} :
    s.frames[depth]? = some frame ↔
      ∃ inner outer, s.top :: s.below = inner ++ frame :: outer ∧ outer.length = depth := by
  constructor
  · intro found
    obtain ⟨short, here⟩ := List.getElem?_eq_some_iff.mp found
    have split := List.take_append_drop depth s.frames
    rw [List.drop_eq_getElem_cons short, here] at split
    refine ⟨(s.frames.drop (depth + 1)).reverse, (s.frames.take depth).reverse, ?_, ?_⟩
    · have turned := congrArg List.reverse split
      simpa [frames] using turned.symm
    · rw [List.length_reverse, List.length_take, Nat.min_eq_left (Nat.le_of_lt short)]
  · rintro ⟨inner, outer, split, rfl⟩
    rw [frames_of_split split, List.getElem?_append_right (by simp)]
    simp

theorem blockAt_of_split {inner outer : List Frame} {frame : Frame}
    (split : s.top :: s.below = inner ++ frame :: outer) :
    s.blockAt outer.length = blockOver s.program.statements outer := by
  rw [blockAt, frames_of_split split, List.take_left' (List.length_reverse), List.reverse_reverse]

theorem blockAt_succ {depth : Nat} {frame : Frame} (here : s.frames[depth]? = some frame)
    {statement : Statement} (current : (s.blockAt depth)[frame.index]? = some statement) :
    s.blockAt (depth + 1) = statement.body := by
  rw [blockAt] at current ⊢
  rw [List.take_add_one, here, Option.toList_some, List.reverse_append, List.reverse_singleton,
    List.singleton_append, blockOver, current]

/-- The frames outside a frame enclose it, and it has bound the names known at its statement. One
that others stand on is at a guarded block, which was entered. -/
theorem Sound.encloses (sound : s.Sound) {inner outer : List Frame} {frame : Frame}
    (split : s.top :: s.below = inner ++ frame :: outer) :
    ∃ names, Enclosed s.program.statements outer (s.blockAt outer.length) names ∧
      frame.Binds names (s.blockAt outer.length) ∧
      (inner ≠ [] → ∃ cond body lines, (s.blockAt outer.length)[frame.index]? =
        some (.guarded cond body lines) ∧ body ≠ []) := by
  obtain ⟨known, enclosed, binds⟩ := sound.placed
  rw [blockAt_of_split split]
  cases inner with
  | nil =>
    obtain ⟨rfl, rfl⟩ := List.cons.inj split
    exact ⟨known, enclosed, binds, fun others => absurd rfl others⟩
  | cons first inner =>
    obtain ⟨-, standing⟩ := List.cons.inj split
    rw [standing] at enclosed
    obtain ⟨names, enclosing, bound, entered⟩ := enclosed.outside
    exact ⟨names, enclosing, bound, fun _ => entered⟩

theorem split_of_length_le {α : Type} {inner outer others further : List α} {x y : α}
    (same : inner ++ x :: outer = others ++ y :: further) (within : further.length ≤ outer.length) :
    (y = x ∧ further = outer) ∨ ∃ between, outer = between ++ y :: further := by
  rcases List.append_eq_append_iff.mp same with ⟨between, -, rest⟩ | ⟨between, -, rest⟩
  · cases between with
    | nil =>
      obtain ⟨rfl, rfl⟩ := List.cons.inj rest
      exact .inl ⟨rfl, rfl⟩
    | cons first between => exact .inr ⟨between, (List.cons.inj rest).2⟩
  · cases between with
    | nil =>
      obtain ⟨rfl, rfl⟩ := List.cons.inj rest
      exact .inl ⟨rfl, rfl⟩
    | cons first between =>
      have longer : further = between ++ x :: outer := (List.cons.inj rest).2
      rw [longer, List.length_append, List.length_cons] at within
      omega

def BoundUpTo (s : Stepper) (depth : Nat) (name : String) : Prop :=
  ∃ d ≤ depth, ∃ frame, s.frames[d]? = some frame ∧
    Statement.BindsBefore name (s.blockAt d) frame.index

theorem Sound.mem_keys (sound : s.Sound) {depth : Nat} {frame : Frame}
    (here : s.frames[depth]? = some frame) (name : String) :
    name ∈ frame.bindings.keys ↔ name = inductionName ∨ s.BoundUpTo depth name := by
  obtain ⟨inner, outer, split, rfl⟩ := getElem?_frames.mp here
  obtain ⟨names, enclosed, binds, -⟩ := sound.encloses split
  rw [binds, Statement.mem_namesBefore, enclosed.mem_known, or_assoc]
  refine or_congr_right ?_
  constructor
  · rintro (⟨between, standing, further, rfl, bound⟩ | bound)
    · have again : s.top :: s.below = (inner ++ frame :: between) ++ standing :: further := by
        simpa using split
      refine ⟨further.length, ?_, standing, getElem?_frames.mpr ⟨_, _, again, rfl⟩, ?_⟩
      · simp only [List.length_append, List.length_cons]
        omega
      · rwa [blockAt_of_split again]
    · exact ⟨outer.length, Nat.le_refl _, frame, here, bound⟩
  · rintro ⟨d, within, standing, there, bound⟩
    obtain ⟨others, further, again, rfl⟩ := getElem?_frames.mp there
    rw [blockAt_of_split again] at bound
    rcases split_of_length_le (split.symm.trans again) within with ⟨rfl, rfl⟩ | ⟨between, standing⟩
    · rw [blockAt_of_split again]
      exact .inr bound
    · exact .inl ⟨between, _, further, standing, bound⟩

theorem Sound.frames_length_le (sound : s.Sound) :
    s.frames.length ≤ 1 + Statement.blockNesting s.program.statements := by
  obtain ⟨known, enclosed, -⟩ := sound.placed
  have deep := enclosed.length_le
  rw [frames, List.length_reverse, List.length_cons]
  omega

/-- A frame that others stand on is at a guarded block, and the next one runs in its body. -/
theorem Sound.entered (sound : s.Sound) {depth : Nat} {frame : Frame}
    (here : s.frames[depth]? = some frame) (more : depth + 1 < s.frames.length) :
    ∃ cond body lines, (s.blockAt depth)[frame.index]? = some (.guarded cond body lines) ∧
      body ≠ [] ∧ s.blockAt (depth + 1) = body := by
  obtain ⟨inner, outer, split, rfl⟩ := getElem?_frames.mp here
  obtain ⟨names, -, -, entered⟩ := sound.encloses split
  have others : inner ≠ [] := by
    rintro rfl
    rw [frames_of_split split] at more
    simp at more
  obtain ⟨cond, body, lines, current, filled⟩ := entered others
  exact ⟨cond, body, lines, current, filled, blockAt_succ here current⟩

theorem Sound.index_lt (sound : s.Sound) (filled : s.program.statements ≠ []) {depth : Nat}
    {frame : Frame} (here : s.frames[depth]? = some frame) :
    frame.index < (s.blockAt depth).length := by
  by_cases more : depth + 1 < s.frames.length
  · obtain ⟨cond, body, lines, current, -⟩ := sound.entered here more
    exact (List.getElem?_eq_some_iff.mp current).1
  · obtain ⟨inner, outer, split, rfl⟩ := getElem?_frames.mp here
    have top : inner = [] := by
      rw [frames_of_split split] at more
      simpa using more
    subst top
    obtain ⟨rfl, rfl⟩ := List.cons.inj split
    rw [blockAt_of_split split]
    exact sound.inside filled

end Stepper

/-- In a program that passes the scope check, whatever was stepped and reset before: there is a
frame, and there are no more frames than one and one for each nested block that is not empty. A
frame that others stand on is at a guarded block that is not empty, and if the program has
statements every frame stands on one of its block. The names that a frame has bound are the name of
the iteration number and those of the bindings before it and before the frames outside it. -/
theorem stack_follows_program (program : Program) (seed : UInt64)
    (checked : program.check (.ofIteration 0) = .ok ()) :
    ∃ start, Stepper.ofProgram program seed = .ok start ∧ ∀ calls,
      let s := start.after calls
      s.frames ≠ [] ∧ s.blockAt 0 = program.statements ∧
      s.frames.length ≤ 1 + Statement.blockNesting program.statements ∧
      (program.statements ≠ [] → ∃ statement, s.current? = some statement) ∧
      ∀ depth frame, s.frames[depth]? = some frame →
        (depth + 1 < s.frames.length → ∃ cond body lines,
          (s.blockAt depth)[frame.index]? = some (.guarded cond body lines) ∧ body ≠ [] ∧
            s.blockAt (depth + 1) = body) ∧
        (program.statements ≠ [] → frame.index < (s.blockAt depth).length) ∧
        ∀ name, name ∈ frame.bindings.keys ↔ name = inductionName ∨ s.BoundUpTo depth name := by
  have built := (Stepper.ofProgram_eq_ok program seed _).mpr ⟨checked, rfl⟩
  refine ⟨_, built, fun calls => ?_⟩
  intro s
  obtain ⟨sound, same⟩ := (Stepper.sound_ofProgram built).after calls
  have kept : s.program = program := same
  have nested := sound.frames_length_le
  rw [same] at nested
  have running (filled : program.statements ≠ []) : s.program.statements ≠ [] := by rwa [kept]
  refine ⟨?_, congrArg Program.statements kept, nested, fun filled => ?_,
    fun depth frame here => ⟨?_, ?_, ?_⟩⟩
  · rw [Stepper.frames, Ne, List.reverse_eq_nil_iff]
    exact List.cons_ne_nil _ _
  · exact sound.exists_current (running filled)
  · exact sound.entered here
  · exact fun filled => sound.index_lt (running filled) here
  · exact sound.mem_keys here

/-- Two blocks are entered, as many as are nested, and in the inner one a name is bound again. -/
theorem stack_follows_program_nested :
    let inner : List Statement := [.bind "x" (.number 2) ⟨5, 5⟩, .bind "z" (.number 3) ⟨6, 6⟩]
    let program : Program :=
      ⟨[.bind "x" (.number 1) ⟨1, 1⟩,
        .guarded (.ident "x")
          [.bind "y" (.ident "i") ⟨3, 3⟩, .guarded (.number 1) inner ⟨4, 7⟩] ⟨2, 8⟩]⟩
    program.check (.ofIteration 0) = .ok () ∧ Statement.blockNesting program.statements = 2 ∧
      ∃ start, Stepper.ofProgram program 7 = .ok start ∧
        let s := start.after (List.replicate 5 .step)
        s.frames.length = 3 ∧ (s.blockAt 2).length = 2 ∧
          ∃ frame, s.frames[2]? = some frame ∧ frame.index = 1 ∧
            frame.bindings.keys = ["i", "x", "y"] ∧
            ∀ name, name ∈ frame.bindings.keys ↔ name = inductionName ∨ s.BoundUpTo 2 name := by
  intro inner program
  obtain ⟨start, built, follows⟩ := stack_follows_program program 7 rfl
  have first : start = ⟨program, ⟨.ofIteration 0, 0⟩, [], 0, .ofSeed 7⟩ :=
    ((Stepper.ofProgram_eq_ok program 7 start).mp built).2
  obtain ⟨-, -, -, -, frames⟩ := follows (List.replicate 5 .step)
  have here : (start.after (List.replicate 5 .step)).frames[2]? =
      some ⟨⟨[("i", 0), ("x", 2), ("y", 0)]⟩, 1⟩ := by
    rw [first]
    decide +kernel
  refine ⟨rfl, rfl, start, built, ?_, ?_, _, here, rfl, rfl, (frames 2 _ here).2.2⟩
  · rw [first]
    decide +kernel
  · rw [first]
    decide +kernel

end BranchLab
