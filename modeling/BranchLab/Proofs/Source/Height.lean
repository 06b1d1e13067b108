import BranchLab.Proofs.Source.Printing

/-! How high the trees are that are read. The nesting limit bounds how many levels are open at one
time. An operand gives its levels back to the chain that it begins, whose operators then stand above
it, so a tree can be much higher than the limit. How high it can be follows from the room, and a
tower of draws, each at the beginning of a chain of the greatest length, is as high as that. -/

namespace BranchLab

open Source

def Expr.height : Expr → Nat
  | number _ => 0
  | ident _ => 0
  | binary _ lhs rhs => 1 + max lhs.height rhs.height
  | unary _ operand => 1 + operand.height
  | random bound => 1 + bound.height

/-- The height with no regard to left operands. -/
def Expr.rightHeight : Expr → Nat
  | number _ => 0
  | ident _ => 0
  | binary _ _ rhs => 1 + rhs.rightHeight
  | unary _ operand => 1 + operand.rightHeight
  | random bound => 1 + bound.rightHeight

/-- The left operands that are not inside another one, each with how deep it stands. -/
def Expr.leftOperands (depth : Nat) : Expr → List (Nat × Expr)
  | number _ => []
  | ident _ => []
  | binary _ lhs rhs => (depth + 1, lhs) :: rhs.leftOperands (depth + 1)
  | unary _ operand => operand.leftOperands (depth + 1)
  | random bound => bound.leftOperands (depth + 1)

theorem add_max_le_iff {depth first second most : Nat} :
    depth + max first second ≤ most ↔ depth + first ≤ most ∧ depth + second ≤ most := by
  omega

/-- Beside left operands, only their own places make an expression higher. -/
theorem Expr.height_le_iff (e : Expr) (depth most : Nat) : depth + e.height ≤ most ↔
    depth + e.rightHeight ≤ most ∧
      ∀ part ∈ e.leftOperands depth, part.1 + part.2.height ≤ most := by
  induction e generalizing depth with
  | number value => simp [height, rightHeight, leftOperands]
  | ident name => simp [height, rightHeight, leftOperands]
  | binary op lhs rhs left right =>
    have inner := right (depth + 1)
    simp only [height, rightHeight, leftOperands, List.forall_mem_cons]
    rw [← Nat.add_assoc, ← Nat.add_assoc]
    rw [add_max_le_iff, inner]
    exact and_left_comm
  | unary op operand ih | random operand ih =>
    have inner := ih (depth + 1)
    simp only [height, rightHeight, leftOperands]
    rwa [← Nat.add_assoc, ← Nat.add_assoc]

namespace Statement

mutual

def height (measure : Expr → Nat) : Statement → Nat
  | bind _ value _ => measure value
  | guarded cond body _ => 1 + max (measure cond) (blockHeight measure body)

def blockHeight (measure : Expr → Nat) : List Statement → Nat
  | [] => 0
  | statement :: rest => max (height measure statement) (blockHeight measure rest)

end

mutual

def leftOperands (depth : Nat) : Statement → List (Nat × Expr)
  | bind _ value _ => value.leftOperands depth
  | guarded cond body _ => cond.leftOperands (depth + 1) ++ blockLeftOperands (depth + 1) body

def blockLeftOperands (depth : Nat) : List Statement → List (Nat × Expr)
  | [] => []
  | statement :: rest => leftOperands depth statement ++ blockLeftOperands depth rest

end

theorem blockHeight_le {measure : Expr → Nat} {block : List Statement} {most : Nat}
    (low : ∀ statement ∈ block, statement.height measure ≤ most) :
    blockHeight measure block ≤ most := by
  induction block with
  | nil => exact Nat.zero_le most
  | cons statement rest ih =>
    have first := low statement List.mem_cons_self
    have others := ih fun other inside => low other (List.mem_cons_of_mem statement inside)
    exact Nat.max_le.mpr ⟨first, others⟩

mutual

theorem height_le_iff (depth most : Nat) : (statement : Statement) →
    (depth + statement.height Expr.height ≤ most ↔
      depth + statement.height Expr.rightHeight ≤ most ∧
        ∀ part ∈ statement.leftOperands depth, part.1 + part.2.height ≤ most)
  | bind _ value _ => value.height_le_iff depth most
  | guarded cond body _ => by
    have condition := cond.height_le_iff (depth + 1) most
    have block := blockHeight_le_iff (depth + 1) most body
    simp only [height, leftOperands, List.forall_mem_append]
    rw [← Nat.add_assoc, ← Nat.add_assoc, add_max_le_iff, add_max_le_iff, condition, block]
    exact and_and_and_comm

theorem blockHeight_le_iff (depth most : Nat) : (block : List Statement) →
    (depth + blockHeight Expr.height block ≤ most ↔
      depth + blockHeight Expr.rightHeight block ≤ most ∧
        ∀ part ∈ blockLeftOperands depth block, part.1 + part.2.height ≤ most)
  | [] => by simp [blockHeight, blockLeftOperands]
  | statement :: rest => by
    have first := height_le_iff depth most statement
    have others := blockHeight_le_iff depth most rest
    simp only [blockHeight, blockLeftOperands, List.forall_mem_append]
    rw [add_max_le_iff, add_max_le_iff, first, others]
    exact and_and_and_comm

end

end Statement

def Program.height (program : Program) : Nat :=
  Statement.blockHeight Expr.height program.statements

def Program.rightHeight (program : Program) : Nat :=
  Statement.blockHeight Expr.rightHeight program.statements

def Program.leftOperands (program : Program) : List (Nat × Expr) :=
  Statement.blockLeftOperands 0 program.statements

theorem Program.height_le_iff (program : Program) (most : Nat) : program.height ≤ most ↔
    program.rightHeight ≤ most ∧
      ∀ part ∈ program.leftOperands, part.1 + part.2.height ≤ most := by
  have block := Statement.blockHeight_le_iff 0 most program.statements
  rwa [Nat.zero_add, Nat.zero_add] at block

namespace Source

/-- The greatest height that is read with some room: one level goes to an opening token, and then
there is a chain above it with an operator for every level. -/
def tallest : Nat → Nat
  | 0 => 0
  | room + 1 => tallest room + (room + 2)

theorem two_mul_tallest (room : Nat) : 2 * tallest room = room * (room + 3) := by
  induction room with
  | zero => rfl
  | succ room ih =>
    rw [tallest, Nat.mul_add, ih]
    grind

theorem le_tallest (room : Nat) : room ≤ tallest room := by
  induction room with
  | zero => exact Nat.le_refl 0
  | succ room ih =>
    rw [tallest]
    omega

section Bounds

variable {finish : Location} {room : Nat} {tokens rest : Tokens} {e : Expr}

/-- How high a part is: a chain can stand above an operand with all the room that the operand had,
and has one operator for each level. -/
def Part.Height (room : Nat) (e : Expr) : Part → Prop
  | operand => e.height + room ≤ tallest room
  | chain _ lhs => e.height ≤ max (lhs.height + room) (tallest room)
  | expression _ => e.height ≤ tallest room

theorem Reads.height {part : Part} (read : Reads finish part room tokens e rest) :
    part.Height room e := by
  induction read with
  | @number _ room | @negative _ _ room | @name _ _ room =>
    have low := le_tallest room
    simpa only [Part.Height, Expr.height, Nat.zero_add] using low
  | prefixed opens inner ih | draw word opening closing inner ih | group opening closing inner ih =>
    simp only [Part.Height, Expr.height, tallest] at ih ⊢
    omega
  | done ends =>
    simp only [Part.Height]
    omega
  | fold place binds operand others first next | whole operand others first next =>
    simp only [Part.Height, Expr.height, tallest] at first next ⊢
    omega

/-- Each level of the room is used for one operator or draw that is not inside a left operand. -/
def Part.RightHeight (room : Nat) (e : Expr) : Part → Prop
  | operand => e.rightHeight ≤ room
  | chain _ lhs => e.rightHeight ≤ max lhs.rightHeight room
  | expression _ => e.rightHeight ≤ room

theorem Reads.rightHeight {part : Part} (read : Reads finish part room tokens e rest) :
    part.RightHeight room e := by
  induction read with
  | number | negative | name => exact Nat.zero_le _
  | prefixed opens inner ih | draw word opening closing inner ih | group opening closing inner ih =>
    simp only [Part.RightHeight, Expr.rightHeight] at ih ⊢
    omega
  | done ends => exact Nat.le_max_left _ _
  | fold place binds operand others first next | whole operand others first next =>
    simp only [Part.RightHeight, Expr.rightHeight] at first next ⊢
    omega

/-- What holds of every part holds of all that are found. -/
theorem forall_of_readMany {α : Type} {P : α → Prop} {part : Tokens → Reading (α × Tokens)}
    {stop : Token → Bool} (parts : ∀ tokens next rest, part tokens = .ok (next, rest) → P next)
    {turns : Nat} {found all : List α} (before : ∀ next ∈ found, P next)
    (read : readMany part stop turns found tokens = .ok (all, rest)) : ∀ next ∈ all, P next := by
  induction turns generalizing found tokens with
  | zero =>
    cases read
    simpa using before
  | succ turns ih =>
    by_cases ends : EndsBlock stop tokens
    · rw [readMany_of_ends part (turns + 1) found ends] at read
      cases read
      simpa using before
    · rw [readMany_next part turns found ends] at read
      obtain ⟨⟨next, after⟩, first, others⟩ := bind_ok.mp read
      refine ih ?_ others
      intro other member
      rcases List.mem_cons.mp member with rfl | inside
      · exact parts tokens other after first
      · exact before other inside

variable {measure : Expr → Nat} {most : Nat → Nat}

/-- A bound on expressions holds of statements when a further level raises it by one at least. -/
theorem height_le_of_readStatement (grows : ∀ room, most room + 1 ≤ most (room + 1))
    (low : ∀ room tokens e rest, Reads finish (.expression BinaryOp.loosest) room tokens e rest →
      measure e ≤ most room)
    {statement : Statement} (read : readStatement finish room tokens = .ok (statement, rest)) :
    statement.height measure ≤ most room := by
  induction room using Nat.strongRecOn generalizing tokens statement rest with
  | ind room below =>
    cases statementReads read with
    | bind word named assign last name valued => exact low _ _ _ _ (reads_of_readInfix valued)
    | @guarded word opening closing brace last less _ _ _ _ _ guard block =>
      have condition := low _ _ _ _ (reads_of_readInfix guard)
      have statements := forall_of_readMany (P := fun other => other.height measure ≤ most less)
        (fun tokens other rest read => below less (Nat.lt_succ_self less) read)
        (List.forall_mem_nil _) block
      have body := Statement.blockHeight_le statements
      have further := grows less
      rw [Statement.height]
      omega

theorem height_le_of_ofText (grows : ∀ room, most room + 1 ≤ most (room + 1))
    (low : ∀ finish room tokens e rest,
      Reads finish (.expression BinaryOp.loosest) room tokens e rest → measure e ≤ most room)
    {text : String} {program : Program} (read : Program.ofText text = .ok program) :
    Statement.blockHeight measure program.statements ≤ most maxNesting := by
  obtain ⟨tokens, scanned, parsed⟩ := bind_ok.mp read
  obtain ⟨⟨statements, after⟩, block, same⟩ := bind_ok.mp parsed
  cases same
  have statements := forall_of_readMany (P := fun other => other.height measure ≤ most maxNesting)
    (fun tokens other rest read => height_le_of_readStatement grows (low _) read)
    (List.forall_mem_nil _) block
  exact Statement.blockHeight_le statements

end Bounds

def addOnes (front : Layout) : Nat → Layout
  | 0 => front
  | count + 1 => (addOnes front count).fold .add [.token (.number 1)]

def addOnesTree (lhs : Expr) : Nat → Expr
  | 0 => lhs
  | count + 1 => .binary .add (addOnesTree lhs count) (.number 1)

/-- Draws in one another, each with ones added, as many as there is room for. -/
def tower : Nat → Layout
  | 0 => [.token (.number 0)]
  | room + 1 => addOnes (tower room).draw (room + 1)

def towerTree : Nat → Expr
  | 0 => .number 0
  | room + 1 => addOnesTree (.random (towerTree room)) (room + 1)

theorem height_addOnesTree (lhs : Expr) (count : Nat) :
    (addOnesTree lhs count).height = lhs.height + count := by
  induction count with
  | zero => rfl
  | succ count ih =>
    simp only [addOnesTree, Expr.height, ih]
    omega

theorem height_towerTree (room : Nat) : (towerTree room).height = tallest room := by
  induction room with
  | zero => rfl
  | succ room ih =>
    rw [towerTree, height_addOnesTree, Expr.height, ih, tallest]
    omega

theorem writes_addOnes {front : Layout} {lhs : Expr} {need : Nat}
    (written : Writes .unary front lhs need 0) (count : Nat) :
    Writes .additive (addOnes front count) (addOnesTree lhs count) (max need count) count := by
  induction count with
  | zero =>
    rw [Nat.max_zero]
    exact written.loosen (Layer.le_level_unary _)
  | succ count ih =>
    have one : Writes .term [.token (.number 1)] (.number 1) 0 0 :=
      (Writes.number (by decide : 1 ≤ 2 ^ 63 - 1)).loosen (Layer.le_level_unary _)
    have longer := ih.fold rfl (by decide : BinaryOp.add ∈ [.add, .sub]) one
    have levels : max (max need count) (count + (0 + 1)) = max need (count + 1) := by omega
    rwa [levels] at longer

theorem writes_tower (room : Nat) : ∃ used, Writes .or (tower room) (towerTree room) room used := by
  induction room with
  | zero => exact ⟨0, (Writes.number (Nat.zero_le _)).loosen (Layer.level_or_le _)⟩
  | succ room ih =>
    obtain ⟨used, written⟩ := ih
    have ones := writes_addOnes written.draw (room + 1)
    rw [Nat.max_self] at ones
    exact ⟨room + 1, ones.loosen (Layer.level_or_le _)⟩

/-- No smaller bound holds of all texts. -/
theorem exists_text_of_tallest : ∃ text program,
    Program.ofText text = .ok program ∧ program.height = tallest maxNesting := by
  obtain ⟨used, written⟩ := writes_tower maxNesting
  have bound : IsName "a" := ⟨⟨rfl, rfl⟩, by decide⟩
  have read := (ofText_binding bound written).1 (Nat.le_refl _)
  refine ⟨_, _, read, ?_⟩
  rw [Program.height, Statement.blockHeight, Statement.blockHeight, Statement.height,
    height_towerTree, Nat.max_zero]

def nots : Nat → Layout
  | 0 => [.token (.name "x")]
  | count + 1 => .token .not :: nots count

theorem text_nots (count : Nat) : (nots count).text = List.replicate count '!' ++ ['x'] := by
  induction count with
  | zero => rfl
  | succ count ih =>
    rw [nots, Layout.text_cons, ih]
    rfl

theorem writes_nots (count : Nat) : ∃ e, Writes .unary (nots count) e count 0 ∧ e.height = count := by
  induction count with
  | zero => exact ⟨.ident "x", .name ⟨⟨rfl, rfl⟩, by decide⟩, rfl⟩
  | succ count ih =>
    obtain ⟨e, written, height⟩ := ih
    refine ⟨.unary .not e, written.prefixed rfl, ?_⟩
    rw [Expr.height, height, Nat.add_comm]

end Source

/-- A program keeps to the nesting limit just when its left operands do, each in its place. With any
left operands its height is bounded by a square of the limit. -/
theorem height_is_capped_beside_left_operands (text : String) (program : Program)
    (read : Program.ofText text = .ok program) :
    (program.height ≤ maxNesting ↔
      ∀ part ∈ program.leftOperands, part.1 + part.2.height ≤ maxNesting) ∧
    2 * program.height ≤ maxNesting * (maxNesting + 3) := by
  have right : program.rightHeight ≤ maxNesting :=
    height_le_of_ofText (fun room => Nat.le_refl (room + 1)) (fun _ _ _ _ _ read => read.rightHeight)
      read
  have whole : program.height ≤ tallest maxNesting := by
    refine height_le_of_ofText (fun room => ?_) (fun _ _ _ _ _ read => read.height) read
    rw [tallest]
    omega
  refine ⟨?_, ?_⟩
  · rw [program.height_le_iff]
    exact and_iff_right right
  · rw [← two_mul_tallest]
    exact Nat.mul_le_mul_left 2 whole

theorem height_is_capped_beside_left_operands_guarded :
    let text := "if (!rand(3) == 1) \x7b let a = !0 + 1; \x7d"
    let one : Expr := .number 1
    let program : Program := ⟨[.guarded (.binary .eq (.unary .not (.random (.number 3))) one)
      [.bind "a" (.binary .add (.unary .not (.number 0)) one) ⟨1, 1⟩] ⟨1, 1⟩]⟩
    Program.ofText text = .ok program ∧
      program.leftOperands = [(2, .unary .not (.random (.number 3))), (2, .unary .not (.number 0))] ∧
      program.height ≤ maxNesting ∧ 2 * program.height ≤ maxNesting * (maxNesting + 3) := by
  intro text one program
  have read : Program.ofText text = .ok program := by decide +kernel
  obtain ⟨capped, bounded⟩ := height_is_capped_beside_left_operands text program read
  have left : program.leftOperands =
      [(2, .unary .not (.random (.number 3))), (2, .unary .not (.number 0))] := rfl
  refine ⟨read, left, capped.mpr ?_, bounded⟩
  rw [left]
  decide

/-- Operators before an operand give their levels back to the chain that it begins. -/
theorem tree_higher_than_nesting_limit :
    ∃ program, Program.ofText ("let a = " ++ String.ofList (List.replicate maxNesting '!') ++
      "x + 1;") = .ok program ∧ maxNesting < program.height := by
  obtain ⟨e, written, height⟩ := writes_nots maxNesting
  have bound : IsName "a" := ⟨⟨rfl, rfl⟩, by decide⟩
  have sum := writes_addOnes written 1
  have read := (ofText_binding bound (sum.loosen (Layer.level_or_le _))).1 (by decide)
  have text : "let " ++ "a" ++ " = " ++ String.ofList (addOnes (nots maxNesting) 1).text ++ ";" =
      "let a = " ++ String.ofList (List.replicate maxNesting '!') ++ "x + 1;" := by
    have one : Nat.toDigits 10 1 = ['1'] := rfl
    apply String.toList_inj.mp
    simp [addOnes, Layout.fold, text_nots, Piece.text, Token.spelling, BinaryOp.symbol, one]
  rw [text] at read
  refine ⟨_, read, ?_⟩
  rw [Program.height, Statement.blockHeight, Statement.blockHeight, Statement.height,
    height_addOnesTree, height, Nat.max_zero]
  decide

end BranchLab
