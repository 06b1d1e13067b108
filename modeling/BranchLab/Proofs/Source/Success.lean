import BranchLab.Proofs.Source.Reading

/-! Readings that succeed, as trees of their steps. The reader is opened here once: what holds of all
expressions that are read follows by induction on these trees, and a statement is read in one of two
ways. -/

namespace BranchLab.Source

/-- What is read: an operand, the infix operations after an expression that bind at least as tightly
as `least`, or an operand together with them. -/
inductive Part where
  | operand
  | chain (least : Nat) (lhs : Expr)
  | expression (least : Nat)

/-- A part is read with `room` levels of nesting: the tokens give an expression, and others are
left. -/
inductive Reads (finish : Location) : Part → Nat → Tokens → Expr → Tokens → Prop where
  | number (place : Location) {room n : Nat} {rest : Tokens} (fits : n ≤ 2 ^ 63 - 1) :
      Reads finish .operand room (⟨.number n, place⟩ :: rest) (.number (Int64.ofNat n)) rest
  | negative (minus place : Location) {room n : Nat} {rest : Tokens} (fits : n ≤ 2 ^ 63) :
      Reads finish .operand room (⟨.op .sub, minus⟩ :: ⟨.number n, place⟩ :: rest)
        (.number (Int64.ofInt (-(n : Int)))) rest
  | name (place : Location) (text : String) {room : Nat} {rest : Tokens} :
      Reads finish .operand room (⟨.name text, place⟩ :: rest) (.ident text) rest
  | prefixed {room : Nat} {head : Located} {op : UnaryOp} {tokens rest : Tokens} {operand : Expr}
      (opens : head.token.opening? = some (.unary op))
      (inner : Reads finish .operand room tokens operand rest) :
      Reads finish .operand (room + 1) (head :: tokens) (.unary op operand) rest
  | draw (word opening closing : Location) {room : Nat} {tokens rest : Tokens} {bound : Expr}
      (inner : Reads finish (.expression BinaryOp.loosest) room tokens bound
        (⟨.closeParen, closing⟩ :: rest)) :
      Reads finish .operand (room + 1) (⟨.randWord, word⟩ :: ⟨.openParen, opening⟩ :: tokens)
        (.random bound) rest
  | group (opening closing : Location) {room : Nat} {tokens rest : Tokens} {e : Expr}
      (inner : Reads finish (.expression BinaryOp.loosest) room tokens e
        (⟨.closeParen, closing⟩ :: rest)) :
      Reads finish .operand (room + 1) (⟨.openParen, opening⟩ :: tokens) e rest
  | done {room least : Nat} {lhs : Expr} {tokens : Tokens} (ends : EndsChain least tokens) :
      Reads finish (.chain least lhs) room tokens lhs tokens
  | fold (place : Location) {room least : Nat} {op : BinaryOp} {lhs rhs e : Expr}
      {tokens middle rest : Tokens} (binds : least ≤ op.precedence)
      (operand : Reads finish (.expression (op.precedence + 1)) room tokens rhs middle)
      (others : Reads finish (.chain least (.binary op lhs rhs)) room middle e rest) :
      Reads finish (.chain least lhs) (room + 1) (⟨.op op, place⟩ :: tokens) e rest
  | whole {room least : Nat} {lhs e : Expr} {tokens middle rest : Tokens}
      (first : Reads finish .operand room tokens lhs middle)
      (others : Reads finish (.chain least lhs) room middle e rest) :
      Reads finish (.expression least) room tokens e rest

section Success

variable {finish : Location} {room : Nat} {tokens rest : Tokens} {e : Expr}

theorem atom_reads {head : Located} (read : readAtom finish head tokens = .ok (e, rest)) :
    Reads finish .operand room (head :: tokens) e rest := by
  obtain ⟨token, place⟩ := head
  unfold readAtom at read
  split at read
  · rename_i n same
    cases same
    split at read
    · cases read
      exact .number place (by omega)
    · cases read
  · rename_i same
    cases same
    obtain ⟨⟨⟨digits, next⟩, after⟩, taken, inner⟩ := bind_ok.mp read
    have first := (take_ok finish).mp taken
    subst first
    dsimp only at inner
    split at inner
    · rename_i n
      split at inner
      · rename_i fits
        cases inner
        exact .negative place next fits
      · cases inner
    · cases inner
  · rename_i text same
    cases same
    cases read
    exact .name place text
  · cases read

def OperandsRead (finish : Location) (room : Nat) : Prop :=
  ∀ tokens e rest, readOperand finish room tokens = .ok (e, rest) →
    Reads finish .operand room tokens e rest

def ChainsRead (finish : Location) (room : Nat) : Prop :=
  ∀ least lhs tokens e rest, readChain finish room least lhs tokens = .ok (e, rest) →
    Reads finish (.chain least lhs) room tokens e rest

theorem expression_reads (operands : OperandsRead finish room) (chains : ChainsRead finish room)
    {least : Nat} (read : readInfix finish room least tokens = .ok (e, rest)) :
    Reads finish (.expression least) room tokens e rest := by
  obtain ⟨⟨lhs, middle⟩, first, others⟩ := bind_ok.mp read
  exact .whole (operands _ _ _ first) (chains _ _ _ _ _ others)

theorem enclosed_reads (operands : OperandsRead finish room) (chains : ChainsRead finish room)
    (make : Expr → Expr)
    (read : (do
      let (inner, rest) ← readExpr finish room tokens
      let (_, rest) ← expect finish .closeParen rest
      return (make inner, rest)) = .ok (e, rest)) :
    ∃ inner closing, e = make inner ∧ Reads finish (.expression BinaryOp.loosest) room tokens inner
      (⟨.closeParen, closing⟩ :: rest) := by
  obtain ⟨⟨inner, after⟩, expression, closed⟩ := bind_ok.mp read
  obtain ⟨⟨closing, behind⟩, parenthesis, same⟩ := bind_ok.mp closed
  cases same
  have next := (expect_ok finish).mp parenthesis
  subst next
  exact ⟨inner, closing, rfl, expression_reads operands chains expression⟩

theorem operandsRead (below : ∀ less < room, OperandsRead finish less ∧ ChainsRead finish less) :
    OperandsRead finish room := by
  intro tokens e rest read
  match tokens with
  | [] => simp [readOperand, take, bind, Except.bind] at read
  | ⟨token, place⟩ :: tokens =>
    cases opens : token.opening? with
    | none =>
      rw [readOperand_atom finish room tokens opens] at read
      exact atom_reads read
    | some opening =>
      cases room with
      | zero =>
        rw [readOperand_tooDeep finish tokens opens] at read
        cases read
      | succ room =>
        obtain ⟨operands, chains⟩ := below room (Nat.lt_succ_self room)
        cases opening with
        | unary op =>
          rw [readOperand_prefixed finish room tokens opens] at read
          obtain ⟨⟨operand, after⟩, inner, same⟩ := bind_ok.mp read
          cases same
          exact .prefixed opens (operands _ _ _ inner)
        | draw =>
          rw [readOperand_draw finish room tokens opens] at read
          obtain ⟨⟨opening, after⟩, parenthesis, inner⟩ := bind_ok.mp read
          obtain ⟨bound, closing, same, inside⟩ := enclosed_reads operands chains .random inner
          have word : token = .randWord := by
            cases token <;> cases opens
            rfl
          rw [(expect_ok finish).mp parenthesis, word, same]
          exact .draw place opening closing inside
        | group =>
          rw [readOperand_group finish room tokens opens] at read
          obtain ⟨inner, closing, same, inside⟩ := enclosed_reads operands chains id read
          have parenthesis : token = .openParen := by
            cases token <;> cases opens
            rfl
          rw [same, parenthesis]
          exact .group place closing inside

theorem chainsRead (below : ∀ less < room, OperandsRead finish less ∧ ChainsRead finish less) :
    ChainsRead finish room := by
  intro least lhs tokens e rest read
  by_cases ends : EndsChain least tokens
  · rw [readChain_of_ends finish room lhs ends] at read
    cases read
    exact .done ends
  · obtain ⟨op, place, after, rfl, binds⟩ : ∃ op place after, tokens = ⟨.op op, place⟩ :: after ∧
        least ≤ op.precedence := by
      simpa [EndsChain] using ends
    cases room with
    | zero =>
      rw [readChain_tooDeep finish place lhs after binds] at read
      cases read
    | succ room =>
      obtain ⟨operands, chains⟩ := below room (Nat.lt_succ_self room)
      rw [readChain_op finish room place lhs after binds] at read
      obtain ⟨⟨rhs, middle⟩, operand, others⟩ := bind_ok.mp read
      exact .fold place binds (expression_reads operands chains operand) (chains _ _ _ _ _ others)

/-- Every opening token and operator leaves one level less for what it opens. -/
theorem operands_and_chains_read (finish : Location) (room : Nat) :
    OperandsRead finish room ∧ ChainsRead finish room := by
  induction room using Nat.strongRecOn with
  | ind room below => exact ⟨operandsRead below, chainsRead below⟩

theorem reads_of_readInfix {least : Nat}
    (read : readInfix finish room least tokens = .ok (e, rest)) :
    Reads finish (.expression least) room tokens e rest :=
  expression_reads (operands_and_chains_read finish room).1 (operands_and_chains_read finish room).2
    read

end Success

section Equations

variable (finish : Location) (room : Nat) (word : Location) (rest : Tokens)

theorem takeName_ok {tokens rest : Tokens} {name : String} :
    takeName finish tokens = .ok (name, rest) ↔ ∃ place, tokens = ⟨.name name, place⟩ :: rest := by
  rw [takeName, bind_ok]
  constructor
  · rintro ⟨⟨⟨token, place⟩, after⟩, taken, same⟩
    have first := (take_ok finish).mp taken
    dsimp only at same
    split at same <;> cases same
    exact ⟨place, first⟩
  · rintro ⟨place, rfl⟩
    exact ⟨(⟨.name name, place⟩, rest), rfl, rfl⟩

theorem readStatement_bind :
    readStatement finish room (⟨.letWord, word⟩ :: rest) = (do
      let (name, rest) ← takeName finish rest
      let (_, rest) ← expect finish .assign rest
      let (value, rest) ← readExpr finish room rest
      let (last, rest) ← expect finish .semicolon rest
      return (.bind name value ⟨word.line, last.line⟩, rest)) := by
  unfold readStatement
  rfl

theorem readStatement_tooDeep :
    readStatement finish 0 (⟨.ifWord, word⟩ :: rest) = .error ⟨word, .nestingTooDeep⟩ := by
  unfold readStatement
  rfl

theorem readStatement_guarded :
    readStatement finish (room + 1) (⟨.ifWord, word⟩ :: rest) = (do
      let (_, rest) ← expect finish .openParen rest
      let (cond, rest) ← readExpr finish room rest
      let (_, rest) ← expect finish .closeParen rest
      let (_, rest) ← expect finish .openBrace rest
      let (body, rest) ←
        readMany (readStatement finish room) (· = .closeBrace) rest.length [] rest
      let (last, rest) ← expect finish .closeBrace rest
      return (.guarded cond body ⟨word.line, last.line⟩, rest)) := by
  conv => lhs; unfold readStatement
  rfl

end Equations

inductive StatementReads (finish : Location) : Nat → Tokens → Statement → Tokens → Prop where
  | bind (word named assign last : Location) (name : String) {room : Nat} {tokens rest : Tokens}
      {value : Expr} (valued : readExpr finish room tokens = .ok (value, ⟨.semicolon, last⟩ :: rest)) :
      StatementReads finish room
        (⟨.letWord, word⟩ :: ⟨.name name, named⟩ :: ⟨.assign, assign⟩ :: tokens)
        (.bind name value ⟨word.line, last.line⟩) rest
  | guarded (word opening closing brace last : Location) {room : Nat} {tokens inner rest : Tokens}
      {cond : Expr} {body : List Statement}
      (guard : readExpr finish room tokens =
        .ok (cond, ⟨.closeParen, closing⟩ :: ⟨.openBrace, brace⟩ :: inner))
      (block : readMany (readStatement finish room) (· = .closeBrace) inner.length [] inner =
        .ok (body, ⟨.closeBrace, last⟩ :: rest)) :
      StatementReads finish (room + 1) (⟨.ifWord, word⟩ :: ⟨.openParen, opening⟩ :: tokens)
        (.guarded cond body ⟨word.line, last.line⟩) rest

section Statements

variable {finish : Location} {room : Nat} {tokens rest : Tokens} {statement : Statement}

theorem bind_reads {word : Location}
    (read : readStatement finish room (⟨.letWord, word⟩ :: tokens) = .ok (statement, rest)) :
    StatementReads finish room (⟨.letWord, word⟩ :: tokens) statement rest := by
  rw [readStatement_bind] at read
  obtain ⟨⟨name, afterName⟩, named, read⟩ := bind_ok.mp read
  obtain ⟨⟨assign, afterAssign⟩, assigned, read⟩ := bind_ok.mp read
  obtain ⟨⟨value, afterValue⟩, valued, read⟩ := bind_ok.mp read
  obtain ⟨⟨last, behind⟩, semicolon, same⟩ := bind_ok.mp read
  cases same
  obtain ⟨place, rfl⟩ := (takeName_ok finish).mp named
  have sign := (expect_ok finish).mp assigned
  have finished := (expect_ok finish).mp semicolon
  subst sign finished
  exact .bind word place assign last name valued

theorem guarded_reads {word : Location}
    (read : readStatement finish (room + 1) (⟨.ifWord, word⟩ :: tokens) = .ok (statement, rest)) :
    StatementReads finish (room + 1) (⟨.ifWord, word⟩ :: tokens) statement rest := by
  rw [readStatement_guarded] at read
  obtain ⟨⟨opening, afterOpening⟩, opened, read⟩ := bind_ok.mp read
  obtain ⟨⟨cond, afterCond⟩, guard, read⟩ := bind_ok.mp read
  obtain ⟨⟨closing, afterClosing⟩, closed, read⟩ := bind_ok.mp read
  obtain ⟨⟨brace, afterBrace⟩, braced, read⟩ := bind_ok.mp read
  obtain ⟨⟨body, afterBody⟩, block, read⟩ := bind_ok.mp read
  obtain ⟨⟨last, behind⟩, finished, same⟩ := bind_ok.mp read
  cases same
  have first := (expect_ok finish).mp opened
  have second := (expect_ok finish).mp closed
  have third := (expect_ok finish).mp braced
  have fourth := (expect_ok finish).mp finished
  subst first second third fourth
  exact .guarded word opening closing brace last guard block

theorem statementReads (read : readStatement finish room tokens = .ok (statement, rest)) :
    StatementReads finish room tokens statement rest := by
  obtain ⟨⟨⟨token, place⟩, tail⟩, taken, next⟩ :
      ∃ value, take finish .statement tokens = .ok value ∧ _ := by
    have opened := read
    unfold readStatement at opened
    exact bind_ok.mp opened
  have first := (take_ok finish).mp taken
  subst first
  dsimp only at next
  split at next
  · exact bind_reads read
  · cases room with
    | zero =>
      rw [readStatement_tooDeep] at read
      cases read
    | succ room => exact guarded_reads read
  · cases next

end Statements

end BranchLab.Source
